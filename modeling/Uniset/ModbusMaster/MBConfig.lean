import Uniset.Core
import Uniset.Lib.SortedMap
import Uniset.Modbus.ModbusMessage
import Uniset.Lib.Floats

/-! The registers a master exchanges with a device of the type RTU, as they are configured. -/

namespace Uniset.ModbusMaster

open Uniset.Lib Uniset.Modbus SlaveFunctionCode

/-- What a sensor has in a register: its type, and the bit, the byte or the bits of a mask. -/
structure RSProperty where
  si : SensorInfo
  nbit : Option (Fin 16)
  vType : VType
  rnum : Nat
  nbyte : Nat
  mask : UInt16
  offset : Nat
  deriving DecidableEq

structure RegInfo where
  mbval : ModbusData
  mbreg : ModbusData
  mbfunc : ModbusByte
  slst : List RSProperty
  regID : Nat
  q_num : Nat
  q_count : Nat
  mb_initOK : Bool
  sm_initOK : Bool
  mbval_changed : Bool
  deriving DecidableEq

abbrev RegMap := SortedMap RegInfo RegInfo.regID

/-- A register that is read before it is written for the first time.  `ri` is the identifier of the
register, `pollfactor` that of its map. -/
structure InitRegInfo where
  p : RSProperty
  mbreg : ModbusData
  mbfunc : ModbusByte
  initOK : Bool
  pollfactor : Nat
  ri : Nat
  deriving DecidableEq

structure RTUDevice where
  pollmap : List (Nat × RegMap)
  initRegList : List InitRegInfo

/-- The settings of the exchange that concern the registers. -/
structure MBConfig where
  defaultMBinitOK : Bool
  init_mbval_changed : Bool

/-- The settings of a sensor. -/
structure Item where
  p : RSProperty
  mbreg : ModbusData
  mbfunc : ModbusByte
  pollfactor : Nat
  default : ModbusData
  sm_initOK : Bool
  init_mbval_changed : Option Bool
  preinit : Bool
  init_mbreg : Option ModbusData
  init_mbfunc : Option ModbusByte

/-- The registers with this factor are written when their values change. -/
def changeOnlyWrite : Nat := 65535

def RTUDevice.regMap (dev : RTUDevice) (pollfactor : Nat) : RegMap :=
  (dev.pollmap.lookup pollfactor).getD .empty

def RTUDevice.setRegMap (dev : RTUDevice) (pollfactor : Nat) (m : RegMap) : RTUDevice :=
  { dev with pollmap := (pollfactor, m) :: dev.pollmap.filter (·.1 ≠ pollfactor) }

/-- Whether there is such a register in a map other than the one with the factor `rmap`. -/
def RTUDevice.checkDuplicationRegID (dev : RTUDevice) (id : Nat) (rmap : Option Nat) : Bool :=
  dev.pollmap.any fun d => some d.1 ≠ rmap ∧ (d.2.find id).isSome

/-- The register with the identifier, made from the settings if there is none. -/
def addReg (m : RegMap) (id : Nat) (r : ModbusData) (it : Item) : RegInfo :=
  (m.find id).getD ⟨it.default, r, it.mbfunc, [], id, 0, 1, false, false, true⟩

/-- A sensor is added once. -/
def addProp (plist : List RSProperty) (p : RSProperty) : List RSProperty :=
  if plist.any (·.si = p.si) then plist else plist ++ [p]

/-- Whether words that are written overlap with what is configured already. -/
def overlaps (dev : RTUDevice) (it : Item) : Bool :=
  if it.mbfunc = fnWriteOutputSingleRegister.code then
    dev.checkDuplicationRegID (genRegID it.mbreg fnWriteOutputRegisters.code) none
  else if it.mbfunc = fnWriteOutputRegisters.code then
    (List.range it.p.rnum).any fun i =>
      dev.checkDuplicationRegID
        (genRegID (it.mbreg + UInt16.ofNat i) fnWriteOutputSingleRegister.code) none ∨
      dev.checkDuplicationRegID
        (genRegID (it.mbreg + UInt16.ofNat i) fnWriteOutputRegisters.code) none
  else false

/-- Whether a sensor cannot share a register that is written with the others. -/
def conflicts (slst : List RSProperty) (p : RSProperty) : Bool :=
  (p.nbit = none ∧ p.mask = 0 ∧ slst ≠ []) ∨
  (p.nbit ≠ none ∧ slst.length = 1 ∧ slst.any (·.nbit = none)) ∨
  (p.mask ≠ 0 ∧ slst.any fun p₂ => p₂.mask = 0 ∨ p₂.mask &&& p.mask ≠ 0)

/-- The flags of a register, before it is exchanged. -/
def initFlags (conf : MBConfig) (it : Item) (ri : RegInfo) : RegInfo :=
  if isWriteFunction ri.mbfunc then
    { ri with
      sm_initOK := it.sm_initOK
      mbval_changed := it.init_mbval_changed.getD conf.init_mbval_changed
      mb_initOK := true }
  else { ri with mb_initOK := conf.defaultMBinitOK, sm_initOK := false }

/-- The further words of a value. -/
def addWords (conf : MBConfig) (it : Item) (mbfunc : ModbusByte) : List Nat → RegMap → RegMap
  | [], m => m
  | i :: is, m =>
    let mbreg := it.mbreg + UInt16.ofNat i
    let r := addReg m (genRegID mbreg mbfunc) mbreg it
    addWords conf it mbfunc is (m.insert { r with
      q_num := i + 1
      q_count := 1
      mbfunc := mbfunc
      mb_initOK := conf.defaultMBinitOK
      sm_initOK := false })

def initMbfunc (mbfunc : ModbusByte) : ModbusByte :=
  if mbfunc = fnForceSingleCoil.code ∨ mbfunc = fnForceMultipleCoils.code then
    fnReadCoilStatus.code
  else fnReadOutputRegisters.code

/-- The register of a sensor, once the sensor is in its list. -/
def initReg (conf : MBConfig) (it : Item) (ri : RegInfo) : RegInfo :=
  { initFlags conf it ri with slst := addProp ri.slst it.p }

/-- How many words the value of the sensor has, by what is in the list for it. -/
def valueWords (it : Item) (ri : RegInfo) : Nat :=
  ((ri.slst.find? (·.si = it.p.si)).getD it.p).rnum

/-- A sensor is added to the registers of its device; `none` if the settings are refused. -/
def initItem (conf : MBConfig) (it : Item) (dev : RTUDevice) : Option RTUDevice :=
  let rmap := dev.regMap it.pollfactor
  let dev := dev.setRegMap it.pollfactor rmap
  let rID := genRegID it.mbreg it.mbfunc
  let ri := addReg rmap rID it.mbreg it
  let p1 := initReg conf it ri
  let rnum := valueWords it p1
  if it.pollfactor = changeOnlyWrite ∧ ¬isWriteFunction it.mbfunc then none
  else if dev.checkDuplicationRegID rID (some it.pollfactor) then none
  else if overlaps dev it then none
  else if isWriteFunction ri.mbfunc ∧ conflicts ri.slst it.p then none
  else if 1 < rnum ∧ isWriteFunction ri.mbfunc ∧ ri.mbfunc ≠ fnWriteOutputRegisters.code then none
  else
    let p1 := if 1 < rnum then { p1 with q_count := rnum, q_num := 1 } else p1
    let rmap := addWords conf it p1.mbfunc ((List.range rnum).drop 1) (rmap.insert p1)
    if it.preinit ∧ isWriteFunction p1.mbfunc then
      let ii : InitRegInfo := ⟨it.p, it.init_mbreg.getD p1.mbreg,
        it.init_mbfunc.getD (initMbfunc p1.mbfunc), false, it.pollfactor, rID⟩
      let ri := { (rmap.find rID).getD p1 with mb_initOK := false, sm_initOK := false }
      let dev := dev.setRegMap it.pollfactor (rmap.insert ri)
      some { dev with initRegList := dev.initRegList ++ [ii] }
    else some (dev.setRegMap it.pollfactor rmap)

/-- The registers of a device after all the sensors have been added. -/
def initItems (conf : MBConfig) (items : List Item) : Option RTUDevice :=
  items.foldlM (fun dev it => initItem conf it dev) ⟨[], []⟩

end Uniset.ModbusMaster

/-! What a sensor has in a register, by its settings. -/

namespace Uniset.ModbusMaster

open Uniset.Lib Uniset.Modbus

/-- The settings that are there; a type that is not known is none. -/
structure RSSettings where
  si : SensorInfo
  nbit : Option Int
  nbyte : Option Int
  vtype : Option (Option VType)
  mbmask : Option Int

/-- The number of the lowest bit that is set; the fuel is for the bits. -/
def lowestBit : Nat → Nat → Nat
  | 0, _ => 0
  | n + 1, mask => if mask = 0 ∨ mask % 2 = 1 then 0 else lowestBit n (mask / 2) + 1

def firstBit (mask : UInt16) : Nat := lowestBit 16 mask.toNat

/-- A bit is kept in a signed byte before it is checked. -/
def initNbit : Option Int → Option (Option (Fin 16))
  | none => some none
  | some n =>
    if h : 0 ≤ cutTo 8 n ∧ cutTo 8 n < 16 then some (some ⟨(cutTo 8 n).toNat, by omega⟩) else none

def initNbyte : Option Int → Option Nat
  | none => some 0
  | some n => if (n % 256).toNat ≤ 2 then some (n % 256).toNat else none

def initMask (p : RSProperty) : Option Int → Option RSProperty
  | none => some p
  | some m =>
    let mask := UInt16.ofInt m
    if p.nbit ≠ none ∨ 0 < p.nbyte ∨ mask = 0 then none
    else some { p with mask := mask, offset := firstBit mask }

def initRSProperty (s : RSSettings) : Option RSProperty := do
  let nbit ← initNbit s.nbit
  let nbyte ← initNbyte s.nbyte
  let vType ← s.vtype.getD (some .vtUnknown)
  initMask ⟨s.si, nbit, vType, vType.wsize, nbyte, 0, 0⟩ s.mbmask

/-- A property as the settings can give it. -/
structure RSProperty.Accepted (p : RSProperty) : Prop where
  rnum : p.rnum = p.vType.wsize
  nbyte : p.nbyte ≤ 2
  mask : p.mask ≠ 0 → p.nbit = none ∧ p.nbyte = 0 ∧ p.offset = firstBit p.mask

theorem initNbyte_le {n : Option Int} {nbyte : Nat} (h : initNbyte n = some nbyte) : nbyte ≤ 2 := by
  cases n with
  | none =>
    cases h
    decide
  | some n =>
    simp only [initNbyte] at h
    split_ifs at h with hle
    cases h
    exact hle

theorem accepted_initMask {p q : RSProperty} {m : Option Int} (h : initMask p m = some q)
    (hp : p.Accepted) : q.Accepted ∧ q.si = p.si := by
  cases m with
  | none =>
    cases h
    exact ⟨hp, rfl⟩
  | some m =>
    simp only [initMask] at h
    split_ifs at h with hbad
    obtain ⟨hbit, hbyte, -⟩ : p.nbit = none ∧ p.nbyte = 0 ∧ UInt16.ofInt m ≠ 0 := by
      push Not at hbad
      exact ⟨hbad.1, Nat.le_zero.mp hbad.2.1, hbad.2.2⟩
    cases h
    exact ⟨⟨hp.rnum, hp.nbyte, fun _ => ⟨hbit, hbyte, rfl⟩⟩, rfl⟩

theorem accepted_initRSProperty {s : RSSettings} {p : RSProperty} (h : initRSProperty s = some p) :
    p.Accepted ∧ p.si = s.si := by
  simp only [initRSProperty, Option.bind_eq_bind, Option.bind_eq_some_iff] at h
  obtain ⟨nbit, -, nbyte, hnbyte, vType, -, h⟩ := h
  exact accepted_initMask h ⟨rfl, initNbyte_le hnbyte, fun h => absurd rfl h⟩

end Uniset.ModbusMaster
