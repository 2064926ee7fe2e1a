import Mathlib.Data.Fintype.Basic
import Uniset.Lib.SortedMap
import Uniset.Modbus.ModbusMessage
import Uniset.Processes.USensorInfo
import Uniset.Lib.Floats

/-! The registers in which a slave has its sensors. -/

namespace Uniset.ModbusSlave

open Uniset.Lib Uniset.Modbus Uniset.Processes SlaveFunctionCode

inductive AccessMode
  | amRW
  | amRO
  | amWO
  deriving DecidableEq

/-- One word of a sensor's value in a register, or one bit of a register. -/
structure IOProperty where
  si : SensorInfo
  stype : IOType
  mbreg : ModbusData
  amode : AccessMode
  vtype : VType
  wnum : Nat
  nbyte : Nat
  deriving DecidableEq

/-- The bits of a register, with the sensors that are bound to them. -/
abbrev BitRegProperty := Fin 16 → Option IOProperty

/-- What is kept for a register: a word, or its bits. -/
structure Register where
  regID : Nat
  prop : IOProperty
  bitreg : Option BitRegProperty

abbrev RegMap := SortedMap Register Register.regID

structure MBSlave where
  checkMBFunc : Bool
  noMBFuncOptimize : Bool
  default_mbfunc : ModbusByte

/-- The settings of a sensor: `nbit` is -1 for a sensor that is not a bit, and `vtype` is what the name
of the type stands for, if there is one. -/
structure Item where
  si : SensorInfo
  stype : IOType
  mbreg : ModbusData
  mbfunc : Option ModbusByte
  amode : AccessMode
  nbit : Int
  vtype : Option VType
  nbyte : Nat
  deriving DecidableEq

variable (conf : MBSlave)

/-- A function that writes one register stands for the one that writes several. -/
def MBSlave.getOptimizeWriteFunction (fn : ModbusByte) : ModbusByte :=
  if conf.noMBFuncOptimize then fn
  else if fn = fnWriteOutputSingleRegister.code then fnWriteOutputRegisters.code
  else if fn = fnForceSingleCoil.code then fnForceMultipleCoils.code
  else fn

/-- Whether a sensor has one of the bits. -/
def BitRegProperty.check (b : BitRegProperty) (si : SensorInfo) : Bool :=
  (List.finRange 16).any fun n => (b n).any (·.si = si)

/-- An index that is out of range is outside of the vector. -/
def BitRegProperty.set (b : BitRegProperty) (nbit : Int) (p : IOProperty) : BitRegProperty :=
  fun n => if (n.val : Int) = nbit then some p else b n

namespace Item

/-- The function that the registers of a sensor are kept for. -/
def mbfunc' (it : Item) : ModbusByte :=
  conf.getOptimizeWriteFunction
    (if conf.checkMBFunc then it.mbfunc.getD conf.default_mbfunc else conf.default_mbfunc)

def bit (it : Item) : IOProperty := ⟨it.si, it.stype, it.mbreg, it.amode, .vtUnknown, 0, 0⟩

/-- The words of a value, which take one register each. -/
def word (it : Item) (wnum : Nat) : IOProperty :=
  { it.bit with
    mbreg := it.mbreg + UInt16.ofNat wnum
    vtype := it.vtype.getD .vtUnknown
    wnum := wnum
    nbyte := if it.vtype = some .vtByte then it.nbyte else 0 }

def wsize (it : Item) : Nat := (it.vtype.getD .vtUnknown).wsize

def wordRegister (it : Item) (wnum : Nat) : Register :=
  ⟨genRegID (it.mbreg + UInt16.ofNat wnum) (it.mbfunc' conf), it.word wnum, none⟩

@[simp] theorem wordRegister_regID (it : Item) (wnum : Nat) : (it.wordRegister conf wnum).regID =
    genRegID (it.mbreg + UInt16.ofNat wnum) (it.mbfunc' conf) := rfl

end Item

/-- A sensor that is one bit of its register; `none` if it is refused. -/
def initBit (it : Item) (m : RegMap) : Option RegMap :=
  let regID := genRegID it.mbreg (it.mbfunc' conf)
  if 16 ≤ it.nbit then none
  else
    match m.find regID with
    | some r =>
      match r.bitreg with
      | none => none
      | some bitreg =>
        if BitRegProperty.check bitreg it.si then none
        else some (m.insert { r with bitreg := some (BitRegProperty.set bitreg it.nbit it.bit) })
    | none =>
      let bitreg := BitRegProperty.set (fun _ => none) it.nbit it.bit
      some (m.insert ⟨regID, { it.bit with mbreg := 0 }, some bitreg⟩)

/-- The further words of a value. -/
def addWords (it : Item) : List Nat → RegMap → RegMap
  | [], m => m
  | i :: is, m => addWords it is (m.insert (it.wordRegister conf i))

/-- A sensor is put into the registers; `none` if it is refused, or the program is aborted. -/
def initItem (it : Item) (m : RegMap) : Option RegMap :=
  if it.nbit ≠ -1 then initBit conf it m
  else if (m.find (genRegID it.mbreg (it.mbfunc' conf))).isSome then none
  else if it.vtype = some .vtUnknown then none
  else if it.vtype = some .vtByte ∧ (it.nbyte = 0 ∨ 2 < it.nbyte) then none
  else some (addWords conf it (List.range it.wsize) m)

def initItems (items : List Item) : Option RegMap :=
  items.foldlM (fun m it => initItem conf it m) .empty

/-- The identifier by which a register is looked up for a request. -/
def MBSlave.requestID (mbreg : ModbusData) (fn : ModbusByte) : Nat :=
  genRegID mbreg (if conf.checkMBFunc then fn else conf.default_mbfunc)

end Uniset.ModbusSlave

/-! One register is read. -/

namespace Uniset.ModbusSlave

open Uniset.Lib Uniset.Modbus Uniset.Processes

/-- What the sensors of registers give when they are asked, the float by its bits; what is thrown is an
error of the reply. -/
structure Sensors where
  processingAsDO : IOProperty → Except mbErrCode Bool
  processingAsAO : IOProperty → Except mbErrCode Int
  processingFasAO : IOProperty → Except mbErrCode UInt32

/-- A word of a value in memory, the low one first. -/
def wordOf (bits n : Nat) : ModbusData := .ofNat (bits / 2 ^ (16 * n))

/-- The memory of an integer of 32 bits. -/
def memory32 (v : Int) : Nat := (v % 2 ^ 32).toNat

/-- The words of a value are kept in the places of the word that is asked for. -/
def analogWord (s : Sensors) (p : IOProperty) : Except mbErrCode ModbusData :=
  match p.vtype with
  | .vtF2 => (s.processingFasAO p).map fun f => wordOf f.toNat p.wnum
  | .vtF2r => (s.processingFasAO p).map fun f => wordOf f.toNat (1 - p.wnum)
  | .vtF4 => (s.processingFasAO p).map fun f => wordOf (doubleOfFloat f).toNat p.wnum
  | .vtI2 | .vtU2 => (s.processingAsAO p).map fun v => wordOf (memory32 v) p.wnum
  | .vtI2r | .vtU2r => (s.processingAsAO p).map fun v => wordOf (memory32 v) (1 - p.wnum)
  | .vtUnknown | .vtByte | .vtUnsigned | .vtSigned => (s.processingAsAO p).map UInt16.ofInt

def real_read_prop (s : Sensors) (p : IOProperty) : Except mbErrCode ModbusData :=
  if p.amode = .amWO then .error erBadDataAddress
  else if p.stype = .DI ∨ p.stype = .DO then
    (s.processingAsDO p).map fun set => if set then 1 else 0
  else analogWord s p

/-- What is left in `val` after a read: it is zero before anything is read. -/
def readValue : Except mbErrCode ModbusData → ModbusData
  | .ok val => val
  | .error _ => 0

/-- A bit whose sensor cannot be read is zero. -/
def real_bitreg_read_it (s : Sensors) (bp : BitRegProperty) : Except mbErrCode ModbusData :=
  .ok ((List.finRange 16).foldl (fun d i =>
    match bp i with
    | none => d
    | some p => if readValue (real_read_prop s p) = 0 then d else d ||| 1 <<< UInt16.ofNat i) 0)

def real_read_it (s : Sensors) (r : Register) : Except mbErrCode ModbusData :=
  match r.bitreg with
  | some bp => real_bitreg_read_it s bp
  | none => real_read_prop s r.prop

variable (conf : MBSlave)

def real_read (s : Sensors) (m : RegMap) (reg : ModbusData) (fn : ModbusByte) :
    Except mbErrCode ModbusData :=
  match m.find (conf.requestID reg fn) with
  | none => .error erBadDataAddress
  | some r => real_read_it s r

end Uniset.ModbusSlave
