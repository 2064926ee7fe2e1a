import Uniset.ModbusMaster.MBConfig

/-! The sensors that write the bits of a register.  Devices of all types, and the sensors of all of
them. -/

namespace Uniset.ModbusMaster

open Uniset.Lib Uniset.Modbus SlaveFunctionCode

inductive DeviceType
  | dtRTU
  | dtMTR
  | dtRTU188
  deriving DecidableEq

/-- `mtrWords` are the words of the type that is set for an MTR, none if it is not known; a threshold
sensor is not exchanged.  The property of the item is made of the settings. -/
structure Sensor where
  mbaddr : ModbusByte
  mbtype : DeviceType
  mtrWords : Nat
  threshold : Bool
  settings : RSSettings
  item : Item

def Sensor.itemOf (s : Sensor) (p : RSProperty) : Item := { s.item with p := p }

/-- For each register of an MTR the words of its type. -/
structure MBDevice where
  dtype : DeviceType
  regs : RTUDevice
  mtrWords : Nat → Nat → Nat

/-- The register `p1` of a sensor is put in its place, with the further words of its value and with
what is to be read before it is written. -/
def storeItem (conf : MBConfig) (it : Item) (dev : RTUDevice) (rmap : RegMap) (rID rnum : Nat)
    (p1 : RegInfo) : Option RTUDevice :=
  let p1 := if 1 < rnum then { p1 with q_count := rnum, q_num := 1 } else p1
  let rmap := addWords conf it p1.mbfunc ((List.range rnum).drop 1) (rmap.insert p1)
  if it.preinit ∧ isWriteFunction p1.mbfunc then
    let ii : InitRegInfo := ⟨it.p, it.init_mbreg.getD p1.mbreg,
      it.init_mbfunc.getD (initMbfunc p1.mbfunc), false, it.pollfactor, rID⟩
    let ri := { (rmap.find rID).getD p1 with mb_initOK := false, sm_initOK := false }
    let dev := dev.setRegMap it.pollfactor (rmap.insert ri)
    some { dev with initRegList := dev.initRegList ++ [ii] }
  else some (dev.setRegMap it.pollfactor rmap)

/-- A sensor is added as `initItem` does it, but after the words have been checked its property is
that of `it'`. -/
def initItemWith (conf : MBConfig) (it it' : Item) (dev : RTUDevice) : Option RTUDevice :=
  let rmap := dev.regMap it'.pollfactor
  let dev := dev.setRegMap it'.pollfactor rmap
  let rID := genRegID it'.mbreg it'.mbfunc
  let ri := addReg rmap rID it'.mbreg it'
  let p1 := initReg conf it' ri
  let rnum := valueWords it' p1
  if it'.pollfactor = changeOnlyWrite ∧ ¬isWriteFunction it'.mbfunc then none
  else if dev.checkDuplicationRegID rID (some it'.pollfactor) then none
  else if overlaps dev it then none
  else if isWriteFunction ri.mbfunc ∧ conflicts ri.slst it'.p then none
  else if 1 < rnum ∧ isWriteFunction ri.mbfunc ∧ ri.mbfunc ≠ fnWriteOutputRegisters.code then none
  else storeItem conf it' dev rmap rID rnum p1

/-- The words of the first register of a sensor by its type. -/
def MBDevice.wordsOf (dev : MBDevice) (s : Sensor) : Nat :=
  match (dev.regs.regMap s.item.pollfactor).find (genRegID s.item.mbreg s.item.mbfunc) with
  | some _ => dev.mtrWords s.item.pollfactor (genRegID s.item.mbreg s.item.mbfunc)
  | none => s.mtrWords

/-- The property once the type of the register is known. -/
def MBDevice.property (dev : MBDevice) (s : Sensor) (p : RSProperty) : RSProperty :=
  if dev.dtype = .dtMTR then { p with rnum := dev.wordsOf s } else p

/-- A register has the type of the sensor that it was made for. -/
def MBDevice.setWords (dev : MBDevice) (s : Sensor) : Nat → Nat → Nat := fun pollfactor id =>
  if pollfactor = s.item.pollfactor ∧ (dev.regs.regMap pollfactor).find id = none then s.mtrWords
  else dev.mtrWords pollfactor id

def MBDevice.addItem (conf : MBConfig) (s : Sensor) (p : RSProperty) (dev : MBDevice) :
    Option MBDevice :=
  let it := s.item
  if dev.dtype ≠ .dtRTU188 ∧ p.nbit ≠ none ∧
    (it.mbfunc = fnReadCoilStatus.code ∨ it.mbfunc = fnReadInputStatus.code) then none
  else if dev.dtype ≠ .dtRTU ∧ it.pollfactor = changeOnlyWrite then none
  else if dev.dtype = .dtMTR ∧ dev.wordsOf s = 0 then none
  else
    (initItemWith conf (s.itemOf p) (s.itemOf (dev.property s p)) dev.regs).map fun regs =>
      { dev with regs := regs, mtrWords := dev.setWords s }

abbrev Devices := ModbusByte → Option MBDevice

/-- The device of a sensor, which is added if it is not there. -/
def addDev (devices : Devices) (s : Sensor) : MBDevice :=
  (devices s.mbaddr).getD ⟨s.mbtype, ⟨[], []⟩, fun _ _ => 0⟩

def initSensor (conf : MBConfig) (devices : Devices) (s : Sensor) : Option Devices := do
  if s.threshold then some devices
  else
    let p ← initRSProperty s.settings
    let dev ← (addDev devices s).addItem conf s p
    some (Function.update devices s.mbaddr (some dev))

def readConfiguration (conf : MBConfig) (sensors : List Sensor) : Option Devices :=
  sensors.foldlM (initSensor conf) fun _ => none

/-! ## Who writes -/

/-- The bits of a register that a sensor has in it. -/
def RSProperty.Owns (p : RSProperty) (b : Fin 16) : Prop :=
  match p.nbit with
  | some n => b = n
  | none => p.mask = 0 ∨ p.mask.toNat.testBit b = true

/-- A bit of a register is written for a sensor: a value of an MTR and one of several words have
their registers as a whole. -/
structure Writes (dev : MBDevice) (mbfunc : ModbusByte) (mbreg : ModbusData) (b : Fin 16)
    (r : RegInfo) (p : RSProperty) (k : Nat) : Prop where
  mem : ∃ pollfactor, (dev.regs.regMap pollfactor).find r.regID = some r
  isWrite : isWriteFunction r.mbfunc = true
  mbfunc : r.mbfunc = mbfunc
  prop : p ∈ r.slst
  word : k < p.rnum
  mbreg : r.mbreg + UInt16.ofNat k = mbreg
  owns : dev.dtype = .dtMTR ∨ 1 < p.rnum ∨ p.Owns b

/-- No bit of a register is written for two sensors, and no register that is written alone is one of
several that are written at once. -/
structure Owned (dev : MBDevice) : Prop where
  sensor : ∀ {mbfunc mbreg b r p k r' p' k'}, Writes dev mbfunc mbreg b r p k →
    Writes dev mbfunc mbreg b r' p' k' → p.si = p'.si
  alone : ∀ {mbreg b r p k b' r' p' k'},
    Writes dev fnWriteOutputSingleRegister.code mbreg b r p k →
    ¬Writes dev fnWriteOutputRegisters.code mbreg b' r' p' k'

/-- A bit is not given to a sensor if another one of the register has it.  A register of an MTR has one
sensor, and the words of its value beyond those of the type that is set for it elsewhere are not
written.  The numbers of the registers are their own. -/
structure Apart (s : Sensor) (p : RSProperty) (dev : MBDevice) : Prop where
  number : ∀ k < max 1 (dev.property s p).rnum, ∀ r,
    (dev.regs.regMap s.item.pollfactor).find
      (genRegID (s.item.mbreg + UInt16.ofNat k) s.item.mbfunc) = some r →
    r.mbreg = s.item.mbreg + UInt16.ofNat k ∧ r.mbfunc = s.item.mbfunc
  bit : isWriteFunction s.item.mbfunc = true → ∀ r,
    (dev.regs.regMap s.item.pollfactor).find (genRegID s.item.mbreg s.item.mbfunc) = some r →
    ∀ p' ∈ r.slst, p'.si ≠ p.si → dev.dtype ≠ .dtMTR ∧ ∀ n, p.nbit = some n → ¬p'.Owns n
  words : dev.dtype = .dtMTR → overlaps dev.regs (s.itemOf (dev.property s p)) = false

/-! ## Maps of registers -/

theorem lookup_filter_of_ne {m : List (Nat × RegMap)} {a b : Nat} (h : b ≠ a) :
    (m.filter (·.1 ≠ a)).lookup b = m.lookup b := by
  induction m with
  | nil => rfl
  | cons d m ih =>
    obtain ⟨k, rmap⟩ := d
    by_cases hk : k = a
    · have hbk : (b == k) = false := beq_false_of_ne (hk ▸ h)
      rw [List.filter_cons_of_neg (by simpa using hk), ih, List.lookup_cons, hbk]
    · rw [List.filter_cons_of_pos (by simpa using hk), List.lookup_cons, List.lookup_cons, ih]

theorem regMap_setRegMap (dev : RTUDevice) (a b : Nat) (m : RegMap) :
    (dev.setRegMap a m).regMap b = if b = a then m else dev.regMap b := by
  unfold RTUDevice.regMap RTUDevice.setRegMap
  dsimp only
  split_ifs with h
  · rw [h, List.lookup_cons_self]
    rfl
  · rw [List.lookup_cons, beq_false_of_ne h]
    exact congrArg (Option.getD · _) (lookup_filter_of_ne h)

@[simp] theorem regMap_setRegMap_self (dev : RTUDevice) (a b : Nat) :
    (dev.setRegMap a (dev.regMap a)).regMap b = dev.regMap b := by
  rw [regMap_setRegMap]
  split_ifs with h
  · rw [h]
  · rfl

/-- Where no other register has the number, none is found. -/
theorem find_eq_none {dev : RTUDevice} {id : Nat} {rmap : Option Nat}
    (h : dev.checkDuplicationRegID id rmap ≠ true) {a : Nat} (ha : some a ≠ rmap) :
    (dev.regMap a).find id = none := by
  unfold RTUDevice.regMap
  cases hlookup : dev.pollmap.lookup a with
  | none => rfl
  | some m =>
    obtain ⟨before, after, hsplit, -⟩ := List.lookup_eq_some_iff.mp hlookup
    by_contra hfound
    refine h (List.any_eq_true.mpr ⟨(a, m), by simp [hsplit], ?_⟩)
    simpa [ha] using Option.isSome_iff_ne_none.mpr hfound

theorem find_eq_none_of_not_overlaps {dev : RTUDevice} {it : Item} (h : overlaps dev it ≠ true)
    {a k : Nat} (hk : k < it.p.rnum) (hfn : it.mbfunc = fnWriteOutputRegisters.code) :
    (dev.regMap a).find
        (genRegID (it.mbreg + UInt16.ofNat k) fnWriteOutputSingleRegister.code) = none ∧
      (dev.regMap a).find
        (genRegID (it.mbreg + UInt16.ofNat k) fnWriteOutputRegisters.code) = none := by
  unfold overlaps at h
  rw [if_neg (by rw [hfn]; decide), if_pos hfn] at h
  have hk' := mt (fun hdup => List.any_eq_true.mpr ⟨k, List.mem_range.mpr hk, hdup⟩) h
  obtain ⟨hsingle, hmany⟩ := not_or.mp (mt decide_eq_true hk')
  exact ⟨find_eq_none hsingle nofun, find_eq_none hmany nofun⟩

theorem find_eq_none_of_single {dev : RTUDevice} {it : Item} (h : overlaps dev it ≠ true) {a : Nat}
    (hfn : it.mbfunc = fnWriteOutputSingleRegister.code) :
    (dev.regMap a).find (genRegID it.mbreg fnWriteOutputRegisters.code) = none := by
  unfold overlaps at h
  rw [if_pos hfn] at h
  exact find_eq_none h nofun

/-- Two registers that are the same one but for the exchange. -/
structure Same (r r' : RegInfo) : Prop where
  mbreg : r'.mbreg = r.mbreg
  mbfunc : r'.mbfunc = r.mbfunc
  slst : r'.slst = r.slst

theorem Same.refl (r : RegInfo) : Same r r := ⟨rfl, rfl, rfl⟩

theorem Same.trans {r r' r'' : RegInfo} (h : Same r r') (h' : Same r' r'') : Same r r'' :=
  ⟨h'.mbreg.trans h.mbreg, h'.mbfunc.trans h.mbfunc, h'.slst.trans h.slst⟩

/-- For one function the numbers of the registers are their own. -/
theorem eq_of_genRegID_eq {r r' : ModbusData} {fn : ModbusByte} (h : genRegID r fn = genRegID r' fn) :
    r = r' := by
  obtain ⟨hsame, -⟩ | ⟨-, -, hfn⟩ | ⟨-, -, hfn⟩ := genRegID_eq_iff.mp h
  · exact hsame
  · omega
  · omega

section Words

variable {conf : MBConfig} {it : Item} {fn : ModbusByte} {is : List Nat} {m : RegMap} {id : Nat}

theorem regID_addReg (r : ModbusData) : (addReg m id r it).regID = id := by
  unfold addReg
  cases hfind : m.find id with
  | none => rfl
  | some ri => exact (SortedMap.mem_of_find hfind).2

theorem addReg_of_none (h : m.find id = none) (r : ModbusData) :
    addReg m id r it = ⟨it.default, r, it.mbfunc, [], id, 0, 1, false, false, true⟩ := by
  rw [addReg, h]
  rfl

theorem addReg_of_some {ri : RegInfo} (h : m.find id = some ri) (r : ModbusData) :
    addReg m id r it = ri := by
  rw [addReg, h]
  rfl

/-- Registers stay where they are. -/
theorem isSome_find_insert {m : RegMap} {r : RegInfo} (h : (m.find id).isSome) :
    ((m.insert r).find id).isSome := by
  rw [SortedMap.find_insert]
  split_ifs
  · rfl
  · exact h

/-- The register of a further word. -/
def wordReg (conf : MBConfig) (it : Item) (fn : ModbusByte) (m : RegMap) (i : Nat) : RegInfo :=
  let mbreg := it.mbreg + UInt16.ofNat i
  { addReg m (genRegID mbreg fn) mbreg it with
    q_num := i + 1
    q_count := 1
    mbfunc := fn
    mb_initOK := conf.defaultMBinitOK
    sm_initOK := false }

theorem addWords_cons (i : Nat) :
    addWords conf it fn (i :: is) m = addWords conf it fn is (m.insert (wordReg conf it fn m i)) := rfl

theorem regID_wordReg (i : Nat) :
    (wordReg conf it fn m i).regID = genRegID (it.mbreg + UInt16.ofNat i) fn := regID_addReg _

theorem wordReg_cases (i : Nat)
    (hown : ∀ r, m.find (genRegID (it.mbreg + UInt16.ofNat i) fn) = some r →
      r.mbreg = it.mbreg + UInt16.ofNat i ∧ r.mbfunc = fn) :
    (wordReg conf it fn m i).mbreg = it.mbreg + UInt16.ofNat i ∧
      (wordReg conf it fn m i).mbfunc = fn ∧
      (m.find (genRegID (it.mbreg + UInt16.ofNat i) fn) = none ∧ (wordReg conf it fn m i).slst = [] ∨
        ∃ r, m.find (genRegID (it.mbreg + UInt16.ofNat i) fn) = some r ∧
          Same r (wordReg conf it fn m i)) := by
  cases hfind : m.find (genRegID (it.mbreg + UInt16.ofNat i) fn) with
  | none =>
    have hnew := @addReg_of_none it m _ hfind (it.mbreg + UInt16.ofNat i)
    exact ⟨by simp [wordReg, hnew], rfl, .inl ⟨rfl, by simp [wordReg, hnew]⟩⟩
  | some r =>
    have hold := @addReg_of_some it m _ r hfind (it.mbreg + UInt16.ofNat i)
    obtain ⟨hmbreg, hmbfunc⟩ := hown r hfind
    refine ⟨by simp [wordReg, hold, hmbreg], rfl, .inr ⟨r, rfl, ?_, hmbfunc.symm, ?_⟩⟩
    · simp [wordReg, hold]
    · simp [wordReg, hold]

theorem isSome_addWords (h : (m.find id).isSome) : ((addWords conf it fn is m).find id).isSome := by
  induction is generalizing m with
  | nil => exact h
  | cons i is ih => exact ih (isSome_find_insert h)

theorem isSome_addWords_of_mem {i : Nat} (hi : i ∈ is) :
    ((addWords conf it fn is m).find (genRegID (it.mbreg + UInt16.ofNat i) fn)).isSome := by
  induction is generalizing m with
  | nil => exact absurd hi List.not_mem_nil
  | cons j is ih =>
    rw [addWords_cons]
    obtain rfl | hi := List.mem_cons.mp hi
    · refine isSome_addWords ?_
      rw [SortedMap.find_insert, if_pos (regID_wordReg i)]
      rfl
    · exact ih hi

/-- The words of a value are registers of its function, and have the sensors that they had. -/
theorem find_addWords
    (hown : ∀ i ∈ is, ∀ r, m.find (genRegID (it.mbreg + UInt16.ofNat i) fn) = some r →
      r.mbreg = it.mbreg + UInt16.ofNat i ∧ r.mbfunc = fn)
    {r' : RegInfo} (h : (addWords conf it fn is m).find id = some r') :
    (∃ r, m.find id = some r ∧ Same r r') ∨ m.find id = none ∧
      ∃ i ∈ is, id = genRegID (it.mbreg + UInt16.ofNat i) fn ∧ r'.mbreg = it.mbreg + UInt16.ofNat i ∧
        r'.mbfunc = fn ∧ r'.slst = [] := by
  induction is generalizing m with
  | nil => exact .inl ⟨r', h, .refl r'⟩
  | cons i is ih =>
    rw [addWords_cons] at h
    obtain ⟨hmbreg, hmbfunc, hslst⟩ := @wordReg_cases conf it fn m i (hown i List.mem_cons_self)
    have hown' : ∀ j ∈ is, ∀ r, (m.insert (wordReg conf it fn m i)).find
        (genRegID (it.mbreg + UInt16.ofNat j) fn) = some r →
        r.mbreg = it.mbreg + UInt16.ofNat j ∧ r.mbfunc = fn := by
      intro j hj r hr
      rw [SortedMap.find_insert] at hr
      split_ifs at hr with hid
      · cases hr
        refine ⟨?_, hmbfunc⟩
        rw [regID_wordReg] at hid
        exact hmbreg.trans (eq_of_genRegID_eq hid)
      · exact hown j (List.mem_cons_of_mem _ hj) r hr
    obtain ⟨r, hr, hsame⟩ | ⟨hnone, j, hj, hnew⟩ := ih hown' h
    · rw [SortedMap.find_insert] at hr
      split_ifs at hr with hid
      · cases hr
        rw [regID_wordReg] at hid
        obtain ⟨hnone, hempty⟩ | ⟨r₀, hr₀, hsame₀⟩ := hslst
        · exact .inr ⟨hid ▸ hnone, i, List.mem_cons_self, hid.symm,
            hsame.mbreg.trans hmbreg, hsame.mbfunc.trans hmbfunc, hsame.slst.trans hempty⟩
        · exact .inl ⟨r₀, hid ▸ hr₀, hsame₀.trans hsame⟩
      · exact .inl ⟨r, hr, hsame⟩
    · rw [SortedMap.find_insert] at hnone
      split_ifs at hnone
      exact .inr ⟨hnone, j, List.mem_cons_of_mem _ hj, hnew⟩

end Words

/-! ## A sensor is added -/

def regIDOf (it : Item) (k : Nat) : Nat := genRegID (it.mbreg + UInt16.ofNat k) it.mbfunc

/-- What a register is once the sensor is in its list; `old` are the sensors of it before. -/
structure Main (it : Item) (old : List RSProperty) (r : RegInfo) : Prop where
  mbreg : r.mbreg = it.mbreg
  mbfunc : r.mbfunc = it.mbfunc
  slst : r.slst = addProp old it.p

theorem Main.same {it : Item} {old : List RSProperty} {r r' : RegInfo} (h : Main it old r)
    (hsame : Same r r') : Main it old r' :=
  ⟨hsame.mbreg.trans h.mbreg, hsame.mbfunc.trans h.mbfunc, hsame.slst.trans h.slst⟩

/-- A map after a sensor with `n` words has been added. -/
structure AddedMap (it : Item) (old : List RSProperty) (n : Nat) (m m' : RegMap) : Prop where
  main : ∃ r, m'.find (regIDOf it 0) = some r ∧ Main it old r
  rest : ∀ {id r'}, id ≠ regIDOf it 0 → m'.find id = some r' →
    (∃ r, m.find id = some r ∧ Same r r') ∨ m.find id = none ∧
      ∃ k < n, id = regIDOf it k ∧ r'.mbreg = it.mbreg + UInt16.ofNat k ∧ r'.mbfunc = it.mbfunc ∧
        r'.slst = []
  keep : ∀ {id}, (m.find id).isSome → (m'.find id).isSome
  words : ∀ {k}, 0 < k → k < n → (m'.find (regIDOf it k)).isSome

section Add

variable {conf : MBConfig} {it : Item} {old : List RSProperty} {n : Nat} {m m' : RegMap}

theorem regIDOf_zero (it : Item) : regIDOf it 0 = genRegID it.mbreg it.mbfunc := by simp [regIDOf]

theorem addedMap_addWords {r : RegInfo} (hid : r.regID = regIDOf it 0) (hmain : Main it old r)
    (hwords : ∀ k, 0 < k → k < n → ∀ r, m.find (regIDOf it k) = some r →
      r.mbreg = it.mbreg + UInt16.ofNat k ∧ r.mbfunc = it.mbfunc) :
    AddedMap it old n m
      (addWords conf it r.mbfunc ((List.range n).drop 1) (m.insert r)) := by
  rw [hmain.mbfunc]
  have hrange : ∀ {k}, k ∈ (List.range n).drop 1 ↔ 0 < k ∧ k < n := by
    intro k
    rw [List.range_eq_range', List.drop_range', List.mem_range']
    constructor
    · rintro ⟨i, hi, rfl⟩
      omega
    · exact fun ⟨h0, hn⟩ => ⟨k - 1, by omega, by omega⟩
  have hinsert : (m.insert r).find (regIDOf it 0) = some r := by
    rw [SortedMap.find_insert, if_pos hid]
  have hown : ∀ k ∈ (List.range n).drop 1, ∀ r', (m.insert r).find (regIDOf it k) = some r' →
      r'.mbreg = it.mbreg + UInt16.ofNat k ∧ r'.mbfunc = it.mbfunc := by
    intro k hk r' hr'
    rw [SortedMap.find_insert] at hr'
    split_ifs at hr' with hsame
    · cases hr'
      rw [hid, regIDOf_zero] at hsame
      exact ⟨hmain.mbreg.trans (eq_of_genRegID_eq hsame), hmain.mbfunc⟩
    · exact hwords k (hrange.mp hk).1 (hrange.mp hk).2 r' hr'
  refine ⟨?_, fun {id r'} hne hr' => ?_, fun {id} h => isSome_addWords (isSome_find_insert h),
    fun h0 hn => isSome_addWords_of_mem (hrange.mpr ⟨h0, hn⟩)⟩
  · have hsome : ((addWords conf it it.mbfunc ((List.range n).drop 1) (m.insert r)).find
        (regIDOf it 0)).isSome := isSome_addWords (by rw [hinsert]; rfl)
    obtain ⟨r', hr'⟩ := Option.isSome_iff_exists.mp hsome
    obtain ⟨r₀, hr₀, hsame⟩ | ⟨hnone, -⟩ := find_addWords hown hr'
    · cases hinsert.symm.trans hr₀
      exact ⟨r', hr', hmain.same hsame⟩
    · cases hinsert.symm.trans hnone
  · have hbefore : (m.insert r).find id = m.find id := by
      rw [SortedMap.find_insert, if_neg fun heq => hne (heq.symm.trans hid)]
    obtain ⟨r₀, hr₀, hsame⟩ | ⟨hnone, k, hk, hnew⟩ := find_addWords hown hr'
    · exact .inl ⟨r₀, hbefore ▸ hr₀, hsame⟩
    · exact .inr ⟨hbefore ▸ hnone, k, (hrange.mp hk).2, hnew⟩

/-- The flags of the register change once more. -/
theorem AddedMap.insert_same (h : AddedMap it old n m m') {r : RegInfo} (hid : r.regID = regIDOf it 0)
    (hr : Main it old r) : AddedMap it old n m (m'.insert r) where
  main := ⟨r, by rw [SortedMap.find_insert, if_pos hid], hr⟩
  rest {id r'} hne hr' := by
    rw [SortedMap.find_insert, if_neg fun heq => hne (heq.symm.trans hid)] at hr'
    exact h.rest hne hr'
  keep hsome := isSome_find_insert (h.keep hsome)
  words h0 hn := isSome_find_insert (h.words h0 hn)

end Add

/-- What it means that a sensor has been added: `old` are the sensors of its register before, and its
value has `n` words. -/
structure Added (it it' : Item) (old : List RSProperty) (n : Nat) (dev dev' : RTUDevice) : Prop where
  free : ∀ {a}, a ≠ it'.pollfactor → (dev.regMap a).find (regIDOf it' 0) = none
  overlaps : overlaps (dev.setRegMap it'.pollfactor (dev.regMap it'.pollfactor)) it ≠ true
  conflicts : isWriteFunction it'.mbfunc = true → conflicts old it'.p ≠ true
  function : isWriteFunction it'.mbfunc = true → 1 < n → it'.mbfunc = fnWriteOutputRegisters.code
  other : ∀ {a}, a ≠ it'.pollfactor → dev'.regMap a = dev.regMap a
  map : AddedMap it' old n (dev.regMap it'.pollfactor) (dev'.regMap it'.pollfactor)

theorem same_initReg (conf : MBConfig) (it : Item) (ri : RegInfo) :
    (initReg conf it ri).regID = ri.regID ∧ (initReg conf it ri).mbreg = ri.mbreg ∧
      (initReg conf it ri).mbfunc = ri.mbfunc ∧ (initReg conf it ri).slst = addProp ri.slst it.p := by
  unfold initReg initFlags
  split_ifs <;> exact ⟨rfl, rfl, rfl, rfl⟩

theorem addedMap_storeItem {conf : MBConfig} {it : Item} {old : List RSProperty} {n : Nat}
    {m : RegMap} {dev dev' : RTUDevice} {p1 : RegInfo} (hid : p1.regID = regIDOf it 0)
    (hmain : Main it old p1)
    (hwords : ∀ k, 0 < k → k < n → ∀ r, m.find (regIDOf it k) = some r →
      r.mbreg = it.mbreg + UInt16.ofNat k ∧ r.mbfunc = it.mbfunc)
    (h : storeItem conf it dev m (regIDOf it 0) n p1 = some dev') :
    ∃ m', AddedMap it old n m m' ∧
      ∀ a, dev'.regMap a = if a = it.pollfactor then m' else dev.regMap a := by
  unfold storeItem at h
  -- the register that is kept differs from `p1` in the numbers of the exchange
  obtain ⟨p, hp, hid', hmain'⟩ : ∃ p,
      (if 1 < n then { p1 with q_count := n, q_num := 1 } else p1) = p ∧
        p.regID = regIDOf it 0 ∧ Main it old p := by
    split_ifs
    · exact ⟨_, rfl, hid, hmain.same ⟨rfl, rfl, rfl⟩⟩
    · exact ⟨_, rfl, hid, hmain⟩
  simp only [hp] at h
  have hadded := @addedMap_addWords conf it old n m p hid' hmain' hwords
  split_ifs at h
  · obtain ⟨r, hr, hr'⟩ := hadded.main
    have hkey : ({ r with mb_initOK := false, sm_initOK := false } : RegInfo).regID = regIDOf it 0 :=
      (SortedMap.mem_of_find hr).2
    rw [hr, Option.getD_some] at h
    cases h
    exact ⟨_, hadded.insert_same hkey (hr'.same ⟨rfl, rfl, rfl⟩),
      fun a => regMap_setRegMap dev it.pollfactor a _⟩
  · cases h
    exact ⟨_, hadded, fun a => regMap_setRegMap dev it.pollfactor a _⟩

theorem added_of_initItemWith {conf : MBConfig} {it it' : Item} {dev dev' : RTUDevice} {ri : RegInfo}
    {n : Nat} (h : initItemWith conf it it' dev = some dev')
    (hri : ri = addReg (dev.regMap it'.pollfactor) (regIDOf it' 0) it'.mbreg it')
    (hn : n = valueWords it' (initReg conf it' ri))
    (hmbreg : ri.mbreg = it'.mbreg) (hmbfunc : ri.mbfunc = it'.mbfunc)
    (hwords : ∀ k, 0 < k → k < n → ∀ r, (dev.regMap it'.pollfactor).find (regIDOf it' k) = some r →
      r.mbreg = it'.mbreg + UInt16.ofNat k ∧ r.mbfunc = it'.mbfunc) :
    Added it it' ri.slst n dev dev' := by
  have hregID : ri.regID = regIDOf it' 0 := hri ▸ regID_addReg it'.mbreg
  obtain ⟨hid, hreg, hfunc, hslst⟩ := same_initReg conf it' ri
  unfold initItemWith at h
  simp only [← regIDOf_zero, ← hri, ← hn] at h
  split_ifs at h with hpoll hdup hover hconf hfun
  obtain ⟨m', hmap, hdev⟩ := addedMap_storeItem (hid.trans hregID)
    ⟨hreg.trans hmbreg, hfunc.trans hmbfunc, hslst⟩ hwords h
  refine ⟨fun {a} ha => ?_, hover, fun hw hc => ?_, fun hw hlt => ?_, fun {a} ha => ?_, ?_⟩
  · have hnone := find_eq_none hdup (a := a) (by simpa using ha)
    rwa [regMap_setRegMap_self] at hnone
  · exact hconf ⟨hmbfunc ▸ hw, hc⟩
  · by_contra hne
    exact hfun ⟨hlt, hmbfunc ▸ hw, hmbfunc ▸ hne⟩
  · rw [hdev, if_neg ha, regMap_setRegMap_self]
  · rw [hdev, if_pos rfl]
    exact hmap

/-! ## The sensors of a device -/

/-- The registers of a device by their numbers, and the words of their values. -/
structure Sound (dev : MBDevice) : Prop where
  number : ∀ {a id r}, (dev.regs.regMap a).find id = some r → id = genRegID r.mbreg r.mbfunc
  words : ∀ {a id r}, (dev.regs.regMap a).find id = some r → ∀ p ∈ r.slst, ∀ k < p.rnum,
    ∃ r', (dev.regs.regMap a).find (genRegID (r.mbreg + UInt16.ofNat k) r.mbfunc) = some r' ∧
      r'.mbreg = r.mbreg + UInt16.ofNat k ∧ r'.mbfunc = r.mbfunc
  single : ∀ {a id r}, (dev.regs.regMap a).find id = some r → isWriteFunction r.mbfunc = true →
    ∀ p ∈ r.slst, 1 < p.rnum → r.mbfunc = fnWriteOutputRegisters.code
  mask : ∀ {a id r}, (dev.regs.regMap a).find id = some r → ∀ p ∈ r.slst, p.mask ≠ 0 → p.nbit = none

/-- A sensor that is in the list already stays as it is. -/
theorem addProp_cases (old : List RSProperty) (p : RSProperty) :
    (∃ q ∈ old, q.si = p.si ∧ addProp old p = old ∧
        ((addProp old p).find? (·.si = p.si)).getD p = q) ∨
      (∀ q ∈ old, q.si ≠ p.si) ∧ addProp old p = old ++ [p] ∧
        ((addProp old p).find? (·.si = p.si)).getD p = p := by
  unfold addProp
  split_ifs with hany
  · obtain ⟨q, hq⟩ := Option.isSome_iff_exists.mp
      (List.find?_isSome.mpr (List.any_eq_true.mp hany))
    refine .inl ⟨q, List.mem_of_find?_eq_some hq, by simpa using List.find?_some hq, rfl, ?_⟩
    rw [hq, Option.getD_some]
  · have hne : ∀ q ∈ old, q.si ≠ p.si := by
      intro q hq heq
      exact hany (List.any_eq_true.mpr ⟨q, hq, by simpa using heq⟩)
    have hnone : old.find? (·.si = p.si) = none :=
      List.find?_eq_none.mpr fun q hq => by simpa using hne q hq
    refine .inr ⟨hne, rfl, ?_⟩
    rw [List.find?_append, hnone]
    simp

section Step

variable {conf : MBConfig} {s : Sensor} {p : RSProperty} {dev dev' : MBDevice}

/-- The register of the sensor before the sensor is added. -/
def MBDevice.regOf (dev : MBDevice) (s : Sensor) : RegInfo :=
  addReg (dev.regs.regMap s.item.pollfactor) (regIDOf s.item 0) s.item.mbreg s.item

theorem regOf_of_none (h : (dev.regs.regMap s.item.pollfactor).find (regIDOf s.item 0) = none) :
    (dev.regOf s).mbreg = s.item.mbreg ∧ (dev.regOf s).mbfunc = s.item.mbfunc ∧
      (dev.regOf s).slst = [] := by
  rw [MBDevice.regOf, addReg_of_none h]
  exact ⟨rfl, rfl, rfl⟩

theorem regOf_of_some {r : RegInfo}
    (h : (dev.regs.regMap s.item.pollfactor).find (regIDOf s.item 0) = some r) : dev.regOf s = r := by
  rw [MBDevice.regOf, addReg_of_some h]

theorem regOf_found {q : RSProperty} (h : q ∈ (dev.regOf s).slst) :
    (dev.regs.regMap s.item.pollfactor).find (regIDOf s.item 0) = some (dev.regOf s) := by
  cases hfind : (dev.regs.regMap s.item.pollfactor).find (regIDOf s.item 0) with
  | none =>
    rw [(regOf_of_none hfind).2.2] at h
    cases h
  | some r => rw [regOf_of_some hfind]

theorem regOf_main (hs : Apart s p dev) :
    (dev.regOf s).mbreg = s.item.mbreg ∧ (dev.regOf s).mbfunc = s.item.mbfunc := by
  cases hfind : (dev.regs.regMap s.item.pollfactor).find (regIDOf s.item 0) with
  | none =>
    obtain ⟨hmbreg, hmbfunc, -⟩ := regOf_of_none hfind
    exact ⟨hmbreg, hmbfunc⟩
  | some r =>
    rw [regOf_of_some hfind]
    have hnumber := hs.number 0 (by omega) r hfind
    simpa using hnumber

/-- What a sensor does to its device. -/
structure Joined (s : Sensor) (p : RSProperty) (n : Nat) (dev dev' : MBDevice) : Prop where
  dtype : dev'.dtype = dev.dtype
  added : Added (s.itemOf p) (s.itemOf (dev.property s p)) (dev.regOf s).slst n dev.regs dev'.regs
  old : ∀ q ∈ (dev.regOf s).slst, q.si = p.si →
    addProp (dev.regOf s).slst (dev.property s p) = (dev.regOf s).slst
  new : (∀ q ∈ (dev.regOf s).slst, q.si ≠ p.si) →
    addProp (dev.regOf s).slst (dev.property s p) = (dev.regOf s).slst ++ [dev.property s p] ∧
      n = (dev.property s p).rnum

@[simp] theorem property_si : (dev.property s p).si = p.si := by
  unfold MBDevice.property
  split_ifs <;> rfl

theorem joined_of_addItem (hsound : Sound dev) (hs : Apart s p dev)
    (h : dev.addItem conf s p = some dev') : ∃ n, Joined s p n dev dev' := by
  unfold MBDevice.addItem at h
  simp only at h
  split_ifs at h
  obtain ⟨regs, hregs, hdev⟩ := Option.map_eq_some_iff.mp h
  obtain ⟨hmbreg, hmbfunc⟩ := regOf_main hs
  obtain ⟨-, -, -, hslst⟩ := same_initReg conf (s.itemOf (dev.property s p)) (dev.regOf s)
  have hn : valueWords (s.itemOf (dev.property s p)) (initReg conf (s.itemOf (dev.property s p))
      (dev.regOf s)) =
      (((addProp (dev.regOf s).slst (dev.property s p)).find?
        (·.si = (dev.property s p).si)).getD (dev.property s p)).rnum := by
    rw [valueWords, hslst]
    rfl
  cases hdev
  rcases addProp_cases (dev.regOf s).slst (dev.property s p) with
    ⟨q, hq, hsi, hold, hfound⟩ | ⟨hne, hnew, hfound⟩
  · rw [hfound] at hn
    refine ⟨_, rfl, added_of_initItemWith hregs rfl hn.symm hmbreg hmbfunc fun k h0 hk r hr => ?_,
      fun _ _ _ => hold, fun hno => absurd (hsi.trans property_si) (hno q hq)⟩
    obtain ⟨r', hr', hreg, hfunc⟩ := hsound.words (regOf_found hq) q hq k hk
    rw [hmbreg, hmbfunc] at hr'
    rw [hmbreg] at hreg
    rw [hmbfunc] at hfunc
    cases hr'.symm.trans hr
    exact ⟨hreg, hfunc⟩
  · rw [hfound] at hn
    refine ⟨_, rfl, added_of_initItemWith hregs rfl hn.symm hmbreg hmbfunc fun k h0 hk r hr => ?_,
      fun q hq hsi => absurd (hsi.trans property_si.symm) (hne q hq), fun _ => ⟨hnew, rfl⟩⟩
    exact hs.number k (lt_max_of_lt_right hk) r hr

variable {n : Nat} {a id : Nat} {r' : RegInfo}

/-- The sensors of the register are those that it had, and the new one if it had not been there. -/
theorem Joined.mem_addProp (hj : Joined s p n dev dev') {q : RSProperty}
    (hq : q ∈ addProp (dev.regOf s).slst (dev.property s p)) :
    q ∈ (dev.regOf s).slst ∨
      q = dev.property s p ∧ n = q.rnum ∧ ∀ q' ∈ (dev.regOf s).slst, q'.si ≠ p.si := by
  by_cases hnew : ∀ q' ∈ (dev.regOf s).slst, q'.si ≠ p.si
  · obtain ⟨heq, hn⟩ := hj.new hnew
    rw [heq] at hq
    rcases List.mem_append.mp hq with hq | hq
    · exact .inl hq
    · cases List.mem_singleton.mp hq
      exact .inr ⟨rfl, hn, hnew⟩
  · push Not at hnew
    obtain ⟨q', hq', hsi⟩ := hnew
    rw [hj.old q' hq' hsi] at hq
    exact .inl hq

/-- A register after the sensor has been added: as it was, or the one of the sensor, or one of the
further words of the value. -/
theorem Joined.reg_cases (hj : Joined s p n dev dev') (h : (dev'.regs.regMap a).find id = some r') :
    (∃ r, (dev.regs.regMap a).find id = some r ∧ Same r r') ∨
      a = s.item.pollfactor ∧
        (id = regIDOf s.item 0 ∧ Main (s.itemOf (dev.property s p)) (dev.regOf s).slst r' ∨
          (dev.regs.regMap a).find id = none ∧ ∃ k < n, id = regIDOf s.item k ∧
            r'.mbreg = s.item.mbreg + UInt16.ofNat k ∧ r'.mbfunc = s.item.mbfunc ∧ r'.slst = []) := by
  by_cases ha : a = s.item.pollfactor
  · subst ha
    by_cases hid : id = regIDOf s.item 0
    · subst hid
      obtain ⟨r, hr, hmain⟩ := hj.added.map.main
      cases hr.symm.trans h
      exact .inr ⟨rfl, .inl ⟨rfl, hmain⟩⟩
    · rcases hj.added.map.rest hid h with hold | hnew
      · exact .inl hold
      · exact .inr ⟨rfl, .inr hnew⟩
  · rw [hj.added.other ha] at h
    exact .inl ⟨r', h, .refl r'⟩

theorem Joined.persist (hs : Apart s p dev) (hj : Joined s p n dev dev') {r : RegInfo}
    (h : (dev.regs.regMap a).find id = some r) :
    ∃ r', (dev'.regs.regMap a).find id = some r' ∧ r'.mbreg = r.mbreg ∧ r'.mbfunc = r.mbfunc := by
  by_cases ha : a = s.item.pollfactor
  · subst ha
    obtain ⟨r', hr'⟩ := Option.isSome_iff_exists.mp (hj.added.map.keep (Option.isSome_of_mem h))
    refine ⟨r', hr', ?_⟩
    rcases hj.reg_cases hr' with ⟨r₀, hr₀, hsame⟩ | ⟨-, ⟨rfl, hmain⟩ | ⟨hnone, -⟩⟩
    · cases hr₀.symm.trans h
      exact ⟨hsame.mbreg, hsame.mbfunc⟩
    · obtain ⟨hmbreg, hmbfunc⟩ := regOf_main hs
      rw [regOf_of_some h] at hmbreg hmbfunc
      exact ⟨hmain.mbreg.trans hmbreg.symm, hmain.mbfunc.trans hmbfunc.symm⟩
    · cases hnone.symm.trans h
  · exact ⟨r, by rw [hj.added.other ha, h], rfl, rfl⟩

/-- The registers of the words of a value that is added. -/
theorem Joined.word (hs : Apart s p dev) (hj : Joined s p n dev dev') {k : Nat}
    (hk : k < (dev.property s p).rnum) (hn : n = (dev.property s p).rnum) :
    ∃ r', (dev'.regs.regMap s.item.pollfactor).find (regIDOf s.item k) = some r' ∧
      r'.mbreg = s.item.mbreg + UInt16.ofNat k ∧ r'.mbfunc = s.item.mbfunc := by
  have hsome : ((dev'.regs.regMap s.item.pollfactor).find (regIDOf s.item k)).isSome := by
    rcases Nat.eq_zero_or_pos k with rfl | h0
    · obtain ⟨r, hr, -⟩ := hj.added.map.main
      exact Option.isSome_of_mem hr
    · exact hj.added.map.words h0 (hn ▸ hk)
  obtain ⟨r', hr'⟩ := Option.isSome_iff_exists.mp hsome
  refine ⟨r', hr', ?_⟩
  rcases hj.reg_cases hr' with
    ⟨r₀, hr₀, hsame⟩ | ⟨-, ⟨hid, hmain⟩ | ⟨-, k', -, hid, hmbreg, hmbfunc, -⟩⟩
  · obtain ⟨hmbreg, hmbfunc⟩ := hs.number k (lt_max_of_lt_right hk) r₀ hr₀
    exact ⟨hsame.mbreg.trans hmbreg, hsame.mbfunc.trans hmbfunc⟩
  · rw [regIDOf_zero] at hid
    exact ⟨hmain.mbreg.trans (eq_of_genRegID_eq hid).symm, hmain.mbfunc⟩
  · exact ⟨hmbreg.trans (eq_of_genRegID_eq hid).symm, hmbfunc⟩

/-- The registers and words of a device stay in order. -/
theorem Joined.sound (hsound : Sound dev) (hp : p.Accepted) (hs : Apart s p dev)
    (hj : Joined s p n dev dev') : Sound dev' where
  number {a id r'} h := by
    rcases hj.reg_cases h with ⟨r, hr, hsame⟩ | ⟨-, ⟨rfl, hmain⟩ | ⟨-, k, -, rfl, hmbreg, hmbfunc, -⟩⟩
    · rw [hsame.mbreg, hsame.mbfunc]
      exact hsound.number hr
    · rw [regIDOf_zero, hmain.mbreg, hmain.mbfunc]
      rfl
    · rw [hmbreg, hmbfunc]
      rfl
  words {a id r'} h q hq k hk := by
    have hold : ∀ {r}, (dev.regs.regMap a).find id = some r → q ∈ r.slst → r'.mbreg = r.mbreg →
        r'.mbfunc = r.mbfunc → ∃ r'', (dev'.regs.regMap a).find
          (genRegID (r'.mbreg + UInt16.ofNat k) r'.mbfunc) = some r'' ∧
          r''.mbreg = r'.mbreg + UInt16.ofNat k ∧ r''.mbfunc = r'.mbfunc := by
      intro r hr hqr hmbreg hmbfunc
      obtain ⟨r₁, hr₁, hreg₁, hfunc₁⟩ := hsound.words hr q hqr k hk
      obtain ⟨r₂, hr₂, hreg₂, hfunc₂⟩ := hj.persist hs hr₁
      rw [hmbreg, hmbfunc]
      exact ⟨r₂, hr₂, hreg₂.trans hreg₁, hfunc₂.trans hfunc₁⟩
    rcases hj.reg_cases h with ⟨r, hr, hsame⟩ | ⟨rfl, ⟨rfl, hmain⟩ | ⟨-, _, -, -, -, -, hnil⟩⟩
    · exact hold hr (hsame.slst ▸ hq) hsame.mbreg hsame.mbfunc
    · obtain ⟨hmbreg, hmbfunc⟩ := regOf_main hs
      rw [hmain.slst] at hq
      rcases hj.mem_addProp hq with hq | ⟨rfl, hn, -⟩
      · exact hold (regOf_found hq) hq (hmain.mbreg.trans hmbreg.symm)
          (hmain.mbfunc.trans hmbfunc.symm)
      · rw [hmain.mbreg, hmain.mbfunc]
        exact hj.word hs hk hn
    · rw [hnil] at hq
      cases hq
  single {a id r'} h hw q hq hlt := by
    rcases hj.reg_cases h with ⟨r, hr, hsame⟩ | ⟨rfl, ⟨rfl, hmain⟩ | ⟨-, _, -, -, -, -, hnil⟩⟩
    · rw [hsame.mbfunc] at hw ⊢
      exact hsound.single hr hw q (hsame.slst ▸ hq) hlt
    · obtain ⟨-, hmbfunc⟩ := regOf_main hs
      have hfunc : r'.mbfunc = s.item.mbfunc := hmain.mbfunc
      rw [hmain.slst] at hq
      rcases hj.mem_addProp hq with hq | ⟨rfl, hn, -⟩
      · rw [hfunc, ← hmbfunc] at hw ⊢
        exact hsound.single (regOf_found hq) hw q hq hlt
      · rw [hfunc] at hw ⊢
        exact hj.added.function hw (hn ▸ hlt)
    · rw [hnil] at hq
      cases hq
  mask {a id r'} h q hq hmask := by
    rcases hj.reg_cases h with ⟨r, hr, hsame⟩ | ⟨rfl, ⟨rfl, hmain⟩ | ⟨-, _, -, -, -, -, hnil⟩⟩
    · exact hsound.mask hr q (hsame.slst ▸ hq) hmask
    · rw [hmain.slst] at hq
      rcases hj.mem_addProp hq with hq | ⟨rfl, -, -⟩
      · exact hsound.mask (regOf_found hq) q hq hmask
      · unfold MBDevice.property at hmask ⊢
        split_ifs at hmask ⊢ <;> exact (hp.mask hmask).1
    · rw [hnil] at hq
      cases hq

/-- A bit of a register is written for the sensor that has been added. -/
structure Adds (s : Sensor) (p : RSProperty) (dev : MBDevice) (fn : ModbusByte) (reg : ModbusData)
    (b : Fin 16) (k : Nat) : Prop where
  mbfunc : s.item.mbfunc = fn
  isWrite : isWriteFunction fn = true
  new : ∀ q ∈ (dev.regOf s).slst, q.si ≠ p.si
  word : k < (dev.property s p).rnum
  mbreg : s.item.mbreg + UInt16.ofNat k = reg
  owns : dev.dtype = .dtMTR ∨ 1 < (dev.property s p).rnum ∨ (dev.property s p).Owns b

variable {mbfunc : ModbusByte} {mbreg : ModbusData} {b : Fin 16} {r : RegInfo} {q : RSProperty}
  {k : Nat}

theorem Joined.writes (hs : Apart s p dev) (hj : Joined s p n dev dev')
    (h : Writes dev' mbfunc mbreg b r' q k) :
    (∃ r, Writes dev mbfunc mbreg b r q k) ∨ q = dev.property s p ∧ Adds s p dev mbfunc mbreg b k := by
  obtain ⟨⟨a, hmem⟩, hw, hmbfunc, hq, hk, hmbreg, howns⟩ := h
  rw [hj.dtype] at howns
  have hold : ∀ {r}, (∃ id, (dev.regs.regMap a).find id = some r) → r'.mbreg = r.mbreg →
      r'.mbfunc = r.mbfunc → q ∈ r.slst → Writes dev mbfunc mbreg b r q k := by
    rintro r ⟨id, hr⟩ hreg hfunc hqr
    have hkey := (SortedMap.mem_of_find hr).2
    exact ⟨⟨a, by rw [hkey, hr]⟩, hfunc ▸ hw, hfunc ▸ hmbfunc, hqr, hk, hreg ▸ hmbreg, howns⟩
  rcases hj.reg_cases hmem with ⟨r, hr, hsame⟩ | ⟨rfl, ⟨-, hmain⟩ | ⟨-, _, -, -, -, -, hnil⟩⟩
  · exact .inl ⟨r, hold ⟨_, hr⟩ hsame.mbreg hsame.mbfunc (hsame.slst ▸ hq)⟩
  · obtain ⟨hreg, hfunc⟩ := regOf_main hs
    have hreg' : r'.mbreg = s.item.mbreg := hmain.mbreg
    have hfunc' : r'.mbfunc = s.item.mbfunc := hmain.mbfunc
    rw [hmain.slst] at hq
    rcases hj.mem_addProp hq with hq | ⟨rfl, -, hnew⟩
    · exact .inl ⟨_, hold ⟨_, regOf_found hq⟩ (hreg'.trans hreg.symm) (hfunc'.trans hfunc.symm) hq⟩
    · rw [hfunc'] at hw hmbfunc
      exact .inr ⟨rfl, hmbfunc, hmbfunc ▸ hw, hnew, hk, hreg' ▸ hmbreg, howns⟩
  · rw [hnil] at hq
    cases hq

/-- The words of a new value are not registers yet. -/
theorem Joined.free_words (hs : Apart s p dev) (hj : Joined s p n dev dev')
    (hfn : s.item.mbfunc = fnWriteOutputRegisters.code) (hk : k < (dev.property s p).rnum) :
    (dev.regs.regMap a).find
        (genRegID (s.item.mbreg + UInt16.ofNat k) fnWriteOutputSingleRegister.code) = none ∧
      (dev.regs.regMap a).find
        (genRegID (s.item.mbreg + UInt16.ofNat k) fnWriteOutputRegisters.code) = none := by
  by_cases hmtr : dev.dtype = .dtMTR
  · have hover : overlaps dev.regs (s.itemOf (dev.property s p)) ≠ true := by
      rw [hs.words hmtr]
      exact Bool.false_ne_true
    exact find_eq_none_of_not_overlaps hover hk hfn
  · have hp : dev.property s p = p := if_neg hmtr
    have hnone := @find_eq_none_of_not_overlaps _ _ hj.added.overlaps a k (hp ▸ hk) hfn
    rwa [regMap_setRegMap_self] at hnone

theorem Joined.free_single (hj : Joined s p n dev dev')
    (hfn : s.item.mbfunc = fnWriteOutputSingleRegister.code) :
    (dev.regs.regMap a).find (genRegID s.item.mbreg fnWriteOutputRegisters.code) = none := by
  have hnone := @find_eq_none_of_single _ _ hj.added.overlaps a hfn
  rwa [regMap_setRegMap_self] at hnone

/-- A register is there for each word that is written. -/
theorem Writes.found (hsound : Sound dev) (h : Writes dev mbfunc mbreg b r q k) :
    ∃ a r', (dev.regs.regMap a).find (genRegID mbreg mbfunc) = some r' := by
  obtain ⟨⟨a, hmem⟩, -, rfl, hq, hk, rfl, -⟩ := h
  obtain ⟨r', hr', -⟩ := hsound.words hmem q hq k hk
  exact ⟨a, r', hr'⟩

theorem Writes.single (hsound : Sound dev) (h : Writes dev mbfunc mbreg b r q k)
    (hfn : mbfunc ≠ fnWriteOutputRegisters.code) : q.rnum ≤ 1 ∧ k = 0 ∧ r.mbreg = mbreg := by
  obtain ⟨⟨a, hmem⟩, hw, hmbfunc, hq, hk, hmbreg, -⟩ := h
  have hrnum : q.rnum ≤ 1 := by
    by_contra hlt
    exact hfn (hmbfunc.symm.trans (hsound.single hmem hw q hq (by omega)))
  have hzero : k = 0 := by omega
  subst hzero
  exact ⟨hrnum, rfl, by simpa using hmbreg⟩

theorem not_conflicts {old : List RSProperty} (h : conflicts old p ≠ true) :
    (p.nbit = none → p.mask = 0 → old = []) ∧
      (p.mask ≠ 0 → ∀ q ∈ old, q.mask ≠ 0 ∧ q.mask &&& p.mask = 0) := by
  obtain ⟨hwhole, hrest⟩ := not_or.mp (mt (decide_eq_true (p := _ ∨ _ ∨ _)) h)
  obtain ⟨-, hmask⟩ := not_or.mp hrest
  refine ⟨fun hbit hnone => by_contra fun hne => hwhole ⟨hbit, hnone, hne⟩, fun hne q hq => ?_⟩
  have hq' : ¬(q.mask = 0 ∨ q.mask &&& p.mask ≠ 0) := fun hbad =>
    hmask ⟨hne, List.any_eq_true.mpr ⟨q, hq, decide_eq_true hbad⟩⟩
  obtain ⟨hmask', hmeet⟩ := not_or.mp hq'
  exact ⟨hmask', not_not.mp hmeet⟩

theorem owns_bit {n : Fin 16} (h : p.nbit = some n) : p.Owns b ↔ b = n := by
  unfold RSProperty.Owns
  rw [h]

theorem owns_mask (hbit : p.nbit = none) (hmask : p.mask ≠ 0) :
    p.Owns b ↔ p.mask.toNat.testBit b = true := by
  unfold RSProperty.Owns
  rw [hbit]
  exact ⟨fun h => h.resolve_left hmask, .inr⟩

/-- Masks that have no bit in common. -/
theorem not_owns_both (hbit : p.nbit = none) (hmask : p.mask ≠ 0) (hbit' : q.nbit = none)
    (hmask' : q.mask ≠ 0) (hmeet : q.mask &&& p.mask = 0) (h : p.Owns b) : ¬q.Owns b := by
  rw [owns_mask hbit hmask] at h
  rw [owns_mask hbit' hmask']
  intro h'
  have hboth : (q.mask &&& p.mask).toNat.testBit b = true := by
    rw [UInt16.toNat_and, Nat.testBit_and, h, h']
    rfl
  rw [hmeet] at hboth
  simp at hboth

theorem Adds.single (hj : Joined s p n dev dev') (h : Adds s p dev mbfunc mbreg b k)
    (hfn : mbfunc ≠ fnWriteOutputRegisters.code) :
    (dev.property s p).rnum ≤ 1 ∧ s.item.mbreg = mbreg := by
  have hrnum : (dev.property s p).rnum ≤ 1 := by
    by_contra hlt
    have hfun := hj.added.function (h.mbfunc.symm ▸ h.isWrite) (by
      rw [(hj.new h.new).2]
      omega)
    exact hfn (h.mbfunc.symm.trans hfun)
  have hzero : k = 0 := by
    have hlt := h.word
    omega
  subst hzero
  exact ⟨hrnum, by simpa using h.mbreg⟩

/-- What is written for the new sensor is not written for those that are there. -/
theorem Joined.apart (hsound : Sound dev) (hs : Apart s p dev) (hj : Joined s p n dev dev') {k' : Nat}
    (h : Writes dev mbfunc mbreg b r q k) : ¬Adds s p dev mbfunc mbreg b k' := by
  intro hnew
  by_cases hfn : mbfunc = fnWriteOutputRegisters.code
  · obtain ⟨a, r', hr'⟩ := h.found hsound
    have hnone := (hj.free_words (a := a) hs (hnew.mbfunc.trans hfn) hnew.word).2
    rw [hnew.mbreg, ← hfn] at hnone
    cases hnone.symm.trans hr'
  -- the values are single words of one register
  obtain ⟨hrnum, rfl, hmbreg⟩ := h.single hsound hfn
  obtain ⟨⟨a, hmem⟩, -, hfunc, hq, -, -, howns⟩ := h
  obtain ⟨hrnum', hreg⟩ := hnew.single hj hfn
  have hid : r.regID = regIDOf s.item 0 := by
    rw [hsound.number hmem, regIDOf_zero, hmbreg, hfunc, hreg, hnew.mbfunc]
  rw [hid] at hmem
  have ha : a = s.item.pollfactor := by
    by_contra hne
    have hnone := hj.added.free hne
    cases hnone.symm.trans hmem
  subst ha
  have hr := regOf_of_some hmem
  have hne : q.si ≠ p.si := hnew.new q (hr.symm ▸ hq)
  rw [regIDOf_zero] at hmem
  obtain ⟨hmtr, hbits⟩ := hs.bit (hnew.mbfunc.symm ▸ hnew.isWrite) r hmem q hq hne
  have hp : dev.property s p = p := if_neg hmtr
  have hpowns : p.Owns b := by
    have h := hnew.owns
    rw [hp] at h hrnum'
    exact (h.resolve_left hmtr).resolve_left (by omega)
  have hqowns : q.Owns b := (howns.resolve_left hmtr).resolve_left (by omega)
  have hconf := hj.added.conflicts (hnew.mbfunc.symm ▸ hnew.isWrite)
  rw [hr] at hconf
  have hconf' : conflicts r.slst p ≠ true := hp ▸ hconf
  obtain ⟨hwhole, hmasks⟩ := not_conflicts hconf'
  cases hbit : p.nbit with
  | some n =>
    rw [owns_bit hbit] at hpowns
    exact hbits n hbit (hpowns ▸ hqowns)
  | none =>
    by_cases hmask : p.mask = 0
    · rw [hwhole hbit hmask] at hq
      cases hq
    · obtain ⟨hqmask, hmeet⟩ := hmasks hmask q hq
      exact not_owns_both hbit hmask (hsound.mask hmem q hq hqmask) hqmask hmeet hpowns hqowns

/-- No bit has got a second sensor. -/
theorem Joined.owned (hsound : Sound dev) (hs : Apart s p dev) (hj : Joined s p n dev dev')
    (howned : Owned dev) : Owned dev' where
  sensor {fn reg b r q k r' q' k'} h h' := by
    rcases hj.writes hs h with ⟨r₀, hold⟩ | ⟨rfl, hnew⟩
    · rcases hj.writes hs h' with ⟨r₁, hold'⟩ | ⟨-, hnew'⟩
      · exact howned.sensor hold hold'
      · exact absurd hnew' (hj.apart hsound hs hold)
    · rcases hj.writes hs h' with ⟨r₁, hold'⟩ | ⟨rfl, -⟩
      · exact absurd hnew (hj.apart hsound hs hold')
      · rfl
  alone {reg b r q k b' r' q' k'} h h' := by
    rcases hj.writes hs h with ⟨r₀, hold⟩ | ⟨-, hnew⟩
    · rcases hj.writes hs h' with ⟨r₁, hold'⟩ | ⟨-, hnew'⟩
      · exact howned.alone hold hold'
      · obtain ⟨a, r₁, hr₁⟩ := hold.found hsound
        have hnone := (hj.free_words (a := a) hs hnew'.mbfunc hnew'.word).1
        rw [hnew'.mbreg] at hnone
        cases hnone.symm.trans hr₁
    · rcases hj.writes hs h' with ⟨r₁, hold'⟩ | ⟨-, hnew'⟩
      · obtain ⟨a, r₂, hr₂⟩ := hold'.found hsound
        have hnone := hj.free_single (a := a) hnew.mbfunc
        rw [(hnew.single hj (by decide)).2] at hnone
        cases hnone.symm.trans hr₂
      · cases hnew.mbfunc.symm.trans hnew'.mbfunc

end Step

/-! ## All sensors -/

section Run

variable {conf : MBConfig} {devices devices' : Devices} {s : Sensor} {sensors : List Sensor}

/-- The condition on a sensor, when it is its turn. -/
def ApartIn (devices : Devices) (s : Sensor) : Prop :=
  s.threshold = false → ∀ p, initRSProperty s.settings = some p → Apart s p (addDev devices s)

/-- Each sensor in its turn. -/
def AllApart (conf : MBConfig) : List Sensor → Devices → Prop
  | [], _ => True
  | s :: sensors, devices =>
    ApartIn devices s ∧
      ∀ devices', initSensor conf devices s = some devices' → AllApart conf sensors devices'

/-- What holds of each device. -/
def DevicesKept (devices : Devices) : Prop := ∀ a dev, devices a = some dev → Sound dev ∧ Owned dev

theorem find_empty (a id : Nat) : ((⟨[], []⟩ : RTUDevice).regMap a).find id = none := rfl

theorem kept_new (dtype : DeviceType) (mtrWords : Nat → Nat → Nat) :
    Sound ⟨dtype, ⟨[], []⟩, mtrWords⟩ ∧ Owned ⟨dtype, ⟨[], []⟩, mtrWords⟩ := by
  have hnone : ∀ {fn reg b r p k}, ¬Writes ⟨dtype, ⟨[], []⟩, mtrWords⟩ fn reg b r p k := by
    rintro fn reg b r p k ⟨⟨a, hr⟩, -⟩
    cases (find_empty a r.regID).symm.trans hr
  refine ⟨⟨fun {a id r} h => ?_, fun {a id r} h => ?_, fun {a id r} h => ?_, fun {a id r} h => ?_⟩,
    ⟨fun h => absurd h hnone, fun h => absurd h hnone⟩⟩ <;>
  cases (find_empty a id).symm.trans h

theorem kept_addDev (h : DevicesKept devices) (s : Sensor) :
    Sound (addDev devices s) ∧ Owned (addDev devices s) := by
  unfold addDev
  cases hdev : devices s.mbaddr with
  | none => exact kept_new s.mbtype fun _ _ => 0
  | some dev => exact h s.mbaddr dev hdev

theorem DevicesKept.initSensor (h : DevicesKept devices) (hs : ApartIn devices s)
    (hadd : initSensor conf devices s = some devices') : DevicesKept devices' := by
  unfold ModbusMaster.initSensor at hadd
  split_ifs at hadd with hthreshold
  · cases hadd
    exact h
  · simp only [Option.bind_eq_bind, Option.bind_eq_some_iff, Option.some.injEq] at hadd
    obtain ⟨p, hp, dev', hdev', rfl⟩ := hadd
    have hapart := hs (Bool.not_eq_true _ ▸ hthreshold) p hp
    obtain ⟨hsound, howned⟩ := kept_addDev h s
    obtain ⟨n, hj⟩ := joined_of_addItem hsound hapart hdev'
    have hdev : Sound dev' ∧ Owned dev' :=
      ⟨hj.sound hsound (accepted_initRSProperty hp).1 hapart, hj.owned hsound hapart howned⟩
    intro a dev ha
    by_cases haddr : a = s.mbaddr
    · subst haddr
      rw [Function.update_self] at ha
      cases ha
      exact hdev
    · rw [Function.update_of_ne haddr] at ha
      exact h a dev ha

theorem DevicesKept.initSensors (h : DevicesKept devices) (hs : AllApart conf sensors devices)
    (hrun : sensors.foldlM (ModbusMaster.initSensor conf) devices = some devices') :
    DevicesKept devices' := by
  induction sensors generalizing devices with
  | nil =>
    cases hrun
    exact h
  | cons s sensors ih =>
    rw [List.foldlM_cons] at hrun
    obtain ⟨devices₁, hfirst, hrest⟩ := Option.bind_eq_some_iff.mp hrun
    exact ih (h.initSensor hs.1 hfirst) (hs.2 devices₁ hfirst) hrest

/-- Each sensor being apart from those before it in its turn, no bit of a device is written for two
sensors, and no register that is written alone is one of several that are written at once. -/
theorem owned_readConfiguration {dev : MBDevice} {a : ModbusByte}
    (h : readConfiguration conf sensors = some devices)
    (hs : AllApart conf sensors fun _ => none) (hdev : devices a = some dev) : Owned dev := by
  have hnone : DevicesKept fun _ => none := fun a dev h => by cases h
  exact (hnone.initSensors hs h a dev hdev).2

end Run

/-- A sensor that writes one bit of the tenth register of the first device. -/
def bitSensor (id : ObjectId) (nbit : Int) : Sensor where
  mbaddr := 1
  mbtype := .dtRTU
  mtrWords := 0
  threshold := false
  settings := ⟨⟨id, 0⟩, some nbit, none, none, none⟩
  item := ⟨⟨⟨id, 0⟩, none, .vtUnknown, 1, 0, 0, 0⟩, 10, 6, 0, 0, false, none, false, none, none⟩

def bitConf : MBConfig := ⟨true, true⟩

/-- Its property, and the register with such properties. -/
def bitProp (id : ObjectId) (nbit : Fin 16) : RSProperty :=
  ⟨⟨id, 0⟩, some nbit, .vtUnknown, 1, 0, 0, 0⟩

def bitReg (slst : List RSProperty) : RegInfo :=
  ⟨0, 10, 6, slst, genRegID 10 6, 0, 1, true, false, true⟩

theorem initRSProperty_bit (id : ObjectId) {nbit : Int} {n : Fin 16}
    (h : initNbit (some nbit) = some (some n)) {p : RSProperty}
    (hp : initRSProperty (bitSensor id nbit).settings = some p) : p = bitProp id n := by
  simp only [initRSProperty, bitSensor, h, Option.bind_eq_bind, Option.bind_some] at hp
  cases hp
  rfl

theorem apart_first (id : ObjectId) (nbit : Int) (n : Fin 16) :
    Apart (bitSensor id nbit) (bitProp id n) (addDev (fun _ => none) (bitSensor id nbit)) := by
  refine ⟨fun k _ r hr => ?_, fun _ r hr => ?_, fun hmtr => by cases hmtr⟩
  · cases hr
  · cases hr

theorem allApart_bits :
    AllApart bitConf [bitSensor 100 3, bitSensor 101 4] fun _ => none := by
  refine ⟨fun _ p hp => ?_, fun devices h => ⟨fun _ p hp => ?_, fun _ _ => trivial⟩⟩
  · rw [initRSProperty_bit 100 (n := 3) rfl hp]
    exact apart_first 100 3 3
  · rw [initRSProperty_bit 101 (n := 4) rfl hp]
    cases h
    refine ⟨fun k hk r hr => ?_, fun _ r hr q hq _ => ?_, fun hmtr => by cases hmtr⟩
    · obtain rfl : k = 0 := by
        have hlt : k < 1 := hk
        omega
      cases hr
      exact ⟨rfl, rfl⟩
    · cases hr
      cases List.mem_singleton.mp hq
      refine ⟨by decide, fun n hn => ?_⟩
      cases hn
      exact fun howns => absurd ((owns_bit (n := 3) rfl).mp howns) (by decide)

/-- Two sensors with a bit each. -/
theorem owned_bits :
    ∃ devices dev, readConfiguration bitConf [bitSensor 100 3, bitSensor 101 4] = some devices ∧
      devices 1 = some dev ∧ Owned dev :=
  ⟨_, _, rfl, rfl, owned_readConfiguration (a := 1) rfl allApart_bits rfl⟩

/-- Two sensors have one bit. -/
theorem not_owned_bits :
    ∃ devices dev, readConfiguration bitConf [bitSensor 100 3, bitSensor 101 3] = some devices ∧
      devices 1 = some dev ∧ ¬Owned dev := by
  refine ⟨_, _, rfl, rfl, fun howned => ?_⟩
  let r := bitReg [bitProp 100 3, bitProp 101 3]
  have hsame := @Owned.sensor _ howned 6 10 3 r (bitProp 100 3) 0 r (bitProp 101 3) 0
    ⟨⟨0, rfl⟩, by decide, rfl, List.mem_cons_self, Nat.zero_lt_one, rfl, .inr (.inr rfl)⟩
    ⟨⟨0, rfl⟩, by decide, rfl, List.mem_cons_of_mem _ List.mem_cons_self, Nat.zero_lt_one, rfl,
      .inr (.inr rfl)⟩
  cases hsame

end Uniset.ModbusMaster
