import Uniset.Extensions.IOBase
import Uniset.ModbusSlave.RangeReads

/-! A sensor's registers are written, and read again. -/

namespace Uniset.ModbusSlave

open Uniset.Lib Uniset.Modbus Uniset.Extensions SlaveFunctionCode

/-- The value of a sensor after it has been given one to process.  A double is passed as a float. -/
def processed (b : IOBase) : Value → Int
  | .processingAsDI set => b.processingAsDI set
  | .processingAsAI val => b.processingAsAI val
  | .processingFasAI fval => b.processingFasAI fval
  | .processingDasAI fval => b.processingFasAI (floatOfDouble fval)

/-- Whether values are asked of the sensors each time, and else whether the change has been reported. -/
structure Mode where
  force : Bool
  reported : Bool

/-- The value that is known for a word: the first has what was written, the others have what was
reported. -/
def Mode.known (mode : Mode) (before after : Int) (p : IOProperty) : Int :=
  if mode.force ∨ mode.reported ∨ p.wnum = 0 then after else before

/-- The sensors when one has been written. -/
def sensorsAfter (b : IOBase) (mode : Mode) (before after : Int) : Sensors where
  processingAsDO p := .ok (b.processingAsDO (mode.known before after p))
  processingAsAO p := .ok (mode.known before after p)
  processingFasAO p := .ok (b.processingFasAO (mode.known before after p))

variable (conf : MBSlave) (m : RegMap) (it : Item)

/-- The registers of a sensor are found by requests with this function. -/
def Reaches (fn : ModbusByte) : Prop :=
  ∀ k < it.wsize, m.find (conf.requestID it.mbreg fn + k) = some (it.wordRegister conf k)

/-- The words that are written to the registers of a sensor are read from them again. -/
def ReadsBack (b : IOBase) (mode : Mode) (fn : ModbusByte) (dat : List ModbusData) : Prop :=
  ∀ before, ∃ w, writeOutputRegisters dat conf m it.mbreg = some (erNoError, [w]) ∧
    w.prop = it.word 0 ∧
    much_read conf
        (fun r => readValue (real_read_it (sensorsAfter b mode before (processed b w.value)) r))
        m it.mbreg dat.length fn = (erNoError, dat)

/-! ## The registers of one sensor -/

/-- Entries that are found one after the other come first. -/
theorem eq_append_of_find? {l : List Register} {base n : Nat} {g : Nat → Register}
    (hsorted : l.Pairwise fun a b => a.regID < b.regID) (hl : ∀ r ∈ l, base ≤ r.regID)
    (hfind : ∀ k < n, l.find? (·.regID = base + k) = some (g k)) :
    ∃ rest, l = (List.range n).map g ++ rest ∧ ∀ r ∈ rest, base + n ≤ r.regID := by
  induction n generalizing l base g with
  | zero => exact ⟨l, rfl, hl⟩
  | succ n ih =>
    have hfirst := hfind 0 (Nat.succ_pos n)
    cases l with
    | nil => cases hfirst
    | cons r l =>
      obtain ⟨hlater, hrest⟩ := List.pairwise_cons.mp hsorted
      have hbase : r.regID = base := by
        refine Classical.byContradiction fun hne => ?_
        have hle := hl r List.mem_cons_self
        rw [List.find?_cons_of_neg (by simpa using hne)] at hfirst
        have hkey : (g 0).regID = base := by simpa using List.find?_some hfirst
        have hlt := hlater (g 0) (List.mem_of_find?_eq_some hfirst)
        omega
      have hhead : r = g 0 := by simpa [hbase] using hfirst
      obtain ⟨rest, hlist, hend⟩ := ih (l := l) (g := fun k => g (k + 1)) hrest
        (fun r' hr' => hbase ▸ hlater r' hr') fun k hk => by
          have hnext := hfind (k + 1) (Nat.succ_lt_succ hk)
          rw [List.find?_cons_of_neg (by simp [hbase])] at hnext
          rw [← hnext, Nat.succ_add_eq_add_succ]
      refine ⟨rest, ?_, fun r' hr' => ?_⟩
      · rw [List.range_succ_eq_map, List.map_cons, List.map_map, List.cons_append, hhead, hlist]
        rfl
      · have hle := hend r' hr'
        omega

variable {conf m it}

theorem wsize_pos (it : Item) : 0 < it.wsize := VType.one_le_wsize _

/-- If the first register exists there is nothing to pass over. -/
theorem much_write_of_first {dat : List ModbusData} {reg : ModbusData} {fn : ModbusByte} {ws : List Write}
    (hpos : 0 < dat.length) (hfirst : (m.find (conf.requestID reg fn)).isSome)
    (hwalk : walk dat (conf.requestID reg fn) 0
      (m.entries.dropWhile fun r => r.regID < conf.requestID reg fn) = some ws) :
    much_write dat conf m reg fn = some (erNoError, ws) := by
  have hfind : (List.range dat.length).find?
      (fun i => (m.find (conf.requestID reg fn + i)).isSome) = some 0 :=
    List.find?_range_eq_some.mpr
      ⟨hfirst, List.mem_range.mpr hpos, fun j hj => absurd hj (Nat.not_lt_zero j)⟩
  have heq := @much_write_eq dat conf m reg fn
  unfold much_write at heq ⊢
  simp only [hfind, hwalk] at heq ⊢
  rw [Option.map_map] at heq
  rw [show _ = some ws from (Option.map_id' (x := _)).symm.trans heq]
  rfl

theorem walk_sensor {dat : List ModbusData} {base : Nat} {l rest : List Register}
    (hl : l = (List.range it.wsize).map (it.wordRegister conf) ++ rest)
    (hkey : (it.wordRegister conf 0).regID = base) (hrest : ∀ r ∈ rest, base + it.wsize ≤ r.regID)
    (hmode : it.amode = .amRW) (hlength : dat.length = it.wsize) :
    walk dat base 0 l = some [⟨0, none, it.word 0, valueOf (it.word 0) dat⟩] := by
  obtain ⟨q, hq⟩ := Nat.exists_eq_succ_of_ne_zero (Nat.ne_of_gt (wsize_pos it))
  have hmode' : (it.word 0).amode = .amRW := hmode
  have hsize : (it.word 0).vtype.wsize = it.wsize := rfl
  have hend : walk dat base 0 rest = some [] := by
    cases rest with
    | nil => rfl
    | cons r rest => rw [walk, if_pos (by rw [hlength]; exact hrest r List.mem_cons_self)]
  have hstep : (it.wordRegister conf 0).step - 1 = q := by
    have hstep : (it.wordRegister conf 0).step = it.wsize :=
      if_neg fun h => h.elim Bool.false_ne_true fun h => by cases hmode'.symm.trans h
    rw [hstep, hq, Nat.succ_sub_one]
  have hwrites : writesOf dat dat.length 0 (it.wordRegister conf 0) =
      [⟨0, none, it.word 0, valueOf (it.word 0) dat⟩] := by
    have hfits : (it.word 0).amode ≠ .amRO ∧
        ((it.word 0).vtype.wsize = 1 ∨ 0 + (it.word 0).vtype.wsize ≤ dat.length) := by
      rw [hmode', hsize, hlength]
      exact ⟨by decide, .inr (Nat.le_of_eq (Nat.zero_add _))⟩
    refine (if_pos hfits).trans ?_
    rw [List.drop_zero, List.take_of_length_le (by rw [hlength]; exact Nat.le_of_eq hsize.symm)]
    rfl
  rw [hl, hq, List.range_succ_eq_map, List.map_cons, List.cons_append, walk,
    if_neg (by rw [hkey, hlength]; have := wsize_pos it; omega), hstep, walk_skip, hkey, Nat.sub_self,
    hwrites, List.length_append, List.length_map, List.length_map, List.length_range,
    if_neg (by omega), List.drop_left' (by simp), hend]
  rfl

/-- All the words of a sensor are one write of its value. -/
theorem writeOutputRegisters_eq {dat : List ModbusData}
    (hreach : Reaches conf m it (conf.getOptimizeWriteFunction fnWriteOutputRegisters.code))
    (hmode : it.amode = .amRW) (hlength : dat.length = it.wsize) :
    writeOutputRegisters dat conf m it.mbreg =
      some (erNoError, [⟨0, none, it.word 0, valueOf (it.word 0) dat⟩]) := by
  have hpos := wsize_pos it
  unfold writeOutputRegisters
  generalize conf.getOptimizeWriteFunction fnWriteOutputRegisters.code = fn at hreach
  have hfirst := hreach 0 hpos
  obtain ⟨rest, hlist, hend⟩ := eq_append_of_find? (n := it.wsize) (g := it.wordRegister conf)
    (m.sorted.sublist (List.dropWhile_sublist fun r => r.regID < conf.requestID it.mbreg fn))
    (fun r hr => le_of_mem_dropWhile m.sorted hr)
    fun k hk => (find?_dropWhile (Nat.le_add_right _ k)).trans (hreach k hk)
  exact much_write_of_first (hlength ▸ hpos) (by rw [← Nat.add_zero (conf.requestID _ _), hfirst]; rfl)
    (walk_sensor hlist (SortedMap.mem_of_find hfirst).2 hend hmode hlength)

/-- All the words of a sensor are read as its own. -/
theorem much_read_eq {s : Sensors} {fn : ModbusByte} (hreach : Reaches conf m it fn) :
    much_read conf (fun r => readValue (real_read_it s r)) m it.mbreg it.wsize fn =
      (erNoError, (List.range it.wsize).map fun k => readValue (real_read_prop s (it.word k))) := by
  have hpos := wsize_pos it
  rw [much_read, readRange_eq, if_neg fun hnone => Option.some_ne_none _ ((hreach 0 hpos).symm.trans (hnone 0 hpos)),
    valuesOf]
  refine congrArg (Prod.mk erNoError) (List.map_map.trans (List.map_congr_left fun k hk => ?_))
  rw [Function.comp_apply, hreach k (List.mem_range.mp hk)]
  rfl

/-! ## Words of memory -/

theorem memory32_cutTo (v : Int) : memory32 (cutTo 32 v) = memory32 v :=
  congrArg Int.toNat Int.bmod_emod

theorem memory32_toNat (x : UInt32) : memory32 x.toNat = x.toNat := by
  have hx := x.toNat_lt
  unfold memory32
  omega

theorem memory32_toInt32 (x : UInt32) : memory32 x.toInt32.toInt = x.toNat := by
  have h : x.toInt32.toInt = cutTo 32 x.toNat := x.toBitVec.toInt_eq_toNat_bmod
  rw [h, memory32_cutTo, memory32_toNat]

theorem ofInt_cutTo (v : Int) : UInt16.ofInt (cutTo 32 v) = UInt16.ofInt v := by
  have hcut : cutTo 32 v % 2 ^ 16 = v % 2 ^ 16 := by
    have h : cutTo 32 v % 2 ^ 32 = v % 2 ^ 32 := Int.bmod_emod
    omega
  rw [UInt16.ofInt, hcut, UInt16.ofInt]

theorem ofInt_toNat (x : UInt16) : UInt16.ofInt x.toNat = x := by
  have hx := x.toNat_lt
  refine UInt16.toNat_inj.mp ?_
  rw [UInt16.ofInt, UInt16.toNat_ofNat']
  omega

theorem ofInt_toInt16 (x : UInt16) : UInt16.ofInt x.toInt16.toInt = x := by
  have h : x.toInt16.toInt = (x.toNat : Int).bmod (2 ^ 16) := x.toBitVec.toInt_eq_toNat_bmod
  have hcut : (x.toNat : Int).bmod (2 ^ 16) % 2 ^ 16 = x.toNat % 2 ^ 16 := Int.bmod_emod
  rw [h, UInt16.ofInt, hcut]
  exact ofInt_toNat x

theorem toNat_dword (lo hi : ModbusData) : (dword lo hi).toNat = lo.toNat + 65536 * hi.toNat := by
  have hlo := lo.toNat_lt
  have hhi := hi.toNat_lt
  have hor := Nat.shiftLeft_add_eq_or_of_lt (i := 16) hlo hi.toNat
  have hshift : (16 : UInt32).toNat % 32 = 16 := rfl
  rw [dword, UInt32.toNat_or, UInt32.toNat_shiftLeft, UInt16.toNat_toUInt32, UInt16.toNat_toUInt32,
    Nat.or_comm, hshift, Nat.mod_eq_of_lt (by rw [Nat.shiftLeft_eq]; omega), ← hor, Nat.shiftLeft_eq]
  omega

def qword (lo hi : UInt32) : UInt64 := lo.toUInt64 ||| hi.toUInt64 <<< 32

theorem toNat_qword (lo hi : UInt32) : (qword lo hi).toNat = lo.toNat + 4294967296 * hi.toNat := by
  have hlo := lo.toNat_lt
  have hhi := hi.toNat_lt
  have hor := Nat.shiftLeft_add_eq_or_of_lt (i := 32) hlo hi.toNat
  have hshift : (32 : UInt64).toNat % 64 = 32 := rfl
  rw [qword, UInt64.toNat_or, UInt64.toNat_shiftLeft, UInt32.toNat_toUInt64, UInt32.toNat_toUInt64,
    Nat.or_comm, hshift, Nat.mod_eq_of_lt (by rw [Nat.shiftLeft_eq]; omega), ← hor, Nat.shiftLeft_eq]
  omega

/-- The two words of a value are its memory. -/
theorem words_eq_iff {x : Nat} (hx : x < 2 ^ 32) {lo hi : ModbusData} :
    wordOf x 0 = lo ∧ wordOf x 1 = hi ↔ x = (dword lo hi).toNat := by
  have hlo := lo.toNat_lt
  have hhi := hi.toNat_lt
  rw [toNat_dword, ← UInt16.toNat_inj, ← UInt16.toNat_inj, wordOf, wordOf, UInt16.toNat_ofNat',
    UInt16.toNat_ofNat']
  omega

theorem words_eq_qword_iff {x : UInt64} {w₀ w₁ w₂ w₃ : ModbusData} :
    (wordOf x.toNat 0 = w₀ ∧ wordOf x.toNat 1 = w₁ ∧ wordOf x.toNat 2 = w₂ ∧ wordOf x.toNat 3 = w₃) ↔
      x = qword (dword w₀ w₁) (dword w₂ w₃) := by
  have hx := x.toNat_lt
  have h₀ := w₀.toNat_lt
  have h₁ := w₁.toNat_lt
  have h₂ := w₂.toNat_lt
  have h₃ := w₃.toNat_lt
  simp only [← UInt64.toNat_inj, toNat_qword, toNat_dword, ← UInt16.toNat_inj, wordOf,
    UInt16.toNat_ofNat']
  omega

/-! ## One sensor -/

/-- The words that are read of a sensor. -/
def wordsRead (b : IOBase) (mode : Mode) (it : Item) (before after : Int) : List ModbusData :=
  (List.range it.wsize).map fun k => readValue (real_read_prop (sensorsAfter b mode before after)
    (it.word k))

theorem readsBack_iff {b : IOBase} {mode : Mode} {fn : ModbusByte} {dat : List ModbusData}
    (hwrite : Reaches conf m it (conf.getOptimizeWriteFunction fnWriteOutputRegisters.code))
    (hread : Reaches conf m it fn) (hmode : it.amode = .amRW) (hlength : dat.length = it.wsize) :
    ReadsBack conf m it b mode fn dat ↔
      ∀ before, wordsRead b mode it before (processed b (valueOf (it.word 0) dat)) = dat := by
  refine forall_congr' fun before => ?_
  rw [writeOutputRegisters_eq hwrite hmode hlength, hlength]
  constructor
  · rintro ⟨w, hw, -, hvalues⟩
    cases hw
    rw [much_read_eq hread] at hvalues
    exact congrArg Prod.snd hvalues
  · intro hwords
    refine ⟨_, rfl, rfl, ?_⟩
    rw [much_read_eq hread]
    exact congrArg (Prod.mk erNoError) hwords

/-- A word of a sensor that has a value. -/
def wordAt (b : IOBase) (it : Item) (k : Nat) (v : Int) : ModbusData :=
  readValue (real_read_prop ⟨fun _ => .ok (b.processingAsDO v), fun _ => .ok v,
    fun _ => .ok (b.processingFasAO v)⟩ (it.word k))

theorem wordsRead_eq (b : IOBase) (mode : Mode) (it : Item) (before after : Int) :
    wordsRead b mode it before after = (List.range it.wsize).map fun k =>
      wordAt b it k (if mode.force ∨ mode.reported ∨ k = 0 then after else before) := rfl

/-- Whether a value is not zero for the sensor that it is given to. -/
def Value.nonzero : Value → Bool
  | .processingAsDI set => set
  | .processingAsAI val => val ≠ 0
  | .processingFasAI fval => magnitude32 fval ≠ 0
  | .processingDasAI fval => magnitude32 (floatOfDouble fval) ≠ 0

/-- The words that a sensor keeps, by the type of its value. -/
def Kept (b : IOBase) (it : Item) (dat : List ModbusData) : Prop :=
  let w := fun i => dat.getD i 0
  if b.isDiscrete then
    dat = List.replicate it.wsize
      (if (valueOf (it.word 0) dat).nonzero != b.invert then 1 else 0)
  else
    match it.vtype.getD .vtUnknown with
    | .vtByte => if it.nbyte = 1 then (w 0).toNat < 256 else w 0 = 0
    | .vtF2 => b.Keeps (dword (w 0) (w 1))
    | .vtF2r => b.Keeps (dword (w 1) (w 0))
    | .vtF4 => ∃ f, doubleOfFloat f = qword (dword (w 0) (w 1)) (dword (w 2) (w 3)) ∧ b.Keeps f
    | .vtUnknown | .vtUnsigned | .vtSigned | .vtI2 | .vtI2r | .vtU2 | .vtU2r => True

variable {b : IOBase} {v : VType}

theorem wordAt_discrete (hdiscrete : b.isDiscrete) (hstype : b.stype = it.stype)
    (hmode : it.amode = .amRW) (k : Nat) (value : Int) :
    wordAt b it k value = if b.processingAsDO value then 1 else 0 := by
  have hmode' : (it.word k).amode = .amRW := hmode
  have hstype' : (it.word k).stype = .DI ∨ (it.word k).stype = .DO := by
    have h : (it.word k).stype = b.stype := hstype.symm
    rw [h]
    exact hdiscrete
  unfold wordAt real_read_prop
  rw [hmode', if_neg nofun, if_pos hstype']
  rfl

theorem processed_discrete (hdiscrete : b.isDiscrete) (hv : it.vtype = some v) (hne : v ≠ .vtUnknown)
    (dat : List ModbusData) :
    processed b (valueOf (it.word 0) dat) =
      if (valueOf (it.word 0) dat).nonzero then 1 else 0 := by
  have hvtype : (it.word 0).vtype = v := by
    change it.vtype.getD .vtUnknown = v
    rw [hv]
    rfl
  unfold valueOf
  rw [hvtype]
  cases v with
  | vtUnknown => exact absurd rfl hne
  | _ =>
    simp only [processed, IOBase.processingAsAI, IOBase.processingFasAI, if_pos hdiscrete,
      Value.nonzero, decide_eq_true_eq]

theorem words_discrete_iff (hdiscrete : b.isDiscrete) (hstype : b.stype = it.stype)
    (hmode : it.amode = .amRW) (hv : it.vtype = some v) (hne : v ≠ .vtUnknown)
    (dat : List ModbusData) :
    ((List.range it.wsize).map fun k => wordAt b it k (processed b (valueOf (it.word 0) dat))) = dat ↔
      Kept b it dat := by
  have hread : b.processingAsDO (processed b (valueOf (it.word 0) dat)) =
      ((valueOf (it.word 0) dat).nonzero != b.invert) := by
    rw [processed_discrete hdiscrete hv hne]
    unfold IOBase.processingAsDO
    cases (valueOf (it.word 0) dat).nonzero <;> rfl
  unfold Kept
  dsimp only
  rw [if_pos hdiscrete]
  simp only [wordAt_discrete hdiscrete hstype hmode, hread, List.map_const', List.length_range]
  exact eq_comm

/-- A word of an analog value, by its type. -/
def wordFor (b : IOBase) (v : VType) (k : Nat) (value : Int) : ModbusData :=
  match v with
  | .vtF2 => wordOf (b.processingFasAO value).toNat k
  | .vtF2r => wordOf (b.processingFasAO value).toNat (1 - k)
  | .vtF4 => wordOf (doubleOfFloat (b.processingFasAO value)).toNat k
  | .vtI2 | .vtU2 => wordOf (memory32 value) k
  | .vtI2r | .vtU2r => wordOf (memory32 value) (1 - k)
  | .vtUnknown | .vtByte | .vtUnsigned | .vtSigned => UInt16.ofInt value

theorem wordAt_analog (hanalog : ¬b.isDiscrete) (hstype : b.stype = it.stype)
    (hmode : it.amode = .amRW) (hv : it.vtype = some v) (k : Nat) (value : Int) :
    wordAt b it k value = wordFor b v k value := by
  have hmode' : (it.word k).amode = .amRW := hmode
  have hstype' : ¬((it.word k).stype = .DI ∨ (it.word k).stype = .DO) := by
    have h : (it.word k).stype = b.stype := hstype.symm
    rw [h]
    exact hanalog
  have hvtype : (it.word k).vtype = v := by
    change it.vtype.getD .vtUnknown = v
    rw [hv]
    rfl
  unfold wordAt real_read_prop analogWord
  rw [hmode', if_neg nofun, if_neg hstype', hvtype]
  cases v <;> rfl

theorem ofInt_processingAsAI (hanalog : ¬b.isDiscrete) (value : Int) :
    UInt16.ofInt (b.processingAsAI value) = UInt16.ofInt value := by
  unfold IOBase.processingAsAI IOBase.filterRC
  rw [if_neg hanalog]
  split_ifs
  · exact ofInt_cutTo value
  · rfl

theorem memory32_processingAsAI (hanalog : ¬b.isDiscrete) (value : Int) :
    memory32 (b.processingAsAI value) = memory32 value := by
  unfold IOBase.processingAsAI IOBase.filterRC
  rw [if_neg hanalog]
  split_ifs
  · exact memory32_cutTo value
  · rfl

theorem map_wordOf_iff {x : Nat} (hx : x < 2 ^ 32) {lo hi : ModbusData} :
    ((List.range 2).map fun k => wordOf x k) = [lo, hi] ↔ x = (dword lo hi).toNat := by
  rw [← words_eq_iff hx]
  exact (List.cons_eq_cons.trans (and_congr_right fun _ => List.singleton_inj))

theorem map_wordOf_reverse_iff {x : Nat} (hx : x < 2 ^ 32) {lo hi : ModbusData} :
    ((List.range 2).map fun k => wordOf x (1 - k)) = [lo, hi] ↔ x = (dword hi lo).toNat := by
  rw [← words_eq_iff hx, and_comm]
  exact (List.cons_eq_cons.trans (and_congr_right fun _ => List.singleton_inj))

theorem map_wordOf_four_iff {x : UInt64} {w₀ w₁ w₂ w₃ : ModbusData} :
    ((List.range 4).map fun k => wordOf x.toNat k) = [w₀, w₁, w₂, w₃] ↔
      x = qword (dword w₀ w₁) (dword w₂ w₃) := by
  rw [← words_eq_qword_iff]
  exact List.cons_eq_cons.trans (and_congr_right fun _ => List.cons_eq_cons.trans
    (and_congr_right fun _ => List.cons_eq_cons.trans (and_congr_right fun _ => List.singleton_inj)))

theorem memory32_lt (v : Int) : memory32 v < 2 ^ 32 := by
  unfold memory32
  omega

/-- The words of an analog sensor come back if and only if it keeps them. -/
theorem words_analog_iff (hanalog : ¬b.isDiscrete) (hstype : b.stype = it.stype)
    (hmode : it.amode = .amRW) (hv : it.vtype = some v) {dat : List ModbusData}
    (hlength : dat.length = it.wsize) :
    ((List.range it.wsize).map fun k => wordAt b it k (processed b (valueOf (it.word 0) dat))) = dat ↔
      Kept b it dat := by
  have hvtype : (it.word 0).vtype = v := by
    change it.vtype.getD .vtUnknown = v
    rw [hv]
    rfl
  have hsize : it.wsize = v.wsize := congrArg VType.wsize hvtype
  have hnbyte : v = .vtByte → (it.word 0).nbyte = it.nbyte := by
    rintro rfl
    exact if_pos hv
  simp only [wordAt_analog hanalog hstype hmode hv]
  rw [hsize] at hlength ⊢
  unfold Kept valueOf wordFor
  simp only [if_neg hanalog, hvtype, hv, Option.getD_some]
  cases v with
  | vtByte =>
    obtain ⟨w, rfl⟩ := List.length_eq_one_iff.mp hlength
    have hw := w.toNat_lt
    change [UInt16.ofInt (b.processingAsAI _)] = [w] ↔ _
    rw [ofInt_processingAsAI hanalog, hnbyte rfl, List.singleton_inj, ← UInt16.toNat_inj]
    change _ ↔ if it.nbyte = 1 then w.toNat < 256 else w = 0
    rw [← UInt16.toNat_inj, UInt16.ofInt, UInt16.toNat_ofNat']
    change _ ↔ if it.nbyte = 1 then w.toNat < 256 else w.toNat = 0
    have hhead : [w].getD 0 0 = w := rfl
    simp only [hhead]
    split_ifs
    · omega
    · have hbyte : ((w.toNat : Int) / 256 % 2 ^ 16).toNat % 2 ^ 16 = w.toNat / 256 := by omega
      rw [hbyte]
      omega
  | vtUnknown =>
    obtain ⟨w, rfl⟩ := List.length_eq_one_iff.mp hlength
    have hstype' : ¬((it.word 0).stype = .DI ∨ (it.word 0).stype = .DO) := by
      have h : (it.word 0).stype = b.stype := hstype.symm
      rw [h]
      exact hanalog
    rw [if_neg hstype']
    change [UInt16.ofInt (b.processingAsAI w.toInt16.toInt)] = [w] ↔ True
    rw [ofInt_processingAsAI hanalog, ofInt_toInt16]
    exact iff_of_true rfl trivial
  | vtUnsigned =>
    obtain ⟨w, rfl⟩ := List.length_eq_one_iff.mp hlength
    change [UInt16.ofInt (b.processingAsAI w.toNat)] = [w] ↔ True
    rw [ofInt_processingAsAI hanalog, ofInt_toNat]
    exact iff_of_true rfl trivial
  | vtSigned =>
    obtain ⟨w, rfl⟩ := List.length_eq_one_iff.mp hlength
    change [UInt16.ofInt (b.processingAsAI w.toInt16.toInt)] = [w] ↔ True
    rw [ofInt_processingAsAI hanalog, ofInt_toInt16]
    exact iff_of_true rfl trivial
  | vtI2 =>
    obtain ⟨lo, hi, rfl⟩ := List.length_eq_two.mp hlength
    rw [iff_true]
    refine (map_wordOf_iff (memory32_lt _)).mpr ?_
    exact (memory32_processingAsAI hanalog _).trans (memory32_toInt32 _)
  | vtI2r =>
    obtain ⟨lo, hi, rfl⟩ := List.length_eq_two.mp hlength
    rw [iff_true]
    refine (map_wordOf_reverse_iff (memory32_lt _)).mpr ?_
    exact (memory32_processingAsAI hanalog _).trans (memory32_toInt32 _)
  | vtU2 =>
    obtain ⟨lo, hi, rfl⟩ := List.length_eq_two.mp hlength
    rw [iff_true]
    refine (map_wordOf_iff (memory32_lt _)).mpr ?_
    exact (memory32_processingAsAI hanalog _).trans (memory32_toNat _)
  | vtU2r =>
    obtain ⟨lo, hi, rfl⟩ := List.length_eq_two.mp hlength
    rw [iff_true]
    refine (map_wordOf_reverse_iff (memory32_lt _)).mpr ?_
    exact (memory32_processingAsAI hanalog _).trans (memory32_toNat _)
  | vtF2 =>
    obtain ⟨lo, hi, rfl⟩ := List.length_eq_two.mp hlength
    refine (map_wordOf_iff (UInt32.toNat_lt _)).trans ?_
    rw [UInt32.toNat_inj]
    exact IOBase.processingFasAO_processingFasAI_iff hanalog (dword lo hi)
  | vtF2r =>
    obtain ⟨lo, hi, rfl⟩ := List.length_eq_two.mp hlength
    refine (map_wordOf_reverse_iff (UInt32.toNat_lt _)).trans ?_
    rw [UInt32.toNat_inj]
    exact IOBase.processingFasAO_processingFasAI_iff hanalog (dword hi lo)
  | vtF4 =>
    obtain ⟨w₀, rest, rfl⟩ := List.exists_cons_of_length_eq_add_one hlength
    obtain ⟨w₁, w₂, w₃, rfl⟩ := List.length_eq_three.mp (Nat.succ.inj hlength)
    refine map_wordOf_four_iff.trans ?_
    exact IOBase.doubleOfFloat_processingFasAO_iff hanalog (qword (dword w₀ w₁) (dword w₂ w₃))

/-- Words that were not written are not the same for every value that a sensor may have had. -/
theorem exists_wordAt_ne (b : IOBase) (hsize : 1 < it.wsize) (hmode : it.amode = .amRW)
    (hstype : b.stype = it.stype) (hv : it.vtype = some v) : wordAt b it 1 0 ≠ wordAt b it 1 16777215 := by
  by_cases hdiscrete : b.isDiscrete
  · rw [wordAt_discrete hdiscrete hstype hmode, wordAt_discrete hdiscrete hstype hmode]
    unfold IOBase.processingAsDO
    cases b.invert <;> decide
  · rw [wordAt_analog hdiscrete hstype hmode hv, wordAt_analog hdiscrete hstype hmode hv]
    have hsize' : 1 < v.wsize := by
      have h : it.wsize = v.wsize := by
        unfold Item.wsize
        rw [hv]
        rfl
      rwa [h] at hsize
    clear hv
    unfold wordFor IOBase.processingFasAO
    cases v with
    | vtUnknown | vtByte | vtUnsigned | vtSigned => exact absurd hsize' (by decide)
    | _ => cases b.rawdata <;> decide +kernel

/-- The words of a sensor can come back: those after the first are not read before the change has been
reported, unless values are asked of the sensors each time, and the sensor keeps them. -/
def CanComeBack (b : IOBase) (mode : Mode) (it : Item) (dat : List ModbusData) : Prop :=
  (mode.force ∨ mode.reported ∨ it.wsize = 1) ∧ Kept b it dat

/-- This says exactly when they do. -/
theorem readsBack_iff_kept {mode : Mode} {fn : ModbusByte} {dat : List ModbusData}
    (hwrite : Reaches conf m it (conf.getOptimizeWriteFunction fnWriteOutputRegisters.code))
    (hread : Reaches conf m it fn) (hmode : it.amode = .amRW) (hstype : b.stype = it.stype)
    (hv : it.vtype = some v) (hne : v ≠ .vtUnknown) (hlength : dat.length = it.wsize) :
    ReadsBack conf m it b mode fn dat ↔ CanComeBack b mode it dat := by
  have hkept : ((List.range it.wsize).map fun k =>
      wordAt b it k (processed b (valueOf (it.word 0) dat))) = dat ↔ Kept b it dat := by
    by_cases hdiscrete : b.isDiscrete
    · exact words_discrete_iff hdiscrete hstype hmode hv hne dat
    · exact words_analog_iff hdiscrete hstype hmode hv hlength
  rw [readsBack_iff hwrite hread hmode hlength, CanComeBack, ← hkept]
  simp only [wordsRead_eq]
  by_cases hknown : mode.force ∨ mode.reported ∨ it.wsize = 1
  · have hall : ∀ before, ((List.range it.wsize).map fun k => wordAt b it k
        (if mode.force ∨ mode.reported ∨ k = 0 then processed b (valueOf (it.word 0) dat)
          else before)) =
        (List.range it.wsize).map fun k => wordAt b it k (processed b (valueOf (it.word 0) dat)) := by
      refine fun before => List.map_congr_left fun k hk => ?_
      have hk := List.mem_range.mp hk
      rw [if_pos]
      rcases hknown with hforce | hreported | hone
      · exact .inl hforce
      · exact .inr (.inl hreported)
      · exact .inr (.inr (by omega))
    simp only [hall, and_iff_right hknown, forall_const]
  · obtain ⟨hforce, hreported, hone⟩ := not_or.mp hknown |>.imp_right not_or.mp
    refine iff_of_false (fun h => ?_) fun h => hknown h.1
    have hsize : 1 < it.wsize := by
      have hpos := wsize_pos it
      omega
    have hsame := (h 0).trans (h 16777215).symm
    have hword := congrArg (fun l : List ModbusData => l[1]?) hsame
    simp only [List.getElem?_map, List.getElem?_range hsize, Option.map_some, Option.some.injEq,
      hforce, hreported, Nat.one_ne_zero] at hword
    exact exists_wordAt_ne b hsize hmode hstype hv hword

/-- A sensor whose words are taken as they were meant: not a double, not the high byte of a word, and
not a discrete one that is inverted. -/
structure AsMeant (b : IOBase) (it : Item) (v : VType) : Prop where
  single : v ≠ .vtF4
  lowByte : v = .vtByte → it.nbyte = 1
  straight : b.isDiscrete → b.invert = false

/-- The words that are written to a sensor of any type are read again if they can come back, and
otherwise they are not. -/
theorem readsBack_of_canComeBack {mode : Mode} {fn : ModbusByte} {dat : List ModbusData}
    (hwrite : Reaches conf m it (conf.getOptimizeWriteFunction fnWriteOutputRegisters.code))
    (hread : Reaches conf m it fn) (hmode : it.amode = .amRW) (hstype : b.stype = it.stype)
    (hv : it.vtype = some v) (hne : v ≠ .vtUnknown) (hlength : dat.length = it.wsize) :
    (CanComeBack b mode it dat → ReadsBack conf m it b mode fn dat) ∧
      (AsMeant b it v → ReadsBack conf m it b mode fn dat → CanComeBack b mode it dat) := by
  have hiff : ReadsBack conf m it b mode fn dat ↔ CanComeBack b mode it dat :=
    readsBack_iff_kept hwrite hread hmode hstype hv hne hlength
  exact ⟨hiff.mpr, fun _ => hiff.mp⟩

/-- A float in registers 5 and 6. -/
def floatItem : Item := wordItem 10 5 (some .vtF2)

def floatMap : RegMap := (initItems ⟨false, false, 0⟩ [floatItem]).getD .empty

theorem reaches_floatItem (fn : ModbusByte) : Reaches ⟨false, false, 0⟩ floatMap floatItem fn := by
  intro k hk
  match k, hk with
  | 0, _ => rfl
  | 1, _ => rfl

/-- The float 2. -/
theorem readsBack_two :
    (CanComeBack ⟨.AI, false, false, false, 1⟩ ⟨true, false⟩ floatItem [0, 0x4000] →
      ReadsBack ⟨false, false, 0⟩ floatMap floatItem ⟨.AI, false, false, false, 1⟩ ⟨true, false⟩ 3
        [0, 0x4000]) ∧
      (AsMeant ⟨.AI, false, false, false, 1⟩ floatItem .vtF2 →
        ReadsBack ⟨false, false, 0⟩ floatMap floatItem ⟨.AI, false, false, false, 1⟩ ⟨true, false⟩ 3
          [0, 0x4000] →
        CanComeBack ⟨.AI, false, false, false, 1⟩ ⟨true, false⟩ floatItem [0, 0x4000]) :=
  readsBack_of_canComeBack (reaches_floatItem _) (reaches_floatItem 3) rfl rfl rfl nofun rfl

/-- The float 1.5 is rounded to 2. -/
theorem not_readsBack :
    ¬∀ (conf : MBSlave) (m : RegMap) (it : Item) (b : IOBase) (mode : Mode) (fn : ModbusByte)
      (v : VType) (dat : List ModbusData),
      Reaches conf m it (conf.getOptimizeWriteFunction fnWriteOutputRegisters.code) →
      Reaches conf m it fn → it.amode = .amRW → b.stype = it.stype → it.vtype = some v →
      v ≠ .vtUnknown → dat.length = it.wsize → ReadsBack conf m it b mode fn dat := by
  intro h
  have hback := h ⟨false, false, 0⟩ floatMap floatItem ⟨.AI, false, false, false, 1⟩ ⟨true, false⟩ 3 .vtF2
    [0, 0x3fc0] (reaches_floatItem _) (reaches_floatItem 3) rfl rfl rfl nofun rfl
  have hwords := (readsBack_iff (reaches_floatItem _) (reaches_floatItem 3) rfl rfl).mp hback 0
  exact absurd hwords (by decide +kernel)

end Uniset.ModbusSlave
