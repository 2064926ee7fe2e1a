import Uniset.Modbus.ModbusTypes
import Uniset.ModbusSlave.MuchWrite

/-! The registers of a function and the ranges of them that are read and written. -/

namespace Uniset.ModbusSlave

open Uniset.Lib Uniset.Modbus

/-- The registers that are read for the places of a range; where there is none, zero is returned. -/
def readLoop : Nat → List Register → Nat → List (Option Register)
  | 0, _, _ => []
  | n + 1, [], regID => none :: readLoop n [] (regID + 1)
  | n + 1, r :: rest, regID =>
    if r.regID = regID then some r :: readLoop n rest (regID + 1)
    else none :: readLoop n (r :: rest) (regID + 1)

variable (conf : MBSlave)

/-- What the two functions that read a range do alike: the first register is looked up, then the map
is walked.  Nothing is found if there is no register in the range. -/
def readRange (m : RegMap) (reg : ModbusData) (count : Nat) (fn : ModbusByte) :
    Option (List (Option Register)) :=
  let regID := conf.requestID reg fn
  match (List.range count).find? fun i => (m.find (regID + i)).isSome with
  | none => none
  | some i =>
    let it := m.entries.dropWhile fun r => r.regID < regID + i
    some (List.replicate i none ++ readLoop (count - i) it (regID + i))

section Reading

variable (real_read_it : Register → ModbusData)

/-- What is returned for a range, if its registers are read as `real_read_it` says. -/
def valuesOf (count : Nat) (range : Option (List (Option Register))) :
    mbErrCode × List ModbusData :=
  match range with
  | none => (erBadDataAddress, List.replicate count 0)
  | some rs => (erNoError, rs.map fun r => (r.map real_read_it).getD 0)

def much_read (m : RegMap) (reg : ModbusData) (count : Nat) (fn : ModbusByte) :
    mbErrCode × List ModbusData :=
  valuesOf real_read_it count (readRange conf m reg count fn)

def bits_read (m : RegMap) (reg : ModbusData) (dat : BitsBuffer) (count : Nat) (fn : ModbusByte) :
    mbErrCode × BitsBuffer :=
  let res := valuesOf real_read_it count (readRange conf m reg count fn)
  (res.1, (res.2.zipIdx).foldl (fun dat v => dat.setByBitNum (.ofNat v.2) (v.1 ≠ 0)) dat)

end Reading

/-- The function that the registers of a request are looked up with. -/
def MBSlave.requestFunc (fn : ModbusByte) : ModbusByte :=
  if conf.checkMBFunc then fn else conf.default_mbfunc

/-- The register is kept for another function. -/
def Register.OfOther (fn : ModbusByte) (r : Register) : Prop :=
  ∃ s g, g ≠ fn ∧ r.regID = genRegID s g

/-- The register is one whose sensor, or the sensor of one of its bits, is written. -/
def Register.Has (r : Register) (w : Write) : Prop :=
  match r.bitreg with
  | some b => ∃ n, w.nbit = some n ∧ b n = some w.prop
  | none => w.nbit = none ∧ w.prop = r.prop

/-- Neither of the requests for a range gets at a register of another function. -/
structure KeepsToFunction (m : RegMap) (reg : ModbusData) (count : Nat) (fn : ModbusByte) :
    Prop where
  read : ∀ rs, readRange conf m reg count fn = some rs →
    ∀ r, some r ∈ rs → ¬r.OfOther (conf.requestFunc fn)
  write : ∀ dat, dat.length = count → ∀ res, much_write dat conf m reg fn = some res →
    ∀ w ∈ res.2, ∃ r ∈ m.entries, r.Has w ∧ ¬r.OfOther (conf.requestFunc fn)

/-- A range is inside the registers of a function that are not those of its neighbours, too. -/
def Inside (reg : ModbusData) (count : Nat) (fn : ModbusByte) : Prop :=
  (reg.toNat = 0 → fn.toNat = 0) ∧ (65535 < reg.toNat + count → fn.toNat = 255)

/-- A register and the last of the function before are one only at the ends. -/
theorem genRegID_inj_iff (r s : ModbusData) (f g : ModbusByte) :
    (genRegID r f = genRegID s g → r = s ∧ f = g) ↔
      ¬(r.toNat = 65535 ∧ s.toNat = 0 ∧ g.toNat = f.toNat + 1) ∧
        ¬(s.toNat = 65535 ∧ r.toNat = 0 ∧ f.toNat = g.toNat + 1) := by
  rw [genRegID_eq_iff]
  constructor
  · intro h
    constructor
    · rintro hfirst
      have hfg := congrArg UInt8.toNat (h (.inr (.inl hfirst))).2
      omega
    · rintro hsecond
      have hfg := congrArg UInt8.toNat (h (.inr (.inr hsecond))).2
      omega
  · rintro ⟨hfirst, hsecond⟩ (hsame | h | h)
    · exact hsame
    · exact absurd h hfirst
    · exact absurd h hsecond

theorem genRegID_succ {r : ModbusData} (hr : r.toNat < 65535) (f : ModbusByte) :
    genRegID (r + 1) f = genRegID r f + 1 := by
  have hnext : (r + 1).toNat = r.toNat + 1 := by
    rw [UInt16.toNat_add]
    exact Nat.mod_eq_of_lt (Nat.succ_lt_succ hr)
  exact genRegID_eq_succ_iff.mpr (.inl ⟨hnext, rfl⟩)

/-- The identifiers of a function are an interval. -/
theorem exists_genRegID_iff (f : ModbusByte) (k : Nat) :
    (∃ r, genRegID r f = k) ↔ genRegID 0 f ≤ k ∧ k ≤ genRegID 65535 f := by
  unfold genRegID
  dsimp only
  constructor
  · rintro ⟨r, rfl⟩
    have hr := r.toNat_lt
    change 65535 + 0 + _ + 1 ≤ _ ∧ _ ≤ 65535 + 65535 + _ + 1
    omega
  · intro h
    change 65535 + 0 + _ + 1 ≤ _ ∧ _ ≤ 65535 + 65535 + _ + 1 at h
    refine ⟨.ofNat (k - (65535 + 65535 * f.toNat + 1)), ?_⟩
    rw [UInt16.toNat_ofNat']
    omega

theorem disjoint_genRegID_iff {f g : ModbusByte} (hne : f ≠ g) :
    (∀ r s, genRegID r f ≠ genRegID s g) ↔
      g.toNat ≠ f.toNat + 1 ∧ f.toNat ≠ g.toNat + 1 := by
  simp only [ne_eq, genRegID_eq_iff, hne, and_false, false_or, not_or]
  constructor
  · intro h
    exact ⟨fun hnext => (h 65535 0).1 ⟨rfl, rfl, hnext⟩, fun hnext => (h 0 65535).2 ⟨rfl, rfl, hnext⟩⟩
  · rintro ⟨hnext, hprev⟩ r s
    exact ⟨fun h => hnext h.2.2, fun h => hprev h.2.2⟩

theorem mem_readLoop {n : Nat} {l : List Register} {regID : Nat} {r : Register}
    (h : some r ∈ readLoop n l regID) : r ∈ l ∧ regID ≤ r.regID ∧ r.regID < regID + n := by
  induction n generalizing l regID with
  | zero => cases h
  | succ n ih =>
    cases l with
    | nil =>
      rcases List.mem_cons.mp h with h | h
      · cases h
      · cases (ih h).1
    | cons a rest =>
      unfold readLoop at h
      split_ifs at h with hhere
      · rcases List.mem_cons.mp h with h | h
        · cases h
          exact ⟨List.mem_cons_self, by omega, by omega⟩
        · obtain ⟨hmem, hle, hlt⟩ := ih h
          exact ⟨List.mem_cons_of_mem a hmem, by omega, by omega⟩
      · rcases List.mem_cons.mp h with h | h
        · cases h
        · obtain ⟨hmem, hle, hlt⟩ := ih h
          exact ⟨hmem, by omega, by omega⟩

variable {conf} {m : RegMap} {reg : ModbusData} {count : Nat} {fn : ModbusByte}

/-- What is read for a range is in it. -/
theorem mem_readRange {rs : List (Option Register)} (h : readRange conf m reg count fn = some rs)
    {r : Register} (hr : some r ∈ rs) :
    conf.requestID reg fn ≤ r.regID ∧ r.regID < conf.requestID reg fn + count := by
  unfold readRange at h
  extract_lets regID at h
  cases hfirst : (List.range count).find? fun i => (m.find (regID + i)).isSome with
  | none =>
    rw [hfirst] at h
    cases h
  | some i =>
    rw [hfirst] at h
    have hi : i < count := List.mem_range.mp (List.mem_of_find?_eq_some hfirst)
    obtain rfl := Option.some.inj h
    rcases List.mem_append.mp hr with hr | hr
    · cases List.eq_of_mem_replicate hr
    · obtain ⟨-, hle, hlt⟩ := mem_readLoop hr
      omega

/-- The only register of a map is read if it is in the range. -/
theorem readRange_single {r : Register} {i : Nat} (hr : r.regID = conf.requestID reg fn + i)
    (hi : i < count) :
    ∃ rs, readRange conf ⟨[r], List.pairwise_singleton _ _⟩ reg count fn = some rs ∧
      some r ∈ rs := by
  have hfirst : (List.range count).find? (fun j => (SortedMap.find
      (⟨[r], List.pairwise_singleton _ _⟩ : RegMap) (conf.requestID reg fn + j)).isSome) = some i := by
    rw [List.find?_eq_some_iff_getElem]
    refine ⟨by simp [SortedMap.find, hr], i, by simpa using hi, by simp, fun j hj => ?_⟩
    simp [SortedMap.find, hr]
    omega
  let it := [r].dropWhile fun r => r.regID < conf.requestID reg fn + i
  let rs := List.replicate i none ++ readLoop (count - i) it (conf.requestID reg fn + i)
  refine ⟨rs, by simp only [readRange, hfirst, rs, it], List.mem_append_right _ ?_⟩
  obtain ⟨n, hn⟩ := Nat.exists_eq_add_of_lt hi
  have hleft : count - i = n + 1 := by omega
  rw [hleft, ← hr]
  simp [it, ← hr, readLoop]

theorem has_of_mem_writesOf {dat : List ModbusData} {count i : Nat} {r : Register} {w : Write}
    (h : w ∈ writesOf dat count i r) : r.Has w := by
  unfold writesOf at h
  unfold Register.Has
  cases hbits : r.bitreg with
  | some b =>
    rw [hbits] at h
    obtain ⟨n, p, hbit, -, rfl⟩ := mem_bitWrites.mp h
    exact ⟨n, rfl, hbit⟩
  | none =>
    rw [hbits] at h
    dsimp only at h
    split_ifs at h
    · rw [List.mem_singleton] at h
      rw [h]
      exact ⟨rfl, rfl⟩
    · cases h

/-- What the walk writes is for registers before the end of the range. -/
theorem mem_walk {dat : List ModbusData} {base skip : Nat} {l : List Register} {ws : List Write}
    (h : walk dat base skip l = some ws) {w : Write} (hw : w ∈ ws) :
    ∃ r ∈ l, r.Has w ∧ r.regID < base + dat.length := by
  induction l generalizing skip ws with
  | nil =>
    cases skip with
    | zero =>
      cases h
      cases hw
    | succ skip => cases h
  | cons r l ih =>
    cases skip with
    | succ skip =>
      obtain ⟨r', hr', hhas, hlt⟩ := ih h hw
      exact ⟨r', List.mem_cons_of_mem r hr', hhas, hlt⟩
    | zero =>
      unfold walk at h
      split_ifs at h with hend
      · cases h
        cases hw
      · obtain ⟨more, hmore, rfl⟩ := Option.map_eq_some_iff.mp h
        rcases List.mem_append.mp hw with hw | hw
        · exact ⟨r, List.mem_cons_self, has_of_mem_writesOf hw, Nat.lt_of_not_le hend⟩
        · obtain ⟨r', hr', hhas, hlt⟩ := ih hmore hw
          exact ⟨r', List.mem_cons_of_mem r hr', hhas, hlt⟩

theorem mem_much_write {dat : List ModbusData} {res : mbErrCode × List Write}
    (h : much_write dat conf m reg fn = some res) {w : Write} (hw : w ∈ res.2) :
    ∃ r ∈ m.entries, r.Has w ∧ conf.requestID reg fn ≤ r.regID ∧
      r.regID < conf.requestID reg fn + dat.length := by
  have hwalk := @much_write_eq dat conf m reg fn
  rw [h] at hwalk
  obtain ⟨r, hr, hhas, hlt⟩ := mem_walk hwalk.symm hw
  exact ⟨r, (List.dropWhile_sublist _).mem hr, hhas, le_of_mem_dropWhile m.sorted hr, hlt⟩

/-- An identifier in a range inside the registers of a function is of no other one. -/
theorem not_ofOther_of_inside {fn : ModbusByte} (h : Inside reg count fn) {r : Register}
    (hle : genRegID reg fn ≤ r.regID) (hlt : r.regID < genRegID reg fn + count) :
    ¬r.OfOther fn := by
  rintro ⟨s, g, hne, heq⟩
  have hs := s.toNat_lt
  have hg := g.toNat_lt
  have hne' : g.toNat ≠ fn.toNat := fun h => hne (UInt8.toNat_inj.mp h)
  obtain ⟨hfirst, hlast⟩ := h
  rw [heq] at hle hlt
  unfold genRegID at hle hlt
  dsimp only at hle hlt
  rcases Nat.lt_or_ge g.toNat fn.toNat with hbefore | hafter
  · have hprod : 65535 * g.toNat + 65535 ≤ 65535 * fn.toNat := by omega
    omega
  · have hprod : 65535 * fn.toNat + 65535 ≤ 65535 * g.toNat := by omega
    omega

/-- A register at the end of a range is one of a neighbour, too. -/
theorem exists_ofOther {fn : ModbusByte} (hcount : 0 < count) (h : ¬Inside reg count fn) :
    ∃ i, i < count ∧ ∃ s g, g ≠ fn ∧ genRegID reg fn + i = genRegID s g := by
  have hreg := reg.toNat_lt
  have hfn := fn.toNat_lt
  rcases not_and_or.mp h with hfirst | hlast
  · obtain ⟨hzero, hpos⟩ := Classical.not_imp.mp hfirst
    have hprev : (UInt8.ofNat (fn.toNat - 1)).toNat = fn.toNat - 1 := by
      rw [UInt8.toNat_ofNat']
      omega
    refine ⟨0, hcount, 65535, .ofNat (fn.toNat - 1), fun hg => ?_, ?_⟩
    · rw [hg] at hprev
      omega
    · refine genRegID_eq_iff.mpr (.inr (.inr ⟨rfl, hzero, ?_⟩))
      rw [hprev]
      omega
  · obtain ⟨hlong, hnext⟩ := Classical.not_imp.mp hlast
    have hg : (UInt8.ofNat (fn.toNat + 1)).toNat = fn.toNat + 1 := by
      rw [UInt8.toNat_ofNat']
      omega
    refine ⟨65535 - reg.toNat, by omega, 0, .ofNat (fn.toNat + 1), fun heq => ?_, ?_⟩
    · rw [heq] at hg
      omega
    · unfold genRegID
      dsimp only
      rw [hg]
      change _ = 65535 + 0 + _ + 1
      omega

theorem keepsToFunction_iff :
    (∀ m, KeepsToFunction conf m reg count fn) ↔
      count = 0 ∨ Inside reg count (conf.requestFunc fn) := by
  constructor
  · intro h
    by_contra hnot
    obtain ⟨hcount, hinside⟩ := not_or.mp hnot
    obtain ⟨i, hi, s, g, hne, heq⟩ := exists_ofOther (Nat.pos_of_ne_zero hcount) hinside
    let r : Register := ⟨genRegID s g, ⟨⟨0, 0⟩, .AI, s, .amRW, .vtUnknown, 0, 0⟩, none⟩
    obtain ⟨rs, hread, hmem⟩ := readRange_single (r := r) heq.symm hi
    exact (h _).read rs hread r hmem ⟨s, g, hne, rfl⟩
  · intro hcond m
    constructor
    · intro rs hread r hr
      obtain ⟨hle, hlt⟩ := mem_readRange hread hr
      rcases hcond with rfl | hinside
      · omega
      · exact not_ofOther_of_inside hinside hle hlt
    · intro dat hlen res hwrite w hw
      obtain ⟨r, hr, hhas, hle, hlt⟩ := mem_much_write hwrite hw
      rw [hlen] at hlt
      refine ⟨r, hr, hhas, ?_⟩
      rcases hcond with rfl | hinside
      · omega
      · exact not_ofOther_of_inside hinside hle hlt

/-- The identifiers of a function are an interval, in the order of its registers, and meet those of
its neighbours in one identifier each; a range is read and written without getting at a register of
another function if it is inside of them. -/
theorem genRegID_separates_iff (conf : MBSlave) (r s : ModbusData) (f g : ModbusByte) (k : Nat)
    (reg : ModbusData) (count : Nat) (fn : ModbusByte) :
    ((genRegID r f = genRegID s g → r = s ∧ f = g) ↔
      ¬(r.toNat = 65535 ∧ s.toNat = 0 ∧ g.toNat = f.toNat + 1) ∧
        ¬(s.toNat = 65535 ∧ r.toNat = 0 ∧ f.toNat = g.toNat + 1)) ∧
    (r.toNat < 65535 → genRegID (r + 1) f = genRegID r f + 1) ∧
    ((∃ r, genRegID r f = k) ↔ genRegID 0 f ≤ k ∧ k ≤ genRegID 65535 f) ∧
    (f ≠ g → ((∀ r s, genRegID r f ≠ genRegID s g) ↔
      g.toNat ≠ f.toNat + 1 ∧ f.toNat ≠ g.toNat + 1)) ∧
    ((∀ m, KeepsToFunction conf m reg count fn) ↔
      count = 0 ∨ Inside reg count (conf.requestFunc fn)) :=
  ⟨genRegID_inj_iff r s f g, fun hr => genRegID_succ hr f, exists_genRegID_iff f k,
    disjoint_genRegID_iff, keepsToFunction_iff⟩

/-- Register 65535 of function 3 and register 0 of function 4. -/
theorem not_genRegID_inj :
    ¬∀ (r s : ModbusData) (f g : ModbusByte), genRegID r f = genRegID s g → r = s ∧ f = g :=
  fun h => absurd (h 65535 0 3 4 rfl).2 (by decide)

end Uniset.ModbusSlave
