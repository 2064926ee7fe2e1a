import Mathlib.Data.List.GetD
import Mathlib.Logic.Function.Iterate

/-! Cyclic redundancy checks of `w` bits, computed bit by bit with the low bit first.  A step is
linear, and so is the check; where the polynomial has its highest bit no step loses anything, and no
change within `w` bits goes unseen. -/

namespace Uniset.Lib.Crc

variable {w : Nat}

/-- The register is shifted, and the polynomial is added for the bit that leaves it. -/
def step (poly x : BitVec w) : BitVec w := x >>> 1 ^^^ if x.getLsbD 0 then poly else 0#w

def bit (b : Bool) : BitVec w := if b then 1#w else 0#w

/-- Bits come into the register one after another. -/
def feed (poly x : BitVec w) (bs : List Bool) : BitVec w :=
  bs.foldl (fun x b => step poly (x ^^^ bit b)) x

/-- The bits in a register, the first at the low end. -/
def ofBits : List Bool → BitVec w
  | [] => 0#w
  | b :: bs => bit b ^^^ ofBits bs <<< 1

theorem getLsbD_bit (b : Bool) (i : Nat) :
    (bit b : BitVec w).getLsbD i = (decide (i = 0 ∧ i < w) && b) := by
  cases b with
  | false => simp [bit]
  | true =>
    simp only [bit, if_true, Bool.and_true, BitVec.getLsbD_one]
    rw [Bool.eq_iff_iff]
    simp only [Bool.and_eq_true, decide_eq_true_eq]
    omega

theorem getLsbD_ofBits (bs : List Bool) (i : Nat) :
    (ofBits bs : BitVec w).getLsbD i = (decide (i < w) && bs.getD i false) := by
  induction bs generalizing i with
  | nil => simp [ofBits]
  | cons b bs ih =>
    rw [ofBits, BitVec.getLsbD_xor, BitVec.getLsbD_shiftLeft, getLsbD_bit]
    cases i with
    | zero => simp
    | succ i =>
      rw [Nat.add_sub_cancel, ih]
      by_cases hi : i + 1 < w
      · simp [hi, Nat.lt_of_succ_lt hi]
      · simp [hi]

theorem ofBits_append (bs cs : List Bool) :
    (ofBits (bs ++ cs) : BitVec w) = ofBits bs ^^^ ofBits cs <<< bs.length := by
  induction bs with
  | nil => simp [ofBits]
  | cons b bs ih =>
    rw [List.cons_append, ofBits, ofBits, ih, BitVec.shiftLeft_xor_distrib, ← BitVec.shiftLeft_add,
      BitVec.xor_assoc, List.length_cons]

theorem feed_append (poly x : BitVec w) (bs cs : List Bool) :
    feed poly x (bs ++ cs) = feed poly (feed poly x bs) cs := List.foldl_append

section Linear

variable (poly : BitVec w)

@[simp] theorem step_zero : step poly 0#w = 0#w := by simp [step]

theorem step_xor (x y : BitVec w) : step poly (x ^^^ y) = step poly x ^^^ step poly y := by
  unfold step
  rw [BitVec.ushiftRight_xor_distrib, BitVec.getLsbD_xor]
  ext i hi
  cases x.getLsbD 0 <;> cases y.getLsbD 0 <;> simp <;> grind

theorem iterate_step_xor (n : Nat) (x y : BitVec w) :
    (step poly)^[n] (x ^^^ y) = (step poly)^[n] x ^^^ (step poly)^[n] y := by
  induction n generalizing x y with
  | zero => rfl
  | succ n ih => rw [Function.iterate_succ_apply, step_xor, ih, ← Function.iterate_succ_apply,
      ← Function.iterate_succ_apply]

@[simp] theorem iterate_step_zero (n : Nat) : (step poly)^[n] 0#w = 0#w :=
  Function.iterate_fixed (step_zero poly) n

theorem bit_xor (b c : Bool) : (bit (b ^^ c) : BitVec w) = bit b ^^^ bit c := by
  cases b <;> cases c <;> simp [bit]

/-- The checks of two strings differ by the check of what they differ by. -/
theorem feed_xor (x y : BitVec w) {bs cs : List Bool} (h : bs.length = cs.length) :
    feed poly x bs ^^^ feed poly y cs = feed poly (x ^^^ y) (List.zipWith xor bs cs) := by
  induction bs generalizing x y cs with
  | nil =>
    cases cs with
    | nil => rfl
    | cons c cs => cases h
  | cons b bs ih =>
    cases cs with
    | nil => cases h
    | cons c cs =>
      change feed poly _ bs ^^^ feed poly _ cs = feed poly (step poly _) _
      rw [ih _ _ (Nat.succ.inj h), ← step_xor, bit_xor, BitVec.xor_assoc, BitVec.xor_assoc]
      congr 3
      rw [← BitVec.xor_assoc, BitVec.xor_comm (bit b), BitVec.xor_assoc]

theorem feed_replicate (n : Nat) (x : BitVec w) :
    feed poly x (List.replicate n false) = (step poly)^[n] x := by
  induction n generalizing x with
  | zero => rfl
  | succ n ih =>
    have hbit : x ^^^ bit false = x := BitVec.xor_zero
    change feed poly (step poly (x ^^^ bit false)) _ = _
    rw [ih, hbit, Function.iterate_succ_apply]

/-- What was shifted to the left comes back if nothing was lost. -/
theorem step_shiftLeft {x : BitVec w} (h : ∀ i, i + 1 = w → x.getLsbD i = false) :
    step poly (x <<< 1) = x := by
  have hlow : (x <<< 1).getLsbD 0 = false := by simp
  unfold step
  rw [hlow, if_neg Bool.false_ne_true, BitVec.xor_zero]
  apply BitVec.eq_of_getLsbD_eq
  intro i hi
  rw [BitVec.getLsbD_ushiftRight, BitVec.getLsbD_shiftLeft]
  by_cases hlast : i + 1 = w
  · rw [h i hlast]
    simp [Nat.add_comm 1 i, hlast]
  · have hin : i + 1 < w := Nat.lt_of_le_of_ne hi hlast
    simp [Nat.add_comm 1 i, hin]

theorem iterate_step_shiftLeft {n : Nat} {x : BitVec w}
    (h : ∀ i, i < w → w ≤ i + n → x.getLsbD i = false) : (step poly)^[n] (x <<< n) = x := by
  induction n with
  | zero => simp
  | succ n ih =>
    have hlast : ∀ i, i + 1 = w → (x <<< n).getLsbD i = false := by
      intro i hi
      rw [BitVec.getLsbD_shiftLeft]
      by_cases hn : i < n
      · simp [hn]
      · rw [h (i - n) (by omega) (by omega), Bool.and_false]
    rw [Function.iterate_succ_apply, BitVec.shiftLeft_add, step_shiftLeft poly hlast]
    exact ih fun i hi hle => h i hi (by omega)

/-- Bits that fit into the register may all be added before the steps. -/
theorem feed_eq (x : BitVec w) {bs : List Bool} (h : bs.length ≤ w) :
    feed poly x bs = (step poly)^[bs.length] (x ^^^ ofBits bs) := by
  induction bs generalizing x with
  | nil =>
    have hzero : x ^^^ ofBits [] = x := BitVec.xor_zero
    exact hzero.symm
  | cons b bs ih =>
    have hlast : ∀ i, i + 1 = w → (ofBits bs : BitVec w).getLsbD i = false := by
      intro i hi
      rw [getLsbD_ofBits, List.getD_eq_default _ _ (by rw [List.length_cons] at h; omega),
        Bool.and_false]
    change feed poly (step poly (x ^^^ bit b)) bs = _
    rw [ih _ (Nat.le_of_succ_le h), List.length_cons, Function.iterate_succ_apply, ofBits,
      ← BitVec.xor_assoc, step_xor poly (x ^^^ bit b), step_shiftLeft poly hlast]

/-- The check of its own bits behind a string is zero. -/
theorem feed_self (x : BitVec w) {bs : List Bool} (hlen : bs.length = w) (hbits : ofBits bs = x) :
    feed poly x bs = 0#w := by
  rw [feed_eq poly x (Nat.le_of_eq hlen), hbits, BitVec.xor_self, iterate_step_zero]

end Linear

section Bursts

variable {poly : BitVec w} (hpoly : ∃ i, i + 1 = w ∧ poly.getLsbD i = true)
include hpoly

theorem step_eq_zero {x : BitVec w} (h : step poly x = 0#w) : x = 0#w := by
  obtain ⟨n, hn, htop⟩ := hpoly
  unfold step at h
  have hlow : x.getLsbD 0 = false := by
    by_contra hbit
    rw [Bool.not_eq_false] at hbit
    rw [hbit, if_pos rfl] at h
    have htop' := congrArg (fun y => y.getLsbD n) h
    simp [htop, Nat.add_comm 1 n, hn] at htop'
  rw [hlow, if_neg Bool.false_ne_true, BitVec.xor_zero] at h
  apply BitVec.eq_of_getLsbD_eq
  intro i hi
  rw [BitVec.getLsbD_zero]
  cases i with
  | zero => exact hlow
  | succ i =>
    have hbit := congrArg (fun y => y.getLsbD i) h
    simpa [Nat.add_comm 1 i] using hbit

theorem iterate_step_eq_zero {n : Nat} {x : BitVec w} (h : (step poly)^[n] x = 0#w) : x = 0#w := by
  induction n generalizing x with
  | zero => exact h
  | succ n ih =>
    rw [Function.iterate_succ_apply] at h
    exact step_eq_zero hpoly (ih h)

theorem feed_burst_ne_zero (n m : Nat) {e : List Bool} (hlen : e.length ≤ w) (hne : true ∈ e) :
    feed poly 0#w (List.replicate n false ++ e ++ List.replicate m false) ≠ 0#w := by
  rw [feed_append, feed_append, feed_replicate, feed_replicate, iterate_step_zero]
  intro h
  have hburst := iterate_step_eq_zero hpoly h
  rw [feed_eq poly 0#w hlen, BitVec.zero_xor] at hburst
  have hbits := iterate_step_eq_zero hpoly hburst
  obtain ⟨i, hi, hbit⟩ := List.mem_iff_getElem.mp hne
  have hget := congrArg (fun y : BitVec w => y.getLsbD i) hbits
  simp only [getLsbD_ofBits, BitVec.getLsbD_zero] at hget
  rw [List.getD_eq_getElem _ _ hi, hbit, Bool.and_true] at hget
  exact absurd (Nat.lt_of_lt_of_le hi hlen) (of_decide_eq_false hget)

/-- Strings that differ, but only within `w` bits one after another, have different checks. -/
theorem feed_ne_of_burst (x : BitVec w) {bs cs : List Bool} (hlen : bs.length = cs.length)
    (hne : bs ≠ cs) (k : Nat) (hburst : ∀ i, bs[i]? ≠ cs[i]? → k ≤ i ∧ i < k + w) :
    feed poly x bs ≠ feed poly x cs := by
  intro heq
  let d := List.zipWith xor bs cs
  have hd : d.length = bs.length := by simp [d, hlen]
  have hbit : ∀ i (hi : i < d.length), d[i] = true ↔ bs[i]? ≠ cs[i]? := by
    intro i hi
    have hbs : i < bs.length := hd ▸ hi
    have hcs : i < cs.length := hlen ▸ hbs
    rw [List.getElem?_eq_getElem hbs, List.getElem?_eq_getElem hcs, Ne, Option.some.injEq]
    simp [d]
  have hsplit : d = List.replicate (min k d.length) false ++ (d.drop k).take w ++
      List.replicate (d.length - (k + w)) false := by
    have hhead : d.take k = List.replicate (min k d.length) false := by
      refine List.eq_replicate_iff.mpr ⟨List.length_take, fun b hb => ?_⟩
      obtain ⟨i, hi, rfl⟩ := List.mem_take_iff_getElem.mp hb
      by_contra htrue
      have hin := hburst i ((hbit i (by omega)).mp (Bool.not_eq_false _ ▸ htrue))
      omega
    have htail : d.drop (k + w) = List.replicate (d.length - (k + w)) false := by
      refine List.eq_replicate_iff.mpr ⟨List.length_drop, fun b hb => ?_⟩
      obtain ⟨i, hi, rfl⟩ := List.mem_drop_iff_getElem.mp hb
      by_contra htrue
      have hin := hburst (k + w + i) ((hbit _ (by omega)).mp (Bool.not_eq_false _ ▸ htrue))
      omega
    rw [← hhead, ← htail, List.append_assoc, ← List.drop_drop, List.take_append_drop,
      List.take_append_drop]
  have hmem : true ∈ (d.drop k).take w := by
    obtain ⟨i, hi⟩ : ∃ i, bs[i]? ≠ cs[i]? := by
      by_contra hall
      exact hne (List.ext_getElem? fun i => not_not.mp fun hi => hall ⟨i, hi⟩)
    have hin := hburst i hi
    have hlt : i < d.length := by
      by_contra hge
      apply hi
      rw [List.getElem?_eq_none (by omega), List.getElem?_eq_none (by omega)]
    refine List.mem_iff_getElem.mpr ⟨i - k, by simp; omega, ?_⟩
    rw [List.getElem_take, List.getElem_drop]
    have hd : d[i] = true := (hbit i hlt).mpr hi
    simpa only [Nat.add_sub_cancel' hin.1] using hd
  apply feed_burst_ne_zero hpoly (min k d.length) (d.length - (k + w)) (List.length_take_le _ _) hmem
  rw [← hsplit]
  have hxor := feed_xor poly x x hlen
  rw [heq, BitVec.xor_self, BitVec.xor_self] at hxor
  exact hxor.symm

end Bursts

end Uniset.Lib.Crc
