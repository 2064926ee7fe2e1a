import Mathlib.Algebra.Order.Ring.Nat
import Mathlib.Data.Nat.Bitwise

/-! Numbers written as bytes, the highest first: their order is that of the bytes from the left, and
two numbers agree in their first bits when the bytes do. -/

namespace Uniset.Lib

def bigEndian : List UInt8 → Nat
  | [] => 0
  | byte :: bytes => byte.toNat * 2 ^ (8 * bytes.length) + bigEndian bytes

theorem bigEndian_lt (bytes : List UInt8) : bigEndian bytes < 2 ^ (8 * bytes.length) := by
  induction bytes with
  | nil => exact Nat.one_pos
  | cons byte bytes ih =>
    have hbyte : byte.toNat < 2 ^ 8 := byte.toNat_lt
    rw [bigEndian, List.length_cons, Nat.mul_add, Nat.pow_add]
    calc byte.toNat * 2 ^ (8 * bytes.length) + bigEndian bytes
        < byte.toNat * 2 ^ (8 * bytes.length) + 2 ^ (8 * bytes.length) := Nat.add_lt_add_left ih _
      _ = (byte.toNat + 1) * 2 ^ (8 * bytes.length) := (Nat.succ_mul _ _).symm
      _ ≤ 2 ^ 8 * 2 ^ (8 * bytes.length) := Nat.mul_le_mul_right _ hbyte
      _ = 2 ^ (8 * bytes.length) * 2 ^ (8 * 1) := Nat.mul_comm _ _

/-- Within the bytes after the first, and the first alone above them. -/
theorem bigEndian_cons_div_low (byte : UInt8) (bytes : List UInt8) {k : Nat}
    (hk : k ≤ 8 * bytes.length) : bigEndian (byte :: bytes) / 2 ^ k =
      byte.toNat * 2 ^ (8 * bytes.length - k) + bigEndian bytes / 2 ^ k := by
  have hpow : 2 ^ (8 * bytes.length) = 2 ^ (8 * bytes.length - k) * 2 ^ k := by
    rw [← Nat.pow_add, Nat.sub_add_cancel hk]
  rw [bigEndian, hpow, ← Nat.mul_assoc, Nat.mul_comm _ (2 ^ k),
    Nat.mul_add_div (Nat.two_pow_pos k)]

theorem bigEndian_cons_div_high (byte : UInt8) (bytes : List UInt8) (k : Nat) :
    bigEndian (byte :: bytes) / 2 ^ (8 * bytes.length + k) = byte.toNat / 2 ^ k := by
  rw [Nat.pow_add, ← Nat.div_div_eq_div_mul, bigEndian, Nat.mul_comm,
    Nat.mul_add_div (Nat.two_pow_pos _), Nat.div_eq_of_lt (bigEndian_lt bytes), Nat.add_zero]

theorem bigEndian_div_low_lt (bytes : List UInt8) {k : Nat} (hk : k ≤ 8 * bytes.length) :
    bigEndian bytes / 2 ^ k < 2 ^ (8 * bytes.length - k) := by
  rw [Nat.div_lt_iff_lt_mul (Nat.two_pow_pos k), ← Nat.pow_add, Nat.sub_add_cancel hk]
  exact bigEndian_lt bytes

/-- A leading part and a remainder below the same bound are two. -/
theorem mul_add_eq_iff {m a b x y : Nat} (hx : x < m) (hy : y < m) :
    a * m + x = b * m + y ↔ a = b ∧ x = y := by
  constructor
  · intro h
    have hpos : 0 < m := Nat.zero_lt_of_lt hx
    have hdiv : (m * a + x) / m = (m * b + y) / m := by rw [Nat.mul_comm m a, Nat.mul_comm m b, h]
    rw [Nat.mul_add_div hpos, Nat.mul_add_div hpos, Nat.div_eq_of_lt hx, Nat.div_eq_of_lt hy] at hdiv
    have hab : a = b := by simpa using hdiv
    subst hab
    exact ⟨rfl, Nat.add_left_cancel h⟩
  · rintro ⟨rfl, rfl⟩
    rfl

theorem bigEndian_cons_div_low_eq_iff {a b : UInt8} {as bs : List UInt8} (hlen : as.length = bs.length)
    {k : Nat} (hk : k ≤ 8 * as.length) :
    bigEndian (a :: as) / 2 ^ k = bigEndian (b :: bs) / 2 ^ k ↔
      a = b ∧ bigEndian as / 2 ^ k = bigEndian bs / 2 ^ k := by
  rw [bigEndian_cons_div_low a as hk, bigEndian_cons_div_low b bs (hlen ▸ hk), ← hlen,
    mul_add_eq_iff (bigEndian_div_low_lt as hk) (hlen ▸ bigEndian_div_low_lt bs (hlen ▸ hk)),
    UInt8.toNat_inj]

theorem bigEndian_inj {as bs : List UInt8} (hlen : as.length = bs.length) :
    bigEndian as = bigEndian bs ↔ as = bs := by
  induction as generalizing bs with
  | nil =>
    cases bs with
    | nil => simp
    | cons b bs => cases hlen
  | cons a as ih =>
    cases bs with
    | nil => cases hlen
    | cons b bs =>
      have hlen' : as.length = bs.length := Nat.succ.inj hlen
      have hdiv := bigEndian_cons_div_low_eq_iff (a := a) (b := b) hlen' (Nat.zero_le _)
      rw [Nat.pow_zero, Nat.div_one, Nat.div_one, Nat.div_one, Nat.div_one, ih hlen'] at hdiv
      rw [hdiv, List.cons.injEq]

/-- The bytes are compared from the left, the first that differ decide. -/
def memcmp : List UInt8 → List UInt8 → Ordering
  | a :: as, b :: bs => (compare a.toNat b.toNat).then (memcmp as bs)
  | _, _ => .eq

theorem memcmp_eq_compare {as bs : List UInt8} (hlen : as.length = bs.length) :
    memcmp as bs = compare (bigEndian as) (bigEndian bs) := by
  induction as generalizing bs with
  | nil =>
    cases bs with
    | nil => exact (Nat.compare_eq_eq.mpr rfl).symm
    | cons b bs => cases hlen
  | cons a as ih =>
    cases bs with
    | nil => cases hlen
    | cons b bs =>
      have hlen' : as.length = bs.length := Nat.succ.inj hlen
      have has : bigEndian as < 2 ^ (8 * as.length) := bigEndian_lt as
      have hbs : bigEndian bs < 2 ^ (8 * as.length) := hlen' ▸ bigEndian_lt bs
      rw [memcmp, ih hlen', bigEndian, bigEndian, ← hlen']
      have hmul : ∀ {x y : Nat}, x < y →
          x * 2 ^ (8 * as.length) + 2 ^ (8 * as.length) ≤ y * 2 ^ (8 * as.length) := fun hxy => by
        rw [← Nat.succ_mul]
        exact Nat.mul_le_mul_right _ hxy
      rcases Nat.lt_trichotomy a.toNat b.toNat with hlt | heq | hgt
      · have hsum := hmul hlt
        have hall : compare (a.toNat * 2 ^ (8 * as.length) + bigEndian as)
            (b.toNat * 2 ^ (8 * as.length) + bigEndian bs) = .lt := Nat.compare_eq_lt.mpr (by omega)
        rw [hall, Nat.compare_eq_lt.mpr hlt]
        rfl
      · rw [heq, Nat.compare_eq_eq.mpr rfl, Nat.compare_eq_ite_lt, Nat.compare_eq_ite_lt]
        simp only [Nat.add_lt_add_iff_left]
        rfl
      · have hsum := hmul hgt
        have hall : compare (a.toNat * 2 ^ (8 * as.length) + bigEndian as)
            (b.toNat * 2 ^ (8 * as.length) + bigEndian bs) = .gt := Nat.compare_eq_gt.mpr (by omega)
        rw [hall, Nat.compare_eq_gt.mpr hgt]
        rfl

/-- The bits of a byte under a mask that keeps those from a place on. -/
theorem testBit_and_mask (a : UInt8) (k i : Nat) :
    (a &&& (0xFF <<< k).toUInt8).toNat.testBit i = (decide (k ≤ i) && a.toNat.testBit i) := by
  have hmask : (0xFF <<< k).toUInt8.toNat = ((2 ^ 8 - 1) <<< k) % 2 ^ 8 := rfl
  rw [UInt8.toNat_and, hmask, Nat.testBit_and, Nat.testBit_mod_two_pow, Nat.testBit_shiftLeft,
    Nat.testBit_two_pow_sub_one]
  by_cases hi : i < 8
  · have hlow : i - k < 8 := by omega
    simp [hi, hlow, Bool.and_comm]
  · have hzero : a.toNat.testBit i = false :=
      Nat.testBit_lt_two_pow (a.toNat_lt.trans_le (Nat.pow_le_pow_right (by decide) (by omega)))
    simp [hzero]

theorem and_mask_eq_iff (a b : UInt8) (k : Nat) :
    a &&& (0xFF <<< k).toUInt8 = b &&& (0xFF <<< k).toUInt8 ↔ a.toNat / 2 ^ k = b.toNat / 2 ^ k := by
  constructor
  · intro h
    apply Nat.eq_of_testBit_eq
    intro i
    have hbit : (a &&& (0xFF <<< k).toUInt8).toNat.testBit (i + k) =
        (b &&& (0xFF <<< k).toUInt8).toNat.testBit (i + k) := by rw [h]
    rw [testBit_and_mask, testBit_and_mask, decide_eq_true (Nat.le_add_left k i)] at hbit
    rw [Nat.testBit_div_two_pow, Nat.testBit_div_two_pow]
    exact hbit
  · intro h
    apply UInt8.toNat_inj.mp
    apply Nat.eq_of_testBit_eq
    intro i
    rw [testBit_and_mask, testBit_and_mask]
    by_cases hi : k ≤ i
    · have hbit := congrArg (fun x : Nat => x.testBit (i - k)) h
      have hi' : i - k + k = i := Nat.sub_add_cancel hi
      simpa [Nat.testBit_div_two_pow, hi, hi'] using hbit
    · simp [hi]

end Uniset.Lib
