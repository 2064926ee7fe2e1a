import Mathlib.Algebra.Order.Floor.Ring
import Mathlib.Algebra.Order.Group.MinMax
import Mathlib.Data.Rat.Floor
import Mathlib.Order.Monotone.Basic
import Mathlib.Tactic.FieldSimp
import Mathlib.Tactic.Linarith
import Mathlib.Tactic.NormNum
import Mathlib.Tactic.Ring

/-! The line through two points, what it becomes when its values are kept within limits, and the
rounding of numbers to integers. -/

universe u

namespace Uniset.Lib

/-! ## Rounding -/

/-- The nearest integer, from the middle away from zero. -/
def lround (q : ℚ) : Int := if 0 ≤ q then ⌊q + 1 / 2⌋ else ⌈q - 1 / 2⌉

/-- The integer part. -/
def truncate (q : ℚ) : Int := if 0 ≤ q then ⌊q⌋ else ⌈q⌉

theorem abs_lround_sub (q : ℚ) : |(lround q : ℚ) - q| ≤ 1 / 2 := by
  unfold lround
  rw [abs_le]
  split_ifs with hq
  · have hle := Int.floor_le (q + 1 / 2)
    have hlt := Int.lt_floor_add_one (q + 1 / 2)
    constructor
    · linarith
    · linarith
  · have hle := Int.le_ceil (q - 1 / 2)
    have hlt := Int.ceil_lt_add_one (q - 1 / 2)
    constructor
    · linarith
    · linarith

/-- Two integers a half apart are one. -/
theorem eq_of_abs_sub_le_half {m n : Int} (h : |(m : ℚ) - n| ≤ 1 / 2) : m = n := by
  have hlt : |((m - n : Int) : ℚ)| < 1 := by
    push_cast
    linarith
  rw [← Int.cast_abs] at hlt
  have habs : |m - n| < 1 := by exact_mod_cast hlt
  exact sub_eq_zero.mp (Int.abs_lt_one_iff.mp habs)

@[simp] theorem lround_intCast (n : Int) : lround n = n :=
  eq_of_abs_sub_le_half (abs_lround_sub n)

theorem floor_le_truncate (q : ℚ) : ⌊q⌋ ≤ truncate q := by
  unfold truncate
  split_ifs
  · exact le_rfl
  · exact Int.floor_le_ceil q

theorem truncate_le_ceil (q : ℚ) : truncate q ≤ ⌈q⌉ := by
  unfold truncate
  split_ifs
  · exact Int.floor_le_ceil q
  · exact le_rfl

theorem truncate_le_of_le {q : ℚ} {n : Int} (h : q ≤ n) : truncate q ≤ n :=
  (truncate_le_ceil q).trans (Int.ceil_le.mpr h)

theorem le_truncate_of_le {q : ℚ} {n : Int} (h : (n : ℚ) ≤ q) : n ≤ truncate q :=
  (Int.le_floor.mpr h).trans (floor_le_truncate q)

@[simp] theorem truncate_intCast (n : Int) : truncate n = n :=
  le_antisymm (truncate_le_of_le le_rfl) (le_truncate_of_le le_rfl)

/-! ## Limits -/

section Within

variable {α : Type u} [LinearOrder α] {c d x y : α}

/-- The limits in either order. -/
def within (c d x : α) : α := max (min c d) (min x (max c d))

theorem within_of_le (h : c ≤ d) : within c d x = max c (min x d) := by
  rw [within, min_eq_left h, max_eq_right h]

theorem within_of_ge (h : d ≤ c) : within c d x = max d (min x c) := by
  rw [within, min_eq_right h, max_eq_left h]

theorem min_le_within : min c d ≤ within c d x := le_max_left _ _

theorem within_le_max : within c d x ≤ max c d :=
  max_le (min_le_max) (min_le_right _ _)

theorem within_eq_self (hlow : min c d ≤ x) (hhigh : x ≤ max c d) : within c d x = x := by
  rw [within, min_eq_left hhigh, max_eq_right hlow]

theorem within_mono : Monotone (within c d) := fun _ _ h =>
  max_le_max le_rfl (min_le_min_right _ h)

end Within

theorem abs_within_sub {α : Type u} [AddCommGroup α] [LinearOrder α] [IsOrderedAddMonoid α]
    (c d x y : α) : |within c d x - within c d y| ≤ |x - y| := by
  unfold within
  calc |max (min c d) (min x (max c d)) - max (min c d) (min y (max c d))|
      ≤ |min x (max c d) - min y (max c d)| := by
        have h := abs_max_sub_max_le_abs (min x (max c d)) (min y (max c d)) (min c d)
        rwa [max_comm _ (min c d), max_comm _ (min c d)] at h
    _ ≤ max |x - y| |max c d - max c d| := abs_min_sub_min_le_max _ _ _ _
    _ = |x - y| := by rw [sub_self, abs_zero, max_eq_left (abs_nonneg _)]

/-! ## Maps into a range -/

section Range

variable {α : Type u} [LinearOrder α] {H : α → α} {a b c d : α}

/-- A map that takes `a` and `b` to the ends of its range, and these back. -/
theorem ends_eq_of_monotone (hmono : Monotone H) (hlow : ∀ x, c ≤ H x) (hhigh : ∀ x, H x ≤ d)
    (ha : H a = c) (hb : H b = d) (hc : H c = a) (hd : H d = b) : c = a ∧ d = b := by
  have hca : c ≤ a := hc ▸ hlow c
  have hbd : b ≤ d := hd ▸ hhigh d
  have hac : a ≤ c := by
    rw [← hc, ← ha]
    exact hmono (ha.symm ▸ hca)
  have hdb : d ≤ b := by
    rw [← hd, ← hb]
    exact hmono (hb.symm ▸ hbd)
  exact ⟨le_antisymm hca hac, le_antisymm hdb hbd⟩

theorem ends_eq_of_antitone (hanti : Antitone H) (hlow : ∀ x, d ≤ H x) (hhigh : ∀ x, H x ≤ c)
    (ha : H a = c) (hb : H b = d) (hc : H c = a) (hd : H d = b) : c = b ∧ d = a := by
  have hda : d ≤ a := hc ▸ hlow c
  have hbc : b ≤ c := hd ▸ hhigh d
  have had : a ≤ d := by
    rw [← hb, ← hc]
    exact hanti hbc
  have hcb : c ≤ b := by
    rw [← ha, ← hd]
    exact hanti hda
  exact ⟨le_antisymm hcb hbc, le_antisymm hda had⟩

/-- A map that is its own inverse at the ends of its range keeps them or exchanges them. -/
theorem ends_fixed_of_monotone (hmono : Monotone H) (hlow : ∀ x, c ≤ H x) (hhigh : ∀ x, H x ≤ d)
    (hc : H (H c) = c) (hd : H (H d) = d) : H c = c ∧ H d = d := by
  refine ⟨le_antisymm ?_ (hlow c), le_antisymm (hhigh d) ?_⟩
  · exact (hmono (hlow c)).trans_eq hc
  · exact hd.symm.trans_le (hmono (hhigh d))

theorem ends_exchanged_of_antitone (hanti : Antitone H) (hlow : ∀ x, c ≤ H x) (hhigh : ∀ x, H x ≤ d)
    (hc : H (H c) = c) (hd : H (H d) = d) : H c = d ∧ H d = c := by
  refine ⟨le_antisymm (hhigh c) ?_, le_antisymm ?_ (hlow d)⟩
  · exact hd.symm.trans_le (hanti (hlow d))
  · exact (hanti (hhigh c)).trans_eq hc

end Range

/-! ## Lines -/

section Scale

variable {α : Type u} [Field α] {a b c d x y : α}

/-- The line that takes `a` to `c` and `b` to `d`. -/
def scale (a b c d x : α) : α := (x - a) * (d - c) / (b - a) + c

@[simp] theorem scale_left : scale a b c d a = c := by simp [scale]

theorem scale_right (h : a ≠ b) : scale a b c d b = d := by
  have hne : b - a ≠ 0 := sub_ne_zero.mpr h.symm
  rw [scale, mul_div_cancel_left₀ _ hne, sub_add_cancel]

theorem scale_comm (h : a ≠ b) : scale a b c d x = scale b a d c x := by
  have hba : b - a ≠ 0 := sub_ne_zero.mpr h.symm
  have hab : a - b ≠ 0 := sub_ne_zero.mpr h
  unfold scale
  field_simp
  ring

theorem scale_sub_scale : scale a b c d x - scale a b c d y = (x - y) * ((d - c) / (b - a)) := by
  unfold scale
  ring

/-- The line back. -/
theorem scale_scale (hab : a ≠ b) (hcd : c ≠ d) : scale c d a b (scale a b c d x) = x := by
  have hba : b - a ≠ 0 := sub_ne_zero.mpr hab.symm
  have hdc : d - c ≠ 0 := sub_ne_zero.mpr hcd.symm
  unfold scale
  field_simp
  ring

theorem scale_self (h : a ≠ b) : scale a b a b x = x := by
  have hne : b - a ≠ 0 := sub_ne_zero.mpr h.symm
  rw [scale, mul_div_cancel_right₀ _ hne, sub_add_cancel]

theorem scale_reverse (h : a ≠ b) : scale a b b a x = a + b - x := by
  have hne : b - a ≠ 0 := sub_ne_zero.mpr h.symm
  have hneg : a - b = -(b - a) := by ring
  rw [scale, hneg, mul_neg, neg_div, mul_div_cancel_right₀ _ hne]
  ring

variable [LinearOrder α] [IsStrictOrderedRing α]

theorem scale_strictMono (hab : a < b) (hcd : c < d) : StrictMono (scale a b c d) := by
  intro x y hxy
  have hslope : 0 < (d - c) / (b - a) := div_pos (sub_pos.mpr hcd) (sub_pos.mpr hab)
  have hpos := mul_pos (sub_pos.mpr hxy) hslope
  rw [← scale_sub_scale] at hpos
  exact sub_pos.mp hpos

theorem scale_strictAnti (hab : a < b) (hcd : d < c) : StrictAnti (scale a b c d) := by
  intro x y hxy
  have hslope : (d - c) / (b - a) < 0 := div_neg_of_neg_of_pos (sub_neg.mpr hcd) (sub_pos.mpr hab)
  have hneg := mul_neg_of_pos_of_neg (sub_pos.mpr hxy) hslope
  rw [← scale_sub_scale] at hneg
  exact sub_neg.mp hneg

end Scale

end Uniset.Lib
