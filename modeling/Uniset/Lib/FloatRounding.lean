import Mathlib.Data.Int.Log
import Mathlib.Data.Rat.Floor
import Mathlib.Tactic.Linarith
import Mathlib.Tactic.NormNum
import Uniset.Lib.Floats

/-! The numbers of a binary format that are nearest to exact ones: what an operation of the format
gives. -/

namespace Uniset.Lib

/-- The nearest integer; of two, the even one. -/
def roundEven (q : ℚ) : Int :=
  if Int.fract q < 1 / 2 ∨ Int.fract q = 1 / 2 ∧ ⌊q⌋ % 2 = 0 then ⌊q⌋ else ⌊q⌋ + 1

@[simp] theorem roundEven_intCast (n : Int) : roundEven n = n := by simp [roundEven]

theorem floor_le_roundEven (q : ℚ) : ⌊q⌋ ≤ roundEven q := by
  unfold roundEven
  split_ifs <;> omega

theorem roundEven_le_floor (q : ℚ) : roundEven q ≤ ⌊q⌋ + 1 := by
  unfold roundEven
  split_ifs <;> omega

theorem roundEven_le_roundEven {q r : ℚ} (hqr : q ≤ r) : roundEven q ≤ roundEven r := by
  rcases Int.lt_or_eq_of_le (Int.floor_mono hqr) with hlt | heq
  · have hq := roundEven_le_floor q
    have hr := floor_le_roundEven r
    omega
  · have hfract : Int.fract q ≤ Int.fract r := by
      rw [Int.fract, Int.fract, heq]
      linarith
    unfold roundEven
    rw [heq]
    split_ifs with hq hr hr
    · exact Int.le_refl _
    · exact Int.le_add_one (Int.le_refl _)
    · refine absurd ?_ hq
      rcases hr with hlow | ⟨hhalf, heven⟩
      · exact .inl (hfract.trans_lt hlow)
      · rw [hhalf] at hfract
        exact hfract.lt_or_eq.imp_right fun h => ⟨h, heven⟩
    · exact Int.le_refl _

theorem abs_roundEven_sub (q : ℚ) : |(roundEven q : ℚ) - q| ≤ 1 / 2 := by
  have hsum := Int.floor_add_fract q
  have hlow := Int.fract_nonneg q
  have hhigh := Int.fract_lt_one q
  unfold roundEven
  rw [abs_le]
  split_ifs with h
  · rcases h with h | ⟨h, -⟩ <;> constructor <;> linarith
  · have hhalf : 1 / 2 ≤ Int.fract q := not_lt.mp fun hlt => h (.inl hlt)
    push_cast
    constructor <;> linarith

namespace FloatFormat

variable (F : FloatFormat)

/-- The exponent of the smallest positive number. -/
def leastPlace : Int := F.least - onePlace

/-- The exponent of the last digit that is kept of a positive number. -/
def place (q : ℚ) : Int := max F.leastPlace (Int.log 2 q - F.digits)

/-- From here on there are no finite numbers. -/
def limit : ℚ := 2 ^ (F.leastPlace + F.digits + F.top - 1)

def magnitude (q : ℚ) : ℚ := roundEven (q / 2 ^ F.place q) * 2 ^ F.place q

/-- The nearest number, with no limit to its size. -/
def nearest (q : ℚ) : ℚ := if 0 ≤ q then F.magnitude q else -F.magnitude (-q)

variable {F} {q r : ℚ}

theorem two_zpow_pos (n : Int) : (0 : ℚ) < 2 ^ n := zpow_pos two_pos n

theorem magnitude_nonneg (hq : 0 ≤ q) : 0 ≤ F.magnitude q := by
  have hround : (0 : Int) ≤ roundEven (q / 2 ^ F.place q) := by
    have hmono := roundEven_le_roundEven (div_nonneg hq (two_zpow_pos (F.place q)).le)
    rwa [← Int.cast_zero, roundEven_intCast] at hmono
  exact mul_nonneg (Int.cast_nonneg hround) (two_zpow_pos _).le

/-- A multiple of a power of two that is kept is a bound. -/
theorem magnitude_le {m : Int} (h : q ≤ m * 2 ^ F.place q) : F.magnitude q ≤ m * 2 ^ F.place q := by
  have hmono := roundEven_le_roundEven ((div_le_iff₀ (two_zpow_pos (F.place q))).mpr h)
  rw [roundEven_intCast] at hmono
  exact mul_le_mul_of_nonneg_right (Int.cast_le.mpr hmono) (two_zpow_pos _).le

theorem le_magnitude {m : Int} (h : m * 2 ^ F.place q ≤ q) : m * 2 ^ F.place q ≤ F.magnitude q := by
  have hmono := roundEven_le_roundEven ((le_div_iff₀ (two_zpow_pos (F.place q))).mpr h)
  rw [roundEven_intCast] at hmono
  exact mul_le_mul_of_nonneg_right (Int.cast_le.mpr hmono) (two_zpow_pos _).le

theorem natCast_two_pow_mul (n : Nat) (e : Int) :
    ((2 ^ n : Int) : ℚ) * 2 ^ e = 2 ^ (n + e) := by
  rw [zpow_add₀ two_ne_zero, zpow_natCast]
  push_cast
  rfl

theorem magnitude_mono (hq : 0 ≤ q) (hqr : q ≤ r) : F.magnitude q ≤ F.magnitude r := by
  rcases hq.eq_or_lt with rfl | hpos
  · rw [magnitude, zero_div, ← Int.cast_zero, roundEven_intCast, Int.cast_zero, zero_mul]
    exact magnitude_nonneg hqr
  have hlog : Int.log 2 q ≤ Int.log 2 r := Int.log_mono_right hpos hqr
  have hplace : F.place q ≤ F.place r := max_le_max le_rfl (Int.sub_le_sub_right hlog _)
  rcases hplace.eq_or_lt with heq | hlt
  · unfold magnitude
    rw [heq]
    refine mul_le_mul_of_nonneg_right (Int.cast_le.mpr (roundEven_le_roundEven ?_)) (two_zpow_pos _).le
    exact div_le_div_of_nonneg_right hqr (two_zpow_pos _).le
  · -- the power of two from which on more digits are dropped is between them
    have hr : F.place r = Int.log 2 r - F.digits :=
      (max_choice _ _).resolve_left fun h => hlt.not_ge (le_of_eq_of_le h (le_max_left _ _))
    have hlow : Int.log 2 q - F.digits ≤ F.place q := le_max_right _ _
    have hmost : q ≤ ((2 ^ (F.digits + 1) : Int) : ℚ) * 2 ^ F.place q := by
      rw [natCast_two_pow_mul]
      refine (Int.lt_zpow_succ_log_self one_lt_two q).le.trans (zpow_le_zpow_right₀ one_le_two ?_)
      push_cast
      omega
    have hleast : ((2 ^ F.digits : Int) : ℚ) * 2 ^ F.place r ≤ r := by
      rw [natCast_two_pow_mul, hr, add_sub_cancel]
      exact Int.zpow_log_le_self one_lt_two (hpos.trans_le hqr)
    refine (magnitude_le hmost).trans (le_trans ?_ (le_magnitude hleast))
    rw [natCast_two_pow_mul, natCast_two_pow_mul]
    refine zpow_le_zpow_right₀ one_le_two ?_
    push_cast
    omega

theorem nearest_mono : Monotone F.nearest := by
  intro q r hqr
  unfold nearest
  split_ifs with hq hr hr
  · exact magnitude_mono hq hqr
  · exact absurd (hq.trans hqr) hr
  · have hneg := magnitude_nonneg (F := F) (neg_nonneg.mpr (not_le.mp hq).le)
    linarith [magnitude_nonneg (F := F) hr]
  · exact neg_le_neg (magnitude_mono (neg_nonneg.mpr (not_le.mp hr).le) (neg_le_neg hqr))

theorem nearest_nonneg (hq : 0 ≤ q) : 0 ≤ F.nearest q := by
  unfold nearest
  rw [if_pos hq]
  exact magnitude_nonneg hq

theorem abs_magnitude_sub (q : ℚ) : |F.magnitude q - q| ≤ 2 ^ F.place q / 2 := by
  have hpos := two_zpow_pos (F.place q)
  have hfactor : F.magnitude q - q =
      (roundEven (q / 2 ^ F.place q) - q / 2 ^ F.place q) * 2 ^ F.place q := by
    rw [sub_mul, div_mul_cancel₀ _ hpos.ne', magnitude]
  rw [hfactor, abs_mul, abs_of_pos hpos]
  linarith [mul_le_mul_of_nonneg_right (abs_roundEven_sub (q / 2 ^ F.place q)) hpos.le]

theorem abs_nearest_sub (q : ℚ) : |F.nearest q - q| ≤ 2 ^ F.place |q| / 2 := by
  unfold nearest
  split_ifs with hq
  · rw [abs_of_nonneg hq]
    exact abs_magnitude_sub q
  · rw [abs_of_neg (not_le.mp hq), ← abs_neg, neg_sub, sub_neg_eq_add, add_comm, ← sub_neg_eq_add]
    exact abs_magnitude_sub (-q)

/-- The error of a number that is not too small for its digits. -/
theorem two_zpow_place_le (hq : 2 ^ (F.leastPlace + F.digits) ≤ q) :
    (2 : ℚ) ^ F.place q ≤ q / 2 ^ F.digits := by
  have hpos : 0 < q := (two_zpow_pos _).trans_le hq
  have hlog : F.leastPlace + F.digits ≤ Int.log 2 q := (Int.zpow_le_iff_le_log one_lt_two hpos).mp hq
  rw [place, max_eq_right (by omega), zpow_sub₀ two_ne_zero, zpow_natCast]
  exact div_le_div_of_nonneg_right (Int.zpow_log_le_self one_lt_two hpos) (by positivity)

theorem abs_nearest_sub_le (hq : 2 ^ (F.leastPlace + F.digits) ≤ |q|) :
    |F.nearest q - q| ≤ |q| / 2 ^ F.digits / 2 :=
  (abs_nearest_sub q).trans (div_le_div_of_nonneg_right (two_zpow_place_le hq) two_pos.le)

@[simp] theorem nearest_zero : F.nearest 0 = 0 := by
  rw [nearest, if_pos le_rfl, magnitude, zero_div, ← Int.cast_zero, roundEven_intCast, Int.cast_zero,
    zero_mul]

/-- The error of any number. -/
theorem abs_nearest_sub_le_add (q : ℚ) :
    |F.nearest q - q| ≤ |q| / 2 ^ F.digits / 2 + 2 ^ F.leastPlace / 2 := by
  have hleast := two_zpow_pos F.leastPlace
  have hnonneg : 0 ≤ |q| / 2 ^ F.digits / 2 := by positivity
  rcases le_or_gt (2 ^ (F.leastPlace + F.digits)) |q| with hq | hq
  · linarith [abs_nearest_sub_le hq]
  rcases eq_or_ne q 0 with rfl | hne
  · rw [nearest_zero, sub_zero, abs_zero]
    positivity
  · have hlog := (Int.lt_zpow_iff_log_lt one_lt_two (abs_pos.mpr hne)).mp hq
    have herror := abs_nearest_sub (F := F) q
    rw [place, max_eq_left (by omega)] at herror
    linarith

end FloatFormat

end Uniset.Lib
