import Uniset.Lib.FloatFormat

/-! The numbers of single and of double precision by their bits. -/

namespace Uniset.Lib

open FloatFormat

/-- The smallest positive number of double precision is a unit, so that one is so many times doubled. -/
def onePlace : Nat := 1074

def one : Nat := 2 ^ onePlace

def binary32 : FloatFormat := ⟨23, 925, 255⟩

def binary64 : FloatFormat := ⟨52, 0, 2047⟩

theorem zero_lt_one_unit : 0 < one := Nat.two_pow_pos onePlace

namespace FloatFormat

/-- The bits of a format without those that another does not have, or with zeros for them. -/
def fraction (F G : FloatFormat) (f : Nat) : Nat :=
  if F.digits ≤ G.digits then f * 2 ^ (G.digits - F.digits) else f / 2 ^ (F.digits - G.digits)

/-- What is not a number is made quiet. -/
def quiet (G : FloatFormat) (f : Nat) : Nat :=
  if f < G.hidden / 2 then f + G.hidden / 2 else f

/-- A number of a format as one of another. -/
def convert (F G : FloatFormat) (b : Nat) : Nat :=
  if b < F.infinity then G.encode (F.decode b)
  else if b = F.infinity then G.infinity
  else G.infinity + G.quiet (fraction F G (b - F.infinity))

end FloatFormat

/-- The bits of a negative number of single precision. -/
def Negative32 (b : UInt32) : Prop := 2 ^ 31 ≤ b.toNat

instance (b : UInt32) : Decidable (Negative32 b) := inferInstanceAs (Decidable (2 ^ 31 ≤ b.toNat))

def magnitude32 (b : UInt32) : Nat := b.toNat % 2 ^ 31

def ofMagnitude32 (negative : Prop) [Decidable negative] (m : Nat) : UInt32 :=
  .ofNat ((if negative then 2 ^ 31 else 0) + m)

def Negative64 (b : UInt64) : Prop := 2 ^ 63 ≤ b.toNat

instance (b : UInt64) : Decidable (Negative64 b) := inferInstanceAs (Decidable (2 ^ 63 ≤ b.toNat))

def magnitude64 (b : UInt64) : Nat := b.toNat % 2 ^ 63

def ofMagnitude64 (negative : Prop) [Decidable negative] (m : Nat) : UInt64 :=
  .ofNat ((if negative then 2 ^ 63 else 0) + m)

def doubleOfFloat (b : UInt32) : UInt64 :=
  ofMagnitude64 (Negative32 b) (binary32.convert binary64 (magnitude32 b))

def floatOfDouble (b : UInt64) : UInt32 :=
  ofMagnitude32 (Negative64 b) (binary64.convert binary32 (magnitude64 b))

/-- The least integer of 64 bits, which stands for what has none. -/
def noInteger : Int := -2 ^ 63

/-- The nearest integer; of two, the one that is farther from zero. -/
def lroundf (b : UInt32) : Int :=
  let n := (binary32.decode (magnitude32 b) + one / 2) / one
  if binary32.infinity ≤ magnitude32 b then noInteger
  else if Negative32 b then (if n ≤ 2 ^ 63 then -n else noInteger)
  else if n < 2 ^ 63 then n else noInteger

def floatOfLong (v : Int) : UInt32 :=
  ofMagnitude32 (v < 0) (binary32.encode (v.natAbs * one))

/-- A number of single precision that is an integer; zero has no sign. -/
structure IsInteger (b : UInt32) (n : Int) : Prop where
  finite : magnitude32 b < binary32.infinity
  value : binary32.decode (magnitude32 b) = n.natAbs * one
  sign : Negative32 b ↔ n < 0

/-! ## Signs -/

theorem ofMagnitude32_parts (negative : Prop) [Decidable negative] {m : Nat} (hm : m < 2 ^ 31) :
    (Negative32 (ofMagnitude32 negative m) ↔ negative) ∧
      magnitude32 (ofMagnitude32 negative m) = m := by
  unfold Negative32 magnitude32 ofMagnitude32
  rw [UInt32.toNat_ofNat']
  split_ifs with h
  · refine ⟨iff_of_true ?_ h, ?_⟩ <;> omega
  · refine ⟨iff_of_false ?_ h, ?_⟩ <;> omega

theorem eq_of_parts32 {b c : UInt32} (hsign : Negative32 b ↔ Negative32 c)
    (hmag : magnitude32 b = magnitude32 c) : b = c := by
  have hb := b.toNat_lt
  have hc := c.toNat_lt
  unfold Negative32 at hsign
  unfold magnitude32 at hmag
  refine UInt32.toNat_inj.mp ?_
  omega

theorem ofMagnitude64_parts (negative : Prop) [Decidable negative] {m : Nat} (hm : m < 2 ^ 63) :
    (Negative64 (ofMagnitude64 negative m) ↔ negative) ∧
      magnitude64 (ofMagnitude64 negative m) = m := by
  unfold Negative64 magnitude64 ofMagnitude64
  rw [UInt64.toNat_ofNat']
  split_ifs with h
  · refine ⟨iff_of_true ?_ h, ?_⟩ <;> omega
  · refine ⟨iff_of_false ?_ h, ?_⟩ <;> omega

theorem eq_of_parts64 {b c : UInt64} (hsign : Negative64 b ↔ Negative64 c)
    (hmag : magnitude64 b = magnitude64 c) : b = c := by
  have hb := b.toNat_lt
  have hc := c.toNat_lt
  unfold Negative64 at hsign
  unfold magnitude64 at hmag
  refine UInt64.toNat_inj.mp ?_
  omega

theorem encode_lt (n : Nat) : binary32.encode n < 2 ^ 31 :=
  Nat.lt_of_le_of_lt (Nat.min_le_right _ _) (by decide)

/-! ## Integers -/

theorem lroundf_eq_of_isInteger {b : UInt32} {n : Int} (h : IsInteger b n) :
    lroundf b = if n < 0 then (if n.natAbs ≤ 2 ^ 63 then -(n.natAbs : Int) else noInteger)
      else if n.natAbs < 2 ^ 63 then (n.natAbs : Int) else noInteger := by
  have hround : (binary32.decode (magnitude32 b) + one / 2) / one = n.natAbs := by
    rw [h.value, Nat.mul_comm, Nat.mul_add_div zero_lt_one_unit,
      Nat.div_eq_of_lt (Nat.div_lt_self zero_lt_one_unit Nat.one_lt_two), Nat.add_zero]
  unfold lroundf
  rw [hround, if_neg (Nat.not_le_of_lt h.finite)]
  exact ite_congr (propext h.sign) (fun _ => rfl) fun _ => rfl

theorem lroundf_of_not_lt {b : UInt32} {n : Int} (h : IsInteger b n) (hn : 2 ^ 63 ≤ n) :
    lroundf b = noInteger := by
  rw [lroundf_eq_of_isInteger h, if_neg (by omega), if_neg (by omega)]

theorem lroundf_of_isInteger {b : UInt32} {n : Int} (h : IsInteger b n) (hlow : -2 ^ 63 ≤ n)
    (hhigh : n < 2 ^ 63) : lroundf b = n := by
  rw [lroundf_eq_of_isInteger h]
  by_cases hneg : n < 0
  · rw [if_pos hneg, if_pos (by omega)]
    omega
  · rw [if_neg hneg, if_pos (by omega)]
    omega

theorem floatOfLong_of_isInteger {b : UInt32} {n : Int} (h : IsInteger b n) : floatOfLong n = b := by
  have hencode : binary32.encode (n.natAbs * one) = magnitude32 b := by
    rw [← h.value, encode_decode h.finite]
  obtain ⟨hsign, hmag⟩ := ofMagnitude32_parts (n < 0) (encode_lt (n.natAbs * one))
  exact eq_of_parts32 (hsign.trans h.sign.symm) (hmag.trans hencode)

/-- What an integer is converted to is an integer, and no farther from zero than a power of two that
the integer is not beyond. -/
theorem isInteger_floatOfLong {v : Int} {j : Nat} (hj : j < 64) (hv : v.natAbs ≤ 2 ^ j) :
    ∃ n : Int, IsInteger (floatOfLong v) n ∧ n.natAbs ≤ 2 ^ j ∧ (n < 0 ↔ v < 0) := by
  have hplace : binary32.least + binary32.digits ≤ j + onePlace := by
    change 925 + 23 ≤ j + 1074
    omega
  have hmost : v.natAbs * one ≤ 2 ^ (j + onePlace) := by
    rw [Nat.pow_add]
    exact Nat.mul_le_mul_right _ hv
  have hfinite : binary32.encode (v.natAbs * one) < binary32.infinity := by
    refine encode_lt_infinity hmost hplace ?_
    change j + 1074 - 23 - 925 + 2 < 255
    omega
  obtain ⟨q, hq⟩ : one ∣ binary32.decode (binary32.encode (v.natAbs * one)) :=
    dvd_decode_encode hfinite (Nat.dvd_mul_left _ _)
  have hle : q ≤ 2 ^ j := by
    have hle := decode_encode_le hfinite hmost hplace
    rw [hq, Nat.pow_add, Nat.mul_comm] at hle
    exact Nat.le_of_mul_le_mul_right hle zero_lt_one_unit
  have hpos : v ≠ 0 → 0 < q := by
    intro hne
    have hone : 2 ^ binary32.least ≤ v.natAbs * one :=
      Nat.le_trans (Nat.pow_le_pow_right Nat.two_pos (by decide))
        (Nat.le_mul_of_pos_left one (Int.natAbs_pos.mpr hne))
    have hdecode := decode_encode_pos hfinite hone
    rw [hq] at hdecode
    exact Nat.pos_of_mul_pos_left hdecode
  obtain ⟨hsign, hmag⟩ := ofMagnitude32_parts (v < 0) (encode_lt (v.natAbs * one))
  refine ⟨if v < 0 then -q else q, ⟨?_, ?_, ?_⟩, ?_, ?_⟩
  · exact hmag ▸ hfinite
  · rw [floatOfLong, hmag, hq, Nat.mul_comm]
    split_ifs <;> simp
  · refine hsign.trans ?_
    split_ifs with hneg
    · have hq := hpos (Int.ne_of_lt hneg)
      omega
    · omega
  · split_ifs <;> simpa using hle
  · split_ifs with hneg
    · have hq := hpos (Int.ne_of_lt hneg)
      omega
    · omega

/-- An integer cut to so many bits. -/
def cutTo (bits : Nat) (v : Int) : Int := v.bmod (2 ^ bits)

theorem cutTo_bounds (j : Nat) (v : Int) : -2 ^ j ≤ cutTo (j + 1) v ∧ cutTo (j + 1) v < 2 ^ j := by
  have hpos := Nat.two_pow_pos j
  have hlow := Int.le_bmod (x := v) (m := 2 ^ (j + 1)) (Nat.two_pow_pos _)
  have hhigh := Int.bmod_lt (x := v) (m := 2 ^ (j + 1)) (Nat.two_pow_pos _)
  have hcast : ((2 ^ (j + 1) : Nat) : Int) = 2 * 2 ^ j := by
    rw [Nat.pow_succ, Nat.mul_comm]
    simp
  rw [hcast] at hlow hhigh
  unfold cutTo
  omega

theorem cutTo_of_bounds {j : Nat} {v : Int} (hlow : -2 ^ j ≤ v) (hhigh : v < 2 ^ j) :
    cutTo (j + 1) v = v := by
  have hcast : ((2 ^ (j + 1) : Nat) : Int) = 2 * 2 ^ j := by
    rw [Nat.pow_succ, Nat.mul_comm]
    simp
  refine Int.bmod_eq_of_le_mul_two ?_ ?_ <;> rw [hcast] <;> omega

theorem cutTo_two_pow (j : Nat) : cutTo (j + 1) (2 ^ j) < 0 := by
  have hpos : (0 : Int) < 2 ^ j := Int.pow_pos (by decide)
  have hcast : ((2 ^ (j + 1) : Nat) : Int) = 2 * 2 ^ j := by
    rw [Nat.pow_succ, Nat.mul_comm]
    simp
  rw [cutTo, Int.bmod_def, hcast]
  generalize (2 : Int) ^ j = x at hpos
  rw [Int.emod_eq_of_lt (by omega) (by omega)]
  split_ifs <;> omega

theorem natAbs_le_two_pow {j : Nat} {v : Int} : v.natAbs ≤ 2 ^ j ↔ -2 ^ j ≤ v ∧ v ≤ 2 ^ j := by
  have hcast : ((2 ^ j : Nat) : Int) = 2 ^ j := by simp
  omega

theorem two_pow_le_two_pow {i j : Nat} (h : i ≤ j) : (2 : Int) ^ i ≤ 2 ^ j := by
  have hle := Nat.pow_le_pow_right Nat.two_pos h
  have hi : ((2 ^ i : Nat) : Int) = 2 ^ i := by simp
  have hj : ((2 ^ j : Nat) : Int) = 2 ^ j := by simp
  omega

/-- The number is beyond the integers to which it is cut. -/
theorem cutTo_lroundf_neg {b : UInt32} {j : Nat} (hj : j < 64) (h : IsInteger b (2 ^ j)) :
    cutTo (j + 1) (lroundf b) < 0 := by
  have hpos : (0 : Int) < 2 ^ j := Int.pow_pos (by decide)
  rcases Nat.lt_or_ge j 63 with hlt | hge
  · have hle : (2 : Int) ^ (j + 1) ≤ 2 ^ 63 := two_pow_le_two_pow hlt
    rw [Int.pow_succ] at hle
    rw [lroundf_of_isInteger h (by omega) (by omega)]
    exact cutTo_two_pow j
  · obtain rfl : j = 63 := by omega
    have hround := lroundf_of_not_lt h (Int.le_refl _)
    rw [hround]
    decide

theorem lroundf_bounds (b : UInt32) : -2 ^ 63 ≤ lroundf b ∧ lroundf b < 2 ^ 63 := by
  unfold lroundf noInteger
  generalize (binary32.decode (magnitude32 b) + one / 2) / one = n
  dsimp only
  split_ifs <;> omega

/-- A number of single precision is given back by its integer if and only if it is one, in the range to
which the integer is cut. -/
theorem floatOfLong_lroundf_iff {b : UInt32} {j : Nat} (hj : j < 64) :
    floatOfLong (cutTo (j + 1) (lroundf b)) = b ↔
      ∃ n : Int, IsInteger b n ∧ -2 ^ j ≤ n ∧ n < 2 ^ j := by
  constructor
  · intro h
    obtain ⟨hlow, hhigh⟩ := cutTo_bounds j (lroundf b)
    obtain ⟨n, hn, hle, hsign⟩ := isInteger_floatOfLong (v := cutTo (j + 1) (lroundf b)) hj
      (natAbs_le_two_pow.mpr ⟨hlow, Int.le_of_lt hhigh⟩)
    rw [h] at hn
    obtain ⟨hleast, hmost⟩ := natAbs_le_two_pow.mp hle
    refine ⟨n, hn, hleast, Int.lt_iff_le_and_ne.mpr ⟨hmost, ?_⟩⟩
    rintro rfl
    have hneg := hsign.mpr (cutTo_lroundf_neg hj hn)
    have hpos : (0 : Int) < 2 ^ j := Int.pow_pos (by decide)
    omega
  · rintro ⟨n, hn, hlow, hhigh⟩
    have hlong : (2 : Int) ^ j ≤ 2 ^ 63 := two_pow_le_two_pow (Nat.le_of_lt_succ hj)
    rw [lroundf_of_isInteger hn (by omega) (by omega), cutTo_of_bounds hlow hhigh,
      floatOfLong_of_isInteger hn]

/-! ## Single and double precision -/

theorem decode_le {b j : Nat} (hfinite : b < binary32.infinity) (hj : 1202 ≤ j) :
    binary32.decode b ≤ 2 ^ j := by
  have hfield : b / binary32.hidden < 255 := Nat.div_lt_of_lt_mul (by rwa [Nat.mul_comm])
  have hplace : binary32.lastPlace (binary32.decode b) + 24 ≤ j := by
    rw [lastPlace_decode]
    change 925 + (b / binary32.hidden - 1) + 24 ≤ j
    omega
  have hsum : 2 * binary32.hidden * 2 ^ binary32.lastPlace (binary32.decode b) =
      2 ^ (binary32.lastPlace (binary32.decode b) + 24) := by
    rw [Nat.pow_add, Nat.mul_comm]
    rfl
  have hlt := lt_two_pow_lastPlace (F := binary32) (binary32.decode b)
  rw [hsum] at hlt
  exact Nat.le_trans (Nat.le_of_lt hlt) (Nat.pow_le_pow_right Nat.two_pos hplace)

theorem encode64_decode32_lt {b : Nat} (hfinite : b < binary32.infinity) :
    binary64.encode (binary32.decode b) < binary64.infinity :=
  encode_lt_infinity (decode_le hfinite (Nat.le_refl 1202)) (by decide) (by decide)

/-- Double precision has the digits of single precision and more. -/
theorem decode64_encode64_decode32 {b : Nat} (hfinite : b < binary32.infinity) :
    binary64.decode (binary64.encode (binary32.decode b)) = binary32.decode b := by
  refine decode_encode_of_dvd (encode64_decode32_lt hfinite)
    (Nat.dvd_trans (Nat.pow_dvd_pow 2 ?_) (dvd_decode b))
  change max 0 ((binary32.decode b).log2 - 52) ≤ max 925 ((binary32.decode b).log2 - 23)
  omega

theorem convert_convert_of_finite {b : Nat} (hfinite : b < binary32.infinity) :
    binary64.convert binary32 (binary32.convert binary64 b) = b := by
  rw [convert, convert, if_pos hfinite, if_pos (encode64_decode32_lt hfinite),
    decode64_encode64_decode32 hfinite, encode_decode hfinite]

theorem quiet_pos {G : FloatFormat} (hG : 0 < G.hidden / 2) (f : Nat) : 0 < G.quiet f := by
  unfold quiet
  split_ifs <;> omega

theorem convert_of_nan {F G : FloatFormat} {f : Nat} (hf : 0 < f) :
    F.convert G (F.infinity + f) = G.infinity + G.quiet (fraction F G f) := by
  rw [convert, if_neg (by omega), if_neg (by omega), Nat.add_sub_cancel_left]

/-- What is not a number comes back as it was, but for being made quiet. -/
theorem quiet_quiet_fraction {f : Nat} (hf : f < 2 ^ 23) :
    binary64.quiet (fraction binary32 binary64
        (binary32.quiet (fraction binary64 binary32 (binary64.quiet (fraction binary32 binary64 f))))) =
      binary64.quiet (fraction binary32 binary64 f) := by
  have hup : ∀ f, fraction binary32 binary64 f = f * 2 ^ 29 := fun f => if_pos (by decide)
  have hdown : ∀ f, fraction binary64 binary32 f = f / 2 ^ 29 := fun f => if_neg (by decide)
  have hsingle : ∀ f, binary32.quiet f = if f < 2 ^ 22 then f + 2 ^ 22 else f := fun f => rfl
  have hdouble : ∀ f, binary64.quiet f = if f < 2 ^ 51 then f + 2 ^ 51 else f := fun f => rfl
  rw [hup, hdown, hup, hsingle, hdouble, hdouble]
  split_ifs <;> omega

theorem convert_convert_of_infinity {b : Nat} (hb : b < 2 ^ 31) (hinf : binary32.infinity ≤ b) :
    binary32.convert binary64 (binary64.convert binary32 (binary32.convert binary64 b)) =
      binary32.convert binary64 b := by
  obtain ⟨f, rfl⟩ := Nat.exists_eq_add_of_le hinf
  rcases Nat.eq_zero_or_pos f with rfl | hpos
  · decide
  · have hf : f < 2 ^ 23 := by
      have hsingle : binary32.infinity = 2 ^ 31 - 2 ^ 23 := by decide
      omega
    rw [convert_of_nan hpos, convert_of_nan (quiet_pos (by decide) _),
      convert_of_nan (quiet_pos (by decide) _), quiet_quiet_fraction hf]

theorem convert_lt {F G : FloatFormat} {b n : Nat} (hG : G.infinity + G.hidden ≤ n)
    (hfraction : ∀ f, F.infinity + f = b → fraction F G f < G.hidden) : F.convert G b < n := by
  have hpos := hidden_pos (F := G)
  unfold convert
  split_ifs with hfinite hinf
  · have hmin : G.encode (F.decode b) ≤ G.infinity := Nat.min_le_right _ _
    omega
  · omega
  · have hlt := hfraction (b - F.infinity) (by omega)
    unfold quiet
    split_ifs <;> omega

theorem convert_lt64 {b : Nat} (hb : b < 2 ^ 31) : binary32.convert binary64 b < 2 ^ 63 := by
  refine convert_lt (by decide) fun f hf => ?_
  change f * 2 ^ 29 < 2 ^ 52
  change 2 ^ 31 - 2 ^ 23 + f = b at hf
  omega

theorem convert_lt32 {b : Nat} (hb : b < 2 ^ 63) : binary64.convert binary32 b < 2 ^ 31 := by
  refine convert_lt (by decide) fun f hf => ?_
  change f / 2 ^ 29 < 2 ^ 23
  change 2 ^ 63 - 2 ^ 52 + f = b at hf
  omega

theorem magnitude32_lt (b : UInt32) : magnitude32 b < 2 ^ 31 := Nat.mod_lt _ (by decide)

theorem magnitude64_lt (b : UInt64) : magnitude64 b < 2 ^ 63 := Nat.mod_lt _ (by decide)

theorem doubleOfFloat_parts (b : UInt32) : (Negative64 (doubleOfFloat b) ↔ Negative32 b) ∧
    magnitude64 (doubleOfFloat b) = binary32.convert binary64 (magnitude32 b) :=
  ofMagnitude64_parts _ (convert_lt64 (magnitude32_lt b))

theorem floatOfDouble_parts (b : UInt64) : (Negative32 (floatOfDouble b) ↔ Negative64 b) ∧
    magnitude32 (floatOfDouble b) = binary64.convert binary32 (magnitude64 b) :=
  ofMagnitude32_parts _ (convert_lt32 (magnitude64_lt b))

/-- A finite number of single precision is got back from double precision. -/
theorem floatOfDouble_doubleOfFloat {b : UInt32} (hfinite : magnitude32 b < binary32.infinity) :
    floatOfDouble (doubleOfFloat b) = b := by
  obtain ⟨hsign, hmag⟩ := doubleOfFloat_parts b
  obtain ⟨hsign', hmag'⟩ := floatOfDouble_parts (doubleOfFloat b)
  exact eq_of_parts32 (hsign'.trans hsign) (by rw [hmag', hmag, convert_convert_of_finite hfinite])

theorem doubleOfFloat_floatOfDouble_doubleOfFloat (b : UInt32) :
    doubleOfFloat (floatOfDouble (doubleOfFloat b)) = doubleOfFloat b := by
  rcases Nat.lt_or_ge (magnitude32 b) binary32.infinity with hfinite | hinf
  · rw [floatOfDouble_doubleOfFloat hfinite]
  · obtain ⟨hsign, hmag⟩ := doubleOfFloat_parts b
    obtain ⟨hsign', hmag'⟩ := floatOfDouble_parts (doubleOfFloat b)
    obtain ⟨hback, hmagBack⟩ := doubleOfFloat_parts (floatOfDouble (doubleOfFloat b))
    refine eq_of_parts64 (hback.trans hsign') ?_
    rw [hmagBack, hmag', hmag, convert_convert_of_infinity (magnitude32_lt b) hinf]

/-- A number of double precision is kept in single precision if and only if it is one of it. -/
theorem doubleOfFloat_floatOfDouble_iff {d : UInt64} :
    doubleOfFloat (floatOfDouble d) = d ↔ ∃ b, doubleOfFloat b = d := by
  refine ⟨fun h => ⟨_, h⟩, ?_⟩
  rintro ⟨b, rfl⟩
  exact doubleOfFloat_floatOfDouble_doubleOfFloat b

/-- The same through an integer. -/
theorem doubleOfFloat_floatOfLong_iff {d : UInt64} {j : Nat} (hj : j < 64) :
    doubleOfFloat (floatOfLong (cutTo (j + 1) (lroundf (floatOfDouble d)))) = d ↔
      ∃ b, doubleOfFloat b = d ∧ ∃ n : Int, IsInteger b n ∧ -2 ^ j ≤ n ∧ n < 2 ^ j := by
  constructor
  · intro h
    obtain ⟨hlow, hhigh⟩ := cutTo_bounds j (lroundf (floatOfDouble d))
    obtain ⟨n, hn, -, -⟩ := isInteger_floatOfLong hj
      (natAbs_le_two_pow.mpr ⟨hlow, Int.le_of_lt hhigh⟩)
    have hback := floatOfDouble_doubleOfFloat hn.finite
    rw [h] at hback
    refine ⟨floatOfDouble d, hback ▸ h, (floatOfLong_lroundf_iff hj).mp hback.symm⟩
  · rintro ⟨b, rfl, n, hn, hrange⟩
    rw [floatOfDouble_doubleOfFloat hn.finite, (floatOfLong_lroundf_iff hj).mpr ⟨n, hn, hrange⟩]

end Uniset.Lib
