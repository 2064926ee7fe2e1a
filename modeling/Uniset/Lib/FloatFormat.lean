import Mathlib.Algebra.Order.Ring.Int
import Mathlib.Tactic.Common

/-! Binary floating-point formats.  A magnitude is a number of units, which are so small that every
number of every format is a multiple of them. -/

namespace Uniset.Lib

/-- The digits of a format, the place of its smallest positive number, and the exponent field of what is
not a number. -/
structure FloatFormat where
  digits : Nat
  least : Nat
  top : Nat

namespace FloatFormat

variable (F : FloatFormat)

/-- The first digit of a normal number, which is not stored. -/
def hidden : Nat := 2 ^ F.digits

/-- From here on the bits are of no finite number. -/
def infinity : Nat := F.top * F.hidden

/-- The units of a number by its bits, the sign apart. -/
def decode (b : Nat) : Nat :=
  if b / F.hidden = 0 then b * 2 ^ F.least
  else (b % F.hidden + F.hidden) * 2 ^ (F.least + (b / F.hidden - 1))

/-- The place of the last digit that is kept of a magnitude. -/
def lastPlace (n : Nat) : Nat := max F.least (n.log2 - F.digits)

end FloatFormat

/-- To the nearest, and to the even one of two. -/
def roundHalfEven (n k : Nat) : Nat :=
  if 2 * (n % 2 ^ k) < 2 ^ k ∨ 2 * (n % 2 ^ k) = 2 ^ k ∧ n / 2 ^ k % 2 = 0 then n / 2 ^ k
  else n / 2 ^ k + 1

theorem roundHalfEven_mul (m k : Nat) : roundHalfEven (m * 2 ^ k) k = m := by
  have hpos : 0 < 2 ^ k := Nat.two_pow_pos k
  unfold roundHalfEven
  rw [Nat.mul_mod_left, Nat.mul_div_cancel _ hpos]
  exact if_pos (.inl hpos)

theorem roundHalfEven_le {n m k : Nat} (h : n ≤ m * 2 ^ k) : roundHalfEven n k ≤ m := by
  rcases Nat.eq_or_lt_of_le h with rfl | hlt
  · exact Nat.le_of_eq (roundHalfEven_mul m k)
  · have hdiv : n / 2 ^ k < m := Nat.div_lt_of_lt_mul (by rwa [Nat.mul_comm])
    unfold roundHalfEven
    split_ifs
    · exact Nat.le_of_lt hdiv
    · exact hdiv

theorem le_roundHalfEven (n k : Nat) : n / 2 ^ k ≤ roundHalfEven n k := by
  unfold roundHalfEven
  split_ifs
  · exact Nat.le_refl _
  · exact Nat.le_succ _

namespace FloatFormat

variable (F : FloatFormat)

/-- The bits of the nearest number; too large a magnitude is an infinity. -/
def encode (n : Nat) : Nat :=
  min ((F.lastPlace n - F.least) * F.hidden + roundHalfEven n (F.lastPlace n)) F.infinity

variable {F}

theorem hidden_pos : 0 < F.hidden := Nat.two_pow_pos _

theorem lastPlace_decode (b : Nat) :
    F.lastPlace (F.decode b) = F.least + (b / F.hidden - 1) := by
  unfold lastPlace decode
  by_cases hsub : b / F.hidden = 0
  · have hb : b < 2 ^ F.digits :=
      Nat.lt_of_div_eq_zero hidden_pos hsub
    rw [if_pos hsub, hsub]
    rcases Nat.eq_zero_or_pos b with rfl | hpos
    · simp
    · have hlog : (b * 2 ^ F.least).log2 < F.digits + F.least := by
        rw [Nat.log2_lt (Nat.ne_of_gt (Nat.mul_pos hpos (Nat.two_pow_pos _))), Nat.pow_add]
        exact Nat.mul_lt_mul_of_pos_right hb (Nat.two_pow_pos _)
      omega
  · rw [if_neg hsub]
    have hfrac : b % F.hidden < 2 ^ F.digits := Nat.mod_lt _ hidden_pos
    have hle : F.least ≤ F.least + (b / F.hidden - 1) := Nat.le_add_right _ _
    generalize F.least + (b / F.hidden - 1) = k at hle ⊢
    have hlog : ((b % F.hidden + F.hidden) * 2 ^ k).log2 = F.digits + k := by
      refine (Nat.log2_eq_iff ?_).mpr ⟨?_, ?_⟩
      · exact Nat.ne_of_gt (Nat.mul_pos (Nat.add_pos_right _ hidden_pos) (Nat.two_pow_pos _))
      · rw [Nat.pow_add]
        exact Nat.mul_le_mul_right _ (Nat.le_add_left _ _)
      · rw [Nat.add_right_comm, Nat.pow_add, Nat.pow_succ]
        refine Nat.mul_lt_mul_of_pos_right ?_ (Nat.two_pow_pos _)
        unfold hidden at hfrac ⊢
        omega
    rw [hlog]
    omega

theorem dvd_decode (b : Nat) : 2 ^ F.lastPlace (F.decode b) ∣ F.decode b := by
  rw [lastPlace_decode]
  unfold decode
  by_cases hsub : b / F.hidden = 0
  · rw [if_pos hsub, hsub]
    exact Nat.dvd_mul_left _ _
  · rw [if_neg hsub]
    exact Nat.dvd_mul_left _ _

/-- A finite number is encoded as it was. -/
theorem encode_decode {b : Nat} (hfinite : b < F.infinity) : F.encode (F.decode b) = b := by
  have hsum : (F.lastPlace (F.decode b) - F.least) * F.hidden +
      roundHalfEven (F.decode b) (F.lastPlace (F.decode b)) = b := by
    rw [lastPlace_decode, Nat.add_sub_cancel_left]
    unfold decode
    by_cases hsub : b / F.hidden = 0
    · rw [if_pos hsub, hsub, Nat.zero_sub, Nat.zero_mul, Nat.zero_add, Nat.add_zero,
        roundHalfEven_mul]
    · rw [if_neg hsub, roundHalfEven_mul]
      have hdiv := Nat.div_add_mod b F.hidden
      obtain ⟨e, he⟩ := Nat.exists_eq_succ_of_ne_zero hsub
      rw [he] at hdiv ⊢
      rw [Nat.succ_eq_add_one, Nat.add_sub_cancel, Nat.mul_comm e]
      rw [Nat.mul_succ] at hdiv
      omega
  rw [encode, hsum]
  exact Nat.min_eq_left (Nat.le_of_lt hfinite)

theorem lt_two_pow_lastPlace (n : Nat) : n < 2 * F.hidden * 2 ^ F.lastPlace n := by
  rcases Nat.eq_zero_or_pos n with rfl | hpos
  · exact Nat.mul_pos (Nat.mul_pos Nat.two_pos hidden_pos) (Nat.two_pow_pos _)
  · have hlog := (Nat.log2_eq_iff (Nat.ne_of_gt hpos)).mp rfl
    unfold hidden
    rw [Nat.mul_comm 2, ← Nat.pow_succ, ← Nat.pow_add]
    refine Nat.lt_of_lt_of_le hlog.2 (Nat.pow_le_pow_right Nat.two_pos ?_)
    unfold lastPlace
    omega

theorem hidden_le_of_lt_lastPlace {n : Nat} (h : F.least < F.lastPlace n) :
    F.hidden ≤ n / 2 ^ F.lastPlace n := by
  have hplace : n.log2 = F.digits + F.lastPlace n := by
    unfold lastPlace at h ⊢
    omega
  have hne : n ≠ 0 := by
    rintro rfl
    simp at hplace
    omega
  rw [Nat.le_div_iff_mul_le (Nat.two_pow_pos _), hidden, ← Nat.pow_add, ← hplace]
  exact ((Nat.log2_eq_iff hne).mp rfl).1

theorem decode_of_field {e f : Nat} (hf : f < F.hidden) :
    F.decode ((e + 1) * F.hidden + f) = (F.hidden + f) * 2 ^ (F.least + e) := by
  have hfield : ((e + 1) * F.hidden + f) / F.hidden = e + 1 := by
    rw [Nat.mul_comm, Nat.mul_add_div hidden_pos, Nat.div_eq_of_lt hf, Nat.add_zero]
  have hfrac : ((e + 1) * F.hidden + f) % F.hidden = f := by
    rw [Nat.mul_comm, Nat.mul_add_mod, Nat.mod_eq_of_lt hf]
  rw [decode, hfield, hfrac, if_neg (Nat.succ_ne_zero e), Nat.add_sub_cancel, Nat.add_comm f]

/-- What is encoded is rounded to the digits that are kept. -/
theorem decode_encode {n : Nat} (hfinite : F.encode n < F.infinity) :
    F.decode (F.encode n) = roundHalfEven n (F.lastPlace n) * 2 ^ F.lastPlace n := by
  have hbits : F.encode n = (F.lastPlace n - F.least) * F.hidden +
      roundHalfEven n (F.lastPlace n) := by
    unfold encode at hfinite ⊢
    omega
  have hmost := roundHalfEven_le (Nat.le_of_lt (F.lt_two_pow_lastPlace n))
  have hleast : F.least ≤ F.lastPlace n := Nat.le_max_left _ _
  have hplace : F.least + (F.lastPlace n - F.least) = F.lastPlace n := by omega
  rw [hbits]
  rcases Nat.lt_or_ge (roundHalfEven n (F.lastPlace n)) F.hidden with hsub | hnormal
  · have hsame : F.lastPlace n = F.least := by
      refine Classical.byContradiction fun hne => ?_
      have hle := F.hidden_le_of_lt_lastPlace (n := n) (by omega)
      have hround := le_roundHalfEven n (F.lastPlace n)
      omega
    rw [hsame, Nat.sub_self, Nat.zero_mul, Nat.zero_add, decode, ← hsame,
      if_pos (Nat.div_eq_of_lt hsub)]
  · obtain ⟨f, hf⟩ := Nat.exists_eq_add_of_le hnormal
    rw [hf]
    rcases Nat.lt_or_ge f F.hidden with hlt | hge
    · have hfield : (F.lastPlace n - F.least) * F.hidden + (F.hidden + f) =
          (F.lastPlace n - F.least + 1) * F.hidden + f := by
        rw [Nat.succ_mul, Nat.add_assoc]
      rw [hfield, decode_of_field hlt, hplace]
    · have hfull : f = F.hidden := by omega
      have hfield : (F.lastPlace n - F.least) * F.hidden + (F.hidden + f) =
          (F.lastPlace n - F.least + 1 + 1) * F.hidden + 0 := by
        rw [hfull, Nat.succ_mul, Nat.succ_mul, Nat.add_zero, Nat.add_assoc]
      rw [hfield, decode_of_field hidden_pos, hfull, ← Nat.add_assoc, hplace, Nat.pow_succ,
        Nat.add_zero, Nat.mul_comm (2 ^ _) 2, ← Nat.mul_assoc, Nat.mul_two]

/-- A magnitude of no more digits than are kept is kept. -/
theorem decode_encode_of_dvd {n : Nat} (hfinite : F.encode n < F.infinity)
    (hdvd : 2 ^ F.lastPlace n ∣ n) : F.decode (F.encode n) = n := by
  obtain ⟨m, hm⟩ := hdvd
  have hround : roundHalfEven n (F.lastPlace n) = m := by
    have hmul := roundHalfEven_mul m (F.lastPlace n)
    rwa [Nat.mul_comm, ← hm] at hmul
  rw [decode_encode hfinite, hround, Nat.mul_comm]
  exact hm.symm

/-- A multiple of a power of two is encoded as one. -/
theorem dvd_decode_encode {n u : Nat} (hfinite : F.encode n < F.infinity) (hdvd : 2 ^ u ∣ n) :
    2 ^ u ∣ F.decode (F.encode n) := by
  rcases Nat.le_total (F.lastPlace n) u with hle | hle
  · rwa [decode_encode_of_dvd hfinite (Nat.dvd_trans (Nat.pow_dvd_pow 2 hle) hdvd)]
  · rw [decode_encode hfinite]
    exact Nat.dvd_mul_left_of_dvd (Nat.pow_dvd_pow 2 hle) _

theorem lastPlace_le {n j : Nat} (hn : n ≤ 2 ^ j) (hj : F.least + F.digits ≤ j) :
    F.lastPlace n ≤ j - F.digits := by
  have hlog : n.log2 ≤ j := by
    rcases Nat.eq_zero_or_pos n with rfl | hpos
    · simp
    · have hlt := (Nat.log2_lt (Nat.ne_of_gt hpos)).mpr
        (Nat.lt_of_le_of_lt hn (Nat.pow_lt_pow_succ Nat.one_lt_two))
      omega
  unfold lastPlace
  omega

theorem encode_lt_infinity {n j : Nat} (hn : n ≤ 2 ^ j) (hj : F.least + F.digits ≤ j)
    (htop : j - F.digits - F.least + 2 < F.top) : F.encode n < F.infinity := by
  have hplace := lastPlace_le hn hj
  have hround := roundHalfEven_le (Nat.le_of_lt (F.lt_two_pow_lastPlace n))
  have hmul : (F.lastPlace n - F.least + 2) * F.hidden < F.top * F.hidden :=
    Nat.mul_lt_mul_of_pos_right (by omega) hidden_pos
  rw [Nat.add_mul] at hmul
  unfold encode infinity
  omega

/-- Rounding does not go beyond a power of two. -/
theorem decode_encode_le {n j : Nat} (hfinite : F.encode n < F.infinity) (hn : n ≤ 2 ^ j)
    (hj : F.least + F.digits ≤ j) : F.decode (F.encode n) ≤ 2 ^ j := by
  have hplace := lastPlace_le hn hj
  have hpow : 2 ^ (j - F.lastPlace n) * 2 ^ F.lastPlace n = 2 ^ j := by
    rw [← Nat.pow_add]
    congr 1
    omega
  rw [decode_encode hfinite, ← hpow]
  exact Nat.mul_le_mul_right _ (roundHalfEven_le (hpow ▸ hn))

theorem decode_encode_pos {n : Nat} (hfinite : F.encode n < F.infinity) (hn : 2 ^ F.least ≤ n) :
    0 < F.decode (F.encode n) := by
  have hpos : n ≠ 0 := Nat.ne_of_gt (Nat.lt_of_lt_of_le (Nat.two_pow_pos _) hn)
  have hle : 2 ^ F.lastPlace n ≤ n := by
    unfold lastPlace
    rcases Nat.le_total (n.log2 - F.digits) F.least with h | h
    · rwa [Nat.max_eq_left h]
    · rw [Nat.max_eq_right h]
      exact Nat.le_trans (Nat.pow_le_pow_right Nat.two_pos (Nat.sub_le _ _))
        ((Nat.log2_eq_iff hpos).mp rfl).1
  rw [decode_encode hfinite]
  exact Nat.mul_pos (Nat.lt_of_lt_of_le (Nat.div_pos hle (Nat.two_pow_pos _)) (le_roundHalfEven _ _))
    (Nat.two_pow_pos _)

end FloatFormat

end Uniset.Lib
