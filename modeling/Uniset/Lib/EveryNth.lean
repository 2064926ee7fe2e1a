import Mathlib.Data.Nat.Count

/-! Steps of which some are due, and when that is one of any `n` in a row. -/

namespace Uniset.Lib

/-- Of any `n` steps in a row exactly one is due. -/
def EveryNth (due : Nat → Prop) (n : Nat) : Prop := ∀ k, ∃! j, k ≤ j ∧ j < k + n ∧ due j

namespace EveryNth

variable {due due' : Nat → Prop} {n p : Nat}

theorem congr (h : ∀ j, due j ↔ due' j) : EveryNth due n ↔ EveryNth due' n :=
  forall_congr' fun _ => existsUnique_congr fun j => and_congr_right fun _ => and_congr_right fun _ => h j

theorem window [DecidablePred due] (h : EveryNth due n) (k : Nat) :
    Nat.count (fun j => due (k + j)) n = 1 := by
  obtain ⟨j, ⟨hle, hlt, hdue⟩, hunique⟩ := h k
  rw [Nat.count_eq_card_filter_range, Finset.card_eq_one]
  refine ⟨j - k, Finset.eq_singleton_iff_unique_mem.mpr ⟨?_, fun i hi => ?_⟩⟩
  · rw [Finset.mem_filter, Finset.mem_range, Nat.add_sub_cancel' hle]
    exact ⟨by omega, hdue⟩
  · rw [Finset.mem_filter, Finset.mem_range] at hi
    have := hunique (k + i) ⟨by omega, by omega, hi.2⟩
    omega

theorem count_mul [DecidablePred due] (h : EveryNth due n) (q : Nat) : Nat.count due (q * n) = q := by
  induction q with
  | zero => simp
  | succ q ih => rw [Nat.succ_mul, Nat.count_add, ih, h.window]

theorem count_mul_of_periodic [DecidablePred due] (h : ∀ j, due (j + p) ↔ due j) (q : Nat) :
    Nat.count due (q * p) = q * Nat.count due p := by
  induction q with
  | zero => simp
  | succ q ih =>
    have hshift : Nat.count (fun k => due (q * p + k)) p = Nat.count due p := by
      congr 1
      funext k
      rw [eq_iff_iff, Nat.add_comm]
      clear ih
      induction q with
      | zero => simp
      | succ q ih => rw [Nat.succ_mul, ← Nat.add_assoc, h, ih]
    rw [Nat.succ_mul, Nat.count_add, ih, hshift, Nat.succ_mul]

/-- Over `n` periods of `p` steps there are `p` turns, and as many in each period. -/
theorem dvd_of_periodic (h : EveryNth due n) (hp : ∀ j, due (j + p) ↔ due j) : n ∣ p := by
  classical
  exact ⟨Nat.count due p, by rw [← count_mul_of_periodic hp, Nat.mul_comm, h.count_mul]⟩

theorem shift (h : EveryNth due n) (r : Nat) : EveryNth (fun j => due (r + j)) n := by
  intro k
  obtain ⟨j, ⟨hle, hlt, hdue⟩, hunique⟩ := h (r + k)
  refine ⟨j - r, ⟨by omega, by omega, ?_⟩, fun i ⟨hle', hlt', hdue'⟩ => ?_⟩
  · change due (r + (j - r))
    rwa [Nat.add_sub_cancel' (by omega)]
  · have := hunique (r + i) ⟨by omega, by omega, hdue'⟩
    omega

theorem multiples (h : 0 < n) : EveryNth (fun j => n ∣ j + 1) n := by
  intro k
  have hdiv : (k + n) / n * n ≤ k + n ∧ k + n < (k + n) / n * n + n :=
    ⟨Nat.div_mul_le_self _ _, by rw [← Nat.succ_mul]; exact Nat.lt_mul_of_div_lt (Nat.lt_succ_self _) h⟩
  refine ⟨(k + n) / n * n - 1, ⟨by omega, by omega, ?_⟩, fun j ⟨hle, hlt, hdue⟩ => ?_⟩
  · change n ∣ (k + n) / n * n - 1 + 1
    rw [Nat.sub_add_cancel (by omega)]
    exact Nat.dvd_mul_left _ _
  · obtain ⟨q, hq⟩ := hdue
    have : q = (k + n) / n := by
      symm
      refine Nat.div_eq_of_lt_le ?_ ?_
      · rw [Nat.mul_comm, ← hq]
        omega
      · rw [Nat.succ_mul, Nat.mul_comm, ← hq]
        omega
    rw [← this, Nat.mul_comm, ← hq]
    omega

end EveryNth

end Uniset.Lib
