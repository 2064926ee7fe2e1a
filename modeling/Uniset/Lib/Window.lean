import Mathlib.Data.List.Count

/-! Events by the times at which they happened, and how many of them fall into one window. -/

namespace Uniset.Lib

/-- Of the times, no interval of length `w` has more than `n`. -/
def AtMostWithin (n w : Nat) (times : List Nat) : Prop :=
  ∀ start, times.countP (fun r => start ≤ r ∧ r ≤ start + w) ≤ n

variable {n w : Nat} {recent past : List Nat}

theorem AtMostWithin.nil : AtMostWithin n w [] := fun _ => Nat.zero_le n

theorem AtMostWithin.append {limit : Nat} (hpast : AtMostWithin n w past)
    (hrecent : recent.length ≤ n) (hbefore : ∀ r ∈ past, r + w < limit)
    (hafter : ∀ r ∈ recent, limit ≤ r) : AtMostWithin n w (recent ++ past) := by
  intro start
  rw [List.countP_append]
  by_cases hlimit : start + w < limit
  · -- the window ends before the recent times begin
    have hnone : recent.countP (fun r => start ≤ r ∧ r ≤ start + w) = 0 := by
      apply List.countP_eq_zero.mpr
      intro r hr hin
      have hr' := hafter r hr
      have hend := (of_decide_eq_true hin).2
      omega
    rw [hnone, Nat.zero_add]
    exact hpast start
  · have hnone : past.countP (fun r => start ≤ r ∧ r ≤ start + w) = 0 := by
      apply List.countP_eq_zero.mpr
      intro r hr hin
      have hr' := hbefore r hr
      have hbegin := (of_decide_eq_true hin).1
      omega
    rw [hnone, Nat.add_zero]
    exact Nat.le_trans List.countP_le_length hrecent

end Uniset.Lib
