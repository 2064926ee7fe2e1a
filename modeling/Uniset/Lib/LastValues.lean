import Mathlib.Data.List.DropRight
import Mathlib.Tactic.Common

/-! A window of a fixed length over a growing list: it shows the last values, and in the places
older than all of them something else. -/

namespace Uniset.Lib

variable {α : Type*}

/-- In front of the last values there are only such as an older place may have. -/
structure ShowsLast (old : α → Prop) (n : Nat) (added window : List α) : Prop where
  length : window.length = n
  last : ∃ older, window = older ++ added.rtake n ∧ ∀ x ∈ older, old x

variable {old : α → Prop} {n m : Nat} {added window : List α} {a : α}

theorem length_rtake (n : Nat) (l : List α) : (l.rtake n).length = min n l.length := by
  rw [List.rtake, List.length_drop]
  omega

theorem rtake_of_length_le (h : added.length ≤ n) : added.rtake n = added := by
  rw [List.rtake, Nat.sub_eq_zero_of_le h, List.drop_zero]

namespace ShowsLast

theorem replicate (h : old a) (n : Nat) : ShowsLast old n [] (List.replicate n a) := by
  refine ⟨List.length_replicate, List.replicate n a, ?_, fun x hx => ?_⟩
  · rw [List.rtake_nil, List.append_nil]
  · exact List.eq_of_mem_replicate hx ▸ h

theorem mono {old' : α → Prop} (hle : ∀ x, old x → old' x) (h : ShowsLast old n added window) :
    ShowsLast old' n added window := by
  obtain ⟨hlength, older, hwindow, hold⟩ := h
  exact ⟨hlength, older, hwindow, fun x hx => hle x (hold x hx)⟩

/-- The oldest place is given up for one more value. -/
theorem push (hn : 0 < n) (h : ShowsLast old n added window) (a : α) :
    ShowsLast old n (added ++ [a]) (window.tail ++ [a]) := by
  obtain ⟨hlength, older, rfl, hold⟩ := h
  rw [List.length_append, length_rtake] at hlength
  obtain ⟨k, rfl⟩ := Nat.exists_eq_add_of_lt hn
  rw [Nat.zero_add] at *
  refine ⟨?_, older.tail, ?_, fun x hx => hold x (List.mem_of_mem_tail hx)⟩
  · simp only [List.length_append, List.length_tail, length_rtake, List.length_singleton]
    omega
  rw [List.rtake_concat_succ, ← List.append_assoc]
  refine congrArg (· ++ [a]) ?_
  cases older with
  | nil =>
    rw [List.length_nil] at hlength
    rw [List.nil_append, List.tail_nil, List.nil_append, List.rtake, List.tail_drop, List.rtake]
    congr 1
    omega
  | cons x older =>
    -- not all the places were taken, so the values added are all there
    rw [List.length_cons] at hlength
    rw [List.cons_append, List.tail_cons, List.tail_cons, rtake_of_length_le (by omega),
      rtake_of_length_le (by omega)]

theorem shrink (hm : m ≤ n) (h : ShowsLast old n added window) :
    ShowsLast old m added (window.drop (n - m)) := by
  obtain ⟨hlength, older, rfl, hold⟩ := h
  refine ⟨?_, older.drop (n - m), ?_, fun x hx => hold x (List.mem_of_mem_drop hx)⟩
  · rw [List.length_drop, hlength]
    omega
  rw [List.length_append, length_rtake] at hlength
  rw [List.drop_append, List.rtake, List.drop_drop, List.rtake]
  congr 2
  omega

/-- Places at the wrong end show the last values only if these are like the new places. -/
theorem grow (hm : n ≤ m) (hold : old a) (hadded : ∀ x ∈ added.rtake m, x = a)
    (h : ShowsLast old n added window) :
    ShowsLast old m added (window ++ List.replicate (m - n) a) := by
  obtain ⟨hlength, older, rfl, holder⟩ := h
  have hlast : added.rtake m = List.replicate (min m added.length) a :=
    List.eq_replicate_iff.mpr ⟨length_rtake m added, hadded⟩
  have hkept : added.rtake n = List.replicate (min n added.length) a := by
    refine List.eq_replicate_iff.mpr ⟨length_rtake n added, fun x hx => hadded x ?_⟩
    exact List.drop_subset_drop_left added (by omega) hx
  refine ⟨?_, older ++ List.replicate (m - n + min n added.length - min m added.length) a, ?_, ?_⟩
  · rw [List.length_append, hlength, List.length_replicate]
    omega
  · rw [hkept, hlast, List.append_assoc, List.append_assoc, List.replicate_append_replicate,
      List.replicate_append_replicate]
    congr 2
    omega
  · intro x hx
    rcases List.mem_append.mp hx with hx | hx
    · exact holder x hx
    · exact List.eq_of_mem_replicate hx ▸ hold

end ShowsLast

end Uniset.Lib
