import Mathlib.Algebra.Order.Group.Defs
import Mathlib.Algebra.Order.Sub.Basic

/-! A signal that is looked at from time to time. -/

namespace Uniset.Lib

/-- What is seen at each look, and when. -/
structure TimedSignal (T : Type*) [Preorder T] where
  sees : Nat → Bool
  time : Nat → T
  mono : Monotone time

namespace TimedSignal

section Runs

variable {T : Type*} [Preorder T] (s : TimedSignal T)

/-- It is `v` at all looks from one to another. -/
def Held (v : Bool) (k n : Nat) : Prop := ∀ i, k ≤ i → i ≤ n → s.sees i = v

/-- It has been `v` since the look at `k`, and was not before. -/
structure Since (v : Bool) (k n : Nat) : Prop where
  le : k ≤ n
  held : s.Held v k n
  first : k = 0 ∨ s.sees (k - 1) = !v

/-- It is true, and was not at the look before. -/
def rises : Nat → Bool
  | 0 => s.sees 0
  | n + 1 => s.sees (n + 1) && !s.sees n

variable {s} {v : Bool} {k n : Nat}

theorem held_succ : s.Held v k (n + 1) ↔ (k ≤ n + 1 → s.sees (n + 1) = v) ∧ s.Held v k n := by
  constructor
  · intro h
    exact ⟨fun hk => h (n + 1) hk le_rfl, fun i hk hn => h i hk (Nat.le_succ_of_le hn)⟩
  · rintro ⟨hlast, h⟩ i hk hi
    rcases Nat.le_succ_iff.mp hi with hi | rfl
    · exact h i hk hi
    · exact hlast hk

theorem since_zero : s.Since v k 0 ↔ k = 0 ∧ s.sees 0 = v := by
  constructor
  · intro h
    obtain rfl := Nat.le_zero.mp h.le
    exact ⟨rfl, h.held 0 le_rfl le_rfl⟩
  · rintro ⟨rfl, hv⟩
    refine ⟨le_rfl, fun i _ hi => ?_, .inl rfl⟩
    rwa [Nat.le_zero.mp hi]

/-- It goes on, or begins. -/
theorem since_succ : s.Since v k (n + 1) ↔
    s.sees (n + 1) = v ∧ (s.Since v k n ∨ k = n + 1 ∧ s.sees n = !v) := by
  constructor
  · intro h
    refine ⟨h.held (n + 1) h.le le_rfl, ?_⟩
    rcases Nat.le_succ_iff.mp h.le with hk | rfl
    · exact .inl ⟨hk, (held_succ.mp h.held).2, h.first⟩
    · exact .inr ⟨rfl, h.first.resolve_left (Nat.succ_ne_zero n)⟩
  · rintro ⟨hlast, h | ⟨rfl, hbefore⟩⟩
    · exact ⟨Nat.le_succ_of_le h.le, held_succ.mpr ⟨fun _ => hlast, h.held⟩, h.first⟩
    · refine ⟨le_rfl, fun i hle hge => ?_, .inr hbefore⟩
      rwa [Nat.le_antisymm hge hle]

theorem Since.sees_eq (h : s.Since v k n) : s.sees n = v := h.held n h.le le_rfl

theorem Since.unique {k' : Nat} (h : s.Since v k n) (h' : s.Since v k' n) : k = k' := by
  induction n with
  | zero => rw [(since_zero.mp h).1, (since_zero.mp h').1]
  | succ n ih =>
    rcases (since_succ.mp h).2 with h | ⟨rfl, hn⟩ <;> rcases (since_succ.mp h').2 with h' | ⟨rfl, hn'⟩
    · exact ih h h'
    · rw [h.sees_eq] at hn'
      cases v <;> cases hn'
    · rw [h'.sees_eq] at hn
      cases v <;> cases hn
    · rfl

theorem exists_since (s : TimedSignal T) (n : Nat) : ∃ k, s.Since (s.sees n) k n := by
  induction n with
  | zero => exact ⟨0, since_zero.mpr ⟨rfl, rfl⟩⟩
  | succ n ih =>
    obtain ⟨k, hk⟩ := ih
    by_cases hsame : s.sees n = s.sees (n + 1)
    · rw [hsame] at hk
      exact ⟨k, since_succ.mpr ⟨rfl, .inl hk⟩⟩
    · exact ⟨n + 1, since_succ.mpr ⟨rfl, .inr ⟨rfl, Bool.eq_not_of_ne hsame⟩⟩⟩

/-- What is held is held since a look that is not later. -/
theorem Since.le_of_held {j : Nat} (h : s.Since v k n) (held : s.Held v j n) : k ≤ j := by
  rcases h.first with rfl | hbefore
  · exact Nat.zero_le j
  · by_contra hlt
    have hv : s.sees (k - 1) = v := held (k - 1) (by omega) ((Nat.sub_le k 1).trans h.le)
    rw [hbefore] at hv
    cases v <;> cases hv

end Runs

variable {T : Type*} [AddCommGroup T] [LinearOrder T] [IsOrderedAddMonoid T] {s : TimedSignal T}
  {v : Bool} {k n : Nat}

/-- Held for a time is held for that time since it began. -/
theorem Since.held_for_iff (h : s.Since v k n) (d : T) :
    (∃ j ≤ n, s.Held v j n ∧ d ≤ s.time n - s.time j) ↔ d ≤ s.time n - s.time k := by
  constructor
  · rintro ⟨j, -, held, hd⟩
    exact hd.trans (sub_le_sub_left (s.mono (h.le_of_held held)) _)
  · intro hd
    exact ⟨k, h.le, h.held, hd⟩

end TimedSignal

end Uniset.Lib
