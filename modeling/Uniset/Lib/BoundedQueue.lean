import Mathlib.Data.List.Basic

/-! A queue of at most `capacity` items, first in first out.  What does not fit is either
refused or takes the place of the oldest. -/

universe u

namespace Uniset.Lib

structure BoundedQueue (α : Type u) (capacity : Nat) where
  items : List α
  bounded : items.length ≤ capacity

namespace BoundedQueue

variable {α : Type u} {capacity : Nat}

def empty : BoundedQueue α capacity := ⟨[], Nat.zero_le _⟩

def Full (q : BoundedQueue α capacity) : Prop := q.items.length = capacity

instance (q : BoundedQueue α capacity) : Decidable q.Full := inferInstanceAs (Decidable (_ = _))

/-- The new item is refused where there is no room. -/
def pushOrRefuse (q : BoundedQueue α capacity) (a : α) : BoundedQueue α capacity × Bool :=
  if h : q.items.length < capacity then
    (⟨q.items ++ [a], by simpa using Nat.succ_le_of_lt h⟩, true)
  else (q, false)

/-- The oldest item makes room for the new one. -/
def pushOver (q : BoundedQueue α capacity) (a : α) : BoundedQueue α capacity :=
  ⟨(q.items ++ [a]).drop (q.items.length + 1 - capacity), by
    have h := q.bounded
    simp only [List.length_drop, List.length_append, List.length_singleton]
    omega⟩

def pop (q : BoundedQueue α capacity) : BoundedQueue α capacity × Option α :=
  (⟨q.items.tail, by
    have h := q.bounded
    rw [List.length_tail]
    omega⟩, q.items.head?)

variable {q : BoundedQueue α capacity} {a : α}

@[ext] theorem ext {q q' : BoundedQueue α capacity} (h : q.items = q'.items) : q = q' := by
  cases q
  cases q'
  cases h
  rfl

theorem pushOrRefuse_of_full (h : q.Full) : q.pushOrRefuse a = (q, false) :=
  dif_neg (Nat.not_lt.mpr (Nat.le_of_eq h.symm))

theorem pushOrRefuse_of_not_full (h : ¬q.Full) :
    (q.pushOrRefuse a).1.items = q.items ++ [a] ∧ (q.pushOrRefuse a).2 = true := by
  have hroom : q.items.length < capacity := Nat.lt_of_le_of_ne q.bounded h
  rw [pushOrRefuse, dif_pos hroom]
  exact ⟨rfl, rfl⟩

theorem pushOver_items :
    (q.pushOver a).items = (q.items ++ [a]).drop (q.items.length + 1 - capacity) := rfl

theorem pushOver_of_not_full (h : ¬q.Full) : (q.pushOver a).items = q.items ++ [a] := by
  have hroom : q.items.length < capacity := Nat.lt_of_le_of_ne q.bounded h
  rw [pushOver_items, Nat.sub_eq_zero_of_le hroom, List.drop_zero]

theorem pushOver_of_full (hpos : 0 < capacity) (h : q.Full) :
    (q.pushOver a).items = q.items.tail ++ [a] := by
  have hone : q.items.length + 1 - capacity = 1 := by
    have hlength : q.items.length = capacity := h
    omega
  rw [pushOver_items, hone]
  cases hitems : q.items with
  | nil =>
    have hlength : q.items.length = capacity := h
    rw [hitems] at hlength
    exact absurd hlength (Nat.ne_of_lt hpos)
  | cons b items => rfl

end BoundedQueue

end Uniset.Lib
