import Mathlib.Data.List.Basic

/-! Loops over a doubly linked list that may erase the element they stand at.  The elements and
the end of the list make a ring. -/

universe u v

namespace Uniset.Lib

/-- A list and a place in it: at an element, or at the end. -/
structure ListCursor (α : Type u) where
  items : List α
  pos : Nat
  pos_le : pos ≤ items.length

namespace ListCursor

variable {α : Type u} {σ : Type v}

def start (items : List α) : ListCursor α := ⟨items, 0, Nat.zero_le _⟩

def next (c : ListCursor α) : ListCursor α where
  items := c.items
  pos := if c.pos = c.items.length then 0 else c.pos + 1
  pos_le := by
    split
    · exact Nat.zero_le _
    · exact Nat.lt_of_le_of_ne c.pos_le ‹_›

def prev (c : ListCursor α) : ListCursor α where
  items := c.items
  pos := if c.pos = 0 then c.items.length else c.pos - 1
  pos_le := by
    split
    · exact Nat.le_refl _
    · exact Nat.le_trans (Nat.sub_le _ _) c.pos_le

/-- The cursor comes to stand at the element after the erased one. -/
def erase (c : ListCursor α) (h : c.pos < c.items.length) : ListCursor α where
  items := c.items.eraseIdx c.pos
  pos := c.pos
  pos_le := by
    rw [List.length_eraseIdx_of_lt h]
    exact Nat.le_sub_one_of_lt h

def set (c : ListCursor α) (a : α) : ListCursor α where
  items := c.items.set c.pos a
  pos := c.pos
  pos_le := by
    rw [List.length_set]
    exact c.pos_le

/-- A step back and a step forward, also over the end. -/
theorem next_prev (c : ListCursor α) : c.prev.next = c := by
  obtain ⟨items, pos, hle⟩ := c
  by_cases hpos : pos = 0
  · simp [prev, next, hpos]
  · simp only [prev, next, hpos, ite_false, mk.injEq, true_and]
    split <;> omega

/-- A loop from the cursor to the end.  What it stands at is replaced, or erased with a step back
before the step forward. -/
def sweep (f : α → σ → Option α × σ) : Nat → ListCursor α → σ → Option (List α × σ)
  | 0, _, _ => none
  | fuel + 1, c, s =>
    if h : c.pos < c.items.length then
      match f c.items[c.pos] s with
      | (some a, s) => sweep f fuel (c.set a).next s
      | (none, s) => sweep f fuel (c.erase h).prev.next s
    else some (c.items, s)

/-- The same over the elements alone. -/
def sweepList (f : α → σ → Option α × σ) : List α → σ → List α × σ
  | [], s => ([], s)
  | a :: l, s =>
    let rest := sweepList f l (f a s).2
    ((f a s).1.toList ++ rest.1, rest.2)

theorem sweep_append {f : α → σ → Option α × σ} {fuel : Nat} (done : List α) {l : List α} {s : σ}
    (hfuel : l.length < fuel) (h : done.length ≤ (done ++ l).length) :
    sweep f fuel ⟨done ++ l, done.length, h⟩ s =
      some (done ++ (sweepList f l s).1, (sweepList f l s).2) := by
  induction fuel generalizing done l s with
  | zero => omega
  | succ fuel ih =>
    cases l with
    | nil => simp [sweep, sweepList]
    | cons a l =>
      have hlt : done.length < (done ++ a :: l).length := by simp
      have hfuel' : l.length < fuel := Nat.lt_of_succ_lt_succ hfuel
      rw [sweep, dif_pos hlt, sweepList]
      have hat : (done ++ a :: l)[done.length] = a := by simp
      rw [hat]
      rcases f a s with ⟨_ | b, s'⟩
      · simp only [next_prev, erase]
        have herase : (done ++ a :: l).eraseIdx done.length = done ++ l := by
          rw [List.eraseIdx_append_of_length_le (Nat.le_refl _), Nat.sub_self]
          rfl
        simp only [herase]
        exact ih done hfuel' (by simp)
      · have hset : (set ⟨done ++ a :: l, done.length, h⟩ b).next =
            ⟨(done ++ [b]) ++ l, (done ++ [b]).length, by simp⟩ := by
          simp [set, next]
        simp only [hset]
        rw [ih (done ++ [b]) hfuel' _]
        simp

/-- Every element is met once, in the order of the list, whichever of them are erased. -/
theorem sweep_start (f : α → σ → Option α × σ) (l : List α) (s : σ) {fuel : Nat}
    (hfuel : l.length < fuel) : sweep f fuel (start l) s = some (sweepList f l s) :=
  sweep_append [] hfuel (Nat.zero_le _)

end ListCursor

end Uniset.Lib
