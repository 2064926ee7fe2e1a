import Mathlib.Data.List.Induction

/-! Lists of writes to keyed cells, the last write to a key wins. -/

universe u v

namespace Uniset.Lib

variable {κ : Type u} {α : Type v}

section lastWrite

variable [DecidableEq κ]

/-- The value the writes leave at a key, if they touch it. -/
def lastWrite (l : List (κ × α)) (k : κ) : Option α :=
  l.foldl (fun acc w => if w.1 = k then some w.2 else acc) none

@[simp] theorem lastWrite_nil (k : κ) : lastWrite ([] : List (κ × α)) k = none := rfl

@[simp] theorem lastWrite_concat (l : List (κ × α)) (w : κ × α) (k : κ) :
    lastWrite (l ++ [w]) k = if w.1 = k then some w.2 else lastWrite l k := by
  simp [lastWrite]

theorem lastWrite_mem {l : List (κ × α)} {k : κ} {a : α} (h : lastWrite l k = some a) :
    (k, a) ∈ l := by
  induction l using List.reverseRecOn with
  | nil => cases h
  | append_singleton l w ih =>
    rw [lastWrite_concat] at h
    split at h
    · rename_i hk
      cases h
      exact List.mem_append_right _ (by simp [← hk])
    · exact List.mem_append_left _ (ih h)

end lastWrite

/-- Two lists of writes that never meet. -/
def DisjointWrites (l l' : List (κ × α)) : Prop := ∀ w ∈ l, ∀ w' ∈ l', w.1 ≠ w'.1

theorem DisjointWrites.symm {l l' : List (κ × α)} (h : DisjointWrites l l') :
    DisjointWrites l' l := fun w hw w' hw' heq => h w' hw' w hw heq.symm

theorem DisjointWrites.lastWrite_eq_none [DecidableEq κ] {l l' : List (κ × α)}
    (h : DisjointWrites l l') {k : κ} {a : α} (hk : lastWrite l k = some a) :
    lastWrite l' k = none := by
  cases hk' : lastWrite l' k with
  | none => rfl
  | some a' => exact absurd rfl (h (k, a) (lastWrite_mem hk) (k, a') (lastWrite_mem hk'))

end Uniset.Lib
