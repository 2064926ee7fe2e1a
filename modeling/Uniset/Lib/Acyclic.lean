import Mathlib.Data.Fintype.EquivFin
import Mathlib.Data.List.Basic
import Mathlib.Data.List.Perm.Subperm
import Mathlib.Logic.Relation
import Mathlib.Order.WellFounded

/-! Relations without cycles. -/

universe u

namespace Uniset.Lib

open Relation

variable {α : Type u}

def Acyclic (R : α → α → Prop) : Prop := ∀ x, ¬TransGen R x x

namespace Acyclic

variable {R S : α → α → Prop} {a b x y : α}

theorem mono (h : Acyclic S) (hle : ∀ x y, R x y → S x y) : Acyclic R :=
  fun x hx => h x (TransGen.mono hle x x hx)

theorem not_reflTransGen (h : Acyclic R) (hab : R a b) : ¬ReflTransGen R b a :=
  fun hba => h a (.head' hab hba)

theorem ne_of_transGen (h : Acyclic R) (hab : TransGen R a b) : a ≠ b := by
  intro heq
  rw [heq] at hab
  exact h b hab

/-- A path that may use one more edge does without it, or comes to its start and goes on from
its end. -/
theorem transGen_edge (h : TransGen (fun x y => R x y ∨ (x = a ∧ y = b)) x y) :
    TransGen R x y ∨ (ReflTransGen R x a ∧ ReflTransGen R b y) := by
  induction h with
  | single hxy =>
    rcases hxy with hxy | ⟨rfl, rfl⟩
    · exact .inl (.single hxy)
    · exact .inr ⟨.refl, .refl⟩
  | tail _ hyz ih =>
    rcases hyz with hyz | ⟨rfl, rfl⟩
    · exact ih.imp (fun h => h.tail hyz) fun h => ⟨h.1, h.2.tail hyz⟩
    · exact .inr ⟨ih.elim (fun h => h.to_reflTransGen) And.left, .refl⟩

/-- One more edge closes a cycle when its end already led to its start, and only then. -/
theorem edge_iff (h : Acyclic R) :
    Acyclic (fun x y => R x y ∨ (x = a ∧ y = b)) ↔ ¬ReflTransGen R b a := by
  constructor
  · intro hedge hba
    exact hedge a (.head' (.inr ⟨rfl, rfl⟩) (ReflTransGen.mono (fun _ _ => Or.inl) b a hba))
  · intro hba x hx
    cases transGen_edge hx with
    | inl hcycle => exact h x hcycle
    | inr hthrough => exact hba (hthrough.2.trans hthrough.1)

theorem swap (h : Acyclic R) : Acyclic (Function.swap R) := fun x hx => h x (transGen_swap.mp hx)

/-- Over finitely many items, induction against the edges. -/
theorem wellFounded [Finite α] (h : Acyclic R) : WellFounded (Function.swap R) := by
  have hirrefl : Std.Irrefl (TransGen (Function.swap R)) :=
    ⟨h.swap⟩
  have hwf : WellFounded (TransGen (Function.swap R)) := Finite.wellFounded_of_trans_of_irrefl _
  exact Subrelation.wf (fun hxy => TransGen.single hxy) hwf

/-- A path visits no item twice. -/
theorem length_le [Fintype α] (h : Acyclic R) {l : List α} (hl : l.IsChain R) :
    l.length ≤ Fintype.card α := by
  have htrans : l.Pairwise (TransGen R) := (hl.imp fun _ _ => TransGen.single).pairwise
  exact List.Nodup.length_le_card (htrans.imp fun hxy => h.ne_of_transGen hxy)

/-- A rank that rises along the edges excludes cycles. -/
theorem of_rank (rank : α → Nat) (hrank : ∀ x y, R x y → rank x < rank y) : Acyclic R := by
  have hrise : ∀ {x y}, TransGen R x y → rank x < rank y := by
    intro x y h
    induction h with
    | single hxy => exact hrank _ _ hxy
    | tail _ hyz ih => exact Nat.lt_trans ih (hrank _ _ hyz)
  exact fun x hx => Nat.lt_irrefl _ (hrise hx)

theorem length_le_of_subset (h : Acyclic R) {l items : List α} (hl : l.IsChain R)
    (hsub : l ⊆ items) : l.length ≤ items.length := by
  have htrans : l.Pairwise (TransGen R) := (hl.imp fun _ _ => TransGen.single).pairwise
  have hnodup : l.Nodup := htrans.imp fun hxy => h.ne_of_transGen hxy
  exact (hnodup.subperm hsub).length_le

end Acyclic

end Uniset.Lib

/-! Lists in which every item comes after all that it depends on. -/

namespace Uniset.Lib

variable {α : Type u}

/-- Every item comes after all that it depends on. -/
def TopologicalOrder (R : α → α → Prop) (l : List α) : Prop :=
  ∀ before a after, l = before ++ a :: after → ∀ b, R a b → b ∈ before

namespace TopologicalOrder

variable {R : α → α → Prop} {l : List α} {a b : α}

theorem nil : TopologicalOrder R [] := by
  intro before a after h
  simp at h

theorem concat (h : TopologicalOrder R l) (ha : ∀ b, R a b → b ∈ l) :
    TopologicalOrder R (l ++ [a]) := by
  intro before c after hsplit b hb
  rcases List.eq_nil_or_concat after with rfl | ⟨after, d, rfl⟩
  · obtain ⟨rfl, hc⟩ := List.append_inj' hsplit rfl
    cases hc
    exact ha b hb
  · have hsplit' : l ++ [a] = (before ++ c :: after) ++ [d] := by simpa using hsplit
    obtain ⟨hl, -⟩ := List.append_inj' hsplit' rfl
    exact h before c after hl b hb

theorem mem (h : TopologicalOrder R l) (ha : a ∈ l) (hb : R a b) : b ∈ l := by
  obtain ⟨before, after, rfl⟩ := List.append_of_mem ha
  exact List.mem_append_left _ (h before a after rfl b hb)

variable [DecidableEq α]

theorem idxOf_lt (h : TopologicalOrder R l) (ha : a ∈ l) (hb : R a b) :
    l.idxOf b < l.idxOf a := by
  obtain ⟨before, after, hsplit, hfirst⟩ := List.eq_append_cons_of_mem ha
  have hbefore := h before a after hsplit b hb
  rw [hsplit, List.idxOf_append_of_mem hbefore, List.idxOf_append_of_notMem hfirst]
  exact Nat.lt_add_right _ (List.idxOf_lt_length_of_mem hbefore)

theorem idxOf_lt_of_transGen (h : TopologicalOrder R l) (ha : a ∈ l)
    (hb : Relation.TransGen R a b) : b ∈ l ∧ l.idxOf b < l.idxOf a := by
  induction hb with
  | single hb => exact ⟨h.mem ha hb, h.idxOf_lt ha hb⟩
  | tail _ hc ih => exact ⟨h.mem ih.1 hc, Nat.lt_trans (h.idxOf_lt ih.1 hc) ih.2⟩

/-- What has been put in order has no cycle. -/
theorem acyclic (h : TopologicalOrder R l) (ha : a ∈ l) : ¬Relation.TransGen R a a :=
  fun hcycle => Nat.lt_irrefl _ (h.idxOf_lt_of_transGen ha hcycle).2

end TopologicalOrder

end Uniset.Lib
