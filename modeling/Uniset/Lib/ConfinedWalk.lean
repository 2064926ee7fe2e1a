import Mathlib.Algebra.Order.Group.MinMax
import Mathlib.Algebra.BigOperators.Group.List.Basic
import Mathlib.Algebra.Order.Group.Basic
import Mathlib.Data.List.Infix

/-! Walks that are stopped at a bound.  The steps are given from the latest on, and what has
happened lately is an initial part of them. -/

universe u

namespace Uniset.Lib

variable {α : Type u}

/-- A property of the initial parts of a list that is not empty. -/
theorem exists_prefix_cons {d : α} {ds : List α} {P : List α → Prop} (hnil : ¬P []) :
    (∃ p, p <+: d :: ds ∧ P p) ↔ ∃ p, p <+: ds ∧ P (d :: p) := by
  constructor
  · rintro ⟨p, hp, hP⟩
    obtain rfl | ⟨q, rfl, hq⟩ := List.prefix_cons_iff.mp hp
    · exact absurd hP hnil
    · exact ⟨q, hq, hP⟩
  · rintro ⟨p, hp, hP⟩
    exact ⟨d :: p, List.cons_prefix_cons.mpr ⟨rfl, hp⟩, hP⟩

theorem forall_prefix_cons {d : α} {ds : List α} {P : List α → Prop} :
    (∀ p, p <+: d :: ds → P p) ↔ P [] ∧ ∀ p, p <+: ds → P (d :: p) := by
  constructor
  · intro hall
    exact ⟨hall [] (List.nil_prefix), fun p hp => hall _ (List.cons_prefix_cons.mpr ⟨rfl, hp⟩)⟩
  · rintro ⟨hnil, hcons⟩ p hp
    obtain rfl | ⟨q, rfl, hq⟩ := List.prefix_cons_iff.mp hp
    · exact hnil
    · exact hcons q hq

variable [AddCommGroup α] [LinearOrder α] {lo hi v : α}

/-- From `hi` on, the walk stays between `lo` and `hi`. -/
def confined (lo hi : α) : List α → α
  | [] => hi
  | d :: ds => max lo (min hi (confined lo hi ds + d))

/-- From `start` on, the walk does not go below `lo`. -/
def reflected (lo start : α) : List α → α
  | [] => start
  | d :: ds => max lo (reflected lo start ds + d)

theorem confined_le (hlo : lo ≤ hi) (ds : List α) : confined lo hi ds ≤ hi := by
  cases ds with
  | nil => exact le_refl hi
  | cons d ds => exact max_le hlo (min_le_left _ _)

theorem le_confined (hlo : lo ≤ hi) (ds : List α) : lo ≤ confined lo hi ds := by
  cases ds with
  | nil => exact hlo
  | cons d ds => exact le_max_left _ _

theorem le_reflected {start : α} (hstart : lo ≤ start) (ds : List α) :
    lo ≤ reflected lo start ds := by
  cases ds with
  | nil => exact hstart
  | cons d ds => exact le_max_left _ _

variable [IsOrderedAddMonoid α]

/-- The walk is down at `v` exactly if some latest steps lead from the upper bound to `v`, and all
of them from the lower bound not above it. -/
theorem confined_le_iff (hlo : lo ≤ v) (hv : v < hi) (ds : List α) :
    confined lo hi ds ≤ v ↔
      ∃ p, p <+: ds ∧ hi + p.sum ≤ v ∧ ∀ q, q <+: p → lo + q.sum ≤ v := by
  induction ds generalizing v with
  | nil =>
    refine iff_of_false (not_le_of_gt hv) ?_
    rintro ⟨p, hp, hsum, -⟩
    rw [List.prefix_nil.mp hp, List.sum_nil, add_zero] at hsum
    exact not_le_of_gt hv hsum
  | cons d ds ih =>
    have hstep : confined lo hi (d :: ds) ≤ v ↔ confined lo hi ds ≤ v - d := by
      rw [confined, max_le_iff, min_le_iff, le_sub_iff_add_le]
      exact ⟨fun h => h.2.resolve_left (not_le_of_gt hv), fun h => ⟨hlo, .inr h⟩⟩
    have hnil : ¬(hi + ([] : List α).sum ≤ v ∧ ∀ q, q <+: [] → lo + q.sum ≤ v) := by
      rw [List.sum_nil, add_zero]
      exact fun h => not_le_of_gt hv h.1
    rw [hstep, exists_prefix_cons hnil]
    have hparts : ∀ p : List α, (hi + (d :: p).sum ≤ v ∧ ∀ q, q <+: d :: p → lo + q.sum ≤ v) ↔
        hi + p.sum ≤ v - d ∧ ∀ q, q <+: p → lo + q.sum ≤ v - d := by
      intro p
      have hcons : ∀ (x : α) (q : List α), x + (d :: q).sum ≤ v ↔ x + q.sum ≤ v - d := by
        intro x q
        rw [List.sum_cons, le_sub_iff_add_le, add_assoc, add_comm d]
      rw [forall_prefix_cons, hcons]
      simp only [hcons, List.sum_nil, add_zero]
      exact and_congr_right fun _ => and_iff_right hlo
    simp only [hparts]
    by_cases hbelow : v - d < lo
    · refine iff_of_false ?_ ?_
      · exact fun h => not_lt_of_ge h (lt_of_lt_of_le hbelow (le_confined (hlo.trans hv.le) ds))
      · rintro ⟨p, -, -, hall⟩
        have hzero := hall [] List.nil_prefix
        rw [List.sum_nil, add_zero] at hzero
        exact not_lt_of_ge hzero hbelow
    · have hge : lo ≤ v - d := le_of_not_gt hbelow
      by_cases habove : v - d < hi
      · exact ih hge habove
      · refine iff_of_true ((confined_le (hlo.trans hv.le) ds).trans (le_of_not_gt habove)) ?_
        refine ⟨[], List.nil_prefix, ?_, fun q hq => ?_⟩
        · rw [List.sum_nil, add_zero]
          exact le_of_not_gt habove
        · rw [List.prefix_nil.mp hq, List.sum_nil, add_zero]
          exact hge

/-- The walk is up at `v` exactly if all its steps lead there, or some latest ones from the lower
bound. -/
theorem le_reflected_iff {start : α} (hstart : lo ≤ start) (hv : lo < v) (ds : List α) :
    v ≤ reflected lo start ds ↔ v ≤ start + ds.sum ∨ ∃ p, p <+: ds ∧ v ≤ lo + p.sum := by
  induction ds generalizing v with
  | nil =>
    rw [List.sum_nil, add_zero]
    refine ⟨.inl, fun h => h.elim id ?_⟩
    rintro ⟨p, hp, hsum⟩
    rw [List.prefix_nil.mp hp, List.sum_nil, add_zero] at hsum
    exact absurd hsum (not_le_of_gt hv)
  | cons d ds ih =>
    have hstep : v ≤ reflected lo start (d :: ds) ↔ v - d ≤ reflected lo start ds := by
      rw [reflected, le_max_iff, sub_le_iff_le_add]
      exact ⟨fun h => h.resolve_left (not_le_of_gt hv), .inr⟩
    have hnil : ¬v ≤ lo + ([] : List α).sum := by
      rw [List.sum_nil, add_zero]
      exact not_le_of_gt hv
    have hcons : ∀ (x : α) (q : List α), v ≤ x + (d :: q).sum ↔ v - d ≤ x + q.sum := by
      intro x q
      rw [List.sum_cons, sub_le_iff_le_add, add_assoc, add_comm d]
    rw [hstep, exists_prefix_cons hnil]
    simp only [hcons]
    by_cases habove : lo < v - d
    · exact ih habove
    · have hle : v - d ≤ lo := le_of_not_gt habove
      refine iff_of_true (hle.trans (le_reflected hstart ds)) (.inr ⟨[], List.nil_prefix, ?_⟩)
      rw [List.sum_nil, add_zero]
      exact hle

end Uniset.Lib
