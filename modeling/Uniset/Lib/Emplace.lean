import Mathlib.Data.List.Basic
import Mathlib.Logic.Function.Basic
import Mathlib.Tactic.Common

/-! Tables that are filled from a list and keep, of several elements with one key, the first. -/

namespace Uniset.Lib

variable {ε κ α : Type*} [DecidableEq κ]

def emplace (m : κ → Option α) (k : κ) (a : α) : κ → Option α :=
  if (m k).isSome then m else Function.update m k (some a)

theorem emplace_apply (m : κ → Option α) (k : κ) (a : α) (k' : κ) :
    emplace m k a k' = (m k').or (if k = k' then some a else none) := by
  unfold emplace
  split_ifs with hsome heq heq
  · obtain ⟨b, hb⟩ := Option.isSome_iff_exists.mp hsome
    rw [← heq, hb, Option.some_or]
  · rw [Option.or_none]
  · rw [← heq, Function.update_self, Option.not_isSome_iff_eq_none.mp hsome, Option.none_or]
  · rw [Function.update_of_ne (Ne.symm heq), Option.or_none]

theorem foldl_emplace (key : ε → κ) (val : ε → α) (l : List ε) (m : κ → Option α) (k : κ) :
    l.foldl (fun m e => emplace m (key e) (val e)) m k =
      (m k).or ((l.find? fun e => key e = k).map val) := by
  induction l generalizing m with
  | nil => exact Option.or_none.symm
  | cons e l ih =>
    rw [List.foldl_cons, ih, emplace_apply, Option.or_assoc, List.find?_cons]
    by_cases h : key e = k <;> simp [h]

/-- Each element is found as itself exactly if those with one key do not differ. -/
theorem find_map_eq_iff (key : ε → κ) (val : ε → α) (l : List ε) :
    (∀ e ∈ l, (l.find? fun e' => key e' = key e).map val = some (val e)) ↔
      ∀ e ∈ l, ∀ e' ∈ l, key e = key e' → val e = val e' := by
  constructor
  · intro h e he e' he' heq
    have hfound := h e he
    rw [heq, h e' he'] at hfound
    exact (Option.some.inj hfound).symm
  · intro h e he
    obtain ⟨e', he'⟩ := Option.isSome_iff_exists.mp
      (List.find?_isSome (p := fun e' => key e' = key e) |>.mpr ⟨e, he, decide_eq_true rfl⟩)
    rw [he', Option.map_some]
    have hkey : key e' = key e := by simpa using List.find?_some he'
    exact congrArg some (h e' (List.mem_of_find?_eq_some he') e he hkey)

end Uniset.Lib
