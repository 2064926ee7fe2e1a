import Mathlib.Data.List.Chain

/-! A text in the parts between separators. -/

namespace Uniset

/-- `find` of a character, from a place on. -/
def findFrom (str : List Char) (sep : Char) (prev : Nat) : Option Nat :=
  ((str.drop prev).findIdx? (· == sep)).map (prev + ·)

/-- The loop of `explode_str` and of `split_sv`, which differ in the type of the parts.  The fuel is for
its turns. -/
def splitLoop (str : List Char) (sep : Char) : Nat → Nat → List (List Char) → Option (List (List Char))
  | 0, _, _ => none
  | n + 1, prev, v =>
    if str.length ≤ prev then some v
    else
      match findFrom str sep prev with
      | none =>
        let s := str.drop prev
        some (if s ≠ [] then v ++ [s] else v)
      | some pos =>
        if pos = 0 then splitLoop str sep n 1 v
        else
          let s := (str.drop prev).take (pos - prev)
          if s ≠ [] then splitLoop str sep n (pos + 1) (v ++ [s]) else splitLoop str sep n prev v

def explode_str (fuel : Nat) (str : List Char) (sep : Char) : Option (List (List Char)) :=
  splitLoop str sep fuel 0 []

def split_sv (fuel : Nat) (str : List Char) (sep : Char) : Option (List (List Char)) :=
  splitLoop str sep fuel 0 []

/-- The longest parts without a separator. -/
def runs (str : List Char) (sep : Char) : List (List Char) := (str.splitOn sep).filter (· ≠ [])

/-- Both end with the longest parts. -/
def Explodes (str : List Char) (sep : Char) : Prop :=
  ∃ fuel, explode_str fuel str sep = some (runs str sep) ∧ split_sv fuel str sep = some (runs str sep)

/-- No separator stands next to another. -/
def Apart (sep : Char) (str : List Char) : Prop := str.IsChain fun a b => ¬(a = sep ∧ b = sep)

instance (sep : Char) (str : List Char) : Decidable (Apart sep str) :=
  inferInstanceAs (Decidable (str.IsChain _))

variable {str a b rest : List Char} {sep : Char} {n prev : Nat} {v : List (List Char)}

theorem runs_of_notMem (h : sep ∉ a) : runs a sep = [a].filter (· ≠ []) := by
  unfold runs
  rw [List.splitOn_eq_singleton h]

theorem runs_append (h : sep ∉ a) (b : List Char) :
    runs (a ++ sep :: b) sep = [a].filter (· ≠ []) ++ runs b sep := by
  unfold runs
  rw [List.splitOn_append_cons_self, List.splitOn_eq_singleton h, List.filter_append]

theorem findFrom_of_notMem (h : sep ∉ str.drop prev) : findFrom str sep prev = none := by
  unfold findFrom
  rw [List.findIdx?_eq_none_iff.mpr, Option.map_none]
  exact fun c hc => beq_eq_false_iff_ne.mpr fun heq => h (heq ▸ hc)

theorem findFrom_append (h : sep ∉ a) (hrest : str.drop prev = a ++ sep :: b) :
    findFrom str sep prev = some (prev + a.length) := by
  have hnone : a.findIdx? (· == sep) = none := by
    rw [List.findIdx?_eq_none_iff]
    exact fun c hc => beq_eq_false_iff_ne.mpr fun heq => h (heq ▸ hc)
  unfold findFrom
  rw [hrest, List.findIdx?_append, hnone, List.findIdx?_cons]
  simp

theorem apart_append (h : sep ∉ a) : Apart sep (a ++ sep :: b) ↔ Apart sep (sep :: b) := by
  unfold Apart
  induction a with
  | nil => rfl
  | cons c a ih =>
    rw [List.mem_cons, not_or] at h
    rw [List.cons_append, List.isChain_cons, ih h.2]
    exact and_iff_right fun _ _ hboth => h.1 hboth.1.symm

theorem apart_behind (h : sep ∉ a) (ha : a ≠ []) :
    Apart sep (sep :: (a ++ sep :: b)) ↔ Apart sep (sep :: b) := by
  obtain ⟨c, a, rfl⟩ := List.exists_cons_of_ne_nil ha
  have hc : ¬(sep = sep ∧ c = sep) := fun hboth => h (hboth.2 ▸ List.mem_cons_self)
  exact (List.isChain_cons_cons.trans (and_iff_right hc)).trans (apart_append h)

theorem apart_of_notMem (h : sep ∉ a) : Apart sep (sep :: a) := by
  have happend := apart_append (b := []) h
  have hone : Apart sep [sep] := List.isChain_singleton sep
  by_cases ha : a = []
  · rwa [ha]
  · have hbehind : Apart sep (sep :: (a ++ [sep])) := (apart_behind h ha).mpr hone
    exact List.IsChain.left_of_append hbehind

theorem not_apart_twice : ¬Apart sep (sep :: sep :: b) := by
  intro h
  exact (List.isChain_cons_cons.mp h).1 ⟨rfl, rfl⟩

/-! ## The turns of the loop -/

theorem splitLoop_last (h : sep ∉ str.drop prev) : splitLoop str sep (n + 1) prev v =
    some (v ++ [str.drop prev].filter (· ≠ [])) := by
  unfold splitLoop
  rw [findFrom_of_notMem h]
  dsimp only
  split_ifs with hend hs
  · rw [List.drop_eq_nil_iff.mpr hend]
    simp
  · simp [hs]
  · rw [not_not.mp hs]
    simp

theorem splitLoop_run (h : sep ∉ a) (ha : a ≠ []) (hrest : str.drop prev = a ++ sep :: b) :
    splitLoop str sep (n + 1) prev v = splitLoop str sep n (prev + a.length + 1) (v ++ [a]) := by
  have hend : ¬str.length ≤ prev := by
    intro hend
    rw [List.drop_eq_nil_iff.mpr hend] at hrest
    exact absurd hrest.symm (by simp)
  have hpos : prev + a.length ≠ 0 := by
    have := List.length_pos_iff.mpr ha
    omega
  have hs : (str.drop prev).take (prev + a.length - prev) = a := by
    rw [hrest, Nat.add_sub_cancel_left, List.take_left]
  conv_lhs => unfold splitLoop
  rw [if_neg hend, findFrom_append h hrest]
  dsimp only
  rw [if_neg hpos, hs, if_pos ha]

theorem splitLoop_first (hstr : str = sep :: b) :
    splitLoop str sep (n + 1) 0 v = splitLoop str sep n 1 v := by
  have hfind : findFrom str sep 0 = some 0 := findFrom_append (a := []) List.not_mem_nil hstr
  have hend : ¬str.length ≤ 0 := by simp [hstr]
  conv_lhs => unfold splitLoop
  rw [if_neg hend, hfind]
  rfl

/-- A separator after another is found again and again. -/
theorem splitLoop_stuck (hprev : 0 < prev) (hrest : str.drop prev = sep :: b) (n : Nat) :
    splitLoop str sep n prev v = none := by
  induction n with
  | zero => rfl
  | succ n ih =>
    have hfind : findFrom str sep prev = some prev := findFrom_append (a := []) List.not_mem_nil hrest
    have hend : ¬str.length ≤ prev := by
      intro hend
      rw [List.drop_eq_nil_iff.mpr hend] at hrest
      cases hrest
    unfold splitLoop
    rw [if_neg hend, hfind]
    dsimp only
    rw [if_neg hprev.ne', Nat.sub_self, List.take_zero]
    exact ih

/-- Behind a separator the loop goes on to the end, or comes to a place where it stays. -/
theorem splitLoop_behind (hprev : 0 < prev) (v : List (List Char)) :
    (¬Apart sep (sep :: str.drop prev) → splitLoop str sep n prev v = none) ∧
      (Apart sep (sep :: str.drop prev) → (str.drop prev).length < n →
        splitLoop str sep n prev v = some (v ++ runs (str.drop prev) sep)) := by
  induction n generalizing prev v with
  | zero => exact ⟨fun _ => rfl, fun _ hn => absurd hn (Nat.not_lt_zero _)⟩
  | succ n ih =>
    by_cases hmem : sep ∈ str.drop prev
    · obtain ⟨a, b, hrest, ha⟩ := List.eq_append_cons_of_mem hmem
      by_cases hnil : a = []
      · subst hnil
        rw [hrest]
        exact ⟨fun _ => splitLoop_stuck hprev hrest _, fun h => absurd h not_apart_twice⟩
      · have hb : str.drop (prev + a.length + 1) = b := by
          rw [Nat.add_assoc, ← List.drop_drop, hrest, ← List.drop_drop, List.drop_left]
          rfl
        obtain ⟨hstuck, hends⟩ := ih (Nat.succ_pos (prev + a.length)) (v ++ [a])
        rw [hb] at hstuck hends
        rw [splitLoop_run ha hnil hrest, hrest, apart_behind ha hnil]
        refine ⟨hstuck, fun hapart hn => ?_⟩
        rw [List.length_append, List.length_cons] at hn
        rw [hends hapart (by omega), runs_append ha, List.append_assoc]
        simp [hnil]
    · refine ⟨fun h => absurd (apart_of_notMem hmem) h, fun _ _ => ?_⟩
      rw [splitLoop_last hmem, runs_of_notMem hmem]

/-- From the beginning the loop ends with the longest parts when no separator stands next to another,
and does not end else. -/
theorem explode_str_spec (str : List Char) (sep : Char) :
    (Apart sep str → explode_str (str.length + 2) str sep = some (runs str sep)) ∧
      (¬Apart sep str → ∀ n, explode_str n str sep = none) := by
  unfold explode_str
  by_cases hmem : sep ∈ str
  · obtain ⟨a, b, hstr, ha⟩ := List.eq_append_cons_of_mem hmem
    have hlength := congrArg List.length hstr
    rw [List.length_append, List.length_cons] at hlength
    by_cases hnil : a = []
    · subst hnil
      rw [List.nil_append] at hstr
      have hb : str.drop 1 = b := by rw [hstr, List.drop_one, List.tail_cons]
      have hbehind := fun n => @splitLoop_behind str sep n 1 Nat.one_pos []
      simp only [hb, ← hstr] at hbehind
      constructor
      · intro hapart
        rw [splitLoop_first hstr, (hbehind _).2 hapart (by omega)]
        conv_rhs => rw [hstr]
        exact congrArg some (runs_append (a := []) List.not_mem_nil b).symm
      · intro hapart n
        cases n with
        | zero => rfl
        | succ n => rw [splitLoop_first hstr, (hbehind n).1 hapart]
    · have hdrop : str.drop 0 = a ++ sep :: b := hstr
      have hb : str.drop (0 + a.length + 1) = b := by
        rw [hstr, Nat.zero_add, ← List.drop_drop, List.drop_left]
        rfl
      have hpos : 0 < 0 + a.length + 1 := Nat.succ_pos _
      have hbehind := fun n => @splitLoop_behind str sep n _ hpos [a]
      simp only [hb] at hbehind
      rw [hstr, apart_append ha, ← hstr]
      constructor
      · intro hapart
        rw [splitLoop_run ha hnil hdrop, List.nil_append, (hbehind _).2 hapart (by omega)]
        conv_rhs => rw [hstr, runs_append ha]
        simp [hnil]
      · intro hapart n
        cases n with
        | zero => rfl
        | succ n => rw [splitLoop_run ha hnil hdrop, List.nil_append, (hbehind n).1 hapart]
  · refine ⟨fun _ => ?_, fun h => absurd (apart_of_notMem hmem).tail h⟩
    have hlast := @splitLoop_last str sep (str.length + 1) 0 [] hmem
    rw [hlast, runs_of_notMem hmem]
    rfl

/-- Both functions end with the longest parts when no separator stands next to another, and neither
ends else. -/
theorem explodes_iff (str : List Char) (sep : Char) : Explodes str sep ↔ Apart sep str := by
  obtain ⟨hends, hstuck⟩ := explode_str_spec str sep
  constructor
  · rintro ⟨fuel, h, -⟩
    by_contra hapart
    rw [hstuck hapart fuel] at h
    cases h
  · exact fun hapart => ⟨str.length + 2, hends hapart, hends hapart⟩

/-- Two separators in a row: the loop stays at the second of them. -/
theorem not_explodes_twice : ¬Explodes ['a', '/', '/', 'b'] '/' := by
  rintro ⟨fuel, h, -⟩
  have hstuck := (explode_str_spec ['a', '/', '/', 'b'] '/').2 (by decide) fuel
  rw [hstuck] at h
  cases h

end Uniset
