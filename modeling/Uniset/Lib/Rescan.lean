import Mathlib.Data.List.Basic

/-! References in a text that are replaced one after another, where the text is searched from its
beginning again after each. -/

universe u

namespace Uniset.Lib

/-- What a reference looks like, as it is recognised at the start of a text.  Of two that begin at
different places the later one ends where the first ends, or begins after it. -/
structure Reference (α : Type u) where
  at? : List α → Option (List α × List α)
  quote : List α → List α
  quote_ne_nil : ∀ name, quote name ≠ []
  split : at? l = some (name, rest) → quote name ++ rest = l
  apart : l ≠ [] → at? (l ++ l') = some (name, rest) → at? l' = some (name', rest') →
    rest = rest' ∨ ∃ m, rest = m ++ l'

/-- A reference that is found in a text. -/
structure Hit (α : Type u) where
  before : List α
  name : List α
  rest : List α

/-- A text in pieces, some of which are references. -/
inductive Piece (α : Type u)
  | text (t : List α)
  | ref (name : List α)

namespace Piece

variable {α : Type u}

def names (ps : List (Piece α)) : List (List α) :=
  ps.filterMap fun
    | .text _ => none
    | .ref name => some name

/-- The text with something in the place of each reference. -/
def fill (value : List α → List α) (ps : List (Piece α)) : List α :=
  ps.flatMap fun
    | .text t => t
    | .ref name => value name

@[simp] theorem fill_nil (value : List α → List α) : fill value [] = [] := rfl

@[simp] theorem fill_text (value : List α → List α) (t : List α) (ps : List (Piece α)) :
    fill value (.text t :: ps) = t ++ fill value ps := rfl

@[simp] theorem fill_ref (value : List α → List α) (name : List α) (ps : List (Piece α)) :
    fill value (.ref name :: ps) = value name ++ fill value ps := rfl

end Piece

namespace Reference

variable {α : Type u} (R : Reference α)

/-- The reference that begins first. -/
def search : List α → Option (Hit α)
  | [] => none
  | a :: l =>
    match R.at? (a :: l) with
    | some (name, rest) => some ⟨[], name, rest⟩
    | none => (search l).map fun hit => { hit with before := a :: hit.before }

/-- The names of the references that are replaced, and the text in the end.  The fuel is for the
searches. -/
def replace (value : List α → List α) : Nat → List α → Option (List (List α) × List α)
  | 0, _ => none
  | n + 1, l =>
    match R.search l with
    | none => some ([], l)
    | some hit =>
      (replace value n (hit.before ++ value hit.name ++ hit.rest)).map fun (names, l) =>
        (hit.name :: names, l)

/-- Each search finds the next reference of the pieces; `out` is what stands before them. -/
def Finds (value : List α → List α) : List α → List (Piece α) → Prop
  | out, [] => R.search out = none
  | out, .text t :: ps => Finds value (out ++ t) ps
  | out, .ref name :: ps =>
    R.search (out ++ (R.quote name ++ Piece.fill R.quote ps)) =
        some ⟨out, name, Piece.fill R.quote ps⟩ ∧ Finds value (out ++ value name) ps

/-- As many references as that, one after another. -/
def Holds : Nat → List α → Prop
  | 0, _ => True
  | k + 1, l => ∃ m s name rest, l = m ++ s ∧ R.at? s = some (name, rest) ∧ Holds k rest

/-- Where a piece is a reference there is one, and after it as many as there are pieces. -/
def Intact : List (Piece α) → Prop
  | [] => True
  | .text _ :: ps => Intact ps
  | .ref name :: ps =>
    (∃ name' rest, R.at? (R.quote name ++ Piece.fill R.quote ps) = some (name', rest) ∧
      rest.length ≤ (Piece.fill R.quote ps).length ∧ R.Holds (Piece.names ps).length rest) ∧ Intact ps

variable {R} {l m s out name name' rest r : List α} {value : List α → List α}
  {ps : List (Piece α)} {names : List (List α)} {n k : Nat}

theorem at?_nil (R : Reference α) : R.at? [] = none := by
  cases h : R.at? [] with
  | none => rfl
  | some found =>
    obtain ⟨name, rest⟩ := found
    exact absurd (List.append_eq_nil_iff.mp (R.split h)).1 (R.quote_ne_nil name)

theorem search_eq_none : R.search l = none ↔ ∀ m s, l = m ++ s → R.at? s = none := by
  induction l with
  | nil =>
    refine iff_of_true rfl fun m s h => ?_
    rw [(List.append_eq_nil_iff.mp h.symm).2, at?_nil]
  | cons a l ih =>
    unfold search
    constructor
    · intro h m s hms
      split at h
      · cases h
      · rename_i hnone
        cases m with
        | nil => rwa [← List.nil_append s, ← hms]
        | cons b m =>
          obtain ⟨rfl, rfl⟩ := List.cons_eq_cons.mp hms
          exact ih.mp (Option.map_eq_none_iff.mp h) m s rfl
    · intro h
      rw [h [] (a :: l) rfl]
      exact Option.map_eq_none_iff.mpr (ih.mpr fun m s hms => h (a :: m) s (congrArg (a :: ·) hms))

/-- The first reference is one that no other begins before. -/
theorem search_eq_some {hit : Hit α} : R.search l = some hit ↔ ∃ s, l = hit.before ++ s ∧
    R.at? s = some (hit.name, hit.rest) ∧
    ∀ m t, hit.before = m ++ t → t ≠ [] → R.at? (t ++ s) = none := by
  induction l generalizing hit with
  | nil =>
    refine iff_of_false nofun ?_
    rintro ⟨s, hs, hat, -⟩
    rw [(List.append_eq_nil_iff.mp hs.symm).2, at?_nil] at hat
    cases hat
  | cons a l ih =>
    unfold search
    constructor
    · intro h
      split at h
      · rename_i hat
        cases h
        refine ⟨a :: l, rfl, hat, fun m t hmt ht => ?_⟩
        exact absurd (List.append_eq_nil_iff.mp hmt.symm).2 ht
      · rename_i hnone
        obtain ⟨hit', hsearch, rfl⟩ := Option.map_eq_some_iff.mp h
        obtain ⟨s, rfl, hat, hfirst⟩ := ih.mp hsearch
        refine ⟨s, rfl, hat, fun m t hmt ht => ?_⟩
        cases m with
        | nil =>
          rw [List.nil_append] at hmt
          rwa [← hmt]
        | cons b m => exact hfirst m t (List.cons_eq_cons.mp hmt).2 ht
    · rintro ⟨s, hs, hat, hfirst⟩
      obtain ⟨before, name, rest⟩ := hit
      cases before with
      | nil =>
        rw [List.nil_append] at hs
        rw [hs, hat]
      | cons b before =>
        obtain ⟨rfl, rfl⟩ : a = b ∧ l = before ++ s := List.cons_eq_cons.mp hs
        have hnone := hfirst [] (a :: before) rfl nofun
        rw [List.cons_append] at hnone
        rw [hnone]
        refine Option.map_eq_some_iff.mpr ⟨⟨before, name, rest⟩, ih.mpr ⟨s, rfl, hat, ?_⟩, rfl⟩
        exact fun m t hmt ht => hfirst (a :: m) t (congrArg (a :: ·) hmt) ht

theorem search_append_iff : R.search (out ++ (R.quote name ++ rest)) = some ⟨out, name, rest⟩ ↔
    R.at? (R.quote name ++ rest) = some (name, rest) ∧
      ∀ m t, out = m ++ t → t ≠ [] → R.at? (t ++ (R.quote name ++ rest)) = none := by
  rw [search_eq_some]
  constructor
  · rintro ⟨s, hs, h⟩
    rwa [List.append_cancel_left hs]
  · exact fun h => ⟨_, rfl, h⟩

theorem holds_append (h : R.Holds k l) (m : List α) : R.Holds k (m ++ l) := by
  cases k with
  | zero => trivial
  | succ k =>
    obtain ⟨m', s, name, rest, rfl, hat, hrest⟩ := h
    exact ⟨m ++ m', s, name, rest, (List.append_assoc ..).symm, hat, hrest⟩

/-- The first reference leaves all that are held but one. -/
theorem holds_rest {hit : Hit α} (hsearch : R.search l = some hit) (h : R.Holds (k + 1) l) :
    R.Holds k hit.rest := by
  obtain ⟨s₀, rfl, hat₀, hfirst⟩ := search_eq_some.mp hsearch
  obtain ⟨m, s, name, rest, hl, hat, hrest⟩ := h
  have hs : R.Holds k s := R.split hat ▸ holds_append hrest _
  rcases List.append_eq_append_iff.mp hl with ⟨x, -, hs₀⟩ | ⟨t, hbefore, hs₁⟩
  · by_cases hx : x = []
    · subst hx
      rw [List.nil_append] at hs₀
      rw [hs₀, hat, Option.some_inj, Prod.mk.injEq] at hat₀
      rwa [← hat₀.2]
    · rw [hs₀] at hat₀
      rcases R.apart hx hat₀ hat with hsame | ⟨m', hafter⟩
      · rwa [hsame]
      · rw [hafter]
        exact holds_append hs m'
  · by_cases ht : t = []
    · subst ht
      rw [List.nil_append] at hs₁
      rw [← hs₁, hat, Option.some_inj, Prod.mk.injEq] at hat₀
      rwa [← hat₀.2]
    · rw [hs₁, hfirst m t hbefore ht] at hat
      cases hat

/-- No reference that is held is left. -/
theorem holds_le (hrun : R.replace value n l = some (names, r)) (h : R.Holds k l) :
    k ≤ names.length := by
  induction n generalizing l k names with
  | zero => cases hrun
  | succ n ih =>
    cases k with
    | zero => exact Nat.zero_le _
    | succ k =>
      unfold replace at hrun
      split at hrun
      · rename_i hnone
        obtain ⟨m, s, name, rest, hl, hat, -⟩ := h
        rw [search_eq_none.mp hnone m s hl] at hat
        cases hat
      · rename_i hit hsearch
        obtain ⟨⟨names, r'⟩, hrun, heq⟩ := Option.map_eq_some_iff.mp hrun
        cases heq
        exact Nat.succ_le_succ (ih hrun (holds_append (holds_rest hsearch h) _))

theorem length_lt (hrun : R.replace value n l = some (names, r)) : names.length < n := by
  induction n generalizing l names with
  | zero => cases hrun
  | succ n ih =>
    unfold replace at hrun
    split at hrun
    · cases hrun
      exact Nat.succ_pos n
    · obtain ⟨⟨names, r'⟩, hrun, heq⟩ := Option.map_eq_some_iff.mp hrun
      cases heq
      exact Nat.succ_lt_succ (ih hrun)

/-- Searches that find the pieces replace them. -/
theorem Finds.replace (h : R.Finds value out ps) (hn : (Piece.names ps).length < n) :
    R.replace value n (out ++ Piece.fill R.quote ps) =
      some (Piece.names ps, out ++ Piece.fill value ps) := by
  induction ps generalizing out n with
  | nil =>
    obtain ⟨n, rfl⟩ := Nat.exists_eq_add_of_lt hn
    rw [Piece.fill_nil, Piece.fill_nil, List.append_nil]
    unfold Reference.replace
    rw [show R.search out = none from h]
    rfl
  | cons p ps ih =>
    cases p with
    | text t =>
      have ih := ih h hn
      rwa [List.append_assoc, List.append_assoc] at ih
    | ref name =>
      cases n with
      | zero => exact absurd hn (Nat.not_lt_zero _)
      | succ n =>
        have ih := ih h.2 (Nat.lt_of_succ_lt_succ hn)
        unfold Reference.replace
        rw [Piece.fill_ref, h.1]
        dsimp only
        rw [ih, Option.map_some, Piece.fill_ref, List.append_assoc]
        rfl

/-- A reference of the same name that begins before a piece leaves the piece as it is. -/
theorem search_piece {before : List α} (hat : R.at? (R.quote name ++ l) = some (name', rest'))
    (hlength : rest'.length ≤ l.length)
    (hsearch : R.search (out ++ (R.quote name ++ l)) = some ⟨before, name, rest⟩) :
    (before = out ∧ rest = l) ∨ ∃ m, rest = m ++ (R.quote name ++ l) := by
  obtain ⟨s, hl, hats, hfirst⟩ := search_eq_some.mp hsearch
  dsimp only at hl hats hfirst
  have hsplit := R.split hats
  rcases List.append_eq_append_iff.mp hl with ⟨x, hbefore, hs⟩ | ⟨x, hout, hs⟩
  · by_cases hx : x = []
    · subst hx
      rw [List.nil_append, ← hsplit] at hs
      exact .inl ⟨hbefore.trans (List.append_nil _), (List.append_cancel_left hs).symm⟩
    · have hnone := hfirst out x hbefore hx
      rw [← hs, hat] at hnone
      cases hnone
  · by_cases hx : x = []
    · subst hx
      rw [List.nil_append, ← hsplit] at hs
      exact .inl ⟨(hout.trans (List.append_nil _)).symm, List.append_cancel_left hs⟩
    · rw [hs] at hats
      rcases R.apart hx hats hat with rfl | hafter
      · -- the same end and the same name: the same place
        have hlen := congrArg List.length (hsplit.trans hs)
        have hpos := List.length_pos_iff.mpr hx
        simp only [List.length_append] at hlen
        omega
      · exact .inr hafter

/-- A run that replaces as many references as there are, by their names, has found each of them: one
that begins before it would leave it in the text. -/
theorem finds_of_replace (hintact : R.Intact ps)
    (hrun : R.replace value n (out ++ Piece.fill R.quote ps) = some (Piece.names ps, r)) :
    R.Finds value out ps := by
  induction ps generalizing out n with
  | nil =>
    cases n with
    | zero => cases hrun
    | succ n =>
      rw [Piece.fill_nil, List.append_nil] at hrun
      unfold Reference.replace at hrun
      split at hrun
      · assumption
      · obtain ⟨_, -, heq⟩ := Option.map_eq_some_iff.mp hrun
        cases heq
  | cons p ps ih =>
    cases p with
    | text t =>
      rw [Piece.fill_text, ← List.append_assoc] at hrun
      exact ih hintact hrun
    | ref name =>
      obtain ⟨⟨name', rest', hat', hlength, hholds⟩, hintact⟩ := hintact
      cases n with
      | zero => cases hrun
      | succ n =>
        unfold Reference.replace at hrun
        split at hrun
        · cases hrun
        · rename_i hit hsearch
          obtain ⟨⟨names, r'⟩, hrun, heq⟩ := Option.map_eq_some_iff.mp hrun
          obtain ⟨before, found, rest⟩ := hit
          cases heq
          rw [Piece.fill_ref] at hsearch
          rcases search_piece hat' hlength hsearch with ⟨rfl, rfl⟩ | ⟨m, hrest⟩
          · exact ⟨hsearch, ih hintact hrun⟩
          · have hpiece : R.Holds ((Piece.names ps).length + 1)
                (R.quote found ++ Piece.fill R.quote ps) := ⟨[], _, name', rest', rfl, hat', hholds⟩
            have hleft := holds_append hpiece m
            rw [← hrest] at hleft
            exact absurd (holds_le hrun (holds_append hleft _)) (Nat.not_succ_le_self _)

end Reference

end Uniset.Lib
