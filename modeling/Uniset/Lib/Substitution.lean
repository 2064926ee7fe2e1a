import Mathlib.Data.List.Basic
import Mathlib.Data.List.Count
import Mathlib.Data.List.Infix

/-! Substitution for a pattern, from the left to the right, and the texts that come from a text by
allowed edits.  The places of a text carry marks that the pattern does not see. -/

universe u v

namespace Uniset.Lib

/-- A place that fits a pattern, what replaces it, and the text after it. -/
structure Found (α : Type u) where
  site : List α
  replacement : List α
  rest : List α

/-- What is found at the start of a text, given what stands before it. -/
structure Pattern (α : Type u) where
  find : Option α → List α → Option (Found α)
  split : find last l = some f → f.site ++ f.rest = l
  nonempty : find last l = some f → f.site ≠ []

variable {α : Type u} {κ : Type v}

def texts (cells : List (α × κ)) : List α := cells.map Prod.fst

@[simp] theorem texts_append (l r : List (α × κ)) : texts (l ++ r) = texts l ++ texts r :=
  List.map_append

@[simp] theorem texts_nil : texts ([] : List (α × κ)) = [] := rfl

@[simp] theorem texts_cons (c : α × κ) (l : List (α × κ)) : texts (c :: l) = c.1 :: texts l := rfl

/-- The texts that come from a text by edits that are allowed where they are made. -/
inductive Edited (allow : List (α × κ) → List (α × κ) → List α → List (α × κ) → Prop) :
    List (α × κ) → List (α × κ) → List α → Prop
  | nil : Edited allow before [] []
  | keep : Edited allow (before ++ [c]) cells out → Edited allow before (c :: cells) (c.1 :: out)
  | edit : allow before site new rest → Edited allow (before ++ site) rest out →
      Edited allow before (site ++ rest) (new ++ out)

theorem Edited.keep_append {allow : List (α × κ) → List (α × κ) → List α → List (α × κ) → Prop}
    (h : Edited allow (before ++ xs) ys out) : Edited allow before (xs ++ ys) (texts xs ++ out) := by
  induction xs generalizing before with
  | nil => simpa using h
  | cons c xs ih => exact .keep (ih (by simpa using h))

theorem texts_split {cells : List (α × κ)} (h : texts cells = l ++ r) :
    ∃ a b, cells = a ++ b ∧ texts a = l ∧ texts b = r :=
  List.map_eq_append_iff.mp h

namespace Pattern

variable (P : Pattern α)

/-- The fuel is for the places of the text. -/
def sub : Nat → List α → List α → List α
  | 0, _, l => l
  | _ + 1, _, [] => []
  | n + 1, before, a :: l =>
    match P.find before.getLast? (a :: l) with
    | some f => f.replacement ++ sub n (before ++ f.site) f.rest
    | none => a :: sub n (before ++ [a]) l

def EveryMatch (Q : List (α × κ) → List (α × κ) → Found α → Prop) :
    Nat → List (α × κ) → List (α × κ) → Prop
  | 0, _, _ => True
  | _ + 1, _, [] => True
  | n + 1, before, c :: cells =>
    match P.find (texts before).getLast? (texts (c :: cells)) with
    | some f =>
      Q before (c :: cells) f ∧
        EveryMatch Q n (before ++ (c :: cells).take f.site.length) ((c :: cells).drop f.site.length)
    | none => EveryMatch Q n (before ++ [c]) cells

variable {P}

theorem sub_cons_none (h : P.find before.getLast? (a :: l) = none) :
    P.sub (n + 1) before (a :: l) = a :: P.sub n (before ++ [a]) l := by
  simp [sub, h]

theorem sub_cons_some (h : P.find before.getLast? (a :: l) = some f) :
    P.sub (n + 1) before (a :: l) = f.replacement ++ P.sub n (before ++ f.site) f.rest := by
  simp [sub, h]

theorem texts_take {cells : List (α × κ)} (h : P.find last (texts cells) = some f) :
    texts (cells.take f.site.length) = f.site := by
  rw [texts, List.map_take]
  change (texts cells).take f.site.length = f.site
  rw [← P.split h, List.take_left]

theorem texts_drop {cells : List (α × κ)} (h : P.find last (texts cells) = some f) :
    texts (cells.drop f.site.length) = f.rest := by
  rw [texts, List.map_drop]
  change (texts cells).drop f.site.length = f.rest
  rw [← P.split h, List.drop_left]

theorem length_drop_lt {cells : List (α × κ)} (h : P.find last (texts cells) = some f) :
    (cells.drop f.site.length).length < cells.length := by
  have hne := List.length_pos_of_ne_nil (P.nonempty h)
  have hlen : f.site.length + f.rest.length = (texts cells).length := by
    rw [← P.split h, List.length_append]
  rw [texts, List.length_map] at hlen
  rw [List.length_drop]
  omega

variable {allow : List (α × κ) → List (α × κ) → List α → List (α × κ) → Prop}
  {Q : List (α × κ) → List (α × κ) → Found α → Prop}

theorem edited_sub
    (hmatch : ∀ {before cells f out}, P.find (texts before).getLast? (texts cells) = some f →
      Q before cells f →
      Edited allow (before ++ cells.take f.site.length) (cells.drop f.site.length) out →
      Edited allow before cells (f.replacement ++ out))
    (hn : cells.length ≤ n) (h : P.EveryMatch Q n before cells) :
    Edited allow before cells (P.sub n (texts before) (texts cells)) := by
  induction n generalizing before cells with
  | zero =>
    cases List.length_eq_zero_iff.mp (Nat.le_zero.mp hn)
    exact .nil
  | succ n ih =>
    cases cells with
    | nil => exact .nil
    | cons c cells =>
      simp only [EveryMatch, texts_cons] at h
      simp only [sub, texts_cons]
      split at h
      · next f hf =>
        have hfind : P.find (texts before).getLast? (texts (c :: cells)) = some f := hf
        have hlt := length_drop_lt hfind
        have hrest := ih (by omega) h.2
        rw [texts_append, texts_take hfind, texts_drop hfind] at hrest
        exact hmatch hfind h.1 hrest
      · next hf =>
        have hrest := ih (Nat.le_of_succ_le_succ hn) h
        rw [texts_append] at hrest
        exact .keep hrest

theorem everyMatch_of_edited
    (hkeep : ∀ {before c cells out}, P.find (texts before).getLast? (texts (c :: cells)) = none →
      Edited allow before (c :: cells) (c.1 :: out) → Edited allow (before ++ [c]) cells out)
    (hmatch : ∀ {n before cells f}, P.find (texts before).getLast? (texts cells) = some f →
      cells.length ≤ n + 1 →
      Edited allow before cells (f.replacement ++ P.sub n (texts before ++ f.site) f.rest) →
      Q before cells f ∧ Edited allow (before ++ cells.take f.site.length)
        (cells.drop f.site.length) (P.sub n (texts before ++ f.site) f.rest))
    (hn : cells.length ≤ n)
    (h : Edited allow before cells (P.sub n (texts before) (texts cells))) :
    P.EveryMatch Q n before cells := by
  induction n generalizing before cells with
  | zero => trivial
  | succ n ih =>
    cases cells with
    | nil => trivial
    | cons c cells =>
      simp only [sub, texts_cons] at h
      simp only [EveryMatch, texts_cons]
      split at h
      · next f hf =>
        have hfind : P.find (texts before).getLast? (texts (c :: cells)) = some f := hf
        have hlt := length_drop_lt hfind
        obtain ⟨hq, hrest⟩ := hmatch hfind hn h
        refine ⟨hq, ih (by omega) ?_⟩
        rwa [texts_append, texts_take hfind, texts_drop hfind]
      · next hf =>
        refine ih (Nat.le_of_succ_le_succ hn) ?_
        rw [texts_append]
        exact hkeep hf h

/-- What the replacements leave alone, the substitution leaves alone. -/
theorem filter_sub (p : α → Bool)
    (h : ∀ {last l f}, P.find last l = some f → f.replacement.filter p = f.site.filter p)
    (n : Nat) (before l : List α) : (P.sub n before l).filter p = l.filter p := by
  induction n generalizing before l with
  | zero => rfl
  | succ n ih =>
    cases l with
    | nil => rfl
    | cons a l =>
      simp only [sub]
      split
      · next f hf => rw [List.filter_append, ih, h hf, ← List.filter_append, P.split hf]
      · simp only [List.filter_cons, ih]

end Pattern

end Uniset.Lib

/-! Every occurrence of a word in a text replaced by another, from the left to the right. -/

namespace Uniset.Lib

variable {α : Type u} [DecidableEq α] {word new l : List α} {c : α}

/-- A word that is found where the text goes on with it. -/
def literal (word new : List α) : Pattern α where
  find := fun _ l => if word ≠ [] ∧ word <+: l then some ⟨word, new, l.drop word.length⟩ else none
  split := by
    intro _ l f h
    split_ifs at h with hfound
    cases h
    obtain ⟨rest, rfl⟩ := hfound.2
    rw [List.drop_left]
  nonempty := by
    intro _ l f h
    split_ifs at h with hfound
    cases h
    exact hfound.1

def replaceAll (word new l : List α) : List α := (literal word new).sub l.length [] l

theorem find_literal {last : Option α} :
    (literal word new).find last l =
      if word ≠ [] ∧ word <+: l then some ⟨word, new, l.drop word.length⟩ else none := rfl

theorem sub_literal_of_absent (h : ¬word <:+: l) (n : Nat) (before : List α) :
    (literal word new).sub n before l = l := by
  induction n generalizing before l with
  | zero => rfl
  | succ n ih =>
    cases l with
    | nil => rfl
    | cons a l =>
      rw [Pattern.sub_cons_none, ih fun hl => h (List.infix_cons hl)]
      exact if_neg fun hfound => h hfound.2.isInfix

theorem count_sub_literal_le (hnew : c ∉ new) (n : Nat) (before : List α) :
    ((literal word new).sub n before l).count c ≤ l.count c := by
  induction n generalizing before l with
  | zero => exact Nat.le_refl _
  | succ n ih =>
    cases l with
    | nil => exact Nat.le_refl _
    | cons a l =>
      cases hfind : (literal word new).find before.getLast? (a :: l) with
      | none =>
        rw [Pattern.sub_cons_none hfind, List.count_cons, List.count_cons]
        exact Nat.add_le_add_right (ih _) _
      | some f =>
        have hsplit := (literal word new).split hfind
        rw [Pattern.sub_cons_some hfind, ← hsplit, List.count_append, List.count_append]
        rw [find_literal] at hfind
        split_ifs at hfind
        cases hfind
        rw [List.count_eq_zero_of_not_mem hnew]
        exact Nat.add_le_add (Nat.zero_le _) (ih _)

theorem count_sub_literal_lt (hword : c ∈ word) (hnew : c ∉ new) (h : word <:+: l) {n : Nat}
    (hn : l.length ≤ n) (before : List α) :
    ((literal word new).sub n before l).count c < l.count c := by
  induction n generalizing before l with
  | zero =>
    rw [List.length_eq_zero_iff.mp (Nat.le_zero.mp hn), List.infix_nil] at h
    exact absurd (h ▸ hword) List.not_mem_nil
  | succ n ih =>
    cases l with
    | nil => exact absurd ((List.infix_nil.mp h) ▸ hword) List.not_mem_nil
    | cons a l =>
      cases hfind : (literal word new).find before.getLast? (a :: l) with
      | none =>
        have hrest : word <:+: l := (List.infix_cons_iff.mp h).resolve_left fun hstart => by
          rw [find_literal, if_pos ⟨List.ne_nil_of_mem hword, hstart⟩] at hfind
          cases hfind
        rw [Pattern.sub_cons_none hfind, List.count_cons, List.count_cons]
        exact Nat.add_lt_add_right (ih hrest (Nat.le_of_succ_le_succ hn) _) _
      | some f =>
        have hsplit := (literal word new).split hfind
        rw [Pattern.sub_cons_some hfind, ← hsplit, List.count_append, List.count_append]
        rw [find_literal] at hfind
        split_ifs at hfind
        cases hfind
        rw [List.count_eq_zero_of_not_mem hnew]
        exact Nat.add_lt_add_of_lt_of_le (List.count_pos_iff.mpr hword)
          (count_sub_literal_le hnew _ _)

/-- A text in which the word does not occur stays as it is. -/
theorem replaceAll_of_absent (h : ¬word <:+: l) : replaceAll word new l = l :=
  sub_literal_of_absent h _ _

/-- A mark of the word that what replaces it does not have is never added. -/
theorem count_replaceAll_le (hnew : c ∉ new) : (replaceAll word new l).count c ≤ l.count c :=
  count_sub_literal_le hnew _ _

theorem count_replaceAll_lt (hword : c ∈ word) (hnew : c ∉ new) (h : word <:+: l) :
    (replaceAll word new l).count c < l.count c :=
  count_sub_literal_lt hword hnew h (Nat.le_refl _) _

/-- Words replaced one after the other. -/
def replaceEach (ws : List (List α × List α)) (l : List α) : List α :=
  ws.foldl (fun l w => replaceAll w.1 w.2 l) l

variable {ws : List (List α × List α)}

theorem count_replaceEach_le (hws : ∀ w ∈ ws, c ∉ w.2) (l : List α) :
    (replaceEach ws l).count c ≤ l.count c := by
  induction ws generalizing l with
  | nil => exact Nat.le_refl _
  | cons w ws ih =>
    exact (ih (fun w hw => hws w (List.mem_cons_of_mem _ hw)) _).trans
      (count_replaceAll_le (hws w List.mem_cons_self))

/-- If all the words have a mark that their replacements do not have, nothing stays as it is but what
has none of the words. -/
theorem replaceEach_eq_self_iff (hws : ∀ w ∈ ws, c ∈ w.1 ∧ c ∉ w.2) :
    replaceEach ws l = l ↔ ∀ w ∈ ws, ¬w.1 <:+: l := by
  induction ws with
  | nil => exact iff_of_true rfl fun _ h => absurd h List.not_mem_nil
  | cons w ws ih =>
    obtain ⟨hword, hnew⟩ := hws w List.mem_cons_self
    have hrest : ∀ w ∈ ws, c ∈ w.1 ∧ c ∉ w.2 := fun w hw => hws w (List.mem_cons_of_mem _ hw)
    rw [List.forall_mem_cons]
    by_cases hoccurs : w.1 <:+: l
    · refine iff_of_false (fun heq => ?_) fun h => h.1 hoccurs
      have hlt : (replaceEach (w :: ws) l).count c < l.count c :=
        (count_replaceEach_le (fun w hw => (hrest w hw).2) _).trans_lt
          (count_replaceAll_lt hword hnew hoccurs)
      exact absurd (congrArg (List.count c) heq) (Nat.ne_of_lt hlt)
    · rw [and_iff_right hoccurs, ← ih hrest, replaceEach, List.foldl_cons,
        replaceAll_of_absent hoccurs]
      rfl

end Uniset.Lib
