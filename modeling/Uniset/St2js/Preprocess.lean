import Mathlib.Data.List.TakeWhile
import Mathlib.Tactic.SplitIfs
import Uniset.Lib.Substitution

/-! What `st2js` changes in a source text before the text is parsed: prefixes of typed literals, and
`AND`, `OR` and `XOR` in the form of calls. -/

namespace Uniset.St2js.Preprocess

open Uniset.Lib

/-- The classes of characters of the regular expressions. -/
structure CharClasses where
  word : Char → Bool
  space : Char → Bool
  word_ascii : ∀ c : Char, c.toNat < 128 → word c = (c.isAlphanum || c = '_')
  space_ascii : ∀ c : Char, c.toNat < 128 →
    space c = (9 ≤ c.toNat && c.toNat ≤ 13 || 28 ≤ c.toNat && c.toNat ≤ 32)

/-! ### The marks of a text -/

inductive Kind
  | code
  | comment
  | string
  deriving DecidableEq

abbrev Cell := Char × Kind

/-- Comments in `(* *)` and `/* */` may be nested. -/
inductive Mode
  | code
  | parenComment (depth : Nat)
  | slashComment (depth : Nat)
  | lineComment
  | string (quote : Char)

def leave (comment : Nat → Mode) : Nat → Mode
  | 0 => .code
  | n + 1 => comment n

def mark : Mode → List Char → List Cell
  | _, [] => []
  | .code, '(' :: '*' :: cs => ('(', .comment) :: ('*', .comment) :: mark (.parenComment 0) cs
  | .code, '/' :: '*' :: cs => ('/', .comment) :: ('*', .comment) :: mark (.slashComment 0) cs
  | .code, '/' :: '/' :: cs => ('/', .comment) :: ('/', .comment) :: mark .lineComment cs
  | .code, c :: cs =>
    if c = '\'' ∨ c = '"' then (c, .string) :: mark (.string c) cs else (c, .code) :: mark .code cs
  | .parenComment n, '(' :: '*' :: cs =>
    ('(', .comment) :: ('*', .comment) :: mark (.parenComment (n + 1)) cs
  | .parenComment n, '*' :: ')' :: cs =>
    ('*', .comment) :: (')', .comment) :: mark (leave .parenComment n) cs
  | .parenComment n, c :: cs => (c, .comment) :: mark (.parenComment n) cs
  | .slashComment n, '/' :: '*' :: cs =>
    ('/', .comment) :: ('*', .comment) :: mark (.slashComment (n + 1)) cs
  | .slashComment n, '*' :: '/' :: cs =>
    ('*', .comment) :: ('/', .comment) :: mark (leave .slashComment n) cs
  | .slashComment n, c :: cs => (c, .comment) :: mark (.slashComment n) cs
  | .lineComment, c :: cs => (c, .comment) :: mark (if c = '\n' then .code else .lineComment) cs
  | .string q, '$' :: c :: cs => ('$', .string) :: (c, .string) :: mark (.string q) cs
  | .string q, c :: cs => (c, .string) :: mark (if c = q then .code else .string q) cs

theorem texts_mark (m : Mode) (cs : List Char) : texts (mark m cs) = cs := by
  fun_induction mark m cs <;> simp_all

def Code (cells : List Cell) : Prop := ∀ c ∈ cells, c.2 = .code

/-! ### Typed literals -/

/-- The types of characters and numbers. -/
def valueNames : List (List Char) :=
  ["CHAR", "WCHAR", "SINT", "USINT", "BYTE", "UINT", "UDINT", "ULINT", "LINT", "LREAL"].map
    String.toList

/-- Those of dates and times come behind. -/
def typeNames : List (List Char) :=
  valueNames ++ ["LDT", "LDATE", "LTIME", "LTIME_OF_DAY", "LTOD", "DATE_AND_TIME", "DT", "DATE",
    "TIME_OF_DAY", "TOD"].map String.toList

section

variable (cc : CharClasses)

def wordBefore (last : Option Char) : Bool := last.any cc.word

def findPrefix (last : Option Char) (cs : List Char) : Option (Found Char) :=
  if wordBefore cc last then none
  else
    match typeNames.find? fun ty => (ty ++ ['#']).isPrefixOf cs with
    | some ty => some ⟨ty ++ ['#'], [], cs.drop (ty ++ ['#']).length⟩
    | none => none

/-! ### Calls -/

def isBlank (cs : List Char) : Bool := cs.all cc.space

/-- What a group of the pattern is, of the text between the spaces before it and its end. -/
def group (body : List Char) : List Char :=
  if isBlank cc body then body.getLast?.toList else body.dropWhile cc.space

def ofFirst (c : Char) : Bool := c ≠ ',' && c ≠ ')'

def ofSecond (c : Char) : Bool := c ≠ ')'

/-- `\b OP \s* \( \s* ([^,)]+) \s* , \s* ([^)]+) \s* \)` -/
def findCall (op : List Char) (last : Option Char) (cs : List Char) : Option (Found Char) :=
  if wordBefore cc last || !op.isPrefixOf cs then none
  else
    let afterOp := cs.drop op.length
    match afterOp.dropWhile cc.space with
    | '(' :: inner =>
      match inner.dropWhile ofFirst with
      | ',' :: tail =>
        match tail.dropWhile ofSecond with
        | ')' :: rest =>
          let first := inner.takeWhile ofFirst
          let second := tail.takeWhile ofSecond
          if first = [] ∨ second = [] then none
          else some
            ⟨op ++ (afterOp.takeWhile cc.space ++ '(' :: (first ++ ',' :: (second ++ [')']))),
              '(' :: (group cc first ++ ' ' :: (op ++ ' ' :: (group cc second ++ [')']))),
              rest⟩
        | _ => none
      | _ => none
    | _ => none

/-! ### Passes -/

theorem isPrefixOf_append_drop {w cs : List Char} (h : w.isPrefixOf cs = true) :
    w ++ cs.drop w.length = cs := by
  obtain ⟨rest, rfl⟩ := List.isPrefixOf_iff_prefix.mp h
  rw [List.drop_left]

variable {cc} in
theorem findPrefix_eq_some : findPrefix cc last cs = some f ↔
    wordBefore cc last = false ∧
      ∃ ty, (typeNames.find? fun ty => (ty ++ ['#']).isPrefixOf cs) = some ty ∧
        f = ⟨ty ++ ['#'], [], cs.drop (ty ++ ['#']).length⟩ := by
  unfold findPrefix
  split_ifs with hw
  · simp [hw]
  · cases h : typeNames.find? fun ty => (ty ++ ['#']).isPrefixOf cs with
    | none => simp
    | some ty => simp [hw, eq_comm]

/-- The parts of a text that fits the pattern of a call. -/
structure CallText (op : List Char) (cs : List Char) where
  gap : List Char
  first : List Char
  second : List Char
  rest : List Char
  text : cs = op ++ (gap ++ '(' :: (first ++ ',' :: (second ++ ')' :: rest)))
  gap_space : ∀ c ∈ gap, cc.space c = true
  first_chars : ∀ c ∈ first, ofFirst c = true
  second_chars : ∀ c ∈ second, ofSecond c = true
  first_ne : first ≠ []
  second_ne : second ≠ []

variable {cc} in
def CallText.found (T : CallText cc op cs) : Found Char where
  site := op ++ (T.gap ++ '(' :: (T.first ++ ',' :: (T.second ++ [')'])))
  replacement := '(' :: (group cc T.first ++ ' ' :: (op ++ ' ' :: (group cc T.second ++ [')'])))
  rest := T.rest

theorem takeWhile_append {cs rest : List Char} {p : Char → Bool} (h : cs.dropWhile p = rest) :
    cs.takeWhile p ++ rest = cs := by
  rw [← h, List.takeWhile_append_dropWhile]

variable {cc} in
theorem exists_callText (h : findCall cc op last cs = some f) :
    wordBefore cc last = false ∧ ∃ T : CallText cc op cs, f = T.found := by
  unfold findCall at h
  split_ifs at h with hw
  simp only [Bool.or_eq_true, Bool.not_eq_true', not_or, Bool.not_eq_true, Bool.not_eq_false] at hw
  simp only at h
  split at h
  · next inner hinner =>
    split at h
    · next tail htail =>
      split at h
      · next rest hrest =>
        split_ifs at h with hne
        simp only [not_or] at hne
        have htext : cs = op ++ ((cs.drop op.length).takeWhile cc.space ++ '(' ::
            (inner.takeWhile ofFirst ++ ',' :: (tail.takeWhile ofSecond ++ ')' :: rest))) := by
          rw [takeWhile_append hrest, takeWhile_append htail, takeWhile_append hinner,
            isPrefixOf_append_drop hw.2]
        exact ⟨hw.1, ⟨_, _, _, rest, htext, fun _ => List.mem_takeWhile_imp, fun _ => List.mem_takeWhile_imp,
          fun _ => List.mem_takeWhile_imp, hne.1, hne.2⟩, (Option.some.inj h).symm⟩
      · cases h
    · cases h
  · cases h

theorem split_append {w : List Char} {p : Char → Bool} (hw : ∀ c ∈ w, p c = true)
    (hc : p c = false) (rest : List Char) :
    (w ++ c :: rest).takeWhile p = w ∧ (w ++ c :: rest).dropWhile p = c :: rest := by
  rw [List.takeWhile_append_of_pos hw, List.dropWhile_append_of_pos hw]
  simp [hc]

def prefixPattern : Pattern Char where
  find := findPrefix cc
  split := by
    intro last cs f h
    obtain ⟨-, ty, hty, rfl⟩ := findPrefix_eq_some.mp h
    have hprefix : (ty ++ ['#']).isPrefixOf cs = true := by simpa using List.find?_some hty
    exact isPrefixOf_append_drop hprefix
  nonempty := by
    intro last cs f h
    obtain ⟨-, ty, hty, rfl⟩ := findPrefix_eq_some.mp h
    simp

def callPattern (op : List Char) : Pattern Char where
  find := findCall cc op
  split := by
    intro last cs f h
    obtain ⟨-, T, rfl⟩ := exists_callText h
    simpa [CallText.found] using T.text.symm
  nonempty := by
    intro last cs f h
    obtain ⟨-, T, rfl⟩ := exists_callText h
    simp [CallText.found]

end

/-! ### Sites that may be changed -/

/-- The arguments of a call after its parenthesis, up to the parenthesis that closes it; `depth` counts
the brackets open in the argument that is read. -/
def arguments : Nat → List Char → List Cell → Option (List (List Char))
  | _, _, [] => none
  | depth, arg, (c, .code) :: cells =>
    if c = '(' ∨ c = '[' then arguments (depth + 1) (arg ++ [c]) cells
    else if c = ')' ∨ c = ']' then
      match depth with
      | 0 => if c = ')' then some [arg] else none
      | depth + 1 => arguments depth (arg ++ [c]) cells
    else if c = ',' ∧ depth = 0 then (arguments 0 [] cells).map (arg :: ·)
    else arguments depth (arg ++ [c]) cells
  | depth, arg, (c, _) :: cells => arguments depth (arg ++ [c]) cells

/-- The words after which an operand begins. -/
def openingWords : List (List Char) :=
  ["IF", "ELSIF", "ELSE", "THEN", "WHILE", "UNTIL", "REPEAT", "CASE", "OF", "FOR", "TO", "BY", "DO",
   "RETURN", "NOT", "AND", "OR", "XOR", "MOD"].map String.toList

section

variable (cc : CharClasses)

def blankComment (c : Cell) : Cell := if c.2 = .comment then (' ', .code) else c

/-- The text ends in an operand, so that an operator follows. -/
def endsOperand (before : List Cell) : Bool :=
  match (before.map blankComment).reverse.dropWhile fun c => c.2 = .code && cc.space c.1 with
  | [] => false
  | (c, k) :: cells =>
    k = .string || c = ')' || c = ']' || c = '^' ||
      cc.word c && !openingWords.contains
        ((((c, k) :: cells).takeWhile fun d => cc.word d.1).reverse.map fun d => d.1.toUpper)

def lastBefore (before : List Cell) : Option Char := (texts before).getLast?

/-- A number or a string begins. -/
def Literal : List Cell → Prop
  | (c, .code) :: _ => c.isDigit ∨ c = '+' ∨ c = '-'
  | (c, .string) :: _ => c = '\'' ∨ c = '"'
  | _ => False

/-- The prefix of a number or character is dropped. -/
def AllowPrefix (before site : List Cell) (new : List Char) (rest : List Cell) : Prop :=
  new = [] ∧ wordBefore cc (lastBefore before) = false ∧ Code site ∧
    (∃ ty ∈ valueNames, texts site = ty ++ ['#']) ∧ Literal rest

/-- A call of two arguments, where an operand is expected, up to its second argument. -/
structure AllowCall (op : List Char) (before site : List Cell) (new : List Char)
    (rest : List Cell) : Prop where
  boundary : wordBefore cc (lastBefore before) = false
  operand : endsOperand cc before = false
  parts : ∃ (head inner : List Cell) (gap e₁ e₂ lead : List Char),
    site ++ rest = head ++ inner ∧ Code head ∧
    texts head = op ++ (gap ++ ['(']) ∧ (∀ c ∈ gap, cc.space c = true) ∧
    arguments 0 [] inner = some [e₁, e₂] ∧ isBlank cc e₁ = false ∧ isBlank cc e₂ = false ∧
    texts site = op ++ (gap ++ '(' :: (e₁ ++ ',' :: lead)) ∧
    (∀ c ∈ lead, cc.space c = true) ∧ (∀ c ∈ (texts rest).head?, cc.space c = false) ∧
    new = '(' :: (e₁.dropWhile cc.space ++ ' ' :: (op ++ [' ']))

end

/-! ### Matches -/

/-- The brackets that are open after a text, counted from `depth`. -/
def level : Nat → List Cell → Option Nat
  | depth, [] => some depth
  | depth, (c, .code) :: cells =>
    if c = '(' ∨ c = '[' then level (depth + 1) cells
    else if c = ')' ∨ c = ']' then
      match depth with
      | 0 => none
      | depth + 1 => level depth cells
    else level depth cells
  | depth, _ :: cells => level depth cells

section

variable (cc : CharClasses)

def GoodPrefix (_before cells : List Cell) (f : Found Char) : Prop :=
  (∃ ty ∈ valueNames, f.site = ty ++ ['#']) ∧ Code (cells.take f.site.length) ∧
    Literal (cells.drop f.site.length)

/-- The match is code where an operand is expected, its first group closes the brackets that it opens,
its comma is code, and the text after the comma is one argument. -/
def GoodCall (op : List Char) (before cells : List Cell) (f : Found Char) : Prop :=
  ∃ (T : CallText cc op (texts cells)) (head first tail : List Cell) (comma : Cell) (e₂ : List Char),
    f = T.found ∧ cells = head ++ (first ++ comma :: tail) ∧
    texts head = op ++ (T.gap ++ ['(']) ∧ texts first = T.first ∧
    Code head ∧ endsOperand cc before = false ∧ isBlank cc T.first = false ∧
    isBlank cc T.second = false ∧ level 0 first = some 0 ∧ comma = (',', .code) ∧
    arguments 0 [] tail = some [e₂]

end

/-! ### Prefixes -/

section

variable {cc : CharClasses}

theorem wordBefore_append (before : List Cell) (c : Cell) :
    wordBefore cc (lastBefore (before ++ [c])) = cc.word c.1 := by
  simp [wordBefore, lastBefore]

theorem word_hash : cc.word '#' = false := by
  rw [cc.word_ascii _ (by decide)]
  decide

theorem typeNames_ascii : ∀ ty ∈ typeNames, ty ≠ [] ∧
    ∀ c ∈ ty, c.toNat < 128 ∧ (c.isAlphanum || c = '_') = true := by
  have hall : (typeNames.all fun ty => decide (ty ≠ []) &&
      ty.all fun c => decide (c.toNat < 128 ∧ (c.isAlphanum || c = '_') = true)) = true := by decide
  simpa only [List.all_eq_true, Bool.and_eq_true, decide_eq_true_eq] using hall

theorem word_of_mem_typeNames (hty : ty ∈ typeNames) (hc : c ∈ ty) : cc.word c = true := by
  obtain ⟨hascii, hword⟩ := (typeNames_ascii ty hty).2 c hc
  rw [cc.word_ascii c hascii, hword]

theorem findPrefix_of_isPrefixOf (hty : ty ∈ typeNames) (hlast : wordBefore cc last = false)
    (h : ty ++ ['#'] <+: cs) : findPrefix cc last cs ≠ none := by
  intro hnone
  simp only [findPrefix, hlast, Bool.false_eq_true, if_false] at hnone
  split at hnone
  · cases hnone
  · next hfind =>
    exact List.find?_eq_none.mp hfind ty hty (List.isPrefixOf_iff_prefix.mpr h)

theorem eq_of_prefix {w w' cs : List Char} {p : Char → Bool} (hw : ∀ c ∈ w, p c = true) (hw' : ∀ c ∈ w', p c = true)
    (hd : p d = false) (h : w ++ [d] <+: cs) (h' : w' ++ [d] <+: cs) : w = w' := by
  obtain ⟨r, rfl⟩ := h
  obtain ⟨r', h'⟩ := h'
  rw [List.append_assoc, List.append_assoc] at h'
  have htake := congrArg (List.takeWhile p) h'
  rwa [List.singleton_append, List.singleton_append, (split_append hw hd r).1,
    (split_append hw' hd r').1, eq_comm] at htake

theorem findPrefix_site (h : findPrefix cc last cs = some f) :
    wordBefore cc last = false ∧ ∃ ty ∈ typeNames, f.site = ty ++ ['#'] ∧ f.replacement = [] ∧
      ty ++ ['#'] ++ f.rest = cs := by
  obtain ⟨hlast, ty, hty, rfl⟩ := findPrefix_eq_some.mp h
  exact ⟨hlast, ty, List.mem_of_find?_eq_some hty, rfl, rfl, (prefixPattern cc).split h⟩

theorem edited_prefix (hn : cells.length ≤ n)
    (h : (prefixPattern cc).EveryMatch GoodPrefix n before cells) :
    Edited (AllowPrefix cc) before cells
      ((prefixPattern cc).sub n (texts before) (texts cells)) := by
  refine Pattern.edited_sub ?_ hn h
  intro before cells f out hf hgood hrest
  obtain ⟨hlast, -, -, -, hnew, -⟩ := findPrefix_site hf
  obtain ⟨⟨ty, hty, hsite⟩, hcode, hliteral⟩ := hgood
  have hallow : AllowPrefix cc before (cells.take f.site.length) [] (cells.drop f.site.length) :=
    ⟨rfl, hlast, hcode, ⟨ty, hty, by rw [Pattern.texts_take hf, hsite]⟩, hliteral⟩
  have hedit := Edited.edit hallow hrest
  rwa [List.take_append_drop, ← hnew] at hedit

/-- After a word character nothing is found. -/
theorem sub_word (hlast : wordBefore cc before.getLast? = true) (hw : ∀ c ∈ w, cc.word c = true)
    (h : (prefixPattern cc).sub n before l = w ++ '#' :: out) : ∃ rest, l = w ++ '#' :: rest := by
  induction w generalizing n before l with
  | nil =>
    cases n with
    | zero => exact ⟨out, h⟩
    | succ n =>
      cases l with
      | nil => cases h
      | cons a l =>
        have hnone : (prefixPattern cc).find before.getLast? (a :: l) = none := by
          simp [prefixPattern, findPrefix, hlast]
        rw [Pattern.sub_cons_none hnone] at h
        exact ⟨l, by rw [List.nil_append, (List.cons.inj h).1]⟩
  | cons c w ih =>
    cases n with
    | zero => exact ⟨out, h⟩
    | succ n =>
      cases l with
      | nil => cases h
      | cons a l =>
        have hnone : (prefixPattern cc).find before.getLast? (a :: l) = none := by
          simp [prefixPattern, findPrefix, hlast]
        rw [Pattern.sub_cons_none hnone] at h
        obtain ⟨rfl, htail⟩ := List.cons.inj h
        have hword : wordBefore cc (before ++ [a]).getLast? = true := by
          simpa [wordBefore] using hw a (by simp)
        obtain ⟨rest, rfl⟩ := ih hword (fun d hd => hw d (by simp [hd])) htail
        exact ⟨rest, rfl⟩

/-- What is left does not begin with a prefix. -/
theorem sub_ne_prefix (hty : ty ∈ typeNames) (hlast : wordBefore cc before.getLast? = false)
    (hn : l.length ≤ n) : (prefixPattern cc).sub n before l ≠ ty ++ '#' :: out := by
  induction n generalizing before l with
  | zero =>
    intro h
    cases List.length_eq_zero_iff.mp (Nat.le_zero.mp hn)
    simp [Pattern.sub] at h
  | succ n ih =>
    intro h
    cases l with
    | nil => simp [Pattern.sub] at h
    | cons a l =>
      cases hfind : (prefixPattern cc).find before.getLast? (a :: l) with
      | some f =>
        rw [Pattern.sub_cons_some hfind] at h
        obtain ⟨-, ty', -, hsite, hnew, htext⟩ := findPrefix_site hfind
        rw [hnew, List.nil_append] at h
        refine ih ?_ ?_ h
        · rw [hsite, ← List.append_assoc, List.getLast?_concat]
          exact word_hash
        · have hlen := congrArg List.length htext
          simp only [List.length_append, List.length_cons, List.length_nil] at hlen hn
          omega
      | none =>
        rw [Pattern.sub_cons_none hfind] at h
        obtain ⟨hne, -⟩ := typeNames_ascii ty hty
        cases hty' : ty with
        | nil => exact hne hty'
        | cons c w =>
          rw [hty'] at h
          obtain ⟨rfl, htail⟩ := List.cons.inj h
          have hw : ∀ d ∈ a :: w, cc.word d = true := fun d hd =>
            word_of_mem_typeNames hty (hty' ▸ hd)
          have hword : wordBefore cc (before ++ [a]).getLast? = true := by
            simpa [wordBefore] using hw a (by simp)
          obtain ⟨rest, rfl⟩ := sub_word hword (fun d hd => hw d (by simp [hd])) htail
          refine findPrefix_of_isPrefixOf hty hlast ?_ hfind
          rw [hty']
          exact ⟨rest, by simp⟩

/-- Inside of a word nothing may be dropped. -/
theorem edited_word (hlast : wordBefore cc (lastBefore before) = true)
    (hw : ∀ c ∈ w, cc.word c = true) (htext : texts cells = w ++ '#' :: rest)
    (h : Edited (AllowPrefix cc) before cells out) : ∃ out', out = w ++ '#' :: out' := by
  induction w generalizing before cells out with
  | nil =>
    cases h with
    | nil => cases htext
    | keep h =>
      obtain ⟨hc, -⟩ := List.cons.inj htext
      exact ⟨_, by rw [hc, List.nil_append]⟩
    | edit hallow h => exact absurd (hlast.symm.trans hallow.2.1) (by simp)
  | cons a w ih =>
    cases h with
    | nil => cases htext
    | @keep _ c cells out h =>
      obtain ⟨hc, hcells⟩ := List.cons.inj htext
      have hword : wordBefore cc (lastBefore (before ++ [c])) = true := by
        rw [wordBefore_append, hc]
        exact hw a (by simp)
      obtain ⟨out', rfl⟩ := ih hword (fun d hd => hw d (by simp [hd])) hcells h
      exact ⟨out', by rw [hc]; rfl⟩
    | edit hallow h => exact absurd (hlast.symm.trans hallow.2.1) (by simp)

theorem everyMatch_of_kept (hn : cells.length ≤ n)
    (h : Edited (AllowPrefix cc) before cells
      ((prefixPattern cc).sub n (texts before) (texts cells))) :
    (prefixPattern cc).EveryMatch GoodPrefix n before cells := by
  refine Pattern.everyMatch_of_edited ?_ ?_ hn h
  · intro before c cells out hnone h
    generalize hcells : c :: cells = all at h
    generalize hout : c.1 :: out = text at h
    cases h with
    | nil => cases hcells
    | keep h =>
      cases hcells
      cases hout
      exact h
    | @edit _ site new rest out hallow h =>
      obtain ⟨-, hlast, -, ⟨ty, hty, hsite⟩, -⟩ := hallow
      refine absurd hnone (findPrefix_of_isPrefixOf (List.mem_append_left _ hty) hlast ?_)
      rw [hcells, texts_append, hsite]
      exact List.prefix_append ..
  · intro n before cells f hf hn h
    obtain ⟨hlast, ty, hty, hsite, hnew, htext⟩ := findPrefix_site hf
    rw [hnew, List.nil_append] at h
    generalize hout : (prefixPattern cc).sub n (texts before ++ f.site) f.rest = out at h ⊢
    cases h with
    | nil => simp at htext
    | @keep _ c cells out h =>
      exfalso
      cases hty' : ty with
      | nil => exact (typeNames_ascii ty hty).1 hty'
      | cons a w =>
        have hw : ∀ d ∈ a :: w, cc.word d = true := fun d hd =>
          word_of_mem_typeNames hty (hty' ▸ hd)
        obtain ⟨hc, hcells⟩ : a = c.1 ∧ w ++ '#' :: f.rest = texts cells := by
          simpa [hty'] using htext
        have hword : wordBefore cc (lastBefore (before ++ [c])) = true := by
          rw [wordBefore_append, ← hc]
          exact hw a (by simp)
        obtain ⟨out', rfl⟩ := edited_word hword (fun d hd => hw d (by simp [hd])) hcells.symm h
        refine sub_ne_prefix hty ?_ ?_ (hout.trans (by rw [hty', hc]; rfl))
        · rw [hsite, ← List.append_assoc, List.getLast?_concat]
          exact word_hash
        · have hlen := congrArg List.length htext
          simp only [List.length_append, List.length_cons, List.length_nil, texts, List.length_map]
            at hlen hn
          omega
    | @edit _ site new rest out hallow h =>
      obtain ⟨rfl, -, hcode, ⟨ty', hty', hsite'⟩, hliteral⟩ := hallow
      have hsame : ty = ty' := by
        refine eq_of_prefix (p := cc.word) (fun d hd => word_of_mem_typeNames hty hd)
          (fun d hd => word_of_mem_typeNames (List.mem_append_left _ hty') hd) word_hash
          (htext ▸ List.prefix_append ..) ?_
        rw [texts_append, hsite']
        exact List.prefix_append ..
      have hlen : f.site.length = site.length := by
        rw [hsite, hsame, ← hsite', texts, List.length_map]
      rw [GoodPrefix, hlen, List.take_left, List.drop_left]
      exact ⟨⟨⟨ty, hsame ▸ hty', hsite⟩, hcode, hliteral⟩, h⟩

end

/-! ### Arguments -/

theorem arguments_append (hfirst : ∀ c ∈ texts first, ofFirst c = true) (rest : List Cell) :
    arguments depth arg (first ++ rest) =
      (level depth first).bind fun d => arguments d (arg ++ texts first) rest := by
  induction first generalizing depth arg with
  | nil => simp [level]
  | cons c first ih =>
    obtain ⟨c, k⟩ := c
    have htail : ∀ d ∈ texts first, ofFirst d = true := fun d hd => hfirst d (by simp [hd])
    obtain ⟨hcomma, hparen⟩ : c ≠ ',' ∧ c ≠ ')' := by
      simpa [ofFirst] using hfirst c (by simp)
    cases k with
    | code =>
      simp only [List.cons_append, arguments, level, hcomma, hparen, false_and, false_or, if_false]
      split_ifs with hopen hclose
      · simp [ih htail]
      · cases depth with
        | zero => rfl
        | succ depth => simp [ih htail]
      · simp [ih htail]
    | comment => simp [arguments, level, ih htail]
    | string => simp [arguments, level, ih htail]

/-- A character goes on with the argument that is read, or ends the arguments, or ends this one. -/
theorem arguments_cons (h : arguments depth arg ((c, k) :: cells) = some es) :
    (∃ d, arguments d (arg ++ [c]) cells = some es) ∨ c = ')' ∧ es = [arg] ∨
      k = .code ∧ depth = 0 ∧ ∃ es', es = arg :: es' ∧ arguments 0 [] cells = some es' := by
  cases k with
  | code =>
    simp only [arguments] at h
    split_ifs at h with hopen hclose hc hcomma
    · exact .inl ⟨_, h⟩
    · cases depth with
      | zero => exact .inr (.inl ⟨hc, (Option.some.inj h).symm⟩)
      | succ depth => exact .inl ⟨_, h⟩
    · cases depth with
      | zero => cases h
      | succ depth => exact .inl ⟨_, h⟩
    · obtain ⟨es', harg, heq⟩ := Option.map_eq_some_iff.mp h
      exact .inr (.inr ⟨rfl, hcomma.2, es', heq.symm, harg⟩)
    · exact .inl ⟨_, h⟩
  | comment => exact .inl ⟨_, h⟩
  | string => exact .inl ⟨_, h⟩

/-- There is a first argument, and it is only made longer. -/
theorem arguments_prefix (h : arguments depth arg cells = some es) :
    ∃ e es', es = e :: es' ∧ arg <+: e := by
  induction cells generalizing depth arg with
  | nil => cases h
  | cons c cells ih =>
    obtain ⟨c, k⟩ := c
    obtain ⟨d, h⟩ | ⟨-, rfl⟩ | ⟨-, -, es', rfl, -⟩ := arguments_cons h
    · obtain ⟨e, es', rfl, hprefix⟩ := ih h
      exact ⟨e, es', rfl, (List.prefix_append ..).trans hprefix⟩
    · exact ⟨arg, [], rfl, List.prefix_rfl⟩
    · exact ⟨arg, es', rfl, List.prefix_rfl⟩

/-- The last argument ends before a parenthesis. -/
theorem arguments_text (h : arguments depth arg cells = some [e]) :
    ∃ after, arg ++ texts cells = e ++ ')' :: after := by
  induction cells generalizing depth arg with
  | nil => cases h
  | cons c cells ih =>
    obtain ⟨c, k⟩ := c
    obtain ⟨d, h⟩ | ⟨rfl, heq⟩ | ⟨-, -, es', heq, h⟩ := arguments_cons h
    · simpa using ih h
    · cases heq
      exact ⟨texts cells, rfl⟩
    · cases heq
      obtain ⟨e', es', heq, -⟩ := arguments_prefix h
      cases heq

/-! ### Calls of two arguments -/

section

variable {cc : CharClasses}

theorem space_paren : cc.space '(' = false ∧ cc.space ')' = false ∧ cc.space ',' = false := by
  refine ⟨?_, ?_, ?_⟩ <;> rw [cc.space_ascii _ (by decide)] <;> decide

theorem group_of_not_blank (h : isBlank cc body = false) : group cc body = body.dropWhile cc.space := by
  simp [group, h]

theorem head_dropWhile_space (cs : List Char) :
    ∀ c ∈ (cs.dropWhile cc.space).head?, cc.space c = false := by
  intro c hc
  have h := List.head?_dropWhile_not cc.space cs
  rw [Option.mem_def.mp hc] at h
  exact h

theorem dropWhile_ne_nil (h : isBlank cc body = false) : body.dropWhile cc.space ≠ [] := by
  intro hnil
  rw [List.dropWhile_eq_nil_iff] at hnil
  rw [isBlank, List.all_eq_true.mpr hnil] at h
  cases h

theorem dropWhile_append (h : isBlank cc body = false) (rest : List Char) :
    (body ++ rest).dropWhile cc.space = body.dropWhile cc.space ++ rest := by
  rw [List.dropWhile_append, if_neg (by simpa using dropWhile_ne_nil h)]

theorem isBlank_eq_false_of_prefix {w e : List Char} (h : isBlank cc w = false) (hw : w <+: e) :
    isBlank cc e = false := by
  obtain ⟨rest, rfl⟩ := hw
  simp only [isBlank, List.all_append] at h ⊢
  rw [h, Bool.false_and]

theorem takeWhile_prefix_left {p : Char → Bool} (hd : p d = false) (e rest : List Char) :
    (e ++ d :: rest).takeWhile p <+: e := by
  rw [List.takeWhile_append]
  split_ifs
  · simp [hd]
  · exact List.takeWhile_prefix p

theorem edited_call (hn : cells.length ≤ n)
    (h : (callPattern cc op).EveryMatch (GoodCall cc op) n before cells) :
    Edited (AllowCall cc op) before cells
      ((callPattern cc op).sub n (texts before) (texts cells)) := by
  refine Pattern.edited_sub ?_ hn h
  intro before cells f out hf hgood hrest
  obtain ⟨T, head, first, tail, comma, e₂, rfl, hcells, hhead, hfirst, hcode, hoperand, hblank₁,
    hblank₂, hlevel, rfl, harg⟩ := hgood
  have hsecond : T.second.takeWhile cc.space ++ group cc T.second = T.second := by
    rw [group_of_not_blank hblank₂, List.takeWhile_append_dropWhile]
  have htail : texts tail = T.second ++ ')' :: T.rest := by
    have htext := congrArg texts hcells
    rw [T.text, texts_append, texts_append, texts_cons, hhead, hfirst] at htext
    simpa using htext.symm
  have hsplit : texts tail = T.second.takeWhile cc.space ++
      (group cc T.second ++ [')'] ++ T.rest) := by
    rw [htail, ← List.append_assoc, ← List.append_assoc, hsecond]
    simp
  obtain ⟨lead, tail', rfl, hlead, htail'⟩ := texts_split hsplit
  obtain ⟨kept, after, rfl, hkept, hafter⟩ := texts_split htail'
  have hblank : isBlank cc e₂ = false := by
    obtain ⟨rest', htext⟩ := arguments_text harg
    rw [List.nil_append, htail] at htext
    refine isBlank_eq_false_of_prefix hblank₂ ?_
    rw [← (split_append T.second_chars (c := ')') rfl T.rest).1, htext]
    exact takeWhile_prefix_left rfl _ _
  have hsite : texts (head ++ (first ++ (',', Kind.code) :: lead) ++ kept) = T.found.site := by
    have hjoin : T.second.takeWhile cc.space ++ (group cc T.second ++ [')']) = T.second ++ [')'] := by
      rw [← List.append_assoc, hsecond]
    simp [CallText.found, hhead, hfirst, hlead, hkept, hjoin]
  have hlen : (head ++ (first ++ (',', Kind.code) :: lead) ++ kept).length = T.found.site.length := by
    rw [← hsite, texts, List.length_map]
  have hall : cells = head ++ (first ++ (',', Kind.code) :: lead) ++ kept ++ after := by
    simp [hcells]
  rw [(congrArg (List.take T.found.site.length) hall).trans (List.take_left' hlen),
    (congrArg (List.drop T.found.site.length) hall).trans (List.drop_left' hlen)] at hrest
  have hkeep : Edited (AllowCall cc op) (before ++ (head ++ (first ++ (',', Kind.code) :: lead)))
      (kept ++ after) (texts kept ++ out) := .keep_append (by simpa using hrest)
  have hallow : AllowCall cc op before (head ++ (first ++ (',', Kind.code) :: lead))
      ('(' :: (T.first.dropWhile cc.space ++ ' ' :: (op ++ [' ']))) (kept ++ after) := by
    refine ⟨(exists_callText hf).1, hoperand, head, first ++ (',', Kind.code) :: (lead ++ (kept ++ after)),
      T.gap, T.first, e₂, T.second.takeWhile cc.space, by simp, hcode, hhead, T.gap_space, ?_,
      hblank₁, hblank, ?_, fun _ => List.mem_takeWhile_imp, ?_, rfl⟩
    · rw [arguments_append (by rw [hfirst]; exact T.first_chars), hlevel]
      simp [arguments, harg, hfirst]
    · simp [hhead, hfirst, hlead]
    · intro c hc
      refine head_dropWhile_space T.second c ?_
      rw [← group_of_not_blank hblank₂]
      rw [texts_append, hkept, List.append_assoc, List.head?_append_of_ne_nil] at hc
      · exact hc
      · rw [group_of_not_blank hblank₂]
        exact dropWhile_ne_nil hblank₂
  have hedit := Edited.edit hallow hkeep
  have hout : T.found.replacement ++ out =
      '(' :: (T.first.dropWhile cc.space ++ ' ' :: (op ++ [' '])) ++ (texts kept ++ out) := by
    simp [CallText.found, hkept, group_of_not_blank hblank₁]
  rw [hout]
  simpa [hcells] using hedit

theorem head_of_allowCall (hop : op ≠ []) (h : AllowCall cc op before site new rest) :
    (texts site).head? = op.head? ∧ new.head? = some '(' := by
  obtain ⟨head, inner, gap, e₁, e₂, lead, -, -, -, -, -, -, -, hsite, -, -, rfl⟩ := h.parts
  exact ⟨by rw [hsite, List.head?_append_of_ne_nil _ hop], rfl⟩

theorem eq_or_of_edited (hop : op ≠ [])
    (h : Edited (AllowCall cc op) before (c :: cells) (s :: out)) : c.1 = s ∨ s = '(' := by
  generalize hcells : c :: cells = all at h
  generalize hout : s :: out = text at h
  cases h with
  | nil => cases hcells
  | keep h =>
    cases hcells
    cases hout
    exact .inl rfl
  | edit hallow h =>
    obtain ⟨-, hnew⟩ := head_of_allowCall hop hallow
    have hhead := congrArg List.head? hout
    rw [List.head?_append, hnew] at hhead
    exact .inr (Option.some.inj hhead)

/-- Where the text is the same, nothing is changed. -/
theorem edited_of_same (hop : op ≠ []) (hparen : op.head? ≠ some '(')
    (h : Edited (AllowCall cc op) before (c :: cells) (c.1 :: out)) :
    Edited (AllowCall cc op) (before ++ [c]) cells out := by
  generalize hcells : c :: cells = all at h
  generalize hout : c.1 :: out = text at h
  cases h with
  | nil => cases hcells
  | keep h =>
    cases hcells
    cases hout
    exact h
  | @edit _ site new rest out' hallow h =>
    obtain ⟨hsite, hnew⟩ := head_of_allowCall hop hallow
    have hfirst := congrArg (fun l => (texts l).head?) hcells
    have hhead := congrArg List.head? hout
    simp only [texts_append, texts_cons, List.head?_append, List.head?_cons, hsite, hnew] at hfirst hhead
    refine absurd ?_ hparen
    cases ho : op.head? with
    | none => exact absurd (List.head?_eq_none_iff.mp ho) hop
    | some o =>
      rw [ho] at hfirst
      exact hfirst.symm.trans hhead

theorem edited_of_append (hop : op ≠ []) (hparen : op.head? ≠ some '(') (xs : List Cell)
    (out : List Char) (h : Edited (AllowCall cc op) before (xs ++ cells) (texts xs ++ out)) :
    Edited (AllowCall cc op) (before ++ xs) cells out := by
  induction xs generalizing before with
  | nil => simpa using h
  | cons c xs ih => simpa using ih (edited_of_same hop hparen h)

theorem append_comma {x y r r' : List Char} (hy : ',' ∉ y) (h : x ++ ',' :: r = y ++ ',' :: r') :
    x = y ∧ r = r' ∨ ∃ more, x = y ++ ',' :: more := by
  obtain ⟨a, rfl, ha⟩ | ⟨a, rfl, ha⟩ := List.append_eq_append_iff.mp h
  · cases a with
    | nil => exact .inl ⟨by simp, by simpa using ha⟩
    | cons c a =>
      obtain ⟨rfl, -⟩ := List.cons.inj ha
      exact absurd (by simp) hy
  · cases a with
    | nil => exact .inl ⟨by simp, by simpa using ha.symm⟩
    | cons c a =>
      obtain ⟨rfl, -⟩ := List.cons.inj ha
      exact .inr ⟨a, rfl⟩

/-- The group of a text of spaces is a space. -/
theorem group_of_blank (h : isBlank cc body = true) (hne : body ≠ []) :
    ∃ s, cc.space s = true ∧ group cc body = [s] := by
  refine ⟨body.getLast hne, List.all_eq_true.mp h _ (List.getLast_mem hne), ?_⟩
  rw [group, if_pos h, List.getLast?_eq_some_getLast hne, Option.toList_some]

theorem dropWhile_of_blank (h : isBlank cc body = true) (rest : List Char) :
    (body ++ rest).dropWhile cc.space = rest.dropWhile cc.space :=
  List.dropWhile_append_of_pos (List.all_eq_true.mp h)

theorem dropWhile_of_head {cs : List Char} (h : ∀ c ∈ cs.head?, cc.space c = false) :
    cs.dropWhile cc.space = cs := by
  cases cs with
  | nil => rfl
  | cons c cs => simp [h c rfl]

/-- The first argument is the first group. -/
theorem first_eq {A r r' : List Char} (hfirst : ∀ c ∈ first, ofFirst c = true) (hne : first ≠ [])
    (h : e₁ ++ ',' :: r = first ++ ',' :: r')
    (htext : group cc first ++ ' ' :: A = e₁.dropWhile cc.space ++ ' ' :: A') :
    e₁ = first ∧ r = r' := by
  have hcomma : ',' ∉ first := fun hc => absurd (hfirst _ hc) (by decide)
  obtain heq | ⟨more, rfl⟩ := append_comma hcomma h
  · exact heq
  · exfalso
    cases hblank : isBlank cc first with
    | true =>
      obtain ⟨s, hs, hgroup⟩ := group_of_blank hblank hne
      rw [hgroup, dropWhile_of_blank hblank, dropWhile_of_head (by simp [space_paren.2.2])] at htext
      obtain ⟨rfl, -⟩ := List.cons.inj htext
      exact absurd hs (by simp [space_paren.2.2])
    | false =>
      rw [group_of_not_blank hblank, dropWhile_append hblank, List.append_assoc] at htext
      have hcons := List.append_cancel_left htext
      exact absurd (List.cons.inj hcons).1 (by decide)

/-- The second argument begins with the second group. -/
theorem second_eq (hop : op ≠ []) (hne : second ≠ []) (hlead : ∀ c ∈ lead, cc.space c = true)
    (hrest : ∀ c ∈ (texts rest).head?, cc.space c = false)
    (h : lead ++ texts rest = second ++ ')' :: after)
    (hedit : Edited (AllowCall cc op) before rest (group cc second ++ ')' :: out)) :
    isBlank cc second = false ∧ texts rest = group cc second ++ ')' :: after := by
  have hdrop := congrArg (List.dropWhile cc.space) h
  rw [List.dropWhile_append_of_pos hlead, dropWhile_of_head hrest] at hdrop
  cases hblank : isBlank cc second with
  | true =>
    exfalso
    obtain ⟨s, hs, hgroup⟩ := group_of_blank hblank hne
    rw [dropWhile_of_blank hblank, dropWhile_of_head (by simp [space_paren.2.1])] at hdrop
    rw [hgroup] at hedit
    cases rest with
    | nil => cases hdrop
    | cons c cells =>
      obtain ⟨hc, -⟩ := List.cons.inj hdrop
      obtain rfl | rfl := eq_or_of_edited hop hedit
      · rw [hc, space_paren.2.1] at hs
        cases hs
      · rw [space_paren.1] at hs
        cases hs
  | false =>
    rw [dropWhile_append hblank, ← group_of_not_blank hblank] at hdrop
    exact ⟨rfl, hdrop⟩

/-- The brackets of an argument are closed before the comma that ends it. -/
theorem level_eq (hfirst : ∀ c ∈ texts first, ofFirst c = true)
    (h : arguments 0 [] (first ++ (',', k) :: tail) = some [texts first, e₂]) :
    level 0 first = some 0 ∧ k = .code ∧ arguments 0 [] tail = some [e₂] := by
  rw [arguments_append hfirst] at h
  obtain ⟨depth, hlevel, h⟩ := Option.bind_eq_some_iff.mp h
  obtain ⟨d, h⟩ | ⟨hc, -⟩ | ⟨rfl, rfl, es, heq, h⟩ := arguments_cons h
  · exfalso
    obtain ⟨e, es, heq, hprefix⟩ := arguments_prefix h
    cases heq
    have hlen := hprefix.length_le
    simp only [List.nil_append, List.length_append, List.length_singleton] at hlen
    omega
  · exact absurd hc (by decide)
  · cases heq
    exact ⟨hlevel, rfl, h⟩

theorem goodCall_of_allow (hop : op ≠ []) (hparen : op.head? ≠ some '(')
    (T : CallText cc op (texts (site ++ rest))) (hallow : AllowCall cc op before site new rest)
    (h : Edited (AllowCall cc op) (before ++ site) rest out')
    (htext : T.found.replacement ++ out = new ++ out') :
    GoodCall cc op before (site ++ rest) T.found ∧
      Edited (AllowCall cc op) (before ++ (site ++ rest).take T.found.site.length)
        ((site ++ rest).drop T.found.site.length) out := by
  obtain ⟨-, hoperand, head, inner, gap, e₁, e₂, lead, hsplit, hcode, hhead, hgap, harg,
    hblank₁, -, hsite, hlead, hrest, rfl⟩ := hallow
  have hjoin : texts (site ++ rest) =
      op ++ (gap ++ '(' :: (e₁ ++ ',' :: (lead ++ texts rest))) := by
    rw [texts_append, hsite]
    simp
  have hwhole : op ++ (gap ++ '(' :: texts inner) =
      op ++ (T.gap ++ '(' :: (T.first ++ ',' :: (T.second ++ ')' :: T.rest))) := by
    rw [← T.text, hsplit, texts_append, hhead]
    simp
  have hgaps := List.append_cancel_left hwhole
  have hgap' : gap = T.gap := by
    have htake := congrArg (List.takeWhile cc.space) hgaps
    rwa [(split_append hgap space_paren.1 _).1, (split_append T.gap_space space_paren.1 _).1] at htake
  subst hgap'
  have hinner : texts inner = T.first ++ ',' :: (T.second ++ ')' :: T.rest) :=
    (List.cons.inj (List.append_cancel_left hgaps)).2
  have hargs : e₁ ++ ',' :: (lead ++ texts rest) =
      T.first ++ ',' :: (T.second ++ ')' :: T.rest) := by
    have htotal := hjoin.symm.trans (T.text.trans hwhole.symm)
    rw [← hinner]
    exact (List.cons.inj (List.append_cancel_left (List.append_cancel_left htotal))).2
  simp only [CallText.found, List.cons_append, List.append_assoc, List.cons.injEq, true_and,
    List.nil_append] at htext
  obtain ⟨rfl, hsecond⟩ := first_eq T.first_chars T.first_ne hargs htext
  rw [group_of_not_blank hblank₁] at htext
  have hout : group cc T.second ++ ')' :: out = out' := by simpa using htext
  subst hout
  obtain ⟨hblank₂, hrest'⟩ := second_eq hop T.second_ne hlead hrest hsecond h
  obtain ⟨first, tail, rfl, hfirst, htail⟩ := texts_split hinner
  obtain ⟨comma, tail, rfl, hcomma, -⟩ := List.map_eq_cons_iff.mp htail
  obtain ⟨c, k⟩ := comma
  obtain rfl : c = ',' := hcomma
  rw [← hfirst] at harg
  obtain ⟨hlevel, rfl, htailArg⟩ := level_eq (by rw [hfirst]; exact T.first_chars) harg
  refine ⟨⟨T, head, first, tail, (',', .code), e₂, rfl, hsplit, hhead, hfirst, hcode, hoperand,
    hblank₁, hblank₂, hlevel, rfl, htailArg⟩, ?_⟩
  have hkept : texts rest = group cc T.second ++ [')'] ++ T.rest := by simp [hrest']
  obtain ⟨kept, after, rfl, hkept, -⟩ := texts_split hkept
  have hafter := edited_of_append hop hparen kept out (by simpa [hkept] using h)
  have hlen : (site ++ kept).length = T.found.site.length := by
    have hsecond' : (lead ++ (group cc T.second ++ ')' :: T.rest)).length =
        (T.second ++ ')' :: T.rest).length := by rw [← hrest', hsecond]
    have hsite' := congrArg List.length hsite
    have hkept' := congrArg List.length hkept
    simp only [texts, List.length_append, List.length_cons, List.length_map, List.length_nil]
      at hsecond' hsite' hkept'
    simp only [CallText.found, List.length_append, List.length_cons, List.length_nil]
    omega
  have hassoc : site ++ (kept ++ after) = site ++ kept ++ after := (List.append_assoc ..).symm
  rw [(congrArg (List.take T.found.site.length) hassoc).trans (List.take_left' hlen),
    (congrArg (List.drop T.found.site.length) hassoc).trans (List.drop_left' hlen)]
  simpa using hafter

theorem everyMatch_call (hop : op ≠ []) (hparen : op.head? ≠ some '(') (hn : cells.length ≤ n)
    (h : Edited (AllowCall cc op) before cells
      ((callPattern cc op).sub n (texts before) (texts cells))) :
    (callPattern cc op).EveryMatch (GoodCall cc op) n before cells := by
  refine Pattern.everyMatch_of_edited (fun _ => edited_of_same hop hparen) ?_ hn h
  intro n before cells f hf hn h
  obtain ⟨-, T, rfl⟩ := exists_callText hf
  generalize (callPattern cc op).sub n (texts before ++ T.found.site) T.found.rest = out at h ⊢
  generalize htext : T.found.replacement ++ out = text at h
  cases h with
  | nil => exact absurd (List.append_eq_nil_iff.mp T.text.symm).1 hop
  | @keep _ c cells out' h =>
    obtain ⟨hc, -⟩ := List.cons.inj htext
    have hhead := congrArg List.head? T.text
    rw [List.head?_append_of_ne_nil _ hop, texts_cons, ← hc] at hhead
    exact absurd hhead.symm hparen
  | edit hallow h => exact goodCall_of_allow hop hparen T hallow h htext

/-! ### Parentheses -/

def isParen (c : Char) : Bool := c = '(' || c = ')'

theorem filter_spaces (cc : CharClasses) {cs : List Char} (h : ∀ c ∈ cs, cc.space c = true) : cs.filter isParen = [] := by
  rw [List.filter_eq_nil_iff]
  intro c hc hparen
  have hspace := h c hc
  simp only [isParen, Bool.or_eq_true, decide_eq_true_eq] at hparen
  obtain rfl | rfl := hparen
  · simp [space_paren.1] at hspace
  · simp [space_paren.2.1] at hspace

theorem filter_group (hne : body ≠ []) : (group cc body).filter isParen = body.filter isParen := by
  cases hblank : isBlank cc body with
  | true =>
    obtain ⟨s, hs, hgroup⟩ := group_of_blank hblank hne
    rw [hgroup, filter_spaces cc (by simpa using hs),
      filter_spaces cc (List.all_eq_true.mp hblank)]
  | false =>
    calc (group cc body).filter isParen
        = (body.takeWhile cc.space).filter isParen ++ (body.dropWhile cc.space).filter isParen := by
          rw [group_of_not_blank hblank, filter_spaces cc fun _ => List.mem_takeWhile_imp,
            List.nil_append]
      _ = body.filter isParen := by rw [← List.filter_append, List.takeWhile_append_dropWhile]

theorem filter_call (hop : op.filter isParen = []) (T : CallText cc op cs) :
    T.found.replacement.filter isParen = T.found.site.filter isParen := by
  simp [CallText.found, hop, filter_group T.first_ne, filter_group T.second_ne,
    filter_spaces cc T.gap_space, isParen]

theorem filter_typeName (hty : ty ∈ typeNames) : (ty ++ ['#']).filter isParen = [] := by
  revert ty
  decide

end

/-! ### The passes -/

structure Pass where
  pattern : Pattern Char
  /-- The edits that keep the meaning. -/
  allow : List Cell → List Cell → List Char → List Cell → Prop
  /-- The matches that are such edits. -/
  good : List Cell → List Cell → Found Char → Prop
  edited_iff : ∀ cells : List Cell, Edited allow [] cells (pattern.sub cells.length [] (texts cells)) ↔
    pattern.EveryMatch good cells.length [] cells
  parens : pattern.find last cs = some f → f.replacement.filter isParen = f.site.filter isParen

def Pass.apply (p : Pass) (cs : List Char) : List Char := p.pattern.sub cs.length [] cs

theorem Pass.apply_iff (p : Pass) (cs : List Char) :
    Edited p.allow [] (mark .code cs) (p.apply cs) ↔
      p.pattern.EveryMatch p.good cs.length [] (mark .code cs) := by
  have h := p.edited_iff (mark .code cs)
  have hlen : (mark .code cs).length = cs.length := by
    rw [← List.length_map (f := Prod.fst)]
    exact congrArg List.length (texts_mark .code cs)
  rwa [texts_mark, hlen] at h

section

variable (cc : CharClasses)

def prefixPass : Pass where
  pattern := prefixPattern cc
  allow := AllowPrefix cc
  good := GoodPrefix
  edited_iff _ := ⟨everyMatch_of_kept (Nat.le_refl _), edited_prefix (Nat.le_refl _)⟩
  parens h := by
    obtain ⟨-, ty, hty, hsite, hnew, -⟩ := findPrefix_site h
    rw [hsite, hnew, filter_typeName hty, List.filter_nil]

def operators : List (List Char) := ["AND", "OR", "XOR"].map String.toList

theorem of_mem_operators (h : op ∈ operators) :
    op ≠ [] ∧ op.head? ≠ some '(' ∧ op.filter isParen = [] := by
  revert op
  decide

def callPass (op : List Char) (h : op ∈ operators) : Pass where
  pattern := callPattern cc op
  allow := AllowCall cc op
  good := GoodCall cc op
  edited_iff _ :=
    ⟨everyMatch_call (of_mem_operators h).1 (of_mem_operators h).2.1 (Nat.le_refl _),
      edited_call (Nat.le_refl _)⟩
  parens hf := by
    obtain ⟨-, T, rfl⟩ := exists_callText hf
    exact filter_call (of_mem_operators h).2.2 T

def passes : List Pass := prefixPass cc :: operators.attach.map fun op => callPass cc op.1 op.2

def preprocess (source : List Char) : List Char := (passes cc).foldl (fun cs p => p.apply cs) source

/-- What holds of every pass and of the text that it is given. -/
def Along (R : Pass → List Char → Prop) : List Pass → List Char → Prop
  | [], _ => True
  | p :: ps, cs => R p cs ∧ Along R ps (p.apply cs)

/-- Each pass only drops prefixes of literals, or only turns calls of two arguments into operations,
and the parentheses are those of the source. -/
structure Preserves (source : List Char) : Prop where
  edits : Along (fun p cs => Edited p.allow [] (mark .code cs) (p.apply cs)) (passes cc) source
  parens : (preprocess cc source).filter isParen = source.filter isParen

theorem Along.iff {R R' : Pass → List Char → Prop} (h : ∀ p cs, R p cs ↔ R' p cs) (ps : List Pass)
    (cs : List Char) : Along R ps cs ↔ Along R' ps cs := by
  induction ps generalizing cs with
  | nil => exact Iff.rfl
  | cons p ps ih => exact and_congr (h p cs) (ih _)

theorem filter_preprocess (source : List Char) :
    (preprocess cc source).filter isParen = source.filter isParen := by
  unfold preprocess
  generalize passes cc = ps
  induction ps generalizing source with
  | nil => rfl
  | cons p ps ih => exact (ih _).trans (Pattern.filter_sub isParen p.parens _ _ _)

end

/-! ### Texts that are changed -/

def asciiClasses : CharClasses where
  word := fun c => c.isAlphanum || c = '_'
  space := fun c => 9 ≤ c.toNat && c.toNat ≤ 13 || 28 ≤ c.toNat && c.toNat ≤ 32
  word_ascii _ _ := rfl
  space_ascii _ _ := rfl

example : preprocess asciiClasses "AND(a, OR(b,c))".toList = "(a AND (b OR c))".toList := by decide

example : preprocess asciiClasses "AND(f(a,b),c)".toList = "(f(a AND b),c)".toList := by decide

/-- `(*DT#1*)` -/
def prefixInComment : List Char := ['(', '*', 'D', 'T', '#', '1', '*', ')']

end Uniset.St2js.Preprocess
