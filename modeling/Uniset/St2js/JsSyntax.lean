import Mathlib.Tactic.SplitIfs
import Uniset.St2js.Codegen

/-! JavaScript expressions as text: tokens by the longest match, and the tree that the tokens are read
as. -/

namespace Uniset.St2js.JsSyntax

inductive Token
  | word (w : List Char)
  | number (digits : List Char)
  | punct (p : List Char)
  deriving DecidableEq, Repr

def isIdStart (c : Char) : Bool := c.isAlpha || c = '_' || c = '$'

def isIdPart (c : Char) : Bool := isIdStart c || c.isDigit

/-- The punctuators and the starts of comments, the longest first. -/
def punctuators : List (List Char) :=
  [['>', '>', '>', '='],
   ['=', '=', '='], ['!', '=', '='], ['*', '*', '='], ['<', '<', '='], ['>', '>', '='],
   ['>', '>', '>'], ['.', '.', '.'], ['&', '&', '='], ['|', '|', '='], ['?', '?', '='],
   ['<', '='], ['>', '='], ['=', '='], ['!', '='], ['+', '+'], ['-', '-'], ['<', '<'], ['>', '>'],
   ['&', '&'], ['|', '|'], ['?', '?'], ['+', '='], ['-', '='], ['*', '='], ['%', '='], ['/', '='],
   ['&', '='], ['|', '='], ['^', '='], ['=', '>'], ['*', '*'], ['?', '.'], ['/', '/'], ['/', '*'],
   ['('], [')'], ['['], [']'], [';'], [','], ['<'], ['>'], ['+'], ['-'], ['*'], ['/'], ['%'], ['&'],
   ['|'], ['^'], ['!'], ['~'], ['?'], [':'], ['='], ['.']]

/-- The first token of a text that does not begin with a space, and the rest of the text. -/
def nextToken (cs : List Char) : Option (Token × List Char) :=
  match cs with
  | [] => none
  | c :: _ =>
    if isIdStart c then some (.word (cs.takeWhile isIdPart), cs.dropWhile isIdPart)
    else if c.isDigit then
      match cs.dropWhile Char.isDigit with
      | d :: rest =>
        if isIdPart d || d = '.' then none else some (.number (cs.takeWhile Char.isDigit), d :: rest)
      | [] => some (.number cs, [])
    else
      match punctuators.find? (·.isPrefixOf cs) with
      | some p => some (.punct p, cs.drop p.length)
      | none => none

/-- The tokens of a text, with fuel for its characters. -/
def lexFrom : Nat → List Char → Option (List Token)
  | _, [] => some []
  | 0, _ :: _ => none
  | n + 1, ' ' :: cs => lexFrom n cs
  | n + 1, c :: cs =>
    match nextToken (c :: cs) with
    | some (t, rest) => (lexFrom n rest).map (t :: ·)
    | none => none

def Lexed (cs : List Char) (ts : List Token) : Prop := ∃ n, lexFrom n cs = some ts

/-! ### Trees -/

inductive JsOp
  | or | and
  | seq | sne
  | lt | gt | le | ge
  | add | sub
  | mul | div | rem
  deriving DecidableEq, Repr

inductive JsExpr
  | num (n : Nat)
  | bool (b : Bool)
  | ref (r : Ref)
  | not (e : JsExpr)
  | neg (e : JsExpr)
  | preDecrement (r : Ref)
  | binary (op : JsOp) (l r : JsExpr)
  | cond (c a b : JsExpr)
  deriving DecidableEq, Repr

def JsOp.text : JsOp → List Char
  | .or => ['|', '|']
  | .and => ['&', '&']
  | .seq => ['=', '=', '=']
  | .sne => ['!', '=', '=']
  | .lt => ['<']
  | .gt => ['>']
  | .le => ['<', '=']
  | .ge => ['>', '=']
  | .add => ['+']
  | .sub => ['-']
  | .mul => ['*']
  | .div => ['/']
  | .rem => ['%']

def JsOp.precedence : JsOp → Nat
  | .or => 1
  | .and => 2
  | .seq | .sne => 3
  | .lt | .gt | .le | .ge => 4
  | .add | .sub => 5
  | .mul | .div | .rem => 6

def allOps : List JsOp := [.or, .and, .seq, .sne, .lt, .gt, .le, .ge, .add, .sub, .mul, .div, .rem]

def opOf (p : List Char) : Option JsOp := allOps.find? (·.text = p)

/-- A name that is an identifier. -/
def isIdentifier (x : List Char) : Bool :=
  match x with
  | [] => false
  | c :: cs => isIdStart c && cs.all isIdPart && !reservedWords.contains x

/-- A name that may stand after a dot. -/
def isPropertyName (x : List Char) : Bool :=
  match x with
  | [] => false
  | c :: cs => isIdStart c && cs.all isIdPart

inductive Goal
  | conditional
  | binary (precedence : Nat)
  | more (precedence : Nat) (left : JsExpr)
  | unary

def thisWord : List Char := ['t', 'h', 'i', 's']

def trueWord : List Char := ['t', 'r', 'u', 'e']

def falseWord : List Char := ['f', 'a', 'l', 's', 'e']

/-- What a word begins: a literal, or a reference to a variable or to a property. -/
def parseWord (w : List Char) (ts : List Token) : Option (JsExpr × List Token) :=
  if w = trueWord then some (.bool true, ts)
  else if w = falseWord then some (.bool false, ts)
  else if w = thisWord then
    match ts with
    | .punct ['.'] :: .word x :: ts => some (.ref (.this x), ts)
    | _ => none
  else if isIdentifier w then
    match ts with
    | .punct ['.'] :: .word x :: ts => some (.ref (.member w x), ts)
    | ts => some (.ref (.name w), ts)
  else none

/-- Expressions by precedence; operators are left associative.  The fuel is for the calls. -/
def parse : Nat → Goal → List Token → Option (JsExpr × List Token)
  | 0, _, _ => none
  | n + 1, .conditional, ts =>
    match parse n (.binary 0) ts with
    | some (c, .punct ['?'] :: ts) =>
      match parse n .conditional ts with
      | some (a, .punct [':'] :: ts) =>
        (parse n .conditional ts).map fun r => (.cond c a r.1, r.2)
      | _ => none
    | r => r
  | n + 1, .binary p, ts =>
    match parse n .unary ts with
    | some (l, ts) => parse n (.more p l) ts
    | none => none
  | n + 1, .more p l, ts =>
    match ts with
    | .punct o :: rest =>
      match opOf o with
      | some op =>
        if p ≤ op.precedence then
          match parse n (.binary (op.precedence + 1)) rest with
          | some (r, rest) => parse n (.more p (.binary op l r)) rest
          | none => none
        else some (l, ts)
      | none => some (l, ts)
    | ts => some (l, ts)
  | n + 1, .unary, ts =>
    match ts with
    | .word w :: ts => parseWord w ts
    | .number ds :: ts => some (.num (Nat.ofDigitChars 10 ds 0), ts)
    | .punct ['!'] :: ts => (parse n .unary ts).map fun r => (.not r.1, r.2)
    | .punct ['-'] :: ts => (parse n .unary ts).map fun r => (.neg r.1, r.2)
    | .punct ['-', '-'] :: ts =>
      match parse n .unary ts with
      | some (.ref r, ts) => some (.preDecrement r, ts)
      | _ => none
    | .punct ['('] :: ts =>
      match parse n .conditional ts with
      | some (e, .punct [')'] :: ts) => some (e, ts)
      | _ => none
    | _ => none

def Parsed (ts : List Token) (e : JsExpr) : Prop := ∃ n, parse n .conditional ts = some (e, [])

/-- The text is a valid expression, and is read as this tree. -/
def ParsesTo (cs : List Char) (e : JsExpr) : Prop := ∃ ts, Lexed cs ts ∧ Parsed ts e

/-! ### Tokens of a text -/

namespace Lexed

theorem nil : Lexed [] [] := ⟨0, rfl⟩

theorem space (h : Lexed cs ts) : Lexed (' ' :: cs) ts := by
  obtain ⟨n, hn⟩ := h
  exact ⟨n + 1, hn⟩

theorem token (hc : c ≠ ' ') (ht : nextToken (c :: cs) = some (t, rest)) (h : Lexed rest ts) :
    Lexed (c :: cs) (t :: ts) := by
  obtain ⟨n, hn⟩ := h
  exact ⟨n + 1, by simp [lexFrom, ht, hn]⟩

theorem uncons (hc : c ≠ ' ') (ht : nextToken (c :: cs) = some (t, rest)) (h : Lexed (c :: cs) ts) :
    ∃ ts', ts = t :: ts' ∧ Lexed rest ts' := by
  obtain ⟨_ | n, hn⟩ := h
  · cases hn
  · simp only [lexFrom, ht, Option.map_eq_some_iff] at hn
    obtain ⟨ts', hn, rfl⟩ := hn
    exact ⟨ts', rfl, n, hn⟩

end Lexed

/-- What may follow an operand: the end, a space, or a parenthesis. -/
def Boundary (cs : List Char) : Prop := ∀ c ∈ cs.head?, c = ' ' ∨ c = ')'

theorem Boundary.nil : Boundary [] := by
  intro c hc
  cases hc

theorem Boundary.space : Boundary (' ' :: cs) := by
  intro c hc
  exact .inl (Option.some.inj hc).symm

theorem Boundary.paren : Boundary (')' :: cs) := by
  intro c hc
  exact .inr (Option.some.inj hc).symm

theorem Boundary.of_not (h : Boundary rest) (p : Char → Bool) (hs : p ' ' = false)
    (hp : p ')' = false) : ∀ c ∈ rest.head?, p c = false := by
  intro c hc
  obtain rfl | rfl := h c hc
  · exact hs
  · exact hp

theorem split_append {w rest : List Char} {p : Char → Bool} (hw : ∀ c ∈ w, p c = true)
    (h : ∀ c ∈ rest.head?, p c = false) :
    (w ++ rest).takeWhile p = w ∧ (w ++ rest).dropWhile p = rest := by
  rw [List.takeWhile_append_of_pos hw, List.dropWhile_append_of_pos hw]
  cases rest with
  | nil => simp
  | cons c cs => simp [h c rfl]

theorem ne_space_of_isIdStart (h : isIdStart c = true) : c ≠ ' ' := by
  rintro rfl
  exact absurd h (by decide)

theorem nextToken_word (hw : isPropertyName w = true) (h : ∀ c ∈ rest.head?, isIdPart c = false) :
    nextToken (w ++ rest) = some (.word w, rest) := by
  cases w with
  | nil => cases hw
  | cons c cs =>
    simp only [isPropertyName, Bool.and_eq_true] at hw
    have hall : ∀ d ∈ c :: cs, isIdPart d = true := by
      simpa [isIdPart, hw.1] using hw.2
    obtain ⟨htake, hdrop⟩ := split_append hall h
    simp only [List.cons_append] at htake hdrop
    simp [nextToken, hw.1, htake, hdrop]

theorem isIdStart_eq_false (h : c.isDigit = true) : isIdStart c = false := by
  simp only [Char.isDigit, Bool.and_eq_true, decide_eq_true_eq, ge_iff_le, UInt32.le_iff_toNat_le] at h
  have hcode : 48 ≤ c.val.toNat ∧ c.val.toNat ≤ 57 := h
  have hne : c ≠ '_' ∧ c ≠ '$' := by
    constructor <;> rintro rfl <;> exact absurd hcode (by decide)
  have halpha : c.isAlpha = false := by
    change (decide (c.val ≥ 65 ∧ c.val ≤ 90) || (decide (c.val ≥ 97) && decide (c.val ≤ 122))) = false
    simp only [Bool.or_eq_false_iff, Bool.and_eq_false_iff, decide_eq_false_iff_not, ge_iff_le,
      UInt32.le_iff_toNat_le]
    constructor
    · change ¬(65 ≤ c.val.toNat ∧ c.val.toNat ≤ 90)
      omega
    · change ¬97 ≤ c.val.toNat ∨ ¬c.val.toNat ≤ 122
      omega
  simp [isIdStart, halpha, hne.1, hne.2]

theorem nextToken_number (hw : ∀ c ∈ w, c.isDigit = true) (hne : w ≠ [])
    (h : Boundary rest) : nextToken (w ++ rest) = some (.number w, rest) := by
  cases w with
  | nil => exact absurd rfl hne
  | cons c cs =>
    have hc : c.isDigit = true := hw c (by simp)
    have hstart : isIdStart c = false := isIdStart_eq_false hc
    obtain ⟨htake, hdrop⟩ := split_append hw (h.of_not Char.isDigit rfl rfl)
    simp only [List.cons_append] at htake hdrop
    cases rest with
    | nil =>
      simp only [List.append_nil] at htake hdrop
      simp only [List.append_nil, nextToken, hstart, hc, hdrop, if_true, if_false,
        Bool.false_eq_true]
    | cons d rest =>
      have hd : isIdPart d = false ∧ d ≠ '.' := by
        obtain rfl | rfl := h d rfl <;> decide
      simp only [List.cons_append, nextToken, hstart, hc, hdrop, htake, hd.1, hd.2, if_true, if_false,
        Bool.false_eq_true, Bool.false_or, decide_false]

/-- The tokens of a text that is followed by other text. -/
structure Lexes (cs : List Char) (ts : List Token) : Prop where
  append : ∀ rest rts, Boundary rest → Lexed rest rts → Lexed (cs ++ rest) (ts ++ rts)
  head : ∀ c ∈ cs.head?, c ≠ '='

namespace Lexes

theorem lexed (h : Lexes cs ts) : Lexed cs ts := by
  simpa using h.append [] [] .nil .nil

theorem word (hw : isPropertyName w = true) : Lexes w [.word w] where
  append rest rts hrest h := by
    have ht := nextToken_word hw (hrest.of_not isIdPart rfl rfl)
    cases w with
    | nil => cases hw
    | cons c cs =>
      simp only [isPropertyName, Bool.and_eq_true] at hw
      exact .token (ne_space_of_isIdStart hw.1) ht h
  head := by
    rintro c hc rfl
    cases w with
    | nil => cases hc
    | cons d cs =>
      obtain rfl := Option.some.inj hc
      exact absurd hw (by simp [isPropertyName, show isIdStart '=' = false from rfl])

theorem number (hw : ∀ c ∈ w, c.isDigit = true) (hne : w ≠ []) : Lexes w [.number w] where
  append rest rts hrest h := by
    have ht := nextToken_number hw hne hrest
    cases w with
    | nil => exact absurd rfl hne
    | cons c cs =>
      refine .token ?_ ht h
      rintro rfl
      exact absurd (hw ' ' (by simp)) (by decide)
  head := by
    rintro c hc rfl
    exact absurd (hw '=' (List.mem_of_mem_head? hc)) (by decide)

theorem property (ho : isPropertyName o = true) (hx : isPropertyName x = true) :
    Lexes (o ++ '.' :: x) [.word o, .punct ['.'], .word x] where
  append rest rts hrest h := by
    have hxs : Lexed (x ++ rest) (.word x :: rts) := (word hx).append rest rts hrest h
    have hdot : nextToken ('.' :: (x ++ rest)) = some (.punct ['.'], x ++ rest) := by
      cases x with
      | nil => cases hx
      | cons c cs =>
        have hc : '.' ≠ c := by
          rintro rfl
          exact absurd hx (by simp [isPropertyName, show isIdStart '.' = false from rfl])
        simp [nextToken, punctuators, hc, show isIdStart '.' = false from rfl,
          show '.'.isDigit = false from rfl]
    have ht : nextToken (o ++ '.' :: (x ++ rest)) = some (.word o, '.' :: (x ++ rest)) := by
      refine nextToken_word ho ?_
      intro c hc
      obtain rfl := Option.some.inj hc
      rfl
    have hrest : Lexed ('.' :: (x ++ rest)) (.punct ['.'] :: .word x :: rts) :=
      .token (by decide) hdot hxs
    cases o with
    | nil => cases ho
    | cons c cs =>
      simp only [isPropertyName, Bool.and_eq_true] at ho
      simpa using Lexed.token (ne_space_of_isIdStart ho.1) ht hrest
  head := by
    have h := (word ho).head
    cases o with
    | nil => cases ho
    | cons c cs => exact h

theorem head_append (h : Lexes cs ts) (hr : Boundary rest) : ∀ c ∈ (cs ++ rest).head?, '=' ≠ c := by
  rintro c hc rfl
  cases cs with
  | nil => exact absurd (hr '=' hc) (by decide)
  | cons d cs => exact h.head '=' hc rfl

theorem not (h : Lexes cs ts) : Lexes ('!' :: cs) (.punct ['!'] :: ts) where
  append rest rts hrest hr := by
    refine .token (by decide) ?_ (h.append rest rts hrest hr)
    have hhead := h.head_append hrest
    rw [List.append_eq]
    cases hcs : cs ++ rest with
    | nil => rfl
    | cons d ds =>
      rw [hcs] at hhead
      simp [nextToken, punctuators, hhead d rfl, show isIdStart '!' = false from rfl,
        show '!'.isDigit = false from rfl]
  head := by
    rintro c hc rfl
    cases hc

theorem neg (h : Lexes cs ts) (hminus : ∀ c ∈ cs.head?, c ≠ '-') :
    Lexes ('-' :: cs) (.punct ['-'] :: ts) where
  append rest rts hrest hr := by
    refine .token (by decide) ?_ (h.append rest rts hrest hr)
    have hhead := h.head_append hrest
    have hminus' : ∀ c ∈ (cs ++ rest).head?, '-' ≠ c := by
      rintro c hc rfl
      cases cs with
      | nil => exact absurd (hrest '-' hc) (by decide)
      | cons d cs => exact hminus '-' hc rfl
    rw [List.append_eq]
    cases hcs : cs ++ rest with
    | nil => rfl
    | cons d ds =>
      rw [hcs] at hhead hminus'
      simp [nextToken, punctuators, hhead d rfl, hminus' d rfl, show isIdStart '-' = false from rfl,
        show '-'.isDigit = false from rfl]
  head := by
    rintro c hc rfl
    cases hc

theorem binary (hl : Lexes l lts) (hr : Lexes r rts) (op : JsOp) :
    Lexes ('(' :: (l ++ ' ' :: (op.text ++ ' ' :: (r ++ [')']))))
      (.punct ['('] :: (lts ++ .punct op.text :: (rts ++ [.punct [')']]))) where
  append rest ts hrest h := by
    have hclose : Lexed (')' :: rest) (.punct [')'] :: ts) := .token (by decide) rfl h
    have hright := hr.append _ _ .paren hclose
    have hop : Lexed (op.text ++ ' ' :: (r ++ ')' :: rest))
        (.punct op.text :: (rts ++ .punct [')'] :: ts)) := by
      cases op <;> exact .token (by decide) rfl hright.space
    have hleft := hl.append _ _ .space hop.space
    simpa using Lexed.token (c := '(') (by decide) rfl hleft
  head := by
    rintro c hc rfl
    cases hc

theorem cond (hc : Lexes c cts) (ha : Lexes a ats) (hb : Lexes b bts) :
    Lexes ('(' :: (c ++ ' ' :: '?' :: ' ' :: (a ++ ' ' :: ':' :: ' ' :: (b ++ [')']))))
      (.punct ['('] :: (cts ++ .punct ['?'] :: (ats ++ .punct [':'] :: (bts ++ [.punct [')']])))) where
  append rest ts hrest h := by
    have hclose : Lexed (')' :: rest) (.punct [')'] :: ts) := .token (by decide) rfl h
    have helse := hb.append _ _ .paren hclose
    have hcolon : Lexed (':' :: ' ' :: (b ++ ')' :: rest)) _ := .token (by decide) rfl helse.space
    have hthen := ha.append _ _ .space hcolon.space
    have hquestion : Lexed ('?' :: ' ' :: (a ++ ' ' :: ':' :: ' ' :: (b ++ ')' :: rest))) _ :=
      .token (by decide) rfl hthen.space
    have htest := hc.append _ _ .space hquestion.space
    simpa using Lexed.token (c := '(') (by decide) rfl htest
  head := by
    rintro c hc rfl
    cases hc

end Lexes

/-! ### Trees of tokens -/

def validRef : Ref → Bool
  | .this x => isPropertyName x
  | .name x => isIdentifier x
  | .member obj x => isIdentifier obj && isPropertyName x

/-- The tokens are an operand, whatever follows it. -/
def Reads (ts : List Token) (e : JsExpr) : Prop :=
  ∀ rest : List Token, (∀ t ∈ rest.head?, t ≠ .punct ['.']) →
    ∃ n, ∀ m ≥ n, parse m .unary (ts ++ rest) = some (e, rest)

theorem ne_reserved (hw : isIdentifier w = true) : w ≠ thisWord ∧ w ≠ trueWord ∧ w ≠ falseWord := by
  refine ⟨?_, ?_, ?_⟩ <;> rintro rfl <;> exact absurd hw (by decide)

theorem parse_number (n : Nat) (ds : List Char) (ts : List Token) :
    parse (n + 1) .unary (.number ds :: ts) = some (.num (Nat.ofDigitChars 10 ds 0), ts) := rfl

theorem parse_word (n : Nat) (w : List Char) (ts : List Token) :
    parse (n + 1) .unary (.word w :: ts) = parseWord w ts := rfl

theorem parse_not (n : Nat) (ts : List Token) : parse (n + 1) .unary (.punct ['!'] :: ts) =
    (parse n .unary ts).map fun r => (.not r.1, r.2) := rfl

theorem parse_neg (n : Nat) (ts : List Token) : parse (n + 1) .unary (.punct ['-'] :: ts) =
    (parse n .unary ts).map fun r => (.neg r.1, r.2) := rfl

theorem parse_paren (h : parse n .conditional ts = some (e, .punct [')'] :: rest)) :
    parse (n + 1) .unary (.punct ['('] :: ts) = some (e, rest) := by
  change (match parse n .conditional ts with
    | some (e, .punct [')'] :: ts) => some (e, ts)
    | _ => none) = _
  rw [h]
  rfl

theorem opOf_text (op : JsOp) : opOf op.text = some op := by
  cases op <;> rfl

/-- The tokens do not go on with an operator. -/
def Stops (ts : List Token) : Prop := ∀ p, .punct p ∈ ts.head? → opOf p = none

theorem parse_more_stop (h : Stops ts) : parse (n + 1) (.more p l) ts = some (l, ts) := by
  cases ts with
  | nil => rfl
  | cons t ts =>
    cases t with
    | word w => rfl
    | number ds => rfl
    | punct q =>
      rw [parse, h q rfl]

theorem parse_more (hop : p ≤ op.precedence)
    (hr : parse n (.binary (op.precedence + 1)) ts = some (r, rest)) :
    parse (n + 1) (.more p l) (.punct op.text :: ts) = parse n (.more p (.binary op l r)) rest := by
  rw [parse, opOf_text]
  simp [hop, hr]

theorem parse_binary (hl : parse n .unary ts = some (l, rest))
    (hmore : parse n (.more p l) rest = some r) : parse (n + 1) (.binary p) ts = some r := by
  rw [parse, hl]
  exact hmore

/-- An operand that no operator follows. -/
theorem parse_operand (hl : parse (n + 1) .unary ts = some (l, rest)) (hstop : Stops rest) :
    parse (n + 2) (.binary p) ts = some (l, rest) :=
  parse_binary hl (parse_more_stop hstop)

theorem parse_conditional (h : parse n (.binary 0) ts = some (e, rest))
    (hend : ∀ t ∈ rest.head?, t ≠ .punct ['?']) :
    parse (n + 1) .conditional ts = some (e, rest) := by
  rw [parse, h]
  cases rest with
  | nil => rfl
  | cons t ts =>
    split
    · next c rest' heq =>
      obtain ⟨rfl, ht, rfl⟩ := by simpa using heq
      exact absurd ht (hend t rfl)
    · rfl

namespace Reads

theorem parsed (h : Reads ts e) : Parsed ts e := by
  obtain ⟨n, hn⟩ := h [] (by simp)
  refine ⟨n + 3, ?_⟩
  have hunary := hn (n + 1) (by omega)
  rw [List.append_nil] at hunary
  exact parse_conditional (parse_operand hunary (by simp [Stops])) (by simp)

theorem number (n : Nat) : Reads [.number (Nat.toDigits 10 n)] (.num n) := by
  intro rest _
  refine ⟨1, fun m hm => ?_⟩
  obtain ⟨m, rfl⟩ : ∃ k, m = k + 1 := ⟨m - 1, by omega⟩
  simp [parse_number, Nat.ofDigitChars_ten_toDigits]

theorem bool (b : Bool) : Reads [.word (if b then trueWord else falseWord)] (.bool b) := by
  intro rest _
  refine ⟨1, fun m hm => ?_⟩
  obtain ⟨m, rfl⟩ : ∃ k, m = k + 1 := ⟨m - 1, by omega⟩
  cases b <;> rfl

theorem this (x : List Char) : Reads [.word thisWord, .punct ['.'], .word x] (.ref (.this x)) := by
  intro rest _
  refine ⟨1, fun m hm => ?_⟩
  obtain ⟨m, rfl⟩ : ∃ k, m = k + 1 := ⟨m - 1, by omega⟩
  rfl

theorem name (hx : isIdentifier x = true) : Reads [.word x] (.ref (.name x)) := by
  intro rest hrest
  refine ⟨1, fun m hm => ?_⟩
  obtain ⟨m, rfl⟩ : ∃ k, m = k + 1 := ⟨m - 1, by omega⟩
  obtain ⟨hthis, htrue, hfalse⟩ := ne_reserved hx
  simp only [List.cons_append, List.nil_append, parse_word, parseWord, hthis, htrue, hfalse, hx, if_true,
    if_false]
  split
  · exact absurd rfl (hrest _ rfl)
  · rfl

theorem member (ho : isIdentifier o = true) (x : List Char) :
    Reads [.word o, .punct ['.'], .word x] (.ref (.member o x)) := by
  intro rest hrest
  refine ⟨1, fun m hm => ?_⟩
  obtain ⟨m, rfl⟩ : ∃ k, m = k + 1 := ⟨m - 1, by omega⟩
  obtain ⟨hthis, htrue, hfalse⟩ := ne_reserved ho
  simp [parse_word, parseWord, hthis, htrue, hfalse, ho]

theorem not (h : Reads ts e) : Reads (.punct ['!'] :: ts) (.not e) := by
  intro rest hrest
  obtain ⟨n, hn⟩ := h rest hrest
  refine ⟨n + 1, fun m hm => ?_⟩
  obtain ⟨m, rfl⟩ : ∃ k, m = k + 1 := ⟨m - 1, by omega⟩
  simp [parse_not, hn m (by omega)]

theorem neg (h : Reads ts e) : Reads (.punct ['-'] :: ts) (.neg e) := by
  intro rest hrest
  obtain ⟨n, hn⟩ := h rest hrest
  refine ⟨n + 1, fun m hm => ?_⟩
  obtain ⟨m, rfl⟩ : ∃ k, m = k + 1 := ⟨m - 1, by omega⟩
  simp [parse_neg, hn m (by omega)]

/-- An expression in parentheses. -/
theorem paren (h : ∀ rest, ∃ n, ∀ m ≥ n,
    parse m .conditional (ts ++ .punct [')'] :: rest) = some (e, .punct [')'] :: rest)) :
    Reads (.punct ['('] :: (ts ++ [.punct [')']])) e := by
  intro rest _
  obtain ⟨n, hn⟩ := h rest
  refine ⟨n + 1, fun m hm => ?_⟩
  obtain ⟨m, rfl⟩ : ∃ k, m = k + 1 := ⟨m - 1, by omega⟩
  simpa using parse_paren (hn m (by omega))

/-- An operand up to a token that is no operator. -/
theorem conditional (h : Reads ts e) (t : Token) (rest : List Token) (hdot : t ≠ .punct ['.'])
    (hquestion : t ≠ .punct ['?']) (hstop : Stops (t :: rest)) :
    ∃ n, ∀ m ≥ n, parse m .conditional (ts ++ t :: rest) = some (e, t :: rest) := by
  obtain ⟨n, hn⟩ := h (t :: rest) (by simpa using hdot)
  refine ⟨n + 3, fun m hm => ?_⟩
  obtain ⟨m, rfl⟩ : ∃ k, m = k + 3 := ⟨m - 3, by omega⟩
  exact parse_conditional (parse_operand (hn (m + 1) (by omega)) hstop) (by simpa using hquestion)

theorem binary (hl : Reads lts l) (hr : Reads rts r) (op : JsOp) :
    Reads (.punct ['('] :: (lts ++ .punct op.text :: (rts ++ [.punct [')']]))) (.binary op l r) := by
  have hclose : ∀ rest, Stops (.punct [')'] :: rest) := by
    rintro rest _ ⟨⟩
    rfl
  have hbody : Reads (.punct ['('] :: ((lts ++ .punct op.text :: rts) ++ [.punct [')']]))
      (.binary op l r) := by
    refine paren fun rest => ?_
    obtain ⟨nr, hnr⟩ := hr (.punct [')'] :: rest) (by simp)
    obtain ⟨nl, hnl⟩ := hl (.punct op.text :: (rts ++ .punct [')'] :: rest)) (by cases op <;> simp [JsOp.text])
    refine ⟨nl + nr + 5, fun m hm => ?_⟩
    obtain ⟨m, rfl⟩ : ∃ k, m = k + 5 := ⟨m - 5, by omega⟩
    have hright : parse (m + 2) (.binary (op.precedence + 1)) (rts ++ .punct [')'] :: rest) =
        some (r, .punct [')'] :: rest) := parse_operand (hnr (m + 1) (by omega)) (hclose rest)
    have hmore : parse (m + 3) (.more 0 l) (.punct op.text :: (rts ++ .punct [')'] :: rest)) =
        some (.binary op l r, .punct [')'] :: rest) := by
      rw [parse_more (Nat.zero_le _) hright]
      exact parse_more_stop (hclose rest)
    simpa using parse_conditional (parse_binary (hnl (m + 3) (by omega)) hmore) (by simp)
  simpa using hbody

theorem cond (hc : Reads cts c) (ha : Reads ats a) (hb : Reads bts b) :
    Reads (.punct ['('] :: (cts ++ .punct ['?'] :: (ats ++ .punct [':'] :: (bts ++ [.punct [')']]))))
      (.cond c a b) := by
  have hbody : Reads (.punct ['('] :: ((cts ++ .punct ['?'] :: (ats ++ .punct [':'] :: bts)) ++
      [.punct [')']])) (.cond c a b) := by
    refine paren fun rest => ?_
    have hstop : ∀ p ∈ [[')'], [':'], ['?']], ∀ ts, Stops (.punct p :: ts) := by
      rintro p hp ts _ ⟨⟩
      revert p
      decide
    obtain ⟨nb, hnb⟩ := hb.conditional (.punct [')']) rest (by simp) (by simp) (hstop _ (by simp) _)
    obtain ⟨na, hna⟩ := ha.conditional (.punct [':']) (bts ++ .punct [')'] :: rest) (by simp) (by simp)
      (hstop _ (by simp) _)
    obtain ⟨nc, hnc⟩ := hc (.punct ['?'] :: (ats ++ .punct [':'] :: (bts ++ .punct [')'] :: rest)))
      (by simp)
    refine ⟨na + nb + nc + 3, fun m hm => ?_⟩
    obtain ⟨m, rfl⟩ : ∃ k, m = k + 3 := ⟨m - 3, by omega⟩
    have htest := parse_operand (p := 0) (hnc (m + 1) (by omega)) (hstop _ (by simp) _)
    simp only [List.append_assoc, List.cons_append]
    rw [parse, htest]
    simp [hna (m + 2) (by omega), hnb (m + 2) (by omega)]
  simpa using hbody

end Reads

/-! ### References -/

def refText : Ref → List Char
  | .this x => thisWord ++ '.' :: x
  | .name x => x
  | .member obj x => obj ++ '.' :: x

def refTokens : Ref → List Token
  | .this x => [.word thisWord, .punct ['.'], .word x]
  | .name x => [.word x]
  | .member obj x => [.word obj, .punct ['.'], .word x]

theorem isPropertyName_of_isIdentifier (h : isIdentifier x = true) : isPropertyName x = true := by
  cases x with
  | nil => cases h
  | cons c cs =>
    simp only [isIdentifier, Bool.and_eq_true] at h
    simp [isPropertyName, h.1.1, h.1.2]

theorem lexes_ref (h : validRef r = true) : Lexes (refText r) (refTokens r) := by
  cases r with
  | this x => exact .property (by decide) h
  | name x => exact .word (isPropertyName_of_isIdentifier h)
  | member obj x =>
    simp only [validRef, Bool.and_eq_true] at h
    exact .property (isPropertyName_of_isIdentifier h.1) h.2

theorem reads_ref (h : validRef r = true) : Reads (refTokens r) (.ref r) := by
  cases r with
  | this x => exact .this x
  | name x => exact .name h
  | member obj x =>
    simp only [validRef, Bool.and_eq_true] at h
    exact .member h.1 x

/-- The words of a text may all stand after a dot. -/
def Words (ts : List Token) : Prop := ∀ w, .word w ∈ ts → isPropertyName w = true

theorem nextToken_words (h : nextToken cs = some (.word w, rest)) : isPropertyName w = true := by
  cases cs with
  | nil => cases h
  | cons c cs =>
    simp only [nextToken] at h
    split_ifs at h with hstart hdigit
    · obtain ⟨rfl, -⟩ := by simpa using h
      simp [isIdPart, hstart, isPropertyName, List.all_takeWhile]
    · split at h
      · split_ifs at h
        simp at h
      · simp at h
    · split at h <;> simp at h

theorem lexFrom_words (h : lexFrom n cs = some ts) : Words ts := by
  induction n generalizing cs ts with
  | zero =>
    cases cs with
    | nil => cases h; simp [Words]
    | cons c cs => cases h
  | succ n ih =>
    cases cs with
    | nil => cases h; simp [Words]
    | cons c cs =>
      by_cases hc : c = ' '
      · subst hc
        exact ih h
      · simp only [lexFrom] at h
        split at h
        · next t rest ht =>
          obtain ⟨ts', hrest, rfl⟩ := Option.map_eq_some_iff.mp h
          intro w hw
          obtain rfl | hw := List.mem_cons.mp hw
          · exact nextToken_words ht
          · exact ih hrest w hw
        · cases h

def RefOk (e : JsExpr) : Prop := ∀ r, e = .ref r → validRef r = true

def Goal.leftOk : Goal → Prop
  | .more _ l => RefOk l
  | _ => True

theorem Words.suffix (h : Words ts) (hs : rest <:+ ts) : Words rest := fun w hw => h w (hs.mem hw)

theorem RefOk.of_ne (h : ∀ r, e ≠ .ref r) : RefOk e := fun r hr => absurd hr (h r)

theorem parseWord_ok (h : parseWord w ts = some (e, rest)) (hw : Words ts) :
    RefOk e ∧ rest <:+ ts := by
  simp only [parseWord] at h
  split_ifs at h with htrue hfalse hthis hid
  · cases h
    exact ⟨.of_ne (by simp), List.suffix_rfl⟩
  · cases h
    exact ⟨.of_ne (by simp), List.suffix_rfl⟩
  · split at h
    · next x ts =>
      cases h
      have hx : isPropertyName x = true := hw x (by simp)
      refine ⟨?_, (List.suffix_cons _ _).trans (List.suffix_cons _ _)⟩
      rintro r ⟨⟩
      exact hx
    · cases h
  · split at h
    · next x ts =>
      cases h
      have hx : isPropertyName x = true := hw x (by simp)
      refine ⟨?_, (List.suffix_cons _ _).trans (List.suffix_cons _ _)⟩
      rintro r ⟨⟩
      simp [validRef, hid, hx]
    · cases h
      refine ⟨?_, List.suffix_rfl⟩
      rintro r ⟨⟩
      exact hid

/-- What is read ends the text that is left, and its references are valid. -/
theorem parse_ok (h : parse n g ts = some (e, rest)) (hw : Words ts) (hl : g.leftOk) :
    RefOk e ∧ rest <:+ ts := by
  induction n generalizing g ts e rest with
  | zero => cases h
  | succ n ih =>
    cases g with
    | conditional =>
      rw [parse] at h
      split at h
      · next c ts1 hc =>
        have hts1 := (List.suffix_cons _ _).trans (ih hc hw trivial).2
        split at h
        · next a ts2 ha =>
          have hts2 := ((List.suffix_cons _ _).trans (ih ha (hw.suffix hts1) trivial).2).trans hts1
          obtain ⟨⟨b, ts3⟩, hb, heq⟩ := Option.map_eq_some_iff.mp h
          cases heq
          exact ⟨.of_ne (by simp), (ih hb (hw.suffix hts2) trivial).2.trans hts2⟩
        · cases h
      · exact ih h hw trivial
    | binary p =>
      rw [parse] at h
      split at h
      · next l ts1 hu =>
        obtain ⟨hok, hts1⟩ := ih hu hw trivial
        obtain ⟨he, hrest⟩ := ih h (hw.suffix hts1) hok
        exact ⟨he, hrest.trans hts1⟩
      · cases h
    | more p l =>
      cases ts with
      | nil => cases h; exact ⟨hl, List.suffix_rfl⟩
      | cons t ts =>
        cases t with
        | word w => cases h; exact ⟨hl, List.suffix_rfl⟩
        | number ds => cases h; exact ⟨hl, List.suffix_rfl⟩
        | punct o =>
          rw [parse] at h
          split at h
          · next op _ =>
            split_ifs at h
            · split at h
              · next r ts1 hr =>
                have hsub := List.suffix_cons (Token.punct o) ts
                have hts1 := (ih hr (hw.suffix hsub) trivial).2.trans hsub
                obtain ⟨he, hrest⟩ := ih h (hw.suffix hts1) (RefOk.of_ne (by simp))
                exact ⟨he, hrest.trans hts1⟩
              · cases h
            · cases h; exact ⟨hl, List.suffix_rfl⟩
          · cases h; exact ⟨hl, List.suffix_rfl⟩
    | unary =>
      rw [parse.eq_def] at h
      simp only at h
      split at h
      · next w ts => 
        obtain ⟨he, hrest⟩ := parseWord_ok h (hw.suffix (List.suffix_cons _ _))
        exact ⟨he, hrest.trans (List.suffix_cons _ _)⟩
      · cases h; exact ⟨.of_ne (by simp), List.suffix_cons _ _⟩
      · next ts =>
        obtain ⟨⟨a, ts1⟩, ha, heq⟩ := Option.map_eq_some_iff.mp h
        cases heq
        have hsub := List.suffix_cons (Token.punct ['!']) ts
        exact ⟨.of_ne (by simp), (ih ha (hw.suffix hsub) trivial).2.trans hsub⟩
      · next ts =>
        obtain ⟨⟨a, ts1⟩, ha, heq⟩ := Option.map_eq_some_iff.mp h
        cases heq
        have hsub := List.suffix_cons (Token.punct ['-']) ts
        exact ⟨.of_ne (by simp), (ih ha (hw.suffix hsub) trivial).2.trans hsub⟩
      · next ts =>
        split at h
        · next r ts1 hr =>
          cases h
          have hsub := List.suffix_cons (Token.punct ['-', '-']) ts
          exact ⟨.of_ne (by simp), (ih hr (hw.suffix hsub) trivial).2.trans hsub⟩
        · cases h
      · next ts =>
        split at h
        · next a ts1 ha =>
          cases h
          have hsub := List.suffix_cons (Token.punct ['(']) ts
          obtain ⟨he, hrest⟩ := ih ha (hw.suffix hsub) trivial
          exact ⟨he, ((List.suffix_cons _ _).trans hrest).trans hsub⟩
        · cases h
      · cases h

theorem ParsesTo.validRef (h : ParsesTo cs (.ref r)) : validRef r = true := by
  obtain ⟨ts, ⟨n, hn⟩, m, hm⟩ := h
  exact (parse_ok hm (lexFrom_words hn) trivial).1 r rfl

theorem parse_more_cases (h : parse n (.more p l) ts = some (e, rest)) :
    e = l ∨ ∃ op a b, e = .binary op a b := by
  induction n generalizing l ts with
  | zero => cases h
  | succ n ih =>
    cases ts with
    | nil => cases h; exact .inl rfl
    | cons t ts =>
      cases t with
      | word w => cases h; exact .inl rfl
      | number ds => cases h; exact .inl rfl
      | punct o =>
        rw [parse] at h
        split at h
        · next op _ =>
          split_ifs at h
          · split at h
            · next r ts1 hr =>
              obtain rfl | hbin := ih h
              · exact .inr ⟨op, l, r, rfl⟩
              · exact .inr hbin
            · cases h
          · cases h; exact .inl rfl
        · cases h; exact .inl rfl

theorem parse_decrement (h : parse n .unary (.punct ['-', '-'] :: ts) = some (e, rest)) :
    ∃ r, e = .preDecrement r := by
  cases n with
  | zero => cases h
  | succ n =>
    rw [parse] at h
    split at h
    · next r _ _ => cases h; exact ⟨r, rfl⟩
    · cases h

theorem parse_binary_ne_neg (h : parse n (.binary p) (.punct ['-', '-'] :: ts) = some (e, rest))
    (a : JsExpr) : e ≠ .neg a := by
  cases n with
  | zero => cases h
  | succ n =>
    rw [parse] at h
    split at h
    · next l ts1 hu =>
      obtain ⟨r, rfl⟩ := parse_decrement hu
      obtain rfl | ⟨op, x, y, rfl⟩ := parse_more_cases h <;> simp
    · cases h

/-- Two minuses are one token. -/
theorem not_parsesTo_neg (cs : List Char) (e : JsExpr) : ¬ParsesTo ('-' :: '-' :: cs) (.neg e) := by
  rintro ⟨ts, hlex, n, hn⟩
  have htoken : nextToken ('-' :: '-' :: cs) = some (.punct ['-', '-'], cs) := rfl
  obtain ⟨ts, rfl, -⟩ := hlex.uncons (by decide) htoken
  cases n with
  | zero => cases hn
  | succ n =>
    rw [parse] at hn
    split at hn
    · split at hn
      · obtain ⟨r, -, heq⟩ := Option.map_eq_some_iff.mp hn
        cases heq
      · cases hn
    · exact parse_binary_ne_neg hn e rfl

end Uniset.St2js.JsSyntax
