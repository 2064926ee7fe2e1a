import Mathlib.Data.List.TakeWhile
import Uniset.Lib.Rescan

/-! The references to variables of the environment in the settings of a process. -/

namespace Uniset.Launcher

open Uniset.Lib

def isNameStart (c : Char) : Bool := c.isAlpha || c == '_'

def isNameChar (c : Char) : Bool := c.isAlphanum || c == '_'

/-- `\$\{([^}]+)\}` at the start of the text: the name, and what follows. -/
def bracedAt : List Char → Option (List Char × List Char)
  | a :: b :: l =>
    if a = '$' ∧ b = '{' ∧ l.takeWhile (· ≠ '}') ≠ [] then
      match l.dropWhile (· ≠ '}') with
      | _ :: rest => some (l.takeWhile (· ≠ '}'), rest)
      | [] => none
    else none
  | _ => none

/-- `\$([A-Za-z_][A-Za-z0-9_]*)` -/
def plainAt : List Char → Option (List Char × List Char)
  | a :: c :: l =>
    if a = '$' ∧ isNameStart c = true then
      some (c :: l.takeWhile isNameChar, l.dropWhile isNameChar)
    else none
  | _ => none

def bracedQuote (name : List Char) : List Char := '$' :: '{' :: (name ++ ['}'])

def plainQuote (name : List Char) : List Char := '$' :: name

/-- What may stand in braces. -/
structure BracedName (name : List Char) : Prop where
  ne_nil : name ≠ []
  open' : '}' ∉ name

/-- What may stand by itself. -/
structure PlainName (name : List Char) : Prop where
  start : ∃ c l, name = c :: l ∧ isNameStart c = true
  all : ∀ c ∈ name, isNameChar c = true

variable {s l l' m name name' rest rest' : List Char} {c : Char}

theorem isNameChar_of_start (h : isNameStart c = true) : isNameChar c = true := by
  unfold isNameStart at h
  unfold isNameChar Char.isAlphanum
  rw [Bool.or_eq_true] at h ⊢
  exact h.imp_left fun h => by rw [h, Bool.true_or]

theorem bracedAt_eq_some : bracedAt s = some (name, rest) ↔
    BracedName name ∧ s = '$' :: '{' :: (name ++ '}' :: rest) := by
  constructor
  · intro h
    unfold bracedAt at h
    split at h
    · rename_i a b l
      split_ifs at h with hopen
      obtain ⟨rfl, rfl, hempty⟩ := hopen
      split at h
      · rename_i c rest₀ hdrop
        cases h
        obtain rfl : c = '}' := by
          have := List.head?_dropWhile_not (· ≠ '}') l
          rw [hdrop] at this
          simpa using this
        refine ⟨⟨hempty, fun hmem => ?_⟩, ?_⟩
        · simpa using List.mem_takeWhile_imp hmem
        · rw [← hdrop, List.takeWhile_append_dropWhile]
      · cases h
    · cases h
  · rintro ⟨hname, rfl⟩
    have hall : ∀ c ∈ name, decide (c ≠ '}') = true :=
      fun c hc => decide_eq_true fun heq => hname.open' (heq ▸ hc)
    have hdrop : (name ++ '}' :: rest).dropWhile (· ≠ '}') = '}' :: rest := by
      rw [List.dropWhile_append_of_pos hall]
      rfl
    have htake : (name ++ '}' :: rest).takeWhile (· ≠ '}') = name := by
      rw [List.takeWhile_append_of_pos hall]
      exact List.append_nil name
    unfold bracedAt
    dsimp only
    rw [hdrop, htake, if_pos ⟨rfl, rfl, hname.ne_nil⟩]

theorem plainAt_eq_some : plainAt s = some (name, rest) ↔
    PlainName name ∧ s = '$' :: (name ++ rest) ∧ ∀ c ∈ rest.head?, isNameChar c = false := by
  constructor
  · intro h
    unfold plainAt at h
    split at h
    · rename_i a c l
      split_ifs at h with hstart
      obtain ⟨rfl, hstart⟩ := hstart
      cases h
      refine ⟨⟨⟨c, _, rfl, hstart⟩, fun d hd => ?_⟩, ?_, fun d hd => ?_⟩
      · rcases List.mem_cons.mp hd with rfl | hd
        · exact isNameChar_of_start hstart
        · exact List.mem_takeWhile_imp hd
      · rw [List.cons_append, List.takeWhile_append_dropWhile]
      · have := List.head?_dropWhile_not isNameChar l
        rw [Option.mem_def.mp hd] at this
        simpa using this
    · cases h
  · rintro ⟨⟨⟨c, l, rfl, hstart⟩, hall⟩, rfl, hend⟩
    have hl : ∀ d ∈ l, isNameChar d = true := fun d hd => hall d (List.mem_cons_of_mem c hd)
    unfold plainAt
    rw [List.cons_append]
    dsimp only
    rw [if_pos ⟨rfl, hstart⟩, List.takeWhile_append_of_pos hl, List.dropWhile_append_of_pos hl]
    cases rest with
    | nil => simp
    | cons d rest => simp [hend d rfl]

theorem bracedAt_split (h : bracedAt l = some (name, rest)) : bracedQuote name ++ rest = l := by
  rw [(bracedAt_eq_some.mp h).2]
  unfold bracedQuote
  simp

theorem plainAt_split (h : plainAt l = some (name, rest)) : plainQuote name ++ rest = l :=
  (plainAt_eq_some.mp h).2.1.symm

/-- A text is split at the first place of a character in one way. -/
theorem eq_of_first_split (h : c ∉ m) (h' : c ∉ l) (heq : m ++ c :: rest = l ++ c :: rest') :
    rest = rest' := by
  rcases List.append_eq_append_iff.mp heq with ⟨x, rfl, hx⟩ | ⟨x, rfl, hx⟩
  · cases x with
    | nil => exact (List.cons_eq_cons.mp hx).2
    | cons d x =>
      obtain rfl := (List.cons_eq_cons.mp hx).1
      exact absurd (List.mem_append_right m List.mem_cons_self) h'
  · cases x with
    | nil => exact (List.cons_eq_cons.mp hx).2.symm
    | cons d x =>
      obtain rfl := (List.cons_eq_cons.mp hx).1
      exact absurd (List.mem_append_right l List.mem_cons_self) h

/-- A brace closes all that are open before it. -/
theorem bracedAt_apart (hl : l ≠ []) (h : bracedAt (l ++ l') = some (name, rest))
    (h' : bracedAt l' = some (name', rest')) : rest = rest' ∨ ∃ m, rest = m ++ l' := by
  obtain ⟨hname, heq⟩ := bracedAt_eq_some.mp h
  obtain ⟨hname', hl'⟩ := bracedAt_eq_some.mp h'
  obtain ⟨a, l, rfl⟩ := List.exists_cons_of_ne_nil hl
  obtain ⟨-, heq⟩ : a = '$' ∧ l ++ l' = _ := List.cons_eq_cons.mp heq
  cases l with
  | nil =>
    rw [List.nil_append, hl'] at heq
    exact absurd (List.cons_eq_cons.mp heq).1 (by decide)
  | cons b l =>
    obtain ⟨-, heq⟩ : b = '{' ∧ l ++ l' = _ := List.cons_eq_cons.mp heq
    rcases List.append_eq_append_iff.mp heq with ⟨x, hx, hrest⟩ | ⟨x, hx, hrest⟩
    · -- the later one begins in the name of the first
      left
      have hmem : '}' ∉ x := fun hmem => hname.open' (hx ▸ List.mem_append_right l hmem)
      have hmem' : '}' ∉ '$' :: '{' :: name' := by
        simp only [List.mem_cons, not_or]
        exact ⟨by decide, by decide, hname'.open'⟩
      have hboth : x ++ '}' :: rest = '$' :: '{' :: name' ++ '}' :: rest' := hrest.symm.trans hl'
      exact eq_of_first_split hmem hmem' hboth
    · right
      cases x with
      | nil =>
        rw [List.nil_append, hl'] at hrest
        exact absurd (List.cons_eq_cons.mp hrest).1 (by decide)
      | cons c x => exact ⟨x, (List.cons_eq_cons.mp hrest).2⟩

/-- There is no other reference in a name. -/
theorem plainAt_apart (hl : l ≠ []) (h : plainAt (l ++ l') = some (name, rest))
    (h' : plainAt l' = some (name', rest')) : rest = rest' ∨ ∃ m, rest = m ++ l' := by
  obtain ⟨hname, heq, -⟩ := plainAt_eq_some.mp h
  obtain ⟨-, hl', -⟩ := plainAt_eq_some.mp h'
  obtain ⟨a, l, rfl⟩ := List.exists_cons_of_ne_nil hl
  obtain ⟨-, heq⟩ := List.cons_eq_cons.mp heq
  right
  rcases List.append_eq_append_iff.mp heq with ⟨x, hx, hrest⟩ | ⟨x, -, hrest⟩
  · cases x with
    | nil => exact ⟨[], hrest.symm⟩
    | cons c x =>
      rw [hl'] at hrest
      obtain rfl : '$' = c := (List.cons_eq_cons.mp hrest).1
      have hall := hname.all '$' (hx ▸ List.mem_append_right l List.mem_cons_self)
      exact absurd hall (by decide)
  · exact ⟨x, hrest⟩

def bracedRef : Reference Char where
  at? := bracedAt
  quote := bracedQuote
  quote_ne_nil := nofun
  split := bracedAt_split
  apart := bracedAt_apart

def plainRef : Reference Char where
  at? := plainAt
  quote := plainQuote
  quote_ne_nil := nofun
  split := plainAt_split
  apart := plainAt_apart

/-- The value that stands for a reference: the name is passed on as a C string, and a variable that is
not set is empty. -/
def valueOf (env : List Char → Option (List Char)) (name : List Char) : List Char :=
  (env (name.takeWhile (· ≠ '\x00'))).getD []

/-- What `expandEnvVar` returns, and the names that each of its loops replaces on the way. -/
structure Expansion where
  braced : List (List Char)
  plain : List (List Char)
  result : List Char
  deriving DecidableEq

/-- `none` when a loop does not end within the fuel. -/
def expandEnvVar (env : List Char → Option (List Char)) (fuel : Nat) (s : List Char) :
    Option Expansion :=
  match bracedRef.replace (valueOf env) fuel s with
  | none => none
  | some (braced, result) =>
    (plainRef.replace (valueOf env) fuel result).map fun (plain, result) => ⟨braced, plain, result⟩

/-! ## The references of the input -/

/-- A character by itself, or a reference. -/
inductive Token
  | text (c : Char)
  | braced (name : List Char)
  | plain (name : List Char)
  deriving DecidableEq

theorem length_bracedAt (h : bracedAt l = some (name, rest)) : rest.length < l.length := by
  rw [← bracedAt_split h]
  simp only [bracedQuote, List.cons_append, List.length_cons, List.length_append]
  omega

theorem length_plainAt (h : plainAt l = some (name, rest)) : rest.length < l.length := by
  rw [← plainAt_split h]
  simp only [plainQuote, List.cons_append, List.length_cons, List.length_append]
  omega

/-- The references of a text, each as it is met from the left. -/
def tokens : List Char → List Token
  | [] => []
  | c :: l =>
    match _hbraced : bracedAt (c :: l) with
    | some (name, rest) => .braced name :: tokens rest
    | none =>
      match _hplain : plainAt (c :: l) with
      | some (name, rest) => .plain name :: tokens rest
      | none => .text c :: tokens l
termination_by l => l.length
decreasing_by
  · exact length_bracedAt _hbraced
  · exact length_plainAt _hplain
  · exact Nat.lt_succ_self _

namespace Token

/-- The text with something in the place of the references of either kind. -/
def fill (braced plain : List Char → List Char) (ts : List Token) : List Char :=
  ts.flatMap fun
    | .text c => [c]
    | .braced name => braced name
    | .plain name => plain name

def bracedNames (ts : List Token) : List (List Char) :=
  ts.filterMap fun
    | .braced name => some name
    | _ => none

def plainNames (ts : List Token) : List (List Char) :=
  ts.filterMap fun
    | .plain name => some name
    | _ => none

def Valid : Token → Prop
  | .text _ => True
  | .braced name => BracedName name
  | .plain name => PlainName name

end Token

open Token

theorem fill_tokens (s : List Char) : fill bracedQuote plainQuote (tokens s) = s := by
  fun_induction tokens s with
  | case1 => rfl
  | case2 c l name rest hbraced ih =>
    rw [← bracedAt_split hbraced]
    exact congrArg _ ih
  | case3 c l hbraced name rest hplain ih =>
    rw [← plainAt_split hplain]
    exact congrArg _ ih
  | case4 c l hbraced hplain ih => exact congrArg _ ih

theorem valid_tokens (s : List Char) : ∀ t ∈ tokens s, t.Valid := by
  fun_induction tokens s with
  | case1 => exact List.forall_mem_nil _
  | case2 c l name rest hbraced ih =>
    exact List.forall_mem_cons.mpr ⟨(bracedAt_eq_some.mp hbraced).1, ih⟩
  | case3 c l hbraced name rest hplain ih =>
    exact List.forall_mem_cons.mpr ⟨(plainAt_eq_some.mp hplain).1, ih⟩
  | case4 c l hbraced hplain ih => exact List.forall_mem_cons.mpr ⟨trivial, ih⟩

namespace Token

/-- What the first loop sees. -/
def bracedPiece : Token → Piece Char
  | .text c => .text [c]
  | .braced name => .ref name
  | .plain name => .text (plainQuote name)

/-- What the second loop sees. -/
def plainPiece (value : List Char → List Char) : Token → Piece Char
  | .text c => .text [c]
  | .braced name => .text (value name)
  | .plain name => .ref name

variable {value f g : List Char → List Char} {ts : List Token} {t : Token}

theorem fill_bracedPiece (f : List Char → List Char) (ts : List Token) :
    Piece.fill f (ts.map bracedPiece) = fill f plainQuote ts := by
  induction ts with
  | nil => rfl
  | cons t ts ih => cases t <;> exact congrArg _ ih

theorem fill_plainPiece (value f : List Char → List Char) (ts : List Token) :
    Piece.fill f (ts.map (plainPiece value)) = fill value f ts := by
  induction ts with
  | nil => rfl
  | cons t ts ih => cases t <;> exact congrArg _ ih

theorem names_bracedPiece (ts : List Token) : Piece.names (ts.map bracedPiece) = bracedNames ts := by
  induction ts with
  | nil => rfl
  | cons t ts ih =>
    cases t with
    | text c => exact ih
    | braced name => exact congrArg (name :: ·) ih
    | plain name => exact ih

theorem names_plainPiece (value : List Char → List Char) (ts : List Token) :
    Piece.names (ts.map (plainPiece value)) = plainNames ts := by
  induction ts with
  | nil => rfl
  | cons t ts ih =>
    cases t with
    | text c => exact ih
    | braced name => exact ih
    | plain name => exact congrArg (name :: ·) ih

end Token

theorem bracedAt_quote (h : BracedName name) (rest : List Char) :
    bracedAt (bracedQuote name ++ rest) = some (name, rest) := by
  rw [bracedAt_eq_some]
  refine ⟨h, ?_⟩
  unfold bracedQuote
  simp

/-- A name that stands by itself goes on as long as characters of names follow it. -/
theorem plainAt_quote (h : PlainName name) (rest : List Char) : plainAt (plainQuote name ++ rest) =
    some (name ++ rest.takeWhile isNameChar, rest.dropWhile isNameChar) := by
  obtain ⟨⟨c, l, rfl, hstart⟩, hall⟩ := h
  have hl : ∀ d ∈ l, isNameChar d = true := fun d hd => hall d (List.mem_cons_of_mem c hd)
  unfold plainQuote plainAt
  rw [List.cons_append, List.cons_append]
  dsimp only
  rw [if_pos ⟨rfl, hstart⟩, List.takeWhile_append_of_pos hl, List.dropWhile_append_of_pos hl]
  rfl

variable {value : List Char → List Char} {ts : List Token} {out : List Char} {k : Nat}

theorem intact_bracedPiece (h : ∀ t ∈ ts, t.Valid) : bracedRef.Intact (ts.map bracedPiece) ∧
    bracedRef.Holds (Piece.names (ts.map bracedPiece)).length
      (Piece.fill bracedQuote (ts.map bracedPiece)) := by
  induction ts with
  | nil => exact ⟨trivial, trivial⟩
  | cons t ts ih =>
    obtain ⟨ht, hts⟩ := List.forall_mem_cons.mp h
    obtain ⟨hintact, hholds⟩ := ih hts
    cases t with
    | text c => exact ⟨hintact, Reference.holds_append hholds [c]⟩
    | plain name => exact ⟨hintact, Reference.holds_append hholds _⟩
    | braced name =>
      have hat := bracedAt_quote ht (Piece.fill bracedQuote (ts.map bracedPiece))
      exact ⟨⟨⟨name, _, hat, Nat.le_refl _, hholds⟩, hintact⟩, [], _, name, _, rfl, hat, hholds⟩

/-- No reference begins in the rest of a name. -/
theorem holds_dropWhile (h : plainRef.Holds k l) : plainRef.Holds k (l.dropWhile isNameChar) := by
  induction l with
  | nil => exact h
  | cons c l ih =>
    rw [List.dropWhile_cons]
    split_ifs with hc
    · apply ih
      cases k with
      | zero => trivial
      | succ k =>
        obtain ⟨m, s, name, rest, heq, hat, hrest⟩ := h
        cases m with
        | nil =>
          rw [List.nil_append] at heq
          obtain ⟨-, hs, -⟩ := plainAt_eq_some.mp hat
          obtain ⟨rfl, -⟩ := List.cons_eq_cons.mp (heq.trans hs)
          exact absurd hc (by decide)
        | cons d m => exact ⟨m, s, name, rest, (List.cons_eq_cons.mp heq).2, hat, hrest⟩
    · exact h

theorem intact_plainPiece (value : List Char → List Char) (h : ∀ t ∈ ts, t.Valid) :
    plainRef.Intact (ts.map (plainPiece value)) ∧
      plainRef.Holds (Piece.names (ts.map (plainPiece value))).length
        (Piece.fill plainQuote (ts.map (plainPiece value))) := by
  induction ts with
  | nil => exact ⟨trivial, trivial⟩
  | cons t ts ih =>
    obtain ⟨ht, hts⟩ := List.forall_mem_cons.mp h
    obtain ⟨hintact, hholds⟩ := ih hts
    cases t with
    | text c => exact ⟨hintact, Reference.holds_append hholds [c]⟩
    | braced name => exact ⟨hintact, Reference.holds_append hholds _⟩
    | plain name =>
      have hat := plainAt_quote ht (Piece.fill plainQuote (ts.map (plainPiece value)))
      have hrest := holds_dropWhile hholds
      exact ⟨⟨⟨_, _, hat, List.length_dropWhile_le _ _, hrest⟩, hintact⟩, [], _, _, _, rfl, hat, hrest⟩

/-- The loops end; they have replaced the references of the input, each kind from the left to the right,
and the text is the input with the value of each in its place. -/
def ExpandsOnce (env : List Char → Option (List Char)) (s : List Char) : Prop :=
  ∃ fuel, expandEnvVar env fuel s = some ⟨bracedNames (tokens s), plainNames (tokens s),
    fill (valueOf env) (valueOf env) (tokens s)⟩

/-- A brace is opened before something that may be a name, be it the dollar of what follows. -/
def Opens (out : List Char) : Prop :=
  ∃ m t c l, out = m ++ t ∧ t ++ ['$'] = '$' :: '{' :: c :: l ∧ c ≠ '}'

/-- The values make no reference with the text around them: before a reference in braces none is open,
there is none when they have got their values; a plain reference is not made longer by what follows,
and there is none in the end. -/
structure Unmixed (value : List Char → List Char) (ts : List Token) : Prop where
  closed : ∀ before name after, ts = before ++ .braced name :: after →
    ¬Opens (fill value plainQuote before)
  braced : bracedRef.search (fill value plainQuote ts) = none
  bounded : ∀ before name after, ts = before ++ .plain name :: after →
    ∀ c ∈ (fill value plainQuote after).head?, isNameChar c = false
  plain : plainRef.search (fill value value ts) = none

theorem bracedAt_ne_none : bracedAt s ≠ none ↔
    ∃ c l, s = '$' :: '{' :: c :: l ∧ c ≠ '}' ∧ '}' ∈ l := by
  rw [← Option.isSome_iff_ne_none, Option.isSome_iff_exists]
  constructor
  · rintro ⟨⟨name, rest⟩, h⟩
    obtain ⟨hname, rfl⟩ := bracedAt_eq_some.mp h
    obtain ⟨c, l, rfl⟩ := List.exists_cons_of_ne_nil hname.ne_nil
    exact ⟨c, _, rfl, fun hc => hname.open' (hc ▸ List.mem_cons_self),
      List.mem_append_right l List.mem_cons_self⟩
  · rintro ⟨c, l, rfl, hc, hmem⟩
    obtain ⟨name, rest, rfl, hname⟩ := List.eq_append_cons_of_mem hmem
    refine ⟨⟨c :: name, rest⟩, bracedAt_eq_some.mpr ⟨⟨nofun, fun hmem => ?_⟩, rfl⟩⟩
    rcases List.mem_cons.mp hmem with heq | hmem
    · exact hc heq.symm
    · exact hname hmem

/-- What is open before a dollar is closed by a brace after it. -/
theorem bracedAt_append_ne_none {t r : List Char} (ht : t ≠ []) (hr : '}' ∈ r) :
    bracedAt (t ++ '$' :: r) ≠ none ↔ ∃ c l, t ++ ['$'] = '$' :: '{' :: c :: l ∧ c ≠ '}' := by
  rw [bracedAt_ne_none]
  match t, ht with
  | [a], _ =>
    refine iff_of_false ?_ ?_
    · rintro ⟨c, l, h, -⟩
      simp at h
    · rintro ⟨c, l, h, -⟩
      simp at h
  | [a, b], _ =>
    constructor
    · rintro ⟨c, l, h, hc, -⟩
      simp only [List.cons_append, List.nil_append, List.cons.injEq] at h
      obtain ⟨rfl, rfl, rfl, -⟩ := h
      exact ⟨'$', [], rfl, hc⟩
    · rintro ⟨c, l, h, hc⟩
      simp only [List.cons_append, List.nil_append, List.cons.injEq] at h
      obtain ⟨rfl, rfl, rfl, -⟩ := h
      exact ⟨'$', r, rfl, hc, hr⟩
  | a :: b :: d :: t, _ =>
    constructor
    · rintro ⟨c, l, h, hc, -⟩
      simp only [List.cons_append, List.cons.injEq] at h
      obtain ⟨rfl, rfl, rfl, -⟩ := h
      exact ⟨d, t ++ ['$'], rfl, hc⟩
    · rintro ⟨c, l, h, hc⟩
      simp only [List.cons_append, List.cons.injEq] at h
      obtain ⟨rfl, rfl, rfl, -⟩ := h
      exact ⟨d, t ++ '$' :: r, rfl, hc, List.mem_append_right t (List.mem_cons_of_mem _ hr)⟩

theorem search_braced_iff (hname : BracedName name) :
    bracedRef.search (out ++ (bracedQuote name ++ rest)) = some ⟨out, name, rest⟩ ↔ ¬Opens out := by
  have hquote : bracedQuote name ++ rest = '$' :: '{' :: (name ++ '}' :: rest) := by
    unfold bracedQuote
    simp
  have hmem : '}' ∈ '{' :: (name ++ '}' :: rest) :=
    List.mem_cons_of_mem _ (List.mem_append_right name List.mem_cons_self)
  refine Reference.search_append_iff.trans ((and_iff_right (bracedAt_quote hname rest)).trans ?_)
  constructor
  · rintro h ⟨m, t, c, l, rfl, heq, hc⟩
    have ht : t ≠ [] := by
      rintro rfl
      simp at heq
    refine (bracedAt_append_ne_none ht hmem).mpr ⟨c, l, heq, hc⟩ ?_
    rw [← hquote]
    exact h m t rfl ht
  · intro h m t hout ht
    by_contra hsome
    have hsome : bracedAt (t ++ (bracedQuote name ++ rest)) ≠ none := hsome
    rw [hquote, bracedAt_append_ne_none ht hmem] at hsome
    obtain ⟨c, l, heq, hc⟩ := hsome
    exact h ⟨m, t, c, l, hout, heq, hc⟩

theorem plainAt_cons_cons {a b : Char} :
    plainAt (a :: b :: l) = none ↔ ¬(a = '$' ∧ isNameStart b = true) := by
  unfold plainAt
  dsimp only
  split_ifs with h
  · exact iff_of_false nofun (not_not.mpr h)
  · exact iff_of_true rfl h

/-- A dollar does not go on with a name. -/
theorem plainAt_append {t r : List Char} (ht : t ≠ []) :
    plainAt (t ++ '$' :: r) = none ↔ plainAt t = none := by
  match t, ht with
  | [a], _ =>
    refine iff_of_true (plainAt_cons_cons.mpr ?_) rfl
    rintro ⟨-, h⟩
    exact absurd h (by decide)
  | a :: b :: t, _ => exact plainAt_cons_cons.trans plainAt_cons_cons.symm

theorem plainAt_prefix (h : plainAt (l ++ l') = none) : plainAt l = none := by
  match l with
  | [] => rfl
  | [a] => rfl
  | a :: b :: l => exact plainAt_cons_cons.mpr (plainAt_cons_cons.mp h)

theorem search_plain_prefix (h : plainRef.search (l ++ l') = none) : plainRef.search l = none := by
  rw [Reference.search_eq_none] at h ⊢
  rintro m s rfl
  exact plainAt_prefix (h m (s ++ l') (List.append_assoc ..))

theorem search_plain_iff (hname : PlainName name) :
    plainRef.search (out ++ (plainQuote name ++ rest)) = some ⟨out, name, rest⟩ ↔
      (∀ c ∈ rest.head?, isNameChar c = false) ∧ plainRef.search out = none := by
  have hat : plainAt (plainQuote name ++ rest) = some (name, rest) ↔
      ∀ c ∈ rest.head?, isNameChar c = false := by
    rw [plainAt_eq_some, and_iff_right hname]
    exact and_iff_right rfl
  refine Reference.search_append_iff.trans (and_congr hat ?_)
  rw [Reference.search_eq_none]
  constructor
  · rintro h m s rfl
    by_cases hs : s = []
    · rw [hs, Reference.at?_nil]
    · exact (plainAt_append hs).mp (h m s rfl hs)
  · intro h m t hout ht
    exact (plainAt_append ht).mpr (h m t hout)

/-- What holds at every reference of a kind, token by token. -/
theorem forall_splits_cons {mk : List Char → Token} {t : Token}
    {P : List Token → List Token → Prop} :
    (∀ before name after, t :: ts = before ++ mk name :: after → P before after) ↔
      (∀ name, t = mk name → P [] ts) ∧
        ∀ before name after, ts = before ++ mk name :: after → P (t :: before) after := by
  constructor
  · intro h
    refine ⟨fun name ht => h [] name ts (ht ▸ rfl), fun before name after hts => ?_⟩
    exact h (t :: before) name after (congrArg (t :: ·) hts)
  · rintro ⟨hfirst, hrest⟩ before name after h
    cases before with
    | nil =>
      obtain ⟨ht, rfl⟩ := List.cons_eq_cons.mp h
      exact hfirst name ht
    | cons t' before =>
      obtain ⟨rfl, hts⟩ := List.cons_eq_cons.mp h
      exact hrest before name after hts

theorem finds_braced_iff (hvalid : ∀ t ∈ ts, t.Valid) (out : List Char) :
    bracedRef.Finds value out (ts.map bracedPiece) ↔
      (∀ before name after, ts = before ++ .braced name :: after →
        ¬Opens (out ++ fill value plainQuote before)) ∧
      bracedRef.search (out ++ fill value plainQuote ts) = none := by
  induction ts generalizing out with
  | nil =>
    have hout : out ++ fill value plainQuote [] = out := List.append_nil out
    rw [hout]
    refine (and_iff_right fun before name after h => ?_).symm
    exact absurd h.symm (by simp)
  | cons t ts ih =>
    obtain ⟨ht, hts⟩ := List.forall_mem_cons.mp hvalid
    rw [@forall_splits_cons ts .braced t fun before _ => ¬Opens (out ++ fill value plainQuote before)]
    cases t with
    | text c =>
      have ih := ih hts (out ++ [c])
      simp only [List.append_assoc] at ih
      exact ih.trans (and_congr_left fun _ => (and_iff_right nofun).symm)
    | plain name =>
      have ih := ih hts (out ++ plainQuote name)
      simp only [List.append_assoc] at ih
      exact ih.trans (and_congr_left fun _ => (and_iff_right nofun).symm)
    | braced name =>
      have ih := ih hts (out ++ value name)
      simp only [List.append_assoc] at ih
      have hnil : out ++ fill value plainQuote [] = out := List.append_nil out
      refine (and_congr (search_braced_iff ht) ih).trans (Iff.trans and_assoc.symm ?_)
      rw [hnil]
      exact and_congr_left fun _ => and_congr_left fun _ => ⟨fun h _ _ => h, fun h => h name rfl⟩

theorem finds_plain_iff (hvalid : ∀ t ∈ ts, t.Valid) (out : List Char) :
    plainRef.Finds value out (ts.map (plainPiece value)) ↔
      (∀ before name after, ts = before ++ .plain name :: after →
        ∀ c ∈ (fill value plainQuote after).head?, isNameChar c = false) ∧
      plainRef.search (out ++ fill value value ts) = none := by
  induction ts generalizing out with
  | nil =>
    have hout : out ++ fill value value [] = out := List.append_nil out
    rw [hout]
    refine (and_iff_right fun before name after h => ?_).symm
    exact absurd h.symm (by simp)
  | cons t ts ih =>
    obtain ⟨ht, hts⟩ := List.forall_mem_cons.mp hvalid
    rw [@forall_splits_cons ts .plain t fun _ after =>
      ∀ c ∈ (fill value plainQuote after).head?, isNameChar c = false]
    cases t with
    | text c =>
      have ih := ih hts (out ++ [c])
      simp only [List.append_assoc] at ih
      exact ih.trans (and_congr_left fun _ => (and_iff_right nofun).symm)
    | braced name =>
      have ih := ih hts (out ++ value name)
      simp only [List.append_assoc] at ih
      exact ih.trans (and_congr_left fun _ => (and_iff_right nofun).symm)
    | plain name =>
      have ih := ih hts (out ++ value name)
      simp only [List.append_assoc] at ih
      refine (and_congr (search_plain_iff ht) ih).trans ?_
      rw [fill_plainPiece]
      constructor
      · rintro ⟨⟨hend, -⟩, hbounded, hnone⟩
        exact ⟨⟨fun _ _ => hend, hbounded⟩, hnone⟩
      · -- nothing that is put out later takes a reference away
        rintro ⟨⟨hend, hbounded⟩, hnone⟩
        exact ⟨⟨hend name rfl, search_plain_prefix hnone⟩, hbounded, hnone⟩

/-- The loops have replaced the references of the input, and nothing else, when the values do not mix
with the text around them, and not else. -/
theorem expandEnvVar_iff (env : List Char → Option (List Char)) (s : List Char) :
    ExpandsOnce env s ↔ Unmixed (valueOf env) (tokens s) := by
  have hvalid := valid_tokens s
  have hfirst : s = [] ++ Piece.fill bracedRef.quote ((tokens s).map bracedPiece) :=
    ((fill_bracedPiece ..).trans (fill_tokens s)).symm
  unfold ExpandsOnce expandEnvVar
  generalize tokens s = ts at hvalid hfirst
  subst hfirst
  have hfound := @finds_braced_iff (valueOf env) ts hvalid []
  have hfound' := @finds_plain_iff (valueOf env) ts hvalid []
  rw [List.nil_append] at hfound'
  simp only [List.nil_append] at hfound
  have hsecond : Piece.fill (valueOf env) (ts.map bracedPiece) =
      [] ++ Piece.fill plainRef.quote (ts.map (plainPiece (valueOf env))) :=
    (fill_bracedPiece ..).trans (fill_plainPiece ..).symm
  constructor
  · rintro ⟨fuel, h⟩
    split at h
    · cases h
    · rename_i braced result hbraced
      obtain ⟨⟨plain, result'⟩, hplain, heq⟩ := Option.map_eq_some_iff.mp h
      cases heq
      rw [← names_bracedPiece] at hbraced
      have hfinds := Reference.finds_of_replace (intact_bracedPiece hvalid).1 hbraced
      have hresult := hbraced.symm.trans (hfinds.replace (Reference.length_lt hbraced))
      obtain ⟨-, rfl⟩ := Prod.mk.inj (Option.some.inj hresult)
      rw [List.nil_append, hsecond, ← names_plainPiece (valueOf env)] at hplain
      have hfinds' := Reference.finds_of_replace (intact_plainPiece _ hvalid).1 hplain
      obtain ⟨hclosed, hnone⟩ := hfound.mp hfinds
      obtain ⟨hbounded, hnone'⟩ := hfound'.mp hfinds'
      exact ⟨hclosed, hnone, hbounded, hnone'⟩
  · rintro ⟨hclosed, hnone, hbounded, hnone'⟩
    have hfinds := hfound.mpr ⟨hclosed, hnone⟩
    have hfinds' := hfound'.mpr ⟨hbounded, hnone'⟩
    refine ⟨(bracedNames ts).length + (plainNames ts).length + 1, ?_⟩
    rw [hfinds.replace (by rw [names_bracedPiece]; omega)]
    dsimp only
    rw [List.nil_append, hsecond, hfinds'.replace (by rw [names_plainPiece]; omega), Option.map_some,
      names_bracedPiece, names_plainPiece, fill_plainPiece]
    rfl

/-- A variable whose value is a reference to it. -/
def selfReferring (name : List Char) : Option (List Char) :=
  if name = ['A'] then some (bracedQuote ['A']) else none

theorem replace_selfReferring (fuel : Nat) :
    bracedRef.replace (valueOf selfReferring) fuel (bracedQuote ['A']) = none := by
  induction fuel with
  | zero => rfl
  | succ fuel ih =>
    have hsearch : bracedRef.search (bracedQuote ['A']) = some ⟨[], ['A'], []⟩ := rfl
    unfold Reference.replace
    rw [hsearch]
    exact Option.map_eq_none_iff.mpr ih

theorem not_expandsOnce_selfReferring : ¬ExpandsOnce selfReferring (bracedQuote ['A']) := by
  rintro ⟨fuel, h⟩
  unfold expandEnvVar at h
  rw [replace_selfReferring] at h
  cases h

end Uniset.Launcher
