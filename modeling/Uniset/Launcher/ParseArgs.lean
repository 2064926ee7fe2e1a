import Mathlib.Data.List.Basic

/-! The arguments of a process, as they are read from one text. -/

namespace Uniset.Launcher

def isQuote (c : Char) : Bool := c == '"' || c == '\x27'

def isBlank (c : Char) : Bool := c == ' ' || c == '\t'

/-- What `parseArgs` has after some characters: the arguments that are over, and the one it reads. -/
structure ArgsParser where
  args : List (List Char)
  current : List Char
  inQuotes : Bool
  quoteChar : Char
  deriving DecidableEq

namespace ArgsParser

def new : ArgsParser := ⟨[], [], false, '\x00'⟩

variable (p : ArgsParser)

/-- An argument is over, unless it is empty. -/
def push : ArgsParser :=
  if p.current ≠ [] then { p with args := p.args ++ [p.current], current := [] } else p

def step (c : Char) : ArgsParser :=
  if !p.inQuotes && isQuote c then { p with inQuotes := true, quoteChar := c }
  else if p.inQuotes && c == p.quoteChar then { p with inQuotes := false, quoteChar := '\x00' }
  else if !p.inQuotes && isBlank c then p.push
  else { p with current := p.current ++ [c] }

end ArgsParser

def parseArgs (argsStr : List Char) : List (List Char) :=
  (argsStr.foldl ArgsParser.step ArgsParser.new).push.args

/-- The ways to write an argument: characters by themselves, and parts in quotes of either kind, one
after another. -/
inductive Quotes : List Char → List Char → Prop
  | bare {c : Char} (hquote : isQuote c = false) (hblank : isBlank c = false) : Quotes [c] [c]
  | quoted {q : Char} {s : List Char} (hquote : isQuote q = true) (hmem : q ∉ s) :
      Quotes s (q :: (s ++ [q]))
  | append {a a' t t' : List Char} (h : Quotes a t) (h' : Quotes a' t') : Quotes (a ++ a') (t ++ t')

/-- However each of the arguments is written, they are read again. -/
def ReadAgain (args : List (List Char)) : Prop :=
  ∀ texts, List.Forall₂ Quotes args texts → parseArgs ([' '].intercalate texts) = args

namespace ArgsParser

variable {p : ArgsParser} {a s t : List Char} {c q : Char} {args texts : List (List Char)}

/-- Between two arguments, or in one that is written without quotes so far. -/
def outside (args : List (List Char)) (current : List Char) : ArgsParser :=
  ⟨args, current, false, '\x00'⟩

theorem step_blank (args : List (List Char)) (current : List Char) :
    (outside args current).step ' ' = (outside args current).push := rfl

theorem push_outside (args : List (List Char)) (current : List Char) :
    (outside args current).push = outside (args ++ [current].filter (· ≠ [])) [] := by
  unfold push outside
  dsimp only
  split_ifs with h
  · simp [h]
  · obtain rfl := not_not.mp h
    simp

/-- In quotes all other characters are taken as they are. -/
theorem foldl_quoted (hmem : q ∉ s) (current : List Char) :
    s.foldl step ⟨args, current, true, q⟩ = ⟨args, current ++ s, true, q⟩ := by
  induction s generalizing current with
  | nil => simp
  | cons c s ih =>
    rw [List.mem_cons, not_or] at hmem
    obtain ⟨hc, hs⟩ := hmem
    have hstep : step ⟨args, current, true, q⟩ c = ⟨args, current ++ [c], true, q⟩ := by
      simp [step, Ne.symm hc]
    rw [List.foldl_cons, hstep, ih hs, List.append_assoc, List.singleton_append]

/-- What is written of an argument is added to it. -/
theorem foldl_quotes (h : Quotes a t) (current : List Char) :
    t.foldl step (outside args current) = outside args (current ++ a) := by
  induction h generalizing current with
  | bare hquote hblank => simp [step, outside, hquote, hblank]
  | @quoted q s hquote hmem =>
    have hopen : step (outside args current) q = ⟨args, current, true, q⟩ := by
      simp [step, outside, hquote]
    have hclose : step ⟨args, current ++ s, true, q⟩ q = outside args (current ++ s) := by
      simp [step, outside]
    rw [List.foldl_cons, hopen, List.foldl_append, foldl_quoted hmem, List.foldl_cons, hclose,
      List.foldl_nil]
  | append h h' ih ih' => rw [List.foldl_append, ih, ih', List.append_assoc]

/-- The arguments that are not empty are read again. -/
theorem push_foldl (h : List.Forall₂ Quotes args texts) (before : List (List Char)) :
    (([' '].intercalate texts).foldl step (outside before [])).push =
      outside (before ++ args.filter (· ≠ [])) [] := by
  induction h generalizing before with
  | nil => simp [push_outside]
  | @cons a t args texts ha hrest ih =>
    cases hrest with
    | nil => rw [List.intercalate_singleton, foldl_quotes ha, push_outside, List.nil_append]
    | @cons a' t' args texts ha' hrest =>
      rw [List.intercalate_cons_cons, List.foldl_append, List.foldl_append, foldl_quotes ha,
        List.foldl_cons, List.foldl_nil, step_blank, push_outside, ih, List.append_assoc,
        List.nil_append, ← List.filter_append, List.singleton_append]

end ArgsParser

/-- Each argument can be written: the characters that are not bare in quotes of the other kind. -/
theorem exists_quotes (a : List Char) : ∃ t, Quotes a t := by
  induction a with
  | nil => exact ⟨_, .quoted (q := '"') rfl (List.not_mem_nil)⟩
  | cons c a ih =>
    obtain ⟨t, ht⟩ := ih
    by_cases hc : c = '"'
    · have hquoted : Quotes [c] _ := .quoted (q := '\x27') rfl (by simp [hc])
      exact ⟨_, hquoted.append ht⟩
    · have hquoted : Quotes [c] _ := .quoted (q := '"') rfl (by simpa using Ne.symm hc)
      exact ⟨_, hquoted.append ht⟩

theorem exists_texts (args : List (List Char)) : ∃ texts, List.Forall₂ Quotes args texts := by
  induction args with
  | nil => exact ⟨[], .nil⟩
  | cons a args ih =>
    obtain ⟨t, ht⟩ := exists_quotes a
    obtain ⟨texts, htexts⟩ := ih
    exact ⟨t :: texts, .cons ht htexts⟩

theorem parseArgs_eq {args texts : List (List Char)} (h : List.Forall₂ Quotes args texts) :
    parseArgs ([' '].intercalate texts) = args.filter (· ≠ []) :=
  congrArg ArgsParser.args (ArgsParser.push_foldl h [])

/-- They are read again when none of them is empty, and not else. -/
theorem parseArgs_iff (args : List (List Char)) : ReadAgain args ↔ [] ∉ args := by
  constructor
  · intro h hempty
    obtain ⟨texts, htexts⟩ := exists_texts args
    have hread := h texts htexts
    rw [parseArgs_eq htexts, List.filter_eq_self] at hread
    exact absurd (hread [] hempty) (by decide)
  · intro h texts htexts
    rw [parseArgs_eq htexts, List.filter_eq_self]
    exact fun a ha => decide_eq_true fun hnil => h (hnil ▸ ha)

/-- An empty argument in quotes is not read. -/
theorem not_readAgain_empty : ¬ReadAgain [['a'], [], ['b']] := by
  intro h
  have htexts : List.Forall₂ Quotes [['a'], [], ['b']] [['a'], ['"', '"'], ['b']] :=
    .cons (.bare rfl rfl) (.cons (.quoted (q := '"') (s := []) rfl List.not_mem_nil)
      (.cons (.bare rfl rfl) .nil))
  exact absurd (h _ htexts) (by decide)

end Uniset.Launcher
