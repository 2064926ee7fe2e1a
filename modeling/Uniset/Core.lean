import Mathlib.Tactic.SplitIfs

namespace Uniset

/-- Identifiers of objects and sensors. -/
abbrev ObjectId := Int

def DefaultObjectId : ObjectId := -1

structure SensorInfo where
  id : ObjectId
  node : ObjectId
  deriving DecidableEq

/-- `timeout_t` is a 64-bit signed number of milliseconds. -/
def WaitUpTime : Nat := 0x7FFFFFFFFFFFFFFF

/-- A timer that is only asked whether its interval is over.  Times are read off
a steady clock in nanoseconds. -/
structure PassiveTimer where
  t_msec : Nat
  t_start : Nat
  deriving DecidableEq

namespace PassiveTimer

def checkTime (t : PassiveTimer) (now : Nat) : Bool :=
  if t.t_msec = WaitUpTime then false
  else if t.t_msec = 0 then true
  else decide (t.t_msec ≤ (now - t.t_start) / 1000000)

def setTiming (msec now : Nat) : PassiveTimer := ⟨msec, now⟩

def reset (t : PassiveTimer) (now : Nat) : PassiveTimer := { t with t_start := now }

/-- The interval that is asked for; none is 0. -/
def getInterval (t : PassiveTimer) : Nat := if t.t_msec ≠ WaitUpTime then t.t_msec else 0

/-- An interval that is over stays over until the timer is set anew. -/
theorem checkTime_mono (t : PassiveTimer) {now now' : Nat} (hle : now ≤ now')
    (h : t.checkTime now = true) : t.checkTime now' = true := by
  unfold checkTime at h ⊢
  split_ifs at h ⊢ with hwait hzero
  · rfl
  · have hdiv : (now - t.t_start) / 1000000 ≤ (now' - t.t_start) / 1000000 :=
      Nat.div_le_div_right (Nat.sub_le_sub_right hle _)
    exact decide_eq_true (Nat.le_trans (of_decide_eq_true h) hdiv)

end PassiveTimer

/-- An edge detector over a flag. -/
structure Trigger where
  oldstate : Bool
  deriving DecidableEq

/-- Fires on every change of the flag. -/
def Trigger.change (t : Trigger) (state : Bool) : Bool × Trigger :=
  if t.oldstate ≠ state then (true, ⟨state⟩) else (false, t)

/-- Fires when the flag becomes `edge`. -/
def Trigger.becomes (t : Trigger) (edge state : Bool) : Bool × Trigger :=
  if t.oldstate ≠ state then (state == edge, ⟨state⟩) else (false, t)

def Trigger.hi (t : Trigger) (state : Bool) : Bool × Trigger := t.becomes true state

def Trigger.low (t : Trigger) (state : Bool) : Bool × Trigger := t.becomes false state

end Uniset

/-! Numbers in texts, as the configuration is read. -/

namespace Uniset

/-- The digits that a text begins with, in a base up to 16. -/
def digitValue (base : Nat) (c : Char) : Option Nat :=
  let n := c.toNat
  let value :=
    if '0'.toNat ≤ n ∧ n ≤ '9'.toNat then n - '0'.toNat
    else if 'a'.toNat ≤ n ∧ n ≤ 'f'.toNat then n - 'a'.toNat + 10
    else if 'A'.toNat ≤ n ∧ n ≤ 'F'.toNat then n - 'A'.toNat + 10
    else base
  if value < base then some value else none

/-- The number at the beginning of a text; the rest of the text is not looked at. -/
def leadingNumber (base : Nat) : List Char → Nat → Nat
  | [], n => n
  | c :: cs, n =>
    match digitValue base c with
    | some d => leadingNumber base cs (n * base + d)
    | none => n

/-- `std::from_chars`: what is out of the bounds leaves the zero that was there. -/
def from_chars (base low high : Nat) (cs : List Char) : Int :=
  match cs with
  | '-' :: cs => if leadingNumber base cs 0 ≤ low then -(leadingNumber base cs 0 : Int) else 0
  | cs => if leadingNumber base cs 0 ≤ high then leadingNumber base cs 0 else 0

/-- An `int` out of an `unsigned int`. -/
def toInt32 (n : Int) : Int := if n < 2147483648 then n else n - 4294967296

def uni_atoi (s : String) : Int :=
  match s.toList with
  | '-' :: '0' :: 'x' :: cs => -from_chars 16 2147483648 2147483647 cs
  | '-' :: c :: cs => from_chars 10 2147483648 2147483647 ('-' :: c :: cs)
  | '0' :: 'x' :: c :: cs => toInt32 (from_chars 16 0 4294967295 (c :: cs))
  | cs => toInt32 (from_chars 10 0 4294967295 cs)

def is_digit (s : String) : Bool :=
  match s.toList with
  | [] => false
  | '-' :: cs => !cs.isEmpty && cs.all fun c => (digitValue 10 c).isSome
  | cs => cs.all fun c => (digitValue 10 c).isSome

end Uniset
