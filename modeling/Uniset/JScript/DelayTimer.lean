import Uniset.Timers.DelayTimer
import Uniset.Timers.TimedObject

/-! The delay timer of the scripts does what the one of the library does, wherever the clock of the
library shows whole milliseconds. -/

namespace Uniset

/-- What is called of a delay timer.  A call comes some milliseconds after the one before. -/
inductive DelayCall
  | set (on_msec off_msec : Nat)
  | reset
  | check (st : Bool)
  | get
  | getCurrent
  | isWaitingOn
  | isWaitingOff
  | isWaiting

/-- What a call returns. -/
inductive Returned
  | nothing
  | flag (b : Bool)
  | msec (n : Int)
  deriving DecidableEq

namespace DelayTimer

variable (t : DelayTimer) (now : Nat)

/-- The timer of the constructor. -/
def new (on_msec off_msec : Nat) : DelayTimer :=
  ⟨.setTiming WaitUpTime now, false, false, on_msec, off_msec, false, false⟩

/-- `set` of a timer that is there already. -/
def setDelays (on_msec off_msec : Nat) : DelayTimer :=
  { t with
    onDelay := on_msec
    offDelay := off_msec
    waiting_on := false
    waiting_off := false
    state := false }

def reset : DelayTimer :=
  { t with
    pt := t.pt.reset now
    prevState := false
    waiting_on := false
    waiting_off := false
    state := false }

def call : DelayCall → DelayTimer × Returned
  | .set on_msec off_msec => (t.setDelays on_msec off_msec, .nothing)
  | .reset => (t.reset now, .nothing)
  | .check st => (t.check now st, .flag (t.check now st).state)
  | .get => (t.get now, .flag (t.get now).state)
  | .getCurrent => (t, .msec (t.pt.getCurrent now))
  | .isWaitingOn => (t.get now, .flag (!(t.get now).state && (t.get now).waiting_on))
  | .isWaitingOff => (t.get now, .flag ((t.get now).state && (t.get now).waiting_off))
  | .isWaiting => (t.get now, .flag ((t.get now).waiting_off || (t.get now).waiting_on))

/-- What the calls return.  The clock shows nanoseconds. -/
def returns (t : DelayTimer) (now : Nat) : List (Nat × DelayCall) → List Returned
  | [] => []
  | (msec, c) :: calls =>
    let now := now + 1000000 * msec
    (t.call now c).2 :: returns (t.call now c).1 now calls

end DelayTimer

namespace JScript

/-- The times are read off `Date.now()`, in milliseconds. -/
structure PassiveTimer where
  t_msec : Int
  t_start : Int
  deriving DecidableEq

namespace PassiveTimer

def new (now msec : Int) : PassiveTimer := ⟨msec, now⟩

variable (pt : PassiveTimer) (now : Int)

def checkTime : Bool := if pt.t_msec = 0 then true else decide (now - pt.t_start ≥ pt.t_msec)

def setTiming (msec : Int) : PassiveTimer := ⟨msec, now⟩

def reset : PassiveTimer := { pt with t_start := now }

def getCurrent : Int := now - pt.t_start

end PassiveTimer

structure DelayTimer where
  pt : PassiveTimer
  prevState : Bool
  state : Bool
  onDelay : Int
  offDelay : Int
  waiting_on : Bool
  waiting_off : Bool
  deriving DecidableEq

namespace DelayTimer

def new (now on_msec off_msec : Int) : DelayTimer :=
  ⟨.new now 0, false, false, on_msec, off_msec, false, false⟩

variable (t : DelayTimer) (now : Int)

def set (on_msec off_msec : Int) : DelayTimer :=
  { t with
    onDelay := on_msec
    offDelay := off_msec
    waiting_on := false
    waiting_off := false
    state := false }

def reset : DelayTimer :=
  { t with
    pt := t.pt.reset now
    prevState := false
    waiting_on := false
    waiting_off := false
    state := false }

/-- The timer after a check; what the check returns is its `state`. -/
def check (st : Bool) : DelayTimer :=
  let t := { t with prevState := st }
  if t.waiting_off then
    if t.pt.checkTime now then
      let t := { t with waiting_off := false }
      if !st then { t with state := false } else t
    else if st then { t with waiting_off := false }
    else t
  else if t.waiting_on then
    if t.pt.checkTime now then
      let t := { t with waiting_on := false }
      if st then { t with state := true } else t
    else if !st then { t with waiting_on := false }
    else t
  else if t.state ≠ st then
    let t := { t with waiting_on := false, waiting_off := false }
    if st then
      if t.onDelay ≤ 0 then { t with pt := .setTiming now 0, state := st }
      else { t with pt := .setTiming now t.onDelay, waiting_on := true }
    else
      if t.offDelay ≤ 0 then { t with pt := .setTiming now 0, state := st }
      else { t with pt := .setTiming now t.offDelay, waiting_off := true }
  else t

def get : DelayTimer := t.check now t.prevState

def call : DelayCall → DelayTimer × Returned
  | .set on_msec off_msec => (t.set on_msec off_msec, .nothing)
  | .reset => (t.reset now, .nothing)
  | .check st => (t.check now st, .flag (t.check now st).state)
  | .get => (t.get now, .flag (t.get now).state)
  | .getCurrent => (t, .msec (t.pt.getCurrent now))
  | .isWaitingOn => (t.get now, .flag (!(t.get now).state && (t.get now).waiting_on))
  | .isWaitingOff => (t.get now, .flag ((t.get now).state && (t.get now).waiting_off))
  | .isWaiting => (t.get now, .flag ((t.get now).waiting_off || (t.get now).waiting_on))

def returns (t : DelayTimer) (now : Int) : List (Nat × DelayCall) → List Returned
  | [] => []
  | (msec, c) :: calls =>
    let now := now + msec
    (t.call now c).2 :: returns (t.call now c).1 now calls

end DelayTimer

/-- The timer of the scripts stands as the one of the library does. -/
structure Stands (j : DelayTimer) (t : Uniset.DelayTimer) : Prop where
  prevState : j.prevState = t.prevState
  state : j.state = t.state
  onDelay : j.onDelay = t.onDelay
  offDelay : j.offDelay = t.offDelay
  waiting_on : j.waiting_on = t.waiting_on
  waiting_off : j.waiting_off = t.waiting_off
  start : (t.pt.t_start : Int) = 1000000 * j.pt.t_start
  /-- the time that is waited for, which is none that is never over -/
  timing : t.waiting_on = true ∨ t.waiting_off = true →
    j.pt.t_msec = t.pt.t_msec ∧ t.pt.t_msec < WaitUpTime
  short : t.onDelay < WaitUpTime ∧ t.offDelay < WaitUpTime

namespace Stands

variable {j : DelayTimer} {t : Uniset.DelayTimer} {now : Nat}

theorem checkTime_eq (h : Stands j t) (hwaits : t.waiting_on = true ∨ t.waiting_off = true)
    (now : Nat) : j.pt.checkTime now = t.pt.checkTime (1000000 * now) := by
  obtain ⟨htiming, hshort⟩ := h.timing hwaits
  have hstart := h.start
  rw [PassiveTimer.checkTime, Uniset.PassiveTimer.checkTime, htiming,
    if_neg (Nat.ne_of_lt hshort)]
  by_cases hzero : t.pt.t_msec = 0
  · simp [hzero]
  · rw [if_neg (by omega), if_neg hzero, decide_eq_decide]
    omega

theorem not_waits : ¬(false = true ∨ false = true) := nofun

theorem check (h : Stands j t) (now : Nat) (st : Bool) :
    Stands (j.check now st) (t.check (1000000 * now) st) := by
  have htime := h.checkTime_eq
  obtain ⟨hprev, hstate, hon, hoff, hwon, hwoff, hstart, htiming, hshort⟩ := h
  obtain ⟨pt, prevState, state, onDelay, offDelay, waiting_on, waiting_off⟩ := t
  obtain ⟨jpt, jprev, jstate, jon, joff, jwon, jwoff⟩ := j
  dsimp only at *
  subst hprev hstate hon hoff hwon hwoff
  cases jwoff with
  | true =>
    have heq := htime (.inr rfl) now
    rw [DelayTimer.check, Uniset.DelayTimer.check]
    simp only [if_true, heq]
    split
    · cases st <;> exact ⟨rfl, rfl, rfl, rfl, rfl, rfl, hstart, fun _ => htiming (.inr rfl), hshort⟩
    · cases st <;> exact ⟨rfl, rfl, rfl, rfl, rfl, rfl, hstart, fun _ => htiming (.inr rfl), hshort⟩
  | false =>
    cases jwon with
    | true =>
      have heq := htime (.inl rfl) now
      rw [DelayTimer.check, Uniset.DelayTimer.check]
      simp only [if_true, Bool.false_eq_true, if_false, heq]
      split
      · cases st <;>
          exact ⟨rfl, rfl, rfl, rfl, rfl, rfl, hstart, fun _ => htiming (.inl rfl), hshort⟩
      · cases st <;>
          exact ⟨rfl, rfl, rfl, rfl, rfl, rfl, hstart, fun _ => htiming (.inl rfl), hshort⟩
    | false =>
      rw [DelayTimer.check, Uniset.DelayTimer.check]
      simp only [Bool.false_eq_true, if_false]
      by_cases hsame : jstate = st
      · rw [if_neg (not_not_intro hsame), if_neg (not_not_intro hsame)]
        exact ⟨rfl, rfl, rfl, rfl, rfl, rfl, hstart, htiming, hshort⟩
      · rw [if_pos hsame, if_pos hsame]
        cases st with
        | true =>
          simp only [if_true]
          by_cases hzero : onDelay = 0
          · rw [if_pos (by omega), if_pos hzero]
            exact ⟨rfl, rfl, rfl, rfl, rfl, rfl, rfl, fun h => absurd h not_waits, hshort⟩
          · rw [if_neg (by omega), if_neg hzero]
            exact ⟨rfl, rfl, rfl, rfl, rfl, rfl, rfl, fun _ => ⟨rfl, hshort.1⟩, hshort⟩
        | false =>
          simp only [Bool.false_eq_true, if_false]
          by_cases hzero : offDelay = 0
          · rw [if_pos (by omega), if_pos hzero]
            exact ⟨rfl, rfl, rfl, rfl, rfl, rfl, rfl, fun h => absurd h not_waits, hshort⟩
          · rw [if_neg (by omega), if_neg hzero]
            exact ⟨rfl, rfl, rfl, rfl, rfl, rfl, rfl, fun _ => ⟨rfl, hshort.2⟩, hshort⟩

theorem get (h : Stands j t) (now : Nat) : Stands (j.get now) (t.get (1000000 * now)) := by
  rw [DelayTimer.get, h.prevState]
  exact h.check now t.prevState

/-- The delays of `set` are no times that are never over. -/
def Short : DelayCall → Prop
  | .set on_msec off_msec => on_msec < WaitUpTime ∧ off_msec < WaitUpTime
  | _ => True

theorem call (h : Stands j t) (hpast : j.pt.t_start ≤ now) {c : DelayCall} (hc : Short c) :
    Stands (j.call now c).1 (t.call (1000000 * now) c).1 ∧
      (j.call now c).2 = (t.call (1000000 * now) c).2 := by
  cases c with
  | set on_msec off_msec =>
    exact ⟨⟨h.prevState, rfl, rfl, rfl, rfl, rfl, h.start, fun h => absurd h not_waits, hc⟩, rfl⟩
  | reset =>
    have hnow : ((1000000 * now : Nat) : Int) = 1000000 * (now : Int) := by omega
    exact ⟨⟨rfl, rfl, h.onDelay, h.offDelay, rfl, rfl, hnow, fun h => absurd h not_waits, h.short⟩,
      rfl⟩
  | check st => exact ⟨h.check now st, congrArg Returned.flag (h.check now st).state⟩
  | get => exact ⟨h.get now, congrArg Returned.flag (h.get now).state⟩
  | getCurrent =>
    refine ⟨h, congrArg Returned.msec ?_⟩
    have hstart := h.start
    rw [PassiveTimer.getCurrent, Uniset.PassiveTimer.getCurrent]
    omega
  | isWaitingOn =>
    refine ⟨h.get now, congrArg Returned.flag ?_⟩
    rw [(h.get now).state, (h.get now).waiting_on]
  | isWaitingOff =>
    refine ⟨h.get now, congrArg Returned.flag ?_⟩
    rw [(h.get now).state, (h.get now).waiting_off]
  | isWaiting =>
    refine ⟨h.get now, congrArg Returned.flag ?_⟩
    rw [(h.get now).waiting_off, (h.get now).waiting_on]

end Stands

/-- A timer begins to wait when it is called. -/
theorem DelayTimer.start_check (j : DelayTimer) (now : Int) (st : Bool) :
    (j.check now st).pt.t_start = j.pt.t_start ∨ (j.check now st).pt.t_start = now := by
  obtain ⟨pt, prevState, state, onDelay, offDelay, waiting_on, waiting_off⟩ := j
  rw [check]
  dsimp only
  repeat' split
  all_goals first | exact .inl rfl | exact .inr rfl

theorem DelayTimer.start_le {j : DelayTimer} {now : Int} (h : j.pt.t_start ≤ now) (c : DelayCall) :
    (j.call now c).1.pt.t_start ≤ now := by
  have hcheck : ∀ st, (j.check now st).pt.t_start ≤ now := by
    intro st
    obtain hsame | hnow := j.start_check now st
    · exact hsame ▸ h
    · exact Int.le_of_eq hnow
  cases c with
  | set on_msec off_msec => exact h
  | reset => exact Int.le_refl now
  | getCurrent => exact h
  | check st => exact hcheck st
  | get | isWaitingOn | isWaitingOff | isWaiting => exact hcheck j.prevState

theorem Stands.returns {j : DelayTimer} {t : Uniset.DelayTimer} {now : Nat} (h : Stands j t)
    (hpast : j.pt.t_start ≤ now) {calls : List (Nat × DelayCall)}
    (hcalls : ∀ c ∈ calls, Stands.Short c.2) :
    j.returns now calls = t.returns (1000000 * now) calls := by
  induction calls generalizing j t now with
  | nil => rfl
  | cons call calls ih =>
    obtain ⟨msec, c⟩ := call
    have hnow : (now : Int) + msec = ((now + msec : Nat) : Int) := (Int.natCast_add now msec).symm
    have hnow' : 1000000 * now + 1000000 * msec = 1000000 * (now + msec) := (Nat.mul_add ..).symm
    rw [List.forall_mem_cons] at hcalls
    have hle : j.pt.t_start ≤ ((now + msec : Nat) : Int) := by omega
    obtain ⟨hstands, hreturned⟩ := h.call hle hcalls.1
    rw [DelayTimer.returns, Uniset.DelayTimer.returns, hnow, hnow']
    exact congrArg₂ List.cons hreturned (ih hstands (DelayTimer.start_le hle c) hcalls.2)

/-- Whatever is called of them, and whenever, the two delay timers return the same. -/
theorem delayTimer_returns (now on_msec off_msec : Nat) (hon : on_msec < WaitUpTime)
    (hoff : off_msec < WaitUpTime) (calls : List (Nat × DelayCall))
    (hcalls : ∀ c ∈ calls, Stands.Short c.2) :
    (DelayTimer.new now on_msec off_msec).returns now calls =
      (Uniset.DelayTimer.new (1000000 * now) on_msec off_msec).returns (1000000 * now) calls := by
  refine Stands.returns ⟨rfl, rfl, rfl, rfl, rfl, rfl, ?_, fun h => absurd h Stands.not_waits, hon,
    hoff⟩ (Int.le_refl _) hcalls
  change ((1000000 * now : Nat) : Int) = 1000000 * (now : Int)
  omega

/-- A signal that comes and goes, at a timer with the delays 200 and 50. -/
theorem delayTimer_returns_check :
    (DelayTimer.new 0 200 50).returns 0 [(10, .check true), (200, .check true), (40, .check false),
        (49, .isWaitingOff), (1, .check false)] =
      (Uniset.DelayTimer.new (1000000 * 0) 200 50).returns (1000000 * 0) [(10, .check true),
        (200, .check true), (40, .check false), (49, .isWaitingOff), (1, .check false)] :=
  delayTimer_returns 0 200 50 (by decide) (by decide) _ (by simp [Stands.Short])

end JScript

end Uniset
