import Uniset.Core
import Mathlib.Data.List.Nodup

/-! The timers of an object with their times.  A check sends the message of each timer whose time is
over, and says how long the object may sleep. -/

namespace Uniset

/-- The shortest time that is waited for, in milliseconds. -/
def MinQuantityTime : Nat := 10

namespace PassiveTimer

def getCurrent (t : PassiveTimer) (now : Nat) : Nat := (now - t.t_start) / 1000000

/-- What the time since the start leaves of `timeout`. -/
def getLeft (t : PassiveTimer) (timeout now : Nat) : Nat :=
  if timeout ≤ t.getCurrent now then 0 else timeout - t.getCurrent now

end PassiveTimer

inductive Priority
  | Low
  | Medium
  | High
  deriving DecidableEq

/-- `curTimeMS` is what was left at the last pass over the timers. -/
structure TimerInfo where
  id : Int
  curTimeMS : Nat
  priority : Priority
  curTick : Int
  tmr : PassiveTimer
  deriving DecidableEq

structure TimerMessage where
  id : Int
  interval_msec : Nat
  priority : Priority
  deriving DecidableEq

namespace TimerInfo

/-- A new timer: the tick that it begins with is counted. -/
def new (id : Int) (timeMS : Nat) (cnt : Int) (p : Priority) (now : Nat) : TimerInfo :=
  ⟨id, timeMS, p, cnt - 1, .setTiming timeMS now⟩

def reset (li : TimerInfo) (now : Nat) : TimerInfo :=
  { li with curTimeMS := li.tmr.getInterval, tmr := li.tmr.reset now }

/-- A timer that is asked for again. -/
def askAgain (li : TimerInfo) (timeMS : Nat) (ticks : Int) (now : Nat) : TimerInfo :=
  { li with curTick := ticks, tmr := .setTiming timeMS now }

def message (li : TimerInfo) : TimerMessage := ⟨li.id, li.tmr.getInterval, li.priority⟩

end TimerInfo

structure LT_Object where
  tlst : List TimerInfo
  sleepTime : Nat
  tmLast : PassiveTimer

inductive TimerOp
  | askTimer (timerid : Int) (timeMS : Int64) (ticks : Int) (p : Priority)
  | checkTimers

namespace LT_Object

def new (now : Nat) : LT_Object := ⟨[], WaitUpTime, .setTiming WaitUpTime now⟩

/-- The least of the times so far; `WaitUpTime` is none. -/
def leastTime (sleepTime curTimeMS : Nat) : Nat :=
  if curTimeMS < sleepTime ∨ sleepTime = WaitUpTime then curTimeMS else sleepTime

/-- The loop of `checkTimers`; `kept` tells whether a timer before these stays in the list. -/
def checkList (tmLast : PassiveTimer) (now : Nat) :
    Bool → Nat → List TimerInfo → List TimerInfo × Nat × List TimerMessage
  | _, sleepTime, [] => ([], sleepTime, [])
  | kept, sleepTime, li :: tlst =>
    if li.tmr.checkTime now then
      if li.curTick = 0 then
        let sleepTime := if !kept && tlst.isEmpty then WaitUpTime else sleepTime
        let (tlst, sleepTime, sent) := checkList tmLast now kept sleepTime tlst
        (tlst, sleepTime, li.message :: sent)
      else
        let turned := ({ li with
          curTick := if 0 < li.curTick then li.curTick - 1 else li.curTick } : TimerInfo).reset now
        let (tlst, sleepTime, sent) :=
          checkList tmLast now true (leastTime sleepTime turned.curTimeMS) tlst
        (turned :: tlst, sleepTime, li.message :: sent)
    else
      let waiting := { li with curTimeMS := tmLast.getLeft li.curTimeMS now }
      let (tlst, sleepTime, sent) :=
        checkList tmLast now true (leastTime sleepTime waiting.curTimeMS) tlst
      (waiting :: tlst, sleepTime, sent)

variable (t : LT_Object)

/-- What is left of the sleep time counts only where the function returns early. -/
def checkTimers (now : Nat) : LT_Object × List TimerMessage :=
  if t.tlst = [] then ({ t with sleepTime := WaitUpTime }, [])
  else if t.tmLast.getCurrent now < MinQuantityTime ∧
      t.tmLast.getLeft t.sleepTime now < MinQuantityTime then
    ({ t with sleepTime := MinQuantityTime }, [])
  else
    let (tlst, sleepTime, sent) := checkList t.tmLast now false WaitUpTime t.tlst
    (⟨tlst, if sleepTime < MinQuantityTime then MinQuantityTime else sleepTime, t.tmLast.reset now⟩,
      sent)

/-- Changes the first timer of that number. -/
def onTimer (timerid : Int) (f : TimerInfo → TimerInfo) : List TimerInfo → List TimerInfo
  | [] => []
  | li :: tlst => if li.id = timerid then f li :: tlst else li :: onTimer timerid f tlst

/-- The period of a timer that is asked for with a time that is not 0. -/
def period (timeMS : Int64) : Nat :=
  if timeMS.toInt < MinQuantityTime then MinQuantityTime else timeMS.toInt.toNat

/-- What is returned is the sleep time. -/
def askTimer (now : Nat) (timerid : Int) (timeMS : Int64) (ticks : Int) (p : Priority) : LT_Object :=
  if 0 < timeMS.toInt then
    if ∃ li ∈ t.tlst, li.id = timerid then
      { t with
        tlst := onTimer timerid (fun li => li.askAgain (period timeMS) ticks now) t.tlst }
    else
      { t with
        tlst := t.tlst ++ [.new timerid (period timeMS) ticks p now]
        sleepTime := MinQuantityTime }
  else
    let tlst := t.tlst.filter fun li => li.id ≠ timerid
    { t with tlst, sleepTime := if tlst = [] then WaitUpTime else MinQuantityTime }

def step (now : Nat) : TimerOp → LT_Object × List TimerMessage
  | .askTimer timerid timeMS ticks p => (t.askTimer now timerid timeMS ticks p, [])
  | .checkTimers => t.checkTimers now

end LT_Object

/-! ## One pass -/

namespace TimerInfo

variable (li : TimerInfo) (tmLast : PassiveTimer) (now : Nat)

/-- The time of the timer is over. -/
def due : Bool := li.tmr.checkTime now

/-- What a pass makes of a timer: none if it has sent its last message. -/
def turn : Option TimerInfo :=
  if li.due now then
    if li.curTick = 0 then none
    else
      some (({ li with
        curTick := if 0 < li.curTick then li.curTick - 1 else li.curTick } : TimerInfo).reset now)
  else some { li with curTimeMS := tmLast.getLeft li.curTimeMS now }

variable {li tmLast now} {li' : TimerInfo}

theorem turn_id (h : li.turn tmLast now = some li') : li'.id = li.id := by
  unfold turn at h
  by_cases hdue : li.due now
  · rw [if_pos hdue] at h
    by_cases htick : li.curTick = 0
    · rw [if_pos htick] at h
      cases h
    · rw [if_neg htick] at h
      cases h
      rfl
  · rw [if_neg hdue] at h
    cases h
    rfl

end TimerInfo

namespace LT_Object

variable {tmLast : PassiveTimer} {now : Nat}

theorem checkList_list (kept : Bool) (sleepTime : Nat) (tlst : List TimerInfo) :
    (checkList tmLast now kept sleepTime tlst).1 =
      tlst.filterMap fun li => li.turn tmLast now := by
  induction tlst generalizing kept sleepTime with
  | nil => rfl
  | cons li tlst ih =>
    rw [List.filterMap_cons, TimerInfo.turn]
    unfold checkList
    change (if li.due now then _ else _ : List TimerInfo × Nat × List TimerMessage).1 = _
    by_cases hdue : li.due now
    · rw [if_pos hdue, if_pos hdue]
      by_cases htick : li.curTick = 0
      · rw [if_pos htick, if_pos htick]
        exact ih _ _
      · rw [if_neg htick, if_neg htick]
        exact congrArg _ (ih _ _)
    · rw [if_neg hdue, if_neg hdue]
      exact congrArg _ (ih _ _)

theorem checkList_sent (kept : Bool) (sleepTime : Nat) (tlst : List TimerInfo) :
    (checkList tmLast now kept sleepTime tlst).2.2 =
      (tlst.filter fun li => li.due now).map TimerInfo.message := by
  induction tlst generalizing kept sleepTime with
  | nil => rfl
  | cons li tlst ih =>
    rw [List.filter_cons]
    unfold checkList
    change (if li.due now then _ else _ : List TimerInfo × Nat × List TimerMessage).2.2 = _
    by_cases hdue : li.due now
    · rw [if_pos hdue, if_pos hdue, List.map_cons]
      by_cases htick : li.curTick = 0
      · rw [if_pos htick]
        exact congrArg _ (ih _ _)
      · rw [if_neg htick]
        exact congrArg _ (ih _ _)
    · rw [if_neg hdue, if_neg hdue]
      exact ih _ _

/-- A check that is not put off. -/
def Passes (t : LT_Object) (now : Nat) : Prop :=
  t.tlst ≠ [] ∧ ¬(t.tmLast.getCurrent now < MinQuantityTime ∧
    t.tmLast.getLeft t.sleepTime now < MinQuantityTime)

instance (t : LT_Object) (now : Nat) : Decidable (t.Passes now) := inferInstanceAs (Decidable (_ ∧ _))

variable {t : LT_Object}

theorem checkTimers_of_not_passes (h : ¬t.Passes now) :
    (t.checkTimers now).1.tlst = t.tlst ∧ (t.checkTimers now).1.tmLast = t.tmLast ∧
      (t.checkTimers now).2 = [] := by
  unfold checkTimers
  split_ifs with hempty hearly
  · exact ⟨rfl, rfl, rfl⟩
  · exact ⟨rfl, rfl, rfl⟩
  · exact absurd ⟨hempty, hearly⟩ h

theorem checkTimers_of_passes (h : t.Passes now) : t.checkTimers now =
    (⟨t.tlst.filterMap fun li => li.turn t.tmLast now,
        max (checkList t.tmLast now false WaitUpTime t.tlst).2.1 MinQuantityTime,
        t.tmLast.reset now⟩,
      (t.tlst.filter fun li => li.due now).map TimerInfo.message) := by
  unfold checkTimers
  rw [if_neg h.1, if_neg h.2]
  dsimp only
  rw [checkList_list, checkList_sent]
  congr 2
  split_ifs with hlt
  · exact (Nat.max_eq_right (Nat.le_of_lt hlt)).symm
  · exact (Nat.max_eq_left (Nat.not_lt.mp hlt)).symm

theorem askTimer_tmLast (timerid : Int) (timeMS : Int64) (ticks : Int) (p : Priority) :
    (t.askTimer now timerid timeMS ticks p).tmLast = t.tmLast := by
  unfold askTimer
  split_ifs
  · rfl
  · rfl
  · rfl

end LT_Object

end Uniset
