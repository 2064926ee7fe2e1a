import Uniset.Core
import Mathlib.Logic.Function.Basic

/-! The timers of an object, whose expiry is a message to the object itself. -/

namespace Uniset

/-- `tlst` has the current tick of each timer that is asked for, and `queue` the messages of those
that have expired. -/
structure LTObject (ι : Type) where
  tlst : ι → Option Int
  queue : List ι

namespace LTObject

variable {ι : Type} [DecidableEq ι]

def new : LTObject ι := ⟨fun _ => none, []⟩

variable (t : LTObject ι)

/-- A time of 0 takes the timer back.  A new timer counts the tick that it begins with, one that is
asked for again does not. -/
def askTimer (id : ι) (timeMS : Nat) (ticks : Int) : LTObject ι :=
  if timeMS = 0 then { t with tlst := Function.update t.tlst id none }
  else
    let curTick := match t.tlst id with
      | some _ => ticks
      | none => ticks - 1
    { t with tlst := Function.update t.tlst id (some curTick) }

/-- The time of a timer is over. -/
def checkTimer (id : ι) : LTObject ι :=
  match t.tlst id with
  | none => t
  | some curTick =>
    let next := if curTick = 0 then none else if 0 < curTick then some (curTick - 1) else some curTick
    ⟨Function.update t.tlst id next, t.queue ++ [id]⟩

/-- A message of the timer comes, or will come. -/
def Pending (id : ι) : Prop := (t.tlst id).isSome = true ∨ id ∈ t.queue

instance (id : ι) : Decidable (t.Pending id) := inferInstanceAs (Decidable (_ ∨ _))

variable {t} {id id' : ι}

theorem pending_askTimer {timeMS : Nat} (h : timeMS ≠ 0) (ticks : Int) :
    (t.askTimer id timeMS ticks).Pending id := by
  refine .inl ?_
  unfold askTimer
  rw [if_neg h]
  dsimp only
  rw [Function.update_self]
  rfl

theorem pending_askTimer_of_ne (h : id' ≠ id) (timeMS : Nat) (ticks : Int) :
    (t.askTimer id timeMS ticks).Pending id' ↔ t.Pending id' := by
  unfold Pending askTimer
  split_ifs
  · dsimp only
    rw [Function.update_of_ne h]
  · dsimp only
    rw [Function.update_of_ne h]

/-- Nothing that is pending is lost when a timer is asked for. -/
theorem Pending.askTimer (h : t.Pending id') {timeMS : Nat} (hne : timeMS ≠ 0) (ticks : Int) :
    (t.askTimer id timeMS ticks).Pending id' := by
  by_cases heq : id' = id
  · subst heq
    exact pending_askTimer hne ticks
  · exact (pending_askTimer_of_ne heq timeMS ticks).mpr h

theorem Pending.checkTimer (h : t.Pending id') (id : ι) : (t.checkTimer id).Pending id' := by
  unfold LTObject.checkTimer
  split
  · exact h
  · by_cases heq : id' = id
    · subst heq
      exact .inr (List.mem_append_right _ (List.mem_singleton_self _))
    · refine h.imp (fun hsome => ?_) fun hmem => List.mem_append_left _ hmem
      dsimp only
      rwa [Function.update_of_ne heq]

end LTObject

end Uniset
