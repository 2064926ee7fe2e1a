import Mathlib.Logic.Function.Basic
import Mathlib.Data.String.Basic

/-! A process of the launcher: what is configured of it, and what is known of it at run time. -/

namespace Uniset.Launcher

inductive ProcessState
  | Stopped
  | Starting
  | Running
  | Completed
  | Failed
  | Stopping
  | Restarting
  deriving DecidableEq

inductive BulkOperation
  | None
  | Restart
  | Reload
  | Stop
  deriving DecidableEq

/-- The identifier of a process of the system.  None is 0. -/
abbrev PID := Nat

/-- What is configured of a process.  Of a check it says whether there is one. -/
structure ProcessConf where
  readyCheck : Bool
  healthCheck : Bool
  healthFailThreshold : Int
  afterRun : Bool
  critical : Bool
  maxRestarts : Int
  restartDelay_msec : Nat
  maxRestartDelay_msec : Nat
  nodeFilter : List String
  skip : Bool
  manual : Bool
  oneshot : Bool

/-- `1 << k` of an `int`.  A shift by its width or more has no value. -/
def shiftedOne (k : Nat) : Option (BitVec 32) := if k < 32 then some (1#32 <<< k) else none

/-- A delay that grows with the attempts up to a most one.  The power is an `int` that becomes a
`size_t` in the product. -/
def delayBefore (restartDelay maxRestartDelay restartCount : Nat) : Option Nat :=
  if 1 < restartCount then
    (shiftedOne (restartCount - 1)).map fun power =>
      let delay := (BitVec.ofNat 64 restartDelay * power.signExtend 64).toNat
      if maxRestartDelay < delay then maxRestartDelay else delay
  else some restartDelay

namespace ProcessConf

/-- As `ProcessInfo` is by itself. -/
def default : ProcessConf :=
  ⟨false, false, 3, false, true, 0, 1000, 30000, [], false, false, false⟩

variable (conf : ProcessConf)

def shouldRunOnNode (nodeName : String) : Bool :=
  conf.nodeFilter = [] ∨ nodeName ∈ conf.nodeFilter

/-- The delay that `handleProcessExitByName` makes before the attempt that `restartCount` has counted
last. -/
def backoff (restartCount : Nat) : Option Nat :=
  delayBefore conf.restartDelay_msec conf.maxRestartDelay_msec restartCount

/-- The same in `startProcessWithUnlock`, from its copy of the settings. -/
def retryBackoff (restartCount : Nat) : Option Nat :=
  delayBefore conf.restartDelay_msec conf.maxRestartDelay_msec restartCount

/-- Whether a failed start may be tried again: -1 is never, 0 is always. -/
def allows (restartCount : Nat) : Bool := conf.maxRestarts = 0 ∨ restartCount < conf.maxRestarts

end ProcessConf

structure ProcessInfo where
  state : ProcessState
  pid : PID
  restartCount : Nat
  lastExitCode : Int
  /-- by the steady clock, in nanoseconds -/
  lastStartTime : Nat
  lastError : String
  healthFailCount : Int

namespace ProcessInfo

def new : ProcessInfo := ⟨.Stopped, 0, 0, -1, 0, "", 0⟩

variable (proc : ProcessInfo)

def reset : ProcessInfo := { new with lastStartTime := proc.lastStartTime }

/-- A state that some thread is to end. -/
def Transient : Prop :=
  proc.state = .Starting ∨ proc.state = .Restarting ∨ proc.state = .Stopping

instance : Decidable proc.Transient := inferInstanceAs (Decidable (_ ∨ _ ∨ _))

/-- A state in which there is nothing to stop. -/
def Ended : Prop := proc.state = .Stopped ∨ proc.state = .Completed

instance : Decidable proc.Ended := inferInstanceAs (Decidable (_ ∨ _))

/-- A state for the time of an operation.  That of a restart stays. -/
def enter (state : ProcessState) : ProcessInfo :=
  if proc.state = .Restarting then proc else { proc with state }

def fail (lastError : String) : ProcessInfo := { proc with state := .Failed, lastError }

@[simp] theorem reset_pid : proc.reset.pid = 0 := rfl

@[simp] theorem reset_state : proc.reset.state = .Stopped := rfl

@[simp] theorem enter_pid (state : ProcessState) : (proc.enter state).pid = proc.pid := by
  unfold enter
  split_ifs <;> rfl

@[simp] theorem enter_restartCount (state : ProcessState) :
    (proc.enter state).restartCount = proc.restartCount := by
  unfold enter
  split_ifs <;> rfl

@[simp] theorem fail_pid (lastError : String) : (proc.fail lastError).pid = proc.pid := rfl

@[simp] theorem fail_state (lastError : String) : (proc.fail lastError).state = .Failed := rfl

theorem not_ended_enter {state : ProcessState} (hstopped : state ≠ .Stopped)
    (hcompleted : state ≠ .Completed) : ¬(proc.enter state).Ended := by
  unfold enter Ended
  split_ifs with hrestarting
  · simp [hrestarting]
  · exact not_or.mpr ⟨hstopped, hcompleted⟩

end ProcessInfo

end Uniset.Launcher
