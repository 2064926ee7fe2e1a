import Uniset.Launcher.DependencyOrder
import Uniset.Launcher.ProcessInfo

/-! What the threads of the launcher share, and the sections of its operations that are run under
the mutex.  What the system answers to a section is given to it. -/

namespace Uniset.Launcher

/-- The configuration.  `names` are the keys of the process table in their order. -/
structure LauncherConf where
  names : List String
  conf : String → ProcessConf
  groups : String → Option (List String)
  depResolver : DependencyResolver
  nodeName : String
  restartWindow_msec : Nat

namespace LauncherConf

variable (L : LauncherConf)

def groupOrder : Except DependencyException (List String) :=
  (L.depResolver.resolve L.depResolver.groups.length).getD (.ok [])

/-- The processes of the groups, those of one group together. -/
def processesOf (order : List String) : List (List String) :=
  order.map fun groupName => (L.groups groupName).getD []

/-- The processes that `doStopAll` goes over.  Without an order these are all. -/
def stopOrder : List String :=
  match L.groupOrder with
  | .error _ => L.names
  | .ok order => (L.processesOf order.reverse).flatten.filter (· ∈ L.names)

end LauncherConf

/-- A process that has been launched and whose end has not been waited for. -/
structure Child where
  name : String
  alive : Bool
  deriving DecidableEq

inductive MonitorThread
  | none
  | created
  | running
  deriving DecidableEq

/-- What is read and written without the mutex. -/
structure Flags where
  monitorThread : MonitorThread
  running : Bool
  stopping : Bool
  stopAllRunning : Bool
  shutdownRequested : Bool
  currentBulkOp : BulkOperation

structure ProcessManager extends Flags where
  processes : String → ProcessInfo
  children : PID → Option Child
  /-- the steady clock, in nanoseconds -/
  clock : Nat
  mutex : Bool

/-- The answers of the system to one step of a thread. -/
structure Outcome where
  /-- the process launched, if it could be -/
  pid : Option PID
  what : String
  /-- whether a process tree is gone after `SIGKILL` -/
  killed : Bool
  /-- whether a check for readiness succeeds -/
  ready : Bool
  /-- whether a sleep has come to its end -/
  slept : Bool
  exitCode : PID → Int
  /-- the child that a wait for any of them finds -/
  anyChild : PID
  healthy : String → Bool

namespace ProcessManager

def new : ProcessManager :=
  ⟨⟨.none, false, false, false, false, .None⟩, fun _ => .new, fun _ => none, 0, false⟩

variable (L : LauncherConf) (s : ProcessManager) (o : Outcome)

def lock : Option ProcessManager := if s.mutex then none else some { s with mutex := true }

def unlock : ProcessManager := { s with mutex := false }

def modify (name : String) (f : ProcessInfo → ProcessInfo) : ProcessManager :=
  { s with processes := Function.update s.processes name (f (s.processes name)) }

/-- The child is gone for the system. -/
def reap (pid : PID) : ProcessManager :=
  { s with children := Function.update s.children pid none }

/-- The child ends and waits to be reaped. -/
def exit (pid : PID) : ProcessManager :=
  { s with
    children := Function.update s.children pid ((s.children pid).map fun c => { c with alive := false }) }

/-- A child that has ended is reaped in any case. -/
def stopProcessTree (pid : PID) : ProcessManager :=
  if o.killed ∨ (s.children pid).all (!·.alive) then s.reap pid else s

/-- `stopProcess` of one record. -/
def stopProcess (name : String) : ProcessManager :=
  let proc := s.processes name
  if proc.state = .Stopped ∨ proc.state = .Completed then s
  else
    let s := if 0 < proc.pid then s.stopProcessTree o proc.pid else s
    s.modify name fun proc => { proc.enter .Stopped with pid := 0 }

/-- The launch of a process.  `none` is not possible: the system gives no identifier twice. -/
def launch (name : String) : Option (ProcessManager × Option PID) :=
  let s := s.modify name fun proc => { proc.enter .Starting with lastStartTime := s.clock }
  match o.pid with
  | none => some (s.modify name (·.fail o.what), none)
  | some pid =>
    if 0 < pid ∧ s.children pid = none then
      let s := s.modify name fun proc => { proc with pid }
      some ({ s with children := Function.update s.children pid (some ⟨name, true⟩) }, some pid)
    else none

/-- `waitpid` for a process without waiting: the child that it reaps, if any.  For 0 it is any
child. -/
def waitpid (pid : PID) : Option PID :=
  let reaped := if pid = 0 then o.anyChild else pid
  if (s.children reaped).any (!·.alive) then some reaped else none

/-- The exit that the monitor finds, with its code.  A wait for 0 while no child has ended gives 0,
as if the process with that identifier had ended with code 0. -/
def findExit (name : String) : ProcessManager × Option Int :=
  let proc := s.processes name
  match s.waitpid o proc.pid with
  | some reaped =>
    let s := s.reap reaped
    if reaped = proc.pid then
      (s.modify name fun proc => { proc with lastExitCode := o.exitCode reaped },
        some (o.exitCode reaped))
    else (s, some proc.lastExitCode)
  | none =>
    if proc.pid = 0 ∧ s.children o.anyChild ≠ none then
      (s.modify name fun proc => { proc with lastExitCode := 0 }, some 0)
    else if s.children proc.pid = none then (s, some proc.lastExitCode)
    else (s, none)

/-- Whether the process is to be restarted after a check of its health. -/
def checkHealth (name : String) : ProcessManager × Bool :=
  if (L.conf name).healthCheck ∧ 0 < (L.conf name).healthFailThreshold then
    if o.healthy name then (s.modify name fun proc => { proc with healthFailCount := 0 }, false)
    else
      let failed := (s.processes name).healthFailCount + 1
      if (L.conf name).healthFailThreshold ≤ failed then
        (s.modify name fun proc =>
          { proc with healthFailCount := 0, lastError := "health check failed" }, true)
      else (s.modify name fun proc => { proc with healthFailCount := failed }, false)
  else (s, false)

/-- The loop of the monitor over the table: the exits with their codes, and the processes to be
restarted. -/
def scan : List String → ProcessManager → ProcessManager × List (String × Int) × List String
  | [], s => (s, [], [])
  | name :: names, s =>
    if (L.conf name).oneshot ∨ (s.processes name).state ≠ .Running then scan names s
    else
      match s.findExit o name with
      | (s, some exitCode) =>
        let (s, exits, healths) := scan names s
        (s, (name, exitCode) :: exits, healths)
      | (s, none) =>
        let (s, unhealthy) := s.checkHealth L o name
        let (s, exits, healths) := scan names s
        (s, exits, if unhealthy then name :: healths else healths)

/-- What `handleProcessExitByName` finds before it asks for `stopping`. -/
def exited (name : String) (exitCode : Int) : ProcessManager :=
  s.modify name fun proc => { proc with state := .Failed, lastExitCode := exitCode }

/-- The restarts that count.  They are forgotten after the window. -/
def countedRestarts (name : String) : Nat :=
  if L.restartWindow_msec < (s.clock - (s.processes name).lastStartTime) / 1000000 then 0
  else (s.processes name).restartCount

def markStopping : ProcessManager :=
  { s with
    processes := fun name =>
      if name ∈ L.stopOrder ∧ 0 < (s.processes name).pid then (s.processes name).enter .Stopping
      else s.processes name }

def toStop : List (String × PID) :=
  L.stopOrder.filterMap fun name =>
    if 0 < (s.processes name).pid then some (name, (s.processes name).pid) else none

/-- The processes that `restartAll` restarts: those that run or should, else all that may be
started. -/
def toRestart : List String :=
  let ours := L.names.filter fun name =>
    !(L.conf name).skip && (L.conf name).shouldRunOnNode L.nodeName
  let running := ours.filter fun name =>
    let state := (s.processes name).state
    !((L.conf name).manual && state = .Stopped) &&
      (state = .Running || state = .Failed || state = .Restarting)
  if running = [] then ours.filter fun name => !(L.conf name).manual && !(L.conf name).oneshot
  else running

end ProcessManager

end Uniset.Launcher
