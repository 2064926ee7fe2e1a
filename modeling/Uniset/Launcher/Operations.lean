import Uniset.Launcher.ProcessManager
import Uniset.Lib.GuardedRun

/-! The operations of the launcher, as threads that interleave.  A step is a section under the
mutex, a part of one between two looks at a flag that does not need the mutex, or one look at such
a flag.  Any thread may ask for any operation at any time. -/

namespace Uniset.Launcher

open Uniset.Lib

/-- Where a thread is in `startProcessWithUnlock`.  With `launch` and `checkStopping` it has the
mutex. -/
inductive StartPc
  | launch
  | oneshotWait (pid : PID)
  | oneshotDone (exitCode : Int)
  | waitForReady
  | afterRun
  | checkStopping
  | backoff
  | cancelled
  | checkCancelled
  deriving DecidableEq

/-- It goes on, or returns with the mutex. -/
inductive Started
  | goesOn (pc : StartPc)
  | returns (ok : Bool)

namespace ProcessManager

variable (L : LauncherConf) (o : Outcome)

/-- The end of an attempt that was not ready, when there is no other. -/
def giveUp (s : ProcessManager) (name : String) : ProcessManager :=
  s.modify name (·.fail "Ready check timeout (exhausted retries)")

def startStep (name : String) (s : ProcessManager) :
    StartPc → Option (ProcessManager × Started)
  | .launch =>
    match s.launch o name with
    | none => none
    | some (s, none) => some (s, .returns false)
    | some (s, some pid) =>
      some (s.unlock, .goesOn (if (L.conf name).oneshot then .oneshotWait pid else .waitForReady))
  | .oneshotWait pid => some (s.reap pid, .goesOn (.oneshotDone (o.exitCode pid)))
  | .oneshotDone exitCode => do
    let s ← s.lock
    let s := s.modify name fun proc => { proc with lastExitCode := exitCode, pid := 0 }
    if exitCode = 0 then
      return (s.modify name fun proc => { proc with state := .Completed }, .returns true)
    else return (s.modify name (·.fail ("Exit code " ++ toString exitCode)), .returns false)
  | .waitForReady => do
    let s ← s.lock
    if (L.conf name).readyCheck = false ∨ o.ready then
      if (L.conf name).afterRun then return (s.unlock, .goesOn .afterRun)
      else return (s.modify name fun proc => { proc with state := .Running }, .returns true)
    else
      let s := if 0 < (s.processes name).pid then s.stopProcess o name else s
      if 0 ≤ (L.conf name).maxRestarts then return (s, .goesOn .checkStopping)
      else return (s.giveUp name, .returns false)
  | .afterRun => do
    let s ← s.lock
    return (s.modify name fun proc => { proc with state := .Running }, .returns true)
  | .checkStopping =>
    if s.stopping = false ∧ (L.conf name).allows (s.processes name).restartCount then
      let s := s.modify name fun proc =>
        { proc with restartCount := proc.restartCount + 1, state := .Restarting }
      some (s.unlock, .goesOn .backoff)
    else some (s.giveUp name, .returns false)
  | .backoff =>
    if s.stopping then some (s, .goesOn .cancelled)
    else some (s, .goesOn (if o.slept then .checkCancelled else .backoff))
  | .cancelled => do
    let s ← s.lock
    return (s.modify name (·.fail "Startup cancelled"), .returns false)
  | .checkCancelled => do
    let s ← s.lock
    if s.stopping then return (s.modify name (·.fail "Startup cancelled"), .returns false)
    else return (s, .goesOn .launch)

end ProcessManager

/-- What is to be done after `startProcessWithUnlock`. -/
inductive After
  | startAll (reload : Bool) (procs : List String) (groups : List (List String))
  | single
  | restartAll (starts : List String)
  | restartEach (names : List String)
  | exits (exits : List (String × Int)) (healths : List String)
  | healths (healths : List String)

/-- Where a thread is.  `reload` says that `reloadAll` has called the function. -/
inductive Pc
  | idle
  | starting (name : String) (pc : StartPc) (after : After)
  | startAll (reload : Bool)
  | startGroups (reload : Bool) (groups : List (List String))
  | startProcesses (reload : Bool) (procs : List String) (groups : List (List String))
  | stopAllSet
  | stopAllExchange
  | stopAllWait
  | stopAllExchangeAgain
  | stopAllDone
  | stopAllLoad
  | stopAllRestore (stopping : Bool)
  | stopAllLeave
  | stopCollect (reload : Bool)
  | stopTrees (reload : Bool) (toStop : List (String × PID))
  | stopUpdate (reload : Bool) (name : String) (toStop : List (String × PID))
  | reloadMark
  | reloadReset
  | reloadCheck
  | bulkDone
  | restartCollect
  | restartMark (toRestart : List String)
  | restartEach (names : List String)
  | restartStops (stops starts : List String)
  | restartGet (name : String) (stops starts : List String)
  | restartTree (name : String) (pid : PID) (stops starts : List String)
  | restartClear (name : String) (stops starts : List String)
  | restartStarts (starts : List String)
  | restartReset (name : String) (starts : List String)
  | monitorTop
  | monitorScan
  | monitorExits (exits : List (String × Int)) (healths : List String)
  | exitStore (stopping : Bool) (exits : List (String × Int)) (healths : List String)
  | exitDelay (name : String) (exits : List (String × Int)) (healths : List String)
  | exitCheck (name : String) (exits : List (String × Int)) (healths : List String)
  | monitorHealths (healths : List String)
  | monitorSleep
  | joinMonitor
  | requestStopping

inductive Call
  | startAll
  | stopAll
  | restartAll
  | reloadAll
  | requestStop
  | cancelStartup
  | restartProcess (name : String)
  | stopProcess (name : String)
  | startProcess (name : String)
  | startMonitoring
  | stopMonitoring
  | monitorLoop

namespace ProcessManager

variable (L : LauncherConf)

/-- The end of a bulk operation that has begun. -/
def endStartAll (reload : Bool) (s : ProcessManager) : ProcessManager × Pc :=
  (s.unlock, if reload then .bulkDone else .idle)

/-- After `startProcessWithUnlock`. -/
def resume (name : String) (ok : Bool) (s : ProcessManager) : After → ProcessManager × Pc
  | .startAll reload procs groups =>
    if ok = false ∧ (L.conf name).critical then s.endStartAll reload
    else (s, .startProcesses reload procs groups)
  | .single => (s.unlock, .idle)
  | .restartAll starts => (s.unlock, .restartStarts starts)
  | .restartEach names => (s.unlock, .restartEach names)
  | .exits exits healths => (s.unlock, .monitorExits exits healths)
  | .healths healths => (s.unlock, .monitorHealths healths)

/-- `stopProcess` and `reset`, before the process is started again. -/
def stopForRestart (o : Outcome) (s : ProcessManager) (name : String) : ProcessManager :=
  let s := s.modify name fun proc => { proc with state := .Restarting }
  (s.stopProcess o name).modify name ProcessInfo.reset

/-- The first step of an operation.  Of a name that is not known nothing is done. -/
def begin (o : Outcome) (s : ProcessManager) : Call → Option (ProcessManager × Pc)
  | .startAll => some (s, .startAll false)
  | .stopAll =>
    some ({ s with stopAllRunning := true }, if s.stopAllRunning then .idle else .stopAllSet)
  | .restartAll =>
    if s.currentBulkOp = .None then some ({ s with currentBulkOp := .Restart }, .restartCollect)
    else some (s, .idle)
  | .reloadAll =>
    if s.currentBulkOp = .None then some ({ s with currentBulkOp := .Reload }, .reloadMark)
    else some (s, .idle)
  | .requestStop => some ({ s with shutdownRequested := true }, .requestStopping)
  | .cancelStartup => some ({ s with stopping := true }, .idle)
  | .restartProcess name =>
    if name ∈ L.names then do
      let s ← s.lock
      return (s.stopForRestart o name, .starting name .launch .single)
    else some (s, .idle)
  | .stopProcess name =>
    if name ∈ L.names then do
      let s ← s.lock
      return ((s.stopProcess o name).unlock, .idle)
    else some (s, .idle)
  | .startProcess name =>
    if name ∈ L.names ∧ !(L.conf name).skip ∧ (L.conf name).shouldRunOnNode L.nodeName then do
      let s ← s.lock
      return (s.modify name ProcessInfo.reset, .starting name .launch .single)
    else some (s, .idle)
  | .startMonitoring =>
    if s.running then some (s, .idle)
    else some ({ s with running := true, monitorThread := .created }, .idle)
  | .stopMonitoring =>
    if s.running then some ({ s with running := false }, .joinMonitor) else some (s, .idle)
  | .monitorLoop =>
    if s.monitorThread = .created then some ({ s with monitorThread := .running }, .monitorTop)
    else none

/-- The section of `handleProcessExitByName` after it has seen that nothing stops. -/
def handleExit (s : ProcessManager) (name : String) (exits : List (String × Int))
    (healths : List String) : ProcessManager × Pc :=
  if (L.conf name).maxRestarts < 0 then (s, .exitStore (L.conf name).critical exits healths)
  else
    let counted := s.countedRestarts L name
    let s := s.modify name fun proc => { proc with restartCount := counted }
    if (L.conf name).allows counted then
      let s := s.modify name fun proc =>
        { proc with restartCount := counted + 1, state := .Restarting }
      -- a delay that has no value is taken for one that is slept
      (s.unlock, if (L.conf name).backoff (counted + 1) ≠ some 0 then .exitDelay name exits healths
        else .exitCheck name exits healths)
    else (s, .exitStore (L.conf name).critical exits healths)

/-- The next step of an operation. -/
def run (o : Outcome) (s : ProcessManager) : Pc → Option (ProcessManager × Pc)
  | .idle => none
  | .starting name pc after =>
    (s.startStep L o name pc).map fun
      | (s, .goesOn pc) => (s, .starting name pc after)
      | (s, .returns ok) => s.resume L name ok after
  | .startAll reload => do
    let s ← s.lock
    if s.stopping then return s.endStartAll reload
    else
      match L.groupOrder with
      | .error _ => return s.endStartAll reload
      | .ok order => return (s, .startGroups reload (L.processesOf order))
  | .startGroups reload groups =>
    match groups with
    | [] => some (s.endStartAll reload)
    | procs :: groups =>
      if s.stopping then some (s.endStartAll reload)
      else some (s, .startProcesses reload procs groups)
  | .startProcesses reload procs groups =>
    match procs with
    | [] => some (s, .startGroups reload groups)
    | name :: procs =>
      if s.stopping then some (s, .startGroups reload groups)
      else if name ∈ L.names ∧ !(L.conf name).skip ∧ !(L.conf name).manual ∧
          (L.conf name).shouldRunOnNode L.nodeName then
        some (s, .starting name .launch (.startAll reload procs groups))
      else some (s, .startProcesses reload procs groups)
  | .stopAllSet => some ({ s with stopping := true }, .stopAllExchange)
  | .stopAllExchange =>
    if s.currentBulkOp = .None then
      some ({ s with currentBulkOp := .Stop }, .stopCollect false)
    else some (s, .stopAllWait)
  | .stopAllWait =>
    some (s, if s.currentBulkOp = .None then .stopAllExchangeAgain else .stopAllWait)
  | .stopAllExchangeAgain =>
    if s.currentBulkOp = .None then
      some ({ s with currentBulkOp := .Stop }, .stopCollect false)
    else some (s, .stopAllLoad)
  | .stopAllDone => some ({ s with currentBulkOp := .None }, .stopAllLoad)
  | .stopAllLoad => some (s, .stopAllRestore s.shutdownRequested)
  | .stopAllRestore stopping => some ({ s with stopping }, .stopAllLeave)
  | .stopAllLeave => some ({ s with stopAllRunning := false }, .idle)
  | .stopCollect reload => do
    let s ← s.lock
    return ((s.markStopping L).unlock, .stopTrees reload (s.toStop L))
  | .stopTrees reload toStop =>
    match toStop with
    | [] => some (s, if reload then .reloadReset else .stopAllDone)
    | (name, pid) :: toStop => some (s.stopProcessTree o pid, .stopUpdate reload name toStop)
  | .stopUpdate reload name toStop => do
    let s ← s.lock
    let s := s.modify name fun proc => { proc.enter .Stopped with pid := 0 }
    return (s.unlock, .stopTrees reload toStop)
  | .reloadMark => do
    let s ← s.lock
    let restarting (proc : ProcessInfo) : ProcessInfo :=
      if proc.state = .Running ∨ proc.state = .Failed then { proc with state := .Restarting }
      else proc
    let processes name :=
      if name ∈ L.names then restarting (s.processes name) else s.processes name
    return ({ s with processes }.unlock, .stopCollect true)
  | .reloadReset => do
    let s ← s.lock
    let processes name :=
      if name ∈ L.names then (s.processes name).reset else s.processes name
    return ({ s with processes }.unlock, .reloadCheck)
  | .reloadCheck => some (s, if s.stopping then .bulkDone else .startAll true)
  | .bulkDone => some ({ s with currentBulkOp := .None }, .idle)
  | .restartCollect => do
    let s ← s.lock
    let toRestart := s.toRestart L
    return (s.unlock, if toRestart = [] then .bulkDone else .restartMark toRestart)
  | .restartMark toRestart => do
    let s ← s.lock
    let processes name :=
      if name ∈ toRestart then { s.processes name with state := .Restarting }
      else s.processes name
    let s := { s with processes }.unlock
    match L.groupOrder with
    | .error _ => return (s, .restartEach toRestart)
    | .ok order =>
      return (s, .restartStops ((L.processesOf order.reverse).flatten.filter (· ∈ toRestart))
        ((L.processesOf order).flatten.filter (· ∈ toRestart)))
  | .restartEach names =>
    match names with
    | [] => some (s, .bulkDone)
    | name :: names => do
      let s ← s.lock
      return (s.stopForRestart o name, .starting name .launch (.restartEach names))
  | .restartStops stops starts =>
    match stops with
    | [] => some (s, .restartStarts starts)
    | name :: stops =>
      some (s, if s.stopping then .restartStarts starts else .restartGet name stops starts)
  | .restartGet name stops starts => do
    let s ← s.lock
    let proc := s.processes name
    return (s.unlock,
      if proc.state = .Stopped ∨ proc.state = .Completed then .restartStops stops starts
      else .restartTree name proc.pid stops starts)
  | .restartTree name pid stops starts =>
    some (if 0 < pid then s.stopProcessTree o pid else s, .restartClear name stops starts)
  | .restartClear name stops starts => do
    let s ← s.lock
    return ((s.modify name fun proc => { proc with pid := 0 }).unlock, .restartStops stops starts)
  | .restartStarts starts =>
    match starts with
    | [] => some (s, .bulkDone)
    | name :: starts => some (s, if s.stopping then .bulkDone else .restartReset name starts)
  | .restartReset name starts => do
    let s ← s.lock
    return (s.modify name ProcessInfo.reset, .starting name .launch (.restartAll starts))
  | .monitorTop =>
    if s.running then some (s, .monitorScan)
    else some ({ s with monitorThread := .none }, .idle)
  | .monitorScan => do
    let s ← s.lock
    let (s, exits, healths) := scan L o L.names s
    return (s.unlock, .monitorExits exits healths)
  | .monitorExits exits healths =>
    match exits with
    | [] => some (s, .monitorHealths healths)
    | (name, exitCode) :: exits => do
      let s ← s.lock
      let s := s.exited name exitCode
      if s.stopping then return (s.unlock, .monitorExits exits healths)
      else return s.handleExit L name exits healths
  | .exitStore stopping exits healths =>
    some ({ s with stopping }.unlock, .monitorExits exits healths)
  | .exitDelay name exits healths =>
    if s.stopping then some (s, .monitorExits exits healths)
    else some (s, if o.slept then .exitCheck name exits healths else .exitDelay name exits healths)
  | .exitCheck name exits healths => do
    let s ← s.lock
    if s.stopping then return (s.unlock, .monitorExits exits healths)
    else return (s, .starting name .launch (.exits exits healths))
  | .monitorHealths healths =>
    match healths with
    | [] => some (s, .monitorSleep)
    | name :: healths => do
      let s ← s.lock
      let s := (s.stopProcess o name).modify name fun proc => { proc with state := .Restarting }
      return (s, .starting name .launch (.healths healths))
  | .monitorSleep =>
    if s.stopping then some ({ s with monitorThread := .none }, .idle)
    else some (s, if o.slept then .monitorTop else .monitorSleep)
  | .joinMonitor => if s.monitorThread = .none then some (s, .idle) else none
  | .requestStopping => some ({ s with stopping := true }, .idle)

end ProcessManager

/-- A thread asks for an operation or takes a step in one, a child ends, or time passes. -/
inductive Move
  | call (c : Call) (o : Outcome)
  | run (o : Outcome)
  | exit (pid : PID)
  | tick (nsec : Nat)

def act (L : LauncherConf) : Move → ProcessManager → Pc → Option (ProcessManager × Pc)
  | .call c o, s, .idle => s.begin L o c
  | .call _ _, _, _ => none
  | .run o, s, pc => s.run L o pc
  | .exit pid, s, pc => some (s.exit pid, pc)
  | .tick nsec, s, pc => some ({ s with clock := s.clock + nsec }, pc)

variable (τ : Type) [DecidableEq τ]

/-- The threads of the launcher.  `τ` names them. -/
abbrev LauncherThreads := Threads τ ProcessManager Pc

def LauncherThreads.new : LauncherThreads τ := ⟨.new, fun _ => .idle⟩

/-- A launcher of one daemon, without groups. -/
def LauncherConf.ofDaemon (conf : ProcessConf) : LauncherConf :=
  ⟨["daemon"], fun _ => conf, fun _ => none, .new, "node", 60000⟩

/-- Everything succeeds; a process launched gets the identifier. -/
def Outcome.success (pid : PID) : Outcome :=
  ⟨some pid, "", true, true, true, fun _ => 0, 0, fun _ => true⟩

end Uniset.Launcher
