import Uniset.Launcher.OperationsLaws
import Uniset.Lib.Window

/-! The automatic starts of one process: a history that is written beside the run of the threads,
and what a step can do to the counter of the record. -/

namespace Uniset.Launcher

open Uniset.Lib

/-- When a process was started again without anyone asking: since its counter was last forgotten,
and before. -/
structure RestartHistory where
  recent : List Nat
  past : List Nat

namespace RestartHistory

def new : RestartHistory := ⟨[], []⟩

variable (h : RestartHistory)

def relaunches : List Nat := h.recent ++ h.past

def relaunch (time : Nat) : RestartHistory := { h with recent := time :: h.recent }

def forget : RestartHistory := ⟨[], h.relaunches⟩

end RestartHistory

/-- The start has been decided on by the monitor. -/
def After.automatic : After → Bool
  | .exits _ _ | .healths _ => true
  | _ => false

/-- Where a thread is, and whether its last step was the end of the delay before a new attempt. -/
structure Place where
  pc : Pc
  retry : Bool

/-- The start that is about to be done is one more for the same reason. -/
def Place.relaunches (retry : Bool) (after : After) : Bool := retry || after.automatic

def Move.retries : Move → Place → Bool
  | .call _ _, _ => false
  | .run _, ⟨.starting _ .checkCancelled _, _⟩ => true
  | .run _, _ => false
  | .exit _, p | .tick _, p => p.retry

/-- The process has run for longer than the window. -/
def ProcessManager.forgets (L : LauncherConf) (s : ProcessManager) (name : String) : Prop :=
  s.stopping = false ∧ 0 ≤ (L.conf name).maxRestarts ∧
    L.restartWindow_msec < (s.clock - (s.processes name).lastStartTime) / 1000000

instance (L : LauncherConf) (s : ProcessManager) (name : String) : Decidable (s.forgets L name) :=
  inferInstanceAs (Decidable (_ ∧ _ ∧ _))

/-- What the step of a thread adds to the history of one process. -/
def RestartHistory.observe (L : LauncherConf) (name : String) (h : RestartHistory)
    (s : ProcessManager) : Move → Place → RestartHistory
  | .run _, ⟨.starting n .launch after, retry⟩ =>
    if n = name ∧ Place.relaunches retry after then h.relaunch s.clock else h
  | .run _, ⟨.monitorExits ((n, _) :: _) _, _⟩ =>
    if n = name ∧ s.forgets L name then h.forget else h
  | _, _ => h

def actObserved (L : LauncherConf) (name : String) (m : Move) (s : ProcessManager × RestartHistory)
    (p : Place) : Option ((ProcessManager × RestartHistory) × Place) :=
  (act L m s.1 p.pc).map fun r => ((r.1, s.2.observe L name s.1 m p), ⟨r.2, m.retries p⟩)

variable (τ : Type) [DecidableEq τ]

abbrev ObservedThreads := Threads τ (ProcessManager × RestartHistory) Place

def ObservedThreads.new : ObservedThreads τ := ⟨(.new, .new), fun _ => ⟨.idle, false⟩⟩

/-- An operator asks for a process to be started. -/
def Call.Operator : Call → Prop
  | .restartAll | .reloadAll | .restartProcess _ | .startProcess _ => True
  | _ => False

/-- The operations in which processes are started without an operator. -/
def Call.Starts : Call → Prop
  | .startAll | .monitorLoop => True
  | _ => False

/-- A thread has been asked by an operator to start a process. -/
def Pc.Operator : Pc → Prop
  | .starting _ _ .single | .starting _ _ (.restartAll _) | .starting _ _ (.restartEach _)
    | .starting _ _ (.startAll true _ _) | .startAll true | .startGroups true _
    | .startProcesses true _ _ | .stopCollect true | .stopTrees true _ | .stopUpdate true _ _
    | .reloadMark | .reloadReset | .reloadCheck | .bulkDone | .restartCollect | .restartMark _
    | .restartEach _ | .restartStops _ _ | .restartGet _ _ _ | .restartTree _ _ _ _
    | .restartClear _ _ _ | .restartStarts _ | .restartReset _ _ => True
  | _ => False

/-- A thread starts processes without an operator. -/
def Pc.Starts : Pc → Prop
  | .starting _ _ _ | .startAll _ | .startGroups _ _ | .startProcesses _ _ _ | .monitorTop
    | .monitorScan | .monitorExits _ _ | .exitStore _ _ _ | .exitDelay _ _ _ | .exitCheck _ _ _
    | .monitorHealths _ | .monitorSleep => True
  | _ => False

/-- No operator asks for a start, and `startAll` and the loop of the monitor follow each other. -/
def Unattended (t : ObservedThreads τ) (i : τ × Move) : Prop :=
  match i.2 with
  | .call c _ =>
    ¬c.Operator ∧ (c.Starts → ∀ other, other ≠ i.1 → ¬(t.locals other).pc.Starts)
  | _ => True

/-- The process is started again after checks of its health have failed. -/
def RestartsUnhealthy (name : String) : Move → Pc → Prop
  | .run _, .monitorHealths (n :: _) => n = name
  | _, _ => False

/-- The restarts of the process that have been counted and not yet done. -/
def Place.owed (name : String) : Place → Nat
  | ⟨.starting n .launch after, retry⟩ => if n = name ∧ relaunches retry after then 1 else 0
  | ⟨.starting n .backoff _, _⟩ | ⟨.starting n .checkCancelled _, _⟩ | ⟨.exitDelay n _ _, _⟩
    | ⟨.exitCheck n _ _, _⟩ => if n = name then 1 else 0
  | _ => 0

/-- What the automatic restarts go by is as it was. -/
structure ProcessManager.SameRestarts (name : String) (s s' : ProcessManager) : Prop where
  restartCount : (s'.processes name).restartCount = (s.processes name).restartCount
  lastStartTime : (s'.processes name).lastStartTime = (s.processes name).lastStartTime
  clock : s'.clock = s.clock

/-- A launcher of one daemon, in a group. -/
def LauncherConf.ofGroup (conf : ProcessConf) : LauncherConf :=
  ⟨["daemon"], fun _ => conf, fun groupName => if groupName = "group" then some ["daemon"] else none,
    DependencyResolver.new.addGroup "group" SortedMap.empty, "node", 60000⟩

end Uniset.Launcher
