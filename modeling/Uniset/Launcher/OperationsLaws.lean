import Uniset.Launcher.Operations

/-! What the steps of the launcher do to its children and to the identifiers in the records. -/

namespace Uniset.Launcher

open Uniset.Lib

namespace ProcessManager

variable {L : LauncherConf} {o : Outcome} {s s' : ProcessManager} {name : String}

theorem lock_eq_some : s.lock = some s' ↔ s.mutex = false ∧ s' = { s with mutex := true } := by
  unfold lock
  split_ifs with h
  · simp [h]
  · simp [h, eq_comm]

@[simp] theorem modify_processes_self (f : ProcessInfo → ProcessInfo) :
    (s.modify name f).processes name = f (s.processes name) := Function.update_self ..

@[simp] theorem modify_processes_of_ne {f : ProcessInfo → ProcessInfo} {n : String}
    (h : n ≠ name) : (s.modify name f).processes n = s.processes n := Function.update_of_ne h ..

@[simp] theorem modify_children (f : ProcessInfo → ProcessInfo) :
    (s.modify name f).children = s.children := rfl

@[simp] theorem modify_flags (f : ProcessInfo → ProcessInfo) :
    (s.modify name f).toFlags = s.toFlags := rfl

@[simp] theorem unlock_processes : s.unlock.processes = s.processes := rfl

@[simp] theorem unlock_children : s.unlock.children = s.children := rfl

@[simp] theorem unlock_flags : s.unlock.toFlags = s.toFlags := rfl

@[simp] theorem reap_processes (pid : PID) : (s.reap pid).processes = s.processes := rfl

@[simp] theorem reap_children_self (pid : PID) : (s.reap pid).children pid = none :=
  Function.update_self ..

@[simp] theorem reap_children_of_ne {pid p : PID} (h : p ≠ pid) :
    (s.reap pid).children p = s.children p := Function.update_of_ne h ..

theorem exit_children_self (pid : PID) :
    (s.exit pid).children pid = (s.children pid).map fun c => { c with alive := false } :=
  Function.update_self ..

theorem exit_children_of_ne {pid p : PID} (h : p ≠ pid) :
    (s.exit pid).children p = s.children p := Function.update_of_ne h ..

/-- No child is new, and no flag is set. -/
structure StartsNothing (s s' : ProcessManager) : Prop where
  flags : s'.toFlags = s.toFlags
  children : ∀ p c', s'.children p = some c' → ∃ c, s.children p = some c ∧ c'.name = c.name

/-- And every record has the identifier that it had, and none is at an end that was not. -/
structure Keeps (s s' : ProcessManager) : Prop extends StartsNothing s s' where
  pid : ∀ name, (s'.processes name).pid = (s.processes name).pid
  ended : ∀ name, (s'.processes name).Ended → (s.processes name).Ended

theorem StartsNothing.of_eq (hflags : s'.toFlags = s.toFlags)
    (hchildren : s'.children = s.children) : StartsNothing s s' :=
  ⟨hflags, fun p c' h => ⟨c', by rw [← hchildren, h], rfl⟩⟩

theorem Keeps.of_records (h : ∀ name, (s'.processes name).pid = (s.processes name).pid ∧
      ((s'.processes name).Ended → (s.processes name).Ended))
    (hflags : s'.toFlags = s.toFlags) (hchildren : s'.children = s.children) : Keeps s s' :=
  ⟨.of_eq hflags hchildren, fun name => (h name).1, fun name => (h name).2⟩

theorem Keeps.of_eq (hprocesses : s'.processes = s.processes) (hflags : s'.toFlags = s.toFlags)
    (hchildren : s'.children = s.children) : Keeps s s' :=
  .of_records (fun name => by rw [hprocesses]; exact ⟨rfl, id⟩) hflags hchildren

theorem Keeps.refl (s : ProcessManager) : Keeps s s := .of_eq rfl rfl rfl

theorem StartsNothing.trans {s₁ s₂ s₃ : ProcessManager} (h : StartsNothing s₁ s₂)
    (h' : StartsNothing s₂ s₃) : StartsNothing s₁ s₃ where
  flags := h'.flags.trans h.flags
  children p c₃ hc₃ := by
    obtain ⟨c₂, hc₂, hname₂⟩ := h'.children p c₃ hc₃
    obtain ⟨c₁, hc₁, hname₁⟩ := h.children p c₂ hc₂
    exact ⟨c₁, hc₁, hname₂.trans hname₁⟩

theorem Keeps.trans {s₁ s₂ s₃ : ProcessManager} (h : Keeps s₁ s₂) (h' : Keeps s₂ s₃) :
    Keeps s₁ s₃ :=
  ⟨h.toStartsNothing.trans h'.toStartsNothing, fun name => (h'.pid name).trans (h.pid name),
    fun name => h.ended name ∘ h'.ended name⟩

theorem keeps_lock (h : s.lock = some s') : Keeps s s' := by
  obtain ⟨-, rfl⟩ := lock_eq_some.mp h
  exact .of_eq rfl rfl rfl

theorem keeps_unlock (s : ProcessManager) : Keeps s s.unlock := .of_eq rfl rfl rfl

theorem keeps_modify (s : ProcessManager) (name : String) {f : ProcessInfo → ProcessInfo}
    (h : ∀ proc, (f proc).pid = proc.pid ∧ ((f proc).Ended → proc.Ended)) :
    Keeps s (s.modify name f) := by
  refine .of_records (fun n => ?_) rfl rfl
  by_cases hn : n = name
  · rw [hn, modify_processes_self]
    exact h _
  · rw [modify_processes_of_ne hn]
    exact ⟨rfl, id⟩

theorem keeps_reap (s : ProcessManager) (pid : PID) : Keeps s (s.reap pid) where
  pid _ := rfl
  ended _ := id
  flags := rfl
  children p c' h := by
    by_cases hp : p = pid
    · rw [hp, reap_children_self] at h
      cases h
    · rw [reap_children_of_ne hp] at h
      exact ⟨c', h, rfl⟩

theorem keeps_exit (s : ProcessManager) (pid : PID) : Keeps s (s.exit pid) where
  pid _ := rfl
  ended _ := id
  flags := rfl
  children p c' h := by
    by_cases hp : p = pid
    · rw [hp, exit_children_self, Option.map_eq_some_iff] at h
      obtain ⟨c, hc, rfl⟩ := h
      exact ⟨c, hp ▸ hc, rfl⟩
    · rw [exit_children_of_ne hp] at h
      exact ⟨c', h, rfl⟩

theorem keeps_stopProcessTree (s : ProcessManager) (pid : PID) :
    Keeps s (s.stopProcessTree o pid) := by
  unfold stopProcessTree
  split_ifs
  · exact keeps_reap s pid
  · exact .refl s

theorem keeps_findExit (s : ProcessManager) (name : String) : Keeps s (s.findExit o name).1 := by
  unfold findExit
  simp only
  cases s.waitpid o (s.processes name).pid with
  | some reaped =>
    have hreaped : Keeps s (s.reap reaped) := keeps_reap s reaped
    simp only
    split_ifs
    · apply hreaped.trans
      dsimp only
      apply keeps_modify
      intro proc
      simp [ProcessInfo.Ended]
    · exact hreaped
  | none =>
    simp only
    split_ifs
    · dsimp only
      apply keeps_modify
      intro proc
      simp [ProcessInfo.Ended]
    · exact .refl s
    · exact .refl s

theorem keeps_checkHealth (s : ProcessManager) (name : String) :
    Keeps s (s.checkHealth L o name).1 := by
  unfold checkHealth
  simp only
  split_ifs
  · dsimp only
    apply keeps_modify
    intro proc
    simp [ProcessInfo.Ended]
  · dsimp only
    apply keeps_modify
    intro proc
    simp [ProcessInfo.Ended]
  · dsimp only
    apply keeps_modify
    intro proc
    simp [ProcessInfo.Ended]
  · exact .refl s

theorem keeps_scan (names : List String) (s : ProcessManager) : Keeps s (scan L o names s).1 := by
  induction names generalizing s with
  | nil => exact .refl s
  | cons name names ih =>
    unfold scan
    split_ifs
    · exact ih s
    · have hexit := @keeps_findExit o s name
      cases hfound : s.findExit o name with
      | mk s₁ exit =>
        rw [hfound] at hexit
        cases exit with
        | some exitCode => exact hexit.trans (ih s₁)
        | none => exact (hexit.trans (keeps_checkHealth s₁ name)).trans (ih _)

theorem Keeps.of_lock {α : Type} {g : ProcessManager → Option (ProcessManager × α)} {a : α}
    (h : s.lock.bind g = some (s', a)) (hg : ∀ s, g s = some (s', a) → Keeps s s') :
    Keeps s s' := by
  obtain ⟨s₁, hlock, hr⟩ := Option.bind_eq_some_iff.mp h
  exact (keeps_lock hlock).trans (hg s₁ hr)

theorem mem_toStop {pid : PID} :
    (name, pid) ∈ s.toStop L ↔ name ∈ L.stopOrder ∧ 0 < pid ∧ (s.processes name).pid = pid := by
  simp only [toStop, List.mem_filterMap, Option.ite_none_right_eq_some, Option.some.injEq,
    Prod.mk.injEq]
  constructor
  · rintro ⟨n, hn, hpos, rfl, rfl⟩
    exact ⟨hn, hpos, rfl⟩
  · rintro ⟨hn, hpos, rfl⟩
    exact ⟨name, hn, hpos, rfl, rfl⟩

theorem keeps_giveUp (s : ProcessManager) (name : String) : Keeps s (s.giveUp name) := by
  apply keeps_modify
  intro proc
  simp [ProcessInfo.Ended]

/-- What of `startProcessWithUnlock` launches, clears or stops nothing. -/
theorem keeps_startStep {pc : StartPc} {started : Started}
    (h : s.startStep L o name pc = some (s', started)) (hlaunch : pc ≠ .launch)
    (hdone : ∀ exitCode, pc ≠ .oneshotDone exitCode) (hwait : pc ≠ .waitForReady) :
    Keeps s s' := by
  cases pc with
  | launch => exact absurd rfl hlaunch
  | oneshotDone exitCode => exact absurd rfl (hdone exitCode)
  | waitForReady => exact absurd rfl hwait
  | oneshotWait pid =>
    cases h
    exact keeps_reap s pid
  | afterRun =>
    apply Keeps.of_lock h
    intro s hr
    cases hr
    apply keeps_modify
    intro proc
    simp [ProcessInfo.Ended]
  | checkStopping =>
    simp only [startStep] at h
    split_ifs at h
    · cases h
      refine Keeps.trans ?_ (keeps_unlock _)
      apply keeps_modify
      intro proc
      simp [ProcessInfo.Ended]
    · cases h
      exact keeps_giveUp s name
  | backoff =>
    simp only [startStep] at h
    split_ifs at h <;> (cases h; exact .refl s)
  | cancelled =>
    apply Keeps.of_lock h
    intro s hr
    cases hr
    apply keeps_modify
    intro proc
    simp [ProcessInfo.Ended]
  | checkCancelled =>
    apply Keeps.of_lock h
    intro s hr
    split_ifs at hr
    · cases hr
      apply keeps_modify
      intro proc
      simp [ProcessInfo.Ended]
    · cases hr
      exact .refl _

theorem keeps_resume {ok : Bool} {after : After} {pc' : Pc}
    (h : s.resume L name ok after = (s', pc')) : Keeps s s' := by
  cases after with
  | startAll reload procs groups =>
    simp only [resume] at h
    split_ifs at h
    · cases h
      exact keeps_unlock s
    · cases h
      exact .refl s
  | single | restartAll _ | restartEach _ | exits _ _ | healths _ =>
    cases h
    exact keeps_unlock s

theorem keeps_handleExit {exits : List (String × Int)} {healths : List String} {pc' : Pc}
    (h : s.handleExit L name exits healths = (s', pc')) : Keeps s s' := by
  simp only [handleExit] at h
  split_ifs at h
  · cases h
    exact .refl s
  · cases h
    refine Keeps.trans ?_ (keeps_unlock _)
    refine Keeps.trans (keeps_modify s name ?_) (keeps_modify _ name ?_) <;>
      (intro proc; simp [ProcessInfo.Ended])
  · cases h
    refine Keeps.trans ?_ (keeps_unlock _)
    refine Keeps.trans (keeps_modify s name ?_) (keeps_modify _ name ?_) <;>
      (intro proc; simp [ProcessInfo.Ended])
  · cases h
    apply keeps_modify
    intro proc
    simp [ProcessInfo.Ended]

end ProcessManager

/-- The names whose process a step launches. -/
def Pc.launches : Pc → List String
  | .starting name .launch _ => [name]
  | _ => []

/-- The names whose identifier a step forgets without stopping the process with it. -/
def Pc.clears (L : LauncherConf) : Pc → List String
  | .starting name (.oneshotDone _) _ => [name]
  | .stopUpdate _ name _ => [name]
  | .restartClear name _ _ => [name]
  | .restartReset name _ => [name]
  | .reloadReset => L.names
  | _ => []

/-- The names whose process a step stops. -/
def Pc.stops : Pc → List String
  | .starting name .waitForReady _ => [name]
  | .monitorHealths (name :: _) => [name]
  | .restartEach (name :: _) => [name]
  | _ => []

/-- A step that may set a flag. -/
def Pc.Sets : Pc → Prop
  | .stopAllSet | .stopAllExchange | .stopAllExchangeAgain | .stopAllDone | .stopAllRestore _
  | .stopAllLeave | .bulkDone | .monitorTop | .exitStore _ _ _ | .monitorSleep
  | .requestStopping => True
  | _ => False

def Call.clears : Call → List String
  | .startProcess name => [name]
  | _ => []

def Call.stops : Call → List String
  | .stopProcess name => [name]
  | .restartProcess name => [name]
  | _ => []

def Call.Sets : Call → Prop
  | .stopAll | .restartAll | .reloadAll | .requestStop | .cancelStartup | .startMonitoring
  | .stopMonitoring | .monitorLoop => True
  | _ => False

namespace ProcessManager

variable {L : LauncherConf} {o : Outcome} {s s' : ProcessManager}

/-- Of the records and the children nothing is changed. -/
structure SameTable (s s' : ProcessManager) : Prop where
  processes : s'.processes = s.processes
  children : s'.children = s.children

theorem sameTable_begin {c : Call} {pc' : Pc} (h : s.begin L o c = some (s', pc')) (hsets : c.Sets) :
    SameTable s s' := by
  cases c with
  | startAll | restartProcess _ | stopProcess _ | startProcess _ => cases hsets
  | cancelStartup | requestStop | stopAll =>
    cases h
    exact ⟨rfl, rfl⟩
  | restartAll | reloadAll | startMonitoring | stopMonitoring | monitorLoop =>
    simp only [begin] at h
    split_ifs at h <;> (cases h; exact ⟨rfl, rfl⟩)

theorem sameTable_run {pc pc' : Pc} (h : s.run L o pc = some (s', pc')) (hsets : pc.Sets) :
    SameTable s s' := by
  cases pc with
  | stopAllSet | stopAllDone | stopAllRestore _ | stopAllLeave | bulkDone | requestStopping
    | exitStore _ _ _ =>
    cases h
    exact ⟨rfl, rfl⟩
  | stopAllExchange | stopAllExchangeAgain | monitorTop | monitorSleep =>
    simp only [run] at h
    split_ifs at h <;> (cases h; exact ⟨rfl, rfl⟩)
  | _ => cases hsets

/-- A step that launches, clears and stops nothing, and sets no flag. -/
theorem keeps_run {pc pc' : Pc} (h : s.run L o pc = some (s', pc')) (hlaunches : pc.launches = [])
    (hclears : pc.clears L = []) (hstops : pc.stops = []) (hsets : ¬pc.Sets) : Keeps s s' := by
  cases pc with
  | idle => cases h
  | starting name pc after =>
    obtain ⟨⟨s₁, started⟩, hstart, hr⟩ := Option.map_eq_some_iff.mp h
    have hs₁ : Keeps s s₁ := by
      apply keeps_startStep hstart
      · rintro rfl
        cases hlaunches
      · rintro exitCode rfl
        cases hclears
      · rintro rfl
        cases hstops
    cases started with
    | goesOn pc =>
      cases hr
      exact hs₁
    | returns ok => exact hs₁.trans (keeps_resume hr)
  | startAll reload =>
    apply Keeps.of_lock h
    intro s hr
    split_ifs at hr
    · cases hr
      exact keeps_unlock s
    · cases hgroups : L.groupOrder with
      | error e =>
        rw [hgroups] at hr
        cases hr
        exact keeps_unlock s
      | ok order =>
        rw [hgroups] at hr
        cases hr
        exact .refl _
  | startGroups reload groups =>
    cases groups with
    | nil =>
      cases h
      exact keeps_unlock s
    | cons procs groups =>
      simp only [run] at h
      split_ifs at h
      · cases h
        exact keeps_unlock s
      · cases h
        exact .refl _
  | startProcesses reload procs groups =>
    cases procs with
    | nil =>
      cases h
      exact .refl _
    | cons name procs =>
      simp only [run] at h
      split_ifs at h <;> (cases h; exact .refl _)
  | stopAllSet | stopAllExchange | stopAllExchangeAgain | stopAllDone | stopAllRestore _
    | stopAllLeave | bulkDone | monitorTop | exitStore _ _ _ | monitorSleep | requestStopping =>
    exact absurd trivial hsets
  | stopAllLoad | stopAllWait | reloadCheck =>
    cases h
    exact .refl _
  | joinMonitor | exitDelay _ _ _ =>
    simp only [run] at h
    split_ifs at h <;> (cases h; exact .refl _)
  | stopCollect reload =>
    apply Keeps.of_lock h
    intro s hr
    cases hr
    refine .of_records (fun name => ?_) rfl rfl
    simp only [unlock_processes, markStopping]
    split_ifs
    · exact ⟨ProcessInfo.enter_pid _ _,
        fun hended => absurd hended (ProcessInfo.not_ended_enter _ (by decide) (by decide))⟩
    · exact ⟨rfl, id⟩
  | stopTrees reload toStop =>
    cases toStop with
    | nil =>
      cases h
      exact .refl _
    | cons item toStop =>
      cases h
      exact keeps_stopProcessTree s item.2
  | stopUpdate reload name toStop => cases hclears
  | reloadMark =>
    apply Keeps.of_lock h
    intro s hr
    cases hr
    refine .of_records (fun name => ?_) rfl rfl
    simp only [unlock_processes]
    split_ifs <;> simp [ProcessInfo.Ended]
  | reloadReset =>
    apply Keeps.of_lock h
    intro s hr
    cases hr
    have hnone : L.names = [] := hclears
    refine .of_records (fun name => ?_) rfl rfl
    simp [hnone]
  | restartCollect =>
    apply Keeps.of_lock h
    intro s hr
    cases hr
    exact keeps_unlock s
  | restartMark toRestart =>
    apply Keeps.of_lock h
    intro s hr
    have hmark (name : String) :
        let marked := if name ∈ toRestart then { s.processes name with state := .Restarting }
          else s.processes name
        marked.pid = (s.processes name).pid ∧ (marked.Ended → (s.processes name).Ended) := by
      split_ifs <;> simp [ProcessInfo.Ended]
    cases hgroups : L.groupOrder with
    | error e =>
      simp only [hgroups] at hr
      cases hr
      exact .of_records hmark rfl rfl
    | ok order =>
      simp only [hgroups] at hr
      cases hr
      exact .of_records hmark rfl rfl
  | restartEach names =>
    cases names with
    | nil =>
      cases h
      exact .refl _
    | cons name names => cases hstops
  | restartStops stops starts =>
    cases stops with
    | nil =>
      cases h
      exact .refl _
    | cons name stops =>
      cases h
      exact .refl _
  | restartGet name stops starts =>
    apply Keeps.of_lock h
    intro s hr
    cases hr
    exact keeps_unlock s
  | restartTree name pid stops starts =>
    simp only [run] at h
    split_ifs at h
    · cases h
      exact keeps_stopProcessTree s pid
    · cases h
      exact .refl _
  | restartClear name stops starts => cases hclears
  | restartStarts starts =>
    cases starts with
    | nil =>
      cases h
      exact .refl _
    | cons name starts =>
      cases h
      exact .refl _
  | restartReset name starts => cases hclears
  | monitorScan =>
    apply Keeps.of_lock h
    intro s hr
    cases hr
    exact (keeps_scan L.names s).trans (keeps_unlock _)
  | monitorExits exits healths =>
    cases exits with
    | nil =>
      cases h
      exact .refl _
    | cons exit exits =>
      apply Keeps.of_lock h
      intro s hr
      have hexited : Keeps s (s.exited exit.1 exit.2) := by
        apply keeps_modify
        intro proc
        simp [ProcessInfo.Ended]
      dsimp only at hr
      split_ifs at hr
      · cases hr
        exact hexited.trans (keeps_unlock _)
      · exact hexited.trans (keeps_handleExit (Option.some.inj hr))
  | exitCheck name exits healths =>
    apply Keeps.of_lock h
    intro s hr
    split_ifs at hr
    · cases hr
      exact keeps_unlock s
    · cases hr
      exact .refl _
  | monitorHealths healths =>
    cases healths with
    | nil =>
      cases h
      exact .refl _
    | cons name healths => cases hstops

theorem startsNothing_modify (s : ProcessManager) (name : String)
    (f : ProcessInfo → ProcessInfo) : StartsNothing s (s.modify name f) := .of_eq rfl rfl

theorem startsNothing_stopProcess (s : ProcessManager) (name : String) :
    StartsNothing s (s.stopProcess o name) := by
  simp only [stopProcess]
  split_ifs
  · exact .of_eq rfl rfl
  · exact (keeps_stopProcessTree s _).toStartsNothing.trans (startsNothing_modify _ name _)
  · exact startsNothing_modify s name _

theorem startsNothing_stopForRestart (s : ProcessManager) (name : String) :
    StartsNothing s (s.stopForRestart o name) :=
  ((startsNothing_modify s name _).trans (startsNothing_stopProcess _ name)).trans
    (startsNothing_modify _ name _)

theorem StartsNothing.unlock (h : StartsNothing s s') : StartsNothing s s'.unlock :=
  h.trans (keeps_unlock s').toStartsNothing

theorem StartsNothing.of_lock {α : Type} {g : ProcessManager → Option (ProcessManager × α)} {a : α}
    (h : s.lock.bind g = some (s', a)) (hg : ∀ s, g s = some (s', a) → StartsNothing s s') :
    StartsNothing s s' := by
  obtain ⟨s₁, hlock, hr⟩ := Option.bind_eq_some_iff.mp h
  exact (keeps_lock hlock).toStartsNothing.trans (hg s₁ hr)

theorem startsNothing_startStep {name : String} {pc : StartPc} {started : Started}
    (h : s.startStep L o name pc = some (s', started)) (hlaunch : pc ≠ .launch) :
    StartsNothing s s' := by
  cases pc with
  | launch => exact absurd rfl hlaunch
  | oneshotDone exitCode =>
    apply StartsNothing.of_lock h
    intro s hr
    dsimp only at hr
    split_ifs at hr <;>
      (cases hr; exact (startsNothing_modify s name _).trans (startsNothing_modify _ name _))
  | waitForReady =>
    apply StartsNothing.of_lock h
    intro s hr
    have hstopped : StartsNothing s
        (if 0 < (s.processes name).pid then s.stopProcess o name else s) := by
      split_ifs
      · exact startsNothing_stopProcess s name
      · exact .of_eq rfl rfl
    dsimp only at hr
    generalize (if 0 < (s.processes name).pid then s.stopProcess o name else s) = s₂
      at hr hstopped
    split_ifs at hr
    · cases hr
      exact .of_eq rfl rfl
    · cases hr
      exact startsNothing_modify s name _
    · cases hr
      exact hstopped
    · cases hr
      exact hstopped.trans (startsNothing_modify _ name _)
  | oneshotWait _ | afterRun | checkStopping | backoff | cancelled | checkCancelled =>
    apply Keeps.toStartsNothing
    apply keeps_startStep h <;> simp

theorem startsNothing_begin {c : Call} {pc' : Pc} (h : s.begin L o c = some (s', pc'))
    (hsets : ¬c.Sets) : StartsNothing s s' := by
  cases c with
  | startAll =>
    cases h
    exact .of_eq rfl rfl
  | startProcess name =>
    simp only [begin] at h
    split_ifs at h
    · apply StartsNothing.of_lock h
      intro s hr
      cases hr
      exact startsNothing_modify s name _
    · cases h
      exact .of_eq rfl rfl
  | restartProcess name =>
    simp only [begin] at h
    split_ifs at h
    · apply StartsNothing.of_lock h
      intro s hr
      cases hr
      exact startsNothing_stopForRestart s name
    · cases h
      exact .of_eq rfl rfl
  | stopProcess name =>
    simp only [begin] at h
    split_ifs at h
    · apply StartsNothing.of_lock h
      intro s hr
      cases hr
      exact (startsNothing_stopProcess s name).unlock
    · cases h
      exact .of_eq rfl rfl
  | stopAll | restartAll | reloadAll | requestStop | cancelStartup | startMonitoring
    | stopMonitoring | monitorLoop => exact absurd trivial hsets

/-- A step that does not launch, and sets no flag. -/
theorem startsNothing_run {pc pc' : Pc} (h : s.run L o pc = some (s', pc'))
    (hlaunches : pc.launches = []) (hsets : ¬pc.Sets) : StartsNothing s s' := by
  cases pc with
  | starting name pc after =>
    obtain ⟨⟨s₁, started⟩, hstart, hr⟩ := Option.map_eq_some_iff.mp h
    have hs₁ : StartsNothing s s₁ := by
      apply startsNothing_startStep hstart
      rintro rfl
      cases hlaunches
    cases started with
    | goesOn pc =>
      cases hr
      exact hs₁
    | returns ok => exact hs₁.trans (keeps_resume hr).toStartsNothing
  | stopUpdate reload name toStop =>
    apply StartsNothing.of_lock h
    intro s hr
    cases hr
    exact (startsNothing_modify s name _).unlock
  | restartClear name stops starts =>
    apply StartsNothing.of_lock h
    intro s hr
    cases hr
    exact (startsNothing_modify s name _).unlock
  | restartReset name starts =>
    apply StartsNothing.of_lock h
    intro s hr
    cases hr
    exact startsNothing_modify s name _
  | reloadReset =>
    apply StartsNothing.of_lock h
    intro s hr
    cases hr
    exact .of_eq rfl rfl
  | monitorHealths healths =>
    cases healths with
    | nil =>
      cases h
      exact .of_eq rfl rfl
    | cons name healths =>
      apply StartsNothing.of_lock h
      intro s hr
      cases hr
      exact (startsNothing_stopProcess s name).trans (startsNothing_modify _ name _)
  | restartEach names =>
    cases names with
    | nil =>
      cases h
      exact .of_eq rfl rfl
    | cons name names =>
      apply StartsNothing.of_lock h
      intro s hr
      cases hr
      exact startsNothing_stopForRestart s name
  | stopAllSet | stopAllExchange | stopAllExchangeAgain | stopAllDone | stopAllRestore _
    | stopAllLeave | bulkDone | monitorTop | exitStore _ _ _ | monitorSleep | requestStopping =>
    exact absurd trivial hsets
  | idle | startAll _ | startGroups _ _ | startProcesses _ _ _ | stopAllWait | stopAllLoad
    | stopCollect _ | stopTrees _ _ | reloadMark | reloadCheck | restartCollect | restartMark _
    | restartStops _ _ | restartGet _ _ _ | restartTree _ _ _ _ | restartStarts _ | monitorScan
    | monitorExits _ _ | exitDelay _ _ _ | exitCheck _ _ _ | joinMonitor =>
    exact (keeps_run h rfl rfl rfl id).toStartsNothing

theorem launch_flags {name : String} {pid : Option PID} (h : s.launch o name = some (s', pid)) :
    s'.toFlags = s.toFlags := by
  simp only [launch] at h
  cases ho : o.pid with
  | none =>
    rw [ho] at h
    cases h
    rfl
  | some p =>
    simp only [ho] at h
    split_ifs at h
    cases h
    rfl

theorem flags_run {pc pc' : Pc} (h : s.run L o pc = some (s', pc')) (hsets : ¬pc.Sets) :
    s'.toFlags = s.toFlags := by
  cases pc with
  | starting name start after =>
    cases start with
    | launch =>
      obtain ⟨⟨s₁, started⟩, hstart, hr⟩ := Option.map_eq_some_iff.mp h
      simp only [startStep] at hstart
      cases hlaunch : s.launch o name with
      | none =>
        rw [hlaunch] at hstart
        cases hstart
      | some launched =>
        obtain ⟨s₂, pid⟩ := launched
        rw [← launch_flags hlaunch]
        rw [hlaunch] at hstart
        cases pid with
        | none =>
          cases hstart
          exact (keeps_resume hr).flags
        | some pid =>
          cases hstart
          cases hr
          rfl
    | _ => exact (startsNothing_run h rfl hsets).flags
  | _ => exact (startsNothing_run h rfl hsets).flags

end ProcessManager

end Uniset.Launcher
