import Uniset.Launcher.OperationsLaws

/-! Whether the processes that run are watched. -/

namespace Uniset.Launcher

open Uniset.Lib

/-- The loop of the monitor, with the restarts that it has asked for. -/
def Pc.Monitors : Pc → Prop
  | .monitorTop | .monitorScan | .monitorExits _ _ | .exitStore _ _ _ | .exitDelay _ _ _
    | .exitCheck _ _ _ | .monitorHealths _ | .monitorSleep | .starting _ _ (.exits _ _)
    | .starting _ _ (.healths _) => True
  | _ => False

/-- The loop may end. -/
def Flags.Unwatched (f : Flags) : Prop := f.running = false ∨ f.shutdownRequested = true

/-- What of the flags decides whether there has to be a loop. -/
def Flags.watch (f : Flags) : MonitorThread × Bool × Bool :=
  (f.monitorThread, f.running, f.shutdownRequested)

/-- The loop does not see `stopping` unless it is to end. -/
def SleepsOn (s : ProcessManager) (m : Move) (pc : Pc) : Prop :=
  match m, pc with
  | .run _, .monitorSleep => s.stopping = true → s.toFlags.Unwatched
  | _, _ => True

namespace ProcessManager

variable {L : LauncherConf} {o : Outcome} {s s' : ProcessManager} {pc pc' : Pc} {name : String}

theorem monitors_resume {ok : Bool} {after : After} {name' : String} {spc : StartPc}
    (h : s.resume L name ok after = (s', pc')) (hpc : (Pc.starting name' spc after).Monitors) :
    pc'.Monitors := by
  cases after with
  | exits | healths =>
    cases h
    exact trivial
  | startAll | single | restartAll | restartEach => cases hpc

theorem monitors_handleExit {exits : List (String × Int)} {healths : List String}
    (h : s.handleExit L name exits healths = (s', pc')) : pc'.Monitors := by
  unfold handleExit at h
  dsimp only at h
  split_ifs at h <;> (cases h; exact trivial)

/-- The loop goes on, or a look at the flags has told it to end. -/
theorem monitors_run (h : s.run L o pc = some (s', pc')) (hpc : pc.Monitors)
    (hsleeps : SleepsOn s (.run o) pc) : pc'.Monitors ∨ s'.toFlags.Unwatched := by
  cases pc with
  | starting name spc after =>
    obtain ⟨⟨s₁, started⟩, -, hr⟩ := Option.map_eq_some_iff.mp h
    cases started with
    | goesOn spc' =>
      cases hr
      apply Or.inl
      cases after with
      | exits | healths => exact trivial
      | startAll | single | restartAll | restartEach => cases hpc
    | returns ok => exact .inl (monitors_resume hr hpc)
  | monitorTop =>
    simp only [run] at h
    split_ifs at h with hrunning
    · cases h
      exact .inl trivial
    · cases h
      exact .inr (.inl (Bool.eq_false_of_not_eq_true hrunning))
  | monitorScan =>
    obtain ⟨s₁, -, h⟩ := Option.bind_eq_some_iff.mp h
    cases h
    exact .inl trivial
  | monitorExits exits healths =>
    cases exits with
    | nil =>
      cases h
      exact .inl trivial
    | cons exit exits =>
      obtain ⟨s₁, -, h⟩ := Option.bind_eq_some_iff.mp h
      dsimp only at h
      split_ifs at h with hstopping
      · cases h
        exact .inl trivial
      · exact .inl (monitors_handleExit (Option.some.inj h))
  | exitStore =>
    cases h
    exact .inl trivial
  | exitDelay =>
    simp only [run] at h
    split_ifs at h <;> (cases h; exact .inl trivial)
  | exitCheck name exits healths =>
    obtain ⟨s₁, -, h⟩ := Option.bind_eq_some_iff.mp h
    split_ifs at h <;> (cases h; exact .inl trivial)
  | monitorHealths healths =>
    cases healths with
    | nil =>
      cases h
      exact .inl trivial
    | cons name healths =>
      obtain ⟨s₁, -, h⟩ := Option.bind_eq_some_iff.mp h
      cases h
      exact .inl trivial
  | monitorSleep =>
    simp only [run] at h
    split_ifs at h with hstopping
    · cases h
      exact .inr (hsleeps hstopping)
    · cases h
      exact .inl trivial
    · cases h
      exact .inl trivial
  | _ => cases hpc

theorem watch_run (h : s.run L o pc = some (s', pc')) (hpc : ¬pc.Monitors) :
    s'.toFlags.watch = s.toFlags.watch := by
  by_cases hsets : pc.Sets
  · cases pc with
    | stopAllSet | requestStopping | stopAllDone | stopAllLeave | bulkDone | stopAllRestore _ =>
      cases h
      exact rfl
    | stopAllExchange | stopAllExchangeAgain =>
      simp only [run] at h
      split_ifs at h <;> (cases h; exact rfl)
    | monitorTop | monitorSleep | exitStore _ _ _ => exact absurd trivial hpc
    | _ => exact absurd hsets id
  · rw [flags_run h hsets]

/-- A loop has begun or will, the monitoring ends, or nothing about it has changed. -/
theorem watch_begin {c : Call} (h : s.begin L o c = some (s', pc')) :
    s'.monitorThread = .created ∨ pc'.Monitors ∨ s'.toFlags.Unwatched ∨
      s'.toFlags.watch = s.toFlags.watch := by
  cases c with
  | startAll | restartProcess _ | stopProcess _ | startProcess _ =>
    apply Or.inr ∘ Or.inr ∘ Or.inr
    rw [(startsNothing_begin h id).flags]
  | stopAll | cancelStartup =>
    cases h
    exact .inr (.inr (.inr rfl))
  | requestStop =>
    cases h
    exact .inr (.inr (.inl (.inr rfl)))
  | restartAll | reloadAll =>
    simp only [begin] at h
    split_ifs at h <;> (cases h; exact .inr (.inr (.inr rfl)))
  | startMonitoring =>
    simp only [begin] at h
    split_ifs at h
    · cases h
      exact .inr (.inr (.inr rfl))
    · cases h
      exact .inl rfl
  | stopMonitoring =>
    simp only [begin] at h
    split_ifs at h
    · cases h
      exact .inr (.inr (.inl (.inl rfl)))
    · cases h
      exact .inr (.inr (.inr rfl))
  | monitorLoop =>
    simp only [begin] at h
    split_ifs at h
    cases h
    exact .inr (.inl trivial)

/-- A daemon in the state of one that runs, whose child has ended. -/
structure Ended (L : LauncherConf) (s : ProcessManager) (name : String) : Prop where
  daemon : (L.conf name).oneshot = false
  running : (s.processes name).state = .Running
  launched : (s.processes name).pid ≠ 0
  child : ∀ c, s.children (s.processes name).pid = some c → c.alive = false

/-- No record changes its state or its identifier, and no child comes to life. -/
structure Watches (s s' : ProcessManager) : Prop where
  state : ∀ name, (s'.processes name).state = (s.processes name).state
  pid : ∀ name, (s'.processes name).pid = (s.processes name).pid
  child : ∀ p c, s'.children p = some c → s.children p = some c

theorem Watches.ended (h : Watches s s') (hended : Ended L s name) : Ended L s' name where
  daemon := hended.daemon
  running := (h.state name).trans hended.running
  launched := by
    rw [h.pid]
    exact hended.launched
  child c hc := by
    rw [h.pid] at hc
    exact hended.child c (h.child _ c hc)

theorem Watches.refl (s : ProcessManager) : Watches s s :=
  ⟨fun _ => rfl, fun _ => rfl, fun _ _ => id⟩

theorem Watches.trans {s₁ s₂ s₃ : ProcessManager} (h : Watches s₁ s₂) (h' : Watches s₂ s₃) :
    Watches s₁ s₃ where
  state name := (h'.state name).trans (h.state name)
  pid name := (h'.pid name).trans (h.pid name)
  child p c hc := h.child p c (h'.child p c hc)

theorem watches_modify (s : ProcessManager) (name : String) {f : ProcessInfo → ProcessInfo}
    (hstate : ∀ proc, (f proc).state = proc.state) (hpid : ∀ proc, (f proc).pid = proc.pid) :
    Watches s (s.modify name f) where
  state n := by
    by_cases hn : n = name
    · rw [hn, modify_processes_self, hstate]
    · rw [modify_processes_of_ne hn]
  pid n := by
    by_cases hn : n = name
    · rw [hn, modify_processes_self, hpid]
    · rw [modify_processes_of_ne hn]
  child _ _ := id

theorem watches_reap (s : ProcessManager) (pid : PID) : Watches s (s.reap pid) where
  state _ := rfl
  pid _ := rfl
  child p c hc := by
    by_cases hp : p = pid
    · rw [hp, reap_children_self] at hc
      cases hc
    · rwa [reap_children_of_ne hp] at hc

theorem watches_findExit (s : ProcessManager) (name : String) :
    Watches s (s.findExit o name).1 := by
  unfold findExit
  dsimp only
  split
  · rename_i reaped _
    split_ifs
    · apply (watches_reap s reaped).trans
      dsimp only
      apply watches_modify <;> exact fun _ => rfl
    · exact watches_reap s reaped
  · split_ifs
    · dsimp only
      apply watches_modify <;> exact fun _ => rfl
    · exact .refl s
    · exact .refl s

theorem watches_checkHealth (s : ProcessManager) (name : String) :
    Watches s (s.checkHealth L o name).1 := by
  unfold checkHealth
  dsimp only
  split_ifs
  · dsimp only
    apply watches_modify <;> exact fun _ => rfl
  · dsimp only
    apply watches_modify <;> exact fun _ => rfl
  · dsimp only
    apply watches_modify <;> exact fun _ => rfl
  · exact .refl s

/-- The end of a child is found at the look at its record. -/
theorem Ended.findExit (h : Ended L s name) : ∃ exitCode, (s.findExit o name).2 = some exitCode := by
  have hwait : s.waitpid o (s.processes name).pid = none →
      s.children (s.processes name).pid = none := by
    intro hwait
    unfold waitpid at hwait
    rw [if_neg h.launched] at hwait
    cases hchild : s.children (s.processes name).pid with
    | none => rfl
    | some c => simp [hchild, h.child c hchild] at hwait
  unfold ProcessManager.findExit
  dsimp only
  split
  · split_ifs <;> exact ⟨_, rfl⟩
  · rename_i hnone
    rw [if_pos (hwait hnone)]
    split_ifs <;> exact ⟨_, rfl⟩

/-- The loop over the table finds the end of every child. -/
theorem Ended.scan {names : List String} (h : Ended L s name) (hname : name ∈ names) :
    ∃ exitCode, (name, exitCode) ∈ (ProcessManager.scan L o names s).2.1 := by
  induction names generalizing s with
  | nil => cases hname
  | cons n names ih =>
    unfold ProcessManager.scan
    by_cases hskip : (L.conf n).oneshot ∨ (s.processes n).state ≠ .Running
    · rw [if_pos hskip]
      apply ih h
      apply (List.mem_cons.mp hname).resolve_left
      intro hn
      rw [hn] at h
      rw [h.daemon] at hskip
      exact hskip.elim Bool.noConfusion (· h.running)
    · rw [if_neg hskip]
      have hended : Ended L (s.findExit o n).1 name := (watches_findExit s n).ended h
      have hfound : name = n → ∃ exitCode, (s.findExit o n).2 = some exitCode := by
        intro hn
        rw [← hn]
        exact h.findExit
      rcases hfind : s.findExit o n with ⟨s₁, found⟩
      rw [hfind] at hended hfound
      cases found with
      | some exitCode =>
        rcases List.mem_cons.mp hname with rfl | hname
        · exact ⟨exitCode, List.mem_cons_self⟩
        · obtain ⟨exitCode', hmem⟩ := ih hended hname
          exact ⟨exitCode', List.mem_cons_of_mem _ hmem⟩
      | none =>
        apply ih ((watches_checkHealth s₁ n).ended hended)
        apply (List.mem_cons.mp hname).resolve_left
        intro hn
        obtain ⟨_, hsome⟩ := hfound hn
        cases hsome

/-- An exit that is handled leaves the state of a process that runs. -/
theorem handled {exitCode : Int} {exits : List (String × Int)} {healths : List String}
    (h : s.run L o (.monitorExits ((name, exitCode) :: exits) healths) = some (s', pc')) :
    (s'.processes name).state ≠ .Running := by
  obtain ⟨s₁, -, h⟩ := Option.bind_eq_some_iff.mp h
  dsimp only at h
  have hfailed : ((s₁.exited name exitCode).processes name).state ≠ .Running := by
    unfold exited
    rw [modify_processes_self]
    exact nofun
  split_ifs at h
  · cases h
    exact hfailed
  · unfold handleExit at h
    dsimp only at h
    split_ifs at h <;> cases h
    · exact hfailed
    · simp
    · simp
    · simpa using hfailed

end ProcessManager

open ProcessManager

variable {τ : Type} {L : LauncherConf}

/-- While the monitoring is on and no shutdown has been requested, a thread is in the loop or is to
enter it. -/
def LauncherThreads.Supervised (t : LauncherThreads τ) : Prop :=
  t.shared.running = true → t.shared.shutdownRequested = false →
    t.shared.monitorThread = .created ∨ ∃ thread, (t.locals thread).Monitors

theorem LauncherThreads.Supervised.of_unwatched {t : LauncherThreads τ}
    (h : t.shared.toFlags.Unwatched) : t.Supervised := by
  intro hrunning hshutdown
  cases h with
  | inl hoff => cases hrunning.symm.trans hoff
  | inr hon => cases hshutdown.symm.trans hon

variable [DecidableEq τ]

theorem supervised_step {s t : LauncherThreads τ} {i : τ × Move} (hs : s.Supervised)
    (hsleeps : SleepsOn s.shared i.2 (s.locals i.1)) (hi : s.step (act L) i = some t) :
    t.Supervised := by
  obtain ⟨thread, m⟩ := i
  obtain ⟨sh, k, hact, rfl⟩ := Threads.step_eq_some hi
  -- a thread that is not in the loop leaves alone the one that is
  have hother (hpc : ¬(s.locals thread).Monitors)
      (hwatch : sh.toFlags.watch = s.shared.toFlags.watch) :
      LauncherThreads.Supervised ⟨sh, Function.update s.locals thread k⟩ := by
    intro hrunning hshutdown
    obtain ⟨hmonitor, hrun, hshut⟩ : sh.monitorThread = s.shared.monitorThread ∧
        sh.running = s.shared.running ∧ sh.shutdownRequested = s.shared.shutdownRequested := by
      simpa [Flags.watch] using hwatch
    cases hs (hrun.symm.trans hrunning) (hshut.symm.trans hshutdown) with
    | inl hcreated => exact .inl (hmonitor.trans hcreated)
    | inr hloop =>
      obtain ⟨other, hother⟩ := hloop
      refine .inr ⟨other, ?_⟩
      dsimp only
      rwa [Function.update_of_ne]
      intro heq
      exact hpc (heq ▸ hother)
  have hself (hk : k.Monitors) :
      LauncherThreads.Supervised ⟨sh, Function.update s.locals thread k⟩ := by
    intro _ _
    refine .inr ⟨thread, ?_⟩
    dsimp only
    rwa [Function.update_self]
  cases m with
  | call c o =>
    dsimp only at hact
    cases hidle : s.locals thread with
    | idle =>
      rw [hidle] at hact
      rcases watch_begin hact with hcreated | hk | hunwatched | hwatch
      · exact fun _ _ => .inl hcreated
      · exact hself hk
      · exact .of_unwatched hunwatched
      · apply hother _ hwatch
        rw [hidle]
        exact id
    | _ =>
      rw [hidle] at hact
      cases hact
  | run o =>
    by_cases hpc : (s.locals thread).Monitors
    · cases monitors_run hact hpc hsleeps with
      | inl hk => exact hself hk
      | inr hunwatched => exact .of_unwatched hunwatched
    · exact hother hpc (watch_run hact hpc)
  | exit pid | tick nsec =>
    cases hact
    rw [Function.update_eq_self]
    exact hs

/-- As long as the loop, when it sleeps, does not see `stopping` unless it may end, there is a loop,
and each of its looks at the table finds every daemon whose child has ended, and handles it. -/
theorem supervision_kept {t : LauncherThreads τ}
    (h : Reaches (Threads.step (act L)) (fun s i => SleepsOn s.shared i.2 (s.locals i.1))
      (LauncherThreads.new τ) t) :
    t.Supervised ∧
      (∀ thread o t', t.locals thread = .monitorScan →
        t.step (act L) (thread, .run o) = some t' →
        ∃ exits healths, t'.locals thread = .monitorExits exits healths ∧
          ∀ name ∈ L.names, Ended L t.shared name → ∃ exitCode, (name, exitCode) ∈ exits) ∧
      ∀ thread o t' name exitCode exits healths,
        t.locals thread = .monitorExits ((name, exitCode) :: exits) healths →
        t.step (act L) (thread, .run o) = some t' →
        (t'.shared.processes name).state ≠ .Running := by
  refine ⟨?_, ?_, ?_⟩
  · exact h.invariant supervised_step fun hrunning => nomatch hrunning
  · intro thread o t' hpc hstep
    obtain ⟨sh, k, hact, rfl⟩ := Threads.step_eq_some hstep
    dsimp only at hact
    rw [hpc] at hact
    obtain ⟨s₁, hlock, hact⟩ := Option.bind_eq_some_iff.mp hact
    cases hact
    refine ⟨_, _, Function.update_self .., fun name hname hended => ?_⟩
    apply Ended.scan _ hname
    rw [(lock_eq_some.mp hlock).2]
    exact ⟨hended.daemon, hended.running, hended.launched, hended.child⟩
  · intro thread o t' name exitCode exits healths hpc hstep
    obtain ⟨sh, k, hact, rfl⟩ := Threads.step_eq_some hstep
    dsimp only at hact
    rw [hpc] at hact
    exact handled (o := o) hact

/-- The monitoring of a launcher whose daemon is started and ends. -/
theorem supervision_kept_startAll :
    ∃ t : LauncherThreads Nat,
      t.locals 1 = .monitorScan ∧ Ended (.ofDaemon .default) t.shared "daemon" ∧ t.Supervised ∧
      ∀ o t', t.step (act (.ofDaemon .default)) (1, .run o) = some t' →
        ∃ exits healths, t'.locals 1 = .monitorExits exits healths ∧
          ∃ exitCode, ("daemon", exitCode) ∈ exits := by
  have hreach : Reaches (Threads.step (act (.ofDaemon .default)))
      (fun s i => SleepsOn s.shared i.2 (s.locals i.1)) (LauncherThreads.new Nat) _ :=
    .head (i := (2, .call (.startProcess "daemon") (.success 10))) trivial rfl <|
    .head (i := (2, .run (.success 10))) trivial rfl <|
    .head (i := (2, .run (.success 10))) trivial rfl <|
    .head (i := (2, .call .startMonitoring (.success 0))) trivial rfl <|
    .head (i := (1, .call .monitorLoop (.success 0))) trivial rfl <|
    .head (i := (1, .run (.success 0))) trivial rfl <|
    .head (i := (3, .exit 10)) trivial rfl <|
    .refl _
  obtain ⟨hsupervised, hscan, -⟩ := supervision_kept hreach
  refine ⟨_, rfl, ⟨rfl, rfl, Nat.succ_ne_zero 9, fun c hc => ?_⟩, hsupervised, fun o t' hstep => ?_⟩
  · cases hc
    rfl
  · obtain ⟨exits, healths, hpc, hfound⟩ := hscan 1 o t' rfl hstep
    refine ⟨exits, healths, hpc, hfound "daemon" List.mem_cons_self ?_⟩
    refine ⟨rfl, rfl, Nat.succ_ne_zero 9, fun c hc => ?_⟩
    cases hc
    rfl

/-- A stop of all processes ends the loop, and the monitoring stays on. -/
theorem supervision_not_kept :
    ∃ t : LauncherThreads Nat,
      Reaches (Threads.step (act (.ofDaemon .default))) (fun _ _ => True)
        (LauncherThreads.new Nat) t ∧
      t.shared.running = true ∧ t.shared.shutdownRequested = false ∧
      t.shared.stopping = false ∧ t.shared.monitorThread = .none ∧
      ∀ thread, t.locals thread = .idle := by
  let moves : List (Nat × Move) :=
    (0, .call .startMonitoring (.success 0)) :: (1, .call .monitorLoop (.success 0)) ::
      List.replicate 4 (1, .run (.success 0)) ++ (2, .call .stopAll (.success 0)) ::
      (2, .run (.success 0)) :: (1, .run (.success 0)) :: List.replicate 7 (2, .run (.success 0))
  have hrun : moves.foldlM (Threads.step (act (.ofDaemon .default))) (LauncherThreads.new Nat) =
      some _ := rfl
  refine ⟨_, .of_foldlM (fun _ _ _ => trivial) hrun, rfl, rfl, rfl, rfl, fun thread => ?_⟩
  match thread with
  | 0 | 1 | 2 => rfl
  | n + 3 => rfl

end Uniset.Launcher
