import Uniset.Launcher.OperationsLaws

/-! What becomes of a request to stop. -/

namespace Uniset.Launcher

open Uniset.Lib

/-- A thread between its look at a flag and what follows from it: that it clears `stopping`, or
starts a process. -/
def Pc.Committed : Pc → Prop
  | .starting _ .launch _ => True
  | .restartReset _ _ => True
  | .stopAllRestore stopping => stopping = false
  | .exitStore stopping _ _ => stopping = false
  | _ => False

/-- A step towards the start of a process for which no flag is looked at. -/
def Move.Unasked : Move → Pc → Prop
  | .call (.startProcess _) _, _ => True
  | .call (.restartProcess _) _, _ => True
  | .run _, .monitorHealths (_ :: _) => True
  | .run _, .restartEach (_ :: _) => True
  | _, _ => False

/-- Both flags are set, as `requestStop` leaves them. -/
structure Flags.Requested (f : Flags) : Prop where
  stopping : f.stopping = true
  shutdownRequested : f.shutdownRequested = true

theorem Pc.launches_of_not_committed {pc : Pc} (h : ¬pc.Committed) : pc.launches = [] := by
  cases pc with
  | starting name start after =>
    cases start with
    | launch => exact absurd trivial h
    | _ => rfl
  | _ => rfl

namespace ProcessManager

variable {L : LauncherConf} {o : Outcome} {s s' : ProcessManager} {pc pc' : Pc} {m : Move}

theorem requested_of_lock (h : s.toFlags.Requested) (hlock : s.lock = some s') :
    s'.toFlags.Requested := by
  rw [(keeps_lock hlock).flags]
  exact h

theorem not_committed_resume {name : String} {ok : Bool} {after : After}
    (h : s.resume L name ok after = (s', pc')) : ¬pc'.Committed := by
  cases after with
  | startAll reload procs groups =>
    simp only [resume] at h
    split_ifs at h
    · cases h
      cases reload <;> exact id
    · cases h
      exact id
  | single | restartAll _ | restartEach _ | exits _ _ | healths _ =>
    cases h
    exact id

/-- Only after a look at the flag is a process launched once more. -/
theorem not_launch_of_requested {name : String} {start : StartPc}
    (hs : s.toFlags.Requested) : s.startStep L o name start ≠ some (s', .goesOn .launch) := by
  intro h
  cases start with
  | launch =>
    simp only [startStep] at h
    cases hlaunch : s.launch o name with
    | none =>
      rw [hlaunch] at h
      cases h
    | some launched =>
      obtain ⟨s₁, pid⟩ := launched
      rw [hlaunch] at h
      cases pid with
      | none => cases h
      | some pid =>
        have hnext := (Prod.mk.inj (Option.some.inj h)).2
        split_ifs at hnext <;> cases hnext
  | oneshotWait pid => cases h
  | oneshotDone exitCode =>
    obtain ⟨s₁, -, h⟩ := Option.bind_eq_some_iff.mp h
    dsimp only at h
    split_ifs at h <;> cases h
  | waitForReady =>
    obtain ⟨s₁, -, h⟩ := Option.bind_eq_some_iff.mp h
    dsimp only at h
    split_ifs at h <;> cases h
  | afterRun =>
    obtain ⟨s₁, -, h⟩ := Option.bind_eq_some_iff.mp h
    cases h
  | checkStopping =>
    simp only [startStep] at h
    split_ifs at h <;> cases h
  | backoff =>
    simp only [startStep] at h
    split_ifs at h <;> cases h
  | cancelled =>
    obtain ⟨s₁, -, h⟩ := Option.bind_eq_some_iff.mp h
    cases h
  | checkCancelled =>
    obtain ⟨s₁, hlock, h⟩ := Option.bind_eq_some_iff.mp h
    rw [if_pos (requested_of_lock hs hlock).stopping] at h
    cases h

theorem not_committed_begin {c : Call} (h : s.begin L o c = some (s', pc'))
    (hasked : ¬(Move.call c o).Unasked .idle) : ¬pc'.Committed := by
  cases c with
  | startAll | requestStop | cancelStartup =>
    cases h
    exact id
  | stopAll =>
    cases h
    split_ifs <;> exact id
  | restartAll | reloadAll | startMonitoring | stopMonitoring | monitorLoop =>
    simp only [begin] at h
    split_ifs at h <;> (cases h; exact id)
  | stopProcess name =>
    simp only [begin] at h
    split_ifs at h
    · obtain ⟨s₁, -, h⟩ := Option.bind_eq_some_iff.mp h
      cases h
      exact id
    · cases h
      exact id
  | startProcess name | restartProcess name => exact absurd trivial hasked

theorem not_committed_run (h : s.run L o pc = some (s', pc')) (hs : s.toFlags.Requested)
    (hcommitted : ¬pc.Committed) (hasked : ¬(Move.run o).Unasked pc) : ¬pc'.Committed := by
  cases pc with
  | idle => cases h
  | starting name start after =>
    obtain ⟨⟨s₁, started⟩, hstart, hr⟩ := Option.map_eq_some_iff.mp h
    cases started with
    | goesOn start' =>
      cases hr
      cases start' with
      | launch => exact absurd hstart (not_launch_of_requested hs)
      | _ => exact id
    | returns ok => exact not_committed_resume hr
  | startAll reload =>
    obtain ⟨s₁, hlock, h⟩ := Option.bind_eq_some_iff.mp h
    rw [if_pos (requested_of_lock hs hlock).stopping] at h
    cases h
    cases reload <;> exact id
  | startGroups reload groups =>
    cases groups with
    | nil =>
      cases h
      cases reload <;> exact id
    | cons procs groups =>
      simp only [run, if_pos hs.stopping] at h
      cases h
      cases reload <;> exact id
  | startProcesses reload procs groups =>
    cases procs with
    | nil =>
      cases h
      exact id
    | cons name procs =>
      simp only [run, if_pos hs.stopping] at h
      cases h
      exact id
  | stopAllLoad =>
    cases h
    simp [Pc.Committed, hs.shutdownRequested]
  | stopAllSet | stopAllDone | stopAllRestore _ | stopAllLeave | bulkDone | requestStopping
    | exitStore _ _ _ =>
    cases h
    exact id
  | stopAllExchange | stopAllExchangeAgain | monitorTop | joinMonitor =>
    simp only [run] at h
    split_ifs at h <;> (cases h; exact id)
  | monitorSleep | exitDelay _ _ _ =>
    simp only [run, if_pos hs.stopping] at h
    cases h
    exact id
  | stopAllWait =>
    cases h
    split_ifs <;> exact id
  | reloadCheck =>
    cases h
    rw [if_pos hs.stopping]
    exact id
  | stopCollect _ | stopUpdate _ _ _ | reloadMark | reloadReset | restartClear _ _ _
    | monitorScan =>
    obtain ⟨s₁, -, h⟩ := Option.bind_eq_some_iff.mp h
    cases h
    exact id
  | stopTrees reload toStop =>
    cases toStop with
    | nil =>
      cases h
      cases reload <;> exact id
    | cons item toStop =>
      cases h
      exact id
  | restartCollect =>
    obtain ⟨s₁, -, h⟩ := Option.bind_eq_some_iff.mp h
    cases h
    split_ifs <;> exact id
  | restartMark toRestart =>
    obtain ⟨s₁, -, h⟩ := Option.bind_eq_some_iff.mp h
    cases hgroups : L.groupOrder <;> (simp only [hgroups] at h; cases h; exact id)
  | restartEach names =>
    cases names with
    | nil =>
      cases h
      exact id
    | cons name names => exact absurd trivial hasked
  | restartStops stops starts =>
    cases stops with
    | nil =>
      cases h
      exact id
    | cons name stops =>
      cases h
      rw [if_pos hs.stopping]
      exact id
  | restartGet name stops starts =>
    obtain ⟨s₁, -, h⟩ := Option.bind_eq_some_iff.mp h
    cases h
    split_ifs <;> exact id
  | restartTree name pid stops starts =>
    cases h
    exact id
  | restartStarts starts =>
    cases starts with
    | nil =>
      cases h
      exact id
    | cons name starts =>
      cases h
      rw [if_pos hs.stopping]
      exact id
  | restartReset name starts => exact absurd trivial hcommitted
  | monitorExits exits healths =>
    cases exits with
    | nil =>
      cases h
      exact id
    | cons exit exits =>
      obtain ⟨s₁, hlock, h⟩ := Option.bind_eq_some_iff.mp h
      have hstopping : (s₁.exited exit.1 exit.2).stopping = true :=
        (requested_of_lock hs hlock).stopping
      dsimp only at h
      rw [if_pos hstopping] at h
      cases h
      exact id
  | exitCheck name exits healths =>
    obtain ⟨s₁, hlock, h⟩ := Option.bind_eq_some_iff.mp h
    rw [if_pos (requested_of_lock hs hlock).stopping] at h
    cases h
    exact id
  | monitorHealths healths =>
    cases healths with
    | nil =>
      cases h
      exact id
    | cons name healths => exact absurd trivial hasked

theorem requested_begin {c : Call} (h : s.begin L o c = some (s', pc'))
    (hs : s.toFlags.Requested) : s'.toFlags.Requested := by
  cases c with
  | startAll | restartProcess _ | stopProcess _ | startProcess _ =>
    rw [(startsNothing_begin h id).flags]
    exact hs
  | stopAll =>
    cases h
    exact ⟨hs.stopping, hs.shutdownRequested⟩
  | requestStop =>
    cases h
    exact ⟨hs.stopping, rfl⟩
  | cancelStartup =>
    cases h
    exact ⟨rfl, hs.shutdownRequested⟩
  | restartAll | reloadAll | startMonitoring | stopMonitoring | monitorLoop =>
    simp only [begin] at h
    split_ifs at h <;> (cases h; exact ⟨hs.stopping, hs.shutdownRequested⟩)

theorem requested_run (h : s.run L o pc = some (s', pc')) (hs : s.toFlags.Requested)
    (hcommitted : ¬pc.Committed) : s'.toFlags.Requested := by
  by_cases hsets : pc.Sets
  · cases pc with
    | stopAllSet | requestStopping =>
      cases h
      exact ⟨rfl, hs.shutdownRequested⟩
    | stopAllDone | stopAllLeave | bulkDone =>
      cases h
      exact ⟨hs.stopping, hs.shutdownRequested⟩
    | stopAllRestore stopping | exitStore stopping _ _ =>
      cases h
      exact ⟨by simpa [Pc.Committed] using hcommitted, hs.shutdownRequested⟩
    | stopAllExchange | stopAllExchangeAgain | monitorTop | monitorSleep =>
      simp only [run] at h
      split_ifs at h <;> (cases h; exact ⟨hs.stopping, hs.shutdownRequested⟩)
    | _ => exact absurd hsets id
  · rw [(startsNothing_run h (Pc.launches_of_not_committed hcommitted) hsets).flags]
    exact hs

theorem no_child_begin {c : Call} (h : s.begin L o c = some (s', pc')) (p : PID)
    (hp : s.children p = none) : s'.children p = none := by
  by_cases hsets : c.Sets
  · rw [(sameTable_begin h hsets).children, hp]
  · cases hp' : s'.children p with
    | none => rfl
    | some c' =>
      obtain ⟨c, hc, -⟩ := (startsNothing_begin h hsets).children p c' hp'
      cases hp.symm.trans hc

theorem no_child_run (h : s.run L o pc = some (s', pc')) (hlaunches : pc.launches = []) (p : PID)
    (hp : s.children p = none) : s'.children p = none := by
  by_cases hsets : pc.Sets
  · rw [(sameTable_run h hsets).children, hp]
  · cases hp' : s'.children p with
    | none => rfl
    | some c' =>
      obtain ⟨c, hc, -⟩ := (startsNothing_run h hlaunches hsets).children p c' hp'
      cases hp.symm.trans hc

end ProcessManager

open ProcessManager

section Act

variable {L : LauncherConf} {m : Move} {s s' : ProcessManager} {pc pc' : Pc}

theorem requested_act (h : act L m s pc = some (s', pc')) (hs : s.toFlags.Requested)
    (hcommitted : ¬pc.Committed) (hasked : ¬m.Unasked pc) :
    s'.toFlags.Requested ∧ ¬pc'.Committed := by
  cases m with
  | call c o =>
    cases pc with
    | idle => exact ⟨requested_begin h hs, not_committed_begin h hasked⟩
    | _ => cases h
  | run o => exact ⟨requested_run h hs hcommitted, not_committed_run h hs hcommitted hasked⟩
  | exit pid | tick nsec =>
    cases h
    exact ⟨hs, hcommitted⟩

theorem no_child_act (h : act L m s pc = some (s', pc')) (hcommitted : ¬pc.Committed) (p : PID)
    (hp : s.children p = none) : s'.children p = none := by
  cases m with
  | call c o =>
    cases pc with
    | idle => exact no_child_begin h p hp
    | _ => cases h
  | run o => exact no_child_run h (Pc.launches_of_not_committed hcommitted) p hp
  | exit pid =>
    cases h
    cases hp' : (s.exit pid).children p with
    | none => rfl
    | some c' =>
      obtain ⟨c, hc, -⟩ := (keeps_exit s pid).children p c' hp'
      cases hp.symm.trans hc
  | tick nsec =>
    cases h
    exact hp

end Act

variable {τ : Type} [DecidableEq τ]

/-- A request to stop, when no thread is about to clear `stopping` or to start a process, stays
set whatever the threads do, and no process is started, as long as none is asked for on a path on
which no flag is looked at. -/
theorem stop_kept {L : LauncherConf} {s t : LauncherThreads τ}
    (hrequested : s.shared.toFlags.Requested)
    (hcommitted : ∀ thread, ¬(s.locals thread).Committed)
    (h : Reaches (Threads.step (act L)) (fun s i => ¬i.2.Unasked (s.locals i.1)) s t) :
    t.shared.stopping = true ∧
      ∀ i t', t.step (act L) i = some t' →
        ∀ p, t.shared.children p = none → t'.shared.children p = none := by
  have hkept : t.shared.toFlags.Requested ∧ ∀ thread, ¬(t.locals thread).Committed := by
    refine h.invariant (I := fun s =>
      s.shared.toFlags.Requested ∧ ∀ thread, ¬(s.locals thread).Committed) ?_
      ⟨hrequested, hcommitted⟩
    intro s i t hs hasked hi
    obtain ⟨sh, k, hact, rfl⟩ := Threads.step_eq_some hi
    obtain ⟨hflags, hk⟩ := requested_act hact hs.1 (hs.2 i.1) hasked
    refine ⟨hflags, fun thread => ?_⟩
    by_cases hthread : thread = i.1
    · simpa [hthread] using hk
    · simpa [hthread] using hs.2 thread
  refine ⟨hkept.1.stopping, fun i t' hi p hp => ?_⟩
  obtain ⟨sh, k, hact, rfl⟩ := Threads.step_eq_some hi
  exact no_child_act hact (hkept.2 i.1) p hp

/-- A launcher that has been asked to stop, and stops all. -/
theorem stop_kept_stopAll :
    ∃ t : LauncherThreads Nat,
      t.locals 1 = .stopAllRestore true ∧ t.shared.stopping = true ∧
      ∀ i t', t.step (act (.ofDaemon .default)) i = some t' →
        ∀ p, t.shared.children p = none → t'.shared.children p = none := by
  let s : LauncherThreads Nat :=
    ⟨{ ProcessManager.new with stopping := true, shutdownRequested := true }, fun _ => .idle⟩
  have hreach : Reaches (Threads.step (act (.ofDaemon .default)))
      (fun s i => ¬i.2.Unasked (s.locals i.1)) s _ :=
    .head (i := (1, .call .stopAll (.success 0))) id rfl <|
    .head (i := (1, .run (.success 0))) id rfl <|
    .head (i := (1, .run (.success 0))) id rfl <|
    .head (i := (1, .run (.success 0))) id rfl <|
    .head (i := (1, .run (.success 0))) id rfl <|
    .head (i := (1, .run (.success 0))) id rfl <|
    .head (i := (1, .run (.success 0))) id rfl <|
    .refl _
  exact ⟨_, rfl, stop_kept ⟨rfl, rfl⟩ (fun _ => id) hreach⟩

/-- The request comes after the last look that `stopAll` takes at the flags. -/
theorem stop_not_kept :
    ∃ s t : LauncherThreads Nat,
      Reaches (Threads.step (act (.ofDaemon .default))) (fun _ _ => True)
        (LauncherThreads.new Nat) s ∧
      s.shared.toFlags.Requested ∧
      s.step (act (.ofDaemon .default)) (1, .run (.success 0)) = some t ∧
      t.shared.stopping = false := by
  let moves : List (Nat × Move) :=
    (1, .call .stopAll (.success 0)) :: List.replicate 6 (1, .run (.success 0)) ++
      [(2, .call .requestStop (.success 0)), (2, .run (.success 0))]
  have hrun : moves.foldlM (Threads.step (act (.ofDaemon .default))) (LauncherThreads.new Nat) =
      some _ := rfl
  exact ⟨_, _, .of_foldlM (fun _ _ _ => trivial) hrun, ⟨rfl, rfl⟩, rfl, rfl⟩

end Uniset.Launcher
