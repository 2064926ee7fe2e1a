import Uniset.Launcher.RestartHistory

/-! How often a process is started again. -/

namespace Uniset.Launcher

open Uniset.Lib

variable {L : LauncherConf} {o : Outcome} {name n : String}

namespace ProcessManager

variable {s s' : ProcessManager} {pc pc' : Pc}

theorem SameRestarts.refl (s : ProcessManager) : SameRestarts name s s := ⟨rfl, rfl, rfl⟩

theorem SameRestarts.trans {s₁ s₂ s₃ : ProcessManager} (h : SameRestarts name s₁ s₂)
    (h' : SameRestarts name s₂ s₃) : SameRestarts name s₁ s₃ where
  restartCount := h'.restartCount.trans h.restartCount
  lastStartTime := h'.lastStartTime.trans h.lastStartTime
  clock := h'.clock.trans h.clock

theorem sameRestarts_lock (h : s.lock = some s') : SameRestarts name s s' := by
  rw [(lock_eq_some.mp h).2]
  exact ⟨rfl, rfl, rfl⟩

theorem sameRestarts_unlock (s : ProcessManager) : SameRestarts name s s.unlock := ⟨rfl, rfl, rfl⟩

theorem sameRestarts_modify (s : ProcessManager) (n : String) {f : ProcessInfo → ProcessInfo}
    (hcount : ∀ proc, (f proc).restartCount = proc.restartCount)
    (hstart : ∀ proc, (f proc).lastStartTime = proc.lastStartTime) :
    SameRestarts name s (s.modify n f) := by
  by_cases hn : name = n
  · rw [hn]
    refine ⟨?_, ?_, rfl⟩
    · rw [modify_processes_self, hcount]
    · rw [modify_processes_self, hstart]
  · refine ⟨?_, ?_, rfl⟩ <;> rw [modify_processes_of_ne hn]

theorem sameRestarts_modify_of_ne (s : ProcessManager) (f : ProcessInfo → ProcessInfo)
    (hn : n ≠ name) : SameRestarts name s (s.modify n f) := by
  refine ⟨?_, ?_, rfl⟩ <;> rw [modify_processes_of_ne (Ne.symm hn)]

theorem enter_lastStartTime (proc : ProcessInfo) (state : ProcessState) :
    (proc.enter state).lastStartTime = proc.lastStartTime := by
  unfold ProcessInfo.enter
  split_ifs <;> rfl

theorem sameRestarts_stopProcessTree (s : ProcessManager) (pid : PID) :
    SameRestarts name s (s.stopProcessTree o pid) := by
  unfold stopProcessTree
  split_ifs <;> exact ⟨rfl, rfl, rfl⟩

theorem sameRestarts_stopProcess (s : ProcessManager) (n : String) :
    SameRestarts name s (s.stopProcess o n) := by
  unfold stopProcess
  dsimp only
  split_ifs
  · exact .refl s
  · apply (sameRestarts_stopProcessTree s _).trans
    apply sameRestarts_modify
    · exact fun proc => proc.enter_restartCount _
    · exact fun proc => enter_lastStartTime proc _
  · apply sameRestarts_modify
    · exact fun proc => proc.enter_restartCount _
    · exact fun proc => enter_lastStartTime proc _

theorem sameRestarts_findExit (s : ProcessManager) (n : String) :
    SameRestarts name s (s.findExit o n).1 := by
  unfold findExit
  dsimp only
  split
  · rename_i reaped _
    have hreap : SameRestarts name s (s.reap reaped) := ⟨rfl, rfl, rfl⟩
    split_ifs
    · apply hreap.trans
      dsimp only
      apply sameRestarts_modify <;> exact fun _ => rfl
    · exact hreap
  · split_ifs
    · dsimp only
      apply sameRestarts_modify <;> exact fun _ => rfl
    · exact .refl s
    · exact .refl s

theorem sameRestarts_checkHealth (s : ProcessManager) (n : String) :
    SameRestarts name s (s.checkHealth L o n).1 := by
  unfold checkHealth
  dsimp only
  split_ifs
  · dsimp only
    apply sameRestarts_modify <;> exact fun _ => rfl
  · dsimp only
    apply sameRestarts_modify <;> exact fun _ => rfl
  · dsimp only
    apply sameRestarts_modify <;> exact fun _ => rfl
  · exact .refl s

theorem sameRestarts_scan (names : List String) (s : ProcessManager) :
    SameRestarts name s (scan L o names s).1 := by
  induction names generalizing s with
  | nil => exact .refl s
  | cons n names ih =>
    unfold scan
    split_ifs
    · exact ih s
    · have hexit := @sameRestarts_findExit o name s n
      cases hfound : s.findExit o n with
      | mk s₁ exit =>
        rw [hfound] at hexit
        cases exit with
        | some exitCode => exact hexit.trans (ih s₁)
        | none => exact (hexit.trans (sameRestarts_checkHealth s₁ n)).trans (ih _)

theorem sameRestarts_giveUp (s : ProcessManager) (n : String) :
    SameRestarts name s (s.giveUp n) := by
  apply sameRestarts_modify <;> exact fun _ => rfl

theorem SameRestarts.of_lock {α : Type} {g : ProcessManager → Option (ProcessManager × α)} {a : α}
    (h : s.lock.bind g = some (s', a))
    (hg : ∀ s₁, g s₁ = some (s', a) → SameRestarts name s₁ s') : SameRestarts name s s' := by
  obtain ⟨s₁, hlock, h⟩ := Option.bind_eq_some_iff.mp h
  exact (sameRestarts_lock hlock).trans (hg s₁ h)

theorem sameRestarts_launch {pid : Option PID} (h : s.launch o n = some (s', pid)) (hn : n ≠ name) :
    SameRestarts name s s' := by
  have hrecord : s'.processes name = s.processes name ∧ s'.clock = s.clock := by
    unfold launch at h
    dsimp only at h
    split at h
    · cases h
      exact ⟨by rw [modify_processes_of_ne hn.symm, modify_processes_of_ne hn.symm], rfl⟩
    · split_ifs at h
      cases h
      refine ⟨?_, rfl⟩
      dsimp only
      rw [modify_processes_of_ne hn.symm, modify_processes_of_ne hn.symm]
  exact ⟨by rw [hrecord.1], by rw [hrecord.1], hrecord.2⟩

/-- A launch, also one that fails, is the last start. -/
theorem launch_restarts {pid : Option PID} (h : s.launch o name = some (s', pid)) :
    (s'.processes name).restartCount = (s.processes name).restartCount ∧
      (s'.processes name).lastStartTime = s.clock ∧ s'.clock = s.clock := by
  unfold launch at h
  dsimp only at h
  split at h
  · cases h
    rw [modify_processes_self, modify_processes_self]
    exact ⟨ProcessInfo.enter_restartCount _ _, rfl, rfl⟩
  · split_ifs at h
    cases h
    dsimp only
    rw [modify_processes_self, modify_processes_self]
    exact ⟨ProcessInfo.enter_restartCount _ _, rfl, rfl⟩

theorem sameRestarts_startStep {spc : StartPc} {started : Started}
    (h : s.startStep L o n spc = some (s', started)) (hlaunch : n = name → spc ≠ .launch)
    (hcheck : n = name → spc ≠ .checkStopping) : SameRestarts name s s' := by
  cases spc with
  | launch =>
    simp only [startStep] at h
    split at h
    · cases h
    · rename_i hl
      cases h
      exact sameRestarts_launch hl fun hn => hlaunch hn rfl
    · rename_i hl
      cases h
      exact (sameRestarts_launch hl fun hn => hlaunch hn rfl).trans (sameRestarts_unlock _)
  | oneshotWait pid =>
    cases h
    exact ⟨rfl, rfl, rfl⟩
  | oneshotDone exitCode =>
    apply SameRestarts.of_lock h
    intro s₁ h
    have hdone : SameRestarts name s₁ _ :=
      sameRestarts_modify s₁ n (f := fun proc => { proc with lastExitCode := exitCode, pid := 0 })
        (fun _ => rfl) fun _ => rfl
    split_ifs at h
    · cases h
      apply hdone.trans
      apply sameRestarts_modify <;> exact fun _ => rfl
    · cases h
      apply hdone.trans
      apply sameRestarts_modify <;> exact fun _ => rfl
  | waitForReady =>
    apply SameRestarts.of_lock h
    intro s₁ h
    have hstop : SameRestarts name s₁
        (if 0 < (s₁.processes n).pid then s₁.stopProcess o n else s₁) := by
      split_ifs
      · exact sameRestarts_stopProcess s₁ n
      · exact .refl s₁
    split_ifs at h
    · cases h
      exact sameRestarts_unlock s₁
    · cases h
      apply sameRestarts_modify <;> exact fun _ => rfl
    all_goals
      split_ifs at h hstop
    all_goals
      cases h
    · exact hstop
    · exact hstop.trans (sameRestarts_giveUp _ n)
    · exact hstop
    · exact hstop.trans (sameRestarts_giveUp _ n)
  | afterRun =>
    apply SameRestarts.of_lock h
    intro s₁ h
    cases h
    apply sameRestarts_modify <;> exact fun _ => rfl
  | checkStopping =>
    simp only [startStep] at h
    split_ifs at h
    · cases h
      exact (sameRestarts_modify_of_ne s _ fun hn => hcheck hn rfl).trans (sameRestarts_unlock _)
    · cases h
      exact sameRestarts_giveUp s n
  | backoff =>
    simp only [startStep] at h
    split_ifs at h <;> (cases h; exact .refl s)
  | cancelled =>
    apply SameRestarts.of_lock h
    intro s₁ h
    cases h
    apply sameRestarts_modify <;> exact fun _ => rfl
  | checkCancelled =>
    apply SameRestarts.of_lock h
    intro s₁ h
    split_ifs at h
    · cases h
      apply sameRestarts_modify <;> exact fun _ => rfl
    · cases h
      exact .refl _

/-- A new attempt is counted, and only allowed by the count. -/
theorem checkStopping_restarts {started : Started}
    (h : s.startStep L o name .checkStopping = some (s', started)) :
    SameRestarts name s s' ∧ started = .returns false ∨
      (L.conf name).allows (s.processes name).restartCount = true ∧
        (s'.processes name).restartCount = (s.processes name).restartCount + 1 ∧
        (s'.processes name).lastStartTime = (s.processes name).lastStartTime ∧
        s'.clock = s.clock ∧ started = .goesOn .backoff := by
  simp only [startStep] at h
  split_ifs at h with hallows
  · cases h
    refine .inr ⟨hallows.2, ?_, ?_, rfl, rfl⟩ <;> simp
  · cases h
    exact .inl ⟨sameRestarts_giveUp s name, rfl⟩

theorem owed_startStep {spc spc' : StartPc} {after : After} (retry : Bool)
    (h : s.startStep L o n spc = some (s', .goesOn spc')) (hcheck : n = name → spc ≠ .checkStopping) :
    Place.owed name ⟨.starting n spc' after, spc = .checkCancelled⟩ ≤
      Place.owed name ⟨.starting n spc after, retry⟩ := by
  cases spc with
  | launch =>
    simp only [startStep] at h
    split at h
    · cases h
    · cases h
    · cases h
      split_ifs <;> exact Nat.zero_le _
  | oneshotWait pid =>
    cases h
    exact Nat.zero_le _
  | oneshotDone exitCode =>
    obtain ⟨s₁, -, h⟩ := Option.bind_eq_some_iff.mp h
    split_ifs at h <;> cases h
  | waitForReady =>
    obtain ⟨s₁, -, h⟩ := Option.bind_eq_some_iff.mp h
    split_ifs at h <;> cases h
    all_goals exact Nat.zero_le _
  | afterRun =>
    obtain ⟨s₁, -, h⟩ := Option.bind_eq_some_iff.mp h
    cases h
  | checkStopping =>
    simp only [startStep] at h
    split_ifs at h <;> cases h
    simp only [Place.owed]
    rw [if_neg fun hn => hcheck hn rfl]
  | backoff =>
    simp only [startStep] at h
    split_ifs at h
    · cases h
      exact Nat.zero_le _
    · cases h
      exact Nat.le_refl _
    · cases h
      exact Nat.le_refl _
  | cancelled =>
    obtain ⟨s₁, -, h⟩ := Option.bind_eq_some_iff.mp h
    cases h
  | checkCancelled =>
    obtain ⟨s₁, -, h⟩ := Option.bind_eq_some_iff.mp h
    split_ifs at h
    · cases h
    · cases h
      simp [Place.owed, Place.relaunches]

/-- Who has asked for a start does not change while it goes on. -/
theorem operator_starting (spc : StartPc) {spc' : StartPc} {after : After}
    (hop : ¬(Pc.starting n spc after).Operator) : ¬(Pc.starting n spc' after).Operator := by
  cases after with
  | startAll reload procs groups => cases reload <;> exact hop
  | single | restartAll | restartEach | exits | healths => exact hop

theorem not_operator_resume {ok : Bool} {after : After}
    (h : s.resume L n ok after = (s', pc')) (hop : ¬(Pc.starting n .launch after).Operator) :
    SameRestarts name s s' ∧ ¬pc'.Operator ∧ ∀ retry, Place.owed name ⟨pc', retry⟩ = 0 := by
  cases after with
  | startAll reload procs groups =>
    cases reload with
    | true => exact absurd trivial hop
    | false =>
      simp only [resume] at h
      split_ifs at h
      · cases h
        exact ⟨sameRestarts_unlock s, id, fun _ => rfl⟩
      · cases h
        exact ⟨.refl s, id, fun _ => rfl⟩
  | exits | healths =>
    cases h
    exact ⟨sameRestarts_unlock s, id, fun _ => rfl⟩
  | single | restartAll | restartEach => exact absurd trivial hop

/-- A thread that starts nothing and has not been asked to leaves the counters. -/
theorem run_of_not_starts (h : s.run L o pc = some (s', pc')) (hop : ¬pc.Operator)
    (hstarts : ¬pc.Starts) : SameRestarts name s s' ∧ ¬pc'.Operator ∧ ¬pc'.Starts := by
  cases pc with
  | idle => cases h
  | stopAllSet | stopAllDone | stopAllLoad | stopAllRestore _ | stopAllLeave | requestStopping =>
    cases h
    exact ⟨⟨rfl, rfl, rfl⟩, id, id⟩
  | stopAllWait =>
    simp only [run] at h
    split_ifs at h <;> (cases h; exact ⟨.refl s, id, id⟩)
  | stopAllExchange | stopAllExchangeAgain =>
    simp only [run] at h
    split_ifs at h <;> (cases h; exact ⟨⟨rfl, rfl, rfl⟩, id, id⟩)
  | stopCollect reload =>
    cases reload with
    | true => exact absurd trivial hop
    | false =>
      obtain ⟨s₁, hlock, h⟩ := Option.bind_eq_some_iff.mp h
      cases h
      refine ⟨(sameRestarts_lock hlock).trans ?_, id, id⟩
      unfold markStopping
      refine ⟨?_, ?_, rfl⟩ <;> (simp only [unlock]; split_ifs)
      · exact ProcessInfo.enter_restartCount _ _
      · rfl
      · exact enter_lastStartTime _ _
      · rfl
  | stopTrees reload toStop =>
    cases reload with
    | true => exact absurd trivial hop
    | false =>
      cases toStop with
      | nil =>
        cases h
        exact ⟨.refl s, id, id⟩
      | cons item toStop =>
        cases h
        exact ⟨sameRestarts_stopProcessTree s _, id, id⟩
  | stopUpdate reload n toStop =>
    cases reload with
    | true => exact absurd trivial hop
    | false =>
      obtain ⟨s₁, hlock, h⟩ := Option.bind_eq_some_iff.mp h
      cases h
      refine ⟨((sameRestarts_lock hlock).trans ?_).trans (sameRestarts_unlock _), id, id⟩
      apply sameRestarts_modify
      · exact fun proc => proc.enter_restartCount _
      · exact fun proc => enter_lastStartTime proc _
  | joinMonitor =>
    simp only [run] at h
    split_ifs at h
    cases h
    exact ⟨.refl s, id, id⟩
  | starting | startAll | startGroups | startProcesses | monitorTop | monitorScan | monitorExits
    | exitStore | exitDelay | exitCheck | monitorHealths | monitorSleep =>
    exact absurd trivial hstarts
  | reloadMark | reloadReset | reloadCheck | bulkDone | restartCollect | restartMark | restartEach
    | restartStops | restartGet | restartTree | restartClear | restartStarts | restartReset =>
    exact absurd trivial hop

theorem begin_of_not_operator {c : Call} (h : s.begin L o c = some (s', pc')) (hop : ¬c.Operator) :
    SameRestarts name s s' ∧ ¬pc'.Operator ∧ (¬c.Starts → ¬pc'.Starts) ∧
      ∀ retry, Place.owed name ⟨pc', retry⟩ = 0 := by
  cases c with
  | startAll =>
    cases h
    exact ⟨.refl s, id, fun hstarts => absurd trivial hstarts, fun _ => rfl⟩
  | stopAll =>
    cases h
    split_ifs <;> exact ⟨⟨rfl, rfl, rfl⟩, id, fun _ => id, fun _ => rfl⟩
  | requestStop | cancelStartup =>
    cases h
    exact ⟨⟨rfl, rfl, rfl⟩, id, fun _ => id, fun _ => rfl⟩
  | stopProcess n =>
    simp only [begin] at h
    split_ifs at h
    · obtain ⟨s₁, hlock, h⟩ := Option.bind_eq_some_iff.mp h
      cases h
      refine ⟨?_, id, fun _ => id, fun _ => rfl⟩
      exact ((sameRestarts_lock hlock).trans (sameRestarts_stopProcess s₁ n)).trans
        (sameRestarts_unlock _)
    · cases h
      exact ⟨.refl s, id, fun _ => id, fun _ => rfl⟩
  | startMonitoring | stopMonitoring =>
    simp only [begin] at h
    split_ifs at h <;> (cases h; exact ⟨⟨rfl, rfl, rfl⟩, id, fun _ => id, fun _ => rfl⟩)
  | monitorLoop =>
    simp only [begin] at h
    split_ifs at h
    cases h
    exact ⟨⟨rfl, rfl, rfl⟩, id, fun hstarts => absurd trivial hstarts, fun _ => rfl⟩
  | restartAll | reloadAll | restartProcess | startProcess => exact absurd trivial hop

theorem handleExit_of_ne {exits : List (String × Int)} {healths : List String}
    (h : s.handleExit L n exits healths = (s', pc')) (hn : n ≠ name) :
    SameRestarts name s s' ∧ ∀ retry, Place.owed name ⟨pc', retry⟩ = 0 := by
  unfold handleExit at h
  dsimp only at h
  split_ifs at h <;> cases h
  · exact ⟨.refl s, fun _ => rfl⟩
  · refine ⟨?_, fun _ => if_neg hn⟩
    exact ((sameRestarts_modify_of_ne s _ hn).trans (sameRestarts_modify_of_ne _ _ hn)).trans
      (sameRestarts_unlock _)
  · refine ⟨?_, fun _ => if_neg hn⟩
    exact ((sameRestarts_modify_of_ne s _ hn).trans (sameRestarts_modify_of_ne _ _ hn)).trans
      (sameRestarts_unlock _)
  · exact ⟨sameRestarts_modify_of_ne s _ hn, fun _ => rfl⟩

/-- What an exit does to the counter: nothing when restarts are disabled, else it is what counts,
and one more if that allows a restart. -/
theorem handleExit_restarts {exits : List (String × Int)} {healths : List String}
    (h : s.handleExit L name exits healths = (s', pc')) (hdisabled : 0 ≤ (L.conf name).maxRestarts) :
    (s'.processes name).lastStartTime = (s.processes name).lastStartTime ∧ s'.clock = s.clock ∧
      ((s'.processes name).restartCount = s.countedRestarts L name ∧
          (∀ retry, Place.owed name ⟨pc', retry⟩ = 0) ∨
        (L.conf name).allows (s.countedRestarts L name) = true ∧
          (s'.processes name).restartCount = s.countedRestarts L name + 1 ∧
          ∀ retry, Place.owed name ⟨pc', retry⟩ = 1) := by
  unfold handleExit at h
  dsimp only at h
  rw [if_neg (Int.not_lt.mpr hdisabled)] at h
  split_ifs at h with hallows _
  · cases h
    exact ⟨by simp, rfl, .inr ⟨hallows, by simp, fun _ => if_pos rfl⟩⟩
  · cases h
    exact ⟨by simp, rfl, .inr ⟨hallows, by simp, fun _ => if_pos rfl⟩⟩
  · cases h
    exact ⟨by simp, rfl, .inl ⟨by simp, fun _ => rfl⟩⟩

end ProcessManager

open ProcessManager

/-- The window in the unit of the clock. -/
def LauncherConf.window (L : LauncherConf) : Nat := L.restartWindow_msec * 1000000

/-- How the record goes with what the history has, `owed` restarts being still to be done. -/
structure Limited (L : LauncherConf) (name : String) (s : ProcessManager) (h : RestartHistory)
    (owed : Nat) : Prop where
  counted : h.recent.length + owed ≤ (s.processes name).restartCount
  limited : 0 < (L.conf name).maxRestarts →
    (s.processes name).restartCount ≤ (L.conf name).maxRestarts
  disabled : (L.conf name).maxRestarts < 0 → (s.processes name).restartCount = 0 ∧ h.past = []
  started : ∀ r ∈ h.relaunches, r ≤ (s.processes name).lastStartTime
  elapsed : (s.processes name).lastStartTime ≤ s.clock
  apart : ∃ limit ≤ s.clock, (∀ r ∈ h.past, r + L.window < limit) ∧ ∀ r ∈ h.recent, limit ≤ r
  past : 0 < (L.conf name).maxRestarts →
    AtMostWithin (L.conf name).maxRestarts.toNat L.window h.past

namespace Limited

variable {s s' : ProcessManager} {h : RestartHistory} {owed owed' : Nat}

theorem relaunches (hs : Limited L name s h owed) (hmax : 0 < (L.conf name).maxRestarts) :
    AtMostWithin (L.conf name).maxRestarts.toNat L.window h.relaunches := by
  obtain ⟨limit, -, hbefore, hafter⟩ := hs.apart
  refine (hs.past hmax).append ?_ hbefore hafter
  have hcounted := hs.counted
  have hlimited := hs.limited hmax
  omega

theorem same (hs : Limited L name s h owed) (hsame : SameRestarts name s s') (howed : owed' ≤ owed) :
    Limited L name s' h owed' where
  counted := by
    rw [hsame.restartCount]
    exact Nat.le_trans (Nat.add_le_add_left howed _) hs.counted
  limited := by
    rw [hsame.restartCount]
    exact hs.limited
  disabled := by
    rw [hsame.restartCount]
    exact hs.disabled
  started := by
    rw [hsame.lastStartTime]
    exact hs.started
  elapsed := by
    rw [hsame.lastStartTime, hsame.clock]
    exact hs.elapsed
  apart := by
    rw [hsame.clock]
    exact hs.apart
  past := hs.past

theorem tick (hs : Limited L name s h owed) (nsec : Nat) :
    Limited L name { s with clock := s.clock + nsec } h owed where
  counted := hs.counted
  limited := hs.limited
  disabled := hs.disabled
  started := hs.started
  elapsed := Nat.le_add_right_of_le hs.elapsed
  apart := by
    obtain ⟨limit, hlimit, hapart⟩ := hs.apart
    exact ⟨limit, Nat.le_add_right_of_le hlimit, hapart⟩
  past := hs.past

theorem launch {pid : Option PID} (hs : Limited L name s h owed)
    (hl : s.launch o name = some (s', pid)) : Limited L name s' h owed := by
  obtain ⟨hcount, hstart, hclock⟩ := launch_restarts hl
  constructor
  · rw [hcount]
    exact hs.counted
  · rw [hcount]
    exact hs.limited
  · rw [hcount]
    exact hs.disabled
  · rw [hstart]
    exact fun r hr => Nat.le_trans (hs.started r hr) hs.elapsed
  · rw [hstart, hclock]
  · rw [hclock]
    exact hs.apart
  · exact hs.past

/-- A restart that was owed is done. -/
theorem relaunch {pid : Option PID} (hs : Limited L name s h (owed + 1))
    (hl : s.launch o name = some (s', pid)) : Limited L name s' (h.relaunch s.clock) owed := by
  obtain ⟨hcount, hstart, hclock⟩ := launch_restarts hl
  constructor
  · rw [hcount, RestartHistory.relaunch, List.length_cons, Nat.add_right_comm]
    exact hs.counted
  · rw [hcount]
    exact hs.limited
  · rw [hcount]
    exact hs.disabled
  · intro r hr
    rw [hstart]
    cases List.mem_cons.mp hr with
    | inl hr => rw [hr]
    | inr hr => exact Nat.le_trans (hs.started r hr) hs.elapsed
  · rw [hstart, hclock]
  · obtain ⟨limit, hlimit, hbefore, hafter⟩ := hs.apart
    refine ⟨limit, by rwa [hclock], hbefore, fun r hr => ?_⟩
    cases List.mem_cons.mp hr with
    | inl hr => rwa [hr]
    | inr hr => exact hafter r hr
  · exact hs.past

theorem count (hs : Limited L name s h 0)
    (hallows : (L.conf name).allows (s.processes name).restartCount = true)
    (hcount : (s'.processes name).restartCount = (s.processes name).restartCount + 1)
    (hstart : (s'.processes name).lastStartTime = (s.processes name).lastStartTime)
    (hclock : s'.clock = s.clock) : Limited L name s' h 1 := by
  have hallows : (L.conf name).maxRestarts = 0 ∨
      (s.processes name).restartCount < (L.conf name).maxRestarts := by
    simpa [ProcessConf.allows] using hallows
  constructor
  · rw [hcount]
    exact Nat.succ_le_succ hs.counted
  · intro hmax
    rw [hcount]
    omega
  · intro hmax
    omega
  · rw [hstart]
    exact hs.started
  · rw [hstart, hclock]
    exact hs.elapsed
  · rw [hclock]
    exact hs.apart
  · exact hs.past

/-- The counter starts anew.  All the restarts are then more than a window ago. -/
theorem forget (hs : Limited L name s h owed) (hforgets : s.forgets L name)
    (hcount : (s'.processes name).restartCount = 0)
    (hstart : (s'.processes name).lastStartTime = (s.processes name).lastStartTime)
    (hclock : s'.clock = s.clock) : Limited L name s' h.forget 0 := by
  constructor
  · exact Nat.zero_le _
  · rw [hcount]
    exact fun hmax => Int.le_of_lt hmax
  · exact fun hmax => absurd hforgets.2.1 (Int.not_le.mpr hmax)
  · rw [hstart]
    exact fun r hr => hs.started r hr
  · rw [hstart, hclock]
    exact hs.elapsed
  · refine ⟨s'.clock, Nat.le_refl _, fun r hr => ?_, nofun⟩
    have hr : r ≤ (s.processes name).lastStartTime := hs.started r hr
    have hwindow := hforgets.2.2
    rw [hclock, LauncherConf.window]
    omega
  · exact hs.relaunches

end Limited

section Run

variable {s s' : ProcessManager} {h : RestartHistory} {pc' : Pc}

theorem retries_starting (spc : StartPc) (after : After) (retry : Bool) :
    (Move.run o).retries ⟨.starting n spc after, retry⟩ = (spc = .checkCancelled : Bool) := by
  cases spc <;> rfl

theorem observe_starting {spc : StartPc} (after : After) (retry : Bool)
    (hlaunch : n = name → spc ≠ .launch) :
    h.observe L name s (.run o) ⟨.starting n spc after, retry⟩ = h := by
  cases spc with
  | launch => exact if_neg fun hn => hlaunch hn.1 rfl
  | _ => rfl

/-- Where a start that has returned goes on, nothing is owed. -/
theorem limited_resume {ok : Bool} {after : After} {spc : StartPc} {owed : Nat}
    (hs : Limited L name s h owed) (hr : s.resume L n ok after = (s', pc'))
    (hop : ¬(Pc.starting n spc after).Operator) (retry : Bool) :
    Limited L name s' h (Place.owed name ⟨pc', retry⟩) ∧ ¬pc'.Operator := by
  obtain ⟨hsame, hop', howed⟩ : SameRestarts name s s' ∧ _ :=
    not_operator_resume hr (operator_starting spc hop)
  refine ⟨hs.same hsame ?_, hop'⟩
  rw [howed]
  exact Nat.zero_le _

theorem limited_launch {after : After} {retry : Bool} {pid : Option PID}
    (hs : Limited L name s h (Place.owed name ⟨.starting name .launch after, retry⟩))
    (hl : s.launch o name = some (s', pid)) :
    Limited L name s' (h.observe L name s (.run o) ⟨.starting name .launch after, retry⟩) 0 := by
  simp only [Place.owed, RestartHistory.observe, true_and] at hs ⊢
  by_cases hrelaunches : Place.relaunches retry after = true
  · rw [if_pos hrelaunches] at hs ⊢
    exact hs.relaunch hl
  · rw [if_neg hrelaunches] at hs ⊢
    exact hs.launch hl

theorem limited_starting {spc : StartPc} {after : After} {retry : Bool}
    (hs : Limited L name s h (Place.owed name ⟨.starting n spc after, retry⟩))
    (hrun : s.run L o (.starting n spc after) = some (s', pc'))
    (hop : ¬(Pc.starting n spc after).Operator) :
    Limited L name s' (h.observe L name s (.run o) ⟨.starting n spc after, retry⟩)
        (Place.owed name ⟨pc', (Move.run o).retries ⟨.starting n spc after, retry⟩⟩) ∧
      ¬pc'.Operator := by
  obtain ⟨⟨s₁, started⟩, hstep, hr⟩ := Option.map_eq_some_iff.mp hrun
  have hop' (spc' : StartPc) : ¬(Pc.starting n spc' after).Operator := operator_starting spc hop
  rw [retries_starting]
  by_cases hlaunch : n = name ∧ spc = .launch
  · obtain ⟨rfl, rfl⟩ := hlaunch
    simp only [ProcessManager.startStep] at hstep
    split at hstep
    · cases hstep
    · rename_i hl
      cases hstep
      exact limited_resume (limited_launch hs hl) (Option.some.inj (congrArg some hr)) hop _
    · rename_i hl
      cases hstep
      cases hr
      refine ⟨(limited_launch hs hl).same (sameRestarts_unlock _) ?_, hop' _⟩
      split_ifs <;> exact Nat.le_refl _
  · have hlaunch : n = name → spc ≠ .launch := fun hn hspc => hlaunch ⟨hn, hspc⟩
    rw [observe_starting after retry hlaunch]
    by_cases hcheck : n = name ∧ spc = .checkStopping
    · obtain ⟨rfl, rfl⟩ := hcheck
      rcases checkStopping_restarts hstep with ⟨hsame, rfl⟩ | ⟨hallows, hcount, hstart, hclock, rfl⟩
      · exact limited_resume (hs.same hsame (Nat.le_refl _)) hr hop _
      · cases hr
        refine ⟨?_, hop' _⟩
        rw [Place.owed, if_pos rfl]
        exact hs.count hallows hcount hstart hclock
    · have hcheck : n = name → spc ≠ .checkStopping := fun hn hspc => hcheck ⟨hn, hspc⟩
      have hsame := sameRestarts_startStep hstep hlaunch hcheck
      cases started with
      | goesOn spc' =>
        cases hr
        exact ⟨hs.same hsame (owed_startStep retry hstep hcheck), hop' _⟩
      | returns ok => exact limited_resume (hs.same hsame (Nat.le_refl _)) hr hop _

theorem limited_exit {exitCode : Int} {exits : List (String × Int)} {healths : List String}
    {retry : Bool} (hs : Limited L name s h 0)
    (hrun : s.run L o (.monitorExits ((name, exitCode) :: exits) healths) = some (s', pc')) :
    Limited L name s'
      (h.observe L name s (.run o) ⟨.monitorExits ((name, exitCode) :: exits) healths, retry⟩)
      (Place.owed name ⟨pc', false⟩) := by
  obtain ⟨s₁, hlock, hrun⟩ := Option.bind_eq_some_iff.mp hrun
  have hsame : SameRestarts name s (s₁.exited name exitCode) := by
    apply (sameRestarts_lock hlock).trans
    apply sameRestarts_modify <;> exact fun _ => rfl
  have hstopping : (s₁.exited name exitCode).stopping = s.stopping := by
    rw [(lock_eq_some.mp hlock).2]
    rfl
  dsimp only at hrun
  generalize s₁.exited name exitCode = s₂ at hrun hsame hstopping
  simp only [RestartHistory.observe, true_and]
  have hs₂ : Limited L name s₂ h 0 := hs.same hsame (Nat.le_refl _)
  split_ifs at hrun with hstops
  · cases hrun
    rw [if_neg]
    · exact hs₂.same (sameRestarts_unlock s₂) (Nat.le_refl _)
    · exact fun hforgets => nomatch (hstopping.trans hforgets.1).symm.trans hstops
  · have hrun := Option.some.inj hrun
    by_cases hdisabled : (L.conf name).maxRestarts < 0
    · simp only [handleExit, if_pos hdisabled] at hrun
      cases hrun
      rw [if_neg]
      · exact hs₂
      · exact fun hforgets => absurd hforgets.2.1 (Int.not_le.mpr hdisabled)
    · obtain ⟨hstart, hclock, hcount⟩ := handleExit_restarts hrun (Int.not_lt.mp hdisabled)
      -- the record between the look at the window and the new count
      let s₃ := s₂.modify name fun proc => { proc with restartCount := s₂.countedRestarts L name }
      have hs₃ : Limited L name s₃ (if s.forgets L name then h.forget else h) 0 := by
        by_cases hwindow :
            L.restartWindow_msec < (s₂.clock - (s₂.processes name).lastStartTime) / 1000000
        · have hforgets₂ : s₂.forgets L name :=
            ⟨Bool.eq_false_of_not_eq_true hstops, Int.not_lt.mp hdisabled, hwindow⟩
          rw [if_pos]
          · apply hs₂.forget hforgets₂
            · simp [s₃, countedRestarts, hwindow]
            · simp [s₃]
            · rfl
          · refine ⟨hstopping ▸ hforgets₂.1, hforgets₂.2.1, ?_⟩
            rw [← hsame.lastStartTime, ← hsame.clock]
            exact hwindow
        · rw [if_neg]
          · refine hs₂.same ⟨?_, ?_, rfl⟩ (Nat.le_refl _)
            · simp [s₃, countedRestarts, hwindow]
            · simp [s₃]
          · intro hforgets
            apply hwindow
            rw [hsame.lastStartTime, hsame.clock]
            exact hforgets.2.2
      have hcount₃ : (s₃.processes name).restartCount = s₂.countedRestarts L name := by simp [s₃]
      have hstart₃ : (s₃.processes name).lastStartTime = (s₂.processes name).lastStartTime := by
        simp [s₃]
      rcases hcount with ⟨hcount, howed⟩ | ⟨hallows, hcount, howed⟩
      · rw [howed]
        exact hs₃.same ⟨hcount.trans hcount₃.symm, hstart.trans hstart₃.symm, hclock⟩ (Nat.le_refl _)
      · rw [howed]
        apply hs₃.count
        · rwa [hcount₃]
        · rw [hcount₃, hcount]
        · rw [hstart₃, hstart]
        · exact hclock

theorem owed_of_not_starts {p : Place} (hstarts : ¬p.pc.Starts) : p.owed name = 0 := by
  obtain ⟨pc, retry⟩ := p
  cases pc with
  | starting | exitDelay | exitCheck => exact absurd trivial hstarts
  | _ => rfl

theorem observe_of_not_starts {p : Place} (hstarts : ¬p.pc.Starts) :
    h.observe L name s (.run o) p = h := by
  obtain ⟨pc, retry⟩ := p
  cases pc with
  | starting | monitorExits => exact absurd trivial hstarts
  | _ => rfl

theorem limited_monitorExits {exits : List (String × Int)} {healths : List String} {retry : Bool}
    (hs : Limited L name s h 0) (hrun : s.run L o (.monitorExits exits healths) = some (s', pc')) :
    Limited L name s' (h.observe L name s (.run o) ⟨.monitorExits exits healths, retry⟩)
      (Place.owed name ⟨pc', false⟩) := by
  cases exits with
  | nil =>
    cases hrun
    exact hs
  | cons exit exits =>
    obtain ⟨n, exitCode⟩ := exit
    by_cases hn : n = name
    · subst hn
      exact limited_exit hs hrun
    · have hobserve :
          h.observe L name s (.run o) ⟨.monitorExits ((n, exitCode) :: exits) healths, retry⟩ = h :=
        if_neg fun hboth => hn hboth.1
      rw [hobserve]
      obtain ⟨s₁, hlock, hrun⟩ := Option.bind_eq_some_iff.mp hrun
      have hsame : SameRestarts name s (s₁.exited n exitCode) :=
        (sameRestarts_lock hlock).trans (sameRestarts_modify_of_ne _ _ hn)
      dsimp only at hrun
      split_ifs at hrun
      · cases hrun
        exact hs.same (hsame.trans (sameRestarts_unlock _)) (Nat.le_refl _)
      · obtain ⟨hsame', howed⟩ := handleExit_of_ne (Option.some.inj hrun) hn
        rw [howed]
        exact hs.same (hsame.trans hsame') (Nat.le_refl _)

theorem not_operator_monitorExits {exits : List (String × Int)} {healths : List String}
    (hrun : s.run L o (.monitorExits exits healths) = some (s', pc')) : ¬pc'.Operator := by
  cases exits with
  | nil =>
    cases hrun
    exact id
  | cons exit exits =>
    obtain ⟨s₁, -, hrun⟩ := Option.bind_eq_some_iff.mp hrun
    simp only [handleExit] at hrun
    split_ifs at hrun <;> (cases hrun; exact id)

/-- The other steps in which processes are started without an operator. -/
theorem run_of_starts {pc : Pc} (hrun : s.run L o pc = some (s', pc')) (hop : ¬pc.Operator)
    (hstarts : pc.Starts) (hstarting : ∀ n spc after, pc ≠ .starting n spc after)
    (hexits : ∀ exits healths, pc ≠ .monitorExits exits healths)
    (hhealths : ∀ healths, pc ≠ .monitorHealths (name :: healths)) (retry : Bool) :
    SameRestarts name s s' ∧ ¬pc'.Operator ∧
      Place.owed name ⟨pc', false⟩ ≤ Place.owed name ⟨pc, retry⟩ := by
  cases pc with
  | starting n spc after => exact absurd rfl (hstarting n spc after)
  | monitorExits exits healths => exact absurd rfl (hexits exits healths)
  | startAll reload =>
    cases reload with
    | true => exact absurd trivial hop
    | false =>
      obtain ⟨s₁, hlock, hrun⟩ := Option.bind_eq_some_iff.mp hrun
      have hsame : SameRestarts name s s₁ := sameRestarts_lock hlock
      split_ifs at hrun
      · cases hrun
        exact ⟨hsame.trans (sameRestarts_unlock _), id, Nat.le_refl _⟩
      · split at hrun <;> cases hrun
        · exact ⟨hsame.trans (sameRestarts_unlock _), id, Nat.le_refl _⟩
        · exact ⟨hsame, id, Nat.le_refl _⟩
  | startGroups reload groups =>
    cases reload with
    | true => exact absurd trivial hop
    | false =>
      cases groups with
      | nil =>
        cases hrun
        exact ⟨sameRestarts_unlock s, id, Nat.le_refl _⟩
      | cons procs groups =>
        simp only [run] at hrun
        split_ifs at hrun <;> cases hrun
        · exact ⟨sameRestarts_unlock s, id, Nat.le_refl _⟩
        · exact ⟨.refl s, id, Nat.le_refl _⟩
  | startProcesses reload procs groups =>
    cases reload with
    | true => exact absurd trivial hop
    | false =>
      cases procs with
      | nil =>
        cases hrun
        exact ⟨.refl s, id, Nat.le_refl _⟩
      | cons n procs =>
        simp only [run] at hrun
        split_ifs at hrun <;> cases hrun
        · exact ⟨.refl s, id, Nat.le_refl _⟩
        · exact ⟨.refl s, id, by simp [Place.owed, Place.relaunches, After.automatic]⟩
        · exact ⟨.refl s, id, Nat.le_refl _⟩
  | monitorTop =>
    simp only [run] at hrun
    split_ifs at hrun <;> (cases hrun; exact ⟨⟨rfl, rfl, rfl⟩, id, Nat.le_refl _⟩)
  | monitorScan =>
    obtain ⟨s₁, hlock, hrun⟩ := Option.bind_eq_some_iff.mp hrun
    cases hrun
    refine ⟨?_, id, Nat.le_refl _⟩
    exact ((sameRestarts_lock hlock).trans (sameRestarts_scan L.names s₁)).trans
      (sameRestarts_unlock _)
  | exitStore =>
    cases hrun
    exact ⟨⟨rfl, rfl, rfl⟩, id, Nat.le_refl _⟩
  | exitDelay n exits healths =>
    simp only [run] at hrun
    split_ifs at hrun <;> cases hrun
    · exact ⟨.refl s, id, Nat.zero_le _⟩
    · exact ⟨.refl s, id, Nat.le_refl _⟩
    · exact ⟨.refl s, id, Nat.le_refl _⟩
  | exitCheck n exits healths =>
    obtain ⟨s₁, hlock, hrun⟩ := Option.bind_eq_some_iff.mp hrun
    have hsame : SameRestarts name s s₁ := sameRestarts_lock hlock
    split_ifs at hrun <;> cases hrun
    · exact ⟨hsame.trans (sameRestarts_unlock _), id, Nat.zero_le _⟩
    · exact ⟨hsame, id, by simp [Place.owed, Place.relaunches, After.automatic]⟩
  | monitorHealths healths =>
    cases healths with
    | nil =>
      cases hrun
      exact ⟨.refl s, id, Nat.le_refl _⟩
    | cons n healths =>
      obtain ⟨s₁, hlock, hrun⟩ := Option.bind_eq_some_iff.mp hrun
      cases hrun
      refine ⟨?_, id, ?_⟩
      · apply ((sameRestarts_lock hlock).trans (sameRestarts_stopProcess s₁ n)).trans
        apply sameRestarts_modify <;> exact fun _ => rfl
      · have hn : n ≠ name := fun hn => hhealths healths (by rw [hn])
        simp [Place.owed, hn]
  | monitorSleep =>
    simp only [run] at hrun
    split_ifs at hrun <;> (cases hrun; exact ⟨⟨rfl, rfl, rfl⟩, id, Nat.le_refl _⟩)
  | _ => exact absurd hstarts id

/-- A step of a thread that starts processes without an operator. -/
theorem limited_run {p : Place} (hs : Limited L name s h (p.owed name))
    (hrun : s.run L o p.pc = some (s', pc')) (hop : ¬p.pc.Operator) (hstarts : p.pc.Starts)
    (hhealthy : ¬RestartsUnhealthy name (.run o) p.pc) :
    Limited L name s' (h.observe L name s (.run o) p)
        (Place.owed name ⟨pc', (Move.run o).retries p⟩) ∧ ¬pc'.Operator := by
  obtain ⟨pc, retry⟩ := p
  have hhealths (healths : List String) : pc ≠ .monitorHealths (name :: healths) := by
    intro hpc
    rw [hpc] at hhealthy
    exact hhealthy rfl
  cases pc with
  | starting n spc after => exact limited_starting hs hrun hop
  | monitorExits exits healths =>
    exact ⟨limited_monitorExits hs hrun, not_operator_monitorExits hrun⟩
  | _ =>
    obtain ⟨hsame, hop', howed⟩ :=
      run_of_starts hrun hop hstarts (fun _ _ _ => nofun) (fun _ _ => nofun) hhealths retry
    exact ⟨hs.same hsame howed, hop'⟩

end Run

variable {τ : Type} [DecidableEq τ]

/-- At most one thread starts processes, and what it owes is counted. -/
structure Watched (L : LauncherConf) (name : String) (t : ObservedThreads τ) : Prop where
  unasked : ∀ thread, ¬(t.locals thread).pc.Operator
  alone : ∀ thread other, (t.locals thread).pc.Starts → other ≠ thread →
    ¬(t.locals other).pc.Starts
  limited : Limited L name t.shared.1 t.shared.2 0
  owed : ∀ thread, Limited L name t.shared.1 t.shared.2 ((t.locals thread).owed name)

/-- A step by which the thread that takes it gets what `hthread` says, and the others owe no more
than before. -/
theorem Watched.update {t : ObservedThreads τ} {thread : τ} {s' : ProcessManager}
    {h' : RestartHistory} {p' : Place} (ht : Watched L name t)
    (hthread : Limited L name s' h' (p'.owed name)) (hop : ¬p'.pc.Operator)
    (halone : p'.pc.Starts → ∀ other, other ≠ thread → ¬(t.locals other).pc.Starts)
    (hothers : ∀ other, other ≠ thread → Limited L name s' h' ((t.locals other).owed name)) :
    Watched L name ⟨(s', h'), Function.update t.locals thread p'⟩ where
  unasked other := by
    by_cases hother : other = thread
    · simpa [hother] using hop
    · simpa [hother] using ht.unasked other
  alone first second hfirst hne := by
    dsimp only at hfirst ⊢
    by_cases hf : first = thread
    · subst hf
      rw [Function.update_self] at hfirst
      rw [Function.update_of_ne hne]
      exact halone hfirst second hne
    · rw [Function.update_of_ne hf] at hfirst
      by_cases hs : second = thread
      · subst hs
        rw [Function.update_self]
        exact fun hstarts => halone hstarts first hf hfirst
      · rw [Function.update_of_ne hs]
        exact ht.alone first second hfirst hne
  limited := hthread.same (.refl s') (Nat.zero_le _)
  owed other := by
    by_cases hother : other = thread
    · simpa [hother] using hthread
    · simpa [hother] using hothers other hother

theorem watched_step {t t' : ObservedThreads τ} {i : τ × Move} (ht : Watched L name t)
    (hguard : Unattended τ t i ∧ ¬RestartsUnhealthy name i.2 (t.locals i.1).pc)
    (hi : t.step (actObserved L name) i = some t') : Watched L name t' := by
  obtain ⟨thread, m⟩ := i
  obtain ⟨⟨s', h'⟩, p', hobserved, rfl⟩ := Threads.step_eq_some hi
  obtain ⟨⟨s₁, pc'⟩, hact, hresult⟩ := Option.map_eq_some_iff.mp hobserved
  cases hresult
  dsimp only at hact hguard ⊢
  cases m with
  | call c o =>
    cases hidle : (t.locals thread).pc with
    | idle =>
      rw [hidle] at hact
      obtain ⟨hsame, hop, hstarts, howed⟩ : SameRestarts name _ _ ∧ _ :=
        begin_of_not_operator hact hguard.1.1
      apply ht.update
      · exact ht.limited.same hsame (Nat.le_of_eq (howed _))
      · exact hop
      · intro hpc'
        apply hguard.1.2
        by_contra hc
        exact hstarts hc hpc'
      · exact fun other _ => (ht.owed other).same hsame (Nat.le_refl _)
    | _ =>
      rw [hidle] at hact
      cases hact
  | run o =>
    by_cases hstarts : (t.locals thread).pc.Starts
    · obtain ⟨hlimited, hop⟩ :=
        limited_run (ht.owed thread) hact (ht.unasked thread) hstarts hguard.2
      apply ht.update hlimited hop
      · exact fun _ other hother => ht.alone thread other hstarts hother
      · intro other hother
        rw [owed_of_not_starts (ht.alone thread other hstarts hother)]
        exact hlimited.same (.refl s₁) (Nat.zero_le _)
    · obtain ⟨hsame, hop, hstarts'⟩ : SameRestarts name _ _ ∧ _ :=
        run_of_not_starts hact (ht.unasked thread) hstarts
      rw [observe_of_not_starts hstarts]
      apply ht.update
      · rw [owed_of_not_starts hstarts']
        exact ht.limited.same hsame (Nat.le_refl _)
      · exact hop
      · exact fun hpc' => absurd hpc' hstarts'
      · exact fun other _ => (ht.owed other).same hsame (Nat.le_refl _)
  | exit pid =>
    cases hact
    have hsame : SameRestarts name t.shared.1 (t.shared.1.exit pid) := ⟨rfl, rfl, rfl⟩
    apply ht.update
    · exact (ht.owed thread).same hsame (Nat.le_refl _)
    · exact ht.unasked thread
    · exact fun hstarts other hother => ht.alone thread other hstarts hother
    · exact fun other _ => (ht.owed other).same hsame (Nat.le_refl _)
  | tick nsec =>
    cases hact
    apply ht.update
    · exact (ht.owed thread).tick nsec
    · exact ht.unasked thread
    · exact fun hstarts other hother => ht.alone thread other hstarts hother
    · exact fun other _ => (ht.owed other).tick nsec

theorem limited_new : Limited L name .new .new 0 where
  counted := Nat.le_refl _
  limited hmax := Int.le_of_lt hmax
  disabled _ := ⟨rfl, rfl⟩
  started := nofun
  elapsed := Nat.le_refl _
  apart := ⟨0, Nat.le_refl _, nofun, nofun⟩
  past _ := .nil

/-- As long as no process is started again after failed checks of its health, the automatic restarts
of a process keep to its limit in any window, there are none when they are disabled, and those
since the counter was last forgotten are in it. -/
theorem restarts_limited {t : ObservedThreads τ}
    (h : Reaches (Threads.step (actObserved L name))
      (fun t i => Unattended τ t i ∧ ¬RestartsUnhealthy name i.2 (t.locals i.1).pc)
      (ObservedThreads.new τ) t) :
    (0 < (L.conf name).maxRestarts →
      AtMostWithin (L.conf name).maxRestarts.toNat L.window t.shared.2.relaunches) ∧
    ((L.conf name).maxRestarts < 0 → t.shared.2.relaunches = []) ∧
    t.shared.2.recent.length ≤ (t.shared.1.processes name).restartCount := by
  have hwatched : Watched L name t := by
    refine h.invariant watched_step ?_
    exact ⟨fun _ => id, fun _ _ hstarts => absurd hstarts id, limited_new, fun _ => limited_new⟩
  have hlimited := hwatched.limited
  refine ⟨hlimited.relaunches, fun hdisabled => ?_, hlimited.counted⟩
  obtain ⟨hcount, hpast⟩ := hlimited.disabled hdisabled
  have hrecent : t.shared.2.recent.length ≤ 0 := hcount ▸ hlimited.counted
  rw [RestartHistory.relaunches, hpast, List.eq_nil_of_length_eq_zero (Nat.le_zero.mp hrecent)]
  rfl

/-- A daemon that ends once and is started again. -/
theorem restarts_limited_exit :
    ∃ t : ObservedThreads Unit, t.shared.2.relaunches = [1000] ∧
      AtMostWithin 2 60000000000 t.shared.2.relaunches ∧
      t.shared.2.recent.length ≤ (t.shared.1.processes "daemon").restartCount := by
  have hreach : Reaches
      (Threads.step (actObserved (.ofGroup { ProcessConf.default with maxRestarts := 2 }) "daemon"))
      (fun t i => Unattended Unit t i ∧ ¬RestartsUnhealthy "daemon" i.2 (t.locals i.1).pc)
      (ObservedThreads.new Unit) _ :=
    .head (i := ((), .call .startAll (.success 0))) ⟨⟨id, fun _ _ hother => absurd rfl hother⟩, id⟩ rfl <|
    .head (i := ((), .run (.success 0))) ⟨trivial, id⟩ rfl <|
    .head (i := ((), .run (.success 0))) ⟨trivial, id⟩ rfl <|
    .head (i := ((), .run (.success 0))) ⟨trivial, id⟩ rfl <|
    .head (i := ((), .run (.success 10))) ⟨trivial, id⟩ rfl <|
    .head (i := ((), .run (.success 10))) ⟨trivial, id⟩ rfl <|
    .head (i := ((), .run (.success 0))) ⟨trivial, id⟩ rfl <|
    .head (i := ((), .run (.success 0))) ⟨trivial, id⟩ rfl <|
    .head (i := ((), .call .startMonitoring (.success 0))) ⟨⟨id, nofun⟩, id⟩ rfl <|
    .head (i := ((), .call .monitorLoop (.success 0))) ⟨⟨id, fun _ _ hother => absurd rfl hother⟩, id⟩ rfl <|
    .head (i := ((), .exit 10)) ⟨trivial, id⟩ rfl <|
    .head (i := ((), .tick 1000)) ⟨trivial, id⟩ rfl <|
    .head (i := ((), .run (.success 0))) ⟨trivial, id⟩ rfl <|
    .head (i := ((), .run (.success 0))) ⟨trivial, id⟩ rfl <|
    .head (i := ((), .run (.success 0))) ⟨trivial, id⟩ rfl <|
    .head (i := ((), .run (.success 0))) ⟨trivial, id⟩ rfl <|
    .head (i := ((), .run (.success 0))) ⟨trivial, id⟩ rfl <|
    .head (i := ((), .run (.success 11))) ⟨trivial, id⟩ rfl <|
    .refl _
  obtain ⟨hlimit, -, hcounted⟩ := restarts_limited hreach
  exact ⟨_, rfl, hlimit (by decide), hcounted⟩

/-- A daemon that is never to be restarted, after one failed check of its health. -/
theorem restarts_not_limited :
    ∃ (L : LauncherConf) (t : ObservedThreads Unit),
      Reaches (Threads.step (actObserved L "daemon")) (Unattended Unit) (ObservedThreads.new Unit) t ∧
      (L.conf "daemon").maxRestarts = -1 ∧ t.shared.2.relaunches = [0] ∧
      (t.shared.1.processes "daemon").restartCount = 0 := by
  let L : LauncherConf := .ofGroup
    { ProcessConf.default with maxRestarts := -1, healthCheck := true, healthFailThreshold := 1 }
  let unhealthy : Outcome := { Outcome.success 0 with healthy := fun _ => false }
  have hreach : Reaches (Threads.step (actObserved L "daemon")) (Unattended Unit)
      (ObservedThreads.new Unit) _ :=
    .head (i := ((), .call .startAll (.success 0))) ⟨id, fun _ _ hother => absurd rfl hother⟩ rfl <|
    .head (i := ((), .run (.success 0))) trivial rfl <|
    .head (i := ((), .run (.success 0))) trivial rfl <|
    .head (i := ((), .run (.success 0))) trivial rfl <|
    .head (i := ((), .run (.success 10))) trivial rfl <|
    .head (i := ((), .run (.success 10))) trivial rfl <|
    .head (i := ((), .run (.success 0))) trivial rfl <|
    .head (i := ((), .run (.success 0))) trivial rfl <|
    .head (i := ((), .call .startMonitoring (.success 0))) ⟨id, nofun⟩ rfl <|
    .head (i := ((), .call .monitorLoop (.success 0))) ⟨id, fun _ _ hother => absurd rfl hother⟩ rfl <|
    .head (i := ((), .run (.success 0))) trivial rfl <|
    .head (i := ((), .run unhealthy)) trivial rfl <|
    .head (i := ((), .run (.success 0))) trivial rfl <|
    .head (i := ((), .run (.success 0))) trivial rfl <|
    .head (i := ((), .run (.success 11))) trivial rfl <|
    .refl _
  exact ⟨L, _, hreach, rfl, rfl, rfl⟩

end Uniset.Launcher
