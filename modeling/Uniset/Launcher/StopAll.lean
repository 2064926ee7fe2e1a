import Uniset.Launcher.RestartHistory

/-! What `stopAll` leaves in the table. -/

namespace Uniset.Launcher

open Uniset.Lib ProcessManager

/-- No process is there, and no thread is to end its state. -/
def ProcessInfo.Clean (proc : ProcessInfo) : Prop := proc.pid = 0 ∧ ¬proc.Transient

namespace ProcessManager

variable {L : LauncherConf} {s s' : ProcessManager} {o : Outcome} {name : String} {pc pc' : Pc}

theorem resume_keeps {ok : Bool} {after : After} (h : s.resume L name ok after = (s', pc')) :
    s'.processes = s.processes ∧ s'.currentBulkOp = s.currentBulkOp := by
  cases after <;> simp only [resume, endStartAll] at h <;> (try split_ifs at h) <;>
    (cases h; exact ⟨rfl, rfl⟩)

/-- Whatever becomes of a start, it leaves no state of an operation. -/
theorem not_transient_of_returns {pc : StartPc} {ok : Bool}
    (h : s.startStep L o name pc = some (s', .returns ok)) : ¬(s'.processes name).Transient := by
  cases pc with
  | launch =>
    simp only [startStep, launch] at h
    cases hpid : o.pid with
    | none =>
      rw [hpid] at h
      cases h
      simp [ProcessInfo.Transient]
    | some pid =>
      rw [hpid] at h
      dsimp only at h
      split_ifs at h <;> cases h
  | oneshotWait pid => cases h
  | backoff | checkStopping =>
    simp only [startStep] at h
    split_ifs at h <;> cases h
    try simp [giveUp, ProcessInfo.Transient]
  | oneshotDone _ | waitForReady | afterRun | cancelled | checkCancelled =>
    obtain ⟨s₁, -, h⟩ := Option.bind_eq_some_iff.mp h
    try dsimp only at h
    try split_ifs at h
    all_goals cases h
    all_goals simp [giveUp, ProcessInfo.Transient]

end ProcessManager

/-- The names that are still to be stopped; `none` before the table is looked at. -/
def Pc.toStop : Pc → Option (List String)
  | .stopAllSet | .stopAllExchange | .stopCollect false => none
  | .stopTrees false toStop => some (toStop.map Prod.fst)
  | .stopUpdate false name toStop => some (name :: toStop.map Prod.fst)
  | _ => some []

/-- Where a thread is that does `stopAll` and has not been kept from it. -/
def Pc.Stopping : Pc → Prop
  | .stopAllSet | .stopAllExchange | .stopCollect false | .stopTrees false _
    | .stopUpdate false _ _ | .stopAllDone | .stopAllLoad | .stopAllRestore _ | .stopAllLeave
    | .idle => True
  | _ => False

/-- No other bulk operation is to be waited for. -/
def Pc.Entering : Pc → Prop
  | .stopAllSet | .stopAllExchange => True
  | _ => False

/-- The process that the thread starts. -/
def Pc.starts : Pc → Option String
  | .starting name _ _ => some name
  | _ => none

/-- A start goes on, or it is over and leaves no state of an operation. -/
theorem starts_run {L : LauncherConf} {s s' : ProcessManager} {o : Outcome} {pc pc' : Pc} {name : String}
    (h : s.run L o pc = some (s', pc')) (hpc : pc.starts = some name) :
    pc'.starts = some name ∨ ¬(s'.processes name).Transient := by
  cases pc with
  | starting n spc after =>
    cases hpc
    simp only [run, Option.map_eq_some_iff] at h
    obtain ⟨⟨s₁, started⟩, hstart, h⟩ := h
    cases started with
    | goesOn spc =>
      cases h
      exact .inl rfl
    | returns ok =>
      rw [(resume_keeps h).1]
      exact .inr (not_transient_of_returns hstart)
  | _ => cases hpc

/-- Records change only by becoming `Failed`. -/
structure OnlyFails (s s' : ProcessManager) : Prop where
  currentBulkOp : s'.currentBulkOp = s.currentBulkOp
  processes : ∀ name, s'.processes name = s.processes name ∨
    (s'.processes name).state = .Failed ∧ (s'.processes name).pid = (s.processes name).pid

variable {τ : Type}

/-- While the thread does what it has begun, the others change the table only by giving up: a wait for
a restart that is cancelled, an exit that is noted. -/
def OthersFail [DecidableEq τ] (L : LauncherConf) (thread : τ) (t : LauncherThreads τ)
    (i : τ × Move) : Prop :=
  if i.1 = thread then ∀ c o, i.2 ≠ .call c o
  else ∀ t', t.step (act L) i = some t' → OnlyFails t.shared t'.shared

/-- A thread that waits to start a process once more gives up when it sees `stopping`. -/
theorem othersFail_of_waits [DecidableEq τ] {L : LauncherConf} {thread other : τ}
    {t : LauncherThreads τ} {o : Outcome} {name : String} {spc : StartPc} {after : After}
    (hother : other ≠ thread) (hpc : t.locals other = .starting name spc after)
    (hspc : spc = .backoff ∨ spc = .cancelled ∨ spc = .checkCancelled)
    (hstopping : t.shared.stopping = true) : OthersFail L thread t (other, .run o) := by
  rw [OthersFail, if_neg hother]
  intro t' ht'
  obtain ⟨s', pc', hact, rfl⟩ := Threads.step_eq_some ht'
  dsimp only at hact ⊢
  rw [hpc] at hact
  obtain ⟨⟨s₁, started⟩, hstart, hact⟩ := Option.map_eq_some_iff.mp hact
  have hfails : OnlyFails t.shared s₁ := by
    rcases hspc with rfl | rfl | rfl
    · simp only [startStep, if_pos hstopping] at hstart
      cases hstart
      exact ⟨rfl, fun _ => .inl rfl⟩
    all_goals
      obtain ⟨s₂, hlock, hstart⟩ := Option.bind_eq_some_iff.mp hstart
      obtain rfl := (lock_eq_some.mp hlock).2
      try rw [if_pos (by exact hstopping)] at hstart
      cases hstart
      refine ⟨rfl, fun n => ?_⟩
      by_cases hn : n = name
      · rw [hn, modify_processes_self]
        exact .inr ⟨rfl, rfl⟩
      · exact .inl (modify_processes_of_ne hn)
  cases started with
  | goesOn spc =>
    cases hact
    exact hfails
  | returns ok =>
    obtain ⟨hprocesses, hbulk⟩ := resume_keeps hact
    exact ⟨hbulk.trans hfails.currentBulkOp, hprocesses ▸ hfails.processes⟩

namespace LauncherThreads

/-- Some thread other than that which stops all is starting the process. -/
def Starts (thread : τ) (t : LauncherThreads τ) (name : String) : Prop :=
  ∃ other, other ≠ thread ∧ (t.locals other).starts = some name

/-- What runs is in the stop order; and in a state of an operation are only processes that run, in no
restart, and such as a thread is starting. -/
def Stoppable (L : LauncherConf) (thread : τ) (t : LauncherThreads τ) : Prop :=
  ∀ name ∈ L.names,
    (0 < (t.shared.processes name).pid → name ∈ L.stopOrder) ∧
    ((t.shared.processes name).Transient → t.Starts thread name ∨
      0 < (t.shared.processes name).pid ∧ (t.shared.processes name).state ≠ .Restarting)

/-- The table on the way to where all is stopped. -/
def OnTheWay (L : LauncherConf) (thread : τ) (t : LauncherThreads τ) : Option (List String) → Prop
  | none => t.Stoppable L thread
  | some names => ∀ name ∈ L.names,
    (0 < (t.shared.processes name).pid → name ∈ names) ∧
    ((t.shared.processes name).Transient → t.Starts thread name ∨
      (t.shared.processes name).state = .Stopping ∧ name ∈ names)

/-- A thread that does `stopAll`. -/
structure StopsAll (L : LauncherConf) (thread : τ) (t : LauncherThreads τ) (pc : Pc) : Prop where
  stopping : pc.Stopping
  free : pc.Entering → t.shared.currentBulkOp = .None
  table : t.OnTheWay L thread pc.toStop

variable {L : LauncherConf} {thread : τ} {t : LauncherThreads τ} {s' : ProcessManager}
  {locals' : τ → Pc} {pc pc' : Pc} {o : Outcome} {toStop : Option (List String)}

theorem OnTheWay.next (h : t.OnTheWay L thread toStop)
    (hstarts : ∀ name, t.Starts thread name →
      Starts thread ⟨s', locals'⟩ name ∨ ¬(s'.processes name).Transient)
    (hrecord : ∀ name, s'.processes name = t.shared.processes name ∨
      (s'.processes name).state = .Failed ∧ (s'.processes name).pid = (t.shared.processes name).pid) :
    OnTheWay L thread ⟨s', locals'⟩ toStop := by
  cases toStop <;> intro name hname <;> obtain ⟨hpid, hstate⟩ := h name hname <;> dsimp only
  all_goals
    rcases hrecord name with hsame | ⟨hfailed, hsame⟩
    · rw [hsame]
      refine ⟨hpid, fun htransient => (hstate htransient).elim (fun h => ?_) .inr⟩
      exact .inl ((hstarts name h).resolve_right fun hnot => hnot (hsame ▸ htransient))
    · rw [hsame]
      exact ⟨hpid, fun htransient => absurd htransient (by simp [ProcessInfo.Transient, hfailed])⟩

/-- Once more of the same record, its process having been stopped. -/
theorem onTheWay_update {name : String} {names : List String}
    (h : t.OnTheWay L thread (some (name :: names)))
    (hlocals : ∀ name, t.Starts thread name → Starts thread ⟨s', locals'⟩ name)
    (hs' : s'.processes =
      (t.shared.modify name fun proc => { proc.enter .Stopped with pid := 0 }).processes) :
    OnTheWay L thread ⟨s', locals'⟩ (some names) := by
  intro n hn
  obtain ⟨hpid, hstate⟩ := h n hn
  dsimp only
  rw [hs']
  by_cases hname : n = name
  · subst hname
    rw [modify_processes_self]
    refine ⟨fun hpos => absurd hpos (lt_irrefl 0), fun htransient => .inl (hlocals n ?_)⟩
    unfold ProcessInfo.Transient ProcessInfo.enter at htransient
    split_ifs at htransient with hrestarting
    · refine (hstate (.inr (.inl hrestarting))).resolve_right fun hstopping => ?_
      rw [hrestarting] at hstopping
      cases hstopping.1
    · simp at htransient
  · rw [modify_processes_of_ne hname]
    have hmem : n ∈ name :: names → n ∈ names := fun h => (List.mem_cons.mp h).resolve_left hname
    exact ⟨fun hpos => hmem (hpid hpos),
      fun htransient => (hstate htransient).imp (hlocals n) (And.imp_right hmem)⟩

theorem onTheWay_collect (h : t.Stoppable L thread)
    (hlocals : ∀ name, t.Starts thread name → Starts thread ⟨s', locals'⟩ name)
    (hs' : s'.processes = (t.shared.markStopping L).processes) :
    OnTheWay L thread ⟨s', locals'⟩ (some ((t.shared.toStop L).map Prod.fst)) := by
  intro name hname
  obtain ⟨horder, hstate⟩ := h name hname
  have hmem (hpos : 0 < (t.shared.processes name).pid) : name ∈ (t.shared.toStop L).map Prod.fst :=
    List.mem_map.mpr ⟨_, mem_toStop.mpr ⟨horder hpos, hpos, rfl⟩, rfl⟩
  dsimp only
  rw [hs', markStopping]
  dsimp only
  split_ifs with hcollected
  · refine ⟨fun _ => hmem hcollected.2, fun htransient => ?_⟩
    unfold ProcessInfo.enter at htransient ⊢
    split_ifs at htransient ⊢ with hrestarting
    · exact .inl (hlocals name ((hstate htransient).resolve_right fun h => h.2 hrestarting))
    · exact .inr ⟨rfl, hmem hcollected.2⟩
  · refine ⟨hmem, fun htransient => .inl (hlocals name ?_)⟩
    exact (hstate htransient).resolve_right fun h => hcollected ⟨horder h.1, h.1⟩

theorem stopsAll_run (h : t.shared.run L o pc = some (s', pc')) (hs : StopsAll L thread t pc)
    (hlocals : ∀ other, other ≠ thread → locals' other = t.locals other) :
    StopsAll L thread ⟨s', locals'⟩ pc' := by
  obtain ⟨hstopping, hfree, htable⟩ := hs
  have hstarts {s' : ProcessManager} (name : String) (h : t.Starts thread name) :
      Starts thread ⟨s', locals'⟩ name := by
    obtain ⟨other, hother, hname⟩ := h
    exact ⟨other, hother, (congrArg Pc.starts (hlocals other hother)).trans hname⟩
  have hsame {s' : ProcessManager} (hprocesses : s'.processes = t.shared.processes) :
      OnTheWay L thread ⟨s', locals'⟩ pc.toStop :=
    htable.next (fun name h => .inl (hstarts name h)) fun name => .inl (congrFun hprocesses name)
  cases pc with
  | idle => cases h
  | stopAllSet =>
    cases h
    exact ⟨trivial, hfree, hsame rfl⟩
  | stopAllExchange =>
    simp only [run] at h
    rw [if_pos (hfree trivial)] at h
    cases h
    exact ⟨trivial, False.elim, hsame rfl⟩
  | stopCollect reload =>
    cases reload with
    | true => cases hstopping
    | false =>
      obtain ⟨s₁, hlock, h⟩ := Option.bind_eq_some_iff.mp h
      cases h
      rw [(lock_eq_some.mp hlock).2]
      exact ⟨trivial, False.elim, onTheWay_collect htable hstarts rfl⟩
  | stopTrees reload toStop =>
    cases reload with
    | true => cases hstopping
    | false =>
      cases toStop with
      | nil =>
        cases h
        exact ⟨trivial, False.elim, hsame rfl⟩
      | cons item toStop =>
        cases h
        refine ⟨trivial, False.elim, hsame ?_⟩
        unfold stopProcessTree
        split_ifs <;> rfl
  | stopUpdate reload name toStop =>
    cases reload with
    | true => cases hstopping
    | false =>
      obtain ⟨s₁, hlock, h⟩ := Option.bind_eq_some_iff.mp h
      cases h
      rw [(lock_eq_some.mp hlock).2]
      exact ⟨trivial, False.elim, onTheWay_update htable hstarts rfl⟩
  | stopAllDone | stopAllLoad | stopAllRestore _ | stopAllLeave =>
    cases h
    exact ⟨trivial, False.elim, hsame rfl⟩
  | _ => cases hstopping

/-- A thread that is starting a process goes on with it, or the start is over. -/
theorem starts_act {m : Move} {s : ProcessManager} {name : String}
    (h : act L m s pc = some (s', pc')) (hpc : pc.starts = some name) :
    pc'.starts = some name ∨ ¬(s'.processes name).Transient := by
  cases m with
  | run o => exact starts_run h hpc
  | exit pid | tick nsec =>
    cases h
    exact .inl hpc
  | call c o =>
    cases pc with
    | starting => cases h
    | _ => cases hpc

variable [DecidableEq τ]

theorem stopsAll_step {t' : LauncherThreads τ} {i : τ × Move}
    (ht : StopsAll L thread t (t.locals thread)) (hothers : OthersFail L thread t i)
    (hi : t.step (act L) i = some t') : StopsAll L thread t' (t'.locals thread) := by
  unfold OthersFail at hothers
  obtain ⟨j, m⟩ := i
  obtain ⟨s', pc', hact, rfl⟩ := Threads.step_eq_some hi
  split_ifs at hothers with hthread
  · cases hthread
    have hlocals (other : τ) (hother : other ≠ j) :
        Function.update t.locals j pc' other = t.locals other := Function.update_of_ne hother ..
    dsimp only at hact hothers ⊢
    rw [Function.update_self]
    cases m with
    | call c o => exact absurd rfl (hothers c o)
    | run o => exact stopsAll_run hact ht hlocals
    | exit pid | tick nsec =>
      cases hact
      rw [Function.update_eq_self]
      exact ⟨ht.stopping, ht.free, ht.table⟩
  · obtain ⟨hbulk, hrecords⟩ := hothers _ hi
    dsimp only at hact hbulk hrecords ⊢
    rw [Function.update_of_ne (Ne.symm hthread)]
    refine ⟨ht.stopping, fun hpc => hbulk.trans (ht.free hpc), ht.table.next (fun name hname => ?_) hrecords⟩
    obtain ⟨other, hother, hstarts⟩ := hname
    by_cases hj : other = j
    · rw [hj] at hstarts
      exact (starts_act hact hstarts).imp_left fun h =>
        ⟨j, hthread, (congrArg Pc.starts (Function.update_self ..)).trans h⟩
    · exact .inl ⟨other, hother, (congrArg Pc.starts (Function.update_of_ne hj ..)).trans hstarts⟩

/-- `stopAll` leaves the table clean when it finds what runs in the stop order, and no state of an
operation but of processes that run and of those that a thread is starting; if meanwhile the others
only give up, and no start is left in the end. -/
theorem stopAll_clean {start s : LauncherThreads τ}
    (hrunning : start.shared.stopAllRunning = false)
    (hbulk : start.shared.currentBulkOp = .None) (hstart : start.Stoppable L thread)
    (hcall : start.step (act L) (thread, .call .stopAll o) = some s)
    (h : Reaches (Threads.step (act L)) (OthersFail L thread) s t)
    (hdone : t.locals thread = .idle)
    (hquiet : ∀ other, other ≠ thread → (t.locals other).starts = none) :
    ∀ name ∈ L.names, (t.shared.processes name).Clean := by
  have hbegun : StopsAll L thread s (s.locals thread) := by
    obtain ⟨s', pc', hact, rfl⟩ := Threads.step_eq_some hcall
    dsimp only at hact ⊢
    rw [Function.update_self]
    cases hidle : start.locals thread with
    | idle =>
      rw [hidle] at hact
      cases hact
      rw [hrunning]
      have htable : start.OnTheWay L thread none := hstart
      refine ⟨trivial, fun _ => hbulk, htable.next (fun name hname => ?_) fun _ => .inl rfl⟩
      obtain ⟨other, hother, hstarts⟩ := hname
      exact .inl ⟨other, hother, (congrArg Pc.starts (Function.update_of_ne hother ..)).trans hstarts⟩
    | _ =>
      rw [hidle] at hact
      cases hact
  have hkept : StopsAll L thread t (t.locals thread) :=
    h.invariant (I := fun t => StopsAll L thread t (t.locals thread)) stopsAll_step hbegun
  have htable := hkept.table
  rw [hdone] at htable
  intro name hname
  obtain ⟨hpid, hstate⟩ := htable name hname
  refine ⟨Nat.eq_zero_of_not_pos fun hpos => List.not_mem_nil (hpid hpos), fun htransient => ?_⟩
  rcases hstate htransient with ⟨other, hother, hstarts⟩ | hstopping
  · rw [hquiet other hother] at hstarts
    cases hstarts
  · exact List.not_mem_nil hstopping.2

end LauncherThreads

/-- A server runs, and a daemon waits to be started once more: the one is stopped, the other gives up. -/
theorem stopAll_clean_waiting :
    ∃ t : LauncherThreads Bool, t.locals false = .idle ∧
      ∀ name ∈ ["server", "daemon"], (t.shared.processes name).Clean := by
  let L : LauncherConf := { LauncherConf.ofGroup .default with
    names := ["server", "daemon"]
    groups := fun _ => some ["server", "daemon"] }
  let server : ProcessInfo := { ProcessInfo.new with state := .Running, pid := 10 }
  let daemon : ProcessInfo := { ProcessInfo.new with state := .Restarting, restartCount := 1 }
  let start : LauncherThreads Bool :=
    ⟨{ ProcessManager.new with processes := fun name => if name = "server" then server else daemon },
      fun thread => if thread then .starting "daemon" .backoff .single else .idle⟩
  have hown {t : LauncherThreads Bool} : OthersFail L false t (false, .run (.success 0)) := by
    rw [OthersFail, if_pos rfl]
    exact fun _ _ h => Move.noConfusion h
  have hdaemon {t : LauncherThreads Bool} {spc} (hpc : t.locals true = .starting "daemon" spc .single)
      (hspc) (hstopping) : OthersFail L false t (true, .run (.success 0)) :=
    othersFail_of_waits (by decide) hpc hspc hstopping
  have hcall : start.step (act L) (false, .call .stopAll (.success 0)) = some _ := rfl
  have hrun {s t : LauncherThreads Bool} (h : (List.replicate 9 (false, Move.run (.success 0))).foldlM
      (Threads.step (act L)) s = some t) : Reaches (Threads.step (act L)) (OthersFail L false) s t := by
    apply Reaches.of_foldlM _ h
    intro i hi t
    rw [List.eq_of_mem_replicate hi]
    exact hown
  have hstart : start.Stoppable L false := by
    intro name hname
    rcases List.mem_cons.mp hname with rfl | hname
    · exact ⟨fun _ => by decide +kernel, fun h => absurd h (by decide)⟩
    · cases List.mem_singleton.mp hname
      exact ⟨fun h => absurd h (by decide), fun _ => .inl ⟨true, by decide, rfl⟩⟩
  refine ⟨_, rfl, LauncherThreads.stopAll_clean rfl rfl hstart hcall
    (.head hown rfl (.head (hdaemon rfl (.inl rfl) rfl) rfl
      (.head (hdaemon rfl (.inr (.inl rfl)) rfl) rfl (hrun rfl)))) rfl fun thread hthread => ?_⟩
  cases thread with
  | false => exact absurd rfl hthread
  | true => rfl

/-- A daemon ends, and its restart is cancelled by `stopAll`. -/
theorem stopAll_not_clean :
    ∃ t : LauncherThreads Nat,
      Reaches (Threads.step (act (.ofGroup .default))) (fun _ _ => True)
        (LauncherThreads.new Nat) t ∧
      (t.shared.processes "daemon").state = .Restarting ∧ ∀ thread, t.locals thread = .idle := by
  let runs (n thread : Nat) (pid : PID) : List (Nat × Move) :=
    List.replicate n (thread, .run (.success pid))
  let moves : List (Nat × Move) :=
    (0, .call .startAll (.success 0)) :: runs 7 0 10 ++
      (0, .call .startMonitoring (.success 0)) :: (1, .call .monitorLoop (.success 0)) ::
      (1, .exit 10) :: runs 3 1 0 ++ (2, .call .stopAll (.success 0)) :: runs 2 2 0 ++
      runs 4 1 0 ++ runs 8 2 0
  have hrun : moves.foldlM (Threads.step (act (.ofGroup .default))) (LauncherThreads.new Nat) =
      some _ := rfl
  refine ⟨_, .of_foldlM (fun _ _ _ => trivial) hrun, rfl, fun thread => ?_⟩
  match thread with
  | 0 | 1 | 2 => rfl
  | n + 3 => rfl

end Uniset.Launcher
