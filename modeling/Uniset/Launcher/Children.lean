import Uniset.Launcher.OperationsLaws

/-! The children of the launcher: one for each name, and each in the table.  A thread has the
processes in hand that it is about to launch or to forget; a launch of one that another thread has in
hand is what loses a child. -/

namespace Uniset.Launcher

open Uniset.Lib

/-! ### What a thread has in hand -/

/-- The processes of which no child may be left when it goes on. -/
def StartPc.awaits (name : String) : StartPc → List String
  | .oneshotWait _ | .waitForReady | .afterRun => []
  | .launch | .oneshotDone _ | .checkStopping | .backoff | .cancelled | .checkCancelled => [name]

theorem StartPc.eq_of_mem_awaits {pc : StartPc} {name n : String} (h : n ∈ pc.awaits name) :
    n = name := by
  cases pc <;> simp_all [StartPc.awaits]

def StartPc.targets (name : String) : StartPc → List (String × PID)
  | .oneshotWait pid => [(name, pid)]
  | _ => []

def After.awaits : After → List String
  | .restartAll starts => starts
  | .exits found _ => found.map Prod.fst
  | _ => []

/-- The processes that the thread is about to launch, or whose record it is about to reset. -/
def Pc.awaits (L : LauncherConf) : Pc → List String
  | .starting name pc after => pc.awaits name ++ after.awaits
  | .stopTrees true toStop => L.names.filter (· ∉ toStop.map Prod.fst)
  | .stopUpdate reload name toStop =>
    name :: if reload then L.names.filter (· ∉ toStop.map Prod.fst) else []
  | .reloadReset => L.names
  | .restartStops stops starts => starts.filter (· ∉ stops)
  | .restartGet name stops starts | .restartTree name _ stops starts =>
    starts.filter (· ∉ name :: stops)
  | .restartClear name stops starts => name :: starts.filter (· ∉ stops)
  | .restartStarts starts => starts
  | .restartReset name starts => name :: starts
  | .monitorExits exits _ | .exitStore _ exits _ => exits.map Prod.fst
  | .exitDelay name exits _ | .exitCheck name exits _ => name :: exits.map Prod.fst
  | _ => []

/-- The children that the thread is about to wait for or to kill, with their names. -/
def Pc.targets : Pc → List (String × PID)
  | .starting name pc _ => pc.targets name
  | .stopTrees _ toStop | .stopUpdate _ _ toStop => toStop
  | .restartTree name pid _ _ => [(name, pid)]
  | _ => []

def Pc.inHand (L : LauncherConf) (pc : Pc) : List String := pc.awaits L ++ pc.targets.map Prod.fst

/-- Where a thread is after a step of `startProcessWithUnlock`.  On a return it has nothing in hand
but what is left to be done. -/
def Started.place (name : String) (after : After) : Started → Pc
  | .goesOn pc => .starting name pc after
  | .returns _ => .starting name .afterRun after

namespace ProcessManager

variable {L : LauncherConf} {o : Outcome} {s s' : ProcessManager} {name : String} {pc pc' : Pc}

/-! ### The children and the table -/

/-- No child of the process is left that has not been reaped. -/
def Childless (s : ProcessManager) (name : String) : Prop :=
  ∀ p c, s.children p = some c → c.name ≠ name

/-- Every child that is not reaped is in the table under its name, and where nothing is to be stopped
there is none. -/
structure Tracked (s : ProcessManager) : Prop where
  pid : ∀ p c, s.children p = some c → (s.processes c.name).pid = p
  zero : s.children 0 = none
  ended : ∀ name, (s.processes name).Ended → (s.processes name).pid = 0

theorem Tracked.new : Tracked new :=
  ⟨fun _ _ h => absurd h (by simp [ProcessManager.new]), rfl, fun _ _ => rfl⟩

theorem Tracked.childless_of_reaped (h : Tracked s)
    (hreaped : s.children (s.processes name).pid = none) : Childless s name := by
  rintro p c hc rfl
  rw [h.pid p c hc, hc] at hreaped
  cases hreaped

theorem Tracked.childless_of_zero (h : Tracked s) (hzero : (s.processes name).pid = 0) :
    Childless s name := h.childless_of_reaped (by rw [hzero, h.zero])

theorem Childless.startsNothing (h : Childless s name) (hs : StartsNothing s s') :
    Childless s' name := by
  intro p c' hc'
  obtain ⟨c, hc, hname⟩ := hs.children p c' hc'
  exact hname ▸ h p c hc

theorem Tracked.keeps (h : Tracked s) (hkeeps : Keeps s s') : Tracked s' where
  pid p c' hc' := by
    obtain ⟨c, hc, hname⟩ := hkeeps.children p c' hc'
    rw [hkeeps.pid, hname]
    exact h.pid p c hc
  zero := by
    cases hzero : s'.children 0 with
    | none => rfl
    | some c' =>
      obtain ⟨c, hc, -⟩ := hkeeps.children 0 c' hzero
      cases h.zero.symm.trans hc
  ended name hended := (hkeeps.pid name).trans (h.ended name (hkeeps.ended name hended))

/-- Other records, with the old identifiers where there are children. -/
theorem Tracked.replace (h : Tracked s) {processes : String → ProcessInfo}
    (hpid : ∀ name, (processes name).pid = (s.processes name).pid ∨ Childless s name)
    (hended : ∀ name, (processes name).Ended → (processes name).pid = 0) :
    Tracked { s with processes } where
  pid p c hc := ((hpid c.name).resolve_right fun hnone => hnone p c hc rfl).trans (h.pid p c hc)
  zero := h.zero
  ended := hended

theorem Tracked.modify (h : Tracked s) {f : ProcessInfo → ProcessInfo}
    (hpid : (f (s.processes name)).pid = (s.processes name).pid ∨ Childless s name)
    (hended : (f (s.processes name)).Ended → (f (s.processes name)).pid = 0) :
    Tracked (s.modify name f) := by
  apply h.replace
  · intro n
    by_cases hn : n = name
    · rw [hn, Function.update_self]
      exact hpid
    · exact .inl (congrArg ProcessInfo.pid (Function.update_of_ne hn _ _))
  · intro n
    by_cases hn : n = name
    · rw [hn, Function.update_self]
      exact hended
    · rw [Function.update_of_ne hn]
      exact h.ended n

/-! ### What a step leaves to the other threads -/

/-- Of the processes that are not launched no child is new, and no record has a new identifier. -/
def Undisturbed (launched : List String) (s s' : ProcessManager) : Prop :=
  ∀ n ∉ launched, (Childless s n → Childless s' n) ∧
    ((s'.processes n).pid = (s.processes n).pid ∨ (s'.processes n).pid = 0)

theorem Undisturbed.of_startsNothing (h : StartsNothing s s') (hpid : ∀ n,
    (s'.processes n).pid = (s.processes n).pid ∨ (s'.processes n).pid = 0) (launched : List String) :
    Undisturbed launched s s' := fun n _ => ⟨fun hnone => hnone.startsNothing h, hpid n⟩

theorem Undisturbed.of_keeps (h : Keeps s s') (launched : List String) : Undisturbed launched s s' :=
  .of_startsNothing h.toStartsNothing (fun n => .inl (h.pid n)) launched

theorem Undisturbed.trans {launched : List String} {s₁ s₂ s₃ : ProcessManager}
    (h : Undisturbed launched s₁ s₂) (h' : Undisturbed launched s₂ s₃) :
    Undisturbed launched s₁ s₃ := by
  intro n hn
  obtain ⟨hnone, hpid⟩ := h n hn
  obtain ⟨hnone', hpid'⟩ := h' n hn
  refine ⟨hnone' ∘ hnone, hpid'.elim (fun hsame => ?_) .inr⟩
  rw [hsame]
  exact hpid

theorem undisturbed_modify (s : ProcessManager) {f : ProcessInfo → ProcessInfo}
    (hf : (f (s.processes name)).pid = (s.processes name).pid ∨ (f (s.processes name)).pid = 0)
    (launched : List String) : Undisturbed launched s (s.modify name f) := by
  refine .of_startsNothing (startsNothing_modify s name f) (fun n => ?_) launched
  by_cases hn : n = name
  · rw [hn, modify_processes_self]
    exact hf
  · exact .inl (congrArg ProcessInfo.pid (modify_processes_of_ne hn))

/-- What a thread has in hand is as it takes it to be. -/
structure InHand (L : LauncherConf) (s : ProcessManager) (pc : Pc) : Prop where
  awaits : ∀ n ∈ pc.awaits L, Childless s n
  targets : ∀ n pid, (n, pid) ∈ pc.targets → (s.processes n).pid = pid ∨ Childless s n

theorem InHand.of_awaits (hawaits : ∀ n ∈ pc.awaits L, Childless s n) (htargets : pc.targets = []) :
    InHand L s pc :=
  ⟨hawaits, fun _ _ hn => absurd (htargets ▸ hn) List.not_mem_nil⟩

theorem InHand.of_nil (hawaits : pc.awaits L = []) (htargets : pc.targets = []) : InHand L s pc :=
  .of_awaits (hawaits ▸ List.forall_mem_nil _) htargets

theorem InHand.undisturbed {launched : List String} (h : InHand L s pc)
    (hs : Undisturbed launched s s') (htracked : Tracked s')
    (hlaunched : ∀ n ∈ launched, n ∉ pc.inHand L) : InHand L s' pc where
  awaits n hn := by
    have hmem : n ∉ launched := fun hl => hlaunched n hl (List.mem_append_left _ hn)
    exact (hs n hmem).1 (h.awaits n hn)
  targets n pid hn := by
    have hmem : n ∉ launched := fun hl =>
      hlaunched n hl (List.mem_append_right _ (List.mem_map_of_mem hn))
    obtain ⟨hnone, hpid⟩ := hs n hmem
    rcases h.targets n pid hn with hsame | hold
    · exact hpid.imp (·.trans hsame) htracked.childless_of_zero
    · exact .inr (hnone hold)

/-- What comes of a step: the children are tracked, the other threads have what they had, and the
thread that has taken it goes on with what it takes to be so. -/
structure Carries (L : LauncherConf) (launched : List String) (s s' : ProcessManager) (pc' : Pc) :
    Prop where
  tracked : Tracked s'
  others : Undisturbed launched s s'
  own : InHand L s' pc'

theorem Carries.of_keeps {launched : List String} (h : Tracked s) (hkeeps : Keeps s s')
    (hown : InHand L s pc') : Carries L launched s s' pc' where
  tracked := h.keeps hkeeps
  others := .of_keeps hkeeps launched
  own := hown.undisturbed (.of_keeps hkeeps []) (h.keeps hkeeps) (List.forall_mem_nil _)

/-- Of a step that changes no more than the flags they are not looked at. -/
theorem Carries.of_sameTable {launched : List String} (h : Tracked s) (hsame : SameTable s s')
    (hown : InHand L s pc') : Carries L launched s s' pc' := by
  let s₁ := { s with toFlags := s'.toFlags }
  have hkeeps : Keeps s₁ s' := .of_eq hsame.processes rfl hsame.children
  have hcarries : Carries L launched s₁ s' pc' :=
    .of_keeps ⟨h.pid, h.zero, h.ended⟩ hkeeps ⟨hown.awaits, hown.targets⟩
  exact ⟨hcarries.tracked, hcarries.others, hcarries.own⟩

/-! ### The sections that launch, stop and reset -/

/-- Nothing is launched, and there is no child of the process then. -/
structure Cleared (s s' : ProcessManager) (name : String) : Prop where
  tracked : Tracked s'
  childless : Childless s' name
  others : Undisturbed [] s s'

theorem Cleared.of_keeps (h : Tracked s) (hkeeps : Keeps s s') (hnone : Childless s name) :
    Cleared s s' name :=
  ⟨h.keeps hkeeps, hnone.startsNothing hkeeps.toStartsNothing, .of_keeps hkeeps []⟩

theorem Cleared.after {s₁ s₂ s₃ : ProcessManager} (hkeeps : Keeps s₁ s₂) (h : Cleared s₂ s₃ name) :
    Cleared s₁ s₃ name := ⟨h.tracked, h.childless, (Undisturbed.of_keeps hkeeps []).trans h.others⟩

theorem Cleared.keeps {s₁ s₂ s₃ : ProcessManager} (h : Cleared s₁ s₂ name) (hkeeps : Keeps s₂ s₃) :
    Cleared s₁ s₃ name :=
  ⟨h.tracked.keeps hkeeps, h.childless.startsNothing hkeeps.toStartsNothing,
    h.others.trans (.of_keeps hkeeps [])⟩

theorem Cleared.trans {s₁ s₂ s₃ : ProcessManager} (h : Cleared s₁ s₂ name) (h' : Cleared s₂ s₃ name) :
    Cleared s₁ s₃ name := ⟨h'.tracked, h'.childless, h.others.trans h'.others⟩

/-- A record is cleared of which there is no child. -/
theorem cleared_modify (h : Tracked s) (hnone : Childless s name) {f : ProcessInfo → ProcessInfo}
    (hf : ∀ proc, (f proc).pid = 0) : Cleared s (s.modify name f) name :=
  ⟨h.modify (.inr hnone) fun _ => hf _, hnone.startsNothing (startsNothing_modify s name f),
    undisturbed_modify s (.inr (hf _)) []⟩

theorem Cleared.modify {s₁ : ProcessManager} (h : Cleared s s₁ name) {f : ProcessInfo → ProcessInfo}
    (hf : ∀ proc, (f proc).pid = 0) : Cleared s (s₁.modify name f) name :=
  h.trans (cleared_modify h.tracked h.childless hf)

/-- The same of a table that has been locked. -/
theorem cleared_locked {s₁ : ProcessManager} (h : Tracked s) (hlock : s.lock = some s₁)
    (hnone : Childless s name) {f : ProcessInfo → ProcessInfo} (hf : ∀ proc, (f proc).pid = 0) :
    Cleared s (s₁.modify name f) name := (Cleared.of_keeps h (keeps_lock hlock) hnone).modify hf

theorem childless_reap (h : Tracked s) {pid : PID}
    (htarget : (s.processes name).pid = pid ∨ Childless s name) : Childless (s.reap pid) name := by
  rcases htarget with rfl | hnone
  · exact (h.keeps (keeps_reap s _)).childless_of_reaped (reap_children_self _)
  · exact hnone.startsNothing (keeps_reap s pid).toStartsNothing

theorem cleared_stopProcessTree (h : Tracked s) (hkilled : o.killed = true) {pid : PID}
    (htarget : (s.processes name).pid = pid ∨ Childless s name) :
    Cleared s (s.stopProcessTree o pid) name := by
  have hkeeps : Keeps s (s.stopProcessTree o pid) := keeps_stopProcessTree s pid
  have hreap : s.stopProcessTree o pid = s.reap pid := if_pos (.inl hkilled)
  exact ⟨h.keeps hkeeps, hreap ▸ childless_reap h htarget, .of_keeps hkeeps []⟩

theorem cleared_stopProcess (h : Tracked s) (hkilled : o.killed = true) (name : String) :
    Cleared s (s.stopProcess o name) name := by
  simp only [ProcessManager.stopProcess]
  split_ifs with hended hpid
  · exact .of_keeps h (.refl s) (h.childless_of_zero (h.ended name hended))
  · exact (cleared_stopProcessTree h hkilled (.inl rfl)).modify fun _ => rfl
  · exact cleared_modify h (h.childless_of_zero (Nat.eq_zero_of_not_pos hpid)) fun _ => rfl

theorem keeps_restarting (s : ProcessManager) (name : String) :
    Keeps s (s.modify name fun proc => { proc with state := .Restarting }) := by
  apply keeps_modify
  intro proc
  simp [ProcessInfo.Ended]

theorem cleared_stopForRestart (h : Tracked s) (hkilled : o.killed = true) (name : String) :
    Cleared s (s.stopForRestart o name) name := by
  have hkeeps := keeps_restarting s name
  exact ((cleared_stopProcess (h.keeps hkeeps) hkilled name).modify fun _ => rfl).after hkeeps

/-- A launch of a process that has no child. -/
theorem Tracked.launch (h : Tracked s) (hnone : Childless s name) {pid : Option PID}
    (hlaunch : s.launch o name = some (s', pid)) :
    Tracked s' ∧ Undisturbed [name] s s' ∧ (∀ p, pid = some p → (s'.processes name).pid = p) ∧
      (pid = none → Undisturbed [] s s') := by
  simp only [ProcessManager.launch] at hlaunch
  have hmark : Keeps s (s.modify name fun proc =>
      { proc.enter .Starting with lastStartTime := s.clock }) := by
    apply keeps_modify
    intro proc
    exact ⟨ProcessInfo.enter_pid _ _,
      fun hended => absurd hended (ProcessInfo.not_ended_enter _ (by decide) (by decide))⟩
  cases ho : o.pid with
  | none =>
    rw [ho] at hlaunch
    cases hlaunch
    have hfail := hmark.trans (keeps_modify _ name (f := (·.fail o.what)) fun proc => by
      simp [ProcessInfo.Ended])
    exact ⟨h.keeps hfail, .of_keeps hfail _, fun _ hp => absurd hp (by simp),
      fun _ => .of_keeps hfail []⟩
  | some p =>
    simp only [ho] at hlaunch
    split_ifs at hlaunch with hp
    cases hlaunch
    have hpid_of_ne {n : String} (hn : n ≠ name) : ((((s.modify name fun proc =>
        { proc.enter .Starting with lastStartTime := s.clock }).modify name fun proc =>
          { proc with pid := p }).processes n).pid = (s.processes n).pid) := by
      rw [modify_processes_of_ne hn, modify_processes_of_ne hn]
    refine ⟨⟨fun q c hc => ?_, ?_, fun n hended => ?_⟩, fun n hn => ⟨fun hold q c hc => ?_, ?_⟩,
      fun q hq => ?_, fun hq => absurd hq (by simp)⟩
    · by_cases hq : q = p
      · subst hq
        dsimp only at hc
        rw [Function.update_self] at hc
        cases hc
        simp
      · dsimp only at hc
        rw [Function.update_of_ne hq] at hc
        exact (hpid_of_ne (hnone q c hc)).trans (h.pid q c hc)
    · exact (Function.update_of_ne (Nat.ne_of_lt hp.1) _ _).trans h.zero
    · by_cases hn : n = name
      · subst hn
        dsimp only at hended
        rw [modify_processes_self, modify_processes_self] at hended
        exact absurd hended (ProcessInfo.not_ended_enter _ (by decide) (by decide))
      · dsimp only at hended ⊢
        rw [modify_processes_of_ne hn, modify_processes_of_ne hn] at hended ⊢
        exact h.ended n hended
    · dsimp only at hc
      by_cases hq : q = p
      · subst hq
        rw [Function.update_self] at hc
        cases hc
        exact fun hname => hn (List.mem_singleton.mpr hname.symm)
      · rw [Function.update_of_ne hq] at hc
        exact hold q c hc
    · exact .inl (hpid_of_ne fun hname => hn (List.mem_singleton.mpr hname))
    · cases hq
      simp

/-! ### The steps -/

theorem inHand_starting {pc : StartPc} {after : After}
    (hname : ∀ n ∈ pc.awaits name, Childless s n)
    (htarget : ∀ p, pc = .oneshotWait p → (s.processes name).pid = p)
    (hafter : ∀ n ∈ after.awaits, Childless s n) : InHand L s (.starting name pc after) where
  awaits n hn := (List.mem_append.mp hn).elim (hname n) (hafter n)
  targets n p hn := by
    cases pc with
    | oneshotWait q =>
      cases List.mem_singleton.mp hn
      exact .inl (htarget _ rfl)
    | _ => cases hn

/-- After `startProcessWithUnlock` what is left is the rest of what was to be done. -/
theorem inHand_resume {ok : Bool} {after : After} (h : s.resume L name ok after = (s', pc'))
    (hafter : ∀ n ∈ after.awaits, Childless s n) : InHand L s pc' := by
  cases after with
  | startAll reload procs groups =>
    simp only [resume, endStartAll] at h
    cases reload <;> split_ifs at h <;> (cases h; exact .of_nil rfl rfl)
  | single | restartEach _ | healths _ =>
    cases h
    exact .of_nil rfl rfl
  | restartAll starts =>
    cases h
    exact .of_awaits hafter rfl
  | exits found healths =>
    cases h
    exact .of_awaits hafter rfl

/-- A step after which the thread awaits at most one process more, of which there is no child. -/
theorem Cleared.carries (h : Cleared s s' name) (hown : InHand L s pc)
    (hawaits : ∀ n ∈ pc'.awaits L, n = name ∨ n ∈ pc.awaits L)
    (htargets : ∀ x ∈ pc'.targets, x ∈ pc.targets) : Carries L [] s s' pc' := by
  have hkept : InHand L s' pc := hown.undisturbed h.others h.tracked (List.forall_mem_nil _)
  refine ⟨h.tracked, h.others, fun n hn => ?_, fun n pid hn => hkept.targets n pid (htargets _ hn)⟩
  rcases hawaits n hn with rfl | hn
  · exact h.childless
  · exact hkept.awaits n hn

/-- A start that begins when there is no child of the process. -/
theorem Cleared.starts {after : After} (h : Cleared s s' name)
    (hafter : ∀ n ∈ after.awaits, Childless s n) : Carries L [] s s' (.starting name .launch after) :=
  ⟨h.tracked, h.others, inHand_starting (fun _ hn => StartPc.eq_of_mem_awaits hn ▸ h.childless)
    (fun _ h => StartPc.noConfusion h) fun n hn => (h.others n List.not_mem_nil).1 (hafter n hn)⟩

variable {after : After}

theorem carries_startStep {pc : StartPc} {started : Started} (h : Tracked s)
    (hkilled : o.killed = true) (hown : InHand L s (.starting name pc after))
    (hlist : pc = .launch → name ∉ after.awaits)
    (hr : s.startStep L o name pc = some (s', started)) :
    Carries L (Pc.starting name pc after).launches s s' (started.place name after) := by
  have hafter : ∀ n ∈ after.awaits, Childless s n := fun n hn =>
    hown.awaits n (List.mem_append_right _ hn)
  have hname : ∀ n ∈ pc.awaits name, Childless s n := fun n hn =>
    hown.awaits n (List.mem_append_left _ hn)
  have hcleared (started : Started) (hs' : Cleared s s' name) :
      Carries L [] s s' (started.place name after) := by
    have hrest : ∀ n ∈ after.awaits, Childless s' n := fun n hn =>
      (hs'.others n List.not_mem_nil).1 (hafter n hn)
    refine ⟨hs'.tracked, hs'.others, ?_⟩
    cases started with
    | goesOn pc =>
      refine ⟨fun n hn => (List.mem_append.mp hn).elim (fun hn => ?_) (hrest n), fun n p hn => .inr ?_⟩
      · exact StartPc.eq_of_mem_awaits hn ▸ hs'.childless
      · cases pc with
        | oneshotWait q =>
          cases List.mem_singleton.mp hn
          exact hs'.childless
        | _ => cases hn
    | returns ok => exact .of_awaits hrest rfl
  have hkept (hkeeps : Keeps s s') : Carries L [] s s' (.starting name .afterRun after) := by
    refine .of_keeps h hkeeps ?_
    exact .of_awaits hafter rfl
  cases pc with
  | launch =>
    simp only [ProcessManager.startStep] at hr
    cases hlaunch : s.launch o name with
    | none =>
      rw [hlaunch] at hr
      cases hr
    | some launched =>
      obtain ⟨s₁, pid⟩ := launched
      obtain ⟨htracked, hothers, hpid, hfailed⟩ :=
        h.launch (hname name List.mem_cons_self) hlaunch
      rw [hlaunch] at hr
      cases pid with
      | none =>
        cases hr
        exact ⟨htracked, hothers, .of_awaits
          (fun n hn => (hfailed rfl n List.not_mem_nil).1 (hafter n hn)) rfl⟩
      | some p =>
        have hrest : ∀ n ∈ after.awaits, Childless s₁.unlock n := fun n hn =>
          (hothers n fun hmem => hlist rfl (List.mem_singleton.mp hmem ▸ hn)).1 (hafter n hn)
        cases hr
        refine ⟨htracked.keeps (keeps_unlock s₁), hothers.trans (.of_keeps (keeps_unlock s₁) [name]), ?_⟩
        split_ifs <;> refine inHand_starting (List.forall_mem_nil _) (fun q hq => ?_) hrest
        · cases hq
          exact hpid p rfl
        · cases hq
  | oneshotWait pid =>
    cases hr
    exact hcleared _ ⟨h.keeps (keeps_reap s pid),
      childless_reap h (hown.targets name pid List.mem_cons_self), .of_keeps (keeps_reap s pid) []⟩
  | oneshotDone exitCode =>
    obtain ⟨s₁, hlock, hr⟩ := Option.bind_eq_some_iff.mp hr
    have hdone := cleared_locked h hlock (hname name List.mem_cons_self) (f := fun proc =>
      { proc with lastExitCode := exitCode, pid := 0 }) fun _ => rfl
    have hpid : ((s₁.modify name fun proc =>
        { proc with lastExitCode := exitCode, pid := 0 }).processes name).pid = 0 := by simp
    dsimp only at hr
    split_ifs at hr
    · cases hr
      exact hcleared _ (hdone.trans ⟨hdone.tracked.modify (.inl rfl) fun _ => hpid,
        hdone.childless.startsNothing (startsNothing_modify _ name _), undisturbed_modify _ (.inl rfl) []⟩)
    · cases hr
      exact hcleared _ (hdone.keeps (keeps_modify _ name fun proc => by simp [ProcessInfo.Ended]))
  | waitForReady =>
    obtain ⟨s₁, hlock, hr⟩ := Option.bind_eq_some_iff.mp hr
    have hs₁ := h.keeps (keeps_lock hlock)
    have hstopped : Cleared s₁
        (if 0 < (s₁.processes name).pid then s₁.stopProcess o name else s₁) name := by
      split_ifs with hpid
      · exact cleared_stopProcess hs₁ hkilled name
      · exact .of_keeps hs₁ (.refl s₁) (hs₁.childless_of_zero (Nat.eq_zero_of_not_pos hpid))
    replace hstopped := hstopped.after (keeps_lock hlock)
    dsimp only at hr
    generalize (if 0 < (s₁.processes name).pid then s₁.stopProcess o name else s₁) = s₂
      at hr hstopped
    split_ifs at hr
    · cases hr
      exact hkept ((keeps_lock hlock).trans (keeps_unlock s₁))
    · cases hr
      exact hkept ((keeps_lock hlock).trans (keeps_modify s₁ name fun proc => by
        simp [ProcessInfo.Ended]))
    · cases hr
      exact hcleared _ hstopped
    · cases hr
      exact hcleared _ (hstopped.keeps (keeps_giveUp s₂ name))
  | afterRun =>
    have hkeeps : Keeps s s' := by apply keeps_startStep hr <;> simp
    obtain ⟨s₁, -, hr⟩ := Option.bind_eq_some_iff.mp hr
    cases hr
    exact hkept hkeeps
  | checkStopping | backoff | cancelled | checkCancelled =>
    have hkeeps : Keeps s s' := by apply keeps_startStep hr <;> simp
    exact hcleared _ (.of_keeps h hkeeps (hname name List.mem_cons_self))

end ProcessManager

/-- A process that is asked to be started is not in the table with a child. -/
def Call.Orderly (s : ProcessManager) : Call → Prop
  | .startProcess name => (s.processes name).pid = 0
  | _ => True

/-- `startAll` comes to processes that do not run; no thread has a process twice in hand that it
launches; `reloadAll` stops all that runs; and `restartAll` is not kept from stopping. -/
def Pc.Orderly (L : LauncherConf) (s : ProcessManager) : Pc → Prop
  | .startProcesses _ (name :: _) _ =>
    s.stopping = false → name ∈ L.names ∧ !(L.conf name).skip ∧ !(L.conf name).manual ∧
      (L.conf name).shouldRunOnNode L.nodeName → (s.processes name).pid = 0
  | .starting name .launch after => name ∉ after.awaits
  | .stopCollect true => ∀ name ∈ L.names, 0 < (s.processes name).pid → name ∈ L.stopOrder
  | .restartStops (_ :: _) _ => s.stopping = false
  | _ => True

namespace ProcessManager

variable {L : LauncherConf} {o : Outcome} {s s' : ProcessManager} {name : String} {pc pc' : Pc}

theorem carries_begin {c : Call} (h : Tracked s) (hkilled : o.killed = true) (horderly : c.Orderly s)
    (hr : s.begin L o c = some (s', pc')) : Carries L [] s s' pc' := by
  have hidle : Carries L [] s s .idle := .of_keeps h (.refl s) (.of_nil rfl rfl)
  cases c with
  | startProcess name =>
    simp only [ProcessManager.begin] at hr
    split_ifs at hr
    · obtain ⟨s₁, hlock, hr⟩ := Option.bind_eq_some_iff.mp hr
      cases hr
      exact (cleared_locked h hlock (h.childless_of_zero horderly) fun _ => rfl).starts
        (List.forall_mem_nil _)
    · cases hr
      exact hidle
  | restartProcess name =>
    simp only [ProcessManager.begin] at hr
    split_ifs at hr
    · obtain ⟨s₁, hlock, hr⟩ := Option.bind_eq_some_iff.mp hr
      cases hr
      exact ((cleared_stopForRestart (h.keeps (keeps_lock hlock)) hkilled name).after
        (keeps_lock hlock)).starts (List.forall_mem_nil _)
    · cases hr
      exact hidle
  | stopProcess name =>
    simp only [ProcessManager.begin] at hr
    split_ifs at hr
    · obtain ⟨s₁, hlock, hr⟩ := Option.bind_eq_some_iff.mp hr
      cases hr
      obtain ⟨htracked, -, hquiet⟩ := ((cleared_stopProcess (h.keeps (keeps_lock hlock)) hkilled
        name).after (keeps_lock hlock)).keeps (keeps_unlock _)
      exact ⟨htracked, hquiet, .of_nil rfl rfl⟩
    · cases hr
      exact hidle
  | startAll =>
    cases hr
    exact .of_keeps h (.refl s) (.of_nil rfl rfl)
  | stopAll =>
    have hsame := sameTable_begin hr trivial
    cases hr
    refine .of_sameTable h hsame ?_
    split_ifs <;> exact .of_nil rfl rfl
  | requestStop | cancelStartup =>
    have hsame := sameTable_begin hr trivial
    cases hr
    exact .of_sameTable h hsame (.of_nil rfl rfl)
  | restartAll | reloadAll | startMonitoring | stopMonitoring | monitorLoop =>
    have hsame := sameTable_begin hr trivial
    simp only [ProcessManager.begin] at hr
    split_ifs at hr <;> (cases hr; exact .of_sameTable h hsame (.of_nil rfl rfl))

/-- Of the exits that the monitor finds the children have been reaped. -/
theorem childless_findExit (h : Tracked s) {exitCode : Int}
    (hfound : s.findExit o name = (s', some exitCode)) : Childless s' name := by
  simp only [findExit] at hfound
  cases hwait : s.waitpid o (s.processes name).pid with
  | some reaped =>
    have hreaped : Childless (s.reap reaped) name := by
      refine childless_reap h ?_
      simp only [waitpid] at hwait
      split_ifs at hwait with hzero
      · exact .inr (h.childless_of_zero hzero)
      · exact .inl (Option.some.inj hwait)
    rw [hwait] at hfound
    dsimp only at hfound
    split_ifs at hfound
    · cases hfound
      exact hreaped.startsNothing (startsNothing_modify _ name _)
    · cases hfound
      exact hreaped
  | none =>
    rw [hwait] at hfound
    dsimp only at hfound
    split_ifs at hfound with hzero hnone
    · cases hfound
      exact (h.childless_of_zero hzero.1).startsNothing (startsNothing_modify s name _)
    · cases hfound
      exact h.childless_of_reaped hnone
    · cases hfound

theorem childless_scan (names : List String) (h : Tracked s) :
    ∀ n ∈ (scan L o names s).2.1.map Prod.fst, Childless (scan L o names s).1 n := by
  induction names generalizing s with
  | nil => exact List.forall_mem_nil _
  | cons name names ih =>
    unfold scan
    split_ifs
    · exact ih h
    · have hkeeps := @keeps_findExit o s name
      cases hfound : s.findExit o name with
      | mk s₁ exit =>
        rw [hfound] at hkeeps
        cases exit with
        | some exitCode =>
          intro n hn
          rcases List.mem_cons.mp hn with rfl | hn
          · exact (childless_findExit h hfound).startsNothing (keeps_scan names s₁).toStartsNothing
          · exact ih (h.keeps hkeeps) n hn
        | none => exact ih ((h.keeps hkeeps).keeps (keeps_checkHealth s₁ name))

theorem eq_or_mem_filter {n : String} {starts stops : List String}
    (h : n ∈ starts.filter (· ∉ stops)) : n = name ∨ n ∈ starts.filter (· ∉ name :: stops) := by
  simp only [List.mem_filter, decide_eq_true_eq, List.mem_cons, not_or] at h ⊢
  by_cases hname : n = name
  · exact .inl hname
  · exact .inr ⟨h.1, hname, h.2⟩

theorem carries_run (h : Tracked s) (hkilled : o.killed = true) (hown : InHand L s pc)
    (horderly : pc.Orderly L s) (hr : s.run L o pc = some (s', pc')) :
    Carries L pc.launches s s' pc' := by
  cases pc with
  | idle => cases hr
  | starting name pc after =>
    obtain ⟨⟨s₁, started⟩, hstart, hr⟩ := Option.map_eq_some_iff.mp hr
    have hlist : pc = .launch → name ∉ after.awaits := by
      rintro rfl
      exact horderly
    have hs₁ := carries_startStep h hkilled hown hlist hstart
    cases started with
    | goesOn pc =>
      cases hr
      exact hs₁
    | returns ok =>
      have hkeeps : Keeps s₁ s' := keeps_resume hr
      obtain ⟨htracked, -, hown'⟩ : Carries L [] s₁ s' pc' :=
        .of_keeps hs₁.tracked hkeeps (inHand_resume hr hs₁.own.awaits)
      exact ⟨htracked, hs₁.others.trans (.of_keeps hkeeps _), hown'⟩
  | startAll reload =>
    refine .of_keeps h (keeps_run hr rfl rfl rfl id) ?_
    obtain ⟨s₁, -, hr⟩ := Option.bind_eq_some_iff.mp hr
    cases hgroups : L.groupOrder <;> rw [hgroups] at hr <;> split_ifs at hr <;> cases hr <;>
      cases reload <;> exact .of_nil rfl rfl
  | startGroups reload groups =>
    refine .of_keeps h (keeps_run hr rfl rfl rfl id) ?_
    simp only [ProcessManager.run] at hr
    cases groups <;> try split_ifs at hr
    all_goals cases hr; cases reload <;> exact .of_nil rfl rfl
  | startProcesses reload procs groups =>
    have hkeeps : Keeps s s' := keeps_run hr rfl rfl rfl id
    cases procs with
    | nil =>
      cases hr
      exact .of_keeps h hkeeps (.of_nil rfl rfl)
    | cons name procs =>
      simp only [ProcessManager.run] at hr
      split_ifs at hr with hstopping hstarts <;> cases hr
      · exact .of_keeps h hkeeps (.of_nil rfl rfl)
      · have hzero := horderly (Bool.eq_false_of_not_eq_true hstopping) hstarts
        exact (Cleared.of_keeps h hkeeps (h.childless_of_zero hzero)).starts (List.forall_mem_nil _)
      · exact .of_keeps h hkeeps (.of_nil rfl rfl)
  | stopAllSet | stopAllDone | stopAllRestore _ | stopAllLeave | bulkDone | requestStopping =>
    have hsame := sameTable_run hr trivial
    cases hr
    exact .of_sameTable h hsame (.of_nil rfl rfl)
  | exitStore stopping found healths =>
    have hsame := sameTable_run hr trivial
    cases hr
    refine .of_sameTable h hsame ?_
    exact .of_awaits hown.awaits rfl
  | stopAllExchange | stopAllExchangeAgain | monitorTop | monitorSleep =>
    have hsame := sameTable_run hr trivial
    simp only [ProcessManager.run] at hr
    split_ifs at hr <;> (cases hr; exact .of_sameTable h hsame (.of_nil rfl rfl))
  | stopAllWait | stopAllLoad | reloadCheck =>
    refine .of_keeps h (keeps_run hr rfl rfl rfl id) ?_
    cases hr
    try split_ifs
    all_goals exact .of_nil rfl rfl
  | reloadMark | restartCollect =>
    refine .of_keeps h (keeps_run hr rfl rfl rfl id) ?_
    obtain ⟨s₁, -, hr⟩ := Option.bind_eq_some_iff.mp hr
    cases hr
    try split_ifs
    all_goals exact .of_nil rfl rfl
  | joinMonitor =>
    refine .of_keeps h (keeps_run hr rfl rfl rfl id) ?_
    simp only [ProcessManager.run] at hr
    split_ifs at hr
    cases hr
    exact .of_nil rfl rfl
  | stopCollect reload =>
    refine .of_keeps h (keeps_run hr rfl rfl rfl id) ?_
    obtain ⟨s₁, hlock, hr⟩ := Option.bind_eq_some_iff.mp hr
    have hpid (n : String) : (s₁.processes n).pid = (s.processes n).pid := (keeps_lock hlock).pid n
    cases hr
    refine ⟨fun n hn => ?_, fun n pid hn => .inl ?_⟩
    · cases reload with
      | false => exact absurd hn List.not_mem_nil
      | true =>
        obtain ⟨hname, hout⟩ := List.mem_filter.mp hn
        refine h.childless_of_zero (Nat.eq_zero_of_not_pos fun hpos => of_decide_eq_true hout ?_)
        rw [← hpid] at hpos
        exact List.mem_map.mpr ⟨_, mem_toStop.mpr ⟨horderly n hname (hpid n ▸ hpos), hpos, rfl⟩, rfl⟩
    · rw [← hpid]
      exact (mem_toStop.mp hn).2.2
  | stopTrees reload toStop =>
    cases toStop with
    | nil =>
      cases hr
      cases reload with
      | false => exact .of_keeps h (.refl s) (.of_nil rfl rfl)
      | true =>
        refine .of_keeps h (.refl s) (.of_awaits (fun n hn => hown.awaits n ?_) rfl)
        exact List.mem_filter.mpr ⟨hn, by simp⟩
    | cons item toStop =>
      obtain ⟨name, pid⟩ := item
      cases hr
      refine (cleared_stopProcessTree h hkilled (hown.targets name pid List.mem_cons_self)).carries
        hown (fun n hn => ?_) fun _ => List.mem_cons_of_mem _
      cases reload with
      | false => exact .inl (List.mem_singleton.mp hn)
      | true => exact (List.mem_cons.mp hn).elim .inl eq_or_mem_filter
  | stopUpdate reload name toStop =>
    obtain ⟨s₁, hlock, hr⟩ := Option.bind_eq_some_iff.mp hr
    cases hr
    refine ((cleared_locked h hlock (hown.awaits name List.mem_cons_self) fun _ => rfl).keeps
      (keeps_unlock _)).carries hown (fun n hn => .inr ?_) fun _ => id
    cases reload with
    | false => exact absurd hn List.not_mem_nil
    | true => exact List.mem_cons_of_mem name hn
  | reloadReset =>
    obtain ⟨s₁, hlock, hr⟩ := Option.bind_eq_some_iff.mp hr
    have hs₁ := h.keeps (keeps_lock hlock)
    let processes (name : String) :=
      if name ∈ L.names then (s₁.processes name).reset else s₁.processes name
    have hreset : Tracked { s₁ with processes } := by
      apply hs₁.replace <;> intro n <;> dsimp only [processes] <;> split_ifs with hn
      · exact .inr ((hown.awaits n hn).startsNothing (keeps_lock hlock).toStartsNothing)
      · exact .inl rfl
      · exact fun _ => rfl
      · exact hs₁.ended n
    have hquiet : Undisturbed [] s₁ { s₁ with processes } := by
      have hnothing : StartsNothing s₁ { s₁ with processes } := .of_eq rfl rfl
      refine .of_startsNothing hnothing (fun n => ?_) []
      dsimp only [processes]
      split_ifs
      · exact .inr rfl
      · exact .inl rfl
    cases hr
    exact ⟨hreset.keeps (keeps_unlock _), ((Undisturbed.of_keeps (keeps_lock hlock) []).trans
      hquiet).trans (.of_keeps (keeps_unlock _) []), .of_nil rfl rfl⟩
  | restartMark toRestart =>
    refine .of_keeps h (keeps_run hr rfl rfl rfl id) ?_
    obtain ⟨s₁, -, hr⟩ := Option.bind_eq_some_iff.mp hr
    cases hgroups : L.groupOrder with
    | error e =>
      simp only [hgroups] at hr
      cases hr
      exact .of_nil rfl rfl
    | ok order =>
      simp only [hgroups] at hr
      cases hr
      refine .of_nil (List.filter_eq_nil_iff.mpr fun n hn hout => of_decide_eq_true hout ?_) rfl
      obtain ⟨hin, htoRestart⟩ := List.mem_filter.mp hn
      refine List.mem_filter.mpr ⟨?_, htoRestart⟩
      simpa [LauncherConf.processesOf] using hin
  | restartEach names =>
    cases names with
    | nil =>
      cases hr
      exact .of_keeps h (.refl s) (.of_nil rfl rfl)
    | cons name names =>
      obtain ⟨s₁, hlock, hr⟩ := Option.bind_eq_some_iff.mp hr
      cases hr
      exact ((cleared_stopForRestart (h.keeps (keeps_lock hlock)) hkilled name).after
        (keeps_lock hlock)).starts (List.forall_mem_nil _)
  | restartStops stops starts =>
    refine .of_keeps h (keeps_run hr rfl rfl rfl id) ?_
    cases stops with
    | nil =>
      cases hr
      exact .of_awaits (fun n hn => hown.awaits n (List.mem_filter.mpr ⟨hn, by simp⟩)) rfl
    | cons name stops =>
      cases hr
      rw [if_neg (Bool.eq_false_iff.mp horderly)]
      exact .of_awaits hown.awaits rfl
  | restartGet name stops starts =>
    have hkeeps : Keeps s s' := keeps_run hr rfl rfl rfl id
    obtain ⟨s₁, hlock, hr⟩ := Option.bind_eq_some_iff.mp hr
    have hs₁ := h.keeps (keeps_lock hlock)
    cases hr
    split_ifs with hended
    · exact (Cleared.of_keeps h hkeeps (h.childless_of_zero ((keeps_lock hlock).pid name ▸
        hs₁.ended name hended))).carries hown (fun n => eq_or_mem_filter) fun _ => id
    · refine .of_keeps h hkeeps ?_
      refine ⟨hown.awaits, fun n pid hn => ?_⟩
      cases List.mem_singleton.mp hn
      exact .inl ((keeps_lock hlock).pid name).symm
  | restartTree name pid stops starts =>
    have htarget := hown.targets name pid List.mem_cons_self
    have htree : Cleared s (if 0 < pid then s.stopProcessTree o pid else s) name := by
      split_ifs with hpos
      · exact cleared_stopProcessTree h hkilled htarget
      · refine .of_keeps h (.refl s) (htarget.elim (fun hpid => ?_) id)
        exact h.childless_of_zero (hpid.trans (Nat.eq_zero_of_not_pos hpos))
    cases hr
    exact htree.carries hown (fun n hn => (List.mem_cons.mp hn).elim .inl eq_or_mem_filter)
      (List.forall_mem_nil _)
  | restartClear name stops starts =>
    obtain ⟨s₁, hlock, hr⟩ := Option.bind_eq_some_iff.mp hr
    cases hr
    exact ((cleared_locked h hlock (hown.awaits name List.mem_cons_self) fun _ => rfl).keeps
      (keeps_unlock _)).carries hown (fun n hn => .inr (List.mem_cons_of_mem name hn)) fun _ => id
  | restartStarts starts =>
    refine .of_keeps h (keeps_run hr rfl rfl rfl id) ?_
    cases starts with
    | nil =>
      cases hr
      exact .of_nil rfl rfl
    | cons name starts =>
      cases hr
      split_ifs
      · exact .of_nil rfl rfl
      · exact .of_awaits hown.awaits rfl
  | restartReset name starts =>
    obtain ⟨s₁, hlock, hr⟩ := Option.bind_eq_some_iff.mp hr
    cases hr
    exact (cleared_locked h hlock (hown.awaits name List.mem_cons_self) fun _ => rfl).starts
      fun n hn => hown.awaits n (List.mem_cons_of_mem name hn)
  | monitorScan =>
    have hkeeps : Keeps s s' := keeps_run hr rfl rfl rfl id
    obtain ⟨s₁, hlock, hr⟩ := Option.bind_eq_some_iff.mp hr
    have hscan := childless_scan (L := L) (o := o) L.names (h.keeps (keeps_lock hlock))
    cases hr
    exact ⟨h.keeps hkeeps, .of_keeps hkeeps [], .of_awaits hscan rfl⟩
  | monitorExits found healths =>
    refine .of_keeps h (keeps_run hr rfl rfl rfl id) ?_
    cases found with
    | nil =>
      cases hr
      exact .of_nil rfl rfl
    | cons exit found =>
      obtain ⟨s₁, -, hr⟩ := Option.bind_eq_some_iff.mp hr
      have hrest : ∀ n ∈ found.map Prod.fst, Childless s n := fun n hn =>
        hown.awaits n (List.mem_cons_of_mem _ hn)
      dsimp only [handleExit] at hr
      split_ifs at hr <;> cases hr
      · exact .of_awaits hrest rfl
      · exact .of_awaits hrest rfl
      · exact .of_awaits hown.awaits rfl
      · exact .of_awaits hown.awaits rfl
      · exact .of_awaits hrest rfl
  | exitDelay name found healths =>
    refine .of_keeps h (keeps_run hr rfl rfl rfl id) ?_
    simp only [ProcessManager.run] at hr
    split_ifs at hr <;> cases hr
    · exact .of_awaits (fun n hn => hown.awaits n (List.mem_cons_of_mem name hn)) rfl
    · exact .of_awaits hown.awaits rfl
    · exact hown
  | exitCheck name found healths =>
    have hkeeps : Keeps s s' := keeps_run hr rfl rfl rfl id
    obtain ⟨s₁, hlock, hr⟩ := Option.bind_eq_some_iff.mp hr
    have hrest : ∀ n ∈ found.map Prod.fst, Childless s n := fun n hn =>
      hown.awaits n (List.mem_cons_of_mem name hn)
    split_ifs at hr <;> cases hr
    · refine .of_keeps h hkeeps ?_
      exact .of_awaits hrest rfl
    · exact (Cleared.of_keeps h hkeeps (hown.awaits name List.mem_cons_self)).starts hrest
  | monitorHealths healths =>
    cases healths with
    | nil =>
      cases hr
      exact .of_keeps h (.refl s) (.of_nil rfl rfl)
    | cons name healths =>
      obtain ⟨s₁, hlock, hr⟩ := Option.bind_eq_some_iff.mp hr
      cases hr
      exact (((cleared_stopProcess (h.keeps (keeps_lock hlock)) hkilled name).after
        (keeps_lock hlock)).keeps (keeps_restarting _ name)).starts (List.forall_mem_nil _)

end ProcessManager

/-! ### The runs -/

open ProcessManager

variable {τ : Type} [DecidableEq τ] {L : LauncherConf}

/-- No tree of processes outlives `SIGKILL`, a process that is asked to be started does not run, and
a thread launches a process only while no other thread has it in hand. -/
def KeepsApart (L : LauncherConf) (t : LauncherThreads τ) (i : τ × Move) : Prop :=
  match i.2 with
  | .call c o => o.killed = true ∧ c.Orderly t.shared
  | .run o => o.killed = true ∧ (t.locals i.1).Orderly L t.shared ∧
      ∀ other, other ≠ i.1 → ∀ name ∈ (t.locals i.1).launches, name ∉ (t.locals other).inHand L
  | .exit _ | .tick _ => True

/-- The children are in the table, and every thread has in hand what it takes to have. -/
structure AllTracked (L : LauncherConf) (t : LauncherThreads τ) : Prop where
  tracked : Tracked t.shared
  inHand : ∀ thread, InHand L t.shared (t.locals thread)

omit [DecidableEq τ] in
theorem AllTracked.new : AllTracked L (LauncherThreads.new τ) :=
  ⟨.new, fun _ => .of_nil rfl rfl⟩

/-- What the step of a thread carries over it has for all threads. -/
theorem AllTracked.carries {t : LauncherThreads τ} {thread : τ} {launched : List String}
    {s' : ProcessManager} {pc' : Pc} (h : AllTracked L t)
    (hc : Carries L launched t.shared s' pc')
    (hothers : ∀ other, other ≠ thread → ∀ name ∈ launched, name ∉ (t.locals other).inHand L) :
    AllTracked L (⟨s', Function.update t.locals thread pc'⟩ : LauncherThreads τ) := by
  refine ⟨hc.tracked, fun other => ?_⟩
  dsimp only
  by_cases hother : other = thread
  · rw [hother, Function.update_self]
    exact hc.own
  · rw [Function.update_of_ne hother]
    exact (h.inHand other).undisturbed hc.others hc.tracked (hothers other hother)

theorem AllTracked.step {t t' : LauncherThreads τ} {i : τ × Move} (h : AllTracked L t)
    (hG : KeepsApart L t i) (hi : t.step (act L) i = some t') : AllTracked L t' := by
  obtain ⟨s', pc', hact, rfl⟩ := Threads.step_eq_some hi
  obtain ⟨thread, m⟩ := i
  have hnothing : ∀ other, other ≠ thread → ∀ name ∈ ([] : List String),
      name ∉ (t.locals other).inHand L := fun _ _ _ hn => absurd hn List.not_mem_nil
  cases m with
  | call c o =>
    dsimp only at hact
    cases hidle : t.locals thread with
    | idle =>
      rw [hidle] at hact
      exact h.carries (carries_begin h.tracked hG.1 hG.2 hact) hnothing
    | _ =>
      rw [hidle] at hact
      cases hact
  | run o =>
    obtain ⟨hkilled, horderly, hothers⟩ := hG
    exact h.carries (carries_run h.tracked hkilled (h.inHand thread) horderly hact) hothers
  | exit pid =>
    cases hact
    exact h.carries (.of_keeps h.tracked (keeps_exit _ pid) (h.inHand thread)) hnothing
  | tick nsec =>
    cases hact
    have hsame : SameTable t.shared { t.shared with clock := t.shared.clock + nsec } := ⟨rfl, rfl⟩
    exact h.carries (.of_sameTable h.tracked hsame (h.inHand thread)) hnothing

/-- However the operations interleave: as long as they keep apart, no name ever has two children,
and every child is in the table under its name. -/
theorem children_tracked {s : LauncherThreads τ}
    (h : Reaches (Threads.step (act L)) (KeepsApart L) (LauncherThreads.new τ) s) :
    (∀ p p' c c', s.shared.children p = some c → s.shared.children p' = some c' →
      c.name = c'.name → p = p') ∧
    ∀ p c, s.shared.children p = some c → (s.shared.processes c.name).pid = p := by
  have htracked : Tracked s.shared :=
    (h.invariant (I := AllTracked L) (fun hI hG hs => hI.step hG hs) .new).tracked
  refine ⟨fun p p' c c' hc hc' hname => ?_, htracked.pid⟩
  rw [← htracked.pid p c hc, ← htracked.pid p' c' hc', hname]

section Runs

instance (s : ProcessManager) (c : Call) : Decidable (c.Orderly s) := by
  cases c <;> unfold Call.Orderly <;> infer_instance

instance (s : ProcessManager) (pc : Pc) : Decidable (pc.Orderly L s) := by
  unfold Pc.Orderly
  split <;> infer_instance

instance [Fintype τ] (t : LauncherThreads τ) (i : τ × Move) : Decidable (KeepsApart L t i) := by
  unfold KeepsApart
  split <;> infer_instance

/-- The daemon is started and ends, the monitor starts it again, and it is restarted. -/
theorem children_tracked_restart :
    ∃ s : LauncherThreads Bool,
      s.shared.children 12 = some ⟨"daemon", true⟩ ∧
      (∀ p p' c c', s.shared.children p = some c → s.shared.children p' = some c' →
        c.name = c'.name → p = p') ∧
      ∀ p c, s.shared.children p = some c → (s.shared.processes c.name).pid = p := by
  let monitor (n : Nat) (pid : PID) := List.replicate n (true, Move.run (.success pid))
  let operator (n : Nat) (pid : PID) := List.replicate n (false, Move.run (.success pid))
  let moves : List (Bool × Move) :=
    (false, .call (.startProcess "daemon") (.success 10)) :: operator 2 10 ++
      (false, .call .startMonitoring (.success 0)) :: (true, .call .monitorLoop (.success 0)) ::
      (true, .exit 10) :: monitor 8 11 ++
      (false, .call (.restartProcess "daemon") (.success 12)) :: operator 2 12
  have hrun : moves.foldlM (checkedStep (Threads.step (act (.ofDaemon .default)))
      (KeepsApart (.ofDaemon .default))) (LauncherThreads.new Bool) = some _ := rfl
  exact ⟨_, rfl, children_tracked (.of_checked hrun)⟩

end Runs

/-- The daemon runs, and is asked to start once more: its first child is lost. -/
theorem children_not_tracked :
    ∃ s : LauncherThreads Nat,
      Reaches (Threads.step (act (.ofDaemon .default))) (fun _ _ => True)
        (LauncherThreads.new Nat) s ∧
      s.shared.children 10 = some ⟨"daemon", true⟩ ∧
      s.shared.children 11 = some ⟨"daemon", true⟩ ∧
      (s.shared.processes "daemon").pid = 11 := by
  let start (pid : PID) (thread : Nat) : List (Nat × Move) :=
    [(thread, .call (.startProcess "daemon") (.success pid)), (thread, .run (.success pid)),
      (thread, .run (.success pid))]
  have hrun : (start 10 0 ++ start 11 1).foldlM (Threads.step (act (.ofDaemon .default)))
      (LauncherThreads.new Nat) = some _ := rfl
  exact ⟨_, .of_foldlM (fun _ _ _ => trivial) hrun, rfl, rfl, rfl⟩

end Uniset.Launcher
