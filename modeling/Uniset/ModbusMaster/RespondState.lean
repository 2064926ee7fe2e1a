import Uniset.ModbusMaster.PollCycle
import Uniset.Timers.DelayTimer

/-! Whether a device responds, as another thread than the one that polls it makes out. -/

namespace Uniset.ModbusMaster

open Uniset.Lib Uniset.Modbus ExchangeMode

/-- What is known of the replies of a device; times are in ns.  The last fields are not in the code:
when the device last answered, when the last poll cycle with it began, and when those began that
`checkRespond` looks at now and that it looked at before. -/
structure Respond where
  now : Nat
  numreply : Nat
  prev_numreply : Nat
  resp_Delay : DelayTimer
  resp_state : Bool
  loaded : Nat
  lastAnswer : Option Nat
  cycleStart : Nat
  since : Nat
  seen : Nat

inductive RespondStep
  | tick (ns : Nat)
  | beginCycle (hasModeId : Bool) (mode : ExchangeMode)
  | pollRegister (c : PassMode) (size : Nat) (regs : Nat → RegInfo) (it : Nat) (reply : Reply)
  | loadPrev
  | checkRespond
  | isSafeMode

/-- What the loop counts as a reply. -/
def counts (c : PassMode) (size : Nat) (regs : Nat → RegInfo) (it : Nat) (reply : Reply) : Bool :=
  !skips c (regs it) &&
    match pollRTU c.exchangeMode c.mode size regs it reply with
    | some ⟨_, _, .ok b⟩ => b
    | _ => false

/-- A query has been sent, and has an answer. -/
def answers (c : PassMode) (size : Nat) (regs : Nat → RegInfo) (it : Nat) (reply : Reply) : Bool :=
  asks c regs it &&
    match exchange size regs it reply with
    | some ⟨_, _, .ok _⟩ => true
    | _ => false

namespace Respond

/-- `initDeviceInfo`. -/
def initDeviceInfo (now : Nat) (tout : Int32) : Respond :=
  ⟨now, 0, 0, .set now 0 tout.toNatClampNeg, false, 0, none, now, now, now⟩

def pollRegister (s : Respond) (c : PassMode) (size : Nat) (regs : Nat → RegInfo) (it : Nat)
    (reply : Reply) : Respond :=
  { s with
    numreply := if counts c size regs it reply then s.numreply + 1 else s.numreply
    lastAnswer := if answers c size regs it reply then some s.now else s.lastAnswer }

/-- The cycle passes by a device that is not to be exchanged with. -/
def beginCycle (s : Respond) (hasModeId : Bool) (mode : ExchangeMode) : Respond :=
  if hasModeId ∧ mode = emSkipExchange then s
  else { s with prev_numreply := s.numreply, cycleStart := s.now }

def checkRespond (s : Respond) : Respond :=
  let resp_Delay := s.resp_Delay.check s.now (s.loaded ≠ s.numreply)
  { s with
    resp_state := resp_Delay.state && s.numreply ≠ 0
    resp_Delay := resp_Delay.get s.now
    seen := s.since }

def step (s : Respond) : RespondStep → Respond
  | .tick ns => { s with now := s.now + ns }
  | .beginCycle hasModeId mode => s.beginCycle hasModeId mode
  | .pollRegister c size regs it reply => s.pollRegister c size regs it reply
  | .loadPrev => { s with loaded := s.prev_numreply, since := s.cycleStart }
  | .checkRespond => s.checkRespond
  | .isSafeMode => { s with resp_Delay := s.resp_Delay.get s.now }

def AnsweredSince (s : Respond) (t : Nat) : Prop := ∃ a, s.lastAnswer = some a ∧ t ≤ a

/-- Only answers are counted, and a device that is said to respond has answered within its timeout
and one cycle. -/
structure Honest (cycle : Nat) (s : Respond) (step : RespondStep) : Prop where
  counted : ∀ c size regs it reply, step = .pollRegister c size regs it reply →
    s.numreply < (s.step step).numreply → answers c size regs it reply = true
  responds : step = .checkRespond → (s.step step).resp_state = true →
    s.AnsweredSince (s.now - s.resp_Delay.offDelay * 1000000 - cycle)

/-- A register that is not skipped is asked for, if it counts; and the poll cycle in which replies
have been found last has not begun longer than `cycle` ago, when that is found and when it is found
first that there are no more. -/
def Timely (cycle : Nat) (s : Respond) : RespondStep → Prop
  | .pollRegister c _ regs it _ =>
      skips c (regs it) = false → ask c.exchangeMode c.mode regs it ≠ .inl true
  | .checkRespond =>
      if s.loaded ≠ s.numreply then s.now ≤ s.since + cycle
      else s.resp_Delay.prevState = true → s.now ≤ s.seen + cycle
  | _ => True

/-- Where replies are counted the device has answered since the time that is kept with them. -/
structure Tracks (cycle : Nat) (s : Respond) : Prop where
  answer : ∀ a, s.lastAnswer = some a → a ≤ s.now
  start : s.cycleStart ≤ s.now
  since : s.since ≤ s.now
  fresh : s.prev_numreply ≠ s.numreply → s.AnsweredSince s.cycleStart
  loaded : s.loaded ≠ s.numreply → s.AnsweredSince s.since
  last : s.resp_Delay.prevState = true → s.AnsweredSince s.seen
  releasing : s.resp_Delay.Releasing
  offDelay : s.resp_Delay.offDelay < WaitUpTime
  waiting : s.resp_Delay.waiting_off = true → s.resp_Delay.pt.t_msec = s.resp_Delay.offDelay ∧
    s.resp_Delay.pt.t_start ≤ s.now ∧ s.AnsweredSince (s.resp_Delay.pt.t_start - cycle)

variable {cycle : Nat} {s : Respond}

theorem AnsweredSince.mono {t u : Nat} (h : s.AnsweredSince u) (hle : t ≤ u) : s.AnsweredSince t := by
  obtain ⟨a, ha, hua⟩ := h
  exact ⟨a, ha, hle.trans hua⟩

end Respond

theorem answers_of_counts {c : PassMode} {size : Nat} {regs : Nat → RegInfo} {it : Nat}
    {reply : Reply} (hask : skips c (regs it) = false → ask c.exchangeMode c.mode regs it ≠ .inl true)
    (h : counts c size regs it reply = true) : answers c size regs it reply = true := by
  unfold counts at h
  obtain ⟨hskip, hresult⟩ := (Bool.and_eq_true _ _).mp h
  have hskip : skips c (regs it) = false := by simpa using hskip
  unfold pollRTU at hresult
  cases hquery : ask c.exchangeMode c.mode regs it with
  | inl b =>
    rw [hquery] at hresult
    obtain rfl : b = true := hresult
    exact absurd hquery (hask hskip)
  | inr q =>
    rw [hquery] at hresult
    unfold answers
    rw [asks_eq_true_iff.mpr ⟨hskip, q, hquery⟩, Bool.true_and]
    cases hexchange : exchange size regs it reply with
    | none => rw [hexchange] at hresult; cases hresult
    | some polled =>
      rw [hexchange] at hresult
      obtain ⟨regs', it', result⟩ := polled
      cases result with
      | error err => cases hresult
      | ok b => rfl

namespace Respond

variable {cycle : Nat} {s : Respond}

theorem tracks_pollRegister (h : Tracks cycle s) {c : PassMode} {size : Nat} {regs : Nat → RegInfo}
    {it : Nat} {reply : Reply}
    (hask : skips c (regs it) = false → ask c.exchangeMode c.mode regs it ≠ .inl true) :
    Tracks cycle (s.pollRegister c size regs it reply) := by
  -- an answer is the last one from now on
  have hsince : ∀ t ≤ s.now, s.AnsweredSince t →
      (s.pollRegister c size regs it reply).AnsweredSince t := fun t ht hans => by
    unfold pollRegister AnsweredSince
    dsimp only
    split_ifs
    · exact ⟨s.now, rfl, ht⟩
    · exact hans
  have hnew : ∀ n t, t ≤ s.now → (n ≠ s.numreply → s.AnsweredSince t) →
      n ≠ (s.pollRegister c size regs it reply).numreply →
      (s.pollRegister c size regs it reply).AnsweredSince t := fun n t ht hold hne => by
    by_cases hcounts : counts c size regs it reply = true
    · refine ⟨s.now, ?_, ht⟩
      unfold pollRegister
      dsimp only
      rw [if_pos (answers_of_counts hask hcounts)]
    · refine hsince t ht (hold fun hn => hne ?_)
      unfold pollRegister
      dsimp only
      rw [if_neg hcounts, hn]
  have hold : ∀ t, s.AnsweredSince t → (s.pollRegister c size regs it reply).AnsweredSince t :=
    fun t ⟨a, ha, hta⟩ => hsince t (hta.trans (h.answer a ha)) ⟨a, ha, hta⟩
  refine ⟨fun a ha => ?_, h.start, h.since, hnew _ _ h.start h.fresh, hnew _ _ h.since h.loaded,
    fun hp => hold _ (h.last hp), h.releasing, h.offDelay, fun hw => ?_⟩
  · unfold pollRegister at ha
    dsimp only at ha
    split_ifs at ha
    · exact (Option.some.inj ha).ge
    · exact h.answer a ha
  · obtain ⟨hmsec, hstart, hans⟩ := h.waiting hw
    exact ⟨hmsec, hstart, hold _ hans⟩

/-- The timer is checked with a signal. -/
theorem tracks_check (h : Tracks cycle s) {st : Bool} {seen : Nat}
    (hst : st = true → s.AnsweredSince seen)
    (hlate : st = false → s.resp_Delay.prevState = true → s.AnsweredSince (s.now - cycle)) (b : Bool) :
    Tracks cycle { s with resp_Delay := s.resp_Delay.check s.now st, resp_state := b, seen := seen } ∧
      (st = false → (s.resp_Delay.check s.now st).state = true →
        s.AnsweredSince (s.now - s.resp_Delay.offDelay * 1000000 - cycle)) := by
  obtain ⟨hrel, hoff, hprev, hcheck⟩ := DelayTimer.check_releasing h.releasing s.now st
  have htracks : ((s.resp_Delay.check s.now st).waiting_off = true →
      (s.resp_Delay.check s.now st).pt.t_msec = (s.resp_Delay.check s.now st).offDelay ∧
        (s.resp_Delay.check s.now st).pt.t_start ≤ s.now ∧
        s.AnsweredSince ((s.resp_Delay.check s.now st).pt.t_start - cycle)) →
      Tracks cycle
        { s with resp_Delay := s.resp_Delay.check s.now st, resp_state := b, seen := seen } :=
    fun hwaiting => ⟨h.answer, h.start, h.since, h.fresh, h.loaded,
      fun hp => hst (hprev.symm.trans hp), hrel, hoff.trans_lt h.offDelay, hwaiting⟩
  cases hcheck with
  | follows hwait hstate =>
    refine ⟨htracks fun hw => ?_, fun hfalse htrue => ?_⟩
    · cases hwait.symm.trans hw
    · cases (hfalse.symm.trans hstate.symm).trans htrue
  | begins hfalse hwas _ hpt =>
    refine ⟨htracks fun _ => ?_, fun _ _ => (hlate hfalse hwas).mono (by omega)⟩
    rw [hpt, hoff]
    exact ⟨rfl, le_rfl, hlate hfalse hwas⟩
  | waits hfalse hwas _ htime hpt =>
    obtain ⟨hmsec, hstart, hans⟩ := h.waiting hwas
    refine ⟨htracks fun _ => ?_, fun _ _ => hans.mono ?_⟩
    · rw [hpt, hoff]
      exact ⟨hmsec, hstart, hans⟩
    · have hlt := h.offDelay
      unfold PassiveTimer.checkTime at htime
      rw [hmsec, if_neg hlt.ne] at htime
      split_ifs at htime
      have := of_decide_eq_false htime
      omega

theorem tracks_checkRespond (h : Tracks cycle s) (htimely : Timely cycle s .checkRespond) :
    Tracks cycle s.checkRespond ∧ (s.checkRespond.resp_state = true →
      s.AnsweredSince (s.now - s.resp_Delay.offDelay * 1000000 - cycle)) := by
  change if s.loaded ≠ s.numreply then s.now ≤ s.since + cycle
    else s.resp_Delay.prevState = true → s.now ≤ s.seen + cycle at htimely
  have hst : decide (s.loaded ≠ s.numreply) = true → s.AnsweredSince s.since := fun hne =>
    h.loaded (of_decide_eq_true hne)
  obtain ⟨hcheck, hstate⟩ := tracks_check h hst (fun hsame hwas => by
    rw [if_neg (of_decide_eq_false hsame)] at htimely
    exact (h.last hwas).mono (Nat.sub_le_of_le_add (htimely hwas)))
    ((s.resp_Delay.check s.now (s.loaded ≠ s.numreply)).state && s.numreply ≠ 0)
  obtain ⟨-, -, hprev, -⟩ :=
    DelayTimer.check_releasing h.releasing s.now (decide (s.loaded ≠ s.numreply))
  refine ⟨(tracks_check hcheck hcheck.last ?_ _).1, fun hresp => ?_⟩
  · intro hfalse htrue
    cases hfalse.symm.trans htrue
  · have htrue := (Bool.and_eq_true _ _).mp hresp |>.1
    by_cases hne : s.loaded ≠ s.numreply
    · rw [if_pos hne] at htimely
      exact (h.loaded hne).mono (by omega)
    · exact hstate (decide_eq_false hne) htrue

/-! ## Whole runs -/

theorem honest_step {step : RespondStep} (h : Tracks cycle s) (htimely : Timely cycle s step) :
    Honest cycle s step ∧ Tracks cycle (s.step step) := by
  refine ⟨⟨fun c size regs it reply hstep hlt => ?_, fun hstep hresp => ?_⟩, ?_⟩
  · subst hstep
    refine answers_of_counts htimely ?_
    by_contra hnot
    change s.numreply < (s.pollRegister c size regs it reply).numreply at hlt
    unfold pollRegister at hlt
    rw [if_neg hnot] at hlt
    exact Nat.lt_irrefl _ hlt
  · subst hstep
    exact (tracks_checkRespond h htimely).2 hresp
  · cases step with
    | tick ns =>
      exact ⟨fun a ha => (h.answer a ha).trans (Nat.le_add_right _ _),
        h.start.trans (Nat.le_add_right _ _), h.since.trans (Nat.le_add_right _ _), h.fresh, h.loaded,
        h.last, h.releasing, h.offDelay, fun hw =>
          ⟨(h.waiting hw).1, (h.waiting hw).2.1.trans (Nat.le_add_right _ _), (h.waiting hw).2.2⟩⟩
    | beginCycle hasModeId mode =>
      change Tracks cycle (s.beginCycle hasModeId mode)
      unfold beginCycle
      split_ifs
      · exact h
      · exact ⟨h.answer, le_rfl, h.since, fun hne => absurd rfl hne, h.loaded, h.last, h.releasing,
          h.offDelay, h.waiting⟩
    | pollRegister c size regs it reply => exact tracks_pollRegister h htimely
    | loadPrev =>
      exact ⟨h.answer, h.start, h.start, h.fresh, h.fresh, h.last, h.releasing, h.offDelay, h.waiting⟩
    | checkRespond => exact (tracks_checkRespond h htimely).1
    | isSafeMode =>
      refine (tracks_check h h.last (fun hfalse htrue => ?_) s.resp_state).1
      cases hfalse.symm.trans htrue

theorem tracks_initDeviceInfo (cycle now : Nat) (tout : Int32) :
    Tracks cycle (initDeviceInfo now tout) := by
  refine ⟨nofun, le_rfl, le_rfl, fun h => absurd rfl h, fun h => absurd rfl h, nofun,
    ⟨rfl, rfl, nofun, fun _ => rfl⟩, ?_, nofun⟩
  have hlt := tout.toInt_lt
  change tout.toInt.toNat < WaitUpTime
  unfold WaitUpTime
  omega

/-- In every run of such steps the state of the device is what its answers say. -/
theorem responds_of_timely (cycle now : Nat) (tout : Int32) {steps : List RespondStep}
    (h : Guarded step (Timely cycle) (initDeviceInfo now tout) steps) :
    Guarded step (Honest cycle) (initDeviceInfo now tout) steps :=
  h.of_invariant (I := Tracks cycle) (fun _ _ hs hstep => honest_step hs hstep)
    (tracks_initDeviceInfo cycle now tout)

/-- A register that is written, `SharedMemory` having its value or not. -/
def written (sm_initOK : Bool) (k : Nat) : RegInfo :=
  ⟨0, UInt16.ofNat k, 6, [], k, 0, 1, false, sm_initOK, false⟩

/-- The device takes the value, and then it does not answer any more. -/
theorem responds_answered :
    Guarded step (Honest 1000000000) (initDeviceInfo 0 1)
      [.beginCycle true emNone, .pollRegister ⟨emNone, emNone, false, 1⟩ 1 (written true) 0 (.ok []),
        .loadPrev, .checkRespond, .beginCycle true emNone, .tick 1000000000, .loadPrev, .checkRespond,
        .tick 1000000, .isSafeMode, .checkRespond] :=
  responds_of_timely 1000000000 0 1 (by
    refine ⟨trivial, fun _ => by decide, trivial, ?_, trivial, trivial, trivial, ?_, trivial, trivial,
      ?_, trivial⟩
    · dsimp only [Timely]
      decide
    · dsimp only [Timely]
      decide
    · dsimp only [Timely]
      decide)

/-- Nothing has been sent to the device, and it is said to respond. -/
theorem not_responds_notInitialised :
    ¬Guarded step (Honest 1000000000) (initDeviceInfo 0 5000)
      [.beginCycle true emNone, .pollRegister ⟨emNone, emNone, false, 1⟩ 1 (written false) 0 (.ok []),
        .loadPrev, .checkRespond] := by
  rintro ⟨-, -, -, h, -⟩
  obtain ⟨a, ha, -⟩ := h.responds rfl (by decide)
  cases ha

end Respond

end Uniset.ModbusMaster
