import Uniset.Lib.GuardedRun
import Mathlib.Logic.Function.Basic

/-! The mode of the exchange, set by its sensor or over HTTP. -/

namespace Uniset.OPCUAExchange

open Uniset.Lib

def emLastNumber : Int := 5

/-- Where the thread is that gets the messages: it has stored the mode of the sensor, or it has found
that there is no control over HTTP. -/
inductive MessagePlace
  | idle
  | stored (value : Int)
  | tested (value : Int)
  deriving DecidableEq

/-- Where a thread of the HTTP server is, after the last atomic step of its request. -/
inductive HttpPlace
  | idle
  | takes
  | released
  | loaded (value : Int)
  | sets (value : Int)
  deriving DecidableEq

/-- The last fields are not in the code: the mode the sensor has reported last, and whether control has
been taken since the notification that is handled came. -/
structure ModeControl (τ : Type*) where
  exchangeMode : Int
  sensorExchangeMode : Int
  httpControlActive : Bool
  httpControlAllow : Bool
  message : MessagePlace
  http : τ → HttpPlace
  reported : Int
  taken : Bool

/-- A request or a notification comes, or what has been begun goes on. -/
inductive ModeStep (τ : Type*)
  | notify (value : Int)
  | message
  | takeControl (i : τ)
  | releaseControl (i : τ)
  | setparam (i : τ) (value : Int)
  | http (i : τ)

namespace ModeControl

variable {τ : Type*} [DecidableEq τ]

/-- The mode at the start, which is that of the sensor too. -/
def init (default_emode : Int) (httpControlAllow : Bool) : ModeControl τ :=
  let mode := if 0 < default_emode ∧ default_emode < emLastNumber then default_emode else 0
  ⟨mode, mode, false, httpControlAllow, .idle, fun _ => .idle, mode, false⟩

variable (s : ModeControl τ)

/-- `sensorInfo`, or `updateFromSM` with the value it has got: the first store. -/
def notify (value : Int) : ModeControl τ :=
  match s.message with
  | .idle =>
    { s with sensorExchangeMode := value, message := .stored value, reported := value, taken := false }
  | _ => s

def onMessage : ModeControl τ :=
  match s.message with
  | .idle => s
  | .stored value => { s with message := if s.httpControlActive then .idle else .tested value }
  | .tested value => { s with exchangeMode := value, message := .idle }

def setHttp (i : τ) (place : HttpPlace) : ModeControl τ :=
  { s with http := Function.update s.http i place }

/-- `httpTakeControl` up to its test. -/
def takeControl (i : τ) : ModeControl τ :=
  if s.http i = .idle ∧ s.httpControlAllow ∧ !s.httpControlActive then s.setHttp i .takes else s

/-- `httpReleaseControl` with its first store. -/
def releaseControl (i : τ) : ModeControl τ :=
  if s.http i = .idle then { s.setHttp i .released with httpControlActive := false } else s

/-- The request to set a parameter, up to its tests. -/
def setparam (i : τ) (value : Int) : ModeControl τ :=
  if s.http i = .idle ∧ s.httpControlActive ∧ 0 ≤ value ∧ value < emLastNumber then
    s.setHttp i (.sets value)
  else s

def onHttp (i : τ) : ModeControl τ :=
  match s.http i with
  | .idle => s
  | .takes =>
    { s.setHttp i .idle with
      httpControlActive := true
      taken := s.taken || s.message ≠ .idle }
  | .released => s.setHttp i (.loaded s.sensorExchangeMode)
  | .loaded value => { s.setHttp i .idle with exchangeMode := value }
  | .sets value => { s.setHttp i .idle with exchangeMode := value }

def step : ModeStep τ → ModeControl τ
  | .notify value => s.notify value
  | .message => s.onMessage
  | .takeControl i => s.takeControl i
  | .releaseControl i => s.releaseControl i
  | .setparam i value => s.setparam i value
  | .http i => s.onHttp i

/-- Nothing is under way. -/
def Quiet : Prop := s.message = .idle ∧ ∀ i, s.http i = .idle

/-- A notification that has come while there is control over HTTP does not change the mode, and
without such control it is, when nothing is under way, the mode of the sensor. -/
structure Controlled (step : ModeStep τ) : Prop where
  kept : step = .message → s.httpControlActive = true → s.taken = false →
    (s.step step).exchangeMode = s.exchangeMode
  follows : (s.step step).httpControlActive = false → (s.step step).Quiet →
    (s.step step).exchangeMode = (s.step step).reported

/-- A mode that is loaded to be restored is stored before a notification of another one has been
handled since, and control is not released while another request sets the mode. -/
def Orderly : ModeStep τ → Prop
  | .http i => ∀ value, s.http i = .loaded value →
      value = s.sensorExchangeMode ∨ s.message ≠ .idle
  | .releaseControl _ => ∀ j value, s.http j ≠ .sets value
  | _ => True

/-- Without control the mode is that of the sensor, or it is about to be stored. -/
structure Tracks : Prop where
  reported : s.sensorExchangeMode = s.reported
  message : ∀ value, s.message = .stored value ∨ s.message = .tested value →
    value = s.sensorExchangeMode
  tested : ∀ value, s.message = .tested value → s.httpControlActive = true → s.taken = true
  sets : ∀ i value, s.http i = .sets value → s.httpControlActive = true
  follows : s.httpControlActive = false → s.exchangeMode = s.sensorExchangeMode ∨
    s.message ≠ .idle ∨ ∃ i, s.http i = .released ∨ ∃ value, s.http i = .loaded value

variable {s}

omit [DecidableEq τ] in
theorem tracks_init (default_emode : Int) (httpControlAllow : Bool) :
    (init default_emode httpControlAllow : ModeControl τ).Tracks :=
  ⟨rfl, nofun, nofun, nofun, fun _ => .inl rfl⟩

theorem setHttp_sets {i j : τ} {place : HttpPlace} {value : Int}
    (h : (s.setHttp i place).http j = .sets value) :
    j = i ∧ place = .sets value ∨ j ≠ i ∧ s.http j = .sets value := by
  unfold setHttp at h
  dsimp only at h
  by_cases heq : j = i
  · subst heq
    rw [Function.update_self] at h
    exact .inl ⟨rfl, h⟩
  · rw [Function.update_of_ne heq] at h
    exact .inr ⟨heq, h⟩

/-- A request begins without a store. -/
theorem Tracks.begins (h : s.Tracks) {i : τ} {place : HttpPlace} (hidle : s.http i = .idle)
    (hsets : ∀ value, place = .sets value → s.httpControlActive = true) :
    (s.setHttp i place).Tracks := by
  refine ⟨h.reported, h.message, h.tested, fun j value hj => ?_, fun hactive => ?_⟩
  · rcases setHttp_sets hj with ⟨-, hplace⟩ | ⟨-, hj⟩
    · exact hsets value hplace
    · exact h.sets j value hj
  · refine (h.follows hactive).imp_right fun hrest => hrest.imp_right ?_
    rintro ⟨j, hj⟩
    have hne : j ≠ i := by
      rintro rfl
      rcases hj with hj | ⟨value, hj⟩ <;> cases hidle.symm.trans hj
    refine ⟨j, ?_⟩
    unfold setHttp
    dsimp only
    rwa [Function.update_of_ne hne]

omit [DecidableEq τ] in
theorem tracks_onMessage (h : s.Tracks) : s.onMessage.Tracks := by
  unfold onMessage
  cases hmessage : s.message with
  | idle => exact h
  | stored value =>
    dsimp only
    by_cases hactive : s.httpControlActive = true
    · rw [if_pos hactive]
      exact ⟨h.reported, nofun, nofun, h.sets, fun hf => by cases hactive.symm.trans hf⟩
    · rw [if_neg hactive]
      refine ⟨h.reported, fun v hv => ?_, fun v _ ht => absurd ht hactive, h.sets, fun _ =>
        .inr (.inl nofun)⟩
      rcases hv with hv | hv <;> cases hv
      exact h.message value (.inl hmessage)
  | tested value =>
    exact ⟨h.reported, nofun, nofun, h.sets, fun _ => .inl (h.message value (.inr hmessage))⟩

theorem tracks_onHttp (h : s.Tracks) {i : τ} (hstep : s.Orderly (.http i)) :
    (s.onHttp i).Tracks := by
  have hidle : ∀ (j : τ) (value : Int) (place : HttpPlace), (∀ v, place ≠ .sets v) →
      (s.setHttp i place).http j = .sets value → s.httpControlActive = true :=
    fun j value place hplace hj => by
      rcases setHttp_sets hj with ⟨-, heq⟩ | ⟨-, hj⟩
      · exact absurd heq (hplace value)
      · exact h.sets j value hj
  unfold onHttp
  cases hhttp : s.http i with
  | idle => exact h
  | takes =>
    refine ⟨h.reported, h.message, fun v hv _ => ?_, fun _ _ _ => rfl, nofun⟩
    have hne : s.message ≠ .idle := by
      intro heq
      cases heq.symm.trans hv
    simp [hne]
  | released =>
    refine ⟨h.reported, h.message, h.tested, fun j value => hidle j value _ nofun, fun _ =>
      .inr (.inr ⟨i, .inr ⟨s.sensorExchangeMode, ?_⟩⟩)⟩
    unfold setHttp
    dsimp only
    rw [Function.update_self]
  | loaded value =>
    refine ⟨h.reported, h.message, h.tested, fun j v => hidle j v _ nofun, fun _ => ?_⟩
    exact (hstep value hhttp).imp_right .inl
  | sets value =>
    have hactive := h.sets i value hhttp
    exact ⟨h.reported, h.message, h.tested, fun j v => hidle j v _ nofun, fun hf => by
      cases hactive.symm.trans hf⟩

theorem tracks_step (h : s.Tracks) {step : ModeStep τ} (hstep : s.Orderly step) :
    (s.step step).Tracks := by
  cases step with
  | notify value =>
    change (s.notify value).Tracks
    unfold notify
    split
    · refine ⟨rfl, fun v hv => ?_, nofun, h.sets, fun _ => .inr (.inl nofun)⟩
      rcases hv with hv | hv <;> cases hv
      rfl
    · exact h
  | message => exact tracks_onMessage h
  | takeControl i =>
    change (s.takeControl i).Tracks
    unfold takeControl
    split_ifs with hcond
    · exact h.begins hcond.1 nofun
    · exact h
  | releaseControl i =>
    change (s.releaseControl i).Tracks
    unfold releaseControl
    split_ifs
    · refine ⟨h.reported, h.message, nofun, fun j value hj => ?_, fun _ =>
        .inr (.inr ⟨i, .inl ?_⟩)⟩
      · rcases setHttp_sets hj with ⟨-, hplace⟩ | ⟨-, hj⟩
        · cases hplace
        · exact absurd hj (hstep j value)
      · unfold setHttp
        dsimp only
        rw [Function.update_self]
    · exact h
  | setparam i value =>
    change (s.setparam i value).Tracks
    unfold setparam
    split_ifs with hcond
    · exact h.begins hcond.1 fun _ _ => hcond.2.1
    · exact h
  | http i => exact tracks_onHttp h hstep

theorem controlled_of_tracks (h : s.Tracks) {step : ModeStep τ} (hstep : s.Orderly step) :
    s.Controlled step := by
  refine ⟨fun hmessage hactive htaken => ?_, fun hactive hquiet => ?_⟩
  · subst hmessage
    change s.onMessage.exchangeMode = s.exchangeMode
    unfold onMessage
    cases hmessage : s.message with
    | idle => rfl
    | stored value => rfl
    | tested value => cases htaken.symm.trans (h.tested value hmessage hactive)
  · have hnext := tracks_step h hstep
    rw [← hnext.reported]
    rcases hnext.follows hactive with heq | hrunning | ⟨i, hi⟩
    · exact heq
    · exact absurd hquiet.1 hrunning
    · rcases hi with hi | ⟨value, hi⟩ <;> cases (hquiet.2 i).symm.trans hi

/-- In every run of such steps the mode is under the control that is in force. -/
theorem controlled_of_orderly (default_emode : Int) (httpControlAllow : Bool)
    {steps : List (ModeStep τ)}
    (h : Guarded step Orderly (init default_emode httpControlAllow) steps) :
    Guarded step Controlled (init default_emode httpControlAllow) steps :=
  h.of_invariant (I := Tracks) (fun _ _ hs hstep => ⟨controlled_of_tracks hs hstep,
    tracks_step hs hstep⟩) (tracks_init default_emode httpControlAllow)

/-- Control is taken, the mode is set and reported, and control is released. -/
theorem controlled_released :
    Guarded step Controlled (init 1 true : ModeControl Unit)
      [.takeControl (), .http (), .setparam () 4, .http (), .notify 2, .message,
        .releaseControl (), .http (), .http ()] :=
  controlled_of_orderly 1 true (by
    refine ⟨trivial, nofun, trivial, nofun, trivial, trivial, nofun, nofun, ?_, trivial⟩
    intro value hvalue
    cases hvalue
    exact .inl rfl)

/-- The sensor reports another mode between the load and the store of the release. -/
theorem not_controlled_between :
    ¬Guarded step Controlled (init 1 true : ModeControl Unit)
      [.takeControl (), .http (), .releaseControl (), .http (), .notify 2, .message, .message,
        .http ()] := by
  rintro ⟨-, -, -, -, -, -, -, h, -⟩
  have hmode := h.follows rfl ⟨rfl, fun _ => rfl⟩
  exact absurd hmode (by decide)

end ModeControl

end Uniset.OPCUAExchange
