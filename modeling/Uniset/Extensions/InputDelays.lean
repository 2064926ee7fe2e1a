import Uniset.Timers.DelayedSignal

/-! What a discrete input does to a sample before it is stored: the filter of bounces, the delays
and the work on fronts. -/

namespace Uniset.Extensions

open Uniset.Lib TimedSignal

/-- The filter of bounces; what a check returns is `debounce_state`. -/
structure Debounce where
  ptDebounce : PassiveTimer
  trdebounce : Trigger
  debounce_pause : Bool
  debounce_state : Bool
  deriving DecidableEq

/-- A delay; what a check returns is its `state`. -/
structure Delay where
  pt : PassiveTimer
  tr : Trigger
  state : Bool
  deriving DecidableEq

inductive FrontType
  | ftUnknown
  | ft01
  | ft10
  deriving DecidableEq

structure Front where
  front : Bool
  front_type : FrontType
  front_prev_state : Bool
  front_state : Bool
  deriving DecidableEq

/-- What an input has for discrete values. -/
structure DelayedDI where
  value : Int
  invert : Bool
  d_off_value : Int
  debounce : Debounce
  onDelay : Delay
  offDelay : Delay
  fronts : Front
  deriving DecidableEq

namespace Debounce

/-- While a pause lasts, changes do not begin another. -/
def check_debounce (b : Debounce) (val : Bool) (now : Nat) : Debounce :=
  if b.ptDebounce.getInterval = 0 then { b with debounce_state := val }
  else
    let (changed, trdebounce) := b.trdebounce.change val
    let b := if changed && !b.debounce_pause then
        { b with trdebounce, debounce_pause := true, ptDebounce := b.ptDebounce.reset now }
      else { b with trdebounce }
    if b.debounce_pause && b.ptDebounce.checkTime now then
      { b with debounce_state := val, debounce_pause := false }
    else b

end Debounce

namespace Delay

/-- The delay of changes to `edge`: the other value passes at once. -/
def check_delay (edge : Bool) (d : Delay) (val : Bool) (now : Nat) : Delay :=
  if d.pt.getInterval = 0 then { d with state := val }
  else
    let (begins, tr) := d.tr.becomes edge val
    let pt := if begins then d.pt.reset now else d.pt
    if val ≠ edge ∨ pt.checkTime now then ⟨pt, tr, val⟩ else ⟨pt, tr, d.state⟩

def check_on_delay (d : Delay) (val : Bool) (now : Nat) : Delay := d.check_delay true val now

def check_off_delay (d : Delay) (val : Bool) (now : Nat) : Delay := d.check_delay false val now

end Delay

namespace Front

def check_front (f : Front) (val : Bool) : Bool × Front :=
  if !f.front ∨ f.front_type = .ftUnknown then (val, f)
  else
    let front_state := match f.front_type with
      | .ft01 => if val && !f.front_prev_state then !f.front_state else f.front_state
      | .ft10 => if !val && f.front_prev_state then !f.front_state else f.front_state
      | .ftUnknown => f.front_state
    (front_state, { f with front_prev_state := val, front_state })

end Front

namespace DelayedDI

/-- An input as it is read from the configuration, without work on fronts.  A delay that is negative
is none, as `WaitUpTime` is. -/
def new (defval d_off_value : Int) (invert : Bool) (debouncedelay ondelay offdelay : Int)
    (created : Nat) : DelayedDI where
  value := defval
  invert := invert
  d_off_value := d_off_value
  debounce := ⟨.setTiming debouncedelay.toNat created, ⟨false⟩, false, false⟩
  onDelay := ⟨.setTiming ondelay.toNat created, ⟨false⟩, false⟩
  offDelay := ⟨.setTiming offdelay.toNat created, ⟨false⟩, false⟩
  fronts := ⟨false, .ftUnknown, false, false⟩

variable (it : DelayedDI)

/-- The sample as it counts; `depend` is what `check_depend` finds. -/
def input (depend set : Bool) : Bool :=
  if !depend then decide (it.d_off_value ≠ 0) else xor set it.invert

/-- The delay of the change that the value stands for comes first. -/
def checkDelays (set : Bool) (now : Nat) : Delay × Delay × Bool :=
  if set then
    let onDelay := it.onDelay.check_on_delay set now
    let offDelay := it.offDelay.check_off_delay onDelay.state now
    (onDelay, offDelay, offDelay.state)
  else
    let offDelay := it.offDelay.check_off_delay set now
    let onDelay := it.onDelay.check_on_delay offDelay.state now
    (onDelay, offDelay, onDelay.state)

/-- The input after a sample, and the value that the sensor is set to, if any. -/
def processingAsDI (depend set force : Bool) (now : Nat) : DelayedDI × Option Int :=
  let debounce := it.debounce.check_debounce (it.input depend set) now
  let (onDelay, offDelay, set) := it.checkDelays debounce.debounce_state now
  let (set, fronts) := it.fronts.check_front set
  let value : Int := if set then 1 else 0
  if force ∨ decide (it.value ≠ 0) ≠ set then
    ({ it with debounce, onDelay, offDelay, fronts, value }, some value)
  else ({ it with debounce, onDelay, offDelay, fronts }, none)

end DelayedDI

/-! ## A delay -/

namespace Delay

variable {d : Delay} {edge : Bool} {now : Nat}

/-- A time that is waited for. -/
def Waits (d : Delay) : Prop := d.pt.getInterval ≠ 0

@[simp] theorem check_delay_t_msec (edge : Bool) (d : Delay) (val : Bool) (now : Nat) :
    (d.check_delay edge val now).pt.t_msec = d.pt.t_msec := by
  unfold check_delay
  split_ifs with hnone
  · rfl
  · dsimp only
    split_ifs
    all_goals rfl

@[simp] theorem waits_check_delay (edge : Bool) (d : Delay) (val : Bool) (now : Nat) :
    (d.check_delay edge val now).Waits ↔ d.Waits := by
  unfold Waits PassiveTimer.getInterval
  rw [check_delay_t_msec]

theorem becomes_snd (t : Trigger) (edge val : Bool) : (t.becomes edge val).2 = ⟨val⟩ := by
  unfold Trigger.becomes
  split_ifs with h
  · rfl
  · obtain ⟨oldstate⟩ := t
    exact congrArg Trigger.mk (not_not.mp h)

theorem check_delay_tr (h : d.Waits) (edge val : Bool) (now : Nat) :
    (d.check_delay edge val now).tr = ⟨val⟩ := by
  unfold check_delay
  rw [if_neg h]
  dsimp only
  split_ifs
  all_goals exact becomes_snd _ _ _

/-- The other value passes at once. -/
theorem check_delay_state_of_ne {val : Bool} (h : val ≠ edge) :
    (d.check_delay edge val now).state = val := by
  unfold check_delay
  split_ifs with hnone
  · rfl
  · dsimp only
    rw [if_pos (.inl h)]

theorem check_delay_state_of_none (h : ¬d.Waits) (val : Bool) :
    (d.check_delay edge val now).state = val := by
  unfold check_delay
  rw [if_pos (not_not.mp h)]

/-- What the state is already, it stays. -/
theorem check_delay_state_of_eq {val : Bool} (h : d.state = val) :
    (d.check_delay edge val now).state = val := by
  unfold check_delay
  split_ifs
  · rfl
  all_goals
    dsimp only
    rw [apply_ite Delay.state, h, ite_self]

/-- The value that is waited for: the timer begins with it. -/
theorem check_delay_edge (h : d.Waits) : (d.check_delay edge edge now).pt =
      (if d.tr.oldstate = edge then d.pt else d.pt.reset now) ∧
    (d.check_delay edge edge now).state =
      if (if d.tr.oldstate = edge then d.pt else d.pt.reset now).checkTime now then edge
      else d.state := by
  unfold check_delay Trigger.becomes
  rw [if_neg h]
  by_cases hold : d.tr.oldstate = edge
  · simp only [hold, ne_eq, not_true, if_false, if_true, Bool.false_eq_true, false_or]
    split_ifs
    all_goals exact ⟨rfl, rfl⟩
  · simp only [hold, ne_eq, not_false_eq_true, if_true, if_false, beq_self_eq_true, not_true, false_or]
    split_ifs
    all_goals exact ⟨rfl, rfl⟩

end Delay

/-! ## Both delays -/

namespace DelayedDI

variable (it : DelayedDI)

/-- The delay of changes to a value. -/
def delay (st : Bool) : Delay := if st then it.onDelay else it.offDelay

end DelayedDI

/-- One look at both delays, with the value that comes out. -/
structure Looks (delay : Bool → Delay) (set : Bool) (now : Nat) (delay' : Bool → Delay) (out : Bool) :
    Prop where
  first : delay' set = (delay set).check_delay set set now
  second : delay' (!set) = (delay !set).check_delay (!set) (delay' set).state now
  out : out = (delay' !set).state

/-- Between two looks: `before` is the value that was seen, `out` the value that came out. -/
structure Rests (delay : Bool → Delay) (before out : Bool) : Prop where
  state : ∀ st, (delay st).state = out
  kept : (delay out).Waits → (delay out).tr = ⟨out⟩
  seen : (delay !out).Waits → (delay !out).tr = ⟨before⟩

variable {delay delay' : Bool → Delay} {before out out' set : Bool} {now : Nat}

theorem checkDelays_looks (it : DelayedDI) (set : Bool) (now : Nat) :
    Looks it.delay set now (fun st => if st then (it.checkDelays set now).1
      else (it.checkDelays set now).2.1) (it.checkDelays set now).2.2 := by
  cases set with
  | false => exact ⟨rfl, rfl, rfl⟩
  | true => exact ⟨rfl, rfl, rfl⟩

/-- The value that is out stays. -/
theorem Rests.stays (h : Rests delay before out) (hlooks : Looks delay out now delay' out') :
    out' = out ∧ Rests delay' out out := by
  have hfirst : (delay' out).state = out := by
    rw [hlooks.first]
    exact Delay.check_delay_state_of_eq (h.state out)
  have hsecond : (delay' !out).state = out := by
    rw [hlooks.second, hfirst]
    exact Delay.check_delay_state_of_ne (Bool.not_ne_self out).symm
  refine ⟨hlooks.out.trans hsecond, fun st => ?_, fun hwaits => ?_, fun hwaits => ?_⟩
  · rcases Bool.eq_or_eq_not st out with rfl | rfl
    · exact hfirst
    · exact hsecond
  · rw [hlooks.first] at hwaits ⊢
    exact Delay.check_delay_tr ((Delay.waits_check_delay _ _ _ _).mp hwaits) _ _ _
  · rw [hlooks.second, hfirst] at hwaits ⊢
    exact Delay.check_delay_tr ((Delay.waits_check_delay _ _ _ _).mp hwaits) _ _ _

/-- The other value passes both delays once it has passed its own. -/
theorem Rests.passes (h : Rests delay before out) (hlooks : Looks delay (!out) now delay' out')
    (hpass : (delay' !out).state = !out) : out' = !out ∧ Rests delay' (!out) (!out) := by
  have hsecond : (delay' out).state = !out := by
    have heq := hlooks.second
    rw [Bool.not_not, hpass] at heq
    rw [heq]
    exact Delay.check_delay_state_of_ne (Bool.not_ne_self out)
  have hout := hlooks.out
  rw [Bool.not_not] at hout
  refine ⟨hout.trans hsecond, fun st => ?_, fun hwaits => ?_, fun hwaits => ?_⟩
  · rcases Bool.eq_or_eq_not st out with rfl | rfl
    · exact hsecond
    · exact hpass
  · rw [hlooks.first] at hwaits ⊢
    exact Delay.check_delay_tr ((Delay.waits_check_delay _ _ _ _).mp hwaits) _ _ _
  · rw [Bool.not_not] at hwaits ⊢
    have heq := hlooks.second
    rw [Bool.not_not, hpass] at heq
    rw [heq] at hwaits ⊢
    exact Delay.check_delay_tr ((Delay.waits_check_delay _ _ _ _).mp hwaits) _ _ _

/-- Until then the value that is out stays. -/
theorem Rests.waits (h : Rests delay before out) (hlooks : Looks delay (!out) now delay' out')
    (hpass : (delay' !out).state = out) : out' = out ∧ Rests delay' (!out) out := by
  have hsecond : (delay' out).state = out := by
    have heq := hlooks.second
    rw [Bool.not_not, hpass] at heq
    rw [heq]
    exact Delay.check_delay_state_of_eq (h.state out)
  have hout := hlooks.out
  rw [Bool.not_not] at hout
  refine ⟨hout.trans hsecond, fun st => ?_, fun hwaits => ?_, fun hwaits => ?_⟩
  · rcases Bool.eq_or_eq_not st out with rfl | rfl
    · exact hsecond
    · exact hpass
  · have heq := hlooks.second
    rw [Bool.not_not, hpass] at heq
    rw [heq] at hwaits ⊢
    exact Delay.check_delay_tr ((Delay.waits_check_delay _ _ _ _).mp hwaits) _ _ _
  · rw [hlooks.first] at hwaits ⊢
    exact Delay.check_delay_tr ((Delay.waits_check_delay _ _ _ _).mp hwaits) _ _ _

/-- The timer of a delay while a value is waited for. -/
def waitedFor (pt : PassiveTimer) (before set : Bool) (now : Nat) : PassiveTimer :=
  if before = set then pt else pt.reset now

/-- One look: when the other value comes out, and what is waited for if it does not. -/
theorem Rests.look (h : Rests delay before out) (hlooks : Looks delay set now delay' out') :
    Rests delay' set out' ∧
      (out' = !out ↔ set = !out ∧
        ((delay set).Waits → (waitedFor (delay set).pt before set now).checkTime now = true)) ∧
      (out' ≠ set → (delay set).Waits ∧ (delay' set).pt = waitedFor (delay set).pt before set now) := by
  rcases Bool.eq_or_eq_not set out with rfl | rfl
  · obtain ⟨hout, hrests⟩ := h.stays hlooks
    rw [hout]
    refine ⟨hrests, iff_of_false (Bool.not_ne_self _).symm fun hflip => ?_, fun hne => absurd rfl hne⟩
    exact (Bool.not_ne_self _).symm hflip.1
  by_cases hwaits : (delay !out).Waits
  · obtain ⟨hpt, hstate⟩ := @Delay.check_delay_edge _ _ now hwaits
    rw [← hlooks.first, h.seen hwaits] at hpt hstate
    change (delay' !out).pt = waitedFor _ before (!out) now at hpt
    change (delay' !out).state = if (waitedFor _ before (!out) now).checkTime now then _ else _
      at hstate
    by_cases htime : (waitedFor (delay !out).pt before (!out) now).checkTime now
    · rw [if_pos htime] at hstate
      obtain ⟨hout, hrests⟩ := h.passes hlooks hstate
      rw [hout]
      exact ⟨hrests, iff_of_true rfl ⟨rfl, fun _ => htime⟩, fun hne => absurd rfl hne⟩
    · rw [if_neg htime, h.state] at hstate
      obtain ⟨hout, hrests⟩ := h.waits hlooks hstate
      rw [hout]
      refine ⟨hrests, iff_of_false (Bool.not_ne_self _).symm fun hpass => ?_, fun _ => ⟨hwaits, hpt⟩⟩
      exact htime (hpass.2 hwaits)
  · have hstate : (delay' !out).state = !out := by
      rw [hlooks.first]
      exact Delay.check_delay_state_of_none hwaits _
    obtain ⟨hout, hrests⟩ := h.passes hlooks hstate
    rw [hout]
    exact ⟨hrests, iff_of_true rfl ⟨rfl, fun hw => absurd hw hwaits⟩, fun hne => absurd rfl hne⟩

theorem Looks.t_msec (hlooks : Looks delay set now delay' out') (st : Bool) :
    (delay' st).pt.t_msec = (delay st).pt.t_msec := by
  rcases Bool.eq_or_eq_not st set with rfl | rfl
  · rw [hlooks.first]
    exact Delay.check_delay_t_msec _ _ _ _
  · rw [hlooks.second]
    exact Delay.check_delay_t_msec _ _ _ _

/-! ## The filter of bounces -/

namespace Debounce

variable {b : Debounce} {val : Bool}

/-- The timer of the pause that a look finds or begins. -/
def pauseTimer (b : Debounce) (val : Bool) (now : Nat) : PassiveTimer :=
  if b.trdebounce.oldstate ≠ val ∧ b.debounce_pause = false then b.ptDebounce.reset now
  else b.ptDebounce

theorem check_debounce_none (h : b.ptDebounce.getInterval = 0) :
    b.check_debounce val now = { b with debounce_state := val } := by
  unfold check_debounce
  rw [if_pos h]

theorem check_debounce_eq (h : b.ptDebounce.getInterval ≠ 0) : b.check_debounce val now =
    if (b.debounce_pause || b.trdebounce.oldstate != val) && (b.pauseTimer val now).checkTime now then
      ⟨b.pauseTimer val now, ⟨val⟩, false, val⟩
    else
      ⟨b.pauseTimer val now, ⟨val⟩, b.debounce_pause || b.trdebounce.oldstate != val,
        b.debounce_state⟩ := by
  obtain ⟨pt, ⟨oldstate⟩, pause, state⟩ := b
  unfold check_debounce Trigger.change pauseTimer
  rw [if_neg h]
  by_cases hold : oldstate = val
  · subst hold
    simp
  · have hbne : (oldstate != val) = true := bne_iff_ne.mpr hold
    cases pause with
    | false => simp [hold, hbne]
    | true => simp [hold, hbne]

@[simp] theorem getInterval_reset (pt : PassiveTimer) (now : Nat) :
    (pt.reset now).getInterval = pt.getInterval := rfl

@[simp] theorem getInterval_pauseTimer (b : Debounce) (val : Bool) (now : Nat) :
    (b.pauseTimer val now).getInterval = b.ptDebounce.getInterval := by
  unfold pauseTimer
  split_ifs
  · rfl
  · rfl

@[simp] theorem getInterval_check_debounce (b : Debounce) (val : Bool) (now : Nat) :
    (b.check_debounce val now).ptDebounce.getInterval = b.ptDebounce.getInterval := by
  by_cases h : b.ptDebounce.getInterval = 0
  · rw [check_debounce_none h]
  · rw [check_debounce_eq h]
    split_ifs
    · exact getInterval_pauseTimer b val now
    · exact getInterval_pauseTimer b val now

end Debounce

/-- An interval that is none is over at once. -/
theorem passed_iff (pt : PassiveTimer) (hstart : pt.t_start ≤ now) :
    (pt.getInterval ≠ 0 → pt.checkTime now = true) ↔
      (pt.getInterval * 1000000 : ℤ) ≤ now - pt.t_start := by
  by_cases hnone : pt.getInterval = 0
  · rw [hnone]
    refine iff_of_true (fun h => absurd rfl h) ?_
    omega
  · have hwait : pt.t_msec ≠ WaitUpTime := fun h => hnone (if_neg (not_not.mpr h))
    have hmsec : pt.getInterval = pt.t_msec := if_pos hwait
    rw [hmsec] at hnone ⊢
    unfold PassiveTimer.checkTime
    rw [if_neg hwait, if_neg hnone, decide_eq_true_iff, Nat.le_div_iff_mul_le (by decide)]
    omega

end Uniset.Extensions
