import Uniset.LogicProcessor.Element
import Uniset.Timers.DelayedSignal

/-! The element that turns on after a delay, under calls of `setIn` and of `tick` in any order. -/

namespace Uniset.LogicProcessor

/-- It has one input: it is let go at once, and turns on when its timer is over. -/
structure TDelay where
  myout : Bool
  pt : PassiveTimer
  delay : Int
  deriving DecidableEq

namespace TDelay

/-- A new element; its timer waits for ever. -/
def new (delayMS : Int) (now : Nat) : TDelay := ⟨false, .setTiming WaitUpTime now, delayMS⟩

def getOut (t : TDelay) : Int := if t.myout then 1 else 0

/-- The element after the call, and whether `setChildOut` is called. -/
def setIn (t : TDelay) (value : Int) (now : Nat) : TDelay × Bool :=
  let prev := t.myout
  if value = 0 then ({ t with pt := .setTiming 0 now, myout := false }, prev != false)
  else if t.delay ≤ 0 then ({ t with pt := .setTiming 0 now, myout := true }, prev != true)
  else if !t.myout && !prev then ({ t with pt := .setTiming t.delay.toNat now }, false)
  else (t, false)

def tick (t : TDelay) (now : Nat) : TDelay × Bool :=
  if t.pt.getInterval ≠ 0 ∧ t.pt.checkTime now = true then
    ({ t with myout := true, pt := .setTiming 0 now }, true)
  else (t, false)

/-- The element among others, which do not see what its timer is set to. -/
def gate (t : TDelay) : Gate := .TDelay t.myout t.delay t.pt.getInterval

theorem setIn_gate (t : TDelay) (hdelay : t.delay ≠ WaitUpTime) (init_out : Bool) (num : Nat)
    (value : Int) (now : Nat) : t.gate.setIn init_out num value =
      ((t.setIn value now).1.gate, init_out, (t.setIn value now).2) := by
  obtain ⟨myout, pt, delay⟩ := t
  unfold setIn gate Gate.setIn
  dsimp only at hdelay ⊢
  split_ifs with hzero hnone hout hoff hon
  · cases myout with
    | false => rfl
    | true => rfl
  · cases myout with
    | false => rfl
    | true => rfl
  · subst hout
    cases hoff
  · rfl
  · have hinterval : (PassiveTimer.setTiming delay.toNat now).getInterval = delay.toNat := by
      unfold PassiveTimer.getInterval
      refine if_pos fun h => hdelay ?_
      change delay.toNat = WaitUpTime at h
      omega
    rw [hinterval, Int.toNat_of_nonneg (by omega)]
  · cases myout with
    | false => exact absurd rfl hon
    | true => exact absurd rfl hout

/-! ## Calls one after another -/

/-- Calls of the steady clock, in nanoseconds: of `setIn` with a value, or of `tick`. -/
structure Drive where
  setIn? : Nat → Option Int
  time : Nat → Nat
  mono : Monotone time
  bounded : ∀ n, time n < 2 ^ 63

namespace Drive

variable (c : Drive)

def call (t : TDelay) (n : Nat) : TDelay :=
  match c.setIn? n with
  | some value => (t.setIn value (c.time n)).1
  | none => (t.tick (c.time n)).1

/-- The element after the first calls. -/
def run (t : TDelay) : Nat → TDelay
  | 0 => t
  | n + 1 => c.call (run t n) n

/-- The input is set at `j`, and from then on never to zero. -/
structure On (j n : Nat) : Prop where
  lt : j < n
  set : c.setIn? j ≠ none
  nonzero : ∀ i, j ≤ i → i < n → c.setIn? i ≠ some 0

/-- The last call of `setIn`. -/
structure LastSet (s n : Nat) : Prop where
  lt : s < n
  set : c.setIn? s ≠ none
  only : ∀ i, s < i → i < n → c.setIn? i = none

/-- The delay, in milliseconds, is over from one call to another. -/
def Over (delay : Int) (j n : Nat) : Prop := delay * 1000000 ≤ (c.time n - c.time j : Int)

/-- Since the input is not zero there has been a tick that came a delay after the last call of `setIn`
before it. -/
def Rests (delay : Int) (n : Nat) : Prop :=
  ∃ s m, m < n ∧ c.setIn? m = none ∧ c.LastSet s m ∧ c.On s n ∧ c.Over delay s m

/-- The output is 1 at a tick when the input has not been zero for the delay, and at no call when it
has been zero since. -/
structure Delays (delay : Int) (out : Nat → Int) : Prop where
  comes : ∀ j n, c.setIn? n = none → c.On j (n + 1) → c.Over delay j n → out n = 1
  lasts : ∀ n, out n = 1 → ∃ j, c.On j (n + 1) ∧ c.Over delay j n

/-- An input that has not been zero for the delay at a tick has been let rest for the delay. -/
def Pauses (delay : Int) : Prop :=
  ∀ j n, c.setIn? n = none → c.On j (n + 1) → c.Over delay j n → c.Rests delay (n + 1)

variable {c} {delay : Int} {j s n : Nat}

theorem on_succ : c.On j (n + 1) ↔
    c.setIn? n ≠ some 0 ∧ (c.On j n ∨ j = n ∧ c.setIn? n ≠ none) := by
  constructor
  · intro h
    refine ⟨h.nonzero n (Nat.le_of_lt_succ h.lt) n.lt_succ_self, ?_⟩
    rcases Nat.lt_succ_iff_lt_or_eq.mp h.lt with hlt | rfl
    · exact .inl ⟨hlt, h.set, fun i hle hi => h.nonzero i hle (Nat.lt_succ_of_lt hi)⟩
    · exact .inr ⟨rfl, h.set⟩
  · rintro ⟨hlast, h | ⟨rfl, hset⟩⟩
    · refine ⟨Nat.lt_succ_of_lt h.lt, h.set, fun i hle hi => ?_⟩
      rcases Nat.lt_succ_iff_lt_or_eq.mp hi with hi | rfl
      · exact h.nonzero i hle hi
      · exact hlast
    · refine ⟨j.lt_succ_self, hset, fun i hle hi => ?_⟩
      obtain rfl : i = j := by omega
      exact hlast

theorem lastSet_succ : c.LastSet s (n + 1) ↔
    s = n ∧ c.setIn? n ≠ none ∨ c.setIn? n = none ∧ c.LastSet s n := by
  constructor
  · intro h
    rcases Nat.lt_succ_iff_lt_or_eq.mp h.lt with hlt | rfl
    · exact .inr ⟨h.only n hlt n.lt_succ_self, hlt, h.set,
        fun i his hi => h.only i his (Nat.lt_succ_of_lt hi)⟩
    · exact .inl ⟨rfl, h.set⟩
  · rintro (⟨rfl, hset⟩ | ⟨htick, h⟩)
    · exact ⟨s.lt_succ_self, hset, fun i his hi => by omega⟩
    · refine ⟨Nat.lt_succ_of_lt h.lt, h.set, fun i his hi => ?_⟩
      rcases Nat.lt_succ_iff_lt_or_eq.mp hi with hi | rfl
      · exact h.only i his hi
      · exact htick

/-- The rest goes on, or ends with a tick. -/
theorem rests_succ : c.Rests delay (n + 1) ↔ c.setIn? n ≠ some 0 ∧
    (c.Rests delay n ∨ c.setIn? n = none ∧ ∃ s, c.LastSet s n ∧ c.On s n ∧ c.Over delay s n) := by
  constructor
  · rintro ⟨s, m, hm, htick, hlast, hon, hover⟩
    have hle : m ≤ n := Nat.le_of_lt_succ hm
    obtain ⟨hnonzero, hon | ⟨rfl, -⟩⟩ := on_succ.mp hon
    · refine ⟨hnonzero, ?_⟩
      rcases Nat.lt_or_eq_of_le hle with hlt | rfl
      · exact .inl ⟨s, m, hlt, htick, hlast, hon, hover⟩
      · exact .inr ⟨htick, s, hlast, hon, hover⟩
    · exact absurd hlast.lt (Nat.not_lt_of_le hle)
  · rintro ⟨hnonzero, ⟨s, m, hm, htick, hlast, hon, hover⟩ | ⟨htick, s, hlast, hon, hover⟩⟩
    · exact ⟨s, m, Nat.lt_succ_of_lt hm, htick, hlast, on_succ.mpr ⟨hnonzero, .inl hon⟩, hover⟩
    · exact ⟨s, n, n.lt_succ_self, htick, hlast, on_succ.mpr ⟨hnonzero, .inl hon⟩, hover⟩

theorem Rests.exists_on (h : c.Rests delay (n + 1)) : ∃ j, c.On j (n + 1) ∧ c.Over delay j n := by
  obtain ⟨s, m, hm, -, -, hon, hover⟩ := h
  refine ⟨s, hon, ?_⟩
  have hmono := c.mono (Nat.le_of_lt_succ hm)
  unfold Over at hover ⊢
  omega

end Drive

open Drive

/-- What the element knows of the calls: whether the input has rested, and since when its timer
runs. -/
structure Tracks (t : TDelay) (c : Drive) (delay : Int) (n : Nat) : Prop where
  delay_eq : t.delay = delay
  out : t.myout = true ↔ c.Rests delay n
  since : t.myout = false → ∀ s, c.LastSet s n → c.On s n →
    t.pt = .setTiming delay.toNat (c.time s)
  waits : t.myout = false → t.pt.getInterval ≠ 0 → ∃ s, c.LastSet s n ∧ c.On s n

variable {t : TDelay} {c : Drive} {delay : Int} {n : Nat}

theorem tracks_new (delay : Int) (now : Nat) (c : Drive) : (new delay now).Tracks c delay 0 where
  delay_eq := rfl
  out := by
    refine iff_of_false (by simp [new]) ?_
    rintro ⟨s, m, hm, -⟩
    exact Nat.not_lt_zero m hm
  since := fun _ s h => absurd h.lt (Nat.not_lt_zero s)
  waits := fun _ h => absurd rfl h

/-- The timer is over at a tick when the delay has passed since it was set. -/
theorem fires_iff (hdelay : 0 < delay) {s : Nat} (hle : s ≤ n) :
    (PassiveTimer.setTiming delay.toNat (c.time s)).getInterval ≠ 0 ∧
      (PassiveTimer.setTiming delay.toNat (c.time s)).checkTime (c.time n) = true ↔
        c.Over delay s n := by
  rw [DelayTimer.checkTime_iff _ (c.bounded n) (c.mono hle)]
  have hbound := c.bounded n
  unfold Over PassiveTimer.getInterval PassiveTimer.setTiming
  dsimp only
  rw [Int.toNat_of_nonneg hdelay.le]
  refine and_iff_right_of_imp fun h => ?_
  rw [if_pos]
  · omega
  · unfold WaitUpTime
    omega

theorem Tracks.setIn_zero (h : t.Tracks c delay n) (hset : c.setIn? n = some 0) (now : Nat) :
    (t.setIn 0 now).1.Tracks c delay (n + 1) where
  delay_eq := h.delay_eq
  out := iff_of_false Bool.false_ne_true fun hrests => (rests_succ.mp hrests).1 hset
  since := fun _ _ _ hon => absurd hset (on_succ.mp hon).1
  waits := fun _ hinterval => absurd rfl hinterval

theorem Tracks.setIn (h : t.Tracks c delay n) (hdelay : 0 < delay) {value : Int} (hvalue : value ≠ 0)
    (hset : c.setIn? n = some value) : (t.setIn value (c.time n)).1.Tracks c delay (n + 1) := by
  have hsome : c.setIn? n ≠ none := by simp [hset]
  have hnonzero : c.setIn? n ≠ some 0 := by simpa [hset] using hvalue
  have hrests : c.Rests delay (n + 1) ↔ c.Rests delay n := by simp [rests_succ, hsome, hnonzero]
  have hpos : ¬t.delay ≤ 0 := h.delay_eq ▸ not_le_of_gt hdelay
  unfold TDelay.setIn
  dsimp only
  rw [if_neg hvalue, if_neg hpos]
  have hout : t.myout = true ↔ c.Rests delay (n + 1) := h.out.trans hrests.symm
  split_ifs with hoff
  · refine ⟨h.delay_eq, hout, fun _ s hlast _ => ?_, fun _ _ => ?_⟩
    · obtain ⟨rfl, -⟩ | ⟨htick, -⟩ := lastSet_succ.mp hlast
      · rw [← h.delay_eq]
      · exact absurd htick hsome
    · exact ⟨n, lastSet_succ.mpr (.inl ⟨rfl, hsome⟩), on_succ.mpr ⟨hnonzero, .inr ⟨rfl, hsome⟩⟩⟩
  · -- an output that is 1 stays, and no timer is set
    have hon : t.myout ≠ false := by simpa using hoff
    exact ⟨h.delay_eq, hout, fun hfalse => absurd hfalse hon, fun hfalse => absurd hfalse hon⟩

theorem Tracks.tick (h : t.Tracks c delay n) (hdelay : 0 < delay) (htick : c.setIn? n = none) :
    (t.tick (c.time n)).1.Tracks c delay (n + 1) := by
  have hrests : c.Rests delay (n + 1) ↔
      c.Rests delay n ∨ ∃ s, c.LastSet s n ∧ c.On s n ∧ c.Over delay s n := by
    simp [rests_succ, htick]
  unfold TDelay.tick
  split_ifs with hfires
  · refine ⟨h.delay_eq, iff_of_true rfl (hrests.mpr ?_), nofun, nofun⟩
    cases hout : t.myout with
    | true => exact .inl (h.out.mp hout)
    | false =>
      obtain ⟨s, hlast, hon⟩ := h.waits hout hfires.1
      rw [h.since hout s hlast hon] at hfires
      exact .inr ⟨s, hlast, hon, (fires_iff hdelay hlast.lt.le).mp hfires⟩
  · have hkept : ∀ s, c.LastSet s (n + 1) → c.On s (n + 1) → c.LastSet s n ∧ c.On s n := by
      intro s hlast hon
      obtain ⟨-, hset⟩ | ⟨-, hlast⟩ := lastSet_succ.mp hlast
      · exact absurd htick hset
      · obtain ⟨-, hon | ⟨-, hset⟩⟩ := on_succ.mp hon
        · exact ⟨hlast, hon⟩
        · exact absurd htick hset
    refine ⟨h.delay_eq, h.out.trans (Iff.trans ?_ hrests.symm), fun hout s hlast hon => ?_,
      fun hout hinterval => ?_⟩
    · refine (or_iff_left_of_imp ?_).symm
      rintro ⟨s, hlast, hon, hover⟩
      rw [← h.out]
      by_contra hout
      have hpt := h.since (Bool.eq_false_iff.mpr hout) s hlast hon
      exact hfires (hpt ▸ (fires_iff hdelay hlast.lt.le).mpr hover)
    · exact h.since hout s (hkept s hlast hon).1 (hkept s hlast hon).2
    · obtain ⟨s, hlast, hon⟩ := h.waits hout hinterval
      have hnonzero : c.setIn? n ≠ some 0 := by simp [htick]
      exact ⟨s, lastSet_succ.mpr (.inr ⟨htick, hlast⟩), on_succ.mpr ⟨hnonzero, .inl hon⟩⟩

theorem Tracks.call (h : t.Tracks c delay n) (hdelay : 0 < delay) :
    (c.call t n).Tracks c delay (n + 1) := by
  unfold Drive.call
  cases hset : c.setIn? n with
  | none => exact h.tick hdelay hset
  | some value =>
    by_cases hvalue : value = 0
    · subst hvalue
      exact h.setIn_zero hset _
    · exact h.setIn hdelay hvalue hset

theorem tracks_run (hdelay : 0 < delay) (created : Nat) (c : Drive) (n : Nat) :
    (c.run (new delay created) n).Tracks c delay n := by
  induction n with
  | zero => exact tracks_new delay created c
  | succ n ih => exact ih.call hdelay

/-- The output is 1 when the input has rested. -/
theorem getOut_run (hdelay : 0 < delay) (created : Nat) (c : Drive) (n : Nat) :
    (c.run (new delay created) n).getOut = 1 ↔ c.Rests delay n := by
  rw [← (tracks_run hdelay created c n).out]
  unfold getOut
  split_ifs with hout
  · exact iff_of_true rfl hout
  · exact iff_of_false (by decide) hout

/-- The output is the input delayed when each input that has not been zero for the delay has been let
rest: every call of `setIn` with the same value begins the delay anew. -/
theorem delays_iff_pauses (delayMS : Int) (hdelay : 0 < delayMS) (created : Nat) (c : Drive) :
    c.Delays delayMS (fun n => (c.run (new delayMS created) (n + 1)).getOut) ↔ c.Pauses delayMS := by
  constructor
  · intro h j n htick hon hover
    exact (getOut_run hdelay created c (n + 1)).mp (h.comes j n htick hon hover)
  · intro h
    refine ⟨fun j n htick hon hover => ?_, fun n hout => ?_⟩
    · exact (getOut_run hdelay created c (n + 1)).mpr (h j n htick hon hover)
    · exact ((getOut_run hdelay created c (n + 1)).mp hout).exists_on

/-- The input is set once, and then a tick comes every 100 ms for a second. -/
def once : Drive where
  setIn? n := if n = 0 then some 1 else none
  time n := min n 10 * 100000000
  mono := fun _ _ h => Nat.mul_le_mul_right _ (min_le_min_right _ h)
  bounded n := by omega

theorem delays_once :
    once.Delays 300 (fun n => (once.run (new 300 0) (n + 1)).getOut) := by
  refine (delays_iff_pauses 300 (by decide) 0 once).mpr fun j n htick hon hover => ?_
  have hj : j = 0 := by
    by_contra hj
    exact hon.set (if_neg hj)
  have hn : n ≠ 0 := by
    rintro rfl
    cases htick
  subst hj
  exact ⟨0, n, n.lt_succ_self, htick,
    ⟨Nat.pos_of_ne_zero hn, nofun, fun i hi _ => if_neg hi.ne'⟩, hon, hover⟩

/-- The cycle of `processing`, every 200 ms: the input is set to 1, and then a tick comes. -/
def cycles : Drive where
  setIn? n := if n % 2 = 0 then some 1 else none
  time n := min (n / 2) 2 * 200000000
  mono := fun _ _ h => Nat.mul_le_mul_right _ (min_le_min_right _ (Nat.div_le_div_right h))
  bounded n := by omega

/-- In the third cycle the input has been 1 for 400 ms, and the output is still 0. -/
theorem not_delays_cycles :
    ¬cycles.Delays 300 (fun n => (cycles.run (new 300 0) (n + 1)).getOut) := by
  intro h
  have hnonzero : ∀ i, cycles.setIn? i ≠ some 0 := by
    intro i
    change (if i % 2 = 0 then some (1 : Int) else none) ≠ some 0
    split_ifs
    · decide
    · decide
  have hout := h.comes 0 5 rfl ⟨by decide, nofun, fun i _ _ => hnonzero i⟩ (by unfold Over; decide)
  exact absurd hout (by decide)

end TDelay

end Uniset.LogicProcessor
