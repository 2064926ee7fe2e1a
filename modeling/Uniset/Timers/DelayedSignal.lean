import Mathlib.Algebra.Order.Ring.Int
import Mathlib.Data.Int.ConditionallyCompleteOrder
import Mathlib.Order.ConditionallyCompleteLattice.Basic
import Mathlib.Tactic.Linarith
import Uniset.Lib.TimedSignal
import Uniset.Timers.DelayTimer

/-! The state of a timer as its signal delayed. -/

namespace Uniset

open Lib TimedSignal

/-- Looked at by the steady clock, in nanoseconds; a look is a call of `check` or of `get`. -/
structure Calls where
  check? : Nat → Option Bool
  time : Nat → Nat
  mono : Monotone time
  bounded : ∀ n, time n < 2 ^ 63

namespace Calls

variable (c : Calls)

/-- `get` repeats the last signal. -/
def sees : Nat → Bool
  | 0 => (c.check? 0).getD false
  | n + 1 => (c.check? (n + 1)).getD (sees n)

def signal : TimedSignal ℤ where
  sees := c.sees
  time := fun n => c.time n
  mono := fun _ _ h => Int.ofNat_le.mpr (c.mono h)

def call (t : DelayTimer) (n : Nat) : DelayTimer :=
  match c.check? n with
  | some st => t.check (c.time n) st
  | none => t.get (c.time n)

/-- The timer after each call. -/
def run (t : DelayTimer) : Nat → DelayTimer
  | 0 => c.call t 0
  | n + 1 => c.call (run t n) (n + 1)

end Calls

/-- The state changes at the first look at which the signal has been other than it for the delay. -/
def Delayed (s : TimedSignal ℤ) (delay : Bool → Nat) (before : Bool) (n : Nat) (after : Bool) : Prop :=
  after = !before ↔ ∃ j ≤ n, s.Held (!before) j n ∧
    (delay (!before) * 1000000 : ℤ) ≤ s.time n - s.time j

namespace DelayTimer

def delay (t : DelayTimer) (st : Bool) : Nat := if st then t.onDelay else t.offDelay

/-- The timer waits when its state is not the signal that it was given. -/
structure Waits (t : DelayTimer) : Prop where
  on : t.waiting_on = (t.prevState && !t.state)
  off : t.waiting_off = (!t.prevState && t.state)

/-- One call: what the state becomes, and what the timer waits for. -/
structure Checks (t : DelayTimer) (now : Nat) (st : Bool) (t' : DelayTimer) : Prop where
  waits : t'.Waits
  prevState : t'.prevState = st
  delays : t'.delay = t.delay
  state : t'.state = !t.state ↔ st = !t.state ∧
    (if t.prevState = st then t.pt.checkTime now = true else t.delay st = 0)
  pt : t'.state ≠ st → t'.pt = if t.prevState = st then t.pt else ⟨t.delay st, now⟩

theorem check_eq {t : DelayTimer} (h : t.Waits) (now : Nat) (st : Bool) : t.check now st =
    if t.state = st then
      { t with prevState := st, waiting_on := false, waiting_off := false }
    else if t.prevState = st then
      if t.pt.checkTime now then
        { t with prevState := st, state := st, waiting_on := false, waiting_off := false }
      else { t with prevState := st }
    else if t.delay st = 0 then
      { t with
        pt := .setTiming 0 now, prevState := st, state := st
        waiting_on := false, waiting_off := false }
    else
      { t with
        pt := .setTiming (t.delay st) now, prevState := st, waiting_on := st, waiting_off := !st } := by
  obtain ⟨hon, hoff⟩ := h
  obtain ⟨pt, prevState, state, onDelay, offDelay, waiting_on, waiting_off⟩ := t
  dsimp only at hon hoff
  subst hon hoff
  cases st <;> cases state <;> cases prevState <;> simp [check, delay]

theorem check_checks {t : DelayTimer} (h : t.Waits) (now : Nat) (st : Bool) :
    Checks t now st (t.check now st) := by
  rw [check_eq h]
  split_ifs with hstate hprev htime hdelay
  · subst hstate
    exact ⟨⟨by simp, by simp⟩, rfl, rfl, by simp, fun h => absurd rfl h⟩
  · obtain rfl : st = !t.state := Bool.eq_not_of_ne (Ne.symm hstate)
    exact ⟨⟨by simp, by simp⟩, rfl, rfl, by simp [hprev, htime], fun h => absurd rfl h⟩
  · obtain rfl : st = !t.state := Bool.eq_not_of_ne (Ne.symm hstate)
    refine ⟨⟨?_, ?_⟩, rfl, rfl, by simp [hprev, htime], fun _ => (if_pos hprev).symm⟩
    · simpa [hprev] using h.on
    · simpa [hprev] using h.off
  · obtain rfl : st = !t.state := Bool.eq_not_of_ne (Ne.symm hstate)
    exact ⟨⟨by simp, by simp⟩, rfl, rfl, by simp [hprev, hdelay], fun h => absurd rfl h⟩
  · obtain rfl : st = !t.state := Bool.eq_not_of_ne (Ne.symm hstate)
    exact ⟨⟨by simp, by simp⟩, rfl, rfl, by simp [hprev, hdelay], fun _ => (if_neg hprev).symm⟩

/-- What a timer knows after a look: the signal, and since when it waits. -/
structure Tracks (t : DelayTimer) (s : TimedSignal ℤ) (n : Nat) : Prop where
  waits : t.Waits
  prevState : t.prevState = s.sees n
  pt : t.state ≠ s.sees n → ∃ k, s.Since (s.sees n) k n ∧ t.pt.t_msec = t.delay (s.sees n) ∧
    (t.pt.t_start : ℤ) = s.time k

/-- A delay that is not zero is over when it has passed; one that never ends is longer than the clock
runs. -/
theorem checkTime_iff (pt : PassiveTimer) {now : Nat} (hnow : now < 2 ^ 63)
    (hstart : pt.t_start ≤ now) : pt.checkTime now = true ↔ (pt.t_msec * 1000000 : ℤ) ≤ now - pt.t_start := by
  have hdiv : pt.t_msec ≤ (now - pt.t_start) / 1000000 ↔
      (pt.t_msec * 1000000 : ℤ) ≤ now - pt.t_start := by
    rw [Nat.le_div_iff_mul_le (by decide)]
    omega
  unfold PassiveTimer.checkTime
  split_ifs with hwait hzero
  · rw [← hdiv, hwait, WaitUpTime]
    simp
    omega
  · simp [hzero, hstart]
  · rw [decide_eq_true_iff, hdiv]

/-- A look at which the signal begins to be what it is, or goes on since the timer was set. -/
theorem tracks_check {t : DelayTimer} {s : TimedSignal ℤ} {now n : Nat} (h : t.Waits)
    (hnow : now < 2 ^ 63) (htime : (now : ℤ) = s.time n)
    (hbegins : t.prevState ≠ s.sees n → s.Since (s.sees n) n n)
    (hgoes : t.prevState = s.sees n → t.state ≠ s.sees n → ∃ k, s.Since (s.sees n) k n ∧
      t.pt.t_msec = t.delay (s.sees n) ∧ (t.pt.t_start : ℤ) = s.time k) :
    Tracks (t.check now (s.sees n)) s n ∧
      Delayed s t.delay t.state n (t.check now (s.sees n)).state := by
  obtain ⟨hwaits, hprev, hdelays, hstate, hpt⟩ := check_checks h now (s.sees n)
  refine ⟨⟨hwaits, hprev, fun hne => ?_⟩, ?_⟩
  · have hother : t.state ≠ s.sees n := by
      intro heq
      have hflip := (hstate.mp (Bool.eq_not_of_ne (hne.trans_eq heq.symm))).1
      rw [← heq] at hflip
      simp at hflip
    rw [hpt hne, hdelays]
    split_ifs with hsame
    · exact hgoes hsame hother
    · exact ⟨n, hbegins hsame, rfl, htime⟩
  · unfold Delayed
    rw [hstate]
    by_cases hst : s.sees n = !t.state
    · rw [← hst]
      have hne : t.state ≠ s.sees n := by simp [hst]
      split_ifs with hsame
      · obtain ⟨k, hk, hmsec, hstart⟩ := hgoes hsame hne
        have hle : t.pt.t_start ≤ now := by
          have := s.mono hk.le
          omega
        rw [hk.held_for_iff, checkTime_iff t.pt hnow hle, hmsec, hstart, htime]
        simp
      · rw [(hbegins hsame).held_for_iff, sub_self]
        simp
        omega
    · refine iff_of_false (fun h => hst h.1) ?_
      rintro ⟨j, hj, hheld, -⟩
      exact hst (hheld n hj le_rfl)

end DelayTimer

namespace Calls

variable {c : Calls} {t : DelayTimer}

theorem call_eq (hget : c.check? n = none → t.prevState = c.sees n) :
    c.call t n = t.check (c.time n) (c.sees n) := by
  unfold call
  cases hcheck : c.check? n with
  | none => rw [← hget hcheck]; rfl
  | some st => cases n <;> simp [sees, hcheck]

/-- The state before a call. -/
def stateBefore (c : Calls) (t : DelayTimer) : Nat → Bool
  | 0 => t.state
  | n + 1 => (c.run t n).state

theorem run_tracks (hprev : t.prevState = false) (hstate : t.state = false) (hwaits : t.Waits)
    (n : Nat) : (c.run t n).Tracks c.signal n ∧ (c.run t n).delay = t.delay ∧
      Delayed c.signal t.delay (c.stateBefore t n) n (c.run t n).state := by
  induction n with
  | zero =>
    have hcall : c.run t 0 = t.check (c.time 0) (c.sees 0) :=
      call_eq fun h => by simp [sees, h, hprev]
    obtain ⟨htracks, hdelayed⟩ := DelayTimer.tracks_check (s := c.signal) hwaits (c.bounded 0) rfl
      (fun _ => since_zero.mpr ⟨rfl, rfl⟩)
      fun hsame hne => absurd (hstate.trans (hprev.symm.trans hsame)) hne
    rw [hcall]
    exact ⟨htracks, (DelayTimer.check_checks hwaits _ _).delays, hdelayed⟩
  | succ n ih =>
    obtain ⟨⟨hwaits, hprev, hpt⟩, hdelay, -⟩ := ih
    have hcall : c.run t (n + 1) = (c.run t n).check (c.time (n + 1)) (c.sees (n + 1)) :=
      call_eq fun h => by rw [hprev]; simp [signal, sees, h]
    obtain ⟨htracks, hdelayed⟩ := DelayTimer.tracks_check (s := c.signal) (n := n + 1) hwaits
      (c.bounded (n + 1)) rfl
      (fun hne => since_succ.mpr ⟨rfl, .inr ⟨rfl, hprev ▸ Bool.eq_not_of_ne hne⟩⟩)
      fun hsame hne => by
        rw [← hsame, hprev] at hne ⊢
        obtain ⟨k, hk, hset⟩ := hpt hne
        exact ⟨k, since_succ.mpr ⟨by rw [← hsame, hprev], .inl hk⟩, hset⟩
    rw [hcall]
    rw [hdelay] at hdelayed
    exact ⟨htracks, (DelayTimer.check_checks hwaits _ _).delays.trans hdelay, hdelayed⟩

end Calls

/-- The state that each call returns is the signal of the calls, delayed. -/
theorem DelayTimer.check_delayed (created onDelay offDelay : Nat) (c : Calls) (n : Nat) :
    Delayed c.signal (fun st => if st then onDelay else offDelay)
      (c.stateBefore (.set created onDelay offDelay) n) n
      (c.run (.set created onDelay offDelay) n).state :=
  (Calls.run_tracks rfl rfl ⟨rfl, rfl⟩ n).2.2

/-- Looked at each 10 ms: a pulse of 20 ms and one of 60 ms, then a gap of 10 ms and one that lasts. -/
def Calls.pulses : Calls where
  check? := fun n => [some true, some true, some false, some true, none, none, none, none, none,
    some false, some true, some false, none, none, none].getD n none
  time := fun n => min n 20 * 10000000
  mono := fun _ _ h => Nat.mul_le_mul_right _ (min_le_min_right 20 h)
  bounded := fun n => by omega

theorem DelayTimer.check_delayed_pulses :
    ((List.range 15).map fun n => (Calls.pulses.run (.set 0 50 30) n).state) =
      [false, false, false, false, false, false, false, false, true, true, true, true, true, true,
        false] ∧
      ∀ n, Delayed Calls.pulses.signal (fun st => if st then 50 else 30)
        (Calls.pulses.stateBefore (.set 0 50 30) n) n (Calls.pulses.run (.set 0 50 30) n).state :=
  ⟨by decide, DelayTimer.check_delayed 0 50 30 Calls.pulses⟩
end Uniset
