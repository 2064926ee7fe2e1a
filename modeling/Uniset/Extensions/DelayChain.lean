import Uniset.Extensions.InputDelays

/-! The delays of a discrete input over whole runs: when the stored value changes, and what is
stored in the end. -/

namespace Uniset.Extensions

open Uniset.Lib TimedSignal

/-- What an input is given, and when, in nanoseconds. -/
structure Samples where
  set : Nat → Bool
  depend : Nat → Bool
  force : Nat → Bool
  time : Nat → Nat
  mono : Monotone time

/-! ## One sample -/

namespace Debounce

/-- What the filter knows after a look: the signal, and since when it pauses if it does. -/
structure Tracks (b : Debounce) (s : TimedSignal ℤ) (n : Nat) : Prop where
  seen : b.trdebounce = ⟨s.sees n⟩
  state : b.debounce_pause = false → b.debounce_state = s.sees n
  pause : b.debounce_pause = true → s.time n - b.ptDebounce.t_start < b.ptDebounce.getInterval * 1000000 ∧
    ∃ k, s.Since (s.sees n) k n ∧ (b.ptDebounce.t_start : ℤ) ≤ s.time k

variable {b : Debounce} {s : TimedSignal ℤ} {now n : Nat}

theorem tracks_check (hwaits : b.ptDebounce.getInterval ≠ 0) (htime : (now : ℤ) = s.time n)
    (hstate : b.debounce_pause = false → b.debounce_state = b.trdebounce.oldstate)
    (hpause : b.debounce_pause = true → b.ptDebounce.t_start ≤ now)
    (hbegins : b.trdebounce.oldstate ≠ s.sees n → s.Since (s.sees n) n n)
    (hgoes : b.trdebounce.oldstate = s.sees n → b.debounce_pause = true →
      ∃ k, s.Since (s.sees n) k n ∧ (b.ptDebounce.t_start : ℤ) ≤ s.time k) :
    (b.check_debounce (s.sees n) now).Tracks s n := by
  have hinterval := getInterval_pauseTimer b (s.sees n) now
  rw [check_debounce_eq hwaits]
  by_cases hrests : b.debounce_pause = false ∧ b.trdebounce.oldstate = s.sees n
  · obtain ⟨hnone, hold⟩ := hrests
    rw [hnone, hold, bne_self_eq_false]
    exact ⟨rfl, fun _ => (hstate hnone).trans hold, fun h => absurd h Bool.false_ne_true⟩
  have hpauses : (b.debounce_pause || b.trdebounce.oldstate != s.sees n) = true := by
    by_contra hneither
    simp only [Bool.not_eq_true, Bool.or_eq_false_iff, bne_eq_false_iff_eq] at hneither
    exact hrests hneither
  rw [hpauses, Bool.true_and]
  have hsince : (b.pauseTimer (s.sees n) now).t_start ≤ now ∧
      ∃ k, s.Since (s.sees n) k n ∧ ((b.pauseTimer (s.sees n) now).t_start : ℤ) ≤ s.time k := by
    unfold pauseTimer
    split_ifs with hnew
    · exact ⟨Nat.le_refl _, n, hbegins hnew.1, htime.le⟩
    · have hold : b.debounce_pause = true := by
        by_contra hnone
        rw [Bool.not_eq_true] at hnone
        rw [hnone, Bool.false_or, bne_iff_ne] at hpauses
        exact hnew ⟨hpauses, hnone⟩
      refine ⟨hpause hold, ?_⟩
      by_cases hsame : b.trdebounce.oldstate = s.sees n
      · exact hgoes hsame hold
      · have hle := hpause hold
        exact ⟨n, hbegins hsame, by omega⟩
  split_ifs with hover
  · exact ⟨rfl, fun _ => rfl, fun h => absurd h Bool.false_ne_true⟩
  · refine ⟨rfl, fun h => absurd h.symm Bool.false_ne_true, fun _ => ⟨?_, hsince.2⟩⟩
    have hpassed := (passed_iff _ hsince.1).not.mp fun h => hover (h (by rwa [hinterval]))
    rw [← htime]
    exact not_le.mp hpassed

/-- The first look at most begins a pause. -/
theorem check_debounce_first (hwaits : b.ptDebounce.getInterval ≠ 0) (hseen : b.trdebounce = ⟨false⟩)
    (hrest : b.debounce_pause = false ∧ b.debounce_state = false) (val : Bool) (now : Nat) :
    (b.check_debounce val now).debounce_state = false := by
  rw [check_debounce_eq hwaits, hseen, hrest.1, hrest.2]
  cases val with
  | false => rfl
  | true =>
    have hbegun : b.pauseTimer true now = b.ptDebounce.reset now := by
      unfold pauseTimer
      rw [hseen]
      exact if_pos ⟨Bool.false_ne_true, hrest.1⟩
    have hnot : ¬(b.ptDebounce.reset now).checkTime now = true := fun hover => by
      have hlong := (@passed_iff now (b.ptDebounce.reset now) (Nat.le_refl _)).mp fun _ => hover
      have hstart : (b.ptDebounce.reset now).t_start = now := rfl
      rw [getInterval_reset, hstart] at hlong
      omega
    rw [hbegun, Bool.not_eq_true _ |>.mp hnot, Bool.and_false, if_neg Bool.false_ne_true]

/-- A signal that is held for the time of the pause passes. -/
theorem Tracks.passes (h : b.Tracks s n) {v : Bool} {a : Nat} (ha : a ≤ n) (held : s.Held v a n)
    (hlong : (b.ptDebounce.getInterval * 1000000 : ℤ) ≤ s.time n - s.time a) :
    b.debounce_state = v := by
  have hv : s.sees n = v := held n ha le_rfl
  cases hpause : b.debounce_pause with
  | false => exact (h.state hpause).trans hv
  | true =>
    obtain ⟨hnot, k, hk, hstart⟩ := h.pause hpause
    rw [hv] at hk
    have hle := s.mono (hk.le_of_held held)
    omega

end Debounce

section Look

variable {delay delay' : Bool → Delay} {before out out' : Bool} {s : TimedSignal ℤ} {now n : Nat}

theorem getInterval_waitedFor (pt : PassiveTimer) (before set : Bool) (now : Nat) :
    (waitedFor pt before set now).getInterval = pt.getInterval := by
  unfold waitedFor
  split_ifs
  · rfl
  · rfl

/-- A look at both delays: since when the other value is waited for, and whether it comes out. -/
theorem Rests.tracks (h : Rests delay before out) (hlooks : Looks delay (s.sees n) now delay' out')
    (htime : (now : ℤ) = s.time n) (hbegins : before ≠ s.sees n → s.Since (s.sees n) n n)
    (hgoes : before = s.sees n → out ≠ s.sees n →
      ∃ k, s.Since (s.sees n) k n ∧ ((delay (s.sees n)).pt.t_start : ℤ) = s.time k) :
    (out' ≠ s.sees n →
      ∃ k, s.Since (s.sees n) k n ∧ ((delay' (s.sees n)).pt.t_start : ℤ) = s.time k) ∧
    Delayed s (fun st => (delay st).pt.getInterval) out n out' := by
  obtain ⟨-, hflip, hpt⟩ := h.look hlooks
  have hsince : out ≠ s.sees n → ∃ k, s.Since (s.sees n) k n ∧
      ((waitedFor (delay (s.sees n)).pt before (s.sees n) now).t_start : ℤ) = s.time k := by
    intro hne
    unfold waitedFor
    split_ifs with hsame
    · exact hgoes hsame hne
    · exact ⟨n, hbegins hsame, htime⟩
  refine ⟨fun hne => ?_, ?_⟩
  · rw [(hpt hne).2]
    refine hsince fun heq => ?_
    have hset := (hflip.mp (Bool.eq_not_of_ne (hne.trans_eq heq.symm))).1
    rw [← heq] at hset
    exact (Bool.not_ne_self out).symm hset
  · unfold Delayed
    rw [hflip]
    by_cases hset : s.sees n = !out
    · have hne : out ≠ s.sees n := by
        rw [hset]
        exact (Bool.not_ne_self out).symm
      obtain ⟨k, hk, hstart⟩ := hsince hne
      have hle : (waitedFor (delay (s.sees n)).pt before (s.sees n) now).t_start ≤ now := by
        have hmono := s.mono hk.le
        omega
      have hpassed := passed_iff _ hle
      rw [getInterval_waitedFor, hstart, htime] at hpassed
      rw [← hset, hk.held_for_iff, ← hpassed]
      exact and_iff_right rfl
    · refine iff_of_false (fun hboth => hset hboth.1) ?_
      rintro ⟨j, hj, held, -⟩
      exact hset (held n hj le_rfl)

end Look

/-! ## Runs -/

namespace DelayedDI

/-- What one sample makes of an input without work on fronts. -/
structure Processed (it : DelayedDI) (depend set : Bool) (now : Nat) (it' : DelayedDI) : Prop where
  debounce : it'.debounce = it.debounce.check_debounce (it.input depend set) now
  looks : Looks it.delay it'.debounce.debounce_state now it'.delay (decide (it'.value ≠ 0))
  fronts : it'.fronts = it.fronts
  input : it'.input = it.input

theorem processingAsDI_processed {it : DelayedDI} (hfront : it.fronts.front = false)
    (depend set force : Bool) (now : Nat) :
    it.Processed depend set now (it.processingAsDI depend set force now).1 := by
  have hlooks := checkDelays_looks it
    (it.debounce.check_debounce (it.input depend set) now).debounce_state now
  have hpass : ∀ val, it.fronts.check_front val = (val, it.fronts) := fun val => by
    unfold Front.check_front
    rw [if_pos (.inl (by rw [hfront]; rfl))]
  unfold processingAsDI
  dsimp only
  rw [hpass]
  generalize it.checkDelays _ now = r at hlooks ⊢
  obtain ⟨onDelay, offDelay, out⟩ := r
  dsimp only at hlooks ⊢
  by_cases hstore : force = true ∨ decide (it.value ≠ 0) ≠ out
  · rw [if_pos hstore]
    refine ⟨rfl, ?_, rfl, rfl⟩
    cases out with
    | false => exact hlooks
    | true => exact hlooks
  · rw [if_neg hstore]
    rw [not_or, not_not] at hstore
    refine ⟨rfl, ?_, rfl, rfl⟩
    rw [← hstore.2] at hlooks
    exact hlooks

variable (it : DelayedDI) (c : Samples)

/-- The input after a number of samples. -/
def after : Nat → DelayedDI
  | 0 => it
  | n + 1 => ((after n).processingAsDI (c.depend n) (c.set n) (c.force n) (c.time n)).1

def stored (n : Nat) : Bool := decide ((it.after c n).value ≠ 0)

/-- The samples as they count. -/
def inputs : TimedSignal ℤ where
  sees n := it.input (c.depend n) (c.set n)
  time n := c.time n
  mono := fun _ _ h => Int.ofNat_le.mpr (c.mono h)

/-- What the filter of bounces makes of them. -/
def debounced : TimedSignal ℤ where
  sees n := (it.after c (n + 1)).debounce.debounce_state
  time n := c.time n
  mono := fun _ _ h => Int.ofNat_le.mpr (c.mono h)

/-- The time of the filter, in milliseconds. -/
def pause : Nat := it.debounce.ptDebounce.getInterval

def delayTime (st : Bool) : Nat := (it.delay st).pt.getInterval

/-- The stored value changes only to what the debounced signal has been for the delay of that value.
-/
def ChangesRight : Prop := ∀ n, it.stored c (n + 1) ≠ it.stored c n →
  ∃ j ≤ n, (it.debounced c).Held (it.stored c (n + 1)) j n ∧
    (it.delayTime (it.stored c (n + 1)) * 1000000 : ℤ) ≤ c.time n - c.time j

/-- An input that is constant for longer than all delays is stored: by the last of its samples, if
they are no more than `gap` apart. -/
def Settles : Prop := ∀ v a n, ∀ gap : Nat, a ≤ n → (it.inputs c).Held v a n →
  (∀ k, a ≤ k → k < n → (c.time (k + 1) : ℤ) - c.time k ≤ gap) →
  ((it.pause + it.delayTime true + it.delayTime false) * 1000000 : ℤ) + gap ≤ c.time n - c.time a →
  it.stored c (n + 1) = v

/-- An input that is constant from a sample on is stored in the end, and stays so. -/
def Comes : Prop := ∀ v a, (∀ i, a ≤ i → (it.inputs c).sees i = v) →
  (∀ time, ∃ n, time ≤ c.time n) → ∃ m, ∀ n, m ≤ n → it.stored c n = v

/-- What the filter of bounces makes of the first sample. -/
def firstDebounced : Bool := if it.pause = 0 then (it.inputs c).sees 0 else false

variable {it c}

/-- An input at its start. -/
structure Starts (it : DelayedDI) : Prop where
  front : it.fronts.front = false
  seen : it.debounce.trdebounce = ⟨false⟩
  rest : it.debounce.debounce_pause = false ∧ it.debounce.debounce_state = false
  delays : ∀ st, (it.delay st).state = false ∧ (it.delay st).tr = ⟨false⟩

/-- What never changes. -/
structure Same (it it' : DelayedDI) : Prop where
  fronts : it'.fronts = it.fronts
  input : it'.input = it.input
  pause : it'.pause = it.pause
  delayTime : it'.delayTime = it.delayTime

theorem Processed.same {it' : DelayedDI} {depend set : Bool} {now : Nat}
    (h : it.Processed depend set now it') : it.Same it' := by
  refine ⟨h.fronts, h.input, ?_, funext fun st => ?_⟩
  · rw [pause, h.debounce]
    exact Debounce.getInterval_check_debounce _ _ _
  · unfold delayTime PassiveTimer.getInterval
    rw [h.looks.t_msec]

theorem after_same (it : DelayedDI) (c : Samples) (hfront : it.fronts.front = false) (n : Nat) :
    it.Same (it.after c n) := by
  induction n with
  | zero => exact ⟨rfl, rfl, rfl, rfl⟩
  | succ n ih =>
    have hstep := (processingAsDI_processed (ih.fronts ▸ hfront) (c.depend n) (c.set n) (c.force n)
      (c.time n)).same
    exact ⟨hstep.fronts.trans ih.fronts, hstep.input.trans ih.input, hstep.pause.trans ih.pause,
      hstep.delayTime.trans ih.delayTime⟩

/-- One sample of a run. -/
theorem after_processed (hfront : it.fronts.front = false) (n : Nat) :
    (it.after c n).Processed (c.depend n) (c.set n) (c.time n) (it.after c (n + 1)) :=
  processingAsDI_processed ((after_same it c hfront n).fronts ▸ hfront) _ _ _ _

theorem after_debounce (hfront : it.fronts.front = false) (n : Nat) :
    (it.after c (n + 1)).debounce =
      (it.after c n).debounce.check_debounce ((it.inputs c).sees n) (c.time n) := by
  rw [(after_processed hfront n).debounce, (after_same it c hfront n).input]
  rfl

/-- The filter knows the inputs at every time of a run. -/
theorem debounce_tracks (h : it.Starts) (hwaits : it.pause ≠ 0) (n : Nat) :
    (it.after c (n + 1)).debounce.Tracks (it.inputs c) n := by
  rw [after_debounce h.front]
  induction n with
  | zero =>
    refine Debounce.tracks_check hwaits rfl (fun _ => ?_) (fun hpause => ?_) (fun _ => ?_)
      fun _ hpause => ?_
    · exact h.rest.2.trans (congrArg Trigger.oldstate h.seen).symm
    · exact absurd hpause (h.rest.1.symm ▸ Bool.false_ne_true)
    · exact since_zero.mpr ⟨rfl, rfl⟩
    · exact absurd hpause (h.rest.1.symm ▸ Bool.false_ne_true)
  | succ n ih =>
    rw [← after_debounce h.front] at ih
    have hold : (it.after c (n + 1)).debounce.trdebounce.oldstate = (it.inputs c).sees n :=
      congrArg Trigger.oldstate ih.seen
    have hinterval : (it.after c (n + 1)).debounce.ptDebounce.getInterval ≠ 0 := by
      rw [← pause, (after_same it c h.front (n + 1)).pause]
      exact hwaits
    refine Debounce.tracks_check hinterval rfl (fun hpause => ?_) (fun hpause => ?_) (fun hne => ?_)
      fun hsame hpause => ?_
    · exact (ih.state hpause).trans hold.symm
    · obtain ⟨-, k, hk, hstart⟩ := ih.pause hpause
      have hle := (it.inputs c).mono (Nat.le_succ_of_le hk.le)
      exact Int.ofNat_le.mp (hstart.trans hle)
    · rw [hold] at hne
      exact since_succ.mpr ⟨rfl, .inr ⟨rfl, Bool.eq_not_of_ne hne⟩⟩
    · obtain ⟨-, k, hk, hstart⟩ := ih.pause hpause
      rw [hold] at hsame
      rw [hsame] at hk
      exact ⟨k, since_succ.mpr ⟨rfl, .inl hk⟩, hstart⟩

/-- An input that is held for the time of the filter passes it. -/
theorem debounced_of_held (h : it.Starts) {v : Bool} {a n : Nat} (ha : a ≤ n)
    (held : (it.inputs c).Held v a n) (hlong : (it.pause * 1000000 : ℤ) ≤ c.time n - c.time a) :
    (it.debounced c).sees n = v := by
  by_cases hnone : it.pause = 0
  · have hinterval : (it.after c n).debounce.ptDebounce.getInterval = 0 :=
      (after_same it c h.front n).pause.trans hnone
    change (it.after c (n + 1)).debounce.debounce_state = v
    rw [after_debounce h.front, Debounce.check_debounce_none hinterval]
    exact held n ha le_rfl
  · have htracks := debounce_tracks (c := c) h hnone n
    refine htracks.passes ha held ?_
    have hpause := (after_same it c h.front (n + 1)).pause
    rw [pause] at hpause
    rw [hpause]
    exact hlong

theorem debounced_first (h : it.Starts) : (it.debounced c).sees 0 = it.firstDebounced c := by
  unfold firstDebounced
  split_ifs with hnone
  · refine debounced_of_held h le_rfl (fun i hi hi' => ?_) ?_
    · rw [Nat.le_antisymm hi' hi]
    · rw [hnone]
      simp
  · change (it.after c 1).debounce.debounce_state = false
    rw [after_debounce h.front]
    exact Debounce.check_debounce_first hnone h.seen h.rest _ _

/-- What came out of the delays before a sample. -/
def outBefore (it : DelayedDI) (c : Samples) : Nat → Bool
  | 0 => false
  | n + 1 => it.stored c (n + 1)

/-- The value that is stored is the debounced signal delayed. -/
theorem stored_tracks (h : it.Starts) (n : Nat) :
    Rests (it.after c (n + 1)).delay ((it.debounced c).sees n) (it.stored c (n + 1)) ∧
    (it.stored c (n + 1) ≠ (it.debounced c).sees n →
      ∃ k, (it.debounced c).Since ((it.debounced c).sees n) k n ∧
        (((it.after c (n + 1)).delay ((it.debounced c).sees n)).pt.t_start : ℤ) =
          (it.debounced c).time k) ∧
    Delayed (it.debounced c) it.delayTime (it.outBefore c n) n (it.stored c (n + 1)) := by
  induction n with
  | zero =>
    have hrests : Rests it.delay false false :=
      ⟨fun st => (h.delays st).1, fun _ => (h.delays _).2, fun _ => (h.delays _).2⟩
    have hlooks := (after_processed (c := c) h.front 0).looks
    refine ⟨(hrests.look hlooks).1, hrests.tracks hlooks rfl (fun _ => ?_) fun hsame hne => ?_⟩
    · exact since_zero.mpr ⟨rfl, rfl⟩
    · exact absurd hsame hne
  | succ n ih =>
    obtain ⟨hrests, hbegun, -⟩ := ih
    have hlooks := (after_processed (c := c) h.front (n + 1)).looks
    have hnow : ((c.time (n + 1) : ℕ) : ℤ) = (it.debounced c).time (n + 1) := rfl
    have htracks := @Rests.tracks _ _ _ _ _ (it.debounced c) _ (n + 1) hrests hlooks hnow
      (fun hne => ?_) fun hsame hne => ?_
    · have htime : (fun st => ((it.after c (n + 1)).delay st).pt.getInterval) = it.delayTime :=
        (after_same it c h.front (n + 1)).delayTime
      rw [htime] at htracks
      exact ⟨(hrests.look hlooks).1, htracks⟩
    · exact since_succ.mpr ⟨rfl, .inr ⟨rfl, Bool.eq_not_of_ne hne⟩⟩
    · rw [← hsame] at hne ⊢
      obtain ⟨k, hk, hstart⟩ := hbegun hne
      exact ⟨k, since_succ.mpr ⟨hsame.symm, .inl hk⟩, hstart⟩

/-- A debounced signal that is held for its delay is stored. -/
theorem stored_of_held (h : it.Starts) {v : Bool} {i n : Nat} (hi : i ≤ n)
    (held : (it.debounced c).Held v i n)
    (hlong : (it.delayTime v * 1000000 : ℤ) ≤ c.time n - c.time i) : it.stored c (n + 1) = v := by
  have hdelayed := (stored_tracks (c := c) h n).2.2
  rcases Bool.eq_or_eq_not (it.outBefore c n) v with hout | hout
  · by_contra hne
    rw [hout] at hdelayed
    obtain ⟨j, hj, hheld, -⟩ := hdelayed.mp (Bool.eq_not_of_ne hne)
    exact Bool.not_ne_self v ((hheld n hj le_rfl).symm.trans (held n hi le_rfl))
  · rw [hout] at hdelayed
    rw [Delayed, Bool.not_not] at hdelayed
    exact hdelayed.mpr ⟨i, hi, held, hlong⟩

theorem stored_of_inputs (h : it.Starts) {v : Bool} {a i n : Nat} (ha : a ≤ i) (hi : i ≤ n)
    (held : (it.inputs c).Held v a n) (hpause : (it.pause * 1000000 : ℤ) ≤ c.time i - c.time a)
    (hdelay : (it.delayTime v * 1000000 : ℤ) ≤ c.time n - c.time i) : it.stored c (n + 1) = v := by
  refine stored_of_held h hi (fun m hm hm' => ?_) hdelay
  have hlater : (c.time i : ℤ) ≤ c.time m := Int.ofNat_le.mpr (c.mono hm)
  refine debounced_of_held h (Nat.le_trans ha hm) (fun j hj hj' => ?_) (by omega)
  exact held j hj (Nat.le_trans hj' hm')

/-- The first sample by which a time is over is no more than a gap late. -/
theorem exists_passed {a n : Nat} {gap time : ℤ} (han : a ≤ n)
    (hgap : ∀ k, a ≤ k → k < n → (c.time (k + 1) : ℤ) - c.time k ≤ gap)
    (hlong : time ≤ c.time n - c.time a) :
    ∃ i, a ≤ i ∧ i ≤ n ∧ time ≤ c.time i - c.time a ∧
      (i = a ∨ (c.time i : ℤ) - c.time a ≤ time + gap) := by
  induction n, han using Nat.le_induction with
  | base => exact ⟨a, le_rfl, le_rfl, hlong, .inl rfl⟩
  | succ n hn ih =>
    by_cases hearly : time ≤ (c.time n : ℤ) - c.time a
    · obtain ⟨i, hi, hin, hover, hlate⟩ :=
        ih (fun k hk hk' => hgap k hk (Nat.lt_succ_of_lt hk')) hearly
      exact ⟨i, hi, Nat.le_succ_of_le hin, hover, hlate⟩
    · have hstep := hgap n hn (Nat.lt_succ_self n)
      exact ⟨n + 1, Nat.le_succ_of_le hn, le_rfl, hlong, .inr (by omega)⟩

theorem settles (h : it.Starts) : it.Settles c := by
  intro v a n gap han held hgap hlong
  have hdelay : it.delayTime v ≤ it.delayTime true + it.delayTime false := by
    cases v with
    | false => exact Nat.le_add_left _ _
    | true => exact Nat.le_add_right _ _
  obtain ⟨i, hi, hin, hover, hlate⟩ := @exists_passed c a n gap (it.pause * 1000000) han hgap (by omega)
  refine stored_of_inputs h hi hin held hover ?_
  rcases hlate with rfl | hlate
  · omega
  · omega

theorem comes (h : it.Starts) : it.Comes c := by
  intro v a hconst htime
  obtain ⟨i, hi⟩ := htime (c.time a + it.pause * 1000000)
  have hlater : c.time i ≤ c.time (max a i) := c.mono (Nat.le_max_right a i)
  obtain ⟨n, hn⟩ := htime (c.time (max a i) + it.delayTime v * 1000000)
  refine ⟨max (max a i) n + 1, fun m hm => ?_⟩
  obtain ⟨m, rfl⟩ := Nat.exists_eq_add_of_le' (Nat.le_trans (Nat.le_add_left 1 _) hm)
  have hreached : max (max a i) n ≤ m := Nat.le_of_succ_le_succ hm
  have hend : c.time n ≤ c.time m := c.mono (Nat.le_trans (Nat.le_max_right _ _) hreached)
  exact stored_of_inputs h (Nat.le_max_left a i) (Nat.le_trans (Nat.le_max_left _ _) hreached)
    (fun j hj _ => hconst j hj) (by omega) (by omega)

/-! ## The claim -/

theorem starts_new (defval d_off_value : Int) (invert : Bool)
    (debouncedelay ondelay offdelay : Int) (created : Nat) :
    (new defval d_off_value invert debouncedelay ondelay offdelay created).Starts := by
  refine ⟨rfl, rfl, ⟨rfl, rfl⟩, fun st => ?_⟩
  cases st with
  | false => exact ⟨rfl, rfl⟩
  | true => exact ⟨rfl, rfl⟩

/-- After the first sample the stored value is what comes out of the delays. -/
theorem change_right_succ (h : it.Starts) (n : Nat) (hne : it.stored c (n + 2) ≠ it.stored c (n + 1)) :
    ∃ j ≤ n + 1, (it.debounced c).Held (it.stored c (n + 2)) j (n + 1) ∧
      (it.delayTime (it.stored c (n + 2)) * 1000000 : ℤ) ≤ c.time (n + 1) - c.time j := by
  have hdelayed := (stored_tracks (c := c) h (n + 1)).2.2
  have hflip := Bool.eq_not_of_ne hne
  have hheld := hdelayed.mp hflip
  rw [hflip]
  exact hheld

theorem held_first {v : Bool} (hfirst : (it.debounced c).sees 0 = v) (hnone : it.delayTime v = 0) :
    ∃ j ≤ 0, (it.debounced c).Held v j 0 ∧
      (it.delayTime v * 1000000 : ℤ) ≤ (it.debounced c).time 0 - (it.debounced c).time j := by
  refine ⟨0, le_rfl, fun i hi hi' => ?_, ?_⟩
  · rw [Nat.le_antisymm hi' hi]
    exact hfirst
  · rw [hnone]
    simp

/-- The first sample stores the debounced one if its delay is none, else what the delays begin with.
-/
theorem stored_one (h : it.Starts) : it.stored c 1 = true ↔
    it.firstDebounced c = true ∧ it.delayTime true = 0 := by
  have hdelayed := (stored_tracks (c := c) h 0).2.2
  change it.stored c 1 = true ↔ ∃ j ≤ 0, (it.debounced c).Held true j 0 ∧
    (it.delayTime true * 1000000 : ℤ) ≤ (it.debounced c).time 0 - (it.debounced c).time j at hdelayed
  rw [hdelayed, ← debounced_first h]
  constructor
  · rintro ⟨j, hj, held, hlong⟩
    obtain rfl := Nat.le_zero.mp hj
    rw [sub_self] at hlong
    exact ⟨held 0 le_rfl le_rfl, by omega⟩
  · rintro ⟨hfirst, hnone⟩
    exact held_first hfirst hnone

theorem changesRight_iff (h : it.Starts) : it.ChangesRight c ↔
    it.stored c 0 = false ∨ it.delayTime (it.firstDebounced c) = 0 := by
  have hfirst := debounced_first (c := c) h
  have hone := stored_one (c := c) h
  constructor
  · intro hright
    refine (Bool.eq_false_or_eq_true (it.stored c 0)).symm.imp_right fun hzero => ?_
    cases hv : it.firstDebounced c with
    | true =>
      by_contra hdelay
      have hnot : it.stored c 1 = false := by
        rw [← Bool.not_eq_true, hone]
        exact fun hboth => hdelay hboth.2
      obtain ⟨j, hj, held, -⟩ := hright 0 (by rw [hnot, hzero]; exact Bool.false_ne_true)
      have hsees := held 0 hj le_rfl
      rw [hfirst, hv, hnot] at hsees
      exact Bool.false_ne_true hsees.symm
    | false =>
      have hnot : it.stored c 1 = false := by
        rw [← Bool.not_eq_true, hone, hv]
        exact fun hboth => Bool.false_ne_true hboth.1
      obtain ⟨j, hj, -, hlong⟩ := hright 0 (by rw [hnot, hzero]; exact Bool.false_ne_true)
      rw [Nat.le_zero.mp hj, hnot, sub_self] at hlong
      omega
  · intro hcond n hne
    cases n with
    | succ n => exact change_right_succ h n hne
    | zero =>
      cases hstored : it.stored c 1 with
      | true =>
        obtain ⟨hv, hnone⟩ := hone.mp hstored
        exact held_first (hfirst.trans hv) hnone
      | false =>
        rw [hstored] at hne
        have hdelay := hcond.resolve_left fun hzero => hne hzero.symm
        have hv : it.firstDebounced c = false := by
          by_contra htrue
          rw [Bool.not_eq_false] at htrue
          rw [htrue] at hdelay
          rw [hone.mpr ⟨htrue, hdelay⟩] at hstored
          exact Bool.false_ne_true hstored.symm
        rw [hv] at hdelay
        exact held_first (hfirst.trans hv) hdelay

/-- The delays do what they are for, if the value at the start is 0 or there is no delay for the
first debounced sample. -/
theorem delays_iff (defval d_off_value : Int) (invert : Bool) (debouncedelay ondelay offdelay : Int)
    (created : Nat) (c : Samples) :
    let it := new defval d_off_value invert debouncedelay ondelay offdelay created
    (it.ChangesRight c ∧ it.Settles c ∧ it.Comes c) ↔
      defval = 0 ∨ it.delayTime (it.firstDebounced c) = 0 := by
  intro it
  have hstarts : it.Starts := starts_new _ _ _ _ _ _ _
  have hzero : it.stored c 0 = false ↔ defval = 0 := by
    change decide (defval ≠ 0) = false ↔ _
    rw [decide_eq_false_iff_not, not_not]
  rw [← hzero, ← changesRight_iff hstarts]
  exact and_iff_left ⟨settles hstarts, comes hstarts⟩

/-- An input that is 1 at its start, and stays so, is stored as 0 until the delay is over. -/
theorem not_changesRight_default : ¬(new 1 0 false 0 5000 0 0).ChangesRight
    ⟨fun _ => true, fun _ => true, fun _ => false, fun n => n, fun _ _ h => h⟩ := by
  intro hright
  obtain ⟨j, hj, held, -⟩ := hright 0 (by decide)
  obtain rfl := Nat.le_zero.mp hj
  have hsees := held 0 le_rfl le_rfl
  revert hsees
  decide

end DelayedDI

end Uniset.Extensions
