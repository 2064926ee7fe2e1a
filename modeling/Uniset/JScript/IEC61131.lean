import Mathlib.Algebra.Order.Ring.Rat
import Mathlib.Tactic.Linarith
import Uniset.Lib.TimedSignal

/-! The timers of the standard: on delay, off delay and pulse. -/

namespace Uniset.JScript

open Uniset.Lib TimedSignal

structure TON where
  PT : ℚ
  Q : Bool
  ET : ℚ
  running : Bool
  startTime : ℚ
  deriving DecidableEq

def TON.new (PT : ℚ) : TON := ⟨PT, false, 0, false, 0⟩

/-- The timer after a call at `now`; what the call returns is its `Q`. -/
def TON.update (now : ℚ) (t : TON) (IN : Bool) : TON :=
  if IN then
    let t := if !t.running then { t with running := true, startTime := now } else t
    let t := { t with ET := now - t.startTime }
    if t.ET ≥ t.PT then { t with ET := t.PT, Q := true } else t
  else { t with Q := false, ET := 0, running := false }

structure TOF where
  PT : ℚ
  Q : Bool
  ET : ℚ
  running : Bool
  startTime : ℚ
  deriving DecidableEq

def TOF.new (PT : ℚ) : TOF := ⟨PT, false, 0, false, 0⟩

def TOF.update (now : ℚ) (t : TOF) (IN : Bool) : TOF :=
  if IN then { t with Q := true, ET := 0, running := false }
  else if t.Q then
    let t := if !t.running then { t with running := true, startTime := now } else t
    let t := { t with ET := now - t.startTime }
    if t.ET ≥ t.PT then { t with ET := t.PT, Q := false, running := false } else t
  else t

structure TP where
  PT : ℚ
  Q : Bool
  ET : ℚ
  running : Bool
  startTime : ℚ
  prevIN : Bool
  deriving DecidableEq

def TP.new (PT : ℚ) : TP := ⟨PT, false, 0, false, 0, false⟩

def TP.update (now : ℚ) (t : TP) (IN : Bool) : TP :=
  let t :=
    if t.running then
      let t := { t with ET := now - t.startTime }
      if t.ET ≥ t.PT then { t with ET := t.PT, Q := false, running := false } else t
    else if IN && !t.prevIN then { t with Q := true, running := true, startTime := now, ET := 0 }
    else if !IN then { t with ET := 0 }
    else t
  { t with prevIN := IN }

/-- The calls of a timer: the input of each, and when it is. -/
abbrev Calls := TimedSignal ℚ

variable (c : Calls) (PT : ℚ)

/-- A timer after so many calls. -/
def after {Timer : Type} (new : ℚ → Timer) (update : ℚ → Timer → Bool → Timer) : Nat → Timer
  | 0 => new PT
  | n + 1 => update (c.time n) (after new update n) (c.sees n)

/-- What the delay shows at the call `n`: on if its input has been for long enough. -/
structure OnDelayed (n : Nat) (Q : Bool) (ET : ℚ) : Prop where
  Q : Q = true ↔ ∃ k ≤ n, c.Held true k n ∧ PT ≤ c.time n - c.time k
  ET_off : c.sees n = false → ET = 0
  ET_on : ∀ k, c.Since true k n → ET = min PT (c.time n - c.time k)

/-- Off if the input never was on, or has been off for long enough. -/
structure OffDelayed (n : Nat) (Q : Bool) (ET : ℚ) : Prop where
  Q : Q = false ↔ c.Held false 0 n ∨ ∃ k ≤ n, c.Held false k n ∧ PT ≤ c.time n - c.time k
  ET_on : c.sees n = true → ET = 0
  ET_never : c.Held false 0 n → ET = 0
  ET_off : ∀ k, c.Since false k n → k ≠ 0 → ET = min PT (c.time n - c.time k)

/-- The calls before the `n`-th that a pulse starts at, the latest first: the rising edges while no
pulse runs. -/
def starts : Nat → List Nat
  | 0 => []
  | n + 1 =>
    if c.rises n ∧ ∀ k ∈ starts n, c.time k + PT ≤ c.time n then n :: starts n else starts n

/-- The input was off at a call that came after the pulse's last. -/
def Reset (k n : Nat) : Prop :=
  ∃ i, k ≤ i ∧ i < n ∧ c.time k + PT ≤ c.time i ∧ c.sees (i + 1) = false

/-- On during the pulses. -/
structure Pulsed (n : Nat) (Q : Bool) (ET : ℚ) : Prop where
  Q : Q = true ↔ ∃ k ∈ starts c PT (n + 1), c.time n < c.time k + PT
  ET_none : starts c PT (n + 1) = [] → ET = 0
  ET_reset : ∀ k ∈ (starts c PT (n + 1)).head?, Reset c PT k n → ET = 0
  ET_pulse : ∀ k ∈ (starts c PT (n + 1)).head?, ¬Reset c PT k n →
    ET = min PT (c.time n - c.time k)

/-- If there is a rising edge at the call, no pulse that still ran at the call before ends there, and
pulses are not empty. -/
def ClearAt (n : Nat) : Prop :=
  c.rises n = true → 0 < PT ∧
    ∀ k ∈ starts c PT n, c.time (n - 1) < c.time k + PT → c.time n < c.time k + PT

variable {c} {PT} {n : Nat}

section OnDelay

theorem TON.update_true (now : ℚ) (t : TON) :
    t.update now true =
      let start := if t.running then t.startTime else now
      ⟨t.PT, t.Q || decide (t.PT ≤ now - start), min t.PT (now - start), true, start⟩ := by
  obtain ⟨PT, Q, ET, running, startTime⟩ := t
  cases running with
  | true =>
    by_cases h : PT ≤ now - startTime
    · simp [update, h]
    · simp [update, h, le_of_not_ge h]
  | false =>
    by_cases h : PT ≤ 0
    · simp [update, h]
    · simp [update, h, le_of_not_ge h]

/-- What a timer is before the call `n`. -/
structure TON.Fits (c : Calls) (PT : ℚ) (n : Nat) (t : TON) : Prop where
  preset : t.PT = PT
  off : (∀ m, n = m + 1 → c.sees m = false) → t.running = false ∧ t.Q = false ∧ t.ET = 0
  on : ∀ k m, n = m + 1 → c.Since true k m → t.running = true ∧ t.startTime = c.time k ∧
    t.ET = min PT (c.time m - c.time k) ∧ (t.Q = true ↔ PT ≤ c.time m - c.time k)

theorem TON.Fits.update {t : TON} (h : TON.Fits c PT n t) :
    TON.Fits c PT (n + 1) (t.update (c.time n) (c.sees n)) := by
  cases hIN : c.sees n with
  | false =>
    refine ⟨h.preset, fun _ => ⟨rfl, rfl, rfl⟩, fun k m hm hsince => ?_⟩
    obtain rfl := Nat.succ.inj hm
    rw [hsince.sees_eq] at hIN
    cases hIN
  | true =>
    rw [TON.update_true, h.preset]
    refine ⟨rfl, fun hoff => ?_, fun k m hm hsince => ?_⟩
    · rw [hoff n rfl] at hIN
      cases hIN
    · obtain rfl := Nat.succ.inj hm
      -- the input has come on at this call, or was on before
      have hbegins : k = n → (∀ m, n = m + 1 → c.sees m = false) →
          (if t.running then t.startTime else c.time n) = c.time k ∧ t.Q = false := by
        rintro rfl hbefore
        obtain ⟨hrun, hQ, -⟩ := h.off hbefore
        rw [hrun]
        exact ⟨rfl, hQ⟩
      have hstart : (if t.running then t.startTime else c.time n) = c.time k ∧
          (t.Q = true → PT ≤ c.time n - c.time k) := by
        cases n with
        | zero =>
          obtain ⟨hstart, hQ⟩ := hbegins (since_zero.mp hsince).1 nofun
          exact ⟨hstart, fun h => absurd h (hQ ▸ Bool.false_ne_true)⟩
        | succ m =>
          rcases (since_succ.mp hsince).2 with hsince | ⟨rfl, hbefore⟩
          · obtain ⟨hrun, hstart, -, hQ⟩ := h.on k m rfl hsince
            rw [hrun]
            exact ⟨hstart, fun h => (hQ.mp h).trans (sub_le_sub_right (c.mono (Nat.le_succ m)) _)⟩
          · obtain ⟨hstart, hQ⟩ := hbegins rfl fun i hi => Nat.succ.inj hi ▸ hbefore
            exact ⟨hstart, fun h => absurd h (hQ ▸ Bool.false_ne_true)⟩
      dsimp only
      rw [hstart.1]
      refine ⟨rfl, rfl, rfl, ?_⟩
      rw [Bool.or_eq_true, decide_eq_true_iff]
      exact ⟨fun h => h.elim hstart.2 id, .inr⟩

theorem TON.fits (c : Calls) (PT : ℚ) (n : Nat) : TON.Fits c PT n (after c PT .new .update n) := by
  induction n with
  | zero => exact ⟨rfl, fun _ => ⟨rfl, rfl, rfl⟩, nofun⟩
  | succ n ih => exact ih.update

theorem TON.onDelayed (c : Calls) (PT : ℚ) (n : Nat) :
    let t := after c PT .new TON.update (n + 1)
    OnDelayed c PT n t.Q t.ET := by
  intro t
  have h : TON.Fits c PT (n + 1) t := TON.fits c PT (n + 1)
  cases hIN : c.sees n with
  | false =>
    obtain ⟨-, hQ, hET⟩ := h.off fun m hm => Nat.succ.inj hm ▸ hIN
    refine ⟨?_, fun _ => hET, fun k hk => ?_⟩
    · rw [hQ]
      refine iff_of_false nofun ?_
      rintro ⟨k, hk, hheld, -⟩
      rw [hheld n hk le_rfl] at hIN
      cases hIN
    · rw [hk.sees_eq] at hIN
      cases hIN
  | true =>
    obtain ⟨k, hk⟩ := exists_since c n
    rw [hIN] at hk
    obtain ⟨-, -, hET, hQ⟩ := h.on k n rfl hk
    refine ⟨hQ.trans (hk.held_for_iff PT).symm, fun h => ?_, fun j hj => ?_⟩
    · rw [hIN] at h
      cases h
    · rw [hj.unique hk]
      exact hET

end OnDelay

section OffDelay

/-- A timer that is on waits, or goes off. -/
theorem TOF.update_false (now : ℚ) {t : TOF} (hQ : t.Q = true) :
    t.update now false =
      let start := if t.running then t.startTime else now
      ⟨t.PT, decide (now - start < t.PT), min t.PT (now - start), decide (now - start < t.PT),
        start⟩ := by
  obtain ⟨PT, Q, ET, running, startTime⟩ := t
  obtain rfl : Q = true := hQ
  cases running with
  | true =>
    by_cases h : PT ≤ now - startTime
    · simp [update, h]
    · simp [update, h, le_of_not_ge h, lt_of_not_ge h]
  | false =>
    by_cases h : PT ≤ 0
    · simp [update, h]
    · simp [update, h, le_of_not_ge h, lt_of_not_ge h]

theorem TOF.update_off (now : ℚ) {t : TOF} (hQ : t.Q = false) : t.update now false = t := by
  rw [update, hQ]
  rfl

/-- What a timer is before the call `n`. -/
structure TOF.Fits (c : Calls) (PT : ℚ) (n : Nat) (t : TOF) : Prop where
  preset : t.PT = PT
  never : (∀ i < n, c.sees i = false) → t.Q = false ∧ t.ET = 0
  on : ∀ m, n = m + 1 → c.sees m = true → t.Q = true ∧ t.running = false ∧ t.ET = 0
  off : ∀ k m, n = m + 1 → k ≠ 0 → c.Since false k m →
    (t.Q = true ↔ c.time m - c.time k < PT) ∧ t.ET = min PT (c.time m - c.time k) ∧
      (t.Q = true → t.running = true ∧ t.startTime = c.time k)

theorem TOF.Fits.update {t : TOF} (h : TOF.Fits c PT n t) :
    TOF.Fits c PT (n + 1) (t.update (c.time n) (c.sees n)) := by
  cases hIN : c.sees n with
  | true =>
    refine ⟨h.preset, fun hnever => ?_, fun _ _ _ => ⟨rfl, rfl, rfl⟩, fun k m hm _ hsince => ?_⟩
    · rw [hnever n (Nat.lt_succ_self n)] at hIN
      cases hIN
    · obtain rfl := Nat.succ.inj hm
      rw [hsince.sees_eq] at hIN
      cases hIN
  | false =>
    refine ⟨?_, fun hnever => ?_, fun m hm hon => ?_, fun k m hm hk hsince => ?_⟩
    · cases hQ : t.Q with
      | true =>
        rw [TOF.update_false _ hQ]
        exact h.preset
      | false =>
        rw [TOF.update_off _ hQ]
        exact h.preset
    · obtain ⟨hQ, hET⟩ := h.never fun i hi => hnever i (hi.trans (Nat.lt_succ_self n))
      rw [TOF.update_off _ hQ]
      exact ⟨hQ, hET⟩
    · rw [← Nat.succ.inj hm, hIN] at hon
      cases hon
    · obtain rfl := Nat.succ.inj hm
      obtain ⟨m, rfl⟩ : ∃ m, n = m + 1 :=
        Nat.exists_eq_succ_of_ne_zero fun hn => hk (Nat.le_zero.mp (hn ▸ hsince.le))
      rcases (since_succ.mp hsince).2 with hsince | ⟨rfl, hbefore⟩
      · obtain ⟨hQiff, hET, hrun⟩ := h.off k m rfl hk hsince
        have hlater : c.time m - c.time k ≤ c.time (m + 1) - c.time k :=
          sub_le_sub_right (c.mono (Nat.le_succ m)) _
        cases hQ : t.Q with
        | true =>
          obtain ⟨hrun, hstart⟩ := hrun hQ
          rw [TOF.update_false _ hQ, hrun, h.preset]
          dsimp only
          rw [if_pos rfl, hstart]
          exact ⟨decide_eq_true_iff, rfl, fun h => ⟨h, rfl⟩⟩
        | false =>
          -- the delay is over, and was before
          have hover : PT ≤ c.time m - c.time k := not_lt.mp fun hlt => by
            rw [hQiff.mpr hlt] at hQ
            cases hQ
          rw [TOF.update_off _ hQ, min_eq_left (hover.trans hlater), hQ]
          exact ⟨iff_of_false nofun (not_lt.mpr (hover.trans hlater)),
            hET.trans (min_eq_left hover), nofun⟩
      · obtain ⟨hQ, hrun, -⟩ := h.on m rfl hbefore
        rw [TOF.update_false _ hQ, hrun, h.preset]
        exact ⟨decide_eq_true_iff, rfl, fun h => ⟨h, rfl⟩⟩

theorem TOF.fits (c : Calls) (PT : ℚ) (n : Nat) : TOF.Fits c PT n (after c PT .new .update n) := by
  induction n with
  | zero => exact ⟨rfl, fun _ => ⟨rfl, rfl⟩, nofun, nofun⟩
  | succ n ih => exact ih.update

theorem TOF.offDelayed (c : Calls) (PT : ℚ) (n : Nat) :
    let t := after c PT .new TOF.update (n + 1)
    OffDelayed c PT n t.Q t.ET := by
  intro t
  have h : TOF.Fits c PT (n + 1) t := TOF.fits c PT (n + 1)
  have hnever : c.Held false 0 n → t.Q = false ∧ t.ET = 0 := fun hheld =>
    h.never fun i hi => hheld i (Nat.zero_le i) (Nat.le_of_lt_succ hi)
  cases hIN : c.sees n with
  | true =>
    have hnot : ∀ k ≤ n, ¬c.Held false k n := fun k hk hheld => by
      rw [hheld n hk le_rfl] at hIN
      cases hIN
    obtain ⟨hQ, -, hET⟩ := h.on n rfl hIN
    refine ⟨?_, fun _ => hET, fun hheld => (hnever hheld).2, fun k hk => ?_⟩
    · rw [hQ]
      refine iff_of_false nofun ?_
      rintro (hheld | ⟨k, hk, hheld, -⟩)
      · exact hnot 0 (Nat.zero_le n) hheld
      · exact hnot k hk hheld
    · exact absurd hk.held (hnot k hk.le)
  | false =>
    obtain ⟨k, hk⟩ := exists_since c n
    rw [hIN] at hk
    by_cases hzero : k = 0
    · subst hzero
      refine ⟨iff_of_true (hnever hk.held).1 (.inl hk.held), fun h => ?_,
        fun hheld => (hnever hheld).2, fun j hj hpos => absurd (hj.unique hk) hpos⟩
      rw [hIN] at h
      cases h
    · obtain ⟨hQ, hET, -⟩ := h.off k n rfl hzero hk
      have hseen : ¬c.Held false 0 n := fun hheld =>
        hzero (Nat.le_zero.mp (hk.le_of_held hheld))
      refine ⟨?_, fun h => ?_, fun hheld => absurd hheld hseen, fun j hj _ => ?_⟩
      · rw [hk.held_for_iff PT, or_iff_right hseen, ← not_lt, ← hQ, Bool.not_eq_true]
      · rw [hIN] at h
        cases h
      · rw [hj.unique hk]
        exact hET

end OffDelay

section Pulse

theorem lt_of_mem_starts {k : Nat} (h : k ∈ starts c PT n) : k < n := by
  induction n with
  | zero => cases h
  | succ n ih =>
    unfold starts at h
    split_ifs at h
    · rcases List.mem_cons.mp h with rfl | h
      · exact Nat.lt_succ_self k
      · exact (ih h).trans (Nat.lt_succ_self n)
    · exact (ih h).trans (Nat.lt_succ_self n)

/-- The pulses before the latest had ended when it started. -/
theorem ended_of_starts {k : Nat} {ks : List Nat} (h : starts c PT n = k :: ks) :
    ∀ j ∈ ks, c.time j + PT ≤ c.time k := by
  induction n with
  | zero => cases h
  | succ n ih =>
    unfold starts at h
    split_ifs at h with hstart
    · obtain ⟨rfl, rfl⟩ := List.cons.inj h
      exact hstart.2
    · exact ih h

theorem forall_starts_iff {k : Nat} {ks : List Nat} (h : starts c PT n = k :: ks) :
    (∀ j ∈ starts c PT n, c.time j + PT ≤ c.time n) ↔ c.time k + PT ≤ c.time n := by
  rw [h]
  refine ⟨fun hall => hall k List.mem_cons_self, fun hk j hj => ?_⟩
  rcases List.mem_cons.mp hj with rfl | hj
  · exact hk
  · have hlt : k < n := lt_of_mem_starts (h ▸ List.mem_cons_self)
    exact (ended_of_starts h j hj).trans (c.mono hlt.le)

theorem reset_succ {k : Nat} : Reset c PT k (n + 1) ↔
    Reset c PT k n ∨ k ≤ n ∧ c.time k + PT ≤ c.time n ∧ c.sees (n + 1) = false := by
  constructor
  · rintro ⟨i, hk, hi, hended, hoff⟩
    rcases Nat.lt_succ_iff_lt_or_eq.mp hi with hi | rfl
    · exact .inl ⟨i, hk, hi, hended, hoff⟩
    · exact .inr ⟨hk, hended, hoff⟩
  · rintro (⟨i, hk, hi, hended, hoff⟩ | ⟨hk, hended, hoff⟩)
    · exact ⟨i, hk, hi.trans (Nat.lt_succ_self n), hended, hoff⟩
    · exact ⟨n, hk, Nat.lt_succ_self n, hended, hoff⟩

theorem not_reset_of_lt {k : Nat} (h : c.time n < c.time k + PT) : ¬Reset c PT k (n + 1) := by
  rintro ⟨i, -, hi, hended, -⟩
  exact absurd (hended.trans (c.mono (Nat.le_of_lt_succ hi))) (not_le.mpr h)

/-- What a timer is before the call `n`. -/
structure TP.Fits (c : Calls) (PT : ℚ) (n : Nat) (t : TP) : Prop where
  preset : t.PT = PT
  rises : c.rises n = (c.sees n && !t.prevIN)
  idle : starts c PT n = [] → t.running = false ∧ t.Q = false ∧ t.ET = 0
  pulse : ∀ k ks, starts c PT n = k :: ks → t.startTime = c.time k ∧ t.Q = t.running ∧
    (t.running = true ↔ c.time (n - 1) < c.time k + PT) ∧
    (Reset c PT k (n - 1) → t.ET = 0) ∧
    (¬Reset c PT k (n - 1) → t.ET = min PT (c.time (n - 1) - c.time k))

theorem TP.update_running {now : ℚ} {t : TP} {IN : Bool} (hrun : t.running = true) :
    t.update now IN =
      ⟨t.PT, t.Q && decide (now - t.startTime < t.PT), min t.PT (now - t.startTime),
        decide (now - t.startTime < t.PT), t.startTime, IN⟩ := by
  obtain ⟨PT, Q, ET, running, startTime, prevIN⟩ := t
  obtain rfl : running = true := hrun
  by_cases h : PT ≤ now - startTime
  · simp [update, h]
  · simp [update, h, le_of_not_ge h, lt_of_not_ge h]

theorem TP.update_rises {now : ℚ} {t : TP} {IN : Bool} (hrun : t.running = false)
    (hrises : (IN && !t.prevIN) = true) :
    t.update now IN = ⟨t.PT, true, 0, true, now, IN⟩ := by
  obtain ⟨PT, Q, ET, running, startTime, prevIN⟩ := t
  obtain rfl : running = false := hrun
  simp [update, hrises]

theorem TP.update_rest {now : ℚ} {t : TP} {IN : Bool} (hrun : t.running = false)
    (hrises : (IN && !t.prevIN) = false) :
    t.update now IN = { t with ET := if IN then t.ET else 0, prevIN := IN } := by
  obtain ⟨PT, Q, ET, running, startTime, prevIN⟩ := t
  obtain rfl : running = false := hrun
  cases IN with
  | true => simp [update, hrises]
  | false => simp [update]

theorem starts_of_rises (hrises : c.rises n = true)
    (h : ∀ k ∈ starts c PT n, c.time k + PT ≤ c.time n) :
    starts c PT (n + 1) = n :: starts c PT n := if_pos ⟨hrises, h⟩

theorem starts_of_not (h : ¬(c.rises n = true ∧ ∀ k ∈ starts c PT n, c.time k + PT ≤ c.time n)) :
    starts c PT (n + 1) = starts c PT n := if_neg h

namespace TP.Fits

variable {t : TP}

/-- A pulse starts. -/
theorem start (h : TP.Fits c PT n t) (hrun : t.running = false) (hrises : c.rises n = true)
    (hPT : 0 < PT) (hended : ∀ k ∈ starts c PT n, c.time k + PT ≤ c.time n) :
    TP.Fits c PT (n + 1) (t.update (c.time n) (c.sees n)) := by
  rw [TP.update_rises hrun (h.rises ▸ hrises)]
  refine ⟨h.preset, rfl, fun hnil => ?_, fun k ks hstarts => ?_⟩
  · rw [starts_of_rises hrises hended] at hnil
    cases hnil
  · rw [starts_of_rises hrises hended] at hstarts
    obtain ⟨rfl, rfl⟩ := List.cons.inj hstarts
    rw [Nat.add_sub_cancel]
    refine ⟨rfl, rfl, iff_of_true rfl (lt_add_of_pos_right _ hPT), fun _ => rfl, fun _ => ?_⟩
    rw [sub_self, min_eq_right hPT.le]

/-- Nothing starts, and no pulse runs. -/
theorem rest (h : TP.Fits c PT n t) (hrun : t.running = false) (hrises : c.rises n = false) :
    TP.Fits c PT (n + 1) (t.update (c.time n) (c.sees n)) := by
  have hstarts : starts c PT (n + 1) = starts c PT n :=
    starts_of_not fun ⟨hr, _⟩ => Bool.false_ne_true (hrises.symm.trans hr)
  rw [TP.update_rest hrun (h.rises ▸ hrises)]
  refine ⟨h.preset, rfl, fun hnil => ?_, fun k ks hk => ?_⟩
  · obtain ⟨-, hQ, hET⟩ := h.idle (hstarts ▸ hnil)
    refine ⟨hrun, hQ, ?_⟩
    dsimp only
    rw [hET, ite_self]
  · rw [hstarts] at hk
    have hlt : k < n := lt_of_mem_starts (hk ▸ List.mem_cons_self)
    obtain ⟨m, rfl⟩ : ∃ m, n = m + 1 := Nat.exists_eq_succ_of_ne_zero (Nat.ne_zero_of_lt hlt)
    obtain ⟨hstart, hQ, hruns, hreset, hET⟩ := h.pulse k ks hk
    rw [Nat.add_sub_cancel] at hruns hreset hET
    have hended : c.time k + PT ≤ c.time m := not_lt.mp fun hlt => by
      rw [hruns.mpr hlt] at hrun
      cases hrun
    have hlater : c.time m ≤ c.time (m + 1) := c.mono (Nat.le_succ m)
    rw [Nat.add_sub_cancel, reset_succ]
    refine ⟨hstart, hQ, iff_of_false (hrun ▸ nofun) (not_lt.mpr (hended.trans hlater)), ?_, ?_⟩
    · rintro (hr | ⟨-, -, hoff⟩)
      · dsimp only
        rw [hreset hr, ite_self]
      · dsimp only
        rw [hoff]
        rfl
    · intro hnot
      obtain ⟨hr, hon⟩ := not_or.mp hnot
      have hon : c.sees (m + 1) = true := by
        cases hsees : c.sees (m + 1) with
        | true => rfl
        | false => exact absurd ⟨Nat.le_of_lt_succ hlt, hended, hsees⟩ hon
      dsimp only
      rw [hon, if_pos rfl, hET hr, min_eq_left (by linarith), min_eq_left (by linarith)]

/-- The pulse goes on, or ends. -/
theorem run (h : TP.Fits c PT n t) (hrun : t.running = true)
    (hclear : ¬(c.rises n = true ∧ ∀ k ∈ starts c PT n, c.time k + PT ≤ c.time n)) :
    TP.Fits c PT (n + 1) (t.update (c.time n) (c.sees n)) := by
  rw [TP.update_running hrun, h.preset]
  refine ⟨rfl, rfl, fun hnil => ?_, fun k ks hk => ?_⟩
  · rw [starts_of_not hclear] at hnil
    rw [(h.idle hnil).1] at hrun
    cases hrun
  · rw [starts_of_not hclear] at hk
    have hlt : k < n := lt_of_mem_starts (hk ▸ List.mem_cons_self)
    obtain ⟨m, rfl⟩ : ∃ m, n = m + 1 := Nat.exists_eq_succ_of_ne_zero (Nat.ne_zero_of_lt hlt)
    obtain ⟨hstart, hQ, hruns, -, -⟩ := h.pulse k ks hk
    have hnot : ¬Reset c PT k (m + 1) := not_reset_of_lt (hruns.mp hrun)
    dsimp only
    rw [hstart, hQ, hrun, Nat.add_sub_cancel, Bool.true_and]
    exact ⟨rfl, rfl, decide_eq_true_iff.trans sub_lt_iff_lt_add', fun hr => absurd hr hnot,
      fun _ => rfl⟩

theorem update (h : TP.Fits c PT n t) (hclear : ClearAt c PT n) :
    TP.Fits c PT (n + 1) (t.update (c.time n) (c.sees n)) := by
  cases hrun : t.running with
  | true =>
    refine h.run hrun fun ⟨hrises, hended⟩ => ?_
    cases hstarts : starts c PT n with
    | nil =>
      rw [(h.idle hstarts).1] at hrun
      cases hrun
    | cons k ks =>
      have hk : k ∈ starts c PT n := hstarts ▸ List.mem_cons_self
      have hruns := (h.pulse k ks hstarts).2.2.1.mp hrun
      exact absurd ((hclear hrises).2 k hk hruns) (not_lt.mpr (hended k hk))
  | false =>
    cases hrises : c.rises n with
    | false => exact h.rest hrun hrises
    | true =>
      refine h.start hrun hrises (hclear hrises).1 ?_
      cases hstarts : starts c PT n with
      | nil => exact fun k hk => absurd hk List.not_mem_nil
      | cons k ks =>
        rw [← hstarts, forall_starts_iff hstarts]
        have hruns := (h.pulse k ks hstarts).2.2.1
        rw [hrun] at hruns
        have hended : c.time k + PT ≤ c.time (n - 1) := not_lt.mp fun hlt => nomatch hruns.mpr hlt
        exact hended.trans (c.mono (Nat.sub_le n 1))

/-- What is shown at a call. -/
theorem pulsed (h : TP.Fits c PT (n + 1) t) : Pulsed c PT n t.Q t.ET := by
  cases hstarts : starts c PT (n + 1) with
  | nil =>
    obtain ⟨-, hQ, hET⟩ := h.idle hstarts
    refine ⟨?_, fun _ => hET, fun k hk => ?_, fun k hk => ?_⟩
    · rw [hQ, hstarts]
      exact iff_of_false nofun fun ⟨k, hk, _⟩ => absurd hk List.not_mem_nil
    · rw [hstarts] at hk
      cases hk
    · rw [hstarts] at hk
      cases hk
  | cons k ks =>
    obtain ⟨-, hQ, hruns, hreset, hET⟩ := h.pulse k ks hstarts
    refine ⟨?_, fun hnil => ?_, fun j hj => ?_, fun j hj => ?_⟩
    · rw [hQ, hruns, Nat.add_sub_cancel, hstarts]
      refine ⟨fun hlt => ⟨k, List.mem_cons_self, hlt⟩, fun ⟨j, hj, hlt⟩ => ?_⟩
      rcases List.mem_cons.mp hj with rfl | hj
      · exact hlt
      · have hle : k ≤ n := Nat.le_of_lt_succ (lt_of_mem_starts (hstarts ▸ List.mem_cons_self))
        exact absurd ((ended_of_starts hstarts j hj).trans (c.mono hle)) (not_le.mpr hlt)
    · rw [hstarts] at hnil
      cases hnil
    · rw [hstarts] at hj
      cases hj
      exact hreset
    · rw [hstarts] at hj
      cases hj
      exact hET

end TP.Fits

/-- A call that a wrong pulse would be shown at is not clear. -/
theorem TP.Fits.clearAt {t : TP} (h : TP.Fits c PT n t)
    (hshown : Pulsed c PT n (t.update (c.time n) (c.sees n)).Q (t.update (c.time n) (c.sees n)).ET) :
    ClearAt c PT n := by
  intro hrises
  have hbefore : PT ≤ 0 → ∀ k, k < n → ¬c.time (n - 1) < c.time k + PT := fun hPT k hk hlt =>
    absurd (c.mono (Nat.le_sub_one_of_lt hk)) (by linarith)
  have hruns : ∀ k ∈ starts c PT n, c.time (n - 1) < c.time k + PT →
      ¬c.time k + PT ≤ c.time n := by
    intro k hk hlt hended
    obtain ⟨j, ks, hstarts⟩ : ∃ j ks, starts c PT n = j :: ks :=
      List.exists_cons_of_ne_nil (List.ne_nil_of_mem hk)
    obtain ⟨hstart, -, hrun, -, -⟩ := h.pulse j ks hstarts
    obtain rfl : k = j := by
      rw [hstarts] at hk
      refine (List.mem_cons.mp hk).resolve_right fun hk => ?_
      have hj : j ≤ n - 1 :=
        Nat.le_sub_one_of_lt (lt_of_mem_starts (hstarts ▸ List.mem_cons_self))
      exact absurd ((ended_of_starts hstarts k hk).trans (c.mono hj)) (not_le.mpr hlt)
    have hQ : (t.update (c.time n) (c.sees n)).Q = false := by
      rw [TP.update_running (hrun.mpr hlt), h.preset, hstart]
      dsimp only
      rw [decide_eq_false (by linarith), Bool.and_false]
    have hPT : 0 < PT := not_le.mp fun hPT => hbefore hPT k (lt_of_mem_starts hk) hlt
    refine Bool.false_ne_true (hQ.symm.trans (hshown.Q.mpr ⟨n, ?_, lt_add_of_pos_right _ hPT⟩))
    rw [starts_of_rises hrises ((forall_starts_iff hstarts).mpr hended)]
    exact List.mem_cons_self
  refine ⟨not_le.mp fun hPT => ?_, fun k hk hlt => not_le.mp (hruns k hk hlt)⟩
  have hrun : t.running = false := by
    cases hstarts : starts c PT n with
    | nil => exact (h.idle hstarts).1
    | cons k ks =>
      have hk : k < n := lt_of_mem_starts (hstarts ▸ List.mem_cons_self)
      rw [Bool.eq_false_iff, ne_eq, (h.pulse k ks hstarts).2.2.1]
      exact hbefore hPT k hk
  rw [TP.update_rises hrun (h.rises ▸ hrises)] at hshown
  obtain ⟨k, hk, hlt⟩ := hshown.Q.mp rfl
  have hle := c.mono (Nat.le_of_lt_succ (lt_of_mem_starts hk))
  linarith

theorem TP.fits_zero (c : Calls) (PT : ℚ) : TP.Fits c PT 0 (.new PT) :=
  ⟨rfl, (Bool.and_true _).symm, fun _ => ⟨rfl, rfl, rfl⟩, nofun⟩

theorem TP.pulsed_iff (c : Calls) (PT : ℚ) :
    (∀ n, let t := after c PT .new TP.update (n + 1)
      Pulsed c PT n t.Q t.ET) ↔ ∀ n, ClearAt c PT n := by
  have hfits : ∀ n, (∀ m < n, ClearAt c PT m) → TP.Fits c PT n (after c PT .new .update n) := by
    intro n hclear
    induction n with
    | zero => exact TP.fits_zero c PT
    | succ n ih =>
      have hfits := ih fun m hm => hclear m (Nat.lt_succ_of_lt hm)
      exact hfits.update (hclear n (Nat.lt_succ_self n))
  constructor
  · intro h n
    induction n using Nat.strong_induction_on with
    | h n ih => exact (hfits n ih).clearAt (h n)
  · intro hclear n
    exact (hfits (n + 1) fun m _ => hclear m).pulsed

end Pulse

/-- The delays are as they should be for every sequence of calls, and the pulses are if all calls
are clear. -/
theorem timers_iff (c : Calls) (PT : ℚ) :
    (∀ n, let t := after c PT .new TON.update (n + 1)
      OnDelayed c PT n t.Q t.ET) ∧
    (∀ n, let t := after c PT .new TOF.update (n + 1)
      OffDelayed c PT n t.Q t.ET) ∧
    ((∀ n, let t := after c PT .new TP.update (n + 1)
      Pulsed c PT n t.Q t.ET) ↔ ∀ n, ClearAt c PT n) :=
  ⟨TON.onDelayed c PT, TOF.offDelayed c PT, TP.pulsed_iff c PT⟩

/-- The input comes on again when the pulse ends. -/
def edgeAtEnd : Calls where
  sees n := n ≠ 1
  time n := if n ≤ 1 then 0 else 1
  mono i j hij := by
    by_cases hj : j ≤ 1
    · simp only [if_pos hj, if_pos (hij.trans hj), le_rfl]
    · simp only [if_neg hj]
      split_ifs
      · exact zero_le_one
      · exact le_rfl

/-- That edge starts no pulse. -/
theorem not_pulsed : ¬∀ (c : Calls) (PT : ℚ), 0 ≤ PT → ∀ n,
    let t := after c PT .new TP.update (n + 1)
    Pulsed c PT n t.Q t.ET := by
  intro h
  have hQ := (h edgeAtEnd 1 zero_le_one 2).Q
  have hoff : (after edgeAtEnd 1 TP.new TP.update 3).Q = false := by decide +kernel
  have hon : 2 ∈ starts edgeAtEnd 1 3 ∧ edgeAtEnd.time 2 < edgeAtEnd.time 2 + 1 := by decide +kernel
  exact Bool.false_ne_true (hoff.symm.trans (hQ.mpr ⟨2, hon⟩))
end Uniset.JScript
