import Mathlib.Algebra.Order.Field.Rat
import Mathlib.Tactic.Linarith
import Mathlib.Tactic.Ring
import Uniset.Lib.GuardedRun

/-! The regulator: its output within the limits, and what is integrated when it is at one. -/

namespace Uniset.JScript

open Uniset.Lib

structure PIDSettings where
  KP : ℚ
  TN : ℚ
  TV : ℚ
  Y_MIN : ℚ
  Y_MAX : ℚ
  Y_OFFSET : ℚ
  TN_nonneg : 0 ≤ TN
  TV_nonneg : 0 ≤ TV
  le_offset : Y_MIN ≤ Y_OFFSET
  offset_le : Y_OFFSET ≤ Y_MAX

/-- A call, with the mode and the time it finds. -/
structure PIDCall where
  now : ℚ
  ACTUAL : ℚ
  SET_POINT : ℚ
  RESET : Bool
  MANUAL : Bool
  Y_MANUAL : ℚ

/-- `y_raw` is not in the code: the value before the limits that `Y` has last been made of. -/
structure PID where
  Y : ℚ
  LIMITS_ACTIVE : Bool
  OVERFLOW : Bool
  integral : ℚ
  prevError : ℚ
  lastTime : ℚ
  initialized : Bool
  y_raw : ℚ
  deriving DecidableEq

namespace PID

def new : PID := ⟨0, false, false, 0, 0, 0, false, 0⟩

variable (p : PIDSettings)

section Terms

variable (s : PID) (error dt : ℚ)

def p_term : ℚ := p.KP * error

def d_term : ℚ := if p.TV > 0 then p.KP * p.TV * (error - s.prevError) / dt else 0

def y_without_i : ℚ :=
  p_term p error + p.KP * (1 / p.TN) * s.integral + d_term p s error dt + p.Y_OFFSET

def should_integrate : Bool :=
  !(y_without_i p s error dt ≥ p.Y_MAX ∧ error > 0) && !(y_without_i p s error dt ≤ p.Y_MIN ∧ error < 0)

def integrate : ℚ :=
  if p.TN > 0 then if should_integrate p s error dt then s.integral + error * dt else s.integral
  else s.integral

def i_term : ℚ := if p.TN > 0 then p.KP * (1 / p.TN) * integrate p s error dt else 0

def unlimited : ℚ := p_term p error + i_term p s error dt + d_term p s error dt + p.Y_OFFSET

end Terms

def limit (s : PID) (y_raw : ℚ) : PID :=
  if y_raw > p.Y_MAX then { s with Y := p.Y_MAX, LIMITS_ACTIVE := true, y_raw := y_raw }
  else if y_raw < p.Y_MIN then { s with Y := p.Y_MIN, LIMITS_ACTIVE := true, y_raw := y_raw }
  else { s with Y := y_raw, LIMITS_ACTIVE := false, y_raw := y_raw }

def regulate (s : PID) (error dt : ℚ) : PID :=
  limit p { s with
    prevError := error
    integral := integrate p s error dt
    OVERFLOW := if p.TN > 0 then false else s.OVERFLOW } (unlimited p s error dt)

def elapsed (s : PID) (c : PIDCall) : ℚ := (c.now - s.lastTime) / 1000

def error (c : PIDCall) : ℚ := c.SET_POINT - c.ACTUAL

def update (s : PID) (c : PIDCall) : PID :=
  if c.RESET || !s.initialized then
    { s with
      integral := 0
      prevError := 0
      lastTime := c.now
      initialized := true
      Y := p.Y_OFFSET
      y_raw := p.Y_OFFSET
      LIMITS_ACTIVE := false
      OVERFLOW := false }
  else if c.MANUAL then
    { s with Y := c.Y_MANUAL, y_raw := c.Y_MANUAL, lastTime := c.now, LIMITS_ACTIVE := false }
  else if elapsed s c ≤ 0 then { s with lastTime := c.now }
  else regulate p { s with lastTime := c.now } (error c) (elapsed s c)

/-- The call is in automatic mode and does not start the regulator. -/
structure Automatic (s : PID) (c : PIDCall) : Prop where
  started : s.initialized = true
  reset : c.RESET = false
  manual : c.MANUAL = false

def Outside (y : ℚ) : Prop := y < p.Y_MIN ∨ p.Y_MAX < y

/-- What a call does right: in automatic mode the output is within the limits, and is shown to be
limited when the sum is not; at a limit nothing is integrated that drives the output on. -/
structure Right (s : PID) (c : PIDCall) : Prop where
  within : c.MANUAL = false → ¬Outside p (update p s c).Y
  active : c.MANUAL = false → ((update p s c).LIMITS_ACTIVE = true ↔ Outside p (update p s c).y_raw)
  high : Automatic s c → 0 < elapsed s c → 0 < p.TN →
    p.Y_MAX ≤ y_without_i p s (error c) (elapsed s c) →
    p.KP * (1 / p.TN) * ((update p s c).integral - s.integral) ≤ 0
  low : Automatic s c → 0 < elapsed s c → 0 < p.TN →
    y_without_i p s (error c) (elapsed s c) ≤ p.Y_MIN →
    0 ≤ p.KP * (1 / p.TN) * ((update p s c).integral - s.integral)

/-- A call at the time of the call before finds an output within the limits, and with a negative
coefficient the error does not drive the output towards a limit that it is at. -/
structure Orderly (s : PID) (c : PIDCall) : Prop where
  settled : Automatic s c → elapsed s c = 0 → ¬Outside p s.Y
  high : Automatic s c → 0 < elapsed s c → 0 < p.TN → p.KP < 0 → error c < 0 →
    p.Y_MIN < y_without_i p s (error c) (elapsed s c) →
    y_without_i p s (error c) (elapsed s c) < p.Y_MAX
  low : Automatic s c → 0 < elapsed s c → 0 < p.TN → p.KP < 0 → 0 < error c →
    y_without_i p s (error c) (elapsed s c) < p.Y_MAX →
    p.Y_MIN < y_without_i p s (error c) (elapsed s c)

/-- The time does not go back. -/
def Timely (s : PID) (c : PIDCall) : Prop := s.initialized = true → s.lastTime ≤ c.now

/-- The output shows that it is limited, or it is what it was made of and shows nothing. -/
def Shown (s : PID) : Prop :=
  (s.LIMITS_ACTIVE = true ↔ Outside p s.y_raw) ∨ s.Y = s.y_raw ∧ s.LIMITS_ACTIVE = false

variable {p} {s : PID} {c : PIDCall}

theorem not_outside_iff {y : ℚ} : ¬Outside p y ↔ p.Y_MIN ≤ y ∧ y ≤ p.Y_MAX := by
  rw [Outside, not_or, not_lt, not_lt]

theorem limit_within (s : PID) (y : ℚ) : ¬Outside p (limit p s y).Y := by
  have hle : p.Y_MIN ≤ p.Y_MAX := p.le_offset.trans p.offset_le
  rw [not_outside_iff]
  unfold limit
  split_ifs with hmax hmin
  · exact ⟨hle, le_rfl⟩
  · exact ⟨le_rfl, hle⟩
  · exact ⟨not_lt.mp hmin, not_lt.mp hmax⟩

theorem limit_active (s : PID) (y : ℚ) :
    (limit p s y).LIMITS_ACTIVE = true ↔ Outside p (limit p s y).y_raw := by
  unfold limit Outside
  split_ifs with hmax hmin
  · exact iff_of_true rfl (.inr hmax)
  · exact iff_of_true rfl (.inl hmin)
  · exact iff_of_false id (not_or.mpr ⟨hmin, hmax⟩)

theorem limit_integral (s : PID) (y : ℚ) : (limit p s y).integral = s.integral := by
  unfold limit
  split_ifs <;> rfl

section Windup

variable {error dt : ℚ}

/-- What an increment does to the output has the sign of the coefficient times the error. -/
theorem effect_pos_iff (hTN : 0 < p.TN) (hdt : 0 < dt) (error : ℚ) :
    0 < p.KP * (1 / p.TN) * (error * dt) ↔ 0 < p.KP * error := by
  rw [show p.KP * (1 / p.TN) * (error * dt) = p.KP * error * (dt / p.TN) by ring]
  exact mul_pos_iff_of_pos_right (div_pos hdt hTN)

theorem effect_neg_iff (hTN : 0 < p.TN) (hdt : 0 < dt) (error : ℚ) :
    p.KP * (1 / p.TN) * (error * dt) < 0 ↔ p.KP * error < 0 := by
  have h := effect_pos_iff hTN hdt (-error)
  rwa [neg_mul, mul_neg, mul_neg, neg_pos, neg_pos] at h

theorem should_integrate_iff : should_integrate p s error dt = true ↔
    (p.Y_MAX ≤ y_without_i p s error dt → error ≤ 0) ∧
      (y_without_i p s error dt ≤ p.Y_MIN → 0 ≤ error) := by
  simp only [should_integrate, Bool.and_eq_true, Bool.not_eq_true', decide_eq_false_iff_not, not_and,
    not_lt, ge_iff_le, gt_iff_lt]

theorem integrate_sub (hTN : 0 < p.TN) :
    integrate p s error dt - s.integral = if should_integrate p s error dt then error * dt else 0 := by
  unfold integrate
  rw [if_pos hTN]
  split_ifs
  · exact add_sub_cancel_left _ _
  · exact sub_self _

theorem high_iff (hTN : 0 < p.TN) (hdt : 0 < dt) (hmax : p.Y_MAX ≤ y_without_i p s error dt) :
    p.KP * (1 / p.TN) * (integrate p s error dt - s.integral) ≤ 0 ↔
      ¬(p.KP < 0 ∧ error < 0 ∧ p.Y_MIN < y_without_i p s error dt) := by
  rw [integrate_sub hTN]
  by_cases hshould : should_integrate p s error dt = true
  · obtain ⟨hhigh, hlow⟩ := should_integrate_iff.mp hshould
    rw [if_pos hshould, ← not_lt, effect_pos_iff hTN hdt, mul_pos_iff]
    refine not_congr ⟨fun h => ?_, fun ⟨hKP, herror, _⟩ => .inr ⟨hKP, herror⟩⟩
    rcases h with h | h
    · exact absurd (hhigh hmax) (not_le.mpr h.2)
    · exact ⟨h.1, h.2, not_le.mp fun hmin => absurd (hlow hmin) (not_le.mpr h.2)⟩
  · rw [if_neg hshould, mul_zero]
    refine iff_of_true le_rfl fun ⟨_, herror, hmin⟩ => hshould (should_integrate_iff.mpr ?_)
    exact ⟨fun _ => herror.le, fun h => absurd h (not_le.mpr hmin)⟩

theorem low_iff (hTN : 0 < p.TN) (hdt : 0 < dt) (hmin : y_without_i p s error dt ≤ p.Y_MIN) :
    0 ≤ p.KP * (1 / p.TN) * (integrate p s error dt - s.integral) ↔
      ¬(p.KP < 0 ∧ 0 < error ∧ y_without_i p s error dt < p.Y_MAX) := by
  rw [integrate_sub hTN]
  by_cases hshould : should_integrate p s error dt = true
  · obtain ⟨hhigh, hlow⟩ := should_integrate_iff.mp hshould
    rw [if_pos hshould, ← not_lt, effect_neg_iff hTN hdt, mul_neg_iff]
    refine not_congr ⟨fun h => ?_, fun ⟨hKP, herror, _⟩ => .inr ⟨hKP, herror⟩⟩
    rcases h with h | h
    · exact absurd (hlow hmin) (not_le.mpr h.2)
    · exact ⟨h.1, h.2, not_le.mp fun hmax => absurd (hhigh hmax) (not_le.mpr h.2)⟩
  · rw [if_neg hshould, mul_zero]
    refine iff_of_true le_rfl fun ⟨_, herror, hmax⟩ => hshould (should_integrate_iff.mpr ?_)
    exact ⟨fun h => absurd h (not_le.mpr hmax), fun _ => herror.le⟩

end Windup

theorem Automatic.update_eq (h : Automatic s c) :
    update p s c = if elapsed s c ≤ 0 then { s with lastTime := c.now }
      else regulate p { s with lastTime := c.now } (error c) (elapsed s c) := by
  unfold update
  rw [h.started, h.reset, h.manual]
  rfl

theorem elapsed_nonneg (hs : s.initialized = true) (h : Timely s c) : 0 ≤ elapsed s c :=
  div_nonneg (sub_nonneg.mpr (h hs)) (by norm_num)

/-- A call that takes some time in automatic mode. -/
theorem Automatic.right_iff (h : Automatic s c) (hdt : 0 < elapsed s c) : Right p s c ↔ Orderly p s c := by
  have hupdate : update p s c = _ := h.update_eq
  rw [if_neg (not_le.mpr hdt)] at hupdate
  have hintegral : (update p s c).integral = integrate p s (error c) (elapsed s c) := by
    rw [hupdate, regulate, limit_integral]
    rfl
  have hwithin : ¬Outside p (update p s c).Y := by
    rw [hupdate]
    exact limit_within _ _
  have hactive : (update p s c).LIMITS_ACTIVE = true ↔ Outside p (update p s c).y_raw := by
    rw [hupdate]
    exact limit_active _ _
  constructor
  · intro hright
    refine ⟨fun _ hzero => absurd hzero hdt.ne', fun _ _ hTN hKP herror hmin => ?_,
      fun _ _ hTN hKP herror hmax => ?_⟩
    · refine not_le.mp fun hmax => (high_iff hTN hdt hmax).mp ?_ ⟨hKP, herror, hmin⟩
      rw [← hintegral]
      exact hright.high h hdt hTN hmax
    · refine not_le.mp fun hmin => (low_iff hTN hdt hmin).mp ?_ ⟨hKP, herror, hmax⟩
      rw [← hintegral]
      exact hright.low h hdt hTN hmin
  · intro horderly
    refine ⟨fun _ => hwithin, fun _ => hactive, fun _ _ hTN hmax => ?_, fun _ _ hTN hmin => ?_⟩
    · rw [hintegral]
      exact (high_iff hTN hdt hmax).mpr fun ⟨hKP, herror, hmin⟩ =>
        absurd (horderly.high h hdt hTN hKP herror hmin) (not_lt.mpr hmax)
    · rw [hintegral]
      exact (low_iff hTN hdt hmin).mpr fun ⟨hKP, herror, hmax⟩ =>
        absurd (horderly.low h hdt hTN hKP herror hmax) (not_lt.mpr hmin)

/-- A call in automatic mode at the time of the call before. -/
theorem Automatic.right_iff_of_zero (h : Automatic s c) (hdt : elapsed s c = 0) (hs : Shown p s) :
    Right p s c ↔ Orderly p s c := by
  have hupdate : update p s c = _ := h.update_eq
  rw [if_pos hdt.le] at hupdate
  constructor
  · intro hright
    have hwithin := hright.within h.manual
    rw [hupdate] at hwithin
    exact ⟨fun _ _ => hwithin, fun _ hpos => absurd hdt hpos.ne', fun _ hpos => absurd hdt hpos.ne'⟩
  · intro horderly
    have hwithin : ¬Outside p s.Y := horderly.settled h hdt
    have hactive : s.LIMITS_ACTIVE = true ↔ Outside p s.y_raw := by
      rcases hs with hs | ⟨hY, hfalse⟩
      · exact hs
      · rw [hfalse, ← hY]
        exact iff_of_false Bool.false_ne_true hwithin
    refine ⟨fun _ => ?_, fun _ => ?_, fun _ hpos => absurd hdt hpos.ne', fun _ hpos => absurd hdt hpos.ne'⟩
    · rwa [hupdate]
    · rwa [hupdate]

theorem right_iff_orderly (hs : Shown p s) (ht : Timely s c) : Right p s c ↔ Orderly p s c := by
  by_cases h : Automatic s c
  · rcases (elapsed_nonneg h.started ht).eq_or_lt with hdt | hdt
    · exact h.right_iff_of_zero hdt.symm hs
    · exact h.right_iff hdt
  · refine iff_of_true ⟨fun hmanual => ?_, fun hmanual => ?_, fun ha => absurd ha h, fun ha => absurd ha h⟩
      ⟨fun ha => absurd ha h, fun ha => absurd ha h, fun ha => absurd ha h⟩
    all_goals
      have hreset : (c.RESET || !s.initialized) = true := by
        by_contra hno
        rw [Bool.or_eq_true, not_or, Bool.not_eq_true, Bool.not_eq_true', Bool.not_eq_false] at hno
        exact h ⟨hno.2, hno.1, hmanual⟩
      have hoffset : ¬Outside p p.Y_OFFSET := not_outside_iff.mpr ⟨p.le_offset, p.offset_le⟩
      rw [update, if_pos hreset]
    · exact hoffset
    · exact iff_of_false Bool.false_ne_true hoffset

theorem shown_new : Shown p new := .inr ⟨rfl, rfl⟩

theorem shown_update (hs : Shown p s) : Shown p (update p s c) := by
  unfold update
  split_ifs
  · exact .inr ⟨rfl, rfl⟩
  · exact .inr ⟨rfl, rfl⟩
  · exact hs
  · exact .inl (limit_active _ _)

/-- Calls one after another are timely. -/
theorem timely_of_sorted {calls : List PIDCall} (h : calls.Pairwise fun a b => a.now ≤ b.now)
    (hs : s.initialized = true → ∀ c ∈ calls, s.lastTime ≤ c.now) : Guarded (update p) Timely s calls := by
  induction calls generalizing s with
  | nil => trivial
  | cons c calls ih =>
    obtain ⟨hfirst, hrest⟩ := List.pairwise_cons.mp h
    have hlast : (update p s c).lastTime = c.now := by
      unfold update regulate limit
      split_ifs <;> rfl
    refine ⟨fun hi => hs hi c List.mem_cons_self, ih hrest fun _ b hb => ?_⟩
    rw [hlast]
    exact hfirst b hb

/-- In every sequence of calls, each is right exactly when each is orderly. -/
theorem right_iff_orderly_run (p : PIDSettings) {calls : List PIDCall}
    (h : calls.Pairwise fun a b => a.now ≤ b.now) :
    Guarded (update p) (Right p) new calls ↔ Guarded (update p) (Orderly p) new calls :=
  Guarded.congr (fun _ _ hs _ => shown_update hs) (fun _ _ hs ht => right_iff_orderly hs ht) shown_new
    (timely_of_sorted h fun hi => absurd hi Bool.false_ne_true)

def direct : PIDSettings :=
  ⟨1, 1, 0, -50, 50, 0, by norm_num, by norm_num, by norm_num, by norm_num⟩

/-- The output falls when the value is too low. -/
def reversed : PIDSettings :=
  ⟨-1, 1, 0, -50, 50, 0, by norm_num, by norm_num, by norm_num, by norm_num⟩

/-- The first call starts the regulator, and a second later the value is far too high. -/
def tooHigh : List PIDCall := [⟨0, 0, 0, true, false, 0⟩, ⟨1000, 100, 0, false, false, 0⟩]

theorem sorted_tooHigh : tooHigh.Pairwise fun a b => a.now ≤ b.now := by
  simp [tooHigh]

theorem right_direct_tooHigh : Guarded (update direct) (Right direct) new tooHigh := by
  have hKP : ¬direct.KP < 0 := by norm_num [direct]
  refine (right_iff_orderly_run direct sorted_tooHigh).mpr ⟨?_, ?_, trivial⟩
  · exact ⟨fun h => absurd h.started Bool.false_ne_true, fun h => absurd h.started Bool.false_ne_true,
      fun h => absurd h.started Bool.false_ne_true⟩
  · refine ⟨fun _ hdt => absurd hdt ?_, fun _ _ _ h => absurd h hKP, fun _ _ _ h => absurd h hKP⟩
    norm_num [elapsed, update]

/-- At the upper limit the error is negative, and so it is integrated, which raises the output. -/
theorem not_right_reversed_tooHigh : ¬Guarded (update reversed) (Right reversed) new tooHigh := by
  intro h
  have hhigh := h.2.1.high ⟨rfl, rfl, rfl⟩
  norm_num [elapsed, update, regulate, limit_integral, integrate, should_integrate, y_without_i, p_term,
    d_term, error, reversed, new] at hhigh

end PID

end Uniset.JScript
