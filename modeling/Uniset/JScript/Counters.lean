import Mathlib.Algebra.Order.Ring.Int
import Uniset.Lib.ConfinedWalk

/-! The counters of the standard: up, down, and both.  The calls of a counter are listed from the
latest on. -/

namespace Uniset.JScript

open Uniset.Lib

structure CTU where
  PV : Int
  CV : Int
  Q : Bool
  prevCU : Bool
  deriving DecidableEq

structure CTD where
  PV : Int
  CV : Int
  Q : Bool
  prevCD : Bool
  deriving DecidableEq

structure CTUD where
  PV : Int
  CV : Int
  QU : Bool
  QD : Bool
  prevCU : Bool
  prevCD : Bool
  deriving DecidableEq

def CTU.new (PV : Int) : CTU := ⟨PV, 0, false, false⟩

def CTD.new (PV : Int) : CTD := ⟨PV, 0, true, false⟩

def CTUD.new (PV : Int) : CTUD := ⟨PV, 0, false, true, false, false⟩

/-- The counter after a call; what the call returns is its `Q`. -/
def CTU.update (t : CTU) (CU RESET : Bool) : CTU :=
  let CV := if RESET then 0 else if CU && !t.prevCU then t.CV + 1 else t.CV
  { t with CV, prevCU := CU, Q := decide (CV ≥ t.PV) }

def CTD.update (t : CTD) (CD LOAD : Bool) : CTD :=
  let CV :=
    if LOAD then t.PV
    else if CD && !t.prevCD then (if t.CV > 0 then t.CV - 1 else t.CV) else t.CV
  { t with CV, prevCD := CD, Q := decide (CV ≤ 0) }

/-- The inputs of a counter that counts both ways. -/
structure CTUD.Call where
  CU : Bool
  CD : Bool
  RESET : Bool
  LOAD : Bool
  deriving DecidableEq

/-- What the call returns is `QU`. -/
def CTUD.update (t : CTUD) (c : CTUD.Call) : CTUD :=
  let CV :=
    if c.RESET then 0
    else if c.LOAD then t.PV
    else
      let CV := if c.CU && !t.prevCU then t.CV + 1 else t.CV
      if c.CD && !t.prevCD then (if CV > 0 then CV - 1 else CV) else CV
  { t with
    CV
    prevCU := c.CU
    prevCD := c.CD
    QU := decide (CV ≥ t.PV)
    QD := decide (CV ≤ 0) }

namespace CTUD

def after (PV : Int) : List Call → CTUD
  | [] => new PV
  | c :: calls => (after PV calls).update c

/-! ## What is counted -/

/-- The input was off at the call before, or there was none. -/
def wasOff (input : Call → Bool) : List Call → Bool
  | [] => true
  | c :: _ => !input c

/-- One up at a rising edge of `CU`, one down at a rising edge of `CD`. -/
def count (calls : List Call) (c : Call) : Int :=
  (if c.CU && wasOff Call.CU calls then 1 else 0) - if c.CD && wasOff Call.CD calls then 1 else 0

/-- What has been counted since the counter was reset or loaded the last time. -/
def counts : List Call → List Int
  | [] => []
  | c :: calls => if c.RESET || c.LOAD then [] else count calls c :: counts calls

/-- What the counter has been set to the last time. -/
def start (PV : Int) : List Call → Int
  | [] => 0
  | c :: calls => if c.RESET then 0 else if c.LOAD then PV else start PV calls

variable {PV : Int}

theorem after_PV (calls : List Call) : (after PV calls).PV = PV := by
  induction calls with
  | nil => rfl
  | cons c calls ih => exact ih

theorem prevCU_after (calls : List Call) :
    (!(after PV calls).prevCU) = wasOff Call.CU calls := by
  cases calls <;> rfl

theorem prevCD_after (calls : List Call) :
    (!(after PV calls).prevCD) = wasOff Call.CD calls := by
  cases calls <;> rfl

theorem start_nonneg (hPV : 0 ≤ PV) (calls : List Call) : 0 ≤ start PV calls := by
  induction calls with
  | nil => exact le_refl 0
  | cons c calls ih =>
    rw [start]
    split
    · exact le_refl 0
    · split
      · exact hPV
      · exact ih

/-- The counter walks up and down, and is stopped at zero. -/
theorem CV_after (hPV : 0 ≤ PV) (calls : List Call) :
    (after PV calls).CV = reflected 0 (start PV calls) (counts calls) := by
  induction calls with
  | nil => rfl
  | cons c calls ih =>
    have hnonneg : 0 ≤ (after PV calls).CV := by
      rw [ih]
      exact le_reflected (start_nonneg hPV calls) _
    change (if c.RESET then 0 else if c.LOAD then (after PV calls).PV else _) = _
    rw [after_PV, prevCU_after, prevCD_after, start, counts]
    cases c.RESET with
    | true => rfl
    | false =>
      cases c.LOAD with
      | true => rfl
      | false =>
        simp only [Bool.false_eq_true, if_false, Bool.or_self, reflected, ← ih, count]
        split <;> split <;> omega

/-- The counter is up to `n` if all that has been counted since the counter was set leads there, or
what has been counted lately does. -/
theorem le_CV_iff (hPV : 0 ≤ PV) {n : Int} (hn : 0 ≤ n) (calls : List Call) :
    n ≤ (after PV calls).CV ↔
      n ≤ start PV calls + (counts calls).sum ∨ ∃ p, p <+: counts calls ∧ n ≤ p.sum := by
  rw [CV_after hPV]
  obtain rfl | hpos := hn.eq_or_lt
  · refine iff_of_true (le_reflected (start_nonneg hPV calls) _) (.inr ⟨[], List.nil_prefix, ?_⟩)
    exact le_refl 0
  · rw [le_reflected_iff (start_nonneg hPV calls) hpos]
    simp only [zero_add]

theorem QU_after (c : Call) (calls : List Call) :
    (after PV (c :: calls)).QU = decide (PV ≤ (after PV (c :: calls)).CV) := by
  have hQU : (after PV (c :: calls)).QU =
      decide ((after PV calls).PV ≤ (after PV (c :: calls)).CV) := rfl
  rw [hQU, after_PV]

theorem QD_after (calls : List Call) :
    (after PV calls).QD = decide ((after PV calls).CV ≤ 0) := by
  cases calls <;> rfl

theorem QD_iff (hPV : 0 ≤ PV) (calls : List Call) :
    (after PV calls).QD = true ↔
      start PV calls + (counts calls).sum ≤ 0 ∧ ∀ p, p <+: counts calls → p.sum ≤ 0 := by
  rw [QD_after, decide_eq_true_eq, ← Int.not_lt, Int.lt_iff_add_one_le, zero_add,
    le_CV_iff hPV Int.one_nonneg, not_or, not_exists]
  refine and_congr (by omega) (forall_congr' fun p => ?_)
  rw [not_and]
  exact imp_congr_right fun _ => by omega

end CTUD

/-! ## One way -/

namespace CTU

/-- The calls of `update`, with `CU` and `RESET`. -/
def after (PV : Int) : List (Bool × Bool) → CTU
  | [] => new PV
  | c :: calls => (after PV calls).update c.1 c.2

def call (c : Bool × Bool) : CTUD.Call := ⟨c.1, false, c.2, false⟩

theorem after_eq (PV : Int) (calls : List (Bool × Bool)) :
    after PV calls = ⟨PV, (CTUD.after PV (calls.map call)).CV, (CTUD.after PV (calls.map call)).QU,
      (CTUD.after PV (calls.map call)).prevCU⟩ := by
  induction calls with
  | nil => rfl
  | cons c calls ih =>
    have hPV : (CTUD.after PV (calls.map call)).PV = PV := CTUD.after_PV (calls.map call)
    rw [after, ih, List.map_cons, CTUD.after]
    simp [update, CTUD.update, call, hPV]

end CTU

namespace CTD

/-- The calls of `update`, with `CD` and `LOAD`. -/
def after (PV : Int) : List (Bool × Bool) → CTD
  | [] => new PV
  | c :: calls => (after PV calls).update c.1 c.2

def call (c : Bool × Bool) : CTUD.Call := ⟨false, c.1, false, c.2⟩

theorem after_eq (PV : Int) (calls : List (Bool × Bool)) :
    after PV calls = ⟨PV, (CTUD.after PV (calls.map call)).CV, (CTUD.after PV (calls.map call)).QD,
      (CTUD.after PV (calls.map call)).prevCD⟩ := by
  induction calls with
  | nil => rfl
  | cons c calls ih =>
    have hPV : (CTUD.after PV (calls.map call)).PV = PV := CTUD.after_PV (calls.map call)
    rw [after, ih, List.map_cons, CTUD.after]
    simp [update, CTUD.update, call, hPV]

end CTD

/-- The outputs of the counters by all that they have been called with.  `QU` is on if the edges
since the last reset or load, together with what was loaded, come to `PV`, or if the latest ones do
by themselves; `QD` is on if neither comes to more than zero.  The counters of one way are the
counter of both ways that is never called the other way. -/
theorem counters_iff {PV : Int} (hPV : 0 ≤ PV) :
    (∀ c calls, (CTUD.after PV (c :: calls)).QU = true ↔
      PV ≤ CTUD.start PV (c :: calls) + (CTUD.counts (c :: calls)).sum ∨
        ∃ p, p <+: CTUD.counts (c :: calls) ∧ PV ≤ p.sum) ∧
    (∀ calls, (CTUD.after PV calls).QD = true ↔
      CTUD.start PV calls + (CTUD.counts calls).sum ≤ 0 ∧
        ∀ p, p <+: CTUD.counts calls → p.sum ≤ 0) ∧
    (∀ calls, (CTU.after PV calls).Q = (CTUD.after PV (calls.map CTU.call)).QU ∧
      (CTU.after PV calls).CV = (CTUD.after PV (calls.map CTU.call)).CV) ∧
    ∀ calls, (CTD.after PV calls).Q = (CTUD.after PV (calls.map CTD.call)).QD ∧
      (CTD.after PV calls).CV = (CTUD.after PV (calls.map CTD.call)).CV := by
  refine ⟨fun c calls => ?_, fun calls => CTUD.QD_iff hPV calls, fun calls => ?_, fun calls => ?_⟩
  · rw [CTUD.QU_after, decide_eq_true_eq]
    exact CTUD.le_CV_iff hPV hPV _
  · rw [CTU.after_eq]
    exact ⟨rfl, rfl⟩
  · rw [CTD.after_eq]
    exact ⟨rfl, rfl⟩

/-- Up, down, up, up, from the latest call on. -/
theorem counters_iff_two :
    (CTUD.after 2 [⟨true, false, false, false⟩, ⟨false, true, false, false⟩,
      ⟨true, false, false, false⟩]).QU = true ↔
      2 ≤ (0 + 1 : Int) ∨ ∃ p, p <+: [1, -1, 1] ∧ (2 : Int) ≤ p.sum :=
  (counters_iff (by decide)).1 _ _

end Uniset.JScript
