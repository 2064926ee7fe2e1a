import Uniset.Core

namespace Uniset

/-- A signal has to last for a while before the state follows it. -/
structure DelayTimer where
  pt : PassiveTimer
  prevState : Bool
  state : Bool
  onDelay : Nat
  offDelay : Nat
  waiting_on : Bool
  waiting_off : Bool
  deriving DecidableEq

namespace DelayTimer

/-- A new timer, with its delays `set`. -/
def set (now on_msec off_msec : Nat) : DelayTimer :=
  ⟨.setTiming WaitUpTime now, false, false, on_msec, off_msec, false, false⟩

/-- The timer after a check; what the check returns is its `state`. -/
def check (t : DelayTimer) (now : Nat) (st : Bool) : DelayTimer :=
  let t := { t with prevState := st }
  if t.waiting_off then
    if t.pt.checkTime now then { t with waiting_off := false, state := st && t.state }
    else if st then { t with waiting_off := false }
    else t
  else if t.waiting_on then
    if t.pt.checkTime now then { t with waiting_on := false, state := st || t.state }
    else if !st then { t with waiting_on := false }
    else t
  else if t.state ≠ st then
    if st then
      if t.onDelay = 0 then { t with pt := .setTiming 0 now, state := st }
      else { t with pt := .setTiming t.onDelay now, waiting_on := true }
    else
      if t.offDelay = 0 then { t with pt := .setTiming 0 now, state := st }
      else { t with pt := .setTiming t.offDelay now, waiting_off := true }
  else t

def get (t : DelayTimer) (now : Nat) : DelayTimer := t.check now t.prevState

/-- A signal that is followed at once, and let go after a delay. -/
structure Releasing (t : DelayTimer) : Prop where
  onDelay : t.onDelay = 0
  waiting_on : t.waiting_on = false
  waiting_off : t.waiting_off = true → t.state = true ∧ t.prevState = false
  state : t.waiting_off = false → t.state = t.prevState

/-- The state is the signal, or the timer begins to wait when the signal has gone, or it waits. -/
inductive Checked (t : DelayTimer) (now : Nat) (st : Bool) (t' : DelayTimer) : Prop
  | follows (hwait : t'.waiting_off = false) (hstate : t'.state = st)
  | begins (hst : st = false) (hwas : t.prevState = true) (hwait : t'.waiting_off = true)
      (hpt : t'.pt = ⟨t.offDelay, now⟩)
  | waits (hst : st = false) (hwas : t.waiting_off = true) (hwait : t'.waiting_off = true)
      (htime : t.pt.checkTime now = false) (hpt : t'.pt = t.pt)

theorem check_releasing {t : DelayTimer} (h : t.Releasing) (now : Nat) (st : Bool) :
    (t.check now st).Releasing ∧ (t.check now st).offDelay = t.offDelay ∧
      (t.check now st).prevState = st ∧ Checked t now st (t.check now st) := by
  obtain ⟨hon, hwon, hwaits, hstate⟩ := h
  obtain ⟨pt, prevState, state, onDelay, offDelay, waiting_on, waiting_off⟩ := t
  dsimp only at hon hwon hwaits hstate
  subst hon hwon
  cases waiting_off with
  | true =>
    obtain ⟨rfl, rfl⟩ := hwaits rfl
    cases htime : pt.checkTime now with
    | true =>
      have hcheck : check ⟨pt, false, true, 0, offDelay, false, true⟩ now st =
          ⟨pt, st, st, 0, offDelay, false, false⟩ := by simp [check, htime]
      rw [hcheck]
      exact ⟨⟨rfl, rfl, nofun, fun _ => rfl⟩, rfl, rfl, .follows rfl rfl⟩
    | false =>
      cases st with
      | true =>
        have hcheck : check ⟨pt, false, true, 0, offDelay, false, true⟩ now true =
            ⟨pt, true, true, 0, offDelay, false, false⟩ := by simp [check, htime]
        rw [hcheck]
        exact ⟨⟨rfl, rfl, nofun, fun _ => rfl⟩, rfl, rfl, .follows rfl rfl⟩
      | false =>
        have hcheck : check ⟨pt, false, true, 0, offDelay, false, true⟩ now false =
            ⟨pt, false, true, 0, offDelay, false, true⟩ := by simp [check, htime]
        rw [hcheck]
        exact ⟨⟨rfl, rfl, fun _ => ⟨rfl, rfl⟩, nofun⟩, rfl, rfl, .waits rfl rfl rfl htime rfl⟩
  | false =>
    obtain rfl := hstate rfl
    by_cases hsame : state = st
    · subst hsame
      have hcheck : check ⟨pt, state, state, 0, offDelay, false, false⟩ now state =
          ⟨pt, state, state, 0, offDelay, false, false⟩ := by simp [check]
      rw [hcheck]
      exact ⟨⟨rfl, rfl, nofun, fun _ => rfl⟩, rfl, rfl, .follows rfl rfl⟩
    · cases st with
      | true =>
        have hcheck : check ⟨pt, state, state, 0, offDelay, false, false⟩ now true =
            ⟨.setTiming 0 now, true, true, 0, offDelay, false, false⟩ := by simp [check, hsame]
        rw [hcheck]
        exact ⟨⟨rfl, rfl, nofun, fun _ => rfl⟩, rfl, rfl, .follows rfl rfl⟩
      | false =>
        obtain rfl : state = true := by simpa using hsame
        by_cases hoff : offDelay = 0
        · have hcheck : check ⟨pt, true, true, 0, offDelay, false, false⟩ now false =
              ⟨.setTiming 0 now, false, false, 0, offDelay, false, false⟩ := by simp [check, hoff]
          rw [hcheck]
          exact ⟨⟨rfl, rfl, nofun, fun _ => rfl⟩, rfl, rfl, .follows rfl rfl⟩
        · have hcheck : check ⟨pt, true, true, 0, offDelay, false, false⟩ now false =
              ⟨.setTiming offDelay now, false, true, 0, offDelay, false, true⟩ := by
            simp [check, hoff]
          rw [hcheck]
          exact ⟨⟨rfl, rfl, fun _ => ⟨rfl, rfl⟩, nofun⟩, rfl, rfl, .begins rfl rfl rfl rfl⟩

end DelayTimer

end Uniset
