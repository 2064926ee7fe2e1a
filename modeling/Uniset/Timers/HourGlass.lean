import Mathlib.Algebra.Order.Ring.Int
import Uniset.Lib.ConfinedWalk
import Uniset.Timers.TimedObject

/-! An hourglass measures how long a signal lasts, and takes the time back while it is gone. -/

namespace Uniset

open Uniset.Lib

structure HourGlass where
  t : PassiveTimer
  /-- which way up the glass stands -/
  state : Bool
  /-- what has not fallen yet -/
  sand : Nat
  size : Nat
  sand_le : sand ≤ size
  -- the sum of two amounts is still a `timeout_t`
  size_lt : size < 2 ^ 62
  deriving DecidableEq

namespace HourGlass

def new (now : Nat) : HourGlass := ⟨.setTiming WaitUpTime now, false, 0, 0, le_rfl, by decide⟩

def run (now : Nat) {msec : Nat} (hmsec : msec < 2 ^ 62) : HourGlass :=
  ⟨.setTiming msec now, true, msec, msec, le_rfl, hmsec⟩

variable (g : HourGlass) (now : Nat)

def reset : HourGlass := run now g.size_lt

/-- The time of the timer, not more than all the sand needs. -/
def cur : Nat := if g.size < g.t.getCurrent now then g.size else g.t.getCurrent now

def rotate (st : Bool) : HourGlass :=
  if st = g.state then g
  else if !st then
    { g with
      state := st
      sand := if g.cur now < g.sand then g.sand - g.cur now else 0
      sand_le := by have hle := g.sand_le; split <;> omega
      t := .setTiming (g.cur now) now }
  else
    let sand :=
      if g.size < g.sand + g.cur now then g.size else g.sand + g.cur now
    { g with
      state := st
      sand
      sand_le := by dsimp only [sand]; split <;> omega
      t := .setTiming sand now }

def check : Bool := if !g.state then false else g.t.checkTime now

/-- What is left is computed as an `int` while the sand falls. -/
def remain : Int :=
  if !g.state then
    if g.size < g.sand + g.cur now then g.size else g.sand + g.cur now
  else
    let ret := ((g.sand : Int) - g.cur now).bmod (2 ^ 32)
    if ret < 0 then 0 else ret

def amount : Int := g.size - g.remain now

/-- The calls of `rotate`, each with its time. -/
def rotates (calls : List (Nat × Bool)) : HourGlass :=
  calls.foldl (fun g call => g.rotate call.1 call.2) g

/-! ## How much sand falls -/

/-- The milliseconds in which the glass stands one way up.  The sand that falls is taken away. -/
def leg (up : Bool) (since now : Nat) : Int :=
  if up then -((now - since) / 1000000 : Nat) else ((now - since) / 1000000 : Nat)

/-- The legs of the glass, the latest first.  It has stood as it does from `since` on, and `past` are
the legs before. -/
def legs (up : Bool) (since : Nat) (past : List Int) : List (Nat × Bool) → List Int
  | [] => leg up since now :: past
  | (t, st) :: calls =>
    if st = up then legs up since past calls else legs st t (leg up since t :: past) calls

/-- Which way up the glass stands in the end. -/
def stands (up : Bool) (calls : List (Nat × Bool)) : Bool := calls.foldl (fun _ call => call.2) up

/-- The glass has stood as it does from `since` on, with the sand that the legs before have left. -/
structure Follows (g : HourGlass) (msec : Nat) (up : Bool) (since : Nat) (past : List Int) : Prop where
  size : g.size = msec
  state : g.state = up
  sand : (g.sand : Int) = confined 0 (msec : Int) past
  start : g.t.t_start = since
  timing : up = true → g.t.t_msec = g.sand

variable {g now} {msec since : Nat} {up : Bool} {past : List Int}

theorem follows_run (t0 : Nat) (hmsec : msec < 2 ^ 62) : (run t0 hmsec).Follows msec true t0 [] :=
  ⟨rfl, rfl, rfl, rfl, fun _ => rfl⟩

theorem Follows.sand_le (h : g.Follows msec up since past) : g.sand ≤ msec :=
  g.sand_le.trans_eq h.size

theorem Follows.cur_eq (h : g.Follows msec up since past) (now : Nat) :
    g.cur now = min ((now - since) / 1000000) msec := by
  rw [cur, PassiveTimer.getCurrent, h.start, h.size]
  split <;> omega

/-- What the leg that goes on has left. -/
theorem Follows.confined_leg (h : g.Follows msec up since past) (now : Nat) :
    confined 0 (msec : Int) (leg up since now :: past) =
      if up then ((g.sand - g.cur now : Nat) : Int)
      else (min msec (g.sand + g.cur now) : Nat) := by
  have hle := h.sand_le
  rw [confined, ← h.sand, h.cur_eq, leg]
  cases up <;> simp only [Bool.false_eq_true, if_false, if_true] <;> omega

theorem Follows.turn (h : g.Follows msec up since past) {st : Bool} (hst : st ≠ up) (now : Nat) :
    (g.rotate now st).Follows msec st now (leg up since now :: past) := by
  have hleg := h.confined_leg now
  have hne : ¬st = g.state := by rw [h.state]; exact hst
  unfold rotate
  rw [if_neg hne]
  cases st with
  | false =>
    obtain rfl : up = true := by simpa using hst.symm
    simp only [Bool.not_false, if_true] at hleg ⊢
    refine ⟨h.size, rfl, ?_, rfl, nofun⟩
    rw [hleg]
    change ((if g.cur now < g.sand then g.sand - g.cur now else 0 : Nat) : Int) = _
    split <;> omega
  | true =>
    obtain rfl : up = false := by simpa using hst.symm
    simp only [Bool.not_true, Bool.false_eq_true, if_false] at hleg ⊢
    refine ⟨h.size, rfl, ?_, rfl, fun _ => rfl⟩
    rw [hleg, ← h.size]
    change ((if g.size < g.sand + g.cur now then g.size else g.sand + g.cur now : Nat) : Int) = _
    split <;> omega

/-- After the calls the glass has stood one way up since the last turn. -/
theorem Follows.rotates (h : g.Follows msec up since past) (calls : List (Nat × Bool)) (now : Nat) :
    ∃ since' past', (g.rotates calls).Follows msec (stands up calls) since' past' ∧
      legs now up since past calls = leg (stands up calls) since' now :: past' := by
  induction calls generalizing g up since past with
  | nil => exact ⟨since, past, h, rfl⟩
  | cons call calls ih =>
    obtain ⟨t, st⟩ := call
    by_cases hst : st = up
    · subst hst
      have hsame : g.rotate t st = g := if_pos h.state.symm
      obtain ⟨since', past', hfollows, hlegs⟩ := ih h
      refine ⟨since', past', ?_, ?_⟩
      · rw [HourGlass.rotates, List.foldl_cons, hsame]
        exact hfollows
      · rw [legs, if_pos rfl, hlegs]
        rfl
    · obtain ⟨since', past', hfollows, hlegs⟩ := ih (h.turn hst t)
      refine ⟨since', past', hfollows, ?_⟩
      rw [legs, if_neg hst, hlegs]
      rfl

/-- The sand is through, and the glass stands the right way up. -/
theorem Follows.check_iff (h : g.Follows msec up since past) (now : Nat) :
    g.check now = true ↔ up = true ∧ confined 0 (msec : Int) (leg up since now :: past) ≤ 0 := by
  rw [HourGlass.check, h.state, h.confined_leg]
  cases up with
  | false => simp
  | true =>
    have hle := h.sand_le
    have hcur := h.cur_eq now
    have htime : g.t.checkTime now = true ↔ g.sand ≤ (now - since) / 1000000 := by
      have hwait : g.sand ≠ WaitUpTime :=
        ((g.sand_le.trans_lt g.size_lt).trans (by decide)).ne
      rw [PassiveTimer.checkTime, h.timing rfl, h.start, if_neg hwait]
      by_cases hzero : g.sand = 0 <;> simp [hzero]
    simp only [Bool.not_true, Bool.false_eq_true, if_false, if_true, htime, true_and]
    omega

theorem Follows.remain_eq (h : g.Follows msec up since past) (hmsec : msec < 2 ^ 31) (now : Nat) :
    g.remain now = confined 0 (msec : Int) (leg up since now :: past) := by
  have hle := h.sand_le
  have hcur := h.cur_eq now
  rw [remain, h.state, h.confined_leg, h.size]
  cases up with
  | false =>
    simp only [Bool.not_false, if_true, Bool.false_eq_true, if_false]
    split <;> omega
  | true =>
    simp only [Bool.not_true, Bool.false_eq_true, if_false, if_true]
    rw [Int.bmod_eq_of_le (by omega) (by omega)]
    split <;> omega

/-- An hourglass that has been run for `msec` and rotated again and again: the check says that some
latest legs have taken all the sand down, none of them having ended with more sand above than it
began, and as long as `msec` is an `int`, and only then, the sand that remains is what a walk over
the legs between nothing and `msec` leaves. -/
theorem check_remain_iff (t0 : Nat) (hmsec : msec < 2 ^ 62) :
    (∀ calls now, ((run t0 hmsec).rotates calls).check now = true ↔
      stands true calls = true ∧ ∃ p, p <+: legs now true t0 [] calls ∧ msec + p.sum ≤ 0 ∧
        ∀ q, q <+: p → q.sum ≤ 0) ∧
    ((∀ calls now, ((run t0 hmsec).rotates calls).remain now =
        confined 0 (msec : Int) (legs now true t0 [] calls)) ↔ msec < 2 ^ 31) := by
  refine ⟨fun calls now => ?_, ?_⟩
  · obtain ⟨since, past, hfollows, hlegs⟩ := (follows_run t0 hmsec).rotates calls now
    rw [hfollows.check_iff, hlegs]
    refine and_congr_right fun _ => ?_
    by_cases hzero : msec = 0
    · subst hzero
      refine iff_of_true (confined_le (le_refl _) _) ⟨[], List.nil_prefix, le_refl _, ?_⟩
      rintro q hq
      rw [List.prefix_nil.mp hq]
      exact le_refl _
    · have hpos : (0 : Int) < msec := by omega
      rw [confined_le_iff (le_refl _) hpos]
      simp only [zero_add]
  · constructor
    · intro hall
      have hstart := hall [] t0
      have hwalk : confined 0 (msec : Int) (legs t0 true t0 [] []) = msec := by
        simp [legs, leg, confined]
      rw [hwalk] at hstart
      have hremain : ((run t0 hmsec).rotates []).remain t0 ≤ (2 ^ 31 - 1 : Int) := by
        have hbound : ∀ x : Int, x.bmod (2 ^ 32) ≤ 2 ^ 31 - 1 := by
          intro x
          have hlt := Int.bmod_lt (x := x) (m := 2 ^ 32) (by decide)
          omega
        rw [remain]
        split
        · rename_i hdown
          exact absurd hdown Bool.false_ne_true
        · dsimp only
          split
          · decide
          · exact hbound _
      rw [hstart] at hremain
      omega
    · intro hsmall calls now
      obtain ⟨since, past, hfollows, hlegs⟩ := (follows_run t0 hmsec).rotates calls now
      rw [hfollows.remain_eq hsmall, hlegs]

theorem hundred : 100 < 2 ^ 62 := by decide

/-- 60 milliseconds up, 20 down, and 60 up again. -/
theorem check_remain_iff_hundred :
    (((run 0 hundred).rotates [(60000000, false), (80000000, true)]).check 140000000 = true ↔
      stands true [(60000000, false), (80000000, true)] = true ∧ ∃ p, p <+: [-60, 20, -60] ∧
        100 + p.sum ≤ 0 ∧ ∀ q, q <+: p → q.sum ≤ 0) ∧
    ((run 0 hundred).rotates [(60000000, false), (80000000, true)]).remain 140000000 = 0 :=
  ⟨(check_remain_iff 0 hundred).1 _ _, ((check_remain_iff 0 hundred).2.mpr (by decide) _ _).trans
    (by decide)⟩

end HourGlass

end Uniset
