import Uniset.Lib.GuardedRun
import Uniset.Timers.TimerCounts
import Mathlib.Data.Nat.Basic

/-! How long an object may sleep: no longer than any of its timers has left. -/

namespace Uniset

open Lib

namespace TimerInfo

/-- When the time of the timer is over. -/
def dueTime (li : TimerInfo) : Nat := li.tmr.t_start + li.tmr.t_msec * 1000000

/-- A time that comes. -/
def Finite (li : TimerInfo) : Prop := li.tmr.t_msec ≠ WaitUpTime

instance (li : TimerInfo) : Decidable li.Finite := inferInstanceAs (Decidable (_ ≠ _))

end TimerInfo

/-- The object after an operation, which was done at the time `now`. -/
structure TimerMoment where
  lt : LT_Object
  now : Nat

namespace TimerMoment

open LT_Object

def initial (now : Nat) : TimerMoment := ⟨.new now, now⟩

/-- An operation some nanoseconds later. -/
def step (m : TimerMoment) (op : Nat × TimerOp) : TimerMoment :=
  ⟨(m.lt.step (m.now + op.1) op.2).1, m.now + op.1⟩

variable (m : TimerMoment)

/-- The sleep time is the quantum at most, or no longer than the time that any timer has left. -/
def SleepsRight : Prop := ∀ li ∈ m.lt.tlst, li.Finite →
  m.lt.sleepTime ≤ MinQuantityTime ∨ m.now + m.lt.sleepTime * 1000000 ≤ li.dueTime

/-- At a pass the fraction of a millisecond that is cut off the elapsed time is within the reserve
that the record of each timer has. -/
def CutsRight (op : Nat × TimerOp) : Prop :=
  match op.2 with
  | .checkTimers => m.lt.Passes (m.now + op.1) → ∀ li ∈ m.lt.tlst, li.Finite →
    ¬li.due (m.now + op.1) = true → m.lt.tmLast.getCurrent (m.now + op.1) < li.curTimeMS →
    m.lt.tmLast.t_start + li.curTimeMS * 1000000 +
      (m.now + op.1 - m.lt.tmLast.t_start) % 1000000 ≤ li.dueTime
  | .askTimer .. => True

/-- A running timer is asked for again only when the sleep time is the quantum, or is over before
the new time and the time of each other timer; and when its record is over before the new time. -/
def AsksRight (op : Nat × TimerOp) : Prop :=
  match op.2 with
  | .checkTimers => True
  | .askTimer timerid timeMS _ _ => 0 < timeMS.toInt → (∃ li ∈ m.lt.tlst, li.id = timerid) →
    (m.lt.sleepTime ≤ MinQuantityTime ∨ m.lt.sleepTime ≤ period timeMS ∧ ∀ li ∈ m.lt.tlst,
      li.id ≠ timerid → li.Finite → m.now + op.1 + m.lt.sleepTime * 1000000 ≤ li.dueTime) ∧
    ∀ li ∈ m.lt.tlst, li.id = timerid →
      m.lt.tmLast.t_start + li.curTimeMS * 1000000 ≤ m.now + op.1 + period timeMS * 1000000

/-- An object that has timers comes to check them after just the sleep time that it was given last,
and asks for timers before it sleeps. -/
def Sleeps (op : Nat × TimerOp) : Prop :=
  m.lt.tlst ≠ [] → match op.2 with
  | .checkTimers => op.1 = m.lt.sleepTime * 1000000
  | .askTimer .. => op.1 = 0

/-- A check comes a quantum late at most, and serves each timer whose time is over. -/
def ServesInTime (op : Nat × TimerOp) : Prop :=
  op.2 = .checkTimers → ∀ li ∈ m.lt.tlst, li.Finite →
    m.now + op.1 ≤ li.dueTime + MinQuantityTime * 1000000 ∧
      (li.dueTime ≤ m.now + op.1 → li.message ∈ (m.lt.checkTimers (m.now + op.1)).2)

/-- The records are not longer than what the timers have left since the last pass. -/
structure Sound : Prop where
  last : m.lt.tmLast.t_start ≤ m.now
  distinct : m.lt.Distinct
  records : ∀ li ∈ m.lt.tlst, li.Finite →
    m.lt.tmLast.t_start + li.curTimeMS * 1000000 ≤ li.dueTime
  small : ∀ li ∈ m.lt.tlst, li.curTimeMS ≤ WaitUpTime ∧ li.tmr.t_msec ≤ WaitUpTime

variable {m} {op : Nat × TimerOp}

theorem sleepsRight_of_quantum (h : m.lt.sleepTime ≤ MinQuantityTime) : m.SleepsRight :=
  fun _ _ _ => .inl h

theorem sleepsRight_of_nil (h : m.lt.tlst = []) : m.SleepsRight := by
  intro li hli
  rw [h] at hli
  exact absurd hli List.not_mem_nil

end TimerMoment

/-! ## What a turn leaves -/

namespace TimerInfo

variable {li li' : TimerInfo} {tmLast : PassiveTimer} {now : Nat}

theorem getInterval_le {tmr : PassiveTimer} (h : tmr.t_msec ≤ WaitUpTime) :
    tmr.getInterval ≤ WaitUpTime := by
  unfold PassiveTimer.getInterval
  split_ifs
  · exact h
  · exact Nat.zero_le _

theorem getLeft_le (tmr : PassiveTimer) (timeout now : Nat) : tmr.getLeft timeout now ≤ timeout := by
  unfold PassiveTimer.getLeft
  split_ifs
  · exact Nat.zero_le _
  · exact Nat.sub_le _ _

theorem lt_dueTime_of_not_due (hfinite : li.Finite) (h : ¬li.due now) : now < li.dueTime := by
  unfold due PassiveTimer.checkTime at h
  rw [if_neg hfinite] at h
  by_cases hzero : li.tmr.t_msec = 0
  · rw [if_pos hzero] at h
    exact absurd rfl h
  · rw [if_neg hzero, decide_eq_true_eq, Nat.not_le, Nat.div_lt_iff_lt_mul (by decide)] at h
    unfold dueTime
    omega

theorem due_of_dueTime_le (hfinite : li.Finite) (h : li.dueTime ≤ now) : li.due now = true := by
  by_contra hdue
  exact absurd (lt_dueTime_of_not_due hfinite hdue) (Nat.not_lt.mpr h)

/-- A timer that stays begins its period anew, or has less left. -/
theorem turn_cases (h : li.turn tmLast now = some li') :
    (li.due now = true ∧ li'.tmr = li.tmr.reset now ∧ li'.curTimeMS = li.tmr.getInterval) ∨
      (¬li.due now = true ∧ li' = { li with curTimeMS := tmLast.getLeft li.curTimeMS now }) := by
  unfold turn at h
  by_cases hdue : li.due now
  · rw [if_pos hdue] at h
    by_cases htick : li.curTick = 0
    · rw [if_pos htick] at h
      cases h
    · rw [if_neg htick] at h
      cases h
      exact .inl ⟨hdue, rfl, rfl⟩
  · rw [if_neg hdue] at h
    exact .inr ⟨hdue, (Option.some.inj h).symm⟩

theorem turn_small (h : li.curTimeMS ≤ WaitUpTime ∧ li.tmr.t_msec ≤ WaitUpTime)
    (hturn : li.turn tmLast now = some li') :
    li'.curTimeMS ≤ WaitUpTime ∧ li'.tmr.t_msec ≤ WaitUpTime := by
  rcases turn_cases hturn with ⟨-, htmr, hcur⟩ | ⟨-, rfl⟩
  · rw [htmr, hcur]
    exact ⟨getInterval_le h.2, h.2⟩
  · exact ⟨Nat.le_trans (getLeft_le _ _ _) h.1, h.2⟩

theorem getInterval_of_finite (h : li.Finite) : li.tmr.getInterval = li.tmr.t_msec := if_pos h

/-- The time that a record has left is not over when the timer is not. -/
theorem left_le_dueTime (hfinite : li.Finite) (hdue : ¬li.due now = true)
    (hlast : tmLast.t_start ≤ now) (hexact : tmLast.getCurrent now < li.curTimeMS →
      tmLast.t_start + li.curTimeMS * 1000000 + (now - tmLast.t_start) % 1000000 ≤ li.dueTime) :
    now + tmLast.getLeft li.curTimeMS now * 1000000 ≤ li.dueTime := by
  unfold PassiveTimer.getLeft
  split_ifs with hover
  · have hlt := lt_dueTime_of_not_due hfinite hdue
    omega
  · have hle := hexact (Nat.not_le.mp hover)
    unfold PassiveTimer.getCurrent at hover ⊢
    omega

end TimerInfo

/-! ## A pass -/

namespace LT_Object

theorem leastTime_eq (sleepTime : Nat) {curTimeMS : Nat} (hcur : curTimeMS ≤ WaitUpTime) :
    leastTime sleepTime curTimeMS = min sleepTime curTimeMS := by
  unfold leastTime
  split_ifs with hless
  · omega
  · omega

/-- One more record in front of the loop. -/
theorem least_cons {rest : Nat → List TimerInfo × Nat × List TimerMessage} {sleepTime : Nat}
    {li' : TimerInfo} (hsleep : sleepTime ≤ WaitUpTime) (hcur : li'.curTimeMS ≤ WaitUpTime)
    (hrest : ∀ {sleepTime}, sleepTime ≤ WaitUpTime → (rest sleepTime).2.1 ≤ sleepTime ∧
      ∀ li ∈ (rest sleepTime).1, (rest sleepTime).2.1 ≤ li.curTimeMS) :
    (rest (leastTime sleepTime li'.curTimeMS)).2.1 ≤ sleepTime ∧
      ∀ li ∈ li' :: (rest (leastTime sleepTime li'.curTimeMS)).1,
        (rest (leastTime sleepTime li'.curTimeMS)).2.1 ≤ li.curTimeMS := by
  rw [leastTime_eq sleepTime hcur]
  obtain ⟨hle, hall⟩ := hrest (Nat.le_trans (Nat.min_le_left sleepTime li'.curTimeMS) hsleep)
  refine ⟨Nat.le_trans hle (Nat.min_le_left _ _), List.forall_mem_cons.mpr ⟨?_, hall⟩⟩
  exact Nat.le_trans hle (Nat.min_le_right _ _)

/-- The loop finds the least of the records that it leaves. -/
theorem checkList_sleepTime {tmLast : PassiveTimer} {now : Nat} {kept : Bool} {sleepTime : Nat}
    {tlst : List TimerInfo} (hkept : kept = false → sleepTime = WaitUpTime)
    (hsleep : sleepTime ≤ WaitUpTime)
    (hsmall : ∀ li ∈ tlst, li.curTimeMS ≤ WaitUpTime ∧ li.tmr.t_msec ≤ WaitUpTime) :
    (checkList tmLast now kept sleepTime tlst).2.1 ≤ sleepTime ∧
      ∀ li' ∈ (checkList tmLast now kept sleepTime tlst).1,
        (checkList tmLast now kept sleepTime tlst).2.1 ≤ li'.curTimeMS := by
  induction tlst generalizing kept sleepTime with
  | nil => exact ⟨Nat.le_refl _, fun _ hli => absurd hli List.not_mem_nil⟩
  | cons li tlst ih =>
    have hli := hsmall li List.mem_cons_self
    have hrest := fun li' hli' => hsmall li' (List.mem_cons_of_mem _ hli')
    unfold checkList
    by_cases hdue : li.tmr.checkTime now
    · rw [if_pos hdue]
      by_cases htick : li.curTick = 0
      · rw [if_pos htick]
        have hsame : (if !kept && tlst.isEmpty then WaitUpTime else sleepTime) = sleepTime := by
          split_ifs with hempty
          · simp only [Bool.and_eq_true, Bool.not_eq_true'] at hempty
            exact (hkept hempty.1).symm
          · rfl
        simp only [hsame]
        exact ih hkept hsleep hrest
      · rw [if_neg htick]
        exact least_cons hsleep (TimerInfo.getInterval_le hli.2) fun h =>
          ih (fun hfalse => by cases hfalse) h hrest
    · rw [if_neg hdue]
      exact least_cons hsleep (Nat.le_trans (TimerInfo.getLeft_le _ _ _) hli.1) fun h =>
        ih (fun hfalse => by cases hfalse) h hrest

variable {t : LT_Object} {now : Nat}

theorem mem_onTimer {timerid : Int} {f : TimerInfo → TimerInfo} {tlst : List TimerInfo}
    (hids : (tlst.map TimerInfo.id).Nodup) {li : TimerInfo} (h : li ∈ onTimer timerid f tlst) :
    (li ∈ tlst ∧ li.id ≠ timerid) ∨ ∃ old ∈ tlst, old.id = timerid ∧ li = f old := by
  induction tlst with
  | nil => cases h
  | cons first tlst ih =>
    rw [List.map_cons, List.nodup_cons] at hids
    unfold onTimer at h
    by_cases hid : first.id = timerid
    · rw [if_pos hid, List.mem_cons] at h
      rcases h with rfl | hrest
      · exact .inr ⟨first, List.mem_cons_self, hid, rfl⟩
      · refine .inl ⟨List.mem_cons_of_mem _ hrest, fun hsame => hids.1 ?_⟩
        exact List.mem_map.mpr ⟨li, hrest, hsame.trans hid.symm⟩
    · rw [if_neg hid, List.mem_cons] at h
      rcases h with rfl | hrest
      · exact .inl ⟨List.mem_cons_self, hid⟩
      · rcases ih hids.2 hrest with hmem | ⟨old, hold, holdid, heq⟩
        · exact .inl ⟨List.mem_cons_of_mem _ hmem.1, hmem.2⟩
        · exact .inr ⟨old, List.mem_cons_of_mem _ hold, holdid, heq⟩

/-- What is asked for is a new timer, or the running one anew. -/
theorem mem_askTimer {timerid : Int} {timeMS : Int64} {ticks : Int} {p : Priority} {li : TimerInfo}
    (hids : t.Distinct) (h : li ∈ (t.askTimer now timerid timeMS ticks p).tlst) :
    (li ∈ t.tlst ∧ li.id ≠ timerid) ∨
      (0 < timeMS.toInt ∧ li = .new timerid (period timeMS) ticks p now) ∨
      (0 < timeMS.toInt ∧ ∃ old ∈ t.tlst, old.id = timerid ∧
        li = old.askAgain (period timeMS) ticks now) := by
  unfold askTimer at h
  split_ifs at h with hpos hold
  · exact (mem_onTimer hids h).imp_right fun hnew => .inr ⟨hpos, hnew⟩
  · rcases List.mem_append.mp h with hmem | hnew
    · exact .inl ⟨hmem, fun hid => hold ⟨li, hmem, hid⟩⟩
    · exact .inr (.inl ⟨hpos, List.mem_singleton.mp hnew⟩)
  · have hkept := List.mem_filter.mp h
    exact .inl ⟨hkept.1, of_decide_eq_true hkept.2⟩

/-- Asking leaves no other sleep time than the quantum, but for a running timer. -/
theorem askTimer_sleepTime {timerid : Int} {timeMS : Int64} {ticks : Int} {p : Priority}
    (h : ¬(0 < timeMS.toInt ∧ ∃ li ∈ t.tlst, li.id = timerid)) :
    (t.askTimer now timerid timeMS ticks p).sleepTime =
      if (t.askTimer now timerid timeMS ticks p).tlst = [] then WaitUpTime else MinQuantityTime := by
  unfold askTimer
  by_cases hpos : 0 < timeMS.toInt
  · rw [if_pos hpos, if_neg fun hold => h ⟨hpos, hold⟩, if_neg (List.append_ne_nil_of_right_ne_nil _
      (List.cons_ne_nil _ _))]
  · rw [if_neg hpos]

/-- A check that is put off leaves the quantum to sleep. -/
theorem checkTimers_sleepTime_of_not_passes (h : ¬t.Passes now) :
    (t.checkTimers now).1.sleepTime = if t.tlst = [] then WaitUpTime else MinQuantityTime := by
  unfold checkTimers
  split_ifs with hempty hearly
  · rfl
  · rfl
  · exact absurd ⟨hempty, hearly⟩ h

theorem checkTimers_sleepTime_le (hpass : t.Passes now)
    (hsmall : ∀ li ∈ t.tlst, li.curTimeMS ≤ WaitUpTime ∧ li.tmr.t_msec ≤ WaitUpTime) :
    ∀ li ∈ (t.checkTimers now).1.tlst, (t.checkTimers now).1.sleepTime ≤ MinQuantityTime ∨
      (t.checkTimers now).1.sleepTime ≤ li.curTimeMS := by
  have hleast := (@checkList_sleepTime t.tmLast now false WaitUpTime t.tlst (fun _ => rfl)
    (Nat.le_refl _) hsmall).2
  rw [checkList_list] at hleast
  rw [checkTimers_of_passes hpass]
  intro li hli
  rcases Nat.le_total (checkList t.tmLast now false WaitUpTime t.tlst).2.1 MinQuantityTime
    with hle | hle
  · exact .inl (Nat.le_of_eq (Nat.max_eq_right hle))
  · exact .inr (Nat.le_trans (Nat.le_of_eq (Nat.max_eq_left hle)) (hleast li hli))

theorem period_le (timeMS : Int64) : period timeMS ≤ WaitUpTime := by
  have hlt := timeMS.toInt_lt
  have hwait : WaitUpTime = 9223372036854775807 := rfl
  unfold period
  split_ifs
  · decide
  · omega

end LT_Object

namespace TimerMoment

open LT_Object

variable {m : TimerMoment} {op : Nat × TimerOp}

/-! ## Each step keeps the records right -/

theorem sound_initial (now : Nat) : (initial now).Sound :=
  ⟨Nat.le_refl _, List.nodup_nil, fun _ hli => absurd hli List.not_mem_nil,
    fun _ hli => absurd hli List.not_mem_nil⟩

variable {wait : Nat}

theorem Sound.pass (h : m.Sound) (hpass : m.lt.Passes (m.now + wait))
    (hcuts : m.CutsRight (wait, .checkTimers)) :
    (m.step (wait, .checkTimers)).Sound ∧ (m.step (wait, .checkTimers)).SleepsRight := by
  have hlater : m.lt.tmLast.t_start ≤ m.now + wait := Nat.le_add_right_of_le h.last
  have heq := checkTimers_of_passes hpass
  have hlist : (m.step (wait, .checkTimers)).lt.tlst =
      m.lt.tlst.filterMap fun li => li.turn m.lt.tmLast (m.now + wait) := congrArg (·.1.tlst) heq
  have hlast : (m.step (wait, .checkTimers)).lt.tmLast.t_start = m.now + wait :=
    congrArg (·.1.tmLast.t_start) heq
  have hsound : (m.step (wait, .checkTimers)).Sound := by
    refine ⟨Nat.le_of_eq hlast, h.distinct.checkTimers, ?_, ?_⟩
    · intro li' hli' hfinite
      rw [hlist, List.mem_filterMap] at hli'
      obtain ⟨li, hli, hturn⟩ := hli'
      rw [hlast]
      rcases TimerInfo.turn_cases hturn with ⟨-, htmr, hcur⟩ | ⟨hdue, rfl⟩
      · have hold : li.Finite := by
          rw [TimerInfo.Finite, htmr] at hfinite
          exact hfinite
        rw [hcur, TimerInfo.getInterval_of_finite hold, TimerInfo.dueTime, htmr]
        exact Nat.le_refl _
      · exact TimerInfo.left_le_dueTime hfinite hdue hlater (hcuts hpass li hli hfinite hdue)
    · intro li' hli'
      rw [hlist, List.mem_filterMap] at hli'
      obtain ⟨li, hli, hturn⟩ := hli'
      exact TimerInfo.turn_small (h.small li hli) hturn
  refine ⟨hsound, fun li hli hfinite => ?_⟩
  refine (checkTimers_sleepTime_le hpass h.small li hli).imp_right fun hleast => ?_
  have hrecord := hsound.records li hli hfinite
  rw [hlast] at hrecord
  exact Nat.le_trans (Nat.add_le_add_left (Nat.mul_le_mul_right _ hleast) _) hrecord

/-- A check that is put off changes no timer. -/
theorem Sound.putOff (h : m.Sound) (hpass : ¬m.lt.Passes (m.now + wait)) :
    (m.step (wait, .checkTimers)).Sound ∧ (m.step (wait, .checkTimers)).SleepsRight := by
  obtain ⟨hlist, hlast, -⟩ := checkTimers_of_not_passes hpass
  have hsleep := checkTimers_sleepTime_of_not_passes hpass
  refine ⟨⟨?_, h.distinct.checkTimers, ?_, ?_⟩, ?_⟩
  · exact Nat.le_trans (Nat.le_of_eq (congrArg _ hlast)) (Nat.le_add_right_of_le h.last)
  · intro li hli
    have hstart : (m.step (wait, .checkTimers)).lt.tmLast = m.lt.tmLast := hlast
    rw [hstart]
    exact h.records li (hlist ▸ hli)
  · exact fun li hli => h.small li (hlist ▸ hli)
  · by_cases hempty : m.lt.tlst = []
    · exact sleepsRight_of_nil (hlist.trans hempty)
    · rw [if_neg hempty] at hsleep
      exact sleepsRight_of_quantum (Nat.le_of_eq hsleep)

theorem Sound.askTimer (h : m.Sound) {timerid : Int} {timeMS : Int64} {ticks : Int} {p : Priority}
    (hasks : m.AsksRight (wait, .askTimer timerid timeMS ticks p)) :
    (m.step (wait, .askTimer timerid timeMS ticks p)).Sound := by
  have hlater : m.lt.tmLast.t_start ≤ m.now + wait := Nat.le_add_right_of_le h.last
  have hlast : (m.step (wait, .askTimer timerid timeMS ticks p)).lt.tmLast = m.lt.tmLast :=
    askTimer_tmLast timerid timeMS ticks p
  refine ⟨?_, h.distinct.askTimer timeMS ticks p, ?_, ?_⟩
  · rw [hlast]
    exact hlater
  · intro li hli hfinite
    rw [hlast]
    rcases mem_askTimer h.distinct hli with hold | ⟨-, rfl⟩ | ⟨hpos, old, hold, hid, rfl⟩
    · exact h.records li hold.1 hfinite
    · exact Nat.add_le_add_right hlater _
    · exact (hasks hpos ⟨old, hold, hid⟩).2 old hold hid
  · intro li hli
    rcases mem_askTimer h.distinct hli with hold | ⟨-, rfl⟩ | ⟨-, old, hold, -, rfl⟩
    · exact h.small li hold.1
    · exact ⟨period_le timeMS, period_le timeMS⟩
    · exact ⟨(h.small old hold).1, period_le timeMS⟩

theorem Sound.askTimer_sleepsRight (h : m.Sound) {timerid : Int} {timeMS : Int64} {ticks : Int}
    {p : Priority} (hasks : m.AsksRight (wait, .askTimer timerid timeMS ticks p)) :
    (m.step (wait, .askTimer timerid timeMS ticks p)).SleepsRight := by
  by_cases hagain : 0 < timeMS.toInt ∧ ∃ li ∈ m.lt.tlst, li.id = timerid
  · have hsleep : (m.step (wait, .askTimer timerid timeMS ticks p)).lt.sleepTime =
        m.lt.sleepTime := by
      change (m.lt.askTimer (m.now + wait) timerid timeMS ticks p).sleepTime = _
      rw [LT_Object.askTimer, if_pos hagain.1, if_pos hagain.2]
    intro li hli hfinite
    rw [hsleep]
    refine (hasks hagain.1 hagain.2).1.imp_right fun ⟨hperiod, hothers⟩ => ?_
    rcases mem_askTimer h.distinct hli with hold | ⟨-, rfl⟩ | ⟨-, old, -, -, rfl⟩
    · exact hothers li hold.1 hold.2 hfinite
    · exact Nat.add_le_add_left (Nat.mul_le_mul_right _ hperiod) _
    · exact Nat.add_le_add_left (Nat.mul_le_mul_right _ hperiod) _
  · have hsleep := @askTimer_sleepTime m.lt (m.now + wait) timerid timeMS ticks p hagain
    by_cases hnone : (m.step (wait, .askTimer timerid timeMS ticks p)).lt.tlst = []
    · exact sleepsRight_of_nil hnone
    · exact sleepsRight_of_quantum (Nat.le_of_eq (hsleep.trans (if_neg hnone)))

theorem Sound.step (h : m.Sound) (hcuts : m.CutsRight op) (hasks : m.AsksRight op) :
    (m.step op).Sound ∧ (m.step op).SleepsRight := by
  obtain ⟨wait, op⟩ := op
  cases op with
  | askTimer => exact ⟨h.askTimer hasks, h.askTimer_sleepsRight hasks⟩
  | checkTimers =>
    by_cases hpass : m.lt.Passes (m.now + wait)
    · exact h.pass hpass hcuts
    · exact h.putOff hpass

/-! ## A caller that sleeps the sleep time -/

/-- Between the passes of such a caller. -/
structure Rested (m : TimerMoment) : Prop where
  sound : m.Sound
  right : m.SleepsRight
  quantum : MinQuantityTime ≤ m.lt.sleepTime
  ahead : ∀ li ∈ m.lt.tlst, li.Finite → m.now ≤ li.dueTime ∧
    m.lt.tmLast.t_start + li.curTimeMS * 1000000 + (m.now - m.lt.tmLast.t_start) % 1000000 ≤ li.dueTime

theorem quantum_le_wait : MinQuantityTime ≤ WaitUpTime := by decide

theorem rested_initial (now : Nat) : (initial now).Rested :=
  ⟨sound_initial now, sleepsRight_of_nil rfl, quantum_le_wait, fun _ hli => absurd hli List.not_mem_nil⟩

/-- A whole number of milliseconds keeps the fraction. -/
theorem Rested.cutsRight (h : m.Rested) (hop : m.Sleeps op) : m.CutsRight op := by
  obtain ⟨wait, op⟩ := op
  cases op with
  | checkTimers =>
    intro hpass li hli hfinite _ _
    have hwait : wait = m.lt.sleepTime * 1000000 := hop hpass.1
    have hlast := h.sound.last
    have hfraction : (m.now + wait - m.lt.tmLast.t_start) % 1000000 =
        (m.now - m.lt.tmLast.t_start) % 1000000 := by omega
    rw [hfraction]
    exact (h.ahead li hli hfinite).2
  | askTimer => trivial

theorem Rested.passes (h : m.Rested) (hop : m.Sleeps (wait, .checkTimers)) (hlist : m.lt.tlst ≠ []) :
    m.lt.Passes (m.now + wait) := by
  have hwait : wait = m.lt.sleepTime * 1000000 := hop hlist
  have hquantum : 10 ≤ m.lt.sleepTime := h.quantum
  have hlast := h.sound.last
  refine ⟨hlist, fun hearly => ?_⟩
  have hlt : (m.now + wait - m.lt.tmLast.t_start) / 1000000 < 10 := hearly.1
  omega

theorem Rested.servesInTime (h : m.Rested) (hop : m.Sleeps op) : m.ServesInTime op := by
  obtain ⟨wait, op⟩ := op
  rintro rfl li hli hfinite
  have hlist := List.ne_nil_of_mem hli
  have hwait : wait = m.lt.sleepTime * 1000000 := hop hlist
  refine ⟨?_, fun hdue => ?_⟩
  · have hahead := (h.ahead li hli hfinite).1
    rw [hwait]
    rcases h.right li hli hfinite with hquantum | htime
    · exact Nat.add_le_add hahead (Nat.mul_le_mul_right _ hquantum)
    · exact Nat.le_add_right_of_le htime
  · rw [checkTimers_of_passes (h.passes hop hlist)]
    exact List.mem_map_of_mem (List.mem_filter.mpr ⟨hli, TimerInfo.due_of_dueTime_le hfinite hdue⟩)

theorem quantum_le_none_or_quantum (tlst : List TimerInfo) :
    MinQuantityTime ≤ if tlst = [] then WaitUpTime else MinQuantityTime := by
  split_ifs
  · exact quantum_le_wait
  · exact Nat.le_refl _

theorem quantum_step (h : MinQuantityTime ≤ m.lt.sleepTime) (op : Nat × TimerOp) :
    MinQuantityTime ≤ (m.step op).lt.sleepTime := by
  obtain ⟨wait, op⟩ := op
  cases op with
  | checkTimers =>
    by_cases hpass : m.lt.Passes (m.now + wait)
    · have hsleep := congrArg (·.1.sleepTime) (checkTimers_of_passes hpass)
      exact Nat.le_trans (Nat.le_max_right _ _) (Nat.le_of_eq hsleep.symm)
    · exact Nat.le_trans (quantum_le_none_or_quantum m.lt.tlst)
        (Nat.le_of_eq (checkTimers_sleepTime_of_not_passes hpass).symm)
  | askTimer timerid timeMS ticks p =>
    change _ ≤ (m.lt.askTimer (m.now + wait) timerid timeMS ticks p).sleepTime
    unfold LT_Object.askTimer
    split_ifs
    · exact h
    · exact Nat.le_refl _
    · exact quantum_le_none_or_quantum _

theorem Rested.checkTimers (h : m.Rested) (hop : m.Sleeps (wait, .checkTimers)) :
    (m.step (wait, .checkTimers)).Rested := by
  obtain ⟨hsound, hright⟩ := h.sound.step (h.cutsRight hop) trivial
  refine ⟨hsound, hright, quantum_step h.quantum _, ?_⟩
  by_cases hlist : m.lt.tlst = []
  · have hnone : (m.step (wait, .checkTimers)).lt.tlst = [] :=
      (checkTimers_of_not_passes fun hpass => hpass.1 hlist).1.trans hlist
    rw [hnone]
    exact fun _ hli => absurd hli List.not_mem_nil
  · have hlast : (m.step (wait, .checkTimers)).lt.tmLast.t_start = m.now + wait :=
      congrArg (·.1.tmLast.t_start) (checkTimers_of_passes (h.passes hop hlist))
    have hnow : (m.step (wait, .checkTimers)).now = m.now + wait := rfl
    intro li hli hfinite
    have hrecord := hsound.records li hli hfinite
    rw [hlast] at hrecord ⊢
    rw [hnow, Nat.sub_self, Nat.zero_mod, Nat.add_zero]
    exact ⟨Nat.le_of_add_right_le hrecord, hrecord⟩

/-- A record that is over before a period that begins now is so with the fraction. -/
theorem ahead_of_le {last now curTimeMS timeMS : Nat} (hlast : last ≤ now)
    (h : last + curTimeMS * 1000000 ≤ now + timeMS * 1000000) : now ≤ now + timeMS * 1000000 ∧
      last + curTimeMS * 1000000 + (now - last) % 1000000 ≤ now + timeMS * 1000000 := by
  omega

theorem Rested.askTimer (h : m.Rested) {timerid : Int} {timeMS : Int64} {ticks : Int} {p : Priority}
    (hop : m.Sleeps (wait, .askTimer timerid timeMS ticks p))
    (hasks : m.AsksRight (wait, .askTimer timerid timeMS ticks p)) :
    (m.step (wait, .askTimer timerid timeMS ticks p)).Rested := by
  refine ⟨h.sound.askTimer hasks, h.sound.askTimer_sleepsRight hasks, quantum_step h.quantum _, ?_⟩
  have hlast : (m.step (wait, .askTimer timerid timeMS ticks p)).lt.tmLast = m.lt.tmLast :=
    askTimer_tmLast timerid timeMS ticks p
  have hnow : (m.step (wait, .askTimer timerid timeMS ticks p)).now = m.now + wait := rfl
  have hlater : m.lt.tmLast.t_start ≤ m.now + wait := Nat.le_add_right_of_le h.sound.last
  rw [hlast, hnow]
  intro li hli hfinite
  rcases mem_askTimer h.sound.distinct hli with hold | ⟨-, rfl⟩ | ⟨hpos, old, hold, hid, rfl⟩
  · have hwait : wait = 0 := hop (List.ne_nil_of_mem hold.1)
    rw [hwait]
    exact h.ahead li hold.1 hfinite
  · exact ahead_of_le hlater (Nat.add_le_add_right hlater _)
  · exact ahead_of_le hlater ((hasks hpos ⟨old, hold, hid⟩).2 old hold hid)

theorem Rested.step (h : m.Rested) (hop : m.Sleeps op) (hasks : m.AsksRight op) :
    (m.step op).Rested := by
  obtain ⟨wait, op⟩ := op
  cases op with
  | askTimer => exact h.askTimer hop hasks
  | checkTimers => exact h.checkTimers hop

/-! ## Whole runs -/

/-- A run whose passes and requests are right never sleeps past what a timer has left, and a caller
that sleeps the sleep time is in time. -/
theorem sleepTime_in_time (now : Nat) (ops : List (Nat × TimerOp)) :
    (Guarded step (fun m op => m.CutsRight op ∧ m.AsksRight op) (initial now) ops →
      ∀ m ∈ List.scanl step (initial now) ops, m.SleepsRight) ∧
    (Guarded step (fun m op => m.Sleeps op ∧ m.AsksRight op) (initial now) ops →
      Guarded step ServesInTime (initial now) ops) := by
  refine ⟨fun hright m hm => ?_, fun hsleeps => ?_⟩
  · have hsound := Guarded.forall_visited (I := fun m => m.Sound ∧ m.SleepsRight)
      (fun m op hm hop => hm.1.step hop.1 hop.2) ⟨sound_initial now, sleepsRight_of_nil rfl⟩ hright m hm
    exact hsound.2
  · exact Guarded.of_invariant (I := Rested)
      (fun m op hm hop => ⟨hm.servesInTime hop.1, hm.step hop.1 hop.2⟩) (rested_initial now) hsleeps

instance : Decidable (m.CutsRight op) :=
  match op with
  | (_, .checkTimers) => inferInstanceAs (Decidable (_ → ∀ li ∈ m.lt.tlst, _ → _ → _ → _))
  | (_, .askTimer ..) => inferInstanceAs (Decidable True)

instance : Decidable (m.AsksRight op) :=
  match op with
  | (_, .checkTimers) => inferInstanceAs (Decidable True)
  | (_, .askTimer ..) => inferInstanceAs (Decidable (_ → _ →
      (_ ∨ _ ∧ ∀ li ∈ m.lt.tlst, _ → _ → _) ∧ ∀ li ∈ m.lt.tlst, _ → _))

instance : Decidable (m.Sleeps op) :=
  match op with
  | (_, .checkTimers) => inferInstanceAs (Decidable (_ → _ = _))
  | (_, .askTimer ..) => inferInstanceAs (Decidable (_ → _ = _))

instance : Decidable m.SleepsRight := inferInstanceAs (Decidable (∀ li ∈ m.lt.tlst, _ → _))

def secondly : List (Nat × TimerOp) :=
  [(0, .askTimer 1 1000 (-1) .Medium), (10000000, .checkTimers), (990000000, .checkTimers)]

/-- A timer of one second. -/
theorem sleepTime_in_time_second :
    (∀ m ∈ List.scanl step (initial 0) secondly, m.SleepsRight) ∧
      Guarded step ServesInTime (initial 0) secondly :=
  ⟨(sleepTime_in_time 0 secondly).1 ⟨by decide, by decide, by decide, trivial⟩,
    (sleepTime_in_time 0 secondly).2 ⟨by decide, by decide, by decide, trivial⟩⟩

/-- The timer is asked for again with a time that is over before the sleep time. -/
theorem not_sleepsRight_asked_again :
    ¬∀ ops, ∀ m ∈ List.scanl step (initial 0) ops, m.SleepsRight := by
  intro h
  have hvisited := foldl_mem_scanl step (initial 0)
    [(0, .askTimer 1 1000 (-1) .Medium), (10000000, .checkTimers), (0, .askTimer 1 20 (-1) .Medium)]
  have hright := h _ _ hvisited
  revert hright
  decide

end TimerMoment

end Uniset
