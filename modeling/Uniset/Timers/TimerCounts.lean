import Uniset.Timers.TimedObject
import Mathlib.Data.List.GetD
import Mathlib.Data.List.Nodup
import Mathlib.Data.Nat.Basic
import Mathlib.Tactic.Common

/-! How many messages a timer sends from the moment it is asked for. -/

namespace Uniset

namespace LT_Object

variable {t : LT_Object} {tmLast : PassiveTimer} {now : Nat} {tlst : List TimerInfo} {id : Int}

/-- The timer of that number. -/
def timer (t : LT_Object) (id : Int) : Option TimerInfo := t.tlst.find? fun li => li.id = id

/-- No number is in the list twice. -/
def Distinct (t : LT_Object) : Prop := (t.tlst.map TimerInfo.id).Nodup

def told (id : Int) (sent : List TimerMessage) : Nat := sent.countP fun tm => tm.id = id

section Find

variable {li : TimerInfo}

theorem find_cons_same (h : li.id = id) :
    ((li :: tlst).find? fun li => li.id = id) = some li :=
  List.find?_cons_of_pos (decide_eq_true h)

theorem find_cons_other (h : ¬li.id = id) :
    ((li :: tlst).find? fun li => li.id = id) = tlst.find? fun li => li.id = id :=
  List.find?_cons_of_neg (by simpa using h)

end Find

theorem find_eq_none_of_not_mem (h : id ∉ tlst.map TimerInfo.id) :
    (tlst.find? fun li => li.id = id) = none := by
  refine List.find?_eq_none.mpr fun li hli hid => h ?_
  exact List.mem_map.mpr ⟨li, hli, of_decide_eq_true hid⟩

theorem ids_filterMap_turn :
    ((tlst.filterMap fun li => li.turn tmLast now).map TimerInfo.id).Sublist
      (tlst.map TimerInfo.id) := by
  induction tlst with
  | nil => exact .slnil
  | cons li tlst ih =>
    rw [List.filterMap_cons]
    cases hturn : li.turn tmLast now with
    | none => exact ih.cons _
    | some li' =>
      rw [List.map_cons, List.map_cons, TimerInfo.turn_id hturn]
      exact ih.cons_cons _

/-- A timer of a pass is turned by itself. -/
theorem find_filterMap_turn (h : (tlst.map TimerInfo.id).Nodup) (id : Int) :
    ((tlst.filterMap fun li => li.turn tmLast now).find? fun li => li.id = id) =
      (tlst.find? fun li => li.id = id).bind fun li => li.turn tmLast now := by
  induction tlst with
  | nil => rfl
  | cons li tlst ih =>
    rw [List.map_cons, List.nodup_cons] at h
    obtain ⟨hnew, hrest⟩ := h
    rw [List.filterMap_cons]
    by_cases hid : li.id = id
    · rw [find_cons_same hid, Option.bind_some]
      cases hturn : li.turn tmLast now with
      | none =>
        have hnone : id ∉ tlst.map TimerInfo.id := hid ▸ hnew
        exact find_eq_none_of_not_mem fun hmem => hnone (ids_filterMap_turn.subset hmem)
      | some li' =>
        exact find_cons_same ((TimerInfo.turn_id hturn).trans hid)
    · rw [find_cons_other hid, ← ih hrest]
      cases hturn : li.turn tmLast now with
      | none => rfl
      | some li' => exact find_cons_other ((TimerInfo.turn_id hturn).symm ▸ hid)

/-- It sends a message if its time is over. -/
theorem told_sent (h : (tlst.map TimerInfo.id).Nodup) (id : Int) :
    told id ((tlst.filter fun li => li.due now).map TimerInfo.message) =
      if (tlst.find? fun li => li.id = id).any fun li => li.due now then 1 else 0 := by
  induction tlst with
  | nil => rfl
  | cons li tlst ih =>
    rw [List.map_cons, List.nodup_cons] at h
    obtain ⟨hnew, hrest⟩ := h
    by_cases hid : li.id = id
    · have hnone : (tlst.find? fun li => li.id = id) = none :=
        find_eq_none_of_not_mem (hid ▸ hnew)
      have hrest := ih hrest
      rw [hnone] at hrest
      rw [find_cons_same hid, List.filter_cons]
      cases hdue : li.due now with
      | true =>
        have hmessage : li.message.id = id := hid
        simp only [if_true, List.map_cons, told, List.countP_cons, hmessage, decide_true,
          Option.any_some, hdue] at hrest ⊢
        rw [hrest]
        rfl
      | false =>
        rw [if_neg Bool.false_ne_true, hrest]
        simp [hdue]
    · rw [find_cons_other hid, ← ih hrest, List.filter_cons]
      have hmessage : ¬li.message.id = id := hid
      split
      · simp [told, hmessage]
      · rfl

/-! ## One step -/

theorem Distinct.checkTimers (h : t.Distinct) : (t.checkTimers now).1.Distinct := by
  by_cases hpass : t.Passes now
  · rw [checkTimers_of_passes hpass]
    exact h.sublist ids_filterMap_turn
  · rw [Distinct, (checkTimers_of_not_passes hpass).1]
    exact h

theorem map_id_onTimer (id : Int) {f : TimerInfo → TimerInfo} (hf : ∀ li, (f li).id = li.id) :
    (onTimer id f tlst).map TimerInfo.id = tlst.map TimerInfo.id := by
  induction tlst with
  | nil => rfl
  | cons li tlst ih =>
    unfold onTimer
    split_ifs
    · rw [List.map_cons, List.map_cons, hf]
    · rw [List.map_cons, List.map_cons, ih]

theorem Distinct.askTimer (h : t.Distinct) (timeMS : Int64) (ticks : Int) (p : Priority) :
    (t.askTimer now id timeMS ticks p).Distinct := by
  unfold LT_Object.askTimer
  split_ifs with hpos hold
  · have hmap := @map_id_onTimer t.tlst id (fun li => li.askAgain (period timeMS) ticks now)
      fun _ => rfl
    exact (congrArg List.Nodup hmap).mpr h
  · rw [Distinct, List.map_append, List.nodup_append]
    refine ⟨h, List.nodup_singleton _, fun a ha b hb hab => hold ?_⟩
    obtain ⟨li, hli, rfl⟩ := List.mem_map.mp ha
    rw [List.mem_singleton.mp hb] at hab
    exact ⟨li, hli, hab⟩
  · exact h.sublist (List.filter_sublist.map _)

theorem timer_checkTimers (h : t.Distinct) (id : Int) : (t.checkTimers now).1.timer id =
    if t.Passes now then (t.timer id).bind fun li => li.turn t.tmLast now else t.timer id := by
  split_ifs with hpass
  · rw [checkTimers_of_passes hpass]
    exact find_filterMap_turn h id
  · rw [timer, (checkTimers_of_not_passes hpass).1]
    rfl

theorem told_checkTimers (h : t.Distinct) (id : Int) : told id (t.checkTimers now).2 =
    if t.Passes now ∧ (t.timer id).any (fun li => li.due now) then 1 else 0 := by
  by_cases hpass : t.Passes now
  · rw [checkTimers_of_passes hpass]
    simp only [hpass, true_and]
    exact told_sent h id
  · rw [(checkTimers_of_not_passes hpass).2.2, if_neg fun hboth => hpass hboth.1]
    rfl

theorem find_onTimer_of_ne {id' : Int} (h : id' ≠ id) {f : TimerInfo → TimerInfo}
    (hf : ∀ li, (f li).id = li.id) : ((onTimer id f tlst).find? fun li => li.id = id') =
      tlst.find? fun li => li.id = id' := by
  induction tlst with
  | nil => rfl
  | cons li tlst ih =>
    unfold onTimer
    split_ifs with hid
    · have hli : ¬li.id = id' := fun heq => h (heq.symm.trans hid)
      rw [find_cons_other hli, find_cons_other ((hf li).symm ▸ hli)]
    · by_cases hli : li.id = id'
      · rw [find_cons_same hli, find_cons_same hli]
      · rw [find_cons_other hli, find_cons_other hli, ih]

theorem find_onTimer {f : TimerInfo → TimerInfo} (hf : ∀ li, (f li).id = li.id) :
    ((onTimer id f tlst).find? fun li => li.id = id) = (tlst.find? fun li => li.id = id).map f := by
  induction tlst with
  | nil => rfl
  | cons li tlst ih =>
    unfold onTimer
    split_ifs with hid
    · rw [find_cons_same ((hf li).trans hid), find_cons_same hid, Option.map_some]
    · rw [find_cons_other hid, find_cons_other hid, ih]

theorem timer_isSome_iff : (t.timer id).isSome = true ↔ ∃ li ∈ t.tlst, li.id = id := by
  rw [timer, List.find?_isSome]
  simp

theorem timer_askTimer_of_ne {id' : Int} (h : id' ≠ id) (timeMS : Int64) (ticks : Int) (p : Priority) :
    (t.askTimer now id timeMS ticks p).timer id' = t.timer id' := by
  unfold askTimer timer
  split_ifs with hpos hold
  · exact find_onTimer_of_ne h fun _ => rfl
  · rw [List.find?_append]
    have hother : ¬(TimerInfo.new id (period timeMS) ticks p now).id = id' := Ne.symm h
    rw [find_cons_other hother, List.find?_nil, Option.or_none]
  · rw [List.find?_filter]
    congr 1
    funext li
    by_cases hid : li.id = id'
    · simp [hid, h]
    · simp [hid]

theorem timer_askTimer {timeMS : Int64} (h : 0 < timeMS.toInt) (ticks : Int) (p : Priority) :
    (t.askTimer now id timeMS ticks p).timer id =
      match t.timer id with
      | some li => some (li.askAgain (period timeMS) ticks now)
      | none => some (.new id (period timeMS) ticks p now) := by
  unfold askTimer
  rw [if_pos h]
  cases htimer : t.timer id with
  | some li =>
    have hold : ∃ li ∈ t.tlst, li.id = id := timer_isSome_iff.mp (by rw [htimer]; rfl)
    rw [if_pos hold]
    have hfind := @find_onTimer t.tlst id (fun li => li.askAgain (period timeMS) ticks now)
      fun _ => rfl
    exact hfind.trans (congrArg (Option.map _) htimer)
  | none =>
    have hnew : ¬∃ li ∈ t.tlst, li.id = id := by
      rw [← timer_isSome_iff, htimer]
      exact Bool.false_ne_true
    rw [if_neg hnew]
    have hsame : (TimerInfo.new id (period timeMS) ticks p now).id = id := rfl
    unfold timer at htimer ⊢
    rw [List.find?_append, htimer, find_cons_same hsame, Option.none_or]

theorem timer_askTimer_cancel {timeMS : Int64} (h : ¬0 < timeMS.toInt) (ticks : Int) (p : Priority) :
    (t.askTimer now id timeMS ticks p).timer id = none := by
  unfold askTimer timer
  rw [if_neg h]
  refine List.find?_eq_none.mpr fun li hli => ?_
  simpa using (List.mem_filter.mp hli).2

end LT_Object

/-! ## Runs -/

/-- Operations one after the other, each some nanoseconds after the last.  Checks go on for ever. -/
structure TimerRun where
  start : Nat
  wait : Nat → Nat
  op : Nat → TimerOp

namespace TimerRun

open LT_Object

variable (r : TimerRun)

/-- When operation `n` is done. -/
def time : Nat → Nat
  | 0 => r.start + r.wait 0
  | n + 1 => time n + r.wait (n + 1)

/-- The object before operation `n`. -/
def state : Nat → LT_Object
  | 0 => .new r.start
  | n + 1 => ((state n).step (r.time n) (r.op n)).1

def sent (n : Nat) : List TimerMessage := ((r.state n).step (r.time n) (r.op n)).2

/-- The messages of a timer in `k` operations from operation `n` on. -/
def delivered (id : Int) (n : Nat) : Nat → Nat
  | 0 => 0
  | k + 1 => delivered id n k + told id (r.sent (n + k))

/-- Checks are made for ever, at times that grow beyond any bound. -/
def Lasting : Prop := ∀ n T, ∃ m ≥ n, r.op m = .checkTimers ∧ T ≤ r.time m

/-- The timer is not asked for in the operations from `n` on before `m`. -/
def Quiet (id : Int) (n m : Nat) : Prop :=
  ∀ j, n ≤ j → j < m → ∀ timeMS ticks p, r.op j ≠ .askTimer id timeMS ticks p

/-- What is to come of a timer that is asked for by operation `n`. -/
structure Delivers (id : Int) (timeMS : Int64) (ticks : Int) (n : Nat) : Prop where
  cancelled : timeMS.toInt ≤ 0 →
    ∀ k, r.Quiet id (n + 1) (n + 1 + k) → r.delivered id (n + 1) k = 0
  atMost : 0 < timeMS.toInt → 0 < ticks →
    ∀ k, r.Quiet id (n + 1) (n + 1 + k) → (r.delivered id (n + 1) k : Int) ≤ ticks
  exactly : 0 < timeMS.toInt → 0 < ticks → (∀ m, r.Quiet id (n + 1) m) →
    ∃ k, ∀ k' ≥ k, (r.delivered id (n + 1) k' : Int) = ticks
  always : 0 < timeMS.toInt → ticks = -1 → (∀ m, r.Quiet id (n + 1) m) →
    ∀ c, ∃ k, c ≤ r.delivered id (n + 1) k

/-- A running timer is not asked for again with a number of ticks, nor any with a time that never
comes. -/
def Counted (id : Int) (timeMS : Int64) (ticks : Int) (n : Nat) : Prop :=
  timeMS.toInt ≤ 0 ∨
    timeMS.toInt ≠ WaitUpTime ∧ (0 < ticks → (r.state n).timer id = none)

variable {r} {id : Int} {n k m : Nat}

theorem state_succ : r.state (n + 1) = ((r.state n).step (r.time n) (r.op n)).1 := rfl

theorem distinct_state (r : TimerRun) (n : Nat) : (r.state n).Distinct := by
  induction n with
  | zero => exact List.nodup_nil
  | succ n ih =>
    rw [state_succ]
    unfold step
    cases r.op n with
    | askTimer timerid timeMS ticks p => exact ih.askTimer timeMS ticks p
    | checkTimers => exact ih.checkTimers

/-- Operation `n` is a pass over the timers. -/
def PassesAt (r : TimerRun) (n : Nat) : Prop :=
  r.op n = .checkTimers ∧ (r.state n).Passes (r.time n)

/-- Operation `n` finds the time of the timer over. -/
def Served (r : TimerRun) (id : Int) (n : Nat) : Prop :=
  r.PassesAt n ∧ ((r.state n).timer id).any (fun li => li.due (r.time n)) = true

theorem Quiet.mono (h : r.Quiet id n m) {n' m' : Nat} (hn : n ≤ n') (hm : m' ≤ m) :
    r.Quiet id n' m' := fun j hj hjm =>
  h j (Nat.le_trans hn hj) (Nat.lt_of_lt_of_le hjm hm)

/-- A pass turns the timer, and any other operation leaves it. -/
theorem timer_succ (h : r.Quiet id n (n + 1)) :
    (r.PassesAt n → (r.state (n + 1)).timer id =
      ((r.state n).timer id).bind fun li => li.turn (r.state n).tmLast (r.time n)) ∧
    (¬r.PassesAt n → (r.state (n + 1)).timer id = (r.state n).timer id) := by
  rw [state_succ]
  unfold PassesAt step
  cases hop : r.op n with
  | askTimer timerid timeMS ticks p =>
    have hne : id ≠ timerid := by
      rintro rfl
      exact h n le_rfl (Nat.lt_succ_self n) timeMS ticks p hop
    refine ⟨fun hpass => ?_, fun _ => timer_askTimer_of_ne hne timeMS ticks p⟩
    cases hpass.1
  | checkTimers =>
    have hcheck := @timer_checkTimers (r.state n) (r.time n) (r.distinct_state n) id
    refine ⟨fun hpass => ?_, fun hpass => ?_⟩
    · rw [hcheck, if_pos hpass.2]
    · rw [hcheck, if_neg fun hpasses => hpass ⟨rfl, hpasses⟩]

theorem told_sent_eq (r : TimerRun) (id : Int) (n : Nat) [Decidable (r.Served id n)] :
    told id (r.sent n) = if r.Served id n then 1 else 0 := by
  have hserved : r.Served id n ↔ r.op n = .checkTimers ∧ (r.state n).Passes (r.time n) ∧
      ((r.state n).timer id).any (fun li => li.due (r.time n)) = true := and_assoc
  unfold sent step
  cases hop : r.op n with
  | askTimer timerid timeMS ticks p =>
    rw [if_neg fun hs => by rw [hserved, hop] at hs; cases hs.1]
    rfl
  | checkTimers =>
    dsimp only
    rw [told_checkTimers (r.distinct_state n) id]
    refine if_congr ?_ rfl rfl
    rw [hserved, hop]
    simp

/-- What is left of a timer with the tick `c` and the period `T` when `d` messages are sent. -/
def Left (T : Nat) (c : Int) (d : Nat) : Option TimerInfo → Prop
  | some li => li.tmr.t_msec = T ∧ (c < 0 ∧ li.curTick = c ∨ li.curTick = c - d ∧ (d : Int) ≤ c)
  | none => 0 ≤ c ∧ (d : Int) = c + 1

theorem Left.turn {T d : Nat} {c : Int} {li : TimerInfo} (h : Left T c d (some li))
    (tmLast : PassiveTimer) (now : Nat) :
    Left T c (d + if li.due now then 1 else 0) (li.turn tmLast now) := by
  obtain ⟨hperiod, htick⟩ := h
  unfold TimerInfo.turn
  cases hdue : li.due now with
  | false =>
    rw [if_neg Bool.false_ne_true, if_neg Bool.false_ne_true]
    exact ⟨hperiod, htick⟩
  | true =>
    rw [if_pos rfl, if_pos rfl]
    by_cases hlast : li.curTick = 0
    · rw [if_pos hlast]
      rcases htick with ⟨hneg, heq⟩ | ⟨heq, hle⟩
      · omega
      · exact ⟨by omega, by push_cast; omega⟩
    · rw [if_neg hlast]
      refine ⟨hperiod, ?_⟩
      change c < 0 ∧ (if 0 < li.curTick then li.curTick - 1 else li.curTick) = c ∨
        (if 0 < li.curTick then li.curTick - 1 else li.curTick) = c - (d + 1 : Nat) ∧
          ((d + 1 : Nat) : Int) ≤ c
      rcases htick with ⟨hneg, heq⟩ | ⟨heq, hle⟩
      · left
        rw [if_neg (by omega)]
        exact ⟨hneg, heq⟩
      · right
        rw [if_pos (by omega)]
        push_cast
        omega

/-- A run of other operations and checks. -/
theorem left_delivered {T : Nat} {c : Int} (h : Left T c 0 ((r.state n).timer id)) (k : Nat)
    (hquiet : r.Quiet id n (n + k)) :
    Left T c (r.delivered id n k) ((r.state (n + k)).timer id) := by
  classical
  induction k with
  | zero => exact h
  | succ k ih =>
    have hbefore := ih (hquiet.mono le_rfl (Nat.le_succ _))
    obtain ⟨hturn, hstay⟩ := timer_succ (hquiet.mono (Nat.le_add_right n k) le_rfl)
    rw [delivered, told_sent_eq, ← Nat.add_assoc]
    by_cases hpass : r.PassesAt (n + k)
    · rw [hturn hpass]
      cases htimer : (r.state (n + k)).timer id with
      | none =>
        have hno : ¬r.Served id (n + k) := fun hs => by
          rw [Served, htimer] at hs
          cases hs.2
        rw [htimer] at hbefore
        rw [if_neg hno]
        exact hbefore
      | some li =>
        have hserved : r.Served id (n + k) ↔ li.due (r.time (n + k)) = true := by
          rw [Served, htimer]
          exact and_iff_right hpass
        rw [htimer] at hbefore
        rw [if_congr hserved rfl rfl]
        exact hbefore.turn _ _
    · rw [hstay hpass, if_neg fun hs => hpass hs.1]
      exact hbefore

/-! ### The messages come -/

theorem tmLast_succ (r : TimerRun) (n : Nat) : (r.state (n + 1)).tmLast.t_start = r.time n ∧
    r.PassesAt n ∨ (r.state (n + 1)).tmLast = (r.state n).tmLast := by
  rw [state_succ]
  unfold PassesAt step
  cases hop : r.op n with
  | askTimer timerid timeMS ticks p =>
    exact .inr (askTimer_tmLast timerid timeMS ticks p)
  | checkTimers =>
    by_cases hpass : (r.state n).Passes (r.time n)
    · left
      dsimp only
      rw [checkTimers_of_passes hpass]
      exact ⟨rfl, rfl, hpass⟩
    · right
      exact (checkTimers_of_not_passes hpass).2.1

theorem not_due_iff {li : TimerInfo} {now : Nat} (hT : li.tmr.t_msec ≠ WaitUpTime)
    (hpos : li.tmr.t_msec ≠ 0) : ¬li.due now = true ↔
      (now - li.tmr.t_start) / 1000000 < li.tmr.t_msec := by
  rw [TimerInfo.due, PassiveTimer.checkTime, if_neg hT, if_neg hpos, decide_eq_true_eq, Nat.not_le]

/-- A timer that is there is served some time. -/
theorem exists_served (hlast : r.Lasting) {li : TimerInfo} (hli : (r.state n).timer id = some li)
    (hT : li.tmr.t_msec ≠ WaitUpTime) (hpos : li.tmr.t_msec ≠ 0)
    (hquiet : ∀ m, r.Quiet id n m) : ∃ m ≥ n, r.Served id m := by
  by_contra hnever
  -- while it is not served, it waits with the time that it has been started with
  have hwaits : ∀ k, (∃ li', (r.state (n + k)).timer id = some li' ∧ li'.tmr = li.tmr) ∧
      (r.state (n + k)).tmLast.t_start ≤
        max (r.state n).tmLast.t_start (li.tmr.t_start + li.tmr.t_msec * 1000000) := by
    intro k
    induction k with
    | zero => exact ⟨⟨li, hli, rfl⟩, Nat.le_max_left _ _⟩
    | succ k ih =>
      obtain ⟨⟨li', hli', htmr⟩, hbound⟩ := ih
      obtain ⟨hturn, hstay⟩ := timer_succ ((hquiet (n + k + 1)).mono (Nat.le_add_right n k) le_rfl)
      have hnot : r.PassesAt (n + k) → ¬li'.due (r.time (n + k)) = true := by
        intro hpass hdue
        refine hnever ⟨n + k, Nat.le_add_right n k, hpass, ?_⟩
        rw [hli']
        exact hdue
      constructor
      · by_cases hpass : r.PassesAt (n + k)
        · rw [← Nat.add_assoc, hturn hpass, hli', Option.bind_some, TimerInfo.turn,
            if_neg (hnot hpass)]
          exact ⟨_, rfl, htmr⟩
        · rw [← Nat.add_assoc, hstay hpass]
          exact ⟨li', hli', htmr⟩
      · rw [← Nat.add_assoc]
        rcases r.tmLast_succ (n + k) with ⟨hstart, hpass⟩ | hsame
        · have hearly := (not_due_iff (htmr ▸ hT) (htmr ▸ hpos)).mp (hnot hpass)
          rw [htmr] at hearly
          rw [hstart]
          refine Nat.le_trans ?_ (Nat.le_max_right _ _)
          have hlt := (Nat.div_lt_iff_lt_mul (by decide : 0 < 1000000)).mp hearly
          omega
        · rw [hsame]
          exact hbound
  obtain ⟨m, hm, hop, hlate⟩ := hlast n
    (max (r.state n).tmLast.t_start (li.tmr.t_start + li.tmr.t_msec * 1000000) + 10000000)
  obtain ⟨k, rfl⟩ := Nat.exists_eq_add_of_le hm
  obtain ⟨⟨li', hli', htmr⟩, hbound⟩ := hwaits k
  have hpasses : (r.state (n + k)).Passes (r.time (n + k)) := by
    refine ⟨fun hempty => ?_, fun hearly => ?_⟩
    · rw [timer, hempty] at hli'
      cases hli'
    · have hcurrent := hearly.1
      unfold PassiveTimer.getCurrent MinQuantityTime at hcurrent
      have hlt := (Nat.div_lt_iff_lt_mul (by decide : 0 < 1000000)).mp hcurrent
      omega
  have hdue : li'.due (r.time (n + k)) = true := by
    by_contra hno
    have hearly := (not_due_iff (htmr ▸ hT) (htmr ▸ hpos)).mp hno
    rw [htmr] at hearly
    have hlt := (Nat.div_lt_iff_lt_mul (by decide : 0 < 1000000)).mp hearly
    have hmax := Nat.le_max_right (r.state n).tmLast.t_start
      (li.tmr.t_start + li.tmr.t_msec * 1000000)
    omega
  refine hnever ⟨n + k, hm, ⟨hop, hpasses⟩, ?_⟩
  rw [hli']
  exact hdue

theorem delivered_mono (r : TimerRun) (id : Int) (n : Nat) {k k' : Nat} (h : k ≤ k') :
    r.delivered id n k ≤ r.delivered id n k' := by
  induction k', h using Nat.le_induction with
  | base => exact Nat.le_refl _
  | succ k' _ ih => exact Nat.le_trans ih (Nat.le_add_right _ _)

/-- As many messages come as are left. -/
theorem exists_delivered (hlast : r.Lasting) {T : Nat} {c : Int}
    (h : Left T c 0 ((r.state n).timer id)) (hT : T ≠ WaitUpTime) (hpos : T ≠ 0)
    (hquiet : ∀ m, r.Quiet id n m) (d : Nat) (hd : c < 0 ∨ (d : Int) ≤ c + 1) :
    ∃ k, d ≤ r.delivered id n k := by
  classical
  induction d with
  | zero => exact ⟨0, Nat.zero_le _⟩
  | succ d ih =>
    obtain ⟨k, hk⟩ := ih (hd.imp_right fun hd => by push_cast at hd; omega)
    rcases Nat.lt_or_ge d (r.delivered id n k) with hlt | hge
    · exact ⟨k, hlt⟩
    have hleft := left_delivered h k (hquiet _)
    cases htimer : (r.state (n + k)).timer id with
    | none =>
      rw [htimer] at hleft
      obtain ⟨hc, heq⟩ := hleft
      push_cast at hd
      omega
    | some li =>
      rw [htimer] at hleft
      have hperiod := hleft.1
      obtain ⟨m, hm, hserved⟩ := exists_served hlast htimer (hperiod ▸ hT) (hperiod ▸ hpos)
        fun m => (hquiet m).mono (Nat.le_add_right n k) le_rfl
      obtain ⟨j, rfl⟩ := Nat.exists_eq_add_of_le (Nat.le_trans (Nat.le_add_right n k) hm)
      refine ⟨j + 1, ?_⟩
      have hmono := r.delivered_mono id n (by omega : k ≤ j)
      rw [delivered, told_sent_eq, if_pos hserved]
      omega

/-- No timer, or one whose time never comes. -/
def Idle (o : Option TimerInfo) : Prop := ∀ li, o = some li → li.tmr.t_msec = WaitUpTime

theorem Idle.not_due {o : Option TimerInfo} (h : Idle o) (now : Nat) :
    ¬o.any (fun li => li.due now) = true := by
  cases o with
  | none => exact Bool.false_ne_true
  | some li =>
    rw [Option.any_some, TimerInfo.due, PassiveTimer.checkTime, if_pos (h li rfl)]
    exact Bool.false_ne_true

theorem delivered_idle (h : Idle ((r.state n).timer id)) (k : Nat) (hquiet : r.Quiet id n (n + k)) :
    r.delivered id n k = 0 ∧ Idle ((r.state (n + k)).timer id) := by
  classical
  induction k with
  | zero => exact ⟨rfl, h⟩
  | succ k ih =>
    obtain ⟨hnone, hidle⟩ := ih (hquiet.mono le_rfl (Nat.le_succ _))
    obtain ⟨hturn, hstay⟩ := timer_succ (hquiet.mono (Nat.le_add_right n k) le_rfl)
    constructor
    · rw [delivered, hnone, told_sent_eq, if_neg fun hs => hidle.not_due _ hs.2]
    · rw [← Nat.add_assoc]
      by_cases hpass : r.PassesAt (n + k)
      · rw [hturn hpass]
        intro li' hli'
        obtain ⟨li, hli, hturned⟩ := Option.bind_eq_some_iff.mp hli'
        have hnot : ¬li.due (r.time (n + k)) = true := by
          have hno := hidle.not_due (r.time (n + k))
          rwa [hli] at hno
        rw [TimerInfo.turn, if_neg hnot] at hturned
        cases hturned
        exact hidle li hli
      · rw [hstay hpass]
        exact hidle

theorem period_ne_waitUp {timeMS : Int64} :
    period timeMS ≠ WaitUpTime ↔ timeMS.toInt ≠ WaitUpTime := by
  have hmin : (MinQuantityTime : Int) = 10 := rfl
  have hwait : (WaitUpTime : Int) = 9223372036854775807 := rfl
  unfold period
  split_ifs with hlow
  · refine iff_of_true (by decide) fun heq => ?_
    omega
  · omega

theorem period_ne_zero (timeMS : Int64) : period timeMS ≠ 0 := by
  have hmin : (MinQuantityTime : Int) = 10 := rfl
  unfold period
  split_ifs with hlow
  · decide
  · omega

section Ask

variable {timeMS : Int64} {ticks : Int} {p : Priority}

theorem timer_asked (hop : r.op n = .askTimer id timeMS ticks p) (h : 0 < timeMS.toInt) :
    (r.state (n + 1)).timer id =
      match (r.state n).timer id with
      | some li => some (li.askAgain (period timeMS) ticks (r.time n))
      | none => some (.new id (period timeMS) ticks p (r.time n)) := by
  rw [state_succ, hop]
  exact timer_askTimer h ticks p

/-- What an order leaves.  A new timer has sent one message less than it has ticks when it is down to
0, one that was running as many. -/
theorem left_asked (hop : r.op n = .askTimer id timeMS ticks p) (h : 0 < timeMS.toInt) :
    Left (period timeMS) (if (r.state n).timer id = none then ticks - 1 else ticks) 0
      ((r.state (n + 1)).timer id) := by
  rw [timer_asked hop h]
  cases (r.state n).timer id with
  | none =>
    refine ⟨rfl, ?_⟩
    change ticks - 1 < 0 ∧ ticks - 1 = ticks - 1 ∨ ticks - 1 = ticks - 1 - (0 : Nat) ∧
      ((0 : Nat) : Int) ≤ ticks - 1
    omega
  | some li =>
    refine ⟨rfl, ?_⟩
    change ticks < 0 ∧ ticks = ticks ∨ ticks = ticks - (0 : Nat) ∧ ((0 : Nat) : Int) ≤ ticks
    omega

theorem Left.le {T d : Nat} {c : Int} {o : Option TimerInfo} (h : Left T c d o) (hc : 0 ≤ c) :
    (d : Int) ≤ c + 1 := by
  cases o with
  | none => exact Int.le_of_eq h.2
  | some li =>
    rcases h.2 with ⟨hneg, -⟩ | ⟨-, hle⟩
    · omega
    · omega

theorem delivers_of_counted (hlast : r.Lasting) (hop : r.op n = .askTimer id timeMS ticks p)
    (h : r.Counted id timeMS ticks n) : r.Delivers id timeMS ticks n := by
  have hnew : 0 < timeMS.toInt → 0 < ticks →
      Left (period timeMS) (ticks - 1) 0 ((r.state (n + 1)).timer id) := by
    intro hpos hticks
    have hleft := left_asked hop hpos
    rcases h with hcancel | ⟨-, hnone⟩
    · omega
    · rwa [if_pos (hnone hticks)] at hleft
  have hwait : 0 < timeMS.toInt → period timeMS ≠ WaitUpTime := by
    intro hpos
    rcases h with hcancel | ⟨hwait, -⟩
    · omega
    · exact period_ne_waitUp.mpr hwait
  have hmost : 0 < timeMS.toInt → 0 < ticks →
      ∀ k, r.Quiet id (n + 1) (n + 1 + k) → (r.delivered id (n + 1) k : Int) ≤ ticks := by
    intro hpos hticks k hquiet
    have hle := (left_delivered (hnew hpos hticks) k hquiet).le (by omega)
    omega
  refine ⟨fun hcancel k hquiet => ?_, hmost, fun hpos hticks hquiet => ?_,
    fun hpos hticks hquiet c => ?_⟩
  · have hnone : (r.state (n + 1)).timer id = none := by
      rw [state_succ, hop]
      exact timer_askTimer_cancel (by omega) ticks p
    refine (delivered_idle (fun li hli => ?_) k hquiet).1
    rw [hnone] at hli
    cases hli
  · obtain ⟨k, hk⟩ := exists_delivered hlast (hnew hpos hticks) (hwait hpos) (period_ne_zero timeMS)
      hquiet ticks.toNat (.inr (by omega))
    refine ⟨k, fun k' hk' => ?_⟩
    have hmono := r.delivered_mono id (n + 1) hk'
    have hle := hmost hpos hticks k' (hquiet _)
    omega
  · refine exists_delivered hlast (left_asked hop hpos) (hwait hpos) (period_ne_zero timeMS) hquiet c
      (.inl ?_)
    split_ifs
    · omega
    · omega

/-- A timer that is not asked for any more sends what it is to send only in this way. -/
theorem counted_of_delivers (hlast : r.Lasting) (hop : r.op n = .askTimer id timeMS ticks p)
    (hticks : 0 < ticks ∨ ticks = -1) (hquiet : ∀ m, r.Quiet id (n + 1) m)
    (h : r.Delivers id timeMS ticks n) : r.Counted id timeMS ticks n := by
  by_cases hpos : 0 < timeMS.toInt
  · have hleft := left_asked hop hpos
    -- a time that never comes: nothing is sent
    have hwait : period timeMS ≠ WaitUpTime := by
      intro hwait
      have hidle : Idle ((r.state (n + 1)).timer id) := by
        intro li hli
        rw [hli] at hleft
        exact hleft.1.trans hwait
      rcases hticks with hfinite | hforever
      · obtain ⟨k, hk⟩ := h.exactly hpos hfinite hquiet
        have hzero := (delivered_idle hidle k (hquiet _)).1
        have hall := hk k (Nat.le_refl k)
        omega
      · obtain ⟨k, hk⟩ := h.always hpos hforever hquiet 1
        have hzero := (delivered_idle hidle k (hquiet _)).1
        omega
    refine .inr ⟨period_ne_waitUp.mp hwait, fun hfinite => ?_⟩
    -- a running timer sends one message more
    by_contra hrunning
    rw [if_neg hrunning] at hleft
    obtain ⟨k, hk⟩ := exists_delivered hlast hleft hwait (period_ne_zero timeMS) hquiet
      (ticks.toNat + 1) (.inr (by push_cast; omega))
    have hle := h.atMost hpos hfinite k (hquiet _)
    omega
  · exact .inl (Int.not_lt.mp hpos)

/-- Whatever is done with the timers before and after, an order is answered by as many messages as it
asks for if no running timer is asked for again with a number of ticks, and one that is not followed
by another order only then. -/
theorem delivers_iff_counted (hlast : r.Lasting) (hop : r.op n = .askTimer id timeMS ticks p)
    (hticks : 0 < ticks ∨ ticks = -1) :
    (r.Counted id timeMS ticks n → r.Delivers id timeMS ticks n) ∧
      ((∀ m, r.Quiet id (n + 1) m) →
        (r.Delivers id timeMS ticks n ↔ r.Counted id timeMS ticks n)) :=
  ⟨delivers_of_counted hlast hop, fun hquiet =>
    ⟨counted_of_delivers hlast hop hticks hquiet, delivers_of_counted hlast hop⟩⟩

end Ask

/-- An operation every 20 milliseconds: those of a list, then checks. -/
def every20 (ops : List TimerOp) : TimerRun := ⟨0, fun _ => 20000000, fun n => ops.getD n .checkTimers⟩

theorem every20_time (ops : List TimerOp) (n : Nat) : (every20 ops).time n = (n + 1) * 20000000 := by
  induction n with
  | zero =>
    change 0 + 20000000 = (0 + 1) * 20000000
    omega
  | succ n ih =>
    rw [time, ih]
    change (n + 1) * 20000000 + 20000000 = (n + 1 + 1) * 20000000
    omega

theorem every20_lasting (ops : List TimerOp) : (every20 ops).Lasting := by
  intro n T
  refine ⟨max n (max ops.length T), Nat.le_max_left _ _, ?_, ?_⟩
  · exact List.getD_eq_default _ _ (Nat.le_trans (Nat.le_max_left _ T) (Nat.le_max_right n _))
  · rw [every20_time]
    have hle := Nat.le_trans (Nat.le_max_right ops.length T) (Nat.le_max_right n _)
    omega

theorem delivers_two :
    ((every20 [.askTimer 1 20 2 .High]).Counted 1 20 2 0 →
      (every20 [.askTimer 1 20 2 .High]).Delivers 1 20 2 0) ∧
    ((∀ m, (every20 [.askTimer 1 20 2 .High]).Quiet 1 1 m) →
      ((every20 [.askTimer 1 20 2 .High]).Delivers 1 20 2 0 ↔
        (every20 [.askTimer 1 20 2 .High]).Counted 1 20 2 0)) :=
  @delivers_iff_counted (every20 [.askTimer 1 20 2 .High]) 1 0 20 2 .High (every20_lasting _) rfl
    (.inl (by decide))

/-- A timer that runs for ever is asked for one message more, and sends two. -/
theorem not_delivers_again : ¬∀ (r : TimerRun), r.Lasting → ∀ n id timeMS ticks p,
    r.op n = .askTimer id timeMS ticks p → 0 < ticks ∨ ticks = -1 →
    r.Delivers id timeMS ticks n := by
  intro hall
  let r := every20 [.askTimer 1 20 (-1) .High, .askTimer 1 20 1 .High]
  have hmost := (hall r (every20_lasting _) 1 1 20 1 .High rfl (.inl (by decide))).atMost (by decide)
    (by decide) 2
  have htwo : r.delivered 1 2 2 = 2 := by decide
  have hle := hmost fun j hj hlt timeMS ticks p => by
    have hcheck : r.op j = .checkTimers := List.getD_eq_default _ _ hj
    rw [hcheck]
    exact TimerOp.noConfusion
  rw [htwo] at hle
  exact absurd hle (by decide)

end TimerRun

end Uniset
