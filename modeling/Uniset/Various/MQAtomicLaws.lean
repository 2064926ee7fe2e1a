import Uniset.Various.MQAtomic
import Uniset.Lib.GuardedRun
import Uniset.Lib.Word64

/-! The ring is the bounded queue as long as no queued message loses its slot. -/

namespace Uniset.Various

open Uniset.Lib

namespace MQAtomic

variable {α : Type} {q : MQAtomic α} {vm : α} {items : List α} {pos : UInt64}

@[simp] theorem store_wpos : (q.store vm).wpos = q.wpos + 1 := rfl

@[simp] theorem store_rpos : (q.store vm).rpos = q.rpos := rfl

@[simp] theorem store_slot : (q.store vm).slot pos = q.slot pos := rfl

theorem store_mqueue (i : UInt64) :
    (q.store vm).mqueue i = if i = q.slot q.wpos then some vm else q.mqueue i :=
  Function.update_apply ..

/-- The items lie in the ring one after another from `pos` on. -/
def Holds (q : MQAtomic α) : UInt64 → List α → Prop
  | _, [] => True
  | pos, a :: items => q.mqueue (q.slot pos) = some a ∧ Holds q (pos + 1) items

theorem holds_append (a : α) : Holds q pos (items ++ [a]) ↔
    Holds q pos items ∧ q.mqueue (q.slot (pos + .ofNat items.length)) = some a := by
  induction items generalizing pos with
  | nil => simp [Holds]
  | cons b items ih =>
    have hpos : pos + 1 + UInt64.ofNat items.length = pos + .ofNat (items.length + 1) := by
      rw [UInt64.ofNat_add]
      grind
    rw [List.cons_append, Holds, Holds, ih, and_assoc, List.length_cons, hpos]

/-- A queue with the same ring up to one slot that none of the items has. -/
theorem Holds.congr {q' : MQAtomic α} (h : Holds q pos items)
    (hsize : q'.SizeOfMessageQueue = q.SizeOfMessageQueue)
    (hsame : ∀ k : Nat, k < items.length →
      q'.mqueue (q.slot (pos + .ofNat k)) = q.mqueue (q.slot (pos + .ofNat k))) :
    Holds q' pos items := by
  induction items generalizing pos with
  | nil => trivial
  | cons b items ih =>
    have hslot : ∀ p, q'.slot p = q.slot p := fun p => by rw [slot, slot, hsize]
    refine ⟨?_, ih h.2 fun k hk => ?_⟩
    · rw [hslot]
      have hzero : pos + UInt64.ofNat 0 = pos := UInt64.add_zero pos
      have hfirst := hsame 0 (Nat.zero_lt_succ _)
      rw [hzero] at hfirst
      exact hfirst.trans h.1
    · have hpos : pos + 1 + UInt64.ofNat k = pos + .ofNat (k + 1) := by
        rw [UInt64.ofNat_add]
        grind
      rw [hpos]
      exact hsame (k + 1) (Nat.succ_lt_succ hk)

/-- The queued messages are `items`.  Where the writers are ahead by more than the ring has,
these are its newest. -/
structure Represents (q : MQAtomic α) (qsize : QueueSize) (lostStrategy : LostStrategy)
    (items : List α) : Prop where
  size : q.SizeOfMessageQueue = qsize
  strategy : q.lostStrategy = lostStrategy
  settled : q.qpos = q.wpos
  length : items.length = min (q.wpos - q.rpos).toNat qsize.size.toNat
  refusing : lostStrategy = .lostNewData → (q.wpos - q.rpos).toNat ≤ qsize.size.toNat
  holds : Holds q (q.wpos - .ofNat items.length) items

/-- No queued message that is to stay has the slot of the next one. -/
def SlotFree (q : MQAtomic α) : Prop :=
  ∀ k : Nat, 0 < k → k ≤ (q.wpos - q.rpos).toNat → k < q.SizeOfMessageQueue.size.toNat →
    q.slot (q.wpos - .ofNat k) ≠ q.slot q.wpos

theorem store_holds (hfree : q.SlotFree) (hqueued : items.length ≤ (q.wpos - q.rpos).toNat)
    (hroom : items.length < q.SizeOfMessageQueue.size.toNat)
    (h : Holds q (q.wpos - .ofNat items.length) items) :
    Holds (q.store vm) (q.wpos + 1 - .ofNat (items.length + 1)) (items ++ [vm]) := by
  have hstart : q.wpos + 1 - UInt64.ofNat (items.length + 1) = q.wpos - .ofNat items.length := by
    rw [UInt64.ofNat_add]
    grind
  have hend : q.wpos - UInt64.ofNat items.length + .ofNat items.length = q.wpos := by grind
  rw [hstart, holds_append, hend]
  constructor
  · refine h.congr rfl fun k hk => ?_
    have hback : q.wpos - UInt64.ofNat items.length + .ofNat k =
        q.wpos - .ofNat (items.length - k) := by
      rw [UInt64.ofNat_sub (Nat.le_of_lt hk)]
      grind
    rw [hback, store_mqueue, if_neg (hfree _ (by omega) (by omega) (by omega))]
  · rw [store_slot, store_mqueue, if_pos rfl]

variable {qsize : QueueSize} {lostStrategy : LostStrategy}

theorem sub_toNat_succ {w r : UInt64} (h : w + 1 ≠ r) :
    (w + 1 - r).toNat = (w - r).toNat + 1 := by
  have hne : w - r + 1 ≠ 0 := fun hzero => h (by grind)
  have hsum : w + 1 - r = w - r + 1 := by grind
  have hlt : (w - r).toNat < 2 ^ 64 := (w - r).toNat_lt
  have hnat : (w - r).toNat + 1 ≠ 2 ^ 64 := by
    intro hmax
    apply hne
    apply UInt64.toNat_inj.mp
    rw [UInt64.toNat_add, UInt64.toNat_one, hmax]
    rfl
  rw [hsum, UInt64.toNat_add, UInt64.toNat_one, Nat.mod_eq_of_lt (by omega)]

theorem Represents.store (h : Represents q qsize lostStrategy items) (hfree : q.SlotFree)
    (hnext : q.wpos + 1 ≠ q.rpos) {kept : List α} (hkept : Holds q (q.wpos - .ofNat kept.length) kept)
    (hlength : kept.length + 1 = min ((q.wpos - q.rpos).toNat + 1) qsize.size.toNat)
    (hrefusing : lostStrategy = .lostNewData → (q.wpos - q.rpos).toNat < qsize.size.toNat) :
    Represents (q.store vm) qsize lostStrategy (kept ++ [vm]) where
  size := h.size
  strategy := h.strategy
  settled := congrArg (· + 1) h.settled
  length := by
    change _ = min (q.wpos + 1 - q.rpos).toNat _
    rw [sub_toNat_succ hnext, List.length_append, List.length_singleton, hlength]
  refusing hstrategy := by
    change (q.wpos + 1 - q.rpos).toNat ≤ _
    rw [sub_toNat_succ hnext]
    exact hrefusing hstrategy
  holds := by
    rw [List.length_append, List.length_singleton]
    refine store_holds hfree (by omega) ?_ hkept
    rw [h.size]
    omega

theorem next_ne_of_room {w r size : UInt64} (h : w - r < size) : w + 1 ≠ r := by
  intro hnext
  have hmax : w - r = 0 - 1 := by grind
  rw [hmax, UInt64.lt_iff_toNat_lt] at h
  have hsize : size.toNat < 2 ^ 64 := size.toNat_lt
  have hlast : (0 - 1 : UInt64).toNat = 2 ^ 64 - 1 := rfl
  omega

/-- The operation leaves a queue that represents the right messages. -/
def Keeps (q : MQAtomic α) : MQOp α → Prop
  | .push _ =>
    match q.lostStrategy with
    | .lostNewData =>
      q.wpos - q.rpos < q.SizeOfMessageQueue.size → ¬q.SlotsCrossed q.wpos q.rpos ∧ q.SlotFree
    | .lostOldData => q.wpos + 1 ≠ q.rpos ∧ q.SlotFree
  | .top =>
    q.lostStrategy = .lostOldData → q.catchUp.SlotsCrossed q.catchUp.qpos q.catchUp.rpos →
      q.catchUp.qpos - q.SizeOfMessageQueue.size = q.catchUp.rpos

theorem Represents.length_full (h : Represents q qsize lostStrategy items)
    (hfull : qsize.size ≤ q.wpos - q.rpos) : items.length = qsize.size.toNat := by
  rw [h.length]
  exact Nat.min_eq_right (UInt64.le_iff_toNat_le.mp hfull)

theorem Represents.length_room (h : Represents q qsize lostStrategy items)
    (hroom : q.wpos - q.rpos < qsize.size) : items.length = (q.wpos - q.rpos).toNat := by
  rw [h.length]
  exact Nat.min_eq_left (Nat.le_of_lt (UInt64.lt_iff_toNat_lt.mp hroom))

theorem Represents.store_room (h : Represents q qsize lostStrategy items) (hfree : q.SlotFree)
    (hroom : q.wpos - q.rpos < qsize.size) :
    Represents (q.store vm) qsize lostStrategy (items ++ [vm]) := by
  have hlt : (q.wpos - q.rpos).toNat < qsize.size.toNat := UInt64.lt_iff_toNat_lt.mp hroom
  refine h.store hfree (next_ne_of_room hroom) h.holds ?_ fun _ => hlt
  rw [h.length_room hroom]
  omega

theorem Represents.store_over (h : Represents q qsize .lostOldData items) (hfree : q.SlotFree)
    (hnext : q.wpos + 1 ≠ q.rpos) (hfull : qsize.size ≤ q.wpos - q.rpos) :
    Represents (q.store vm) qsize .lostOldData (items.tail ++ [vm]) := by
  have hlength := h.length_full hfull
  have hle : qsize.size.toNat ≤ (q.wpos - q.rpos).toNat := UInt64.le_iff_toNat_le.mp hfull
  have hpos : 0 < qsize.size.toNat := UInt64.lt_iff_toNat_lt.mp qsize.pos
  have hholds := h.holds
  cases items with
  | nil => exact absurd hlength (by simp; omega)
  | cons a items =>
    rw [List.length_cons] at hlength
    refine h.store hfree hnext ?_ (by simp only [List.tail_cons]; omega) (by simp)
    have hstart : q.wpos - UInt64.ofNat (items.length + 1) + 1 = q.wpos - .ofNat items.length := by
      rw [UInt64.ofNat_add]
      grind
    rw [List.length_cons] at hholds
    rw [List.tail_cons, ← hstart]
    exact hholds.2

theorem Represents.lose (h : Represents q qsize lostStrategy items) :
    Represents q.lose qsize lostStrategy items :=
  ⟨h.size, h.strategy, h.settled, h.length, h.refusing, h.holds.congr rfl fun _ _ => rfl⟩

theorem push_lostNewData (h : q.lostStrategy = .lostNewData) :
    q.push vm =
      if q.SizeOfMessageQueue.size ≤ q.wpos - q.rpos ∨ q.SlotsCrossed q.wpos q.rpos then
        (q.lose, false)
      else (q.store vm, true) := by
  simp only [push, h, true_and]
  by_cases hfull : q.SizeOfMessageQueue.size ≤ q.wpos - q.rpos
  · rw [if_pos hfull, if_pos (.inl hfull)]
  · rw [if_neg hfull]
    exact if_congr (or_iff_right hfull).symm rfl rfl

theorem push_lostOldData (h : q.lostStrategy = .lostOldData) : q.push vm = (q.store vm, true) := by
  simp [push, h]

theorem Represents.full_iff {b : BoundedQueue α qsize.size.toNat}
    (h : Represents q qsize lostStrategy b.items) : b.Full ↔ qsize.size ≤ q.wpos - q.rpos := by
  constructor
  · intro hfull
    have hlength : min (q.wpos - q.rpos).toNat qsize.size.toNat = qsize.size.toNat :=
      h.length.symm.trans hfull
    apply UInt64.le_iff_toNat_le.mpr
    omega
  · exact h.length_full

theorem push_represents {b : BoundedQueue α qsize.size.toNat}
    (h : Represents q qsize lostStrategy b.items) (hk : q.Keeps (.push vm)) :
    (q.step (.push vm)).2 = (lostStrategy.step b (.push vm)).2 ∧
      Represents (q.step (.push vm)).1 qsize lostStrategy (lostStrategy.step b (.push vm)).1.items := by
  have hsize := h.size
  have hstrategy := h.strategy
  cases lostStrategy with
  | lostNewData =>
    simp only [Keeps, hstrategy, hsize] at hk
    by_cases hfull : b.Full
    · have hcount : q.SizeOfMessageQueue.size ≤ q.wpos - q.rpos := hsize ▸ h.full_iff.mp hfull
      simp only [step, LostStrategy.step, push_lostNewData hstrategy, if_pos (Or.inl hcount),
        BoundedQueue.pushOrRefuse_of_full hfull, true_and]
      exact h.lose
    · have hroom : q.wpos - q.rpos < qsize.size := UInt64.not_le.mp (mt h.full_iff.mpr hfull)
      have hstored : q.push vm = (q.store vm, true) := by
        rw [push_lostNewData hstrategy, if_neg]
        exact not_or.mpr ⟨hsize ▸ UInt64.not_le.mpr hroom, (hk hroom).1⟩
      obtain ⟨hitems, hdone⟩ := BoundedQueue.pushOrRefuse_of_not_full (a := vm) hfull
      simp only [step, LostStrategy.step, hstored, hdone, hitems, true_and]
      exact h.store_room (hk hroom).2 hroom
  | lostOldData =>
    simp only [Keeps, hstrategy] at hk
    simp only [step, LostStrategy.step, push_lostOldData hstrategy, true_and]
    by_cases hfull : b.Full
    · rw [BoundedQueue.pushOver_of_full (UInt64.lt_iff_toNat_lt.mp qsize.pos) hfull]
      exact h.store_over hk.2 hk.1 (h.full_iff.mp hfull)
    · rw [BoundedQueue.pushOver_of_not_full hfull]
      exact h.store_room hk.2 (UInt64.not_le.mp (mt h.full_iff.mpr hfull))

/-- After the reader has caught up, it stands at the oldest queued message. -/
theorem catchUp_represents (h : Represents q qsize lostStrategy items) :
    Represents q.catchUp qsize lostStrategy items ∧
      (q.catchUp.wpos - q.catchUp.rpos).toNat = items.length := by
  by_cases hover : q.lostStrategy = .lostOldData ∧ q.SizeOfMessageQueue.size ≤ q.wpos - q.rpos
  · have hlength := h.length_full (h.size ▸ hover.2)
    have hcaught : q.catchUp = { q.lose with rpos := q.wpos - qsize.size } := by
      rw [catchUp, if_pos hover, h.size]
    have hback : q.wpos - (q.wpos - qsize.size) = qsize.size := by grind
    rw [hcaught]
    refine ⟨⟨h.size, h.strategy, h.settled, ?_, fun _ => ?_, h.holds.congr rfl fun _ _ => rfl⟩, ?_⟩
    · change _ = min (q.wpos - (q.wpos - qsize.size)).toNat _
      rw [hback, Nat.min_self, hlength]
    · change (q.wpos - (q.wpos - qsize.size)).toNat ≤ _
      exact Nat.le_of_eq (congrArg UInt64.toNat hback)
    · change (q.wpos - (q.wpos - qsize.size)).toNat = _
      rw [hback, hlength]
  · rw [catchUp, if_neg hover]
    refine ⟨h, ?_⟩
    rw [h.length]
    symm
    apply Nat.min_eq_left
    cases lostStrategy with
    | lostNewData => exact h.refusing rfl
    | lostOldData =>
      have hroom := UInt64.not_le.mp (not_and.mp hover h.strategy)
      exact Nat.le_of_lt (h.size ▸ UInt64.lt_iff_toNat_lt.mp hroom)

theorem take_represents {a : α} (h : Represents q qsize lostStrategy (a :: items))
    (hlength : (q.wpos - q.rpos).toNat = items.length + 1) :
    q.take.2 = some a ∧ Represents q.take.1 qsize lostStrategy items := by
  have hback : q.wpos - q.rpos = UInt64.ofNat (items.length + 1) := by
    rw [← hlength, UInt64.ofNat_toNat]
  have hrpos : q.wpos - UInt64.ofNat (items.length + 1) = q.rpos := by grind
  have hnext : q.wpos - (q.rpos + 1) = UInt64.ofNat items.length := by
    rw [UInt64.ofNat_add] at hback
    grind
  have hshort : items.length + 1 ≤ qsize.size.toNat := by
    have hmin := h.length
    rw [List.length_cons] at hmin
    omega
  have hnat : (q.wpos - (q.rpos + 1)).toNat = items.length := by
    have hsize := qsize.size.toNat_lt
    rw [hnext, UInt64.toNat_ofNat', Nat.mod_eq_of_lt (by omega)]
  have hholds := h.holds
  rw [List.length_cons, hrpos] at hholds
  refine ⟨hholds.1, h.size, h.strategy, h.settled, ?_, fun _ => ?_, ?_⟩
  · change _ = min (q.wpos - (q.rpos + 1)).toNat _
    omega
  · change (q.wpos - (q.rpos + 1)).toNat ≤ _
    omega
  · change Holds q.take.1 (q.wpos - _) items
    rw [← hnext]
    have hstart : q.wpos - (q.wpos - (q.rpos + 1)) = q.rpos + 1 := by grind
    rw [hstart]
    exact hholds.2.congr rfl fun _ _ => rfl

theorem top_represents {b : BoundedQueue α qsize.size.toNat}
    (h : Represents q qsize lostStrategy b.items) (hk : q.Keeps .top) :
    (q.step .top).2 = (lostStrategy.step b .top).2 ∧
      Represents (q.step .top).1 qsize lostStrategy (lostStrategy.step b .top).1.items := by
  obtain ⟨hcaught, hlength⟩ := catchUp_represents h
  have hsettled := hcaught.settled
  simp only [step, LostStrategy.step, BoundedQueue.pop]
  cases hitems : b.items with
  | nil =>
    rw [hitems] at hlength hcaught
    have hempty : q.catchUp.rpos = q.catchUp.qpos := by
      have hzero : q.catchUp.wpos - q.catchUp.rpos = 0 := UInt64.toNat_inj.mp hlength
      rw [hsettled]
      grind
    rw [top, if_pos hempty]
    exact ⟨rfl, hcaught⟩
  | cons a items =>
    rw [hitems] at hlength hcaught
    have hne : q.catchUp.rpos ≠ q.catchUp.qpos := by
      intro hempty
      rw [hempty, hsettled, UInt64.sub_self] at hlength
      cases hlength
    obtain ⟨hfirst, hrest⟩ := take_represents hcaught hlength
    rw [top, if_neg hne]
    split_ifs with hahead hcrossed
    · rw [hfirst]
      exact ⟨rfl, hrest⟩
    · have hstrategy : q.lostStrategy = .lostOldData :=
        h.strategy.trans (hcaught.strategy.symm.trans hcrossed.1)
      have hstays : q.catchUp.qpos - q.catchUp.SizeOfMessageQueue.size = q.catchUp.rpos := by
        rw [hcaught.size, ← h.size]
        exact hk hstrategy hcrossed.2
      rw [hstays]
      obtain ⟨hfirst, hrest⟩ := take_represents (q := q.catchUp.lose) hcaught.lose hlength
      exact ⟨congrArg MQResult.topped hfirst, hrest⟩
    · rw [hfirst]
      exact ⟨rfl, hrest⟩

/-- One operation returns what the bounded queue returns. -/
theorem step_represents {b : BoundedQueue α qsize.size.toNat} (op : MQOp α)
    (h : Represents q qsize lostStrategy b.items) (hk : q.Keeps op) :
    (q.step op).2 = (lostStrategy.step b op).2 ∧
      Represents (q.step op).1 qsize lostStrategy (lostStrategy.step b op).1.items := by
  cases op with
  | push vm => exact push_represents h hk
  | top => exact top_represents h hk

end MQAtomic

end Uniset.Various

/-! The atomic queue refines the bounded one, operation by operation. -/

namespace Uniset.Various

open Uniset.Lib

namespace MQAtomic

variable {α : Type} {q : MQAtomic α} {qsize : QueueSize} {lostStrategy : LostStrategy}
  {items : List α}

def next (q : MQAtomic α) (op : MQOp α) : MQAtomic α := (q.step op).1

theorem results_eq {b : BoundedQueue α qsize.size.toNat} {ops : List (MQOp α)}
    (h : Represents q qsize lostStrategy b.items) (hkeeps : Guarded next Keeps q ops) :
    results step q ops = results lostStrategy.step b ops := by
  induction ops generalizing q b with
  | nil => rfl
  | cons op ops ih =>
    obtain ⟨hresult, hnext⟩ := step_represents op h hkeeps.1
    rw [results, results, hresult, ih hnext hkeeps.2]

theorem new_represents (pos : UInt64) :
    Represents (new qsize lostStrategy pos : MQAtomic α) qsize lostStrategy
      (BoundedQueue.empty : BoundedQueue α qsize.size.toNat).items where
  size := rfl
  strategy := rfl
  settled := rfl
  length := by
    change 0 = min (pos - pos).toNat _
    rw [UInt64.sub_self]
    exact (Nat.zero_min _).symm
  refusing _ := by
    change (pos - pos).toNat ≤ _
    rw [UInt64.sub_self]
    exact Nat.zero_le _
  holds := trivial

/-- Whatever the size, the strategy and the position that the counters start from, a queue
whose operations all keep their messages returns what the bounded queue returns. -/
theorem results_bounded_fifo (qsize : QueueSize) (lostStrategy : LostStrategy) (pos : UInt64)
    (ops : List (MQOp α)) (hkeeps : Guarded next Keeps (new qsize lostStrategy pos) ops) :
    results step (new qsize lostStrategy pos) ops =
      results lostStrategy.step (BoundedQueue.empty : BoundedQueue α qsize.size.toNat) ops :=
  results_eq (new_represents pos) hkeeps

section dvd

/-! Where the size divides the range of the counters, their wrap is not felt. -/

variable (hdvd : qsize.size.toNat ∣ UInt64.size)

include hdvd

theorem slotFree_of_dvd (hsize : q.SizeOfMessageQueue = qsize) : q.SlotFree := by
  intro k hk _ hlt hslot
  rw [hsize] at hlt
  have hword : (UInt64.ofNat k).toNat = k := by
    have hrange := qsize.size.toNat_lt
    rw [UInt64.toNat_ofNat', Nat.mod_eq_of_lt (by omega)]
  have hback := toNat_sub_add_mod hdvd q.wpos (.ofNat k)
  have hsame : (q.wpos - UInt64.ofNat k).toNat % qsize.size.toNat =
      q.wpos.toNat % qsize.size.toNat := by
    rw [← UInt64.toNat_mod, ← UInt64.toNat_mod, ← hsize]
    exact congrArg UInt64.toNat hslot
  rw [hword, Nat.add_mod, hsame, ← Nat.add_mod] at hback
  have hzero := Nat.sub_mod_eq_zero_of_mod_eq hback
  rw [Nat.add_sub_cancel_left, Nat.mod_eq_of_lt hlt] at hzero
  omega

theorem not_slotsCrossed_of_dvd (hsize : q.SizeOfMessageQueue = qsize) {w r : UInt64}
    (hle : w - r ≤ qsize.size) : ¬q.SlotsCrossed w r := by
  rintro ⟨hlt, hcrossed⟩
  rw [UInt64.lt_iff_toNat_lt] at hlt
  rw [hsize, UInt64.le_iff_toNat_le] at hcrossed
  have hpos : 0 < qsize.size.toNat := UInt64.lt_iff_toNat_lt.mp qsize.pos
  have hslot : ∀ p, (q.slot p).toNat = p.toNat % qsize.size.toNat := fun p => by
    rw [slot, hsize, UInt64.toNat_mod]
  have hrange := r.toNat_lt
  have hdist : 2 ^ 64 - r.toNat + w.toNat ≤ qsize.size.toNat := by
    rw [UInt64.le_iff_toNat_le, UInt64.toNat_sub, Nat.mod_eq_of_lt (by omega)] at hle
    exact hle
  have hr : r.toNat % qsize.size.toNat = (qsize.size.toNat - (2 ^ 64 - r.toNat)) % qsize.size.toNat := by
    obtain ⟨m, hm⟩ := hdvd
    rw [UInt64.size] at hm
    cases m with
    | zero => omega
    | succ m =>
      have hsplit : r.toNat = qsize.size.toNat * m + (qsize.size.toNat - (2 ^ 64 - r.toNat)) := by
        rw [Nat.mul_succ] at hm
        omega
      conv_lhs => rw [hsplit, Nat.mul_add_mod]
  have hw : (q.slot w).toNat ≤ (q.slot r).toNat := by
    rw [hslot, hslot, hr]
    by_cases hzero : w.toNat = 0
    · rw [hzero, Nat.zero_mod]
      exact Nat.zero_le _
    · rw [Nat.mod_eq_of_lt (by omega), Nat.mod_eq_of_lt (by omega)]
      omega
  have hsub : (q.slot r - q.slot w).toNat = (q.slot r).toNat - (q.slot w).toNat :=
    UInt64.toNat_sub_of_le _ _ (UInt64.le_iff_toNat_le.mpr hw)
  have hslotr : (q.slot r).toNat < qsize.size.toNat := hslot r ▸ Nat.mod_lt _ hpos
  omega

theorem keeps_of_dvd (h : Represents q qsize lostStrategy items) (op : MQOp α)
    (hnext : lostStrategy = .lostOldData → q.wpos + 1 ≠ q.rpos) : q.Keeps op := by
  cases op with
  | push vm =>
    simp only [Keeps, h.strategy]
    cases lostStrategy with
    | lostNewData =>
      refine fun hroom => ⟨not_slotsCrossed_of_dvd hdvd h.size ?_, slotFree_of_dvd hdvd h.size⟩
      rw [h.size] at hroom
      exact UInt64.le_of_lt hroom
    | lostOldData => exact ⟨hnext rfl, slotFree_of_dvd hdvd h.size⟩
  | top =>
    intro _ hcrossed
    obtain ⟨hcaught, hlength⟩ := catchUp_represents h
    refine absurd hcrossed (not_slotsCrossed_of_dvd hdvd hcaught.size ?_)
    rw [hcaught.settled, UInt64.le_iff_toNat_le, hlength, h.length]
    exact Nat.min_le_right ..

/-- A queue that refuses what does not fit keeps its messages in every run. -/
theorem guarded_of_dvd {b : BoundedQueue α qsize.size.toNat} (ops : List (MQOp α))
    (h : Represents q qsize .lostNewData b.items) : Guarded next Keeps q ops := by
  induction ops generalizing q b with
  | nil => trivial
  | cons op ops ih =>
    have hkeeps : q.Keeps op := keeps_of_dvd hdvd h op (by simp)
    exact ⟨hkeeps, ih (step_represents op h hkeeps).2⟩

end dvd

/-- Four slots, and the positions wrap after the first message. -/
theorem results_bounded_fifo_wrap :
    results step (new ⟨4, by decide⟩ .lostNewData (0 - 1))
        [.push 100, .push 110, .push 120, .top, .top, .top] =
      results LostStrategy.lostNewData.step (BoundedQueue.empty : BoundedQueue Nat 4)
        [.push 100, .push 110, .push 120, .top, .top, .top] :=
  results_bounded_fifo ⟨4, by decide⟩ .lostNewData (0 - 1) _
    (guarded_of_dvd (by decide) _ (new_represents _))

/-- Three slots: the last position before the wrap and the first one after it share a slot. -/
theorem results_not_bounded_fifo :
    ¬∀ (qsize : QueueSize) (lostStrategy : LostStrategy) (pos : UInt64) (ops : List (MQOp Nat)),
      results step (new qsize lostStrategy pos) ops =
        results lostStrategy.step (BoundedQueue.empty : BoundedQueue Nat qsize.size.toNat) ops := by
  intro hall
  have hthree := hall ⟨3, by decide⟩ .lostOldData (0 - 1) [.push 100, .push 110, .top]
  exact absurd hthree (by decide)

end MQAtomic

end Uniset.Various
