import Uniset.Various.MQAtomicLaws
import Uniset.Various.MQAtomic
import Uniset.Lib.Word64

/-! What the queues count as lost, against what was pushed, returned and is still queued. -/

namespace Uniset.Various

open Uniset.Lib

/-- A queue with the number of messages pushed to it and of those returned by it. -/
structure Tally (σ : Type) where
  queue : σ
  pushes : Nat
  returned : Nat

def Tally.new {σ : Type} (queue : σ) : Tally σ := ⟨queue, 0, 0⟩

variable {α : Type}

namespace MQAtomic

/-- The positions of the queued messages are at most a ring apart, and their slots are set. -/
structure Ring (q : MQAtomic α) : Prop where
  settled : q.qpos = q.wpos
  bounded : q.wpos - q.rpos ≤ q.SizeOfMessageQueue.size
  filled : ∀ k : Nat, k < (q.wpos - q.rpos).toNat →
    (q.mqueue (q.slot (q.rpos + .ofNat k))).isSome

variable {q : MQAtomic α} {vm : α}

theorem new_ring (qsize : QueueSize) (lostStrategy : LostStrategy) (pos : UInt64) :
    Ring (new qsize lostStrategy pos : MQAtomic α) where
  settled := rfl
  bounded := by
    change pos - pos ≤ _
    rw [UInt64.sub_self]
    exact UInt64.le_of_lt qsize.pos
  filled k hk := by
    change k < (pos - pos).toNat at hk
    rw [UInt64.sub_self] at hk
    cases hk

theorem Ring.size_eq (h : q.Ring) : q.size = q.wpos - q.rpos := by
  unfold size
  split_ifs with hfull
  · exact UInt64.le_antisymm hfull h.bounded
  · rw [h.settled]

theorem Ring.lose (h : q.Ring) : q.lose.Ring := ⟨h.settled, h.bounded, h.filled⟩

theorem Ring.store (h : q.Ring) (hroom : q.wpos - q.rpos < q.SizeOfMessageQueue.size) :
    (q.store vm).Ring ∧ (q.store vm).size.toNat = q.size.toNat + 1 := by
  have hnext := sub_toNat_succ (next_ne_of_room hroom)
  have hlt := UInt64.lt_iff_toNat_lt.mp hroom
  have hring : (q.store vm).Ring := by
    refine ⟨congrArg (· + 1) h.settled, ?_, fun k hk => ?_⟩
    · change q.wpos + 1 - q.rpos ≤ q.SizeOfMessageQueue.size
      rw [UInt64.le_iff_toNat_le, hnext]
      exact hlt
    · rw [store_slot, store_rpos, store_mqueue]
      split_ifs with hslot
      · rfl
      · apply h.filled
        change k < (q.wpos + 1 - q.rpos).toNat at hk
        rw [hnext] at hk
        have hne : k ≠ (q.wpos - q.rpos).toNat := by
          rintro rfl
          apply hslot
          rw [UInt64.ofNat_toNat]
          congr 1
          grind
        omega
  refine ⟨hring, ?_⟩
  rw [hring.size_eq, h.size_eq]
  exact hnext

theorem Ring.take (h : q.Ring) (hne : q.rpos ≠ q.qpos) :
    q.take.1.Ring ∧ q.take.2.isSome ∧ q.take.1.size.toNat + 1 = q.size.toNat := by
  rw [h.settled] at hne
  have hsucc : (q.wpos - q.rpos).toNat = (q.wpos - (q.rpos + 1)).toNat + 1 := by
    have hpre : q.wpos - q.rpos = (q.wpos - (q.rpos + 1)) + 1 - 0 := by grind
    rw [hpre, sub_toNat_succ (by grind), UInt64.sub_zero]
  have hring : q.take.1.Ring := by
    refine ⟨h.settled, ?_, fun k hk => ?_⟩
    · change q.wpos - (q.rpos + 1) ≤ q.SizeOfMessageQueue.size
      have hle := UInt64.le_iff_toNat_le.mp h.bounded
      rw [UInt64.le_iff_toNat_le]
      omega
    · have hfilled := h.filled (k + 1) (by
        change k < (q.wpos - (q.rpos + 1)).toNat at hk
        omega)
      have hpos : q.rpos + UInt64.ofNat (k + 1) = q.rpos + 1 + .ofNat k := by
        rw [UInt64.ofNat_add]
        grind
      rw [hpos] at hfilled
      exact hfilled
  refine ⟨hring, ?_, ?_⟩
  · have hfirst := h.filled 0 (by omega)
    have hzero : q.rpos + UInt64.ofNat 0 = q.rpos := UInt64.add_zero _
    rw [hzero] at hfirst
    exact hfirst
  · rw [hring.size_eq, h.size_eq]
    exact hsucc.symm

/-- The tally after an operation. -/
def tally (t : Tally (MQAtomic α)) : MQOp α → Tally (MQAtomic α)
  | .push vm => { t with queue := (t.queue.push vm).1, pushes := t.pushes + 1 }
  | .top =>
    { t with
      queue := t.queue.top.1
      returned := t.returned + if t.queue.top.2.isSome then 1 else 0 }

def Accounted (t : Tally (MQAtomic α)) : Prop :=
  t.pushes = t.returned + t.queue.size.toNat + t.queue.stCountOfLostMessages.toNat

instance (t : Tally (MQAtomic α)) : Decidable (Accounted t) := inferInstanceAs (Decidable (_ = _))

/-- The operation counts one lost message for each one that it loses.  Old messages are lost
at a full queue, where they are counted by the overruns that the reader meets. -/
def Counts (q : MQAtomic α) : MQOp α → Prop
  | .push _ =>
    match q.lostStrategy with
    | .lostNewData =>
      q.SizeOfMessageQueue.size ≤ q.wpos - q.rpos ∨ q.SlotsCrossed q.wpos q.rpos →
        q.stCountOfLostMessages + 1 ≠ 0
    | .lostOldData => q.wpos - q.rpos < q.SizeOfMessageQueue.size
  | .top =>
    q.lostStrategy = .lostOldData →
      q.wpos - q.rpos < q.SizeOfMessageQueue.size ∧ ¬q.SlotsCrossed q.qpos q.rpos

theorem lose_toNat (q : MQAtomic α) :
    q.lose.stCountOfLostMessages.toNat = (q.stCountOfLostMessages.toNat + 1) % UInt64.size := by
  change (q.stCountOfLostMessages + 1).toNat = _
  rw [UInt64.toNat_add]
  rfl

theorem size_le (hsettled : q.qpos = q.wpos) : q.size ≤ q.SizeOfMessageQueue.size := by
  unfold size
  split_ifs with hfull
  · exact UInt64.le_refl _
  · rw [hsettled]
    exact UInt64.le_of_lt (UInt64.not_le.mp hfull)

theorem push_accounted_iff {t : Tally (MQAtomic α)} (h : t.queue.Ring) (ha : Accounted t) :
    Accounted (tally t (.push vm)) ↔ t.queue.Counts (.push vm) := by
  unfold Accounted at ha ⊢
  simp only [tally]
  cases hstrategy : t.queue.lostStrategy with
  | lostNewData =>
    simp only [Counts, hstrategy, push_lostNewData hstrategy]
    split_ifs with hrefused
    · rw [imp_iff_right hrefused, ← toNat_add_one_iff]
      change t.pushes + 1 = t.returned + t.queue.size.toNat +
        (t.queue.stCountOfLostMessages + 1).toNat ↔ _
      omega
    · have hroom := UInt64.not_le.mp (not_or.mp hrefused).1
      have hstore : (t.queue.store vm).size.toNat = t.queue.size.toNat + 1 := (h.store hroom).2
      refine iff_of_true ?_ fun h => absurd h hrefused
      rw [hstore]
      change _ = _ + t.queue.stCountOfLostMessages.toNat
      omega
  | lostOldData =>
    simp only [Counts, hstrategy, push_lostOldData hstrategy]
    by_cases hroom : t.queue.wpos - t.queue.rpos < t.queue.SizeOfMessageQueue.size
    · refine iff_of_true ?_ hroom
      rw [(h.store hroom).2]
      change _ = _ + t.queue.stCountOfLostMessages.toNat
      omega
    · refine iff_of_false ?_ hroom
      have hsettled : (t.queue.store vm).qpos = (t.queue.store vm).wpos :=
        congrArg (· + 1) h.settled
      have hle := UInt64.le_iff_toNat_le.mp (size_le hsettled)
      have hfull := UInt64.le_iff_toNat_le.mp (UInt64.not_lt.mp hroom)
      change _ ≤ t.queue.SizeOfMessageQueue.size.toNat at hle
      rw [h.size_eq] at ha
      change ¬_ = _ + t.queue.stCountOfLostMessages.toNat
      omega

theorem Ring.catchUp_of_full (h : q.Ring) (hstrategy : q.lostStrategy = .lostOldData)
    (hfull : q.SizeOfMessageQueue.size ≤ q.wpos - q.rpos) : q.catchUp = q.lose := by
  have hdist : q.wpos - q.rpos = q.SizeOfMessageQueue.size := UInt64.le_antisymm h.bounded hfull
  have hrpos : q.wpos - q.SizeOfMessageQueue.size = q.rpos := by
    rw [← hdist]
    grind
  rw [catchUp, if_pos ⟨hstrategy, hfull⟩, hrpos]
  rfl

theorem catchUp_of_room (hroom : q.lostStrategy = .lostOldData →
    q.wpos - q.rpos < q.SizeOfMessageQueue.size) : q.catchUp = q :=
  if_neg fun ⟨hstrategy, hfull⟩ => UInt64.not_le.mpr (hroom hstrategy) hfull

theorem Ring.rpos_ne_of_full (h : q.Ring) (hfull : q.SizeOfMessageQueue.size ≤ q.wpos - q.rpos) :
    q.rpos ≠ q.qpos := by
  intro hempty
  rw [hempty, h.settled, UInt64.sub_self] at hfull
  exact UInt64.not_le.mpr q.SizeOfMessageQueue.pos hfull

/-- At a full queue the reader moves no further than the queue has been counted to be. -/
theorem Ring.top_of_full (h : q.Ring) (hstrategy : q.lostStrategy = .lostOldData)
    (hfull : q.SizeOfMessageQueue.size ≤ q.wpos - q.rpos) :
    q.top = q.lose.take ∨ q.top = q.lose.lose.take := by
  have hne := h.rpos_ne_of_full hfull
  have hdist : q.wpos - q.rpos = q.SizeOfMessageQueue.size := UInt64.le_antisymm h.bounded hfull
  have hrpos : q.qpos - q.SizeOfMessageQueue.size = q.rpos := by
    rw [← hdist, h.settled]
    grind
  unfold top
  rw [h.catchUp_of_full hstrategy hfull]
  change (if q.rpos = q.qpos then _ else _) = _ ∨ (if q.rpos = q.qpos then _ else _) = _
  rw [if_neg hne]
  split_ifs
  · exact .inl rfl
  · right
    change ({ q.lose.lose with rpos := q.qpos - q.SizeOfMessageQueue.size } : MQAtomic α).take = _
    rw [hrpos]
    rfl
  · exact .inl rfl

theorem top_of_room (hroom : q.lostStrategy = .lostOldData →
      q.wpos - q.rpos < q.SizeOfMessageQueue.size) :
    q.top =
      if q.rpos = q.qpos then (q, none)
      else if q.lostStrategy = .lostOldData ∧ q.SlotsCrossed q.qpos q.rpos then
        { q.lose with rpos := q.qpos - q.SizeOfMessageQueue.size }.take
      else q.take := by
  unfold top
  rw [catchUp_of_room hroom]
  by_cases hahead : q.rpos < q.qpos
  · have hne : q.rpos ≠ q.qpos := UInt64.ne_of_lt hahead
    have hcrossed : ¬(q.lostStrategy = .lostOldData ∧ q.SlotsCrossed q.qpos q.rpos) := fun h =>
      UInt64.lt_asymm hahead h.2.1
    simp only [if_pos hahead, if_neg hne, if_neg hcrossed]
  · simp only [if_neg hahead]

/-- A reader set back by a whole ring. -/
theorem Ring.back_size (h : q.Ring) :
    ({ q.lose with rpos := q.qpos - q.SizeOfMessageQueue.size } : MQAtomic α).take.1.size.toNat + 1 =
      q.SizeOfMessageQueue.size.toNat := by
  have hpos := UInt64.lt_iff_toNat_lt.mp q.SizeOfMessageQueue.pos
  have hdist : q.wpos - (q.qpos - q.SizeOfMessageQueue.size + 1) = q.SizeOfMessageQueue.size - 1 := by
    rw [h.settled]
    grind
  have hone : (q.SizeOfMessageQueue.size - 1).toNat = q.SizeOfMessageQueue.size.toNat - 1 := by
    rw [UInt64.toNat_sub_of_le]
    · rfl
    · exact UInt64.le_iff_toNat_le.mpr hpos
  change (if q.SizeOfMessageQueue.size ≤ q.wpos - (q.qpos - q.SizeOfMessageQueue.size + 1) then
    q.SizeOfMessageQueue.size else q.qpos - (q.qpos - q.SizeOfMessageQueue.size + 1)).toNat + 1 = _
  rw [← h.settled] at hdist
  rw [← h.settled, hdist, if_neg, hone]
  · omega
  · rw [UInt64.le_iff_toNat_le, hone]
    omega

theorem top_accounted_iff {t : Tally (MQAtomic α)} (h : t.queue.Ring) (ha : Accounted t) :
    Accounted (tally t .top) ↔ t.queue.Counts .top := by
  unfold Accounted at ha ⊢
  simp only [tally, Counts]
  have hlose := lose_toNat t.queue
  have hlose₂ := lose_toNat t.queue.lose
  rw [UInt64.size] at hlose hlose₂
  by_cases hlost : t.queue.lostStrategy = .lostOldData ∧
      t.queue.SizeOfMessageQueue.size ≤ t.queue.wpos - t.queue.rpos
  · refine iff_of_false ?_ fun hc => UInt64.not_le.mpr (hc hlost.1).1 hlost.2
    have hne : t.queue.rpos ≠ t.queue.qpos := h.rpos_ne_of_full hlost.2
    rcases h.top_of_full hlost.1 hlost.2 with htop | htop
    · obtain ⟨-, hsome, hsize⟩ := h.lose.take hne
      rw [htop, if_pos hsome]
      change ¬_ = _ + t.queue.lose.stCountOfLostMessages.toNat
      change _ = t.queue.size.toNat at hsize
      omega
    · obtain ⟨-, hsome, hsize⟩ := h.lose.lose.take hne
      rw [htop, if_pos hsome]
      change ¬_ = _ + t.queue.lose.lose.stCountOfLostMessages.toNat
      change _ = t.queue.size.toNat at hsize
      omega
  · have hroom : t.queue.lostStrategy = .lostOldData →
        t.queue.wpos - t.queue.rpos < t.queue.SizeOfMessageQueue.size := fun hstrategy =>
      UInt64.not_le.mp (not_and.mp hlost hstrategy)
    rw [top_of_room hroom]
    by_cases hempty : t.queue.rpos = t.queue.qpos
    · rw [if_pos hempty]
      refine iff_of_true ha fun hstrategy => ⟨hroom hstrategy, fun hcrossed => ?_⟩
      exact UInt64.ne_of_lt hcrossed.1 hempty.symm
    rw [if_neg hempty]
    by_cases hcrossed : t.queue.lostStrategy = .lostOldData ∧
        t.queue.SlotsCrossed t.queue.qpos t.queue.rpos
    · rw [if_pos hcrossed]
      refine iff_of_false ?_ fun hc => (hc hcrossed.1).2 hcrossed.2
      have hback := h.back_size
      have hlt := UInt64.lt_iff_toNat_lt.mp (hroom hcrossed.1)
      have hsize := t.queue.SizeOfMessageQueue.size.toNat_lt
      have hqueued : (t.queue.wpos - t.queue.rpos).toNat ≠ 0 := by
        intro hzero
        have hdist : t.queue.wpos - t.queue.rpos = 0 := UInt64.toNat_inj.mp hzero
        apply hempty
        rw [h.settled]
        grind
      rw [h.size_eq] at ha
      change ¬_ = _ + t.queue.lose.stCountOfLostMessages.toNat
      split_ifs <;> omega
    · rw [if_neg hcrossed]
      refine iff_of_true ?_ fun hstrategy => ⟨hroom hstrategy, fun hc => hcrossed ⟨hstrategy, hc⟩⟩
      obtain ⟨-, hsome, hsize⟩ := h.take hempty
      rw [if_pos hsome]
      change _ = _ + t.queue.stCountOfLostMessages.toNat
      omega

theorem tally_ring {t : Tally (MQAtomic α)} (op : MQOp α) (h : t.queue.Ring)
    (hcounts : t.queue.Counts op) : (tally t op).queue.Ring := by
  cases op with
  | push vm =>
    cases hstrategy : t.queue.lostStrategy with
    | lostNewData =>
      simp only [tally, push_lostNewData hstrategy]
      split_ifs with hrefused
      · exact h.lose
      · exact (h.store (UInt64.not_le.mp (not_or.mp hrefused).1)).1
    | lostOldData =>
      simp only [Counts, hstrategy] at hcounts
      simp only [tally, push_lostOldData hstrategy]
      exact (h.store hcounts).1
  | top =>
    simp only [tally, top_of_room fun hstrategy => (hcounts hstrategy).1]
    split_ifs with hempty hcrossed
    · exact h
    · exact absurd hcrossed.2 (hcounts hcrossed.1).2
    · exact (h.take hempty).1

theorem tally_accounted_iff {t : Tally (MQAtomic α)} (op : MQOp α) (h : t.queue.Ring)
    (ha : Accounted t) : Accounted (tally t op) ↔ t.queue.Counts op := by
  cases op with
  | push vm => exact push_accounted_iff h ha
  | top => exact top_accounted_iff h ha

end MQAtomic

namespace MQMutex

/-- The tally of a queue under a mutex.  It notes whether every push has left the queue within
the largest size. -/
structure MutexTally (α : Type) extends Tally (MQMutex α) where
  within : Bool

def MutexTally.new (queue : MQMutex α) : MutexTally α := ⟨Tally.new queue, true⟩

def tally (t : MutexTally α) : MutexOp α → MutexTally α
  | .push vm =>
    let queue := t.queue.push vm
    { t with
      queue
      pushes := t.pushes + 1
      within := t.within && decide (queue.mqueue.length ≤ queue.SizeOfMessageQueue.size.toNat) }
  | .top =>
    { t with
      queue := t.queue.top.1
      returned := t.returned + if t.queue.top.2.isSome then 1 else 0 }
  | .setMaxSizeOfMessageQueue s => { t with queue := t.queue.setMaxSizeOfMessageQueue s }

def Accounted (t : MutexTally α) : Prop :=
  t.pushes = t.returned + t.queue.mqueue.length + t.queue.stCountOfLostMessages.toNat ∧
    t.within = true

instance (t : MutexTally α) : Decidable (Accounted t) := inferInstanceAs (Decidable (_ ∧ _))

/-- A push comes when the queue is within the largest size, so that one message makes room
enough. -/
def Counts (q : MQMutex α) : MutexOp α → Prop
  | .push _ =>
    q.mqueue.length ≤ q.SizeOfMessageQueue.size.toNat ∧
      (q.mqueue.length = q.SizeOfMessageQueue.size.toNat → q.stCountOfLostMessages + 1 ≠ 0)
  | _ => True

theorem push_accounted_iff {t : MutexTally α} (vm : α) (ha : Accounted t) :
    Accounted (tally t (.push vm)) ↔ t.queue.Counts (.push vm) := by
  obtain ⟨hcount, hwithin⟩ := ha
  have hpos : 0 < t.queue.SizeOfMessageQueue.size.toNat :=
    UInt64.lt_iff_toNat_lt.mp t.queue.SizeOfMessageQueue.pos
  have hlose : (t.queue.stCountOfLostMessages + 1).toNat =
      t.queue.stCountOfLostMessages.toNat + 1 ↔ t.queue.stCountOfLostMessages + 1 ≠ 0 :=
    toNat_add_one_iff _
  simp only [Accounted, tally, Counts, hwithin, Bool.true_and, decide_eq_true_eq]
  unfold push
  split_ifs with hfull
  · cases t.queue.lostStrategy with
    | lostNewData =>
      change t.pushes + 1 = t.returned + t.queue.mqueue.length +
        (t.queue.stCountOfLostMessages + 1).toNat ∧
          t.queue.mqueue.length ≤ t.queue.SizeOfMessageQueue.size.toNat ↔ _
      rw [← hlose]
      omega
    | lostOldData =>
      change t.pushes + 1 = t.returned + (t.queue.mqueue.tail ++ [vm]).length +
        (t.queue.stCountOfLostMessages + 1).toNat ∧
          (t.queue.mqueue.tail ++ [vm]).length ≤ t.queue.SizeOfMessageQueue.size.toNat ↔ _
      rw [← hlose, List.length_append, List.length_tail, List.length_singleton]
      omega
  · change t.pushes + 1 = t.returned + (t.queue.mqueue ++ [vm]).length +
      t.queue.stCountOfLostMessages.toNat ∧
        (t.queue.mqueue ++ [vm]).length ≤ t.queue.SizeOfMessageQueue.size.toNat ↔ _
    rw [← hlose, List.length_append, List.length_singleton]
    omega

theorem head_add_tail (l : List α) : (if l.head?.isSome then 1 else 0) + l.tail.length = l.length := by
  cases l with
  | nil => rfl
  | cons a l =>
    simp only [List.head?_cons, Option.isSome_some, if_true, List.tail_cons, List.length_cons]
    exact Nat.add_comm 1 _

theorem tally_accounted_iff {t : MutexTally α} (op : MutexOp α) (ha : Accounted t) :
    Accounted (tally t op) ↔ t.queue.Counts op := by
  cases op with
  | push vm => exact push_accounted_iff vm ha
  | top =>
    refine iff_of_true ⟨?_, ha.2⟩ trivial
    have hcount := ha.1
    have hsplit := head_add_tail t.queue.mqueue
    simp only [tally, top]
    rw [hcount, ← hsplit]
    exact congrArg (· + _) (Nat.add_assoc ..).symm
  | setMaxSizeOfMessageQueue s => exact iff_of_true ha trivial

end MQMutex

/-- The atomic queue accounts for every message in every state of a run if and only if every
operation counts what it loses, and so does the queue under a mutex, which then also keeps
within its largest size. -/
theorem messages_accounted (lostStrategy : LostStrategy) (qsize : QueueSize) :
    (∀ ops : List (MQOp α),
      (∀ t ∈ List.scanl MQAtomic.tally (.new (.new qsize lostStrategy 0)) ops,
        MQAtomic.Accounted t) ↔
        Guarded MQAtomic.tally (fun t => t.queue.Counts) (.new (.new qsize lostStrategy 0)) ops) ∧
    ∀ ops : List (MutexOp α),
      (∀ t ∈ List.scanl MQMutex.tally (.new (.new qsize lostStrategy)) ops,
        MQMutex.Accounted t) ↔
        Guarded MQMutex.tally (fun t => t.queue.Counts) (.new (.new qsize lostStrategy)) ops := by
  constructor
  · intro ops
    have hring : (MQAtomic.new qsize lostStrategy 0 : MQAtomic α).Ring :=
      MQAtomic.new_ring qsize lostStrategy 0
    refine forall_visited_iff_guarded_of_invariant (I := fun t => t.queue.Ring)
      (fun t op h _ hG => MQAtomic.tally_ring op h hG)
      (fun t op h ha => MQAtomic.tally_accounted_iff op h ha) hring ?_ ops
    rw [MQAtomic.Accounted, Tally.new, hring.size_eq]
    change 0 = 0 + ((0 : UInt64) - 0).toNat + (0 : UInt64).toNat
    rw [UInt64.sub_self]
    rfl
  · intro ops
    exact forall_visited_iff_guarded (fun t op ha => MQMutex.tally_accounted_iff op ha)
      ⟨rfl, rfl⟩ ops

/-- A reader that comes to an exactly full ring counts a lost message, and a size set below the
number of queued messages is not kept by the next push. -/
theorem messages_not_accounted :
    (¬∀ (lostStrategy : LostStrategy) (qsize : QueueSize) (ops : List (MQOp Nat)),
      ∀ t ∈ List.scanl MQAtomic.tally (.new (.new qsize lostStrategy 0)) ops,
        MQAtomic.Accounted t) ∧
    ¬∀ (lostStrategy : LostStrategy) (qsize : QueueSize) (ops : List (MutexOp Nat)),
      ∀ t ∈ List.scanl MQMutex.tally (.new (.new qsize lostStrategy)) ops,
        MQMutex.Accounted t := by
  constructor
  · intro hall
    have hfull := hall .lostOldData ⟨2, by decide⟩ [.push 100, .push 110, .top]
    exact absurd hfull (by decide)
  · intro hall
    have hshrunk := hall .lostNewData ⟨2, by decide⟩
      [.push 100, .push 110, .setMaxSizeOfMessageQueue ⟨1, by decide⟩, .push 120]
    exact absurd hshrunk (by decide)

end Uniset.Various
