import Mathlib.Logic.Function.Basic
import Uniset.Lib.BoundedQueue

/-! The message queue on a ring of slots and free-running counters, its operations called one
after another. -/

namespace Uniset.Various

open Uniset.Lib

inductive LostStrategy
  | lostOldData
  | lostNewData
  deriving DecidableEq

/-- A size that leaves room for a message. -/
structure QueueSize where
  size : UInt64
  pos : 0 < size

structure MQAtomic (α : Type) where
  mqueue : UInt64 → Option α
  /-- the position to write -/
  wpos : UInt64
  /-- the position to read -/
  rpos : UInt64
  /-- the position after the last stored message -/
  qpos : UInt64
  lostStrategy : LostStrategy
  SizeOfMessageQueue : QueueSize
  stMaxQueueMessages : UInt64
  stCountOfLostMessages : UInt64

namespace MQAtomic

variable {α : Type}

/-- A new queue, its positions set by `set_wpos` and `set_rpos`. -/
def new (qsize : QueueSize) (lostStrategy : LostStrategy) (pos : UInt64) : MQAtomic α where
  mqueue := fun _ => none
  wpos := pos
  rpos := pos
  qpos := pos
  lostStrategy := lostStrategy
  SizeOfMessageQueue := qsize
  stMaxQueueMessages := 0
  stCountOfLostMessages := 0

variable (q : MQAtomic α)

def slot (pos : UInt64) : UInt64 := pos % q.SizeOfMessageQueue.size

/-- The position behind the reader's is found ahead of it in the ring.  Once the write position
has passed the maximum, this is asked with positions that are no longer apart by their slots. -/
def SlotsCrossed (w r : UInt64) : Prop :=
  w < r ∧ q.SizeOfMessageQueue.size ≤ q.slot r - q.slot w

instance (w r : UInt64) : Decidable (q.SlotsCrossed w r) := inferInstanceAs (Decidable (_ ∧ _))

def lose : MQAtomic α := { q with stCountOfLostMessages := q.stCountOfLostMessages + 1 }

def store (vm : α) : MQAtomic α :=
  let q :=
    { q with
      wpos := q.wpos + 1
      mqueue := Function.update q.mqueue (q.slot q.wpos) (some vm)
      qpos := q.qpos + 1 }
  let sz := q.qpos - q.rpos
  { q with stMaxQueueMessages := if sz > q.stMaxQueueMessages then sz else q.stMaxQueueMessages }

def push (vm : α) : MQAtomic α × Bool :=
  if q.lostStrategy = .lostNewData ∧ q.SizeOfMessageQueue.size ≤ q.wpos - q.rpos then
    (q.lose, false)
  else if q.lostStrategy = .lostNewData ∧ q.SlotsCrossed q.wpos q.rpos then (q.lose, false)
  else (q.store vm, true)

/-- The read position follows the write position where old data is lost. -/
def catchUp : MQAtomic α :=
  if q.lostStrategy = .lostOldData ∧ q.SizeOfMessageQueue.size ≤ q.wpos - q.rpos then
    { q.lose with rpos := q.wpos - q.SizeOfMessageQueue.size }
  else q

def take : MQAtomic α × Option α := ({ q with rpos := q.rpos + 1 }, q.mqueue (q.slot q.rpos))

def top : MQAtomic α × Option α :=
  let q := q.catchUp
  if q.rpos = q.qpos then (q, none)
  else if q.rpos < q.qpos then q.take
  else if q.lostStrategy = .lostOldData ∧ q.SlotsCrossed q.qpos q.rpos then
    { q.lose with rpos := q.qpos - q.SizeOfMessageQueue.size }.take
  else q.take

def size : UInt64 :=
  if q.SizeOfMessageQueue.size ≤ q.wpos - q.rpos then q.SizeOfMessageQueue.size
  else q.qpos - q.rpos

end MQAtomic

/-- The operations of a queue, and what they return. -/
inductive MQOp (α : Type)
  | push (vm : α)
  | top

inductive MQResult (α : Type)
  | pushed (done : Bool)
  | topped (vm : Option α)
  deriving DecidableEq

namespace MQAtomic

variable {α : Type}

def step (q : MQAtomic α) : MQOp α → MQAtomic α × MQResult α
  | .push vm => let (q, done) := q.push vm; (q, .pushed done)
  | .top => let (q, vm) := q.top; (q, .topped vm)

end MQAtomic

/-- What a run of operations returns. -/
def results {σ α : Type} (step : σ → MQOp α → σ × MQResult α) : σ → List (MQOp α) → List (MQResult α)
  | _, [] => []
  | s, op :: ops => (step s op).2 :: results step (step s op).1 ops

/-- The queue that a loss strategy asks for. -/
def LostStrategy.step {α : Type} {capacity : Nat} (lostStrategy : LostStrategy)
    (q : BoundedQueue α capacity) : MQOp α → BoundedQueue α capacity × MQResult α
  | .push vm =>
    match lostStrategy with
    | .lostNewData => let (q, done) := q.pushOrRefuse vm; (q, .pushed done)
    | .lostOldData => (q.pushOver vm, .pushed true)
  | .top => let (q, vm) := q.pop; (q, .topped vm)

end Uniset.Various

/-! The message queue under a mutex. -/

namespace Uniset.Various

structure MQMutex (α : Type) where
  mqueue : List α
  lostStrategy : LostStrategy
  SizeOfMessageQueue : QueueSize
  stMaxQueueMessages : Nat
  stCountOfLostMessages : UInt64

/-- The operations of the queue.  The largest size may change in between. -/
inductive MutexOp (α : Type)
  | push (vm : α)
  | top
  | setMaxSizeOfMessageQueue (s : QueueSize)

namespace MQMutex

variable {α : Type}

def new (qsize : QueueSize) (lostStrategy : LostStrategy) : MQMutex α :=
  ⟨[], lostStrategy, qsize, 0, 0⟩

variable (q : MQMutex α)

def lose : MQMutex α := { q with stCountOfLostMessages := q.stCountOfLostMessages + 1 }

def pushBack (vm : α) : MQMutex α :=
  let mqueue := q.mqueue ++ [vm]
  { q with mqueue, stMaxQueueMessages := max mqueue.length q.stMaxQueueMessages }

def push (vm : α) : MQMutex α :=
  if q.SizeOfMessageQueue.size.toNat < q.mqueue.length + 1 then
    match q.lostStrategy with
    | .lostNewData => q.lose
    | .lostOldData => { q.lose with mqueue := q.mqueue.tail }.pushBack vm
  else q.pushBack vm

def top : MQMutex α × Option α := ({ q with mqueue := q.mqueue.tail }, q.mqueue.head?)

def setMaxSizeOfMessageQueue (s : QueueSize) : MQMutex α := { q with SizeOfMessageQueue := s }

variable {q}

/-- What is put into the queue comes after all that stays in it. -/
theorem push_sublist (vm : α) : (q.push vm).mqueue.Sublist (q.mqueue ++ [vm]) := by
  unfold push
  split
  · split
    · exact List.sublist_append_left q.mqueue [vm]
    · exact (List.tail_sublist q.mqueue).append_right [vm]
  · exact List.Sublist.refl _

/-- A push counts what it loses. -/
theorem push_count (vm : α) :
    ∃ lost, q.mqueue.length + 1 = (q.push vm).mqueue.length + lost ∧
      (q.push vm).stCountOfLostMessages = q.stCountOfLostMessages + UInt64.ofNat lost := by
  unfold push
  split
  · rename_i hfull
    have hpos : 0 < q.SizeOfMessageQueue.size.toNat :=
      UInt64.lt_iff_toNat_lt.mp q.SizeOfMessageQueue.pos
    refine ⟨1, ?_⟩
    split
    · exact ⟨rfl, rfl⟩
    · refine ⟨?_, rfl⟩
      change _ = (q.mqueue.tail ++ [vm]).length + 1
      rw [List.length_append, List.length_tail, List.length_singleton]
      omega
  · refine ⟨0, ?_, (UInt64.add_zero _).symm⟩
    change _ = (q.mqueue ++ [vm]).length
    rw [List.length_append, List.length_singleton]

theorem push_ne_nil (vm : α) : (q.push vm).mqueue ≠ [] := by
  unfold push
  split
  · rename_i hfull
    split
    · intro hnil
      have hpos : 0 < q.SizeOfMessageQueue.size.toNat :=
        UInt64.lt_iff_toNat_lt.mp q.SizeOfMessageQueue.pos
      have hlength : q.mqueue.length = 0 := congrArg List.length hnil
      omega
    · exact List.append_ne_nil_of_right_ne_nil _ (List.cons_ne_nil vm [])
  · exact List.append_ne_nil_of_right_ne_nil _ (List.cons_ne_nil vm [])

end MQMutex

end Uniset.Various
