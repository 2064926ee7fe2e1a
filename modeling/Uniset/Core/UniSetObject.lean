import Uniset.Lib.GuardedRun
import Uniset.Various.MQAtomic

/-! An object, its three queues of messages, the threads that put messages into them, and the one
thread that takes messages out and waits where there are none. -/

namespace Uniset.Core

open Uniset.Lib Uniset.Various

namespace Message

/-! `Message::Priority`.  A message that comes over the net may have any number there. -/

def Low : Int := 0
def Medium : Int := 1
def High : Int := 2

end Message

structure VoidMessage (α : Type) where
  priority : Int
  body : α
  deriving DecidableEq

/-- The queues `mqueueHi`, `mqueueMedium` and `mqueueLow`. -/
inductive Mqueue
  | Hi
  | Medium
  | Low
  deriving DecidableEq

namespace Mqueue

/-- The place of a queue in the order in which `receiveMessage` looks at them. -/
def rank : Mqueue → Nat
  | Hi => 0
  | Medium => 1
  | Low => 2

end Mqueue

variable {α τ : Type}

/-- The queue of a message.  By default it is `mqueueMedium`. -/
def VoidMessage.mqueue (vm : VoidMessage α) : Mqueue :=
  if vm.priority = Message.Medium then .Medium
  else if vm.priority = Message.High then .Hi
  else if vm.priority = Message.Low then .Low
  else .Medium

/-- `terminated` belongs to the timer that the object waits by. -/
structure UniSetObject (α : Type) where
  mqueue : Mqueue → MQMutex (VoidMessage α)
  terminated : Bool

namespace UniSetObject

def new (qsize : QueueSize) (lostStrategy : LostStrategy) : UniSetObject α where
  mqueue := fun _ => .new qsize lostStrategy
  terminated := true

variable (o : UniSetObject α)

def setQueue (q : Mqueue) (mq : MQMutex (VoidMessage α)) : UniSetObject α :=
  { o with mqueue := fun q' => if q' = q then mq else o.mqueue q' }

/-- What `push` and `pushMessage` do before they call `termWaiting`. -/
def push (vm : VoidMessage α) : UniSetObject α :=
  o.setQueue vm.mqueue ((o.mqueue vm.mqueue).push vm)

def termWaiting : UniSetObject α := { o with terminated := true }

def countMessages : Nat :=
  (o.mqueue .Medium).mqueue.length + (o.mqueue .Low).mqueue.length + (o.mqueue .Hi).mqueue.length

def getCountOfLostMessages : UInt64 :=
  (o.mqueue .Medium).stCountOfLostMessages + (o.mqueue .Low).stCountOfLostMessages +
    (o.mqueue .Hi).stCountOfLostMessages

end UniSetObject

/-- What the thread of the object does next in `waitMessage`.  `again` says that it has waited. -/
inductive Next
  /-- `receiveMessage` asks whether `mqueueHi` is empty -/
  | asksHi (again : Bool)
  /-- `receiveMessage` asks whether `mqueueMedium` is empty -/
  | asksMedium (again : Bool)
  /-- `receiveMessage` takes from a queue -/
  | takes (q : Mqueue) (again : Bool)
  /-- the timer begins to wait -/
  | waits
  /-- the timer waits -/
  | sleeps
  deriving DecidableEq

/-- The beginning of `waitMessage`, which `callback` calls again and again. -/
def Next.start : Next := .asksHi false

/-- The state of all threads.  `between` has the threads that have put a message into a queue and
have not called `termWaiting` after it yet. -/
structure Running (τ α : Type) where
  object : UniSetObject α
  next : Next
  between : τ → Bool
  /-- what was put into the queues, in this order -/
  pushed : List (VoidMessage α)
  /-- what `waitMessage` has returned, in this order -/
  received : List (VoidMessage α)

/-- The steps of the threads.  Any thread may call `termWaiting`, as `askTimer` does. -/
inductive Act (τ α : Type)
  | push (t : τ) (vm : VoidMessage α)
  | termWaiting (t : τ)
  /-- the thread of the object goes on -/
  | goesOn
  /-- the time of `wait` is over -/
  | timeout

namespace Running

def new (qsize : QueueSize) (lostStrategy : LostStrategy) : Running τ α where
  object := .new qsize lostStrategy
  next := .start
  between := fun _ => false
  pushed := []
  received := []

variable (s : Running τ α)

def take (q : Mqueue) (again : Bool) : Running τ α :=
  match ((s.object.mqueue q).top).2 with
  | some vm =>
    { s with
      object := s.object.setQueue q ((s.object.mqueue q).top).1
      next := .start
      received := s.received ++ [vm] }
  | none => { s with next := if again then .start else .waits }

def goesOn : Option (Running τ α) :=
  match s.next with
  | .asksHi again =>
    some { s with
      next := if (s.object.mqueue .Hi).mqueue = [] then .asksMedium again else .takes .Hi again }
  | .asksMedium again =>
    some { s with
      next := if (s.object.mqueue .Medium).mqueue = [] then .takes .Low again
        else .takes .Medium again }
  | .takes q again => some (s.take q again)
  | .waits => some { s with object := { s.object with terminated := false }, next := .sleeps }
  | .sleeps => if s.object.terminated then some { s with next := .asksHi true } else none

def step [DecidableEq τ] (s : Running τ α) : Act τ α → Option (Running τ α)
  | .push t vm =>
    if s.between t then none
    else some { s with
      object := s.object.push vm
      between := Function.update s.between t true
      pushed := s.pushed ++ [vm] }
  | .termWaiting t =>
    some { s with
      object := s.object.termWaiting
      between := Function.update s.between t false }
  | .goesOn => s.goesOn
  | .timeout =>
    if s.next = .sleeps then
      some { s with object := { s.object with terminated := true }, next := .asksHi true }
    else none

variable {s}

def receivedFrom (s : Running τ α) (q : Mqueue) : List (VoidMessage α) :=
  s.received.filter (·.mqueue = q)

def pushedTo (s : Running τ α) (q : Mqueue) : List (VoidMessage α) :=
  s.pushed.filter (·.mqueue = q)

/-! ## What one step does -/

theorem setQueue_mqueue (o : UniSetObject α) (q q' : Mqueue) (mq : MQMutex (VoidMessage α)) :
    (o.setQueue q mq).mqueue q' = if q' = q then mq else o.mqueue q' := rfl

/-- A queue gives its oldest message, if there is one. -/
theorem take_cases (q : Mqueue) (again : Bool) :
    ((s.object.mqueue q).mqueue = [] ∧
      s.take q again = { s with next := if again then .start else .waits }) ∨
    ∃ vm rest, (s.object.mqueue q).mqueue = vm :: rest ∧
      s.take q again = { s with
        object := s.object.setQueue q { s.object.mqueue q with mqueue := rest }
        next := .start
        received := s.received ++ [vm] } := by
  cases hq : (s.object.mqueue q).mqueue with
  | nil =>
    refine .inl ⟨rfl, ?_⟩
    rw [take, MQMutex.top, hq]
    rfl
  | cons vm rest =>
    refine .inr ⟨vm, rest, rfl, ?_⟩
    rw [take, MQMutex.top, hq]
    rfl

/-- What a step does with the messages. -/
inductive Moves (s : Running τ α) : Running τ α → Prop
  | still (s') (hqueues : s'.object.mqueue = s.object.mqueue) (hpushed : s'.pushed = s.pushed)
      (hreceived : s'.received = s.received) : Moves s s'
  | puts (s') (vm) (hqueues : s'.object = s.object.push vm) (hpushed : s'.pushed = s.pushed ++ [vm])
      (hreceived : s'.received = s.received) : Moves s s'
  | gives (s') (q vm rest) (hq : (s.object.mqueue q).mqueue = vm :: rest)
      (hqueues : s'.object = s.object.setQueue q { s.object.mqueue q with mqueue := rest })
      (hpushed : s'.pushed = s.pushed) (hreceived : s'.received = s.received ++ [vm]) : Moves s s'

theorem moves [DecidableEq τ] {a : Act τ α} {s' : Running τ α} (h : s.step a = some s') :
    s.Moves s' := by
  cases a with
  | push t vm =>
    simp only [step, Option.ite_none_left_eq_some] at h
    obtain ⟨-, h⟩ := h
    cases h
    exact .puts _ vm rfl rfl rfl
  | termWaiting t =>
    cases h
    exact .still _ rfl rfl rfl
  | timeout =>
    simp only [step, Option.ite_none_right_eq_some] at h
    obtain ⟨-, h⟩ := h
    cases h
    exact .still _ rfl rfl rfl
  | goesOn =>
    change s.goesOn = some s' at h
    unfold goesOn at h
    split at h
    · cases h
      exact .still _ rfl rfl rfl
    · cases h
      exact .still _ rfl rfl rfl
    · rename_i q again hnext
      cases h
      obtain ⟨-, htake⟩ | ⟨vm, rest, hq, htake⟩ := s.take_cases q again
      · rw [htake]
        exact .still _ rfl rfl rfl
      · rw [htake]
        exact .gives _ q vm rest hq rfl rfl rfl
    · cases h
      exact .still _ rfl rfl rfl
    · simp only [Option.ite_none_right_eq_some] at h
      obtain ⟨-, h⟩ := h
      cases h
      exact .still _ rfl rfl rfl

/-! ## What becomes of the messages -/

/-- Every queue gives its messages in the order in which they were put into it, and counts those
that it loses. -/
structure Delivered (s : Running τ α) (lost : Mqueue → Nat) : Prop where
  order : ∀ q, (s.receivedFrom q ++ (s.object.mqueue q).mqueue).Sublist (s.pushedTo q)
  count : ∀ q, (s.pushedTo q).length =
    (s.receivedFrom q).length + (s.object.mqueue q).mqueue.length + lost q
  counter : ∀ q, (s.object.mqueue q).stCountOfLostMessages = UInt64.ofNat (lost q)

/-- A queue has no messages but its own. -/
theorem Delivered.mqueue {lost : Mqueue → Nat} (h : s.Delivered lost) {q : Mqueue}
    {vm : VoidMessage α} (hvm : vm ∈ (s.object.mqueue q).mqueue) : vm.mqueue = q := by
  have hpushed : vm ∈ s.pushedTo q := (h.order q).subset (List.mem_append_right _ hvm)
  exact of_decide_eq_true (List.mem_filter.mp hpushed).2

theorem filter_append_own {vms : List (VoidMessage α)} (vm : VoidMessage α) :
    (vms ++ [vm]).filter (·.mqueue = vm.mqueue) = vms.filter (·.mqueue = vm.mqueue) ++ [vm] := by
  simp

theorem filter_append_other {vms : List (VoidMessage α)} {vm : VoidMessage α} {q : Mqueue}
    (hne : q ≠ vm.mqueue) :
    (vms ++ [vm]).filter (·.mqueue = q) = vms.filter (·.mqueue = q) := by
  simp [hne.symm]

theorem Delivered.puts {lost : Mqueue → Nat} {s' : Running τ α} {vm : VoidMessage α}
    (h : s.Delivered lost) (hobject : s'.object = s.object.push vm)
    (hpushed : s'.pushed = s.pushed ++ [vm]) (hreceived : s'.received = s.received) :
    ∃ lost', s'.Delivered lost' := by
  obtain ⟨n, hcount, hcounter⟩ := (s.object.mqueue vm.mqueue).push_count vm
  have hqueue : ∀ q, s'.object.mqueue q =
      if q = vm.mqueue then (s.object.mqueue vm.mqueue).push vm else s.object.mqueue q := by
    intro q
    rw [hobject]
    rfl
  refine ⟨fun q => if q = vm.mqueue then lost q + n else lost q, fun q => ?_, fun q => ?_,
    fun q => ?_⟩
  · rw [receivedFrom, pushedTo, hqueue, hpushed, hreceived]
    by_cases hq : q = vm.mqueue
    · subst hq
      rw [if_pos rfl, filter_append_own]
      refine ((List.Sublist.refl _).append (MQMutex.push_sublist vm)).trans ?_
      rw [← List.append_assoc]
      exact (h.order vm.mqueue).append_right [vm]
    · rw [if_neg hq, filter_append_other hq]
      exact h.order q
  · rw [receivedFrom, pushedTo, hqueue, hpushed, hreceived]
    by_cases hq : q = vm.mqueue
    · subst hq
      have hbefore := h.count vm.mqueue
      rw [receivedFrom, pushedTo] at hbefore
      rw [if_pos rfl, if_pos rfl, filter_append_own, List.length_append, List.length_singleton]
      omega
    · rw [if_neg hq, if_neg hq, filter_append_other hq]
      exact h.count q
  · rw [hqueue]
    by_cases hq : q = vm.mqueue
    · subst hq
      rw [if_pos rfl, if_pos rfl, hcounter, h.counter, UInt64.ofNat_add]
    · rw [if_neg hq, if_neg hq]
      exact h.counter q

theorem Delivered.gives {lost : Mqueue → Nat} {s' : Running τ α} {p : Mqueue} {vm : VoidMessage α}
    {rest : List (VoidMessage α)} (h : s.Delivered lost)
    (hp : (s.object.mqueue p).mqueue = vm :: rest)
    (hobject : s'.object = s.object.setQueue p { s.object.mqueue p with mqueue := rest })
    (hpushed : s'.pushed = s.pushed) (hreceived : s'.received = s.received ++ [vm]) :
    s'.Delivered lost := by
  have hvm : vm.mqueue = p := h.mqueue (by rw [hp]; exact List.mem_cons_self)
  subst hvm
  have hqueue : ∀ q, s'.object.mqueue q = if q = vm.mqueue then
      { s.object.mqueue vm.mqueue with mqueue := rest } else s.object.mqueue q := by
    intro q
    rw [hobject]
    rfl
  refine ⟨fun q => ?_, fun q => ?_, fun q => ?_⟩
  · rw [receivedFrom, pushedTo, hqueue, hpushed, hreceived]
    by_cases hq : q = vm.mqueue
    · subst hq
      have hbefore := h.order vm.mqueue
      rw [hp] at hbefore
      rw [if_pos rfl, filter_append_own, List.append_assoc]
      exact hbefore
    · rw [if_neg hq, filter_append_other hq]
      exact h.order q
  · rw [receivedFrom, pushedTo, hqueue, hpushed, hreceived]
    by_cases hq : q = vm.mqueue
    · subst hq
      have hbefore := h.count vm.mqueue
      rw [hp, receivedFrom, pushedTo, List.length_cons] at hbefore
      rw [if_pos rfl, filter_append_own, List.length_append, List.length_singleton]
      change _ = _ + rest.length + _
      omega
    · rw [if_neg hq, filter_append_other hq]
      exact h.count q
  · rw [hqueue]
    by_cases hq : q = vm.mqueue
    · subst hq
      rw [if_pos rfl]
      exact h.counter vm.mqueue
    · rw [if_neg hq]
      exact h.counter q

theorem Delivered.moves {lost : Mqueue → Nat} {s' : Running τ α} (h : s.Delivered lost)
    (hmoves : s.Moves s') : ∃ lost', s'.Delivered lost' := by
  cases hmoves with
  | still hqueues hpushed hreceived =>
    refine ⟨lost, fun q => ?_, fun q => ?_, fun q => ?_⟩
    · rw [receivedFrom, pushedTo, hqueues, hpushed, hreceived]
      exact h.order q
    · rw [receivedFrom, pushedTo, hqueues, hpushed, hreceived]
      exact h.count q
    · rw [hqueues]
      exact h.counter q
  | puts vm hobject hpushed hreceived => exact h.puts hobject hpushed hreceived
  | gives q vm rest hq hobject hpushed hreceived =>
    exact ⟨lost, h.gives hq hobject hpushed hreceived⟩

theorem delivered_new (qsize : QueueSize) (lostStrategy : LostStrategy) :
    (new qsize lostStrategy : Running τ α).Delivered fun _ => 0 :=
  ⟨fun _ => List.Sublist.refl [], fun _ => rfl, fun _ => rfl⟩

theorem reaches_delivered [DecidableEq τ] {G : Running τ α → Act τ α → Prop} {qsize : QueueSize}
    {lostStrategy : LostStrategy} (h : Reaches step G (new qsize lostStrategy) s) :
    ∃ lost, s.Delivered lost := by
  refine h.invariant (I := fun s => ∃ lost, s.Delivered lost) ?_
    ⟨_, delivered_new qsize lostStrategy⟩
  rintro s a t ⟨lost, hs⟩ - hstep
  exact hs.moves (moves hstep)

theorem length_three (vms : List (VoidMessage α)) :
    vms.length = (vms.filter (·.mqueue = .Hi)).length + (vms.filter (·.mqueue = .Medium)).length +
      (vms.filter (·.mqueue = .Low)).length := by
  induction vms with
  | nil => rfl
  | cons vm vms ih =>
    cases hq : vm.mqueue <;> simp [hq] <;> omega

/-- However the threads take turns, every queue gives its messages in the order in which they were
put into it and at most once; what it has neither given nor kept is counted, and if nothing is
lost, it is all that was put into it. -/
theorem messages_delivered [DecidableEq τ] (qsize : QueueSize) (lostStrategy : LostStrategy)
    (s : Running τ α) (h : Reaches step (fun _ _ => True) (new qsize lostStrategy) s) :
    (∀ q, (s.receivedFrom q ++ (s.object.mqueue q).mqueue).Sublist (s.pushedTo q)) ∧
    ∃ lost, s.pushed.length = s.received.length + s.object.countMessages + lost ∧
      s.object.getCountOfLostMessages = UInt64.ofNat lost ∧
      (lost = 0 ↔ ∀ q, s.receivedFrom q ++ (s.object.mqueue q).mqueue = s.pushedTo q) := by
  obtain ⟨lost, hs⟩ := reaches_delivered h
  refine ⟨hs.order, lost .Medium + lost .Low + lost .Hi, ?_, ?_, ?_⟩
  · have hHi := hs.count .Hi
    have hMedium := hs.count .Medium
    have hLow := hs.count .Low
    rw [length_three s.pushed, length_three s.received]
    simp only [receivedFrom, pushedTo, UniSetObject.countMessages] at hHi hMedium hLow ⊢
    omega
  · rw [UniSetObject.getCountOfLostMessages, hs.counter, hs.counter, hs.counter, UInt64.ofNat_add,
      UInt64.ofNat_add]
  · constructor
    · intro hzero q
      have hlost : lost q = 0 := by cases q <;> omega
      refine (hs.order q).eq_of_length ?_
      rw [hs.count q, List.length_append, hlost, Nat.add_zero]
    · intro hall
      have hlost : ∀ q, lost q = 0 := by
        intro q
        have hcount := hs.count q
        rw [← hall q, List.length_append] at hcount
        omega
      rw [hlost, hlost, hlost]

/-- The messages 100 and 120 are put into one queue and 110 into another, which gives it. -/
theorem messages_delivered_three :
    ∃ s : Running Nat Nat, [.push 0 ⟨Message.Low, 100⟩, .push 1 ⟨Message.High, 110⟩,
        .push 2 ⟨Message.Low, 120⟩, .goesOn, .goesOn].foldlM step (new ⟨1, by decide⟩ .lostOldData) =
      some s ∧
    (∀ q, (s.receivedFrom q ++ (s.object.mqueue q).mqueue).Sublist (s.pushedTo q)) ∧
    ∃ lost, s.pushed.length = s.received.length + s.object.countMessages + lost ∧
      s.object.getCountOfLostMessages = UInt64.ofNat lost ∧
      (lost = 0 ↔ ∀ q, s.receivedFrom q ++ (s.object.mqueue q).mqueue = s.pushedTo q) :=
  have hrun : [.push 0 ⟨Message.Low, 100⟩, .push 1 ⟨Message.High, 110⟩,
      .push 2 ⟨Message.Low, 120⟩, .goesOn, .goesOn].foldlM step
        (new ⟨1, by decide⟩ .lostOldData : Running Nat Nat) = some _ := rfl
  ⟨_, hrun, messages_delivered _ _ _ (.of_foldlM (fun _ _ _ => trivial) hrun)⟩

/-! ## Which messages come first -/

/-- The messages from the queues that `receiveMessage` looks at after `q`. -/
def receivedAfter (s : Running τ α) (q : Mqueue) : List (VoidMessage α) :=
  s.received.filter (q.rank < ·.mqueue.rank)

/-- The thread of the object has passed `q` and is about to take from a queue after it. -/
def passed (s : Running τ α) (q : Mqueue) : Nat :=
  match s.next with
  | .asksMedium _ => if q.rank < Mqueue.Medium.rank then 1 else 0
  | .takes p _ => if q.rank < p.rank then 1 else 0
  | _ => 0

theorem receivedAfter_length {q : Mqueue} {vm : VoidMessage α} {s' : Running τ α}
    (h : s'.received = s.received ++ [vm]) : (s'.receivedAfter q).length =
      (s.receivedAfter q).length + if q.rank < vm.mqueue.rank then 1 else 0 := by
  rw [receivedAfter, receivedAfter, h, List.filter_append, List.length_append]
  by_cases hrank : q.rank < vm.mqueue.rank <;> simp [hrank]

/-- As long as `q` has messages, what comes from a queue after it has been decided before. -/
theorem receivedAfter_step [DecidableEq τ] {lost : Mqueue → Nat} {q : Mqueue} {a : Act τ α}
    {s' : Running τ α} (hs : s.Delivered lost) (hq : (s.object.mqueue q).mqueue ≠ [])
    (h : s.step a = some s') :
    (s'.receivedAfter q).length + s'.passed q ≤ (s.receivedAfter q).length + s.passed q := by
  cases a with
  | push t vm =>
    simp only [step, Option.ite_none_left_eq_some] at h
    obtain ⟨-, h⟩ := h
    cases h
    exact Nat.le_refl _
  | termWaiting t =>
    cases h
    exact Nat.le_refl _
  | timeout =>
    simp only [step, Option.ite_none_right_eq_some] at h
    obtain ⟨-, h⟩ := h
    cases h
    exact Nat.le_add_right _ _
  | goesOn =>
    change s.goesOn = some s' at h
    unfold goesOn at h
    split at h
    · rename_i again hnext
      cases h
      refine Nat.add_le_add_left ?_ _
      by_cases hHi : (s.object.mqueue .Hi).mqueue = []
      · have hrank : ¬q.rank < Mqueue.Medium.rank := by
          cases q with
          | Hi => exact absurd hHi hq
          | Medium | Low => decide
        simp [passed, hHi, hrank]
      · simp [passed, hHi, Mqueue.rank]
    · rename_i again hnext
      cases h
      refine Nat.add_le_add_left ?_ _
      by_cases hMedium : (s.object.mqueue .Medium).mqueue = []
      · cases q with
        | Hi => simp [passed, hnext, hMedium, Mqueue.rank]
        | Medium => exact absurd hMedium hq
        | Low => simp [passed, hMedium, Mqueue.rank]
      · cases q <;> simp [passed, hnext, hMedium, Mqueue.rank]
    · rename_i p again hnext
      cases h
      obtain ⟨-, htake⟩ | ⟨vm, rest, hp, htake⟩ := s.take_cases p again
      · rw [htake]
        refine Nat.add_le_add_left (Nat.le_trans ?_ (Nat.zero_le _)) _
        cases again <;> exact Nat.le_refl 0
      · have hvm : vm.mqueue = p := hs.mqueue (by rw [hp]; exact List.mem_cons_self)
        rw [htake, receivedAfter_length rfl, hvm]
        simp [passed, hnext, Next.start]
    · cases h
      exact Nat.le_add_right _ _
    · simp only [Option.ite_none_right_eq_some] at h
      obtain ⟨-, h⟩ := h
      cases h
      exact Nat.le_add_right _ _

/-- While a queue has messages, not more than one message is taken from the queues after it: the
one that the thread of the object was about to take when the queue got its first message. -/
theorem receivedAfter_le [DecidableEq τ] {qsize : QueueSize} {lostStrategy : LostStrategy}
    {s s' : Running τ α} {q : Mqueue}
    (hs : Reaches step (fun _ _ => True) (new qsize lostStrategy) s)
    (hrun : Reaches step (fun s _ => (s.object.mqueue q).mqueue ≠ []) s s') :
    (s'.receivedAfter q).length ≤ (s.receivedAfter q).length + s.passed q := by
  have hbound : (∃ lost, s'.Delivered lost) ∧ (s'.receivedAfter q).length + s'.passed q ≤
      (s.receivedAfter q).length + s.passed q := by
    refine hrun.invariant (I := fun u => (∃ lost, u.Delivered lost) ∧
      (u.receivedAfter q).length + u.passed q ≤ (s.receivedAfter q).length + s.passed q) ?_
      ⟨reaches_delivered hs, Nat.le_refl _⟩
    rintro u a u' ⟨⟨lost, hu⟩, hle⟩ hq hstep
    exact ⟨hu.moves (moves hstep), Nat.le_trans (receivedAfter_step hu hq hstep) hle⟩
  exact Nat.le_trans (Nat.le_add_right _ _) hbound.2

/-- The thread of the object is about to ask the second queue when a message comes into the first. -/
theorem receivedAfter_le_one :
    ∃ s s' : Running Nat Nat, [.push 0 ⟨Message.Low, 100⟩, .goesOn, .push 1 ⟨Message.High, 110⟩].foldlM
        step (new ⟨2, by decide⟩ .lostOldData) = some s ∧
      [Act.goesOn, .goesOn].foldlM step s = some s' ∧ s'.received = [⟨Message.Low, 100⟩] ∧
      (s'.receivedAfter .Hi).length ≤ (s.receivedAfter .Hi).length + s.passed .Hi :=
  have hrun : [.push 0 ⟨Message.Low, 100⟩, .goesOn, .push 1 ⟨Message.High, 110⟩].foldlM step
      (new ⟨2, by decide⟩ .lostOldData : Running Nat Nat) = some _ := rfl
  ⟨_, _, hrun, rfl, rfl, receivedAfter_le (.of_foldlM (fun _ _ _ => trivial) hrun)
    (.head (i := .goesOn) (List.cons_ne_nil _ _) rfl
      (.head (i := .goesOn) (List.cons_ne_nil _ _) rfl (.refl _)))⟩

/-! ## Waking up -/

/-- On its way to wait, the thread of the object has seen that `q` is empty. -/
def SeenEmpty (s : Running τ α) (q : Mqueue) : Prop :=
  match s.next with
  | .asksMedium false => q = .Hi
  | .takes .Low false => q ≠ .Low
  | .waits => True
  | _ => False

/-- A thread calls `termWaiting` too early: a queue has messages that the thread of the object does
not know of, and it does not wait yet. -/
def Early (s : Running τ α) : Act τ α → Prop
  | .termWaiting _ => ∃ q, s.SeenEmpty q ∧ (s.object.mqueue q).mqueue ≠ []
  | _ => False

/-- The messages that the thread of the object does not know of are followed by a call. -/
def Called (s : Running τ α) : Prop :=
  ∀ q, s.SeenEmpty q ∨ s.next = .sleeps ∧ s.object.terminated = false →
    (s.object.mqueue q).mqueue ≠ [] → ∃ t, s.between t = true

/-- A queue that was not empty when it was asked has a message for the thread of the object. -/
def Ready (s : Running τ α) : Prop :=
  ∀ p again, s.next = .takes p again → p ≠ .Low → (s.object.mqueue p).mqueue ≠ []

theorem push_mqueue_ne_nil {o : UniSetObject α} {vm : VoidMessage α} {q : Mqueue}
    (h : q = vm.mqueue ∨ (o.mqueue q).mqueue ≠ []) : ((o.push vm).mqueue q).mqueue ≠ [] := by
  rw [UniSetObject.push, setQueue_mqueue]
  by_cases hq : q = vm.mqueue
  · rw [if_pos hq]
    exact MQMutex.push_ne_nil vm
  · rw [if_neg hq]
    exact h.resolve_left hq

theorem ready_step [DecidableEq τ] {a : Act τ α} {s' : Running τ α} (hs : s.Ready)
    (h : s.step a = some s') : s'.Ready := by
  cases a with
  | push t vm =>
    simp only [step, Option.ite_none_left_eq_some] at h
    obtain ⟨-, h⟩ := h
    cases h
    exact fun p again hnext hp => push_mqueue_ne_nil (.inr (hs p again hnext hp))
  | termWaiting t =>
    cases h
    exact hs
  | timeout =>
    simp only [step, Option.ite_none_right_eq_some] at h
    obtain ⟨-, h⟩ := h
    cases h
    exact nofun
  | goesOn =>
    change s.goesOn = some s' at h
    unfold goesOn at h
    split at h
    · cases h
      by_cases hHi : (s.object.mqueue .Hi).mqueue = []
      · simp [Ready, hHi]
      · simp only [Ready, hHi, if_false]
        rintro p again hnext -
        cases hnext
        exact hHi
    · cases h
      by_cases hMedium : (s.object.mqueue .Medium).mqueue = []
      · simp only [Ready, hMedium, if_true]
        rintro p again hnext hp
        cases hnext
        exact absurd rfl hp
      · simp only [Ready, hMedium, if_false]
        rintro p again hnext -
        cases hnext
        exact hMedium
    · rename_i q again hnext
      cases h
      obtain ⟨-, htake⟩ | ⟨vm, rest, -, htake⟩ := s.take_cases q again
      · rw [htake]
        cases again <;> exact nofun
      · rw [htake]
        exact nofun
    · cases h
      exact nofun
    · simp only [Option.ite_none_right_eq_some] at h
      obtain ⟨-, h⟩ := h
      cases h
      exact nofun

theorem called_step [DecidableEq τ] {a : Act τ α} {s' : Running τ α} (hready : s.Ready)
    (hs : s.Called) (hearly : ¬s.Early a) (h : s.step a = some s') : s'.Called := by
  cases a with
  | push t vm =>
    simp only [step, Option.ite_none_left_eq_some] at h
    obtain ⟨-, h⟩ := h
    cases h
    exact fun _ _ _ => ⟨t, Function.update_self t true s.between⟩
  | termWaiting t =>
    cases h
    rintro q (hseen | ⟨-, hterminated⟩) hq
    · exact absurd ⟨q, hseen, hq⟩ hearly
    · exact absurd hterminated Bool.true_eq_false.mp
  | timeout =>
    simp only [step, Option.ite_none_right_eq_some] at h
    obtain ⟨-, h⟩ := h
    cases h
    rintro q (hseen | ⟨hnext, -⟩) -
    · exact hseen.elim
    · exact nomatch hnext
  | goesOn =>
    change s.goesOn = some s' at h
    unfold goesOn at h
    split at h
    · rename_i again hnext
      cases h
      rintro q (hseen | ⟨hsleeps, -⟩) hq
      · by_cases hHi : (s.object.mqueue .Hi).mqueue = []
        · cases again with
          | true => simp [SeenEmpty, hHi] at hseen
          | false =>
            have hq' : q = .Hi := by simpa [SeenEmpty, hHi] using hseen
            subst hq'
            exact absurd hHi hq
        · simp [SeenEmpty, hHi] at hseen
      · by_cases hHi : (s.object.mqueue .Hi).mqueue = [] <;> simp [hHi] at hsleeps
    · rename_i again hnext
      cases h
      rintro q (hseen | ⟨hsleeps, -⟩) hq
      · by_cases hMedium : (s.object.mqueue .Medium).mqueue = []
        · cases again with
          | true => simp [SeenEmpty, hMedium] at hseen
          | false =>
            cases q with
            | Hi => exact hs .Hi (.inl (by rw [SeenEmpty, hnext])) hq
            | Medium => exact absurd hMedium hq
            | Low => simp [SeenEmpty, hMedium] at hseen
        · simp [SeenEmpty, hMedium] at hseen
      · by_cases hMedium : (s.object.mqueue .Medium).mqueue = [] <;> simp [hMedium] at hsleeps
    · rename_i p again hnext
      cases h
      obtain ⟨hp, htake⟩ | ⟨vm, rest, -, htake⟩ := s.take_cases p again
      · rw [htake]
        cases again with
        | true =>
          rintro q (hseen | ⟨hsleeps, -⟩) -
          · exact hseen.elim
          · exact nomatch hsleeps
        | false =>
          rintro q (hseen | ⟨hsleeps, -⟩) hq
          · cases p with
            | Hi => exact absurd hp (hready .Hi false hnext (by decide))
            | Medium => exact absurd hp (hready .Medium false hnext (by decide))
            | Low =>
              by_cases hLow : q = .Low
              · rw [hLow] at hq
                exact absurd hp hq
              · exact hs q (.inl (by rw [SeenEmpty, hnext]; exact hLow)) hq
          · exact nomatch hsleeps
      · rw [htake]
        rintro q (hseen | ⟨hsleeps, -⟩) -
        · exact hseen.elim
        · exact nomatch hsleeps
    · rename_i hnext
      cases h
      rintro q - hq
      exact hs q (.inl (by rw [SeenEmpty, hnext]; trivial)) hq
    · simp only [Option.ite_none_right_eq_some] at h
      obtain ⟨-, h⟩ := h
      cases h
      rintro q (hseen | ⟨hsleeps, -⟩) -
      · exact hseen.elim
      · exact nomatch hsleeps

/-- If no thread calls `termWaiting` too early, some thread is about to call it whenever the thread
of the object sleeps and a queue has a message. -/
theorem sleeps_called [DecidableEq τ] {qsize : QueueSize} {lostStrategy : LostStrategy}
    (h : Reaches step (fun s a => ¬Early s a) (new qsize lostStrategy) s) (hnext : s.next = .sleeps)
    (hterminated : s.object.terminated = false) {q : Mqueue}
    (hq : (s.object.mqueue q).mqueue ≠ []) : ∃ t, s.between t = true := by
  have hcalled : s.Ready ∧ s.Called := by
    refine h.invariant (I := fun s => s.Ready ∧ s.Called) ?_ ⟨nofun, ?_⟩
    · rintro s a s' ⟨hready, hs⟩ hearly hstep
      exact ⟨ready_step hready hstep, called_step hready hs hearly hstep⟩
    · exact fun _ _ hne => absurd rfl hne
  exact hcalled.2 q (.inr ⟨hnext, hterminated⟩) hq

/-- The thread of the object has gone to sleep, and the queues are as they were. -/
def FallsAsleep [DecidableEq τ] (s : Running τ α) : Prop :=
  ∃ n s', (List.replicate n Act.goesOn).foldlM step s = some s' ∧ s'.next = .sleeps ∧
    s'.object.terminated = false ∧ s'.object.mqueue = s.object.mqueue ∧ s'.between = s.between

theorem fallsAsleep_waits [DecidableEq τ] (hnext : s.next = .waits) : s.FallsAsleep := by
  refine ⟨1, { s with object := { s.object with terminated := false }, next := .sleeps }, ?_, rfl,
    rfl, rfl, rfl⟩
  change (s.goesOn >>= fun s => some s) = _
  rw [goesOn, hnext]
  rfl

/-- One step that only says what is next. -/
theorem FallsAsleep.of_goesOn [DecidableEq τ] {next : Next} (hgoes : s.goesOn = some { s with next })
    (h : FallsAsleep { s with next }) : s.FallsAsleep := by
  obtain ⟨n, s', hrun, hsleeps⟩ := h
  refine ⟨n + 1, s', ?_, hsleeps⟩
  rw [List.replicate_succ, List.foldlM_cons]
  change (s.goesOn >>= _) = _
  rw [hgoes]
  exact hrun

theorem fallsAsleep_takes [DecidableEq τ] (hnext : s.next = .takes .Low false)
    (hLow : (s.object.mqueue .Low).mqueue = []) : s.FallsAsleep := by
  obtain ⟨-, htake⟩ | ⟨vm, rest, hcons, -⟩ := s.take_cases .Low false
  · refine .of_goesOn ?_ (fallsAsleep_waits rfl)
    rw [goesOn, hnext]
    exact congrArg some htake
  · exact absurd (hLow.symm.trans hcons) (List.cons_ne_nil vm rest).symm

theorem fallsAsleep_asks [DecidableEq τ] (hnext : s.next = .asksMedium false)
    (hMedium : (s.object.mqueue .Medium).mqueue = []) (hLow : (s.object.mqueue .Low).mqueue = []) :
    s.FallsAsleep := by
  have htakes : FallsAsleep { s with next := .takes .Low false } := fallsAsleep_takes rfl hLow
  refine .of_goesOn ?_ htakes
  rw [goesOn, hnext]
  simp [hMedium]

/-- Too early a call of the only thread that was to make one is missed, where the queues that have
not been asked yet are empty: the thread of the object then goes to sleep, with a message in its
queue and no thread that would wake it. -/
theorem early_missed [DecidableEq τ] {t : τ} {q : Mqueue} (hseen : s.SeenEmpty q)
    (hq : (s.object.mqueue q).mqueue ≠ []) (honly : ∀ t', t' ≠ t → s.between t' = false)
    (hempty : ∀ q', ¬s.SeenEmpty q' → (s.object.mqueue q').mqueue = []) :
    ∃ n s', (.termWaiting t :: List.replicate n .goesOn).foldlM step s = some s' ∧
      s'.next = .sleeps ∧ s'.object.terminated = false ∧ (s'.object.mqueue q).mqueue ≠ [] ∧
      ∀ t', s'.between t' = false := by
  have hbetween : ∀ t', Function.update s.between t false t' = false := by
    intro t'
    by_cases ht : t' = t
    · rw [ht, Function.update_self]
    · rw [Function.update_of_ne ht, honly t' ht]
  have hasleep : FallsAsleep { s with
      object := s.object.termWaiting
      between := Function.update s.between t false } := by
    have hnext := hseen
    unfold SeenEmpty at hnext
    split at hnext
    · rename_i hasks
      refine fallsAsleep_asks hasks (hempty .Medium ?_) (hempty .Low ?_) <;> simp [SeenEmpty, hasks]
    · rename_i htakes
      refine fallsAsleep_takes htakes (hempty .Low ?_)
      simp [SeenEmpty, htakes]
    · rename_i hwaits
      exact fallsAsleep_waits hwaits
    · exact hnext.elim
  obtain ⟨n, s', hrun, hsleeps, hterminated, hqueues, hbetween'⟩ := hasleep
  refine ⟨n, s', hrun, hsleeps, hterminated, ?_, fun t' => ?_⟩
  · rw [hqueues]
    exact hq
  · rw [hbetween']
    exact hbetween t'

/-- The thread of the object sleeps while a queue has a message and no thread is about to wake it
only if a call of `termWaiting` came too early, and such a call has this effect if it was the only
one to come and the queues that have not been asked yet are empty. -/
theorem sleeps_early [DecidableEq τ] (qsize : QueueSize) (lostStrategy : LostStrategy) :
    (∀ s : Running τ α, Reaches step (fun s a => ¬Early s a) (new qsize lostStrategy) s →
      s.next = .sleeps → s.object.terminated = false →
      ∀ q, (s.object.mqueue q).mqueue ≠ [] → ∃ t, s.between t = true) ∧
    ∀ (s : Running τ α) (t : τ), s.Early (.termWaiting t) →
      (∀ t', t' ≠ t → s.between t' = false) →
      (∀ q, ¬s.SeenEmpty q → (s.object.mqueue q).mqueue = []) →
      ∃ n s', (.termWaiting t :: List.replicate n .goesOn).foldlM step s = some s' ∧
        s'.next = .sleeps ∧ s'.object.terminated = false ∧
        (∃ q, (s'.object.mqueue q).mqueue ≠ []) ∧ ∀ t', s'.between t' = false := by
  constructor
  · intro s h hnext hterminated q hq
    exact sleeps_called h hnext hterminated hq
  · rintro s t ⟨q, hseen, hq⟩ honly hempty
    obtain ⟨n, s', hrun, hsleeps, hterminated, hq', hbetween⟩ := early_missed hseen hq honly hempty
    exact ⟨n, s', hrun, hsleeps, hterminated, ⟨q, hq'⟩, hbetween⟩

/-- A message comes while the thread of the object sleeps. -/
theorem sleeps_early_one :
    ∃ s : Running Nat Nat, [.goesOn, .goesOn, .goesOn, .goesOn, .push 0 ⟨Message.High, 100⟩].foldlM
        step (new ⟨2, by decide⟩ .lostOldData) = some s ∧ ∃ t, s.between t = true :=
  have hrun : [.goesOn, .goesOn, .goesOn, .goesOn, .push 0 ⟨Message.High, 100⟩].foldlM step
      (new ⟨2, by decide⟩ .lostOldData : Running Nat Nat) = some _ := rfl
  ⟨_, hrun, (sleeps_early ⟨2, by decide⟩ .lostOldData).1 _
    (.of_foldlM (by simp [Early]) hrun) rfl rfl .Hi (List.cons_ne_nil _ _)⟩

end Running

/-- A queue of two messages that is given three loses the oldest one. -/
example : (((Running.new ⟨2, by decide⟩ .lostOldData : Running Nat Nat).step
    (.push 0 ⟨Message.Low, 100⟩) >>= fun s => s.step (.push 1 ⟨Message.Low, 110⟩) >>=
    fun s => s.step (.push 2 ⟨Message.Low, 120⟩)).map fun s =>
      ((s.object.mqueue .Low).mqueue.map (·.body), s.object.getCountOfLostMessages)) =
    some ([110, 120], 1) := by decide

end Uniset.Core
