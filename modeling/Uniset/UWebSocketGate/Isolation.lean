import Uniset.UWebSocketGate.Gate
import Uniset.Lib.GuardedRun

/-! What the gate owes its sessions. -/

namespace Uniset.UWebSocketGate

open Uniset.Lib

open Uniset.Various

/-- What the websocket does with a message, other than to queue it. -/
structure Quiet (ws ws' : UWebSocket) : Prop where
  smap : ws'.smap = ws.smap
  cancelled : ws'.cancelled = ws.cancelled

namespace UWebSocket

variable {conf : Config} {ws ws' : UWebSocket} {sm : SensorMessage}

theorem put_quiet {json : Json} (h : ws.put conf json = some ws') : Quiet ws ws' := by
  unfold put at h
  split_ifs at h <;> cases h <;> exact ⟨rfl, rfl⟩

theorem sensorInfo_quiet (h : ws.sensorInfo conf sm = some ws') :
    Quiet ws ws' := by
  unfold sensorInfo at h
  split_ifs at h
  · cases h
    exact ⟨rfl, rfl⟩
  · exact put_quiet h
  · cases h
    exact ⟨rfl, rfl⟩

/-- Only a pool without an object throws. -/
theorem sensorInfo_isSome (h : ws.cancelled = false → ws.smap sm.id = true →
    ws.jbuf.length ≤ conf.maxsize → conf.borrowObject (ws.lent .SensorInfo) = true) :
    ∃ ws', ws.sensorInfo conf sm = some ws' := by
  unfold sensorInfo put
  split_ifs with hcancelled hasked hfull hlent
  · exact ⟨_, rfl⟩
  · exact ⟨_, rfl⟩
  · exact ⟨_, rfl⟩
  · exact absurd (h (Bool.eq_false_iff.mpr hcancelled) hasked (Nat.not_lt.mp hfull)) hlent
  · exact ⟨_, rfl⟩

/-- A session that has asked gets the message, unless its queue is full. -/
theorem sensorInfo_queued (h : ws.sensorInfo conf sm = some ws') (hopen : ws.cancelled = false)
    (hasked : ws.smap sm.id = true) :
    conf.maxsize < ws.jbuf.length ∨ .sensorInfo sm ∈ ws'.jbuf := by
  unfold sensorInfo put at h
  rw [if_neg (Bool.eq_false_iff.mp hopen), if_pos hasked] at h
  split_ifs at h with hfull hlent
  · exact .inl hfull
  · cases h
    exact .inr (List.mem_append_right _ (List.mem_singleton_self _))

end UWebSocket

namespace Gate

variable (conf : Config) (s : Gate)

/-- The session has asked for the sensor, has not deleted it and has not been closed. -/
def Asks (i : Nat) (id : ObjectId) : Prop :=
  i ∈ s.wsocks ∧ (s.session i).cancelled = false ∧ (s.session i).smap id = true

instance (i : Nat) (id : ObjectId) : Decidable (s.Asks i id) :=
  inferInstanceAs (Decidable (_ ∧ _))

def newValue (id : ObjectId) (value : Int) : Option SensorMessage :=
  if s.value id = value then none else some ⟨id, value, s.sent⟩

/-- The change of a sensor that a step makes. -/
def change : GateStep → Option SensorMessage
  | .changed id value => s.newValue id value
  | .command true =>
    match s.loop with
    | .doCommand _ (.set id value :: _) => s.newValue id value
    | _ => none
  | _ => none

/-- The step queues the message to the session, or finds its queue full. -/
def Told (step : GateStep) (i : Nat) (sm : SensorMessage) : Prop :=
  match step, s.loop with
  | .deliver, .sensorInfo sm' (i' :: _) _ => sm' = sm ∧ i' = i ∧
      (conf.maxsize < (s.session i).jbuf.length ∨
        .sensorInfo sm ∈ ((s.step conf step).session i).jbuf)
  | _, _ => False

instance (step : GateStep) (i : Nat) (sm : SensorMessage) : Decidable (s.Told conf step i sm) := by
  unfold Told
  split <;> infer_instance

/-- The message is on its way to the session. -/
def Coming (i : Nat) (sm : SensorMessage) : Prop :=
  sm ∈ s.mqueue.mqueue ∨
    match s.loop with
    | .sensorInfo sm' sessions _ => sm' = sm ∧ i ∈ sessions
    | _ => False

instance (i : Nat) (sm : SensorMessage) : Decidable (s.Coming i sm) := by
  unfold Coming
  split <;> infer_instance

/-- The queue of the gate takes one more message. -/
def Room : Prop := s.mqueue.mqueue.length < s.mqueue.SizeOfMessageQueue.size.toNat

def ChangeHasRoom (id : ObjectId) (value : Int) : Prop :=
  s.value id ≠ value → s.asked id = true → s.Room

instance : Decidable s.Room := inferInstanceAs (Decidable (_ < _))

instance (id : ObjectId) (value : Int) : Decidable (s.ChangeHasRoom id value) :=
  inferInstanceAs (Decidable (_ → _ → _))

/-- No session deletes a sensor that another has asked for, the queue of the gate has room for what
is sent, and a message that is queued to a session finds an object in its pool. -/
def Peaceful : GateStep → Prop
  | .changed id value => s.ChangeHasRoom id value
  | .command true =>
    match s.loop with
    | .doCommand _ (.ask _ :: _) => s.Room
    | .doCommand _ (.set id value :: _) => s.ChangeHasRoom id value
    | .doCommand i (.del id :: _) => ∀ j ∈ s.wsocks, j ≠ i → ¬s.Asks j id
    | _ => True
  | .deliver =>
    match s.loop with
    | .sensorInfo sm (i :: _) _ =>
      (s.session i).cancelled = false → (s.session i).smap sm.id = true →
        (s.session i).jbuf.length ≤ conf.maxsize →
          conf.borrowObject ((s.session i).lent .SensorInfo) = true
    | _ => True
  | _ => True

instance (step : GateStep) : Decidable (s.Peaceful conf step) := by
  unfold Peaceful
  split
  · infer_instance
  · split <;> infer_instance
  · split <;> infer_instance
  · infer_instance

end Gate

/-- The gate, and for every session the changes that are still due to it. -/
structure Ledger where
  gate : Gate
  due : Nat → List SensorMessage

namespace Ledger

variable (conf : Config)

def init (value : ObjectId → Int) : Ledger := ⟨.init conf value, fun _ => []⟩

/-- A change is due to every session that asks for the sensor, as long as it does so and until it
has been told. -/
def step (l : Ledger) (step : GateStep) : Ledger where
  gate := l.gate.step conf step
  due i := (l.due i ++ ((l.gate.change step).filter fun sm => l.gate.Asks i sm.id).toList).filter
    fun sm => (l.gate.step conf step).Asks i sm.id ∧ ¬l.gate.Told conf step i sm

/-- Nothing that is due to a session has been lost. -/
def Delivers (l : Ledger) : Prop := ∀ i, ∀ sm ∈ l.due i, l.gate.Coming i sm

end Ledger

/-- The subscriptions are as the sessions need them. -/
structure Kept (s : Gate) : Prop where
  subscribed : ∀ i id, s.Asks i id → s.asked id = true
  fresh : ∀ i ∈ s.wsocks, i < s.created
  empty : ∀ sm sessions, s.loop = .sensorInfo sm sessions true →
    ∀ i ∈ s.wsocks, ∀ id, (s.session i).smap id = false

variable {conf : Config} {s : Gate}

/-! ## Subscriptions -/

namespace Kept

theorem init (value : ObjectId → Int) : Kept (.init conf value) where
  subscribed _ _ h := absurd h.1 List.not_mem_nil
  fresh _ h := absurd h List.not_mem_nil
  empty _ _ h := Loop.noConfusion h

theorem setSession (h : Kept s) {i : Nat} {ws : UWebSocket} (hsmap : ws.smap = (s.session i).smap)
    (hcancelled : ws.cancelled = false → (s.session i).cancelled = false) :
    Kept (s.setSession i ws) where
  subscribed j id hasks := by
    obtain ⟨hmem, hopen, hasked⟩ := hasks
    refine h.subscribed j id ⟨hmem, ?_⟩
    by_cases hj : j = i
    · subst hj
      simp only [Gate.setSession, Function.update_self] at hopen hasked
      exact ⟨hcancelled hopen, hsmap ▸ hasked⟩
    · simp only [Gate.setSession, Function.update_of_ne hj] at hopen hasked
      exact ⟨hopen, hasked⟩
  fresh := h.fresh
  empty sm sessions hloop j hj id := by
    have hold := h.empty sm sessions hloop j hj id
    by_cases hji : j = i
    · subst hji
      simpa only [Gate.setSession, Function.update_self, hsmap] using hold
    · simpa only [Gate.setSession, Function.update_of_ne hji] using hold

theorem setQuiet (h : Kept s) {i : Nat} {ws : UWebSocket} (hquiet : Quiet (s.session i) ws) :
    Kept (s.setSession i ws) :=
  h.setSession hquiet.smap fun hopen => hquiet.cancelled ▸ hopen

/-- The thread goes on to something else than a message for nobody. -/
theorem setLoop (h : Kept s) {loop : Loop}
    (hloop : ∀ sm sessions, loop = .sensorInfo sm sessions true →
      ∃ sm sessions, s.loop = .sensorInfo sm sessions true) : Kept { s with loop } where
  subscribed := h.subscribed
  fresh := h.fresh
  empty sm sessions heq := by
    obtain ⟨sm', sessions', hold⟩ := hloop sm sessions heq
    exact h.empty sm' sessions' hold

theorem push (h : Kept s) (id : ObjectId) (value : Int) : Kept (s.push id value) :=
  ⟨h.subscribed, h.fresh, h.empty⟩

theorem setValue (h : Kept s) (id : ObjectId) (value : Int) : Kept (s.setValue id value) := by
  have hwrite : Kept (s.write id value) := ⟨h.subscribed, h.fresh, h.empty⟩
  unfold Gate.setValue
  split_ifs
  · exact h
  · exact hwrite.push id value
  · exact hwrite

theorem ask (h : Kept s) (hloop : ∀ sm sessions, s.loop ≠ .sensorInfo sm sessions true) (i : Nat)
    (id : ObjectId) : Kept ((s.askSensor id).setMap i id true) where
  subscribed j id' hasks := by
    obtain ⟨hmem, hopen, hasked⟩ := hasks
    change Function.update s.asked id true id' = true
    by_cases hid : id' = id
    · subst hid
      exact Function.update_self ..
    · rw [Function.update_of_ne hid]
      refine h.subscribed j id' ⟨hmem, ?_⟩
      by_cases hj : j = i
      · subst hj
        simp only [Gate.setMap, Gate.setSession, Function.update_self,
          Function.update_of_ne hid] at hopen hasked
        exact ⟨hopen, hasked⟩
      · simp only [Gate.setMap, Gate.setSession, Function.update_of_ne hj] at hopen hasked
        exact ⟨hopen, hasked⟩
  fresh := h.fresh
  empty sm sessions heq := absurd heq (hloop sm sessions)

/-- The subscription of a sensor ends, and no other session has asked for it. -/
theorem del (h : Kept s) {i : Nat} {id : ObjectId}
    (halone : ∀ j ∈ s.wsocks, j ≠ i → ¬s.Asks j id) :
    Kept ((s.dontNotify id).setMap i id false) where
  subscribed j id' hasks := by
    obtain ⟨hmem, hopen, hasked⟩ := hasks
    change Function.update s.asked id false id' = true
    by_cases hj : j = i
    · subst hj
      simp only [Gate.setMap, Gate.setSession, Function.update_self] at hopen hasked
      by_cases hid : id' = id
      · subst hid
        rw [Function.update_self] at hasked
        exact absurd hasked Bool.false_ne_true
      · rw [Function.update_of_ne hid] at hasked ⊢
        exact h.subscribed j id' ⟨hmem, hopen, hasked⟩
    · simp only [Gate.setMap, Gate.setSession, Function.update_of_ne hj] at hopen hasked
      have hold : s.Asks j id' := ⟨hmem, hopen, hasked⟩
      have hid : id' ≠ id := fun heq => halone j hmem hj (heq ▸ hold)
      rw [Function.update_of_ne hid]
      exact h.subscribed j id' hold
  fresh := h.fresh
  empty sm sessions heq j hj id' := by
    have hold := h.empty sm sessions heq j hj id'
    by_cases hji : j = i
    · subst hji
      simp only [Gate.setMap, Gate.setSession, Function.update_self]
      by_cases hid : id' = id
      · subst hid
        exact Function.update_self ..
      · rw [Function.update_of_ne hid]
        exact hold
    · simp only [Gate.setMap, Gate.setSession, Function.update_of_ne hji]
      exact hold

theorem sendResponse (h : Kept s) {i : Nat} {id : ObjectId} {s' : Gate}
    (hs' : s.sendResponse conf i id = some s') : Kept s' := by
  obtain ⟨ws, hws, rfl⟩ := Option.map_eq_some_iff.mp hs'
  exact h.setQuiet (UWebSocket.put_quiet hws)

theorem carryOut (h : Kept s) {i : Nat} {command : Command} {commands : List Command} {ok : Bool}
    (hloop : s.loop = .doCommand i (command :: commands)) (hpeace : s.Peaceful conf (.command ok))
    {s' : Gate} (hs' : s.carryOut conf i command ok = some s') : Kept s' := by
  have hbusy : ∀ sm sessions, s.loop ≠ .sensorInfo sm sessions true := by simp [hloop]
  unfold Gate.carryOut at hs'
  cases ok with
  | false => exact h.sendResponse hs'
  | true =>
    rw [if_pos rfl] at hs'
    unfold Gate.Peaceful at hpeace
    rw [hloop] at hpeace
    cases command with
    | ask id =>
      cases hs'
      exact h.ask hbusy i id
    | del id =>
      cases hs'
      exact h.del hpeace
    | set id value =>
      cases hs'
      exact h.setValue id value
    | get id =>
      dsimp only at hs'
      split at hs'
      · next ws hws =>
        cases hs'
        exact h.setQuiet (UWebSocket.put_quiet hws)
      · exact h.sendResponse hs'

theorem newWebSocket (h : Kept s) (idlist : List ObjectId) : Kept (s.newWebSocket conf idlist) := by
  unfold Gate.newWebSocket
  split_ifs
  · exact h
  have hold : ∀ (ws : UWebSocket), ∀ i ∈ s.wsocks,
      Function.update s.session s.created ws i = s.session i :=
    fun ws i hi => Function.update_of_ne (Nat.ne_of_lt (h.fresh i hi)) ..
  constructor
  · rintro i id ⟨hmem, hopen, hasked⟩
    dsimp only at hmem hopen hasked
    rcases List.mem_append.mp hmem with hi | hi
    · rw [hold _ i hi] at hopen hasked
      exact h.subscribed i id ⟨hi, hopen, hasked⟩
    · obtain rfl := List.mem_singleton.mp hi
      rw [Function.update_self] at hasked
      exact absurd hasked Bool.false_ne_true
  · intro i hi
    rcases List.mem_append.mp hi with hi | hi
    · exact Nat.lt_succ_of_lt (h.fresh i hi)
    · obtain rfl := List.mem_singleton.mp hi
      exact Nat.lt_succ_self _
  · intro sm sessions heq i hi id
    dsimp only
    rcases List.mem_append.mp hi with hi | hi
    · rw [hold _ i hi]
      exact h.empty sm sessions heq i hi id
    · obtain rfl := List.mem_singleton.mp hi
      rw [Function.update_self]
      rfl

theorem delWebSocket (h : Kept s) (i : Nat) : Kept (s.delWebSocket i) := by
  unfold Gate.delWebSocket
  split_ifs
  · exact ⟨fun j id hasks => h.subscribed j id ⟨List.mem_of_mem_erase hasks.1, hasks.2⟩,
      fun j hj => h.fresh j (List.mem_of_mem_erase hj),
      fun sm sessions heq j hj => h.empty sm sessions heq j (List.mem_of_mem_erase hj)⟩
  · exact h

theorem command (h : Kept s) {ok : Bool} (hpeace : s.Peaceful conf (.command ok)) :
    Kept (s.command conf ok) := by
  unfold Gate.command
  split
  · exact h.setLoop fun _ _ heq => Loop.noConfusion heq
  · next i command commands hloop =>
    split
    · next s' hs' => exact (h.carryOut hloop hpeace hs').setLoop fun _ _ heq => Loop.noConfusion heq
    · exact h.setLoop fun _ _ heq => Loop.noConfusion heq
  · exact h

theorem receiveMessage (h : Kept s) : Kept s.receiveMessage := by
  unfold Gate.receiveMessage
  split
  · next mqueue sm hloop htop =>
    refine ⟨h.subscribed, h.fresh, fun sm' sessions heq j hj => ?_⟩
    have hempty : s.wsocks.isEmpty = true := (Loop.sensorInfo.inj heq).2.2
    rw [List.isEmpty_iff.mp hempty] at hj
    exact absurd hj List.not_mem_nil
  · exact h

theorem deliver (h : Kept s) : Kept (s.deliver conf) := by
  unfold Gate.deliver
  split
  · next sm i sessions empty hloop =>
    split
    · next ws hws =>
      refine (h.setQuiet (UWebSocket.sensorInfo_quiet hws)).setLoop fun _ _ heq => ?_
      obtain ⟨-, -, rfl⟩ := Loop.sensorInfo.inj heq
      exact ⟨sm, i :: sessions, hloop⟩
    · exact h.setLoop fun _ _ heq => Loop.noConfusion heq
  · exact h

/-- No session had been there, and those that have come since have not asked yet. -/
theorem finish (h : Kept s) (ok : Bool) : Kept (s.finish ok) := by
  unfold Gate.finish
  split
  · next sm empty hloop =>
    split_ifs with hempty
    · obtain ⟨rfl, -⟩ := hempty
      refine ⟨fun j id hasks => ?_, h.fresh, fun _ _ heq => Loop.noConfusion heq⟩
      have hnot := h.empty sm [] hloop j hasks.1 id
      exact absurd (hasks.2.2.symm.trans hnot) Bool.noConfusion
    · exact h.setLoop fun _ _ heq => Loop.noConfusion heq
  · exact h

theorem step (h : Kept s) {step : GateStep} (hpeace : s.Peaceful conf step) :
    Kept (s.step conf step) := by
  cases step with
  | changed id value => exact h.setValue id value
  | newWebSocket idlist => exact h.newWebSocket idlist
  | delWebSocket i => exact h.delWebSocket i
  | onCommand i commands =>
    change Kept (s.onCommand i commands)
    unfold Gate.onCommand
    dsimp only
    split_ifs
    · exact h.setQuiet ⟨rfl, rfl⟩
    · exact h
  | sendError i =>
    change Kept (s.sendError conf i)
    unfold Gate.sendError
    split_ifs
    · cases hput : (s.session i).put conf .error with
      | none => exact h
      | some ws => exact h.setQuiet (UWebSocket.put_quiet hput)
    · exact h
  | send i =>
    change Kept (s.send i)
    unfold Gate.send
    split_ifs
    · exact h.setQuiet ⟨rfl, rfl⟩
    · exact h
  | term i =>
    change Kept (s.term i)
    unfold Gate.term
    split_ifs
    · exact h.setSession rfl fun hopen => absurd hopen Bool.noConfusion
    · exact h
  | doCommand i =>
    change Kept (s.doCommand conf i)
    unfold Gate.doCommand
    dsimp only
    split_ifs
    · have hset : Kept (s.setSession i
          { s.session i with qcmd := (s.session i).qcmd.drop conf.maxcmd }) :=
        h.setQuiet ⟨rfl, rfl⟩
      exact hset.setLoop fun _ _ heq => Loop.noConfusion heq
    · exact h
  | command ok => exact h.command hpeace
  | receiveMessage => exact h.receiveMessage
  | deliver => exact h.deliver
  | finish ok => exact h.finish ok

end Kept

/-! ## Messages on their way -/

theorem push_room {q : MQMutex SensorMessage}
    (hroom : q.mqueue.length < q.SizeOfMessageQueue.size.toNat) (sm : SensorMessage) :
    (q.push sm).mqueue = q.mqueue ++ [sm] := by
  unfold MQMutex.push
  rw [if_neg (Nat.not_lt.mpr hroom)]
  rfl

namespace Gate

theorem push_subset (hroom : s.Room) (id : ObjectId) (value : Int) :
    s.mqueue.mqueue ⊆ (s.push id value).mqueue.mqueue := by
  unfold push
  dsimp only
  rw [push_room hroom]
  exact List.subset_append_left ..

theorem setValue_subset {id : ObjectId} {value : Int} (hroom : s.ChangeHasRoom id value) :
    s.mqueue.mqueue ⊆ (s.setValue id value).mqueue.mqueue := by
  unfold setValue
  split_ifs with hsame hasked
  · exact List.Subset.refl _
  · exact push_subset (s := s.write id value) (hroom hsame hasked) id value
  · exact List.Subset.refl _

theorem setValue_loop (id : ObjectId) (value : Int) : (s.setValue id value).loop = s.loop := by
  unfold setValue
  split_ifs <;> rfl

theorem sendResponse_subset {i : Nat} {id : ObjectId} {s' : Gate}
    (hs' : s.sendResponse conf i id = some s') : s.mqueue.mqueue ⊆ s'.mqueue.mqueue := by
  obtain ⟨ws, -, rfl⟩ := Option.map_eq_some_iff.mp hs'
  exact List.Subset.refl _

theorem carryOut_subset {i : Nat} {command : Command} {commands : List Command} {ok : Bool}
    (hloop : s.loop = .doCommand i (command :: commands)) (hpeace : s.Peaceful conf (.command ok))
    {s' : Gate} (hs' : s.carryOut conf i command ok = some s') :
    s.mqueue.mqueue ⊆ s'.mqueue.mqueue := by
  unfold carryOut at hs'
  cases ok with
  | false => exact sendResponse_subset hs'
  | true =>
    rw [if_pos rfl] at hs'
    unfold Peaceful at hpeace
    rw [hloop] at hpeace
    cases command with
    | ask id =>
      cases hs'
      exact push_subset (s := { s with asked := Function.update s.asked id true }) hpeace id _
    | del id =>
      cases hs'
      exact List.Subset.refl _
    | set id value =>
      cases hs'
      exact setValue_subset hpeace
    | get id =>
      dsimp only at hs'
      split at hs'
      · cases hs'
        exact List.Subset.refl _
      · exact sendResponse_subset hs'

/-- A change comes into the queue if somebody has asked for the sensor. -/
theorem mem_setValue {id : ObjectId} {value : Int} {sm : SensorMessage}
    (hroom : s.ChangeHasRoom id value) (hchange : s.newValue id value = some sm)
    (hasked : s.asked sm.id = true) : sm ∈ (s.setValue id value).mqueue.mqueue := by
  unfold newValue at hchange
  split_ifs at hchange with hsame
  cases hchange
  have hroom : (s.write id value).Room := hroom hsame hasked
  have hasked : s.asked id = true := hasked
  unfold setValue
  rw [if_neg hsame, if_pos hasked]
  unfold push
  dsimp only
  rw [push_room hroom]
  exact List.mem_append_right _ (List.mem_singleton_self _)

namespace Coming

variable {i : Nat} {sm : SensorMessage}

theorem mono {s' : Gate} (h : s.Coming i sm) (hqueue : s.mqueue.mqueue ⊆ s'.mqueue.mqueue)
    (hloop : s'.loop = s.loop) : s'.Coming i sm := by
  unfold Coming at h ⊢
  rw [hloop]
  exact h.imp_left fun hmem => hqueue hmem

/-- What is not being delivered is in the queue. -/
theorem mem (h : s.Coming i sm) (hloop : ∀ sm' sessions empty,
    s.loop ≠ .sensorInfo sm' sessions empty) : sm ∈ s.mqueue.mqueue := by
  refine h.elim id fun hnow => ?_
  split at hnow
  · next sm' sessions empty heq => exact absurd heq (hloop sm' sessions empty)
  · exact hnow.elim

theorem command (h : s.Coming i sm) {ok : Bool} (hpeace : s.Peaceful conf (.command ok)) :
    (s.command conf ok).Coming i sm := by
  unfold Gate.command
  split
  · next hloop => exact .inl (h.mem (by simp [hloop]))
  · next i' command commands hloop =>
    have hmem : sm ∈ s.mqueue.mqueue := h.mem (by simp [hloop])
    split
    · next s' hs' => exact .inl (carryOut_subset hloop hpeace hs' hmem)
    · exact .inl hmem
  · exact h

theorem receiveMessage (h : s.Coming i sm) (hi : i ∈ s.wsocks) :
    s.receiveMessage.Coming i sm := by
  unfold Gate.receiveMessage
  split
  · next mqueue sm' hloop htop =>
    have hmem : sm ∈ s.mqueue.mqueue := h.mem (by simp [hloop])
    obtain ⟨rfl, hhead⟩ := Prod.mk.inj htop
    cases hqueue : s.mqueue.mqueue with
    | nil =>
      rw [hqueue] at hmem
      exact absurd hmem List.not_mem_nil
    | cons first later =>
      rw [hqueue] at hmem hhead
      obtain rfl := Option.some.inj hhead
      rcases List.mem_cons.mp hmem with rfl | hlater
      · exact .inr ⟨rfl, hi⟩
      · exact .inl (by simpa [hqueue] using hlater)
  · exact h

theorem deliver (h : s.Coming i sm) (hasks : s.Asks i sm.id)
    (hpeace : s.Peaceful conf .deliver) (htold : ¬s.Told conf .deliver i sm) :
    (s.deliver conf).Coming i sm := by
  cases hloop : s.loop with
  | wait => exact h.mono (by simp [Gate.deliver, hloop]) (by simp [Gate.deliver, hloop])
  | doCommand _ _ => exact h.mono (by simp [Gate.deliver, hloop]) (by simp [Gate.deliver, hloop])
  | sensorInfo sm' sessions empty =>
    cases sessions with
    | nil => exact h.mono (by simp [Gate.deliver, hloop]) (by simp [Gate.deliver, hloop])
    | cons i' sessions =>
      unfold Gate.Peaceful at hpeace
      rw [hloop] at hpeace
      obtain ⟨ws, hws⟩ := UWebSocket.sensorInfo_isSome hpeace
      have hnext : s.deliver conf =
          { s.setSession i' ws with loop := .sensorInfo sm' sessions empty } := by
        unfold Gate.deliver
        rw [hloop]
        dsimp only
        rw [hws]
      rw [hnext]
      refine h.imp_right fun hnow => ?_
      rw [hloop] at hnow
      obtain ⟨rfl, hmem⟩ := hnow
      refine ⟨rfl, (List.mem_cons.mp hmem).elim (fun heq => absurd ?_ htold) id⟩
      subst heq
      have hqueued := UWebSocket.sensorInfo_queued hws hasks.2.1 hasks.2.2
      unfold Told
      rw [hloop]
      refine ⟨rfl, rfl, hqueued.imp_right fun hin => ?_⟩
      change Json.sensorInfo sm' ∈ ((s.deliver conf).session i).jbuf
      rw [hnext]
      simpa only [setSession, Function.update_self] using hin

theorem finish (h : s.Coming i sm) (ok : Bool) : (s.finish ok).Coming i sm := by
  unfold Gate.finish
  split
  · next sm' empty hloop =>
    have hmem : sm ∈ s.mqueue.mqueue := by
      refine h.elim id fun hnow => ?_
      rw [hloop] at hnow
      exact absurd hnow.2 List.not_mem_nil
    split_ifs <;> exact .inl hmem
  · exact h

theorem step (h : s.Coming i sm) (hasks : s.Asks i sm.id) {step : GateStep}
    (hpeace : s.Peaceful conf step) (htold : ¬s.Told conf step i sm) :
    (s.step conf step).Coming i sm := by
  cases step with
  | changed id value => exact h.mono (setValue_subset hpeace) (setValue_loop id value)
  | newWebSocket idlist =>
    change (s.newWebSocket conf idlist).Coming i sm
    unfold Gate.newWebSocket
    split_ifs <;> exact h
  | delWebSocket j =>
    change (s.delWebSocket j).Coming i sm
    unfold Gate.delWebSocket
    split_ifs <;> exact h
  | onCommand j commands =>
    change (s.onCommand j commands).Coming i sm
    unfold Gate.onCommand
    dsimp only
    split_ifs <;> exact h
  | sendError j =>
    change (s.sendError conf j).Coming i sm
    unfold Gate.sendError
    split_ifs
    · cases (s.session j).put conf .error <;> exact h
    · exact h
  | send j =>
    change (s.send j).Coming i sm
    unfold Gate.send
    split_ifs <;> exact h
  | term j =>
    change (s.term j).Coming i sm
    unfold Gate.term
    split_ifs <;> exact h
  | doCommand j =>
    change (s.doCommand conf j).Coming i sm
    unfold Gate.doCommand
    dsimp only
    split_ifs with hfree
    · refine .inl (h.mem fun sm' sessions empty hloop => ?_)
      have hwait := hfree.1
      rw [hloop] at hwait
      exact Bool.false_ne_true hwait
    · exact h
  | command ok => exact h.command hpeace
  | receiveMessage => exact h.receiveMessage hasks.1
  | deliver => exact h.deliver hasks hpeace htold
  | finish ok => exact h.finish ok

end Coming

/-- A change that somebody has asked for is on its way. -/
theorem coming_change {step : GateStep} {sm : SensorMessage} (hpeace : s.Peaceful conf step)
    (hchange : s.change step = some sm) (hasked : s.asked sm.id = true) (i : Nat) :
    (s.step conf step).Coming i sm := by
  unfold change at hchange
  split at hchange
  · next id value => exact .inl (mem_setValue hpeace hchange hasked)
  · split at hchange
    · next i' id value commands hloop =>
      unfold Peaceful at hpeace
      rw [hloop] at hpeace
      change (s.command conf true).Coming i sm
      unfold Gate.command carryOut
      rw [hloop]
      exact .inl (mem_setValue hpeace hchange hasked)
    · cases hchange
  · cases hchange

end Gate

namespace Ledger

variable (conf)

/-- What is due to a session is a change of a sensor that it asks for, and is on its way. -/
structure Right (l : Ledger) : Prop where
  kept : Kept l.gate
  due : ∀ i, ∀ sm ∈ l.due i, l.gate.Asks i sm.id ∧ l.gate.Coming i sm

variable {conf}

theorem Right.step {l : Ledger} (h : l.Right) {step : GateStep}
    (hpeace : l.gate.Peaceful conf step) : (l.step conf step).Right where
  kept := h.kept.step hpeace
  due i sm hdue := by
    obtain ⟨hmem, hkeep⟩ := List.mem_filter.mp hdue
    obtain ⟨hasks, htold⟩ := of_decide_eq_true hkeep
    refine ⟨hasks, ?_⟩
    rcases List.mem_append.mp hmem with hold | hnew
    · obtain ⟨hasked, hcoming⟩ := h.due i sm hold
      exact hcoming.step hasked hpeace htold
    · obtain ⟨hchange, hasked⟩ := Option.mem_filter_iff.mp (Option.mem_toList.mp hnew)
      exact Gate.coming_change hpeace hchange
        (h.kept.subscribed i sm.id (of_decide_eq_true hasked)) i

/-- As long as the sessions leave each other in peace no change is lost. -/
theorem delivers_of_peaceful (conf : Config) (value : ObjectId → Int) (steps : List GateStep)
    (h : Guarded (step conf) (fun l => l.gate.Peaceful conf) (init conf value) steps) :
    ∀ l ∈ List.scanl (step conf) (init conf value) steps, l.Delivers := by
  have hinit : (init conf value).Right := ⟨.init value, fun _ _ hmem => absurd hmem List.not_mem_nil⟩
  intro l hl i sm hdue
  exact ((h.forall_visited (fun _ _ hright hpeace => hright.step hpeace) hinit l hl).due i sm hdue).2

/-- The gate as it is by default. -/
def default : Config where
  maxwsocks := 50
  maxsend := 5000
  maxcmd := 200
  borrowObject lent := lent < 5000
  queueSize := ⟨10000, by decide⟩
  lostStrategy := .lostOldData

/-- Two sessions ask for sensors, the second deletes its own, and the first one's changes. -/
def twoSessions (id id' : ObjectId) : List GateStep :=
  [.newWebSocket [id], .newWebSocket [id'], .doCommand 0, .command true, .command true,
    .doCommand 1, .command true, .command true, .onCommand 1 [.del id'], .doCommand 1,
    .command true, .command true, .changed id 5]

/-- One message is given to both sessions. -/
def workOff : List GateStep := [.receiveMessage, .deliver, .deliver, .finish true]

/-- The change is on its way to the first session, and comes to it after the two first values. -/
theorem delivers_twoSensors :
    let run := List.foldl (step default) (init default fun _ => 0)
    let after := twoSessions 1 2 ++ workOff ++ workOff ++ workOff
    ((run (twoSessions 1 2)).Delivers ∧
        ((run (twoSessions 1 2)).due 0).map (fun sm => (sm.id, sm.value)) = [(1, 5)]) ∧
      (run after).Delivers ∧ (run after).due 0 = [] := by
  have hdelivers (steps) (hpeace : Guarded _ _ _ steps) :=
    delivers_of_peaceful default (fun _ => 0) steps hpeace _ (foldl_mem_scanl ..)
  exact ⟨⟨hdelivers _ (by decide +kernel), by decide +kernel⟩,
    hdelivers _ (by decide +kernel), by decide +kernel⟩

/-- The second session ends the subscription of the first. -/
theorem not_delivers_sameSensor :
    ¬∀ l ∈ List.scanl (step default) (init default fun _ => 0) (twoSessions 1 1), l.Delivers := by
  intro hall
  have hcoming := hall _ (foldl_mem_scanl ..) 0 ⟨1, 5, 2⟩ (by decide)
  exact absurd hcoming (by decide)

end Ledger

end Uniset.UWebSocketGate
