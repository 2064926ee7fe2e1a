import Uniset.UNetUDP.UNetExchange

/-! Of the two channels of a node exactly one updates SharedMemory, and a loss leaves it to a
connected one as long as there is one. -/

namespace Uniset.UNetUDP

open Uniset.Lib

/-! ### What an event does to the receivers -/

theorem setLockUpdate_self (now : Nat) (st : Bool) (r : ReceiverId) (rcv : ReceiverId → Channel) :
    setLockUpdate now st r rcv r = (rcv r).setLockUpdate now st := Function.update_self _ _ _

theorem setLockUpdate_of_ne {now : Nat} {st : Bool} {r id : ReceiverId}
    {rcv : ReceiverId → Channel} (h : id ≠ r) : setLockUpdate now st r rcv id = rcv id :=
  Function.update_of_ne h _ _

namespace ReceiverInfo

def channels (it : ReceiverInfo) : Option ReceiverId × Option ReceiverId := (it.r1, it.r2)

def ids (it : ReceiverInfo) : List ReceiverId := it.r1.toList ++ it.r2.toList

/-- When there are two receivers, one of them updates and the other one is locked. -/
def Exclusive (it : ReceiverInfo) (rcv : ReceiverId → Channel) : Prop :=
  ∀ a b, it.r1 = some a → it.r2 = some b → (rcv a).lockUpdate = !(rcv b).lockUpdate

variable {now : Nat} {ev : UNetReceiver.Event} {mine : ReceiverId} {it : ReceiverInfo}
  {rcv : ReceiverId → Channel}

/-- An event does nothing, or hands the update over to one of the two receivers. -/
theorem event_cases (now : Nat) (ev : UNetReceiver.Event) (mine other : ReceiverId)
    (it : ReceiverInfo) (rcv : ReceiverId → Channel) :
    (it.event now ev mine (some other) rcv).2 = rcv ∨
    (it.event now ev mine (some other) rcv).2 =
      setLockUpdate now false other (setLockUpdate now true mine rcv) ∨
    (it.event now ev mine (some other) rcv).2 =
      setLockUpdate now true other (setLockUpdate now false mine rcv) := by
  cases ev with
  | evTimeout =>
    simp only [event]
    split
    · exact .inl rfl
    · exact .inr (.inl rfl)
  | evOK =>
    simp only [event]
    split
    · exact .inr (.inr rfl)
    · exact .inl rfl

theorem event_channels (now : Nat) (ev : UNetReceiver.Event) (mine : ReceiverId)
    (other : Option ReceiverId) (it : ReceiverInfo) (rcv : ReceiverId → Channel) :
    (it.event now ev mine other rcv).1.channels = it.channels := by
  cases ev with
  | evTimeout =>
    cases other with
    | none => rfl
    | some other => simp only [event]; split <;> rfl
  | evOK => simp only [event]; split <;> [split; skip] <;> rfl

theorem event_of_ne {other : Option ReceiverId} {id : ReceiverId} (hmine : id ≠ mine)
    (hother : other ≠ some id) : (it.event now ev mine other rcv).2 id = rcv id := by
  cases other with
  | none =>
    cases ev with
    | evTimeout => rfl
    | evOK =>
      simp only [event]
      split
      · exact setLockUpdate_of_ne hmine
      · rfl
  | some other =>
    have hne : id ≠ other := fun h => hother (by rw [h])
    rcases event_cases now ev mine other it rcv with h | h | h <;> rw [h]
    · rw [setLockUpdate_of_ne hne, setLockUpdate_of_ne hmine]
    · rw [setLockUpdate_of_ne hne, setLockUpdate_of_ne hmine]

theorem event_locks (it : ReceiverInfo) {other : ReceiverId} (hne : mine ≠ other)
    (h : (rcv mine).lockUpdate = !(rcv other).lockUpdate) :
    ((it.event now ev mine (some other) rcv).2 mine).lockUpdate =
      !((it.event now ev mine (some other) rcv).2 other).lockUpdate := by
  rcases event_cases now ev mine other it rcv with heq | heq | heq <;> rw [heq]
  · exact h
  · rw [setLockUpdate_of_ne hne, setLockUpdate_self, setLockUpdate_self]
    simp
  · rw [setLockUpdate_of_ne hne, setLockUpdate_self, setLockUpdate_self]
    simp

/-- After a loss on a channel whose other one is connected the other one updates. -/
theorem event_timeout (it : ReceiverInfo) {other : ReceiverId} (hne : mine ≠ other)
    (h : (rcv other).isRecvOK now = true) :
    ((it.event now .evTimeout mine (some other) rcv).2 mine).lockUpdate = true ∧
      ((it.event now .evTimeout mine (some other) rcv).2 other).isRecvOK now = true := by
  simp only [event, isRecvOK, h, Bool.not_true, Bool.false_eq_true, if_false]
  rw [setLockUpdate_of_ne hne, setLockUpdate_self, setLockUpdate_self,
    setLockUpdate_of_ne hne.symm]
  exact ⟨rfl, h⟩

end ReceiverInfo

/-! ### The loop over the nodes -/

def recvIds (l : List ReceiverInfo) : List ReceiverId := l.flatMap ReceiverInfo.ids

variable {now : Nat} {r : ReceiverId} {ev : UNetReceiver.Event} {l : List ReceiverInfo}
  {rcv : ReceiverId → Channel}

/-- The receivers of the nodes stay the same. -/
theorem recvlistEvent_channels (now : Nat) (r : ReceiverId) (ev : UNetReceiver.Event)
    (l : List ReceiverInfo) (rcv : ReceiverId → Channel) :
    (recvlistEvent now r ev l rcv).1.map ReceiverInfo.channels =
      l.map ReceiverInfo.channels := by
  induction l with
  | nil => rfl
  | cons it rest ih =>
    simp only [recvlistEvent]
    split_ifs
    · rw [List.map_cons, List.map_cons, ReceiverInfo.event_channels]
    · rw [List.map_cons, List.map_cons, ReceiverInfo.event_channels]
    · rw [List.map_cons, List.map_cons, ih]

theorem recvlistEvent_of_notMem {id : ReceiverId} (h : id ∉ recvIds l) :
    (recvlistEvent now r ev l rcv).2 id = rcv id := by
  induction l with
  | nil => rfl
  | cons it rest ih =>
    simp only [recvIds, List.flatMap_cons, ReceiverInfo.ids, List.mem_append, Option.mem_toList,
      not_or] at h
    obtain ⟨⟨h₁, h₂⟩, hrest⟩ := h
    simp only [recvlistEvent]
    split_ifs with hr₁ hr₂
    · exact ReceiverInfo.event_of_ne (fun h => h₁ (by rw [h]; exact hr₁)) h₂
    · exact ReceiverInfo.event_of_ne (fun h => h₂ (by rw [h]; exact hr₂)) h₁
    · exact ih hrest

/-- The event reaches the receivers of its node, and no others. -/
theorem recvlistEvent_node {it : ReceiverInfo} {a b' : ReceiverId} (hnodup : (recvIds l).Nodup)
    (hit : it ∈ l) (ha : it.r1 = some a) (hb : it.r2 = some b') {id : ReceiverId}
    (hid : id = a ∨ id = b') :
    (recvlistEvent now r ev l rcv).2 id =
      if r = a then (it.event now ev a (some b') rcv).2 id
      else if r = b' then (it.event now ev b' (some a) rcv).2 id
      else rcv id := by
  induction l with
  | nil => cases hit
  | cons x rest ih =>
    have hcons : recvIds (x :: rest) = x.ids ++ recvIds rest := rfl
    rw [hcons, List.nodup_append'] at hnodup
    obtain ⟨hx, hrest, hdisj⟩ := hnodup
    simp only [recvlistEvent]
    rcases List.mem_cons.mp hit with rfl | hit
    · have hab : a ≠ b' := by
        simp only [ReceiverInfo.ids, ha, hb, Option.toList_some] at hx
        simpa using hx
      have hnot : id ∉ recvIds rest := by
        refine List.disjoint_left.mp hdisj ?_
        rcases hid with rfl | rfl <;> simp [ReceiverInfo.ids, ha, hb]
      rw [ha, hb]
      by_cases hra : r = a
      · subst hra
        simp
      · by_cases hrb : r = b'
        · subst hrb
          simp [hra, hab]
        · have h₁ : ¬ some a = some r := fun h => hra (Option.some.inj h).symm
          have h₂ : ¬ some b' = some r := fun h => hrb (Option.some.inj h).symm
          rw [if_neg h₁, if_neg h₂, if_neg hra, if_neg hrb]
          exact recvlistEvent_of_notMem hnot
    · have hin : ∀ c, c = a ∨ c = b' → c ∉ x.ids := by
        intro c hc hmem
        refine List.disjoint_left.mp hdisj hmem ?_
        refine List.mem_flatMap.mpr ⟨it, hit, ?_⟩
        rcases hc with rfl | rfl <;> simp [ReceiverInfo.ids, ha, hb]
      have hne : ∀ c, c = a ∨ c = b' → x.r1 ≠ some c ∧ x.r2 ≠ some c := by
        intro c hc
        have h := hin c hc
        simp only [ReceiverInfo.ids, List.mem_append, Option.mem_toList, not_or] at h
        exact h
      have hr : x.r1 = some r ∨ x.r2 = some r → r ≠ a ∧ r ≠ b' := by
        intro h
        constructor <;> rintro rfl
        · exact h.elim (hne r (.inl rfl)).1 (hne r (.inl rfl)).2
        · exact h.elim (hne r (.inr rfl)).1 (hne r (.inr rfl)).2
      by_cases hr₁ : x.r1 = some r
      · rw [if_pos hr₁, if_neg (hr (.inl hr₁)).1, if_neg (hr (.inl hr₁)).2]
        exact ReceiverInfo.event_of_ne (fun h => (hne id hid).1 (by rw [h]; exact hr₁))
          (hne id hid).2
      · by_cases hr₂ : x.r2 = some r
        · rw [if_neg hr₁, if_pos hr₂, if_neg (hr (.inr hr₂)).1, if_neg (hr (.inr hr₂)).2]
          exact ReceiverInfo.event_of_ne (fun h => (hne id hid).2 (by rw [h]; exact hr₂))
            (hne id hid).1
        · rw [if_neg hr₁, if_neg hr₂]
          exact ih hrest hit

/-! ### Runs -/

namespace UNetExchange

variable {ex ex' : UNetExchange}

/-- No receiver belongs to two nodes or is both channels of one, and of the two channels of a
node one updates. -/
structure ChannelsInv (ex : UNetExchange) : Prop where
  distinct : (recvIds ex.recvlist).Nodup
  exclusive : ∀ it ∈ ex.recvlist, it.Exclusive ex.rcv

/-- The exchange as it is set up: the first channels update, the second ones are locked. -/
structure Initial (ex : UNetExchange) : Prop where
  distinct : (recvIds ex.recvlist).Nodup
  first : ∀ it ∈ ex.recvlist, ∀ a, it.r1 = some a → (ex.rcv a).lockUpdate = false
  second : ∀ it ∈ ex.recvlist, ∀ b, it.r2 = some b → (ex.rcv b).lockUpdate = true

theorem Initial.channelsInv (h : ex.Initial) : ex.ChannelsInv := by
  refine ⟨h.distinct, fun it hit a b ha hb => ?_⟩
  rw [h.first it hit a ha, h.second it hit b hb]
  rfl

theorem ids_ne {it : ReceiverInfo} {a b : ReceiverId} (hI : ex.ChannelsInv)
    (hit : it ∈ ex.recvlist) (ha : it.r1 = some a) (hb : it.r2 = some b) : a ≠ b := by
  have h := (List.nodup_flatMap.mp hI.distinct).1 it hit
  simpa [ReceiverInfo.ids, ha, hb] using h

theorem receiverEvent_node {it : ReceiverInfo} {a b id : ReceiverId} (hI : ex.ChannelsInv)
    (hit : it ∈ ex.recvlist) (ha : it.r1 = some a) (hb : it.r2 = some b) (hid : id = a ∨ id = b) :
    (ex.receiverEvent now r ev).rcv id =
      if r = a then (it.event now ev a (some b) ex.rcv).2 id
      else if r = b then (it.event now ev b (some a) ex.rcv).2 id
      else ex.rcv id :=
  recvlistEvent_node hI.distinct hit ha hb hid

theorem channelsInv_receiverEvent (hI : ex.ChannelsInv) (now : Nat) (r : ReceiverId)
    (ev : UNetReceiver.Event) : (ex.receiverEvent now r ev).ChannelsInv := by
  have hchannels := recvlistEvent_channels now r ev ex.recvlist ex.rcv
  constructor
  · have hids : ∀ l : List ReceiverInfo, recvIds l =
        (l.map ReceiverInfo.channels).flatMap fun c => c.1.toList ++ c.2.toList := by
      intro l
      rw [List.flatMap_map]
      rfl
    have heq : recvIds (ex.receiverEvent now r ev).recvlist = recvIds ex.recvlist := by
      rw [hids, hids]
      exact congrArg _ hchannels
    rw [heq]
    exact hI.distinct
  · intro it' hit' a b ha hb
    obtain ⟨it, hit, heq⟩ : ∃ it ∈ ex.recvlist, it.channels = it'.channels := by
      have hmem : it'.channels ∈ ex.recvlist.map ReceiverInfo.channels := by
        rw [← hchannels]
        exact List.mem_map_of_mem hit'
      exact List.mem_map.mp hmem
    obtain ⟨h₁, h₂⟩ := Prod.mk.inj heq
    rw [← h₁] at ha
    rw [← h₂] at hb
    have hne := ids_ne hI hit ha hb
    have hlocks := hI.exclusive it hit a b ha hb
    rw [receiverEvent_node hI hit ha hb (.inl rfl), receiverEvent_node hI hit ha hb (.inr rfl)]
    split_ifs with hra hrb
    · exact it.event_locks hne hlocks
    · have hlocks' : (ex.rcv b).lockUpdate = !(ex.rcv a).lockUpdate := by
        rw [hlocks, Bool.not_not]
      rw [it.event_locks hne.symm hlocks', Bool.not_not]
    · exact hlocks

/-- What does not touch the locks keeps the invariant. -/
theorem channelsInv_update (hI : ex.ChannelsInv) {r : ReceiverId} {c : Channel}
    (h : c.lockUpdate = (ex.rcv r).lockUpdate) :
    ChannelsInv { ex with rcv := Function.update ex.rcv r c } := by
  have hlock : ∀ id, (Function.update ex.rcv r c id).lockUpdate = (ex.rcv id).lockUpdate := by
    intro id
    by_cases hid : id = r
    · subst hid
      rw [Function.update_self, h]
    · rw [Function.update_of_ne hid]
  refine ⟨hI.distinct, fun it hit a b ha hb => ?_⟩
  rw [hlock, hlock]
  exact hI.exclusive it hit a b ha hb

theorem channelsInv_step (hI : ex.ChannelsInv) (act : Action) : (ex.step act).ChannelsInv := by
  cases act with
  | received r now => exact channelsInv_update hI (Channel.received_lockUpdate now _)
  | resetTimeout r now => exact channelsInv_update hI (Channel.resetTimeout_lockUpdate now _)
  | checkConnection r now now' =>
    have hI' := channelsInv_update hI (Channel.checkConnection_lockUpdate now (ex.rcv r))
    simp only [step, checkConnection]
    split
    · exact hI'
    · exact channelsInv_receiverEvent hI' now' r _
  | receiverEvent r ev now => exact channelsInv_receiverEvent hI now r ev

theorem checkConnection_of_event {now now' : Nat} {r : ReceiverId} {ev : UNetReceiver.Event}
    (h : (ex.checkConnection now now' r).1 = some ev) :
    (ex.checkConnection now now' r).2 = receiverEvent now' r ev
      { ex with rcv := Function.update ex.rcv r ((ex.rcv r).checkConnection now).2 } := by
  simp only [checkConnection] at h ⊢
  rw [h]

/-- After a loss on `mine` only `other` may update, and it is connected. -/
theorem receiverEvent_timeout {now : Nat} {it : ReceiverInfo} {a b mine other c : ReceiverId}
    (hI : ex.ChannelsInv) (hit : it ∈ ex.recvlist) (ha : it.r1 = some a) (hb : it.r2 = some b)
    (hsides : mine = a ∧ other = b ∨ mine = b ∧ other = a) (hc : c = a ∨ c = b)
    (hother : (ex.rcv other).isRecvOK now = true)
    (h : ((ex.receiverEvent now mine .evTimeout).rcv c).lockUpdate = false) :
    ((ex.receiverEvent now mine .evTimeout).rcv c).isRecvOK now = true := by
  have hne := ids_ne hI hit ha hb
  rw [receiverEvent_node hI hit ha hb hc] at h ⊢
  rcases hsides with ⟨rfl, rfl⟩ | ⟨rfl, rfl⟩
  · obtain ⟨hlocked, hok⟩ := it.event_timeout hne hother
    rw [if_pos rfl] at h ⊢
    rcases hc with rfl | rfl
    · rw [hlocked] at h
      cases h
    · exact hok
  · obtain ⟨hlocked, hok⟩ := it.event_timeout hne.symm hother
    rw [if_neg hne.symm, if_pos rfl] at h ⊢
    rcases hc with rfl | rfl
    · exact hok
    · rw [hlocked] at h
      cases h

/-- Of the two receivers of a node exactly one updates, and when `checkConnection` reports a loss
while one of the two is connected, the one that updates afterwards is. -/
theorem channels_exclusive {ex₀ ex : UNetExchange} (h₀ : ex₀.Initial)
    (h : Reaches (fun ex act => some (step ex act)) (fun _ _ => True) ex₀ ex)
    {it : ReceiverInfo} {a b : ReceiverId} (hit : it ∈ ex.recvlist) (ha : it.r1 = some a)
    (hb : it.r2 = some b) :
    (ex.rcv a).lockUpdate = !(ex.rcv b).lockUpdate ∧
      ∀ r now now', (r = a ∨ r = b) → now ≤ now' →
        (ex.checkConnection now now' r).1 = some .evTimeout →
        ((ex.rcv a).isRecvOK now' = true ∨ (ex.rcv b).isRecvOK now' = true) →
        ∀ c, (c = a ∨ c = b) → ((ex.checkConnection now now' r).2.rcv c).lockUpdate = false →
          ((ex.checkConnection now now' r).2.rcv c).isRecvOK now' = true := by
  have hI : ex.ChannelsInv := by
    refine h.invariant (fun {s i t} hI _ hs => ?_) h₀.channelsInv
    cases hs
    exact channelsInv_step hI i
  refine ⟨hI.exclusive it hit a b ha hb, ?_⟩
  intro r now now' hr hle hloss hconn c hc hunlocked
  have hI' := channelsInv_update hI (Channel.checkConnection_lockUpdate now (ex.rcv r))
  have hdown : (ex.rcv r).isRecvOK now' = false := Channel.not_isRecvOK_of_timeout hle hloss
  have hne := ids_ne hI hit ha hb
  rw [checkConnection_of_event hloss] at hunlocked ⊢
  have hkeep : ∀ id, id ≠ r →
      Function.update ex.rcv r ((ex.rcv r).checkConnection now).2 id = ex.rcv id :=
    fun id hid => Function.update_of_ne hid _ _
  rcases hr with rfl | rfl
  · have hb' : (ex.rcv b).isRecvOK now' = true := hconn.resolve_left (by simp [hdown])
    exact receiverEvent_timeout hI' hit ha hb (.inl ⟨rfl, rfl⟩) hc
      ((congrArg (Channel.isRecvOK now') (hkeep b hne.symm)).trans hb') hunlocked
  · have ha' : (ex.rcv a).isRecvOK now' = true := hconn.resolve_right (by simp [hdown])
    exact receiverEvent_timeout hI' hit ha hb (.inr ⟨rfl, rfl⟩) hc
      ((congrArg (Channel.isRecvOK now') (hkeep a hne)).trans ha') hunlocked

/-- Two channels start together, the second one gets a packet, the first one times out. -/
theorem channels_exclusive_loss :
    ∃ ex : UNetExchange, (ex.rcv 0).lockUpdate = false ∧ (ex.rcv 1).lockUpdate = true ∧
      ((ex.checkConnection 6000000000 6000000000 0).2.rcv 1).lockUpdate = false ∧
      ((ex.checkConnection 6000000000 6000000000 0).2.rcv 1).isRecvOK 6000000000 = true := by
  let c : Bool → Channel := fun locked =>
    ⟨locked, .setTiming 5000 0, .setTiming 2000 0, ⟨false⟩⟩
  let ex₀ : UNetExchange := ⟨[⟨some 0, some 1, 0⟩], fun r => c (r != 0)⟩
  let ex := ex₀.step (.received 1 4000000000)
  have h₀ : ex₀.Initial := by
    constructor <;> simp [ex₀, recvIds, ReceiverInfo.ids, c]
  have hrun : Reaches (fun ex act => some (step ex act)) (fun _ _ => True) ex₀ ex :=
    (Reaches.refl ex₀).tail trivial rfl
  have hswitch := (channels_exclusive h₀ hrun List.mem_cons_self rfl rfl).2 0 6000000000
    6000000000 (.inl rfl) (Nat.le_refl _) (by decide +kernel) (by decide +kernel)
  exact ⟨ex, by decide +kernel, by decide +kernel, by decide +kernel,
    hswitch 1 (.inr rfl) (by decide +kernel)⟩

end UNetExchange

end Uniset.UNetUDP
