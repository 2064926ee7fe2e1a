import Uniset.Processes.ConsumersLaws
import Uniset.Processes.Notification

/-! What the consumers of a sensor have been told, and whether it is what the sensor shows. -/

namespace Uniset.Processes

open Uniset.Lib

namespace Consumers

variable {conf : NotifyConf} {li : ConsumerInfoExt} {log : ConsumerLog} {push : Pushes}
  {ci : Option ConsumerInfo}

/-- The consumer takes the message within the attempts that a `send` has for it, or uses up those
that are left to it. -/
def Answers (push : Pushes) (ci : ConsumerInfo) : Nat → Nat → List ConsumerEvent → Prop
  | 0, _, _ => False
  | left + 1, attempt, events =>
    push events ci = true ∨ attempt = 1 ∨
      Answers push ci left (attempt - 1) (.pushed ci false :: events)

/-- Every consumer that a `send` is for answers, but for those that need not hear it. -/
def Answered (conf : NotifyConf) (push : Pushes) (ci : Option ConsumerInfo)
    (heard : ConsumerInfo → Prop) : List ConsumerInfoExt → ConsumerLog → Prop
  | [], _ => True
  | li :: clst, log =>
    (addressed ci li = true → heard li.toConsumerInfo ∨
      Answers push li.toConsumerInfo conf.sendAttemtps li.attempt log.events) ∧
    Answered conf push ci heard clst (sendTurn conf push ci li log).2

/-- What is added to what has happened tells that the consumer has taken it or is lost. -/
def Settles (ci : ConsumerInfo) (added : List ConsumerEvent) : Prop :=
  .erased ci ∈ added ∨ .pushed ci true ∈ added

theorem Settles.append_left {ci : ConsumerInfo} {added : List ConsumerEvent}
    (h : Settles ci added) (later : List ConsumerEvent) : Settles ci (later ++ added) :=
  h.imp (List.mem_append_right later) (List.mem_append_right later)

theorem Settles.append_right {ci : ConsumerInfo} {added : List ConsumerEvent}
    (h : Settles ci added) (earlier : List ConsumerEvent) : Settles ci (added ++ earlier) :=
  h.imp (List.mem_append_left earlier) (List.mem_append_left earlier)

theorem attempts_settles (push : Pushes) {left i : Nat} :
    ∃ turn, (attempts conf push left i li log).2.events = turn ++ log.events ∧
      (Answers push li.toConsumerInfo left li.attempt log.events →
        Settles li.toConsumerInfo turn) := by
  induction left generalizing i li log with
  | zero => exact ⟨[], rfl, False.elim⟩
  | succ left ih =>
    by_cases hok : push log.events li.toConsumerInfo = true
    · rw [attempts_taken hok]
      exact ⟨[.pushed li.toConsumerInfo true], rfl, fun _ => .inr List.mem_cons_self⟩
    · by_cases hlast : li.attempt = 1
      · rw [attempts_lost hok hlast]
        exact ⟨[.erased li.toConsumerInfo, .pushed li.toConsumerInfo false], rfl,
          fun _ => .inl List.mem_cons_self⟩
      · rw [attempts_more hok hlast]
        obtain ⟨turn, hevents, hsettles⟩ := @ih
          { li with
            ref := false
            lostEvents := if 0 < i then li.lostEvents + 1 else li.lostEvents
            attempt := li.attempt - 1 }
          (log.record (.pushed li.toConsumerInfo false)) (i + 1)
        refine ⟨turn ++ [.pushed li.toConsumerInfo false], ?_, fun h => ?_⟩
        · rw [hevents, List.append_assoc]
          rfl
        · have hrest := (h.resolve_left hok).resolve_left hlast
          exact (hsettles hrest).append_right _

theorem sweepList_settles {heard : ConsumerInfo → Prop} {clst : List ConsumerInfoExt}
    (h : Answered conf push ci heard clst log) :
    ∃ added, (ListCursor.sweepList (sendTurn conf push ci) clst log).2.events =
        added ++ log.events ∧
      ∀ li ∈ clst, addressed ci li = true →
        heard li.toConsumerInfo ∨ Settles li.toConsumerInfo added := by
  induction clst generalizing log with
  | nil => exact ⟨[], rfl, by simp⟩
  | cons li clst ih =>
    obtain ⟨hli, hrest⟩ := h
    obtain ⟨added, hevents, hsettles⟩ := ih hrest
    have hturn : ∃ turn, (sendTurn conf push ci li log).2.events = turn ++ log.events ∧
        (addressed ci li = true → heard li.toConsumerInfo ∨ Settles li.toConsumerInfo turn) := by
      unfold sendTurn
      split_ifs with haddr
      · obtain ⟨turn, hevents, hsettles⟩ := @attempts_settles conf li log push conf.sendAttemtps 0
        exact ⟨turn, hevents, fun _ => (hli haddr).imp_right hsettles⟩
      · exact ⟨[], rfl, fun h => absurd h haddr⟩
    obtain ⟨turn, hturn, hsettled⟩ := hturn
    refine ⟨added ++ turn, ?_, List.forall_mem_cons.mpr ⟨?_, ?_⟩⟩
    · rw [ListCursor.sweepList, hevents, hturn, List.append_assoc]
    · exact fun haddr => (hsettled haddr).imp_right fun h => h.append_left added
    · exact fun li hmem haddr => (hsettles li hmem haddr).imp_right fun h => h.append_right turn

end Consumers

/-- The messages are values that were taken, in their order, each any number of times. -/
inductive InOrder {α : Type} : List α → List α → Prop
  | nil (taken : List α) : InOrder [] taken
  | skip {messages taken : List α} (a : α) : InOrder messages taken → InOrder messages (a :: taken)
  | again {messages taken : List α} {a : α} : InOrder messages (a :: taken) →
    InOrder (a :: messages) (a :: taken)

namespace NotifiedSensor

variable {conf : NotifyConf} {ic : IOController} {s : NotifiedSensor} {push : Consumers.Pushes}

abbrev shows (s : NotifiedSensor) : Int × Bool := (s.usi.value, s.usi.undefined)

/-- The messages that the consumer has taken, the latest first. -/
def messages (received : List (ConsumerInfo × SensorMessage)) (ci : ConsumerInfo) :
    List SensorMessage :=
  received.filterMap fun (ci', sm) => if ci' = ci then some sm else none

theorem messages_cons (received : List (ConsumerInfo × SensorMessage)) (ci' ci : ConsumerInfo)
    (sm : SensorMessage) :
    messages ((ci', sm) :: received) ci =
      if ci' = ci then sm :: messages received ci else messages received ci := by
  unfold messages
  rw [List.filterMap_cons]
  split_ifs with h <;> simp [h]

/-- The last message says what the sensor shows. -/
def Informed (s : NotifiedSensor) (ci : ConsumerInfo) : Prop :=
  ∀ sm, (messages s.received ci).head? = some sm → (sm.value, sm.undefined) = s.shows

def consumers (s : NotifiedSensor) : List ConsumerInfo := s.lst.clst.map (·.toConsumerInfo)

/-- What a `send` of the sensor leaves. -/
structure SendResult (conf : NotifyConf) (s : NotifiedSensor) (ci : Option ConsumerInfo)
    (s' : NotifiedSensor) : Prop where
  usi : s'.usi = s.usi
  taken : s'.taken = s.taken
  known : s'.udataConsumerList = s.udataConsumerList
  kept : Consumers.Kept conf s'.lst
  takers : ∃ cis : List ConsumerInfo,
    s'.received = cis.map (·, s.usi.makeSensorMessage) ++ s.received
  consumers : s'.consumers ⊆ s.consumers

theorem mem_takers {added : List ConsumerEvent} {ci : ConsumerInfo} :
    ci ∈ takers added ↔ .pushed ci true ∈ added := by
  rw [takers, List.mem_filterMap]
  constructor
  · rintro ⟨e, hmem, he⟩
    split at he
    · cases he
      exact hmem
    · cases he
  · exact fun hmem => ⟨_, hmem, rfl⟩

/-- A `send` through a known list. -/
theorem send_known (hkept : Consumers.Kept conf s.lst) (hknown : s.udataConsumerList = true)
    (push : Consumers.Pushes) (ci : Option ConsumerInfo) :
    ∃ rounds added lst', Consumers.Kept conf lst' ∧
      Consumers.Sent conf ci s.lst.clst s.lst.log rounds added (lst'.clst, lst'.log) ∧
      (lst'.clst, lst'.log) =
        ListCursor.sweepList (Consumers.sendTurn conf push ci) s.lst.clst s.lst.log ∧
      s.send conf push ci =
        { s with
          lst := lst'
          received := (takers added).map (·, s.usi.makeSensorMessage) ++ s.received } := by
  obtain ⟨rounds, added, lst', hsend, hkept', hsent⟩ :=
    hkept.send push ci (Nat.lt_succ_self s.lst.clst.length)
  refine ⟨rounds, added, lst', hkept', hsent, ?_, ?_⟩
  · rw [Consumers.send, ListCursor.sweep_start _ _ _ (Nat.lt_succ_self _)] at hsend
    cases hsend
    rfl
  · have hadded : lst'.log.events.take (lst'.log.events.length - s.lst.log.events.length) =
        added := by
      rw [hsent.events, List.length_append, Nat.add_sub_cancel, List.take_left]
    rw [send, if_pos hknown, hsend]
    simp only [hadded]

theorem send_result (hkept : Consumers.Kept conf s.lst) (push : Consumers.Pushes)
    (ci : Option ConsumerInfo) : SendResult conf s ci (s.send conf push ci) := by
  by_cases hknown : s.udataConsumerList = true
  · obtain ⟨rounds, added, lst', hkept', hsent, -, hsend⟩ := send_known hkept hknown push ci
    rw [hsend]
    refine ⟨rfl, rfl, rfl, hkept', ⟨_, rfl⟩, ?_⟩
    rw [consumers, hsent.left]
    exact List.filter_subset_self _
  · rw [send, if_neg hknown]
    exact ⟨rfl, rfl, rfl, hkept, ⟨[], rfl⟩, List.Subset.refl _⟩

theorem head?_messages_of_mem {cis : List ConsumerInfo} {ci : ConsumerInfo} (h : ci ∈ cis)
    (sm : SensorMessage) (received : List (ConsumerInfo × SensorMessage)) :
    (messages (cis.map (·, sm) ++ received) ci).head? = some sm := by
  induction cis with
  | nil => cases h
  | cons ci' cis ih =>
    rw [List.map_cons, List.cons_append, messages_cons]
    split_ifs with hci
    · rfl
    · exact ih (List.mem_of_ne_of_mem (Ne.symm hci) h)

theorem messages_of_not_mem {cis : List ConsumerInfo} {ci : ConsumerInfo} (h : ci ∉ cis)
    (sm : SensorMessage) (received : List (ConsumerInfo × SensorMessage)) :
    messages (cis.map (·, sm) ++ received) ci = messages received ci := by
  induction cis with
  | nil => rfl
  | cons ci' cis ih =>
    rw [List.mem_cons, not_or] at h
    rw [List.map_cons, List.cons_append, messages_cons, if_neg (Ne.symm h.1), ih h.2]

/-- Whoever knows what the sensor shows still does after a `send`. -/
theorem Informed.send {ci : ConsumerInfo} (h : s.Informed ci) {dest : Option ConsumerInfo}
    {s' : NotifiedSensor} (hsend : SendResult conf s dest s') : s'.Informed ci := by
  obtain ⟨cis, hreceived⟩ := hsend.takers
  unfold Informed shows
  rw [hreceived, hsend.usi]
  by_cases hmem : ci ∈ cis
  · rw [head?_messages_of_mem hmem]
    rintro sm ⟨⟩
    rfl
  · rw [messages_of_not_mem hmem]
    exact h

theorem informed_of_received_nil (h : s.received = []) (ci : ConsumerInfo) : s.Informed ci := by
  intro sm hsm
  rw [h] at hsm
  cases hsm

/-- Whom the `send` was for knows what the sensor shows, if it is still in the list. -/
theorem send_informs (hkept : Consumers.Kept conf s.lst)
    (hknown : s.received = [] ∨ s.udataConsumerList = true) {dest : Option ConsumerInfo}
    (hanswered : Consumers.Answered conf push dest s.Informed s.lst.clst s.lst.log)
    {ci : ConsumerInfo} (hmem : ci ∈ (s.send conf push dest).consumers)
    (hto : ∀ c, dest = some c → c = ci) : (s.send conf push dest).Informed ci := by
  have hresult : SendResult conf s dest (s.send conf push dest) := send_result hkept push dest
  cases hknown with
  | inl hnone => exact (informed_of_received_nil hnone ci).send hresult
  | inr hknown =>
    obtain ⟨rounds, added, lst', -, hsent, hsweep, hsend⟩ := send_known hkept hknown push dest
    obtain ⟨added', hevents, hsettles⟩ := Consumers.sweepList_settles hanswered
    rw [← hsweep, hsent.events] at hevents
    cases List.append_cancel_right hevents
    rw [hsend, consumers, hsent.left, List.mem_filter, List.mem_map] at hmem
    obtain ⟨⟨li, hli, rfl⟩, hkept⟩ := hmem
    have haddr : Consumers.addressed dest li = true := by
      cases dest with
      | none => rfl
      | some c => simp [Consumers.addressed, hto c rfl]
    cases hsettles li hli haddr with
    | inl hinformed => exact hinformed.send hresult
    | inr hsettled =>
      have htaken : li.toConsumerInfo ∈ takers added :=
        mem_takers.mpr (hsettled.resolve_left (by simpa using hkept))
      intro sm hsm
      rw [hsend] at hsm ⊢
      rw [head?_messages_of_mem htaken] at hsm
      cases hsm
      rfl

/-- What a step of a thread does to what is shared. -/
inductive Turn (conf : NotifyConf) (s : NotifiedSensor) : NotifiedSensor → Prop
  | pass : Turn conf s s
  | write (usi : USensorInfo) : Turn conf s (s.write usi)
  | ask (ci : ConsumerInfo) (cmd : UIOCommand) (resolved : Bool) :
    Turn conf s { s with lst := s.lst.ask conf ci cmd resolved }
  | setUserData (known : Bool) :
    Turn conf s { s with udataConsumerList := s.udataConsumerList || known }
  | send (push : Consumers.Pushes) (dest : Option ConsumerInfo) :
    Turn conf s (s.send conf push dest)

theorem act_turn {i : CallStep} {k k' : CallState} {s' : NotifiedSensor}
    (h : act conf ic i s k = some (s', k')) : Turn conf s s' := by
  cases i with
  | call c =>
    simp only [act] at h
    split_ifs at h
    cases h
    exact .pass
  | run resolved push =>
    simp only [act] at h
    cases k with
    | idle => cases h
    | localSetValue value sup_id =>
      cases h
      exact .pass
    | checks value sup_id prevValue =>
      simp only [run] at h
      split at h <;> cases h <;> exact .pass
    | changes value sup_id prevValue retValue =>
      cases h
      exact .write _
    | notifies =>
      cases h
      exact .send push none
    | localSetUndefinedState undefined =>
      simp only [run] at h
      split at h
      · cases h
        exact .pass
      · cases h
        exact .write _
    | localFreezeValue set value sup_id =>
      simp only [run] at h
      split at h
      · cases h
        exact .pass
      · cases h
        exact .write _
    | askSensor ci cmd =>
      simp only [run] at h
      split at h <;> cases h <;> exact .pass
    | asks ci cmd =>
      cases h
      exact .ask ci cmd resolved
    | setsUserData ci cmd =>
      cases h
      exact .setUserData _
    | decides ci cmd =>
      simp only [run] at h
      split_ifs at h <;> cases h <;> exact .pass
    | sendsFirst ci =>
      cases h
      exact .send push (some ci)

/-- What holds of the messages whatever the threads do. -/
structure Ordered (conf : NotifyConf) (s : NotifiedSensor) : Prop where
  kept : Consumers.Kept conf s.lst
  shown : ∃ older, s.taken = s.shows :: older
  order : ∀ ci, InOrder ((messages s.received ci).map fun sm => (sm.value, sm.undefined)) s.taken

theorem Ordered.new (usi : USensorInfo) : Ordered conf (NotifiedSensor.new usi) :=
  ⟨.new, ⟨[], rfl⟩, fun _ => .nil _⟩

theorem inOrder_append {ci : ConsumerInfo} (sm : SensorMessage) {older : List (Int × Bool)}
    {received : List (ConsumerInfo × SensorMessage)}
    (h : InOrder ((messages received ci).map fun sm => (sm.value, sm.undefined))
      ((sm.value, sm.undefined) :: older)) (cis : List ConsumerInfo) :
    InOrder ((messages (cis.map (·, sm) ++ received) ci).map fun sm => (sm.value, sm.undefined))
      ((sm.value, sm.undefined) :: older) := by
  induction cis with
  | nil => exact h
  | cons ci' cis ih =>
    rw [List.map_cons, List.cons_append, messages_cons]
    split_ifs
    · exact .again ih
    · exact ih

theorem Turn.kept {s' : NotifiedSensor} (hturn : Turn conf s s') (h : Consumers.Kept conf s.lst) :
    Consumers.Kept conf s'.lst := by
  cases hturn with
  | pass | write | setUserData => exact h
  | ask ci cmd resolved => exact h.ask ci cmd resolved
  | send push dest => exact (send_result h push dest).kept

/-- Nothing is sent through a list that is not known. -/
theorem Turn.known {s' : NotifiedSensor} (hturn : Turn conf s s')
    (h : s.received = [] ∨ s.udataConsumerList = true) :
    s'.received = [] ∨ s'.udataConsumerList = true := by
  cases hturn with
  | pass | write | ask => exact h
  | setUserData known => exact h.imp_right fun h => by rw [h, Bool.true_or]
  | send push dest =>
    unfold NotifiedSensor.send
    split_ifs with hknown
    · cases s.lst.send conf push dest (s.lst.clst.length + 1) <;> exact .inr hknown
    · exact h

theorem Ordered.turn {s' : NotifiedSensor} (h : Ordered conf s) (hturn : Turn conf s s') :
    Ordered conf s' := by
  cases hturn with
  | pass => exact h
  | write usi => exact ⟨h.kept, ⟨s.taken, rfl⟩, fun ci => .skip _ (h.order ci)⟩
  | ask ci cmd resolved => exact ⟨h.kept.ask ci cmd resolved, h.shown, h.order⟩
  | setUserData known => exact ⟨h.kept, h.shown, h.order⟩
  | send push dest =>
    have hsend : SendResult conf s dest (s.send conf push dest) := send_result h.kept push dest
    obtain ⟨older, htaken⟩ := h.shown
    obtain ⟨cis, hreceived⟩ := hsend.takers
    refine ⟨hsend.kept, ⟨older, ?_⟩, fun ci => ?_⟩
    · rw [hsend.taken, htaken, shows, shows, hsend.usi]
    · have horder := h.order ci
      rw [hsend.taken, hreceived]
      rw [htaken] at horder ⊢
      exact inOrder_append s.usi.makeSensorMessage horder cis

end NotifiedSensor

/-- The consumer is still to be sent a first message by this thread, if it has to be. -/
def CallState.Owes (ci : ConsumerInfo) : CallState → Prop
  | .setsUserData ci' cmd => ci' = ci ∧ (cmd = .UIONotify ∨ cmd = .UIONotifyFirstNotNull)
  | .decides ci' cmd => ci' = ci ∧ (cmd = .UIONotify ∨ cmd = .UIONotifyFirstNotNull)
  | .sendsFirst ci' => ci' = ci
  | _ => False

namespace Notification

variable {τ : Type} {conf : NotifyConf} {ic : IOController} {s s' : Notification τ}

/-- A thread is about to notify the consumers. -/
def Pending (s : Notification τ) : Prop := ∃ t, s.locals t = .notifies

/-- The consumer knows what the sensor shows, or a thread is about to tell it. -/
def Served (s : Notification τ) (ci : ConsumerInfo) : Prop :=
  s.shared.Informed ci ∨ s.Pending ∨ ∃ t, (s.locals t).Owes ci

/-- The steps after which nobody waits for a message that does not come.  A writer must not come
back to the value that it has read before, unless another thread notifies.  The flag must change
with the value of an undefined state.  Consumers answer.  One that comes into the list without a
first message has not been told another value. -/
def Reported (conf : NotifyConf) (s : Notification τ) : τ × CallStep → Prop
  | (_, .call _) => True
  | (t, .run _ push) =>
    match s.locals t with
    | .changes value sup_id prevValue _ =>
      (s.shared.usi.assign value sup_id).1.value = s.shared.usi.value ∨
        (s.shared.usi.assign value sup_id).1.value ≠ prevValue ∨ s.Pending
    | .localSetUndefinedState undefined =>
      s.shared.usi.readonly = true ∨
        (s.shared.usi.assignUndefined undefined).1.value = s.shared.usi.value ∨
        s.shared.usi.undefined ≠ undefined ∨ s.Pending
    | .notifies =>
      Consumers.Answered conf push none s.shared.Informed s.shared.lst.clst s.shared.lst.log
    | .sendsFirst ci =>
      Consumers.Answered conf push (some ci) s.shared.Informed s.shared.lst.clst s.shared.lst.log
    | .asks ci cmd =>
      cmd = .UIONotifyChange → ci ∈ s.shared.consumers ∨ s.shared.Informed ci ∨ s.Pending
    | .decides ci cmd =>
      cmd = .UIONotifyFirstNotNull → s.shared.usi.value = 0 →
        ci ∉ s.shared.consumers ∨ s.shared.Informed ci ∨ s.Pending ∨
          ∃ t', t' ≠ t ∧ (s.locals t').Owes ci
    | _ => True

/-- What holds of the consumers while threads are under way. -/
structure UpToDate (conf : NotifyConf) (s : Notification τ) : Prop where
  kept : Consumers.Kept conf s.shared.lst
  known : s.shared.received = [] ∨ s.shared.udataConsumerList = true
  served : ∀ ci ∈ s.shared.consumers, s.Served ci

theorem UpToDate.new (usi : USensorInfo) : UpToDate conf (new usi : Notification τ) :=
  ⟨.new, .inl rfl, fun _ hmem => by cases hmem⟩

/-- The change of the value is noticed, or it changes nothing. -/
theorem changes_notifies {usi : USensorInfo} {value prevValue : Int} {sup_id : ObjectId}
    (retValue : Int)
    (hG : (usi.assign value sup_id).1.value = usi.value ∨
      (usi.assign value sup_id).1.value ≠ prevValue ∨ s.Pending) :
    ((usi.assign value sup_id).1.value, (usi.assign value sup_id).1.undefined) =
        (usi.value, usi.undefined) ∨
      (if prevValue = (if (usi.assign value sup_id).2 then (usi.assign value sup_id).1.value
        else retValue) then CallState.idle else .notifies) = .notifies ∨ s.Pending := by
  have hundefined : (usi.assign value sup_id).1.undefined = usi.undefined := by
    rw [USensorInfo.assign_eq]
  by_cases hsame : (usi.assign value sup_id).1.value = usi.value
  · exact .inl (by rw [hsame, hundefined])
  · have hchanged : (usi.assign value sup_id).2 = true := by
      by_contra hnot
      exact hsame (usi.assign_value_of_not_emitted value sup_id (by simpa using hnot))
    refine .inr ((hG.resolve_left hsame).imp_left fun hne => ?_)
    rw [if_pos hchanged, if_neg (Ne.symm hne)]

theorem undefined_notifies {usi : USensorInfo} {undefined : Bool}
    (hG : (usi.assignUndefined undefined).1.value = usi.value ∨ usi.undefined ≠ undefined ∨
      s.Pending) :
    ((usi.assignUndefined undefined).1.value, (usi.assignUndefined undefined).1.undefined) =
        (usi.value, usi.undefined) ∨
      (if (usi.assignUndefined undefined).2 then CallState.notifies else .idle) = .notifies ∨
        s.Pending := by
  rw [USensorInfo.assignUndefined_eq] at hG ⊢
  simp only at hG ⊢
  by_cases hflag : usi.undefined = undefined
  · subst hflag
    simpa using hG
  · refine .inr (.inl ?_)
    rw [if_pos (by simpa using hflag)]

variable [DecidableEq τ]

/-- Another thread keeps its place when one takes a step. -/
theorem Pending.update (h : s.Pending) {t : τ} (ht : s.locals t ≠ .notifies)
    (sh : NotifiedSensor) (k : CallState) :
    Pending ⟨sh, Function.update s.locals t k⟩ := by
  obtain ⟨t', ht'⟩ := h
  have hne : t' ≠ t := by
    rintro rfl
    exact ht ht'
  exact ⟨t', (Function.update_of_ne hne _ _).trans ht'⟩

theorem owed_update {ci : ConsumerInfo} {t t' : τ} (hne : t' ≠ t) (h : (s.locals t').Owes ci)
    (sh : NotifiedSensor) (k : CallState) :
    Served ⟨sh, Function.update s.locals t k⟩ ci :=
  .inr (.inr ⟨t', by simpa only [Function.update_of_ne hne] using h⟩)

/-- A consumer stays served by a step that leaves what it knows as it is, and what the thread owes
to it. -/
theorem Served.update {ci : ConsumerInfo} (h : s.Served ci) {t : τ} {sh : NotifiedSensor}
    {k : CallState} (ht : s.locals t ≠ .notifies)
    (hinformed : s.shared.Informed ci → sh.Informed ci)
    (howes : (s.locals t).Owes ci → Served ⟨sh, Function.update s.locals t k⟩ ci) :
    Served ⟨sh, Function.update s.locals t k⟩ ci := by
  rcases h with h | h | ⟨t', h⟩
  · exact .inl (hinformed h)
  · exact .inr (.inl (h.update ht sh k))
  · by_cases hne : t' = t
    · exact howes (hne ▸ h)
    · exact owed_update hne h sh k

theorem consumers_ask {sh : NotifiedSensor} {ci c : ConsumerInfo} {cmd : UIOCommand}
    {resolved : Bool} (hnodup : sh.consumers.Nodup)
    (hmem : c ∈ NotifiedSensor.consumers { sh with lst := sh.lst.ask conf ci cmd resolved }) :
    c ∈ sh.consumers ∨ (c = ci ∧ cmd ≠ .UIODontNotify) := by
  have hadd (hmem : c ∈ (sh.lst.addConsumer conf ci resolved).clst.map (·.toConsumerInfo)) :
      c ∈ sh.consumers ∨ c = ci := by
    unfold Consumers.addConsumer at hmem
    cases hre : Consumers.reorder conf ci sh.lst.clst with
    | none =>
      simp only [hre, Option.getD_none, List.map_cons, List.mem_cons] at hmem
      exact hmem.symm
    | some clst' =>
      simp only [hre, Option.getD_some, (Consumers.reorder_eq_some hnodup hre).1] at hmem
      exact .inl hmem
  cases cmd with
  | UIONotify | UIONotifyChange | UIONotifyFirstNotNull =>
    exact (hadd hmem).imp_right fun h => ⟨h, by simp⟩
  | UIODontNotify =>
    simp only [NotifiedSensor.consumers, Consumers.ask, Consumers.removeConsumer] at hmem
    split_ifs at hmem
    · exact .inl ((List.eraseP_sublist.map _).subset hmem)
    · exact .inl hmem

theorem Served.pass {ci : ConsumerInfo} (h : s.Served ci) {t : τ} {k k' : CallState}
    (hk : s.locals t = k) (ht : k ≠ .notifies) (howes : ¬k.Owes ci) :
    Served ⟨s.shared, Function.update s.locals t k'⟩ ci :=
  h.update (hk ▸ ht) id fun h => absurd (hk ▸ h) howes

/-- A write that leaves what the sensor shows, or is notified. -/
theorem Served.write {ci : ConsumerInfo} (h : s.Served ci) {t : τ} {usi : USensorInfo}
    {k : CallState} (ht : s.locals t ≠ .notifies) (howes : ¬(s.locals t).Owes ci)
    (hshows : (usi.value, usi.undefined) = s.shared.shows ∨ k = .notifies ∨ s.Pending) :
    Served ⟨s.shared.write usi, Function.update s.locals t k⟩ ci := by
  rcases hshows with hshows | rfl | hpending
  · exact h.update ht (fun hinformed sm hsm => (hinformed sm hsm).trans hshows.symm)
      fun howed => absurd howed howes
  · exact .inr (.inl ⟨t, Function.update_self _ _ _⟩)
  · exact .inr (.inl (hpending.update ht _ k))

theorem UpToDate.step {i : τ × CallStep} (h : UpToDate conf s) (hG : Reported conf s i)
    (hi : s.step conf ic i = some s') : UpToDate conf s' := by
  obtain ⟨t, i⟩ := i
  obtain ⟨sh, k', hact, rfl⟩ := Threads.step_eq_some hi
  have hturn : NotifiedSensor.Turn conf s.shared sh := NotifiedSensor.act_turn hact
  refine ⟨hturn.kept h.kept, hturn.known h.known, fun ci hmem => ?_⟩
  simp only at hact hmem
  cases i with
  | call c =>
    simp only [NotifiedSensor.act] at hact
    split_ifs at hact with hidle
    cases hact
    exact (h.served ci hmem).update (by simp [hidle]) id fun howes => by
      rw [hidle] at howes
      exact howes.elim
  | run resolved push =>
    simp only [NotifiedSensor.act] at hact
    simp only [Reported] at hG
    cases hk : s.locals t with
    | idle =>
      rw [hk] at hact
      cases hact
    | localSetValue value sup_id =>
      rw [hk] at hact
      cases hact
      exact (h.served ci hmem).pass hk (by simp) id
    | checks value sup_id prevValue =>
      rw [hk] at hact
      simp only [NotifiedSensor.run] at hact
      split at hact <;> cases hact <;> exact (h.served ci hmem).pass hk (by simp) id
    | changes value sup_id prevValue retValue =>
      rw [hk] at hact hG
      simp only [NotifiedSensor.run, Option.some.injEq, Prod.mk.injEq] at hact
      obtain ⟨rfl, rfl⟩ := hact
      exact (h.served ci hmem).write (by simp [hk]) (by rw [hk]; exact id)
        (changes_notifies retValue hG)
    | notifies =>
      rw [hk] at hact hG
      cases hact
      exact .inl (NotifiedSensor.send_informs h.kept h.known hG hmem (by simp))
    | localSetUndefinedState undefined =>
      rw [hk] at hact hG
      simp only [NotifiedSensor.run] at hact
      unfold ControllerConf.localSetUndefinedState at hact
      split_ifs at hact with hreadonly
      · cases hact
        exact (h.served ci hmem).pass hk (by simp) id
      · cases hact
        exact (h.served ci hmem).write (by simp [hk]) (by rw [hk]; exact id)
          (undefined_notifies (hG.resolve_left hreadonly))
    | localFreezeValue set value sup_id =>
      rw [hk] at hact
      simp only [NotifiedSensor.run] at hact
      split at hact
      · cases hact
        exact (h.served ci hmem).pass hk (by simp) id
      · cases hact
        exact (h.served ci hmem).write (by simp [hk]) (by rw [hk]; exact id) (.inl rfl)
    | askSensor ci' cmd =>
      rw [hk] at hact
      simp only [NotifiedSensor.run] at hact
      split at hact <;> cases hact <;> exact (h.served ci hmem).pass hk (by simp) id
    | asks ci' cmd =>
      rw [hk] at hact hG
      cases hact
      have hnone (c : ConsumerInfo) {P : Prop} (howes : (s.locals t).Owes c) : P := by
        rw [hk] at howes
        exact howes.elim
      cases consumers_ask h.kept.nodup hmem with
      | inl hold => exact (h.served ci hold).update (by simp [hk]) id (hnone ci)
      | inr hnew =>
        obtain ⟨rfl, hcmd⟩ := hnew
        cases cmd with
        | UIODontNotify => exact absurd rfl hcmd
        | UIONotify => exact .inr (.inr ⟨t, by simp [CallState.Owes]⟩)
        | UIONotifyFirstNotNull => exact .inr (.inr ⟨t, by simp [CallState.Owes]⟩)
        | UIONotifyChange =>
          have hserved : s.Served ci :=
            (hG rfl).elim (h.served ci) fun hrest => hrest.imp_right .inl
          exact hserved.update (by simp [hk]) id (hnone ci)
    | setsUserData ci' cmd =>
      rw [hk] at hact
      cases hact
      refine (h.served ci hmem).update (by simp [hk]) id fun howes => ?_
      rw [hk] at howes
      exact .inr (.inr ⟨t, by simp only [Function.update_self]; exact howes⟩)
    | decides ci' cmd =>
      rw [hk] at hact hG
      simp only [NotifiedSensor.run] at hact
      split_ifs at hact with hfirst
      · cases hact
        refine (h.served ci hmem).update (by simp [hk]) id fun howes => ?_
        rw [hk] at howes
        exact .inr (.inr ⟨t, by simp only [Function.update_self]; exact howes.1⟩)
      · cases hact
        refine (h.served ci hmem).update (by simp [hk]) id fun howes => ?_
        rw [hk] at howes
        obtain ⟨rfl, hcmd⟩ := howes
        rw [not_or, not_and_not_right] at hfirst
        have hnotNull : cmd = .UIONotifyFirstNotNull := hcmd.resolve_left hfirst.1
        rcases (hG hnotNull (hfirst.2 hnotNull)).resolve_left (not_not_intro hmem) with
          hinformed | hpending | ⟨t', hne, howed⟩
        · exact .inl hinformed
        · exact .inr (.inl (hpending.update (by simp [hk]) _ _))
        · exact owed_update hne howed _ _
    | sendsFirst ci' =>
      rw [hk] at hact hG
      cases hact
      by_cases hci : ci' = ci
      · subst hci
        exact .inl (NotifiedSensor.send_informs h.kept h.known hG hmem (by simp))
      · have hsend := NotifiedSensor.send_result h.kept push (some ci')
        exact (h.served ci (hsend.consumers hmem)).update (by simp [hk])
          (fun hinformed => hinformed.send hsend) fun howes => by
            rw [hk] at howes
            exact absurd howes hci

/-- Whatever the threads do, every consumer is told what the sensor has shown, in order.  Where all
steps are reported, nobody has been told anything old last, once no operation is under way. -/
theorem consumers_informed (conf : NotifyConf) (ic : IOController) (usi : USensorInfo) :
    (∀ s : Notification τ, Reaches (step conf ic) (fun _ _ => True) (Notification.new usi) s →
      ∀ ci, InOrder ((NotifiedSensor.messages s.shared.received ci).map
        fun sm => (sm.value, sm.undefined)) s.shared.taken) ∧
    ∀ s : Notification τ, Reaches (step conf ic) (Reported conf) (Notification.new usi) s →
      (∀ t, s.locals t = .idle) → ∀ ci ∈ s.shared.consumers, s.shared.Informed ci := by
  constructor
  · intro s h ci
    have hordered : NotifiedSensor.Ordered conf s.shared :=
      Threads.reaches_shared (fun hI hact => hI.turn (NotifiedSensor.act_turn hact)) h (.new usi)
    exact hordered.order ci
  · intro s h hidle ci hmem
    have hupToDate : UpToDate conf s := h.invariant (fun hI hG hi => hI.step hG hi) (.new usi)
    rcases hupToDate.served ci hmem with hinformed | ⟨t, ht⟩ | ⟨t, ht⟩
    · exact hinformed
    · rw [hidle t] at ht
      cases ht
    · rw [hidle t] at ht
      exact ht.elim

/-- An analog sensor that shows 0. -/
def gauge : USensorInfo := getSensorInfo ⟨2, .AI, 0, false, none, none, none, none⟩

def gaugeController : IOController := .read (.unrestricted 1) [] dependsAcyclic_nil

def gaugeConf : NotifyConf := .ofFields 10 3

/-- A step in which every push succeeds. -/
def pushes : CallStep := .run true fun _ _ => true

/-- An order with all its steps, by the first thread. -/
def ordering : List (Bool × CallStep) :=
  (true, .call (.askSensor ⟨3, 0⟩ .UIONotify)) :: List.replicate 5 (true, pushes)

/-- The consumer orders the sensor, then the value is set. -/
theorem consumers_informed_set :
    ∃ s : Notification Bool, s.shared.usi.value = 5 ∧ s.shared.consumers = [⟨3, 0⟩] ∧
      (∀ ci, InOrder ((NotifiedSensor.messages s.shared.received ci).map
        fun sm => (sm.value, sm.undefined)) s.shared.taken) ∧ s.shared.Informed ⟨3, 0⟩ := by
  obtain ⟨horder, hquiet⟩ := @consumers_informed Bool _ gaugeConf gaugeController gauge
  have h₀ : Reaches (step gaugeConf gaugeController) (Reported gaugeConf)
      (Notification.new gauge : Notification Bool) (Notification.new gauge) := .refl _
  have h₁ := h₀.tail (i := (true, .call (.askSensor ⟨3, 0⟩ .UIONotify))) (by exact trivial) rfl
  have h₂ := h₁.tail (i := (true, pushes)) (by exact trivial) rfl
  have h₃ := h₂.tail (i := (true, pushes)) (by exact fun h => by cases h) rfl
  have h₄ := h₃.tail (i := (true, pushes)) (by exact trivial) rfl
  have h₅ := h₄.tail (i := (true, pushes)) (by exact fun h => by cases h) rfl
  have h₆ := h₅.tail (i := (true, pushes)) (by exact ⟨fun _ => .inr (.inl rfl), trivial⟩)
    rfl
  have h₇ := h₆.tail (i := (false, .call (.localSetValue 5 1))) (by exact trivial) rfl
  have h₈ := h₇.tail (i := (false, pushes)) (by exact trivial) rfl
  have h₉ := h₈.tail (i := (false, pushes)) (by exact trivial) rfl
  have h₁₀ := h₉.tail (i := (false, pushes)) (by exact .inr (.inl (by decide))) rfl
  have h₁₁ := h₁₀.tail (i := (false, pushes)) (by exact ⟨fun _ => .inr (.inl rfl), trivial⟩)
    rfl
  exact ⟨_, rfl, rfl, horder _ (h₁₁.mono fun _ _ _ => trivial),
    hquiet _ h₁₁ (by decide) _ (by decide)⟩

/-- Two threads have read 0.  One sets 5 and notifies, then the other sets 0 and does not. -/
def racing : List (Bool × CallStep) :=
  [(true, .call (.localSetValue 0 1)), (true, pushes), (false, .call (.localSetValue 5 1)),
    (false, pushes), (false, pushes), (false, pushes), (false, pushes), (true, pushes),
    (true, pushes)]

def raced : Option (Notification Bool) :=
  (ordering ++ racing).foldlM (step gaugeConf gaugeController) (Notification.new gauge)

example : raced.map (fun s => (s.shared.usi.value, s.shared.received.map fun m => m.2.value)) =
    some (0, [5, 0]) := by decide

theorem consumers_not_informed :
    ¬∀ s : Notification Bool,
      Reaches (step gaugeConf gaugeController) (fun _ _ => True) (Notification.new gauge) s →
      (∀ t, s.locals t = .idle) → ∀ ci ∈ s.shared.consumers, s.shared.Informed ci := by
  intro hall
  have hraced : raced = some (raced.get (by decide)) := Option.some_get _ |>.symm
  have hreach := Reaches.of_foldlM (G := fun _ _ => True) (fun _ _ _ => trivial) hraced
  have hidle : ∀ t, (raced.get (by decide)).locals t = .idle := by decide
  have hinformed := hall _ hreach hidle ⟨3, 0⟩ (by decide) ⟨2, .AI, 5, false, 1⟩ (by decide)
  exact absurd hinformed (by decide)

end Notification

end Uniset.Processes
