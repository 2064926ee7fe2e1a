import Uniset.Processes.Consumers
import Uniset.Lib.GuardedRun

/-! No consumer stands in a list twice, each is tried once in every round, and it is lost by so
many failures one after the other. -/

namespace Uniset.Processes

open Uniset.Lib

/-- The pushes to the consumer that have failed since it took one or ordered the sensor, in what
has happened, the latest first. -/
def failuresSince (ci : ConsumerInfo) : List ConsumerEvent → Nat
  | [] => 0
  | .ordered ci' :: events => if ci' = ci then 0 else failuresSince ci events
  | .cancelled _ :: events => failuresSince ci events
  | .erased _ :: events => failuresSince ci events
  | .pushed ci' ok :: events =>
    if ci' = ci then (if ok then 0 else failuresSince ci events + 1) else failuresSince ci events

/-- Erased is the consumer whose failure was the last that is allowed, at once, and no other. -/
inductive ErasesExactly (max : Nat) : List ConsumerEvent → Prop
  | nil : ErasesExactly max []
  | ordered {events : List ConsumerEvent} (ci : ConsumerInfo) : ErasesExactly max events →
    ErasesExactly max (.ordered ci :: events)
  | cancelled {events : List ConsumerEvent} (ci : ConsumerInfo) : ErasesExactly max events →
    ErasesExactly max (.cancelled ci :: events)
  | taken {events : List ConsumerEvent} (ci : ConsumerInfo) : ErasesExactly max events →
    ErasesExactly max (.pushed ci true :: events)
  | failed {events : List ConsumerEvent} {ci : ConsumerInfo} : ErasesExactly max events →
    failuresSince ci events + 1 < max → ErasesExactly max (.pushed ci false :: events)
  | erased {events : List ConsumerEvent} {ci : ConsumerInfo} : ErasesExactly max events →
    failuresSince ci events + 1 = max →
    ErasesExactly max (.erased ci :: .pushed ci false :: events)

/-- A push, with its outcome. -/
def ConsumerEvent.push? : ConsumerEvent → Option (ConsumerInfo × Bool)
  | .pushed ci ok => some (ci, ok)
  | _ => none

namespace ErasesExactly

variable {max : Nat} {events later earlier : List ConsumerEvent} {ci : ConsumerInfo}

theorem getLast?_cons_iff {e x : ConsumerEvent} (hne : e ≠ x) (l : List ConsumerEvent) :
    (e :: l).getLast? = some x ↔ l.getLast? = some x := by
  rw [List.getLast?_cons]
  cases l.getLast? <;> simp [hne]

/-- What happens next after a failure is the loss of the consumer, when the failure is the last
that is allowed. -/
theorem failed_iff (h : ErasesExactly max events)
    (hsplit : events = later ++ .pushed ci false :: earlier) :
    failuresSince ci (.pushed ci false :: earlier) = max ↔
      later.getLast? = some (.erased ci) := by
  induction h generalizing later with
  | nil => simp at hsplit
  | ordered ci' _ ih =>
    cases later with
    | nil => simp at hsplit
    | cons e later =>
      rw [List.cons_append, List.cons.injEq] at hsplit
      rw [ih hsplit.2, ← hsplit.1, getLast?_cons_iff (by simp)]
  | cancelled ci' _ ih =>
    cases later with
    | nil => simp at hsplit
    | cons e later =>
      rw [List.cons_append, List.cons.injEq] at hsplit
      rw [ih hsplit.2, ← hsplit.1, getLast?_cons_iff (by simp)]
  | taken ci' _ ih =>
    cases later with
    | nil => simp at hsplit
    | cons e later =>
      rw [List.cons_append, List.cons.injEq] at hsplit
      rw [ih hsplit.2, ← hsplit.1, getLast?_cons_iff (by simp)]
  | failed _ hlt ih =>
    cases later with
    | nil =>
      obtain ⟨hhead, rfl⟩ := List.cons.inj hsplit
      cases hhead
      simp [failuresSince, Nat.ne_of_lt hlt]
    | cons e later =>
      rw [List.cons_append, List.cons.injEq] at hsplit
      rw [ih hsplit.2, ← hsplit.1, getLast?_cons_iff (by simp)]
  | erased _ hmax ih =>
    cases later with
    | nil => simp at hsplit
    | cons e later =>
      rw [List.cons_append, List.cons.injEq] at hsplit
      rw [← hsplit.1]
      cases later with
      | nil =>
        obtain ⟨hhead, rfl⟩ := List.cons.inj hsplit.2
        cases hhead
        simpa [failuresSince] using hmax
      | cons e' later =>
        obtain ⟨-, hsplit⟩ := hsplit
        rw [List.cons_append, List.cons.injEq] at hsplit
        rw [ih hsplit.2, ← hsplit.1, List.getLast?_cons_cons, getLast?_cons_iff (by simp)]

/-- What is erased has just failed for the last time. -/
theorem erased_after (h : ErasesExactly max events)
    (hsplit : events = later ++ .erased ci :: earlier) :
    ∃ before, earlier = .pushed ci false :: before ∧ failuresSince ci earlier = max := by
  induction h generalizing later with
  | nil => simp at hsplit
  | ordered ci' _ ih | cancelled ci' _ ih | taken ci' _ ih | failed _ _ ih =>
    cases later with
    | nil => simp at hsplit
    | cons e later => exact ih (List.cons.inj hsplit).2
  | @erased events _ _ hmax ih =>
    cases later with
    | nil =>
      obtain ⟨hhead, rfl⟩ := List.cons.inj hsplit
      cases hhead
      exact ⟨events, rfl, by simpa [failuresSince] using hmax⟩
    | cons e later =>
      cases later with
      | nil => simp at hsplit
      | cons e later => exact ih (List.cons.inj (List.cons.inj hsplit).2).2

end ErasesExactly

namespace Consumers

variable {conf : NotifyConf} {lst : Consumers} {li : ConsumerInfoExt} {log : ConsumerLog}
  {push : Pushes}

/-- The outcomes of the attempts for a consumer: all but the last are failures. -/
structure RoundOf (bound : Nat) (oks : List Bool) : Prop where
  length_le : oks.length ≤ bound
  made : 0 < bound → oks ≠ []
  fails : true ∉ oks.dropLast

theorem RoundOf.single {bound : Nat} (hbound : 0 < bound) (ok : Bool) : RoundOf bound [ok] :=
  ⟨hbound, fun _ => by simp, by simp⟩

theorem RoundOf.cons {bound : Nat} {oks : List Bool} (h : RoundOf bound oks) :
    RoundOf (bound + 1) (false :: oks) where
  length_le := Nat.succ_le_succ h.length_le
  made := fun _ => by simp
  fails := by
    cases oks with
    | nil => simp
    | cons ok oks => simpa using h.fails

/-- A consumer of the list has as many attempts left as it may still fail. -/
def Counted (conf : NotifyConf) (events : List ConsumerEvent) (li : ConsumerInfoExt) : Prop :=
  li.attempt + failuresSince li.toConsumerInfo events = conf.maxAttemtps ∧ 0 < li.attempt

/-- What the attempts for a consumer add to what has happened. -/
structure Attempted (conf : NotifyConf) (li : ConsumerInfoExt) (log : ConsumerLog)
    (oks : List Bool) (added : List ConsumerEvent)
    (result : Option ConsumerInfoExt × ConsumerLog) : Prop where
  events : result.2.events = added ++ log.events
  pushes : added.filterMap ConsumerEvent.push? =
    (oks.map fun ok => (li.toConsumerInfo, ok)).reverse
  exact : ErasesExactly conf.maxAttemtps result.2.events
  others : ∀ ci, ci ≠ li.toConsumerInfo →
    failuresSince ci result.2.events = failuresSince ci log.events ∧ .erased ci ∉ added
  erased : .erased li.toConsumerInfo ∈ added ↔ result.1 = none
  kept : ∀ li', result.1 = some li' →
    li'.toConsumerInfo = li.toConsumerInfo ∧ Counted conf result.2.events li'

theorem attempts_taken {left i : Nat} (h : push log.events li.toConsumerInfo = true) :
    attempts conf push (left + 1) i li log =
      (some { li with ref := true, smCount := li.smCount + 1, attempt := conf.maxAttemtps },
        log.record (.pushed li.toConsumerInfo true)) := by
  rw [attempts, if_pos h]

theorem attempts_lost {left i : Nat} (h : ¬push log.events li.toConsumerInfo = true)
    (hlast : li.attempt = 1) :
    attempts conf push (left + 1) i li log =
      (none, ((log.record (.pushed li.toConsumerInfo false)).lose li.id).record
        (.erased li.toConsumerInfo)) := by
  rw [attempts, if_neg h]
  simp only
  rw [if_pos ⟨conf.max_pos, hlast⟩]

theorem attempts_more {left i : Nat} (h : ¬push log.events li.toConsumerInfo = true)
    (hmore : li.attempt ≠ 1) :
    attempts conf push (left + 1) i li log =
      attempts conf push left (i + 1) { li with
        ref := false
        lostEvents := if 0 < i then li.lostEvents + 1 else li.lostEvents
        attempt := li.attempt - 1 } (log.record (.pushed li.toConsumerInfo false)) := by
  rw [attempts, if_neg h]
  simp only
  rw [if_neg fun hlast => hmore hlast.2, if_pos conf.max_pos]

theorem Attempted.untried (hexact : ErasesExactly conf.maxAttemtps log.events)
    (hcounted : Counted conf log.events li) : Attempted conf li log [] [] (some li, log) where
  events := rfl
  pushes := rfl
  exact := hexact
  others := fun _ _ => ⟨rfl, by simp⟩
  erased := by simp
  kept := by
    rintro li' ⟨⟩
    exact ⟨rfl, hcounted⟩

theorem Attempted.taken (hexact : ErasesExactly conf.maxAttemtps log.events) :
    Attempted conf li log [true] [.pushed li.toConsumerInfo true]
      (some { li with ref := true, smCount := li.smCount + 1, attempt := conf.maxAttemtps },
        log.record (.pushed li.toConsumerInfo true)) where
  events := rfl
  pushes := rfl
  exact := .taken _ hexact
  others := fun ci hci =>
    ⟨by simp only [ConsumerLog.record, failuresSince, if_neg hci.symm], by simp⟩
  erased := by simp
  kept := by
    rintro li' ⟨⟩
    exact ⟨rfl, by simp [ConsumerLog.record, failuresSince], conf.max_pos⟩

theorem Attempted.lost (hexact : ErasesExactly conf.maxAttemtps log.events)
    (hcounted : Counted conf log.events li) (hlast : li.attempt = 1) :
    Attempted conf li log [false]
      [.erased li.toConsumerInfo, .pushed li.toConsumerInfo false]
      (none, ((log.record (.pushed li.toConsumerInfo false)).lose li.id).record
        (.erased li.toConsumerInfo)) where
  events := rfl
  pushes := rfl
  exact := .erased hexact (by rw [← hcounted.1, hlast, Nat.add_comm])
  others := fun ci hci => by
    refine ⟨?_, by simp [hci]⟩
    simp only [ConsumerLog.record, ConsumerLog.lose, failuresSince, if_neg hci.symm]
  erased := by simp
  kept := by simp

/-- A failure before more attempts. -/
theorem Attempted.cons {li' : ConsumerInfoExt} {oks : List Bool} {added : List ConsumerEvent}
    {result : Option ConsumerInfoExt × ConsumerLog}
    (h : Attempted conf li' (log.record (.pushed li.toConsumerInfo false)) oks added result)
    (hsame : li'.toConsumerInfo = li.toConsumerInfo) :
    Attempted conf li log (false :: oks) (added ++ [.pushed li.toConsumerInfo false]) result where
  events := by simpa [ConsumerLog.record] using h.events
  pushes := by
    rw [List.filterMap_append, h.pushes, hsame, List.map_cons, List.reverse_cons]
    rfl
  exact := h.exact
  others := fun ci hci => by
    obtain ⟨hfails, hkept⟩ := h.others ci (hsame ▸ hci)
    refine ⟨hfails.trans ?_, by simpa using hkept⟩
    simp only [ConsumerLog.record, failuresSince, if_neg hci.symm]
  erased := by simpa [hsame] using h.erased
  kept := fun l hl => hsame ▸ h.kept l hl

/-- By induction on the attempts that are left. -/
theorem attempts_attempted {left i : Nat} (hexact : ErasesExactly conf.maxAttemtps log.events)
    (hcounted : Counted conf log.events li) :
    ∃ oks added, Attempted conf li log oks added (attempts conf push left i li log) ∧
      RoundOf left oks := by
  induction left generalizing i li log with
  | zero => exact ⟨[], [], .untried hexact hcounted, by simp, by simp, by simp⟩
  | succ left ih =>
    by_cases hok : push log.events li.toConsumerInfo = true
    · rw [attempts_taken hok]
      exact ⟨[true], _, .taken hexact, .single (Nat.succ_pos _) _⟩
    · by_cases hlast : li.attempt = 1
      · rw [attempts_lost hok hlast]
        exact ⟨[false], _, .lost hexact hcounted hlast, .single (Nat.succ_pos _) _⟩
      · rw [attempts_more hok hlast]
        obtain ⟨hsum, hpos⟩ := hcounted
        obtain ⟨oks, added, h, hround⟩ := @ih
          { li with
            ref := false
            lostEvents := if 0 < i then li.lostEvents + 1 else li.lostEvents
            attempt := li.attempt - 1 }
          (log.record (.pushed li.toConsumerInfo false)) (i + 1) (.failed hexact (by omega))
          ⟨by simp [ConsumerLog.record, failuresSince]; omega, by simp only; omega⟩
        exact ⟨false :: oks, _, h.cons rfl, hround.cons⟩

/-- The turn of a consumer that is not addressed does nothing. -/
theorem sendTurn_attempted (push : Pushes) (ci : Option ConsumerInfo)
    (hexact : ErasesExactly conf.maxAttemtps log.events) (hcounted : Counted conf log.events li) :
    ∃ oks added, Attempted conf li log oks added (sendTurn conf push ci li log) ∧
      if addressed ci li then RoundOf conf.sendAttemtps oks else oks = [] := by
  unfold sendTurn
  split_ifs
  · exact attempts_attempted hexact hcounted
  · exact ⟨[], [], .untried hexact hcounted, rfl⟩

/-- What one `send` adds to what has happened, and leaves in the list. -/
structure Sent (conf : NotifyConf) (ci : Option ConsumerInfo) (clst : List ConsumerInfoExt)
    (log : ConsumerLog) (rounds : List (ConsumerInfo × List Bool)) (added : List ConsumerEvent)
    (result : List ConsumerInfoExt × ConsumerLog) : Prop where
  events : result.2.events = added ++ log.events
  consumers : rounds.map Prod.fst = (clst.filter (addressed ci)).map (·.toConsumerInfo)
  shapes : ∀ r ∈ rounds, RoundOf conf.sendAttemtps r.2
  pushes : added.filterMap ConsumerEvent.push? =
    (rounds.flatMap fun r => r.2.map fun ok => (r.1, ok)).reverse
  left : result.1.map (·.toConsumerInfo) =
    (clst.map (·.toConsumerInfo)).filter fun ci => .erased ci ∉ added
  exact : ErasesExactly conf.maxAttemtps result.2.events
  others : ∀ ci, ci ∉ clst.map (·.toConsumerInfo) →
    failuresSince ci result.2.events = failuresSince ci log.events ∧ .erased ci ∉ added
  counted : ∀ li ∈ result.1, Counted conf result.2.events li

theorem Counted.congr {events events' : List ConsumerEvent} (h : Counted conf events li)
    (hfails : failuresSince li.toConsumerInfo events' = failuresSince li.toConsumerInfo events) :
    Counted conf events' li := by
  rw [Counted, hfails]
  exact h

theorem Sent.cons {ci : Option ConsumerInfo} {clst : List ConsumerInfoExt} {oks : List Bool}
    {turn added : List ConsumerEvent} {rounds : List (ConsumerInfo × List Bool)}
    {result : Option ConsumerInfoExt × ConsumerLog} {rest : List ConsumerInfoExt × ConsumerLog}
    (hli : li.toConsumerInfo ∉ clst.map (·.toConsumerInfo))
    (hturn : Attempted conf li log oks turn result)
    (hround : if addressed ci li then RoundOf conf.sendAttemtps oks else oks = [])
    (h : Sent conf ci clst result.2 rounds added rest) :
    Sent conf ci (li :: clst) log
      (if addressed ci li then (li.toConsumerInfo, oks) :: rounds else rounds) (added ++ turn)
      (result.1.toList ++ rest.1, rest.2) where
  events := by rw [h.events, hturn.events, List.append_assoc]
  consumers := by
    split_ifs with haddr
    · rw [List.filter_cons_of_pos haddr, List.map_cons, List.map_cons, h.consumers]
    · rw [List.filter_cons_of_neg haddr, h.consumers]
  shapes := by
    split_ifs at hround ⊢
    · exact List.forall_mem_cons.mpr ⟨hround, h.shapes⟩
    · exact h.shapes
  pushes := by
    rw [List.filterMap_append, h.pushes, hturn.pushes]
    split_ifs at hround ⊢
    · rw [List.flatMap_cons, List.reverse_append]
    · rw [hround, List.map_nil, List.reverse_nil, List.append_nil]
  left := by
    have hrest : (clst.map (·.toConsumerInfo)).filter (fun ci => .erased ci ∉ added ++ turn) =
        (clst.map (·.toConsumerInfo)).filter fun ci => .erased ci ∉ added := by
      refine List.filter_congr fun ci hci => ?_
      have hother : .erased ci ∉ turn := (hturn.others ci fun h => hli (h ▸ hci)).2
      simp [hother]
    have hhead : .erased li.toConsumerInfo ∈ added ++ turn ↔ result.1 = none := by
      rw [List.mem_append, hturn.erased, or_iff_right (h.others _ hli).2]
    rw [List.map_append, h.left, List.map_cons]
    cases hresult : result.1 with
    | none =>
      rw [List.filter_cons_of_neg (by simpa only [decide_not, Bool.not_eq_true',
        decide_eq_false_iff_not, not_not] using hhead.mpr hresult), hrest]
      rfl
    | some li' =>
      have hkept : .erased li.toConsumerInfo ∉ added ++ turn := fun hmem => by
        rw [hhead.mp hmem] at hresult
        cases hresult
      rw [List.filter_cons_of_pos (by simpa using hkept), hrest]
      simp [(hturn.kept li' hresult).1]
  exact := h.exact
  others := fun ci hci => by
    rw [List.map_cons, List.mem_cons, not_or] at hci
    obtain ⟨hfails, hkept⟩ := h.others ci hci.2
    obtain ⟨hfails', hkept'⟩ := hturn.others ci hci.1
    exact ⟨hfails.trans hfails', by simp [hkept, hkept']⟩
  counted := fun li' hmem => by
    rw [List.mem_append, Option.mem_toList] at hmem
    cases hmem with
    | inl hhead =>
      obtain ⟨hsame, hcounted⟩ := hturn.kept li' hhead
      exact hcounted.congr (h.others _ (hsame ▸ hli)).1
    | inr htail => exact h.counted li' htail

/-- By induction on the list: what comes before in it does not touch the failures of those that
come after. -/
theorem sweepList_sent (push : Pushes) (ci : Option ConsumerInfo) {clst : List ConsumerInfoExt}
    (hnodup : (clst.map (·.toConsumerInfo)).Nodup)
    (hcounted : ∀ li ∈ clst, Counted conf log.events li)
    (hexact : ErasesExactly conf.maxAttemtps log.events) :
    ∃ rounds added, Sent conf ci clst log rounds added
      (ListCursor.sweepList (sendTurn conf push ci) clst log) := by
  induction clst generalizing log with
  | nil =>
    exact ⟨[], [], rfl, rfl, by simp, rfl, rfl, hexact, fun _ _ => ⟨rfl, by simp⟩,
      by simp [ListCursor.sweepList]⟩
  | cons li clst ih =>
    rw [List.map_cons, List.nodup_cons] at hnodup
    rw [List.forall_mem_cons] at hcounted
    obtain ⟨oks, turn, hturn, hround⟩ :=
      sendTurn_attempted push ci hexact hcounted.1
    have hothers : ∀ li' ∈ clst, Counted conf (sendTurn conf push ci li log).2.events li' :=
      fun li' hmem => (hcounted.2 li' hmem).congr
        (hturn.others _ fun h => hnodup.1 (h ▸ List.mem_map_of_mem hmem)).1
    obtain ⟨rounds, added, hrest⟩ := ih hnodup.2 hothers hturn.exact
    exact ⟨_, _, hrest.cons hnodup.1 hturn hround⟩

/-- What holds of the list of a sensor between the operations. -/
structure Kept (conf : NotifyConf) (lst : Consumers) : Prop where
  nodup : (lst.clst.map (·.toConsumerInfo)).Nodup
  counted : ∀ li ∈ lst.clst, Counted conf lst.log.events li
  exact : ErasesExactly conf.maxAttemtps lst.log.events

theorem Kept.new : Kept conf Consumers.new := ⟨.nil, by simp [Consumers.new], .nil⟩

theorem Kept.send (h : Kept conf lst) (push : Pushes) (ci : Option ConsumerInfo) {fuel : Nat}
    (hfuel : lst.clst.length < fuel) :
    ∃ rounds added lst', lst.send conf push ci fuel = some lst' ∧ Kept conf lst' ∧
      Sent conf ci lst.clst lst.log rounds added (lst'.clst, lst'.log) := by
  obtain ⟨rounds, added, hsent⟩ := sweepList_sent push ci h.nodup h.counted h.exact
  refine ⟨rounds, added, ⟨_, _⟩, ?_, ⟨?_, hsent.counted, hsent.exact⟩, hsent⟩
  · rw [Consumers.send, ListCursor.sweep_start _ _ _ hfuel]
    rfl
  · rw [hsent.left]
    exact h.nodup.filter _

theorem reorder_eq_none {ci : ConsumerInfo} {clst : List ConsumerInfoExt}
    (h : reorder conf ci clst = none) : ci ∉ clst.map (·.toConsumerInfo) := by
  induction clst with
  | nil => simp
  | cons it clst ih =>
    rw [reorder] at h
    split_ifs at h with hit
    rw [Option.map_eq_none_iff] at h
    rw [List.map_cons, List.mem_cons, not_or]
    exact ⟨fun hci => hit ⟨hci ▸ rfl, hci ▸ rfl⟩, ih h⟩

/-- The order changes the attempts of the one consumer. -/
theorem reorder_eq_some {ci : ConsumerInfo} {clst clst' : List ConsumerInfoExt}
    (hnodup : (clst.map (·.toConsumerInfo)).Nodup) (h : reorder conf ci clst = some clst') :
    clst'.map (·.toConsumerInfo) = clst.map (·.toConsumerInfo) ∧ ∀ li ∈ clst',
      if li.toConsumerInfo = ci then li.attempt = conf.maxAttemtps else li ∈ clst := by
  induction clst generalizing clst' with
  | nil => cases h
  | cons it clst ih =>
    rw [List.map_cons, List.nodup_cons] at hnodup
    rw [reorder] at h
    split_ifs at h with hit
    · have hsame : it.toConsumerInfo = ci := congrArg₂ ConsumerInfo.mk hit.1 hit.2
      cases h
      refine ⟨rfl, List.forall_mem_cons.mpr ⟨by simp [hsame], fun li hmem => ?_⟩⟩
      have hne : li.toConsumerInfo ≠ ci := fun heq =>
        hnodup.1 (hsame ▸ heq ▸ List.mem_map_of_mem hmem)
      rw [if_neg hne]
      exact List.mem_cons_of_mem _ hmem
    · rw [Option.map_eq_some_iff] at h
      obtain ⟨rest, hrest, rfl⟩ := h
      obtain ⟨hkeys, hrest⟩ := ih hnodup.2 hrest
      have hne : it.toConsumerInfo ≠ ci := fun heq => hit ⟨heq ▸ rfl, heq ▸ rfl⟩
      refine ⟨by rw [List.map_cons, hkeys, List.map_cons], List.forall_mem_cons.mpr ⟨?_, ?_⟩⟩
      · rw [if_neg hne]
        exact List.mem_cons_self
      · intro li hmem
        have hli := hrest li hmem
        split_ifs at hli ⊢
        · exact hli
        · exact List.mem_cons_of_mem _ hli

theorem Counted.ordered {ci : ConsumerInfo} {events : List ConsumerEvent}
    (h : if li.toConsumerInfo = ci then li.attempt = conf.maxAttemtps else Counted conf events li) :
    Counted conf (.ordered ci :: events) li := by
  split_ifs at h with hli
  · simp [Counted, failuresSince, hli, h, conf.max_pos]
  · exact h.congr (by rw [failuresSince, if_neg (Ne.symm hli)])

theorem Kept.addConsumer (h : Kept conf lst) (ci : ConsumerInfo) (resolved : Bool) :
    Kept conf (lst.addConsumer conf ci resolved) := by
  have hexact : ErasesExactly conf.maxAttemtps (.ordered ci :: lst.log.events) :=
    .ordered ci h.exact
  cases hre : reorder conf ci lst.clst with
  | none =>
    have hnew := reorder_eq_none hre
    refine ⟨?_, ?_, hexact⟩
    · simpa [Consumers.addConsumer, hre] using And.intro (by simpa using hnew) h.nodup
    · intro li hmem
      simp only [Consumers.addConsumer, hre, Option.getD_none, List.mem_cons] at hmem
      apply Counted.ordered
      cases hmem with
      | inl hhead => simp [hhead]
      | inr htail =>
        rw [if_neg fun heq : li.toConsumerInfo = ci => hnew (heq ▸ List.mem_map_of_mem htail)]
        exact h.counted li htail
  | some clst' =>
    obtain ⟨hkeys, hmem'⟩ := reorder_eq_some h.nodup hre
    refine ⟨?_, ?_, hexact⟩
    · simp only [Consumers.addConsumer, hre, Option.getD_some, hkeys]
      exact h.nodup
    · intro li hmem
      simp only [Consumers.addConsumer, hre, Option.getD_some] at hmem
      apply Counted.ordered
      have hli := hmem' li hmem
      split_ifs at hli ⊢
      · exact hli
      · exact h.counted li hli

theorem Kept.removeConsumer (h : Kept conf lst) (cons : ConsumerInfo) :
    Kept conf (lst.removeConsumer cons) := by
  unfold Consumers.removeConsumer
  split_ifs
  · have hsub := List.eraseP_sublist (l := lst.clst)
      (p := fun li => li.id = cons.id ∧ li.node = cons.node)
    exact ⟨h.nodup.sublist (hsub.map _),
      fun li hmem => (h.counted li (hsub.subset hmem)).congr rfl, .cancelled cons h.exact⟩
  · exact h

theorem Kept.ask (h : Kept conf lst) (cons : ConsumerInfo) (cmd : UIOCommand) (resolved : Bool) :
    Kept conf (lst.ask conf cons cmd resolved) := by
  cases cmd with
  | UIONotify | UIONotifyChange | UIONotifyFirstNotNull => exact h.addConsumer cons resolved
  | UIODontNotify => exact h.removeConsumer cons

theorem length_reorder {ci : ConsumerInfo} {clst clst' : List ConsumerInfoExt}
    (h : reorder conf ci clst = some clst') : clst'.length = clst.length := by
  induction clst generalizing clst' with
  | nil => cases h
  | cons it clst ih =>
    rw [reorder] at h
    split_ifs at h
    · cases h
      rfl
    · rw [Option.map_eq_some_iff] at h
      obtain ⟨rest, hrest, rfl⟩ := h
      rw [List.length_cons, ih hrest, List.length_cons]

theorem length_ask_le (cons : ConsumerInfo) (cmd : UIOCommand) (resolved : Bool) :
    (lst.ask conf cons cmd resolved).clst.length ≤ lst.clst.length + 1 := by
  have hadd : (lst.addConsumer conf cons resolved).clst.length ≤ lst.clst.length + 1 := by
    unfold Consumers.addConsumer
    cases hre : reorder conf cons lst.clst with
    | none => simp
    | some clst' => simp [length_reorder hre]
  cases cmd with
  | UIONotify | UIONotifyChange | UIONotifyFirstNotNull => exact hadd
  | UIODontNotify =>
    simp only [Consumers.ask, Consumers.removeConsumer]
    split_ifs
    · exact Nat.le_succ_of_le (List.eraseP_sublist).length_le
    · exact Nat.le_succ _

theorem Kept.next (h : Kept conf lst) (op : ConsumersOp) : Kept conf (lst.next conf op) := by
  cases op with
  | ask ci cmd resolved => exact h.ask ci cmd resolved
  | askSensor ic usi ci cmd resolved push =>
    have hask : Kept conf (lst.ask conf ci cmd resolved) := h.ask ci cmd resolved
    rw [Consumers.next, Consumers.step, askSensor]
    cases IONotifyController.orderValue ic usi ci.id with
    | error e => exact h
    | ok value =>
      simp only
      split_ifs
      · obtain ⟨_, _, lst', hsend, hkept, -⟩ := hask.send push (some ci)
          (Nat.lt_succ_of_le (length_ask_le ci cmd resolved))
        rw [hsend]
        exact hkept
      · exact hask
  | send push ci =>
    obtain ⟨_, _, lst', hsend, hkept, -⟩ :=
      h.send push ci (show lst.clst.length < lst.clst.length + 2 by omega)
    rw [Consumers.next, Consumers.step, hsend]
    exact hkept

theorem Kept.run (h : Kept conf lst) (ops : List ConsumersOp) :
    Kept conf (ops.foldl (Consumers.next conf) lst) := by
  induction ops generalizing lst with
  | nil => exact h
  | cons op ops ih => exact ih (h.next op)

/-- After any operations no consumer stands in the list twice, and a consumer has been erased when
the failure that was allowed last had just happened, and only then.  One `send` more ends, tries
each consumer it is for in one round, in the order of the list, and erases from the list those that
are lost in it. -/
theorem consumers_kept (conf : NotifyConf) (ops : List ConsumersOp) :
    let lst := ops.foldl (next conf) Consumers.new
    (lst.clst.map (·.toConsumerInfo)).Nodup ∧
    (∀ later ci earlier, lst.log.events = later ++ .pushed ci false :: earlier →
      (failuresSince ci (.pushed ci false :: earlier) = conf.maxAttemtps ↔
        later.getLast? = some (.erased ci))) ∧
    (∀ later ci earlier, lst.log.events = later ++ .erased ci :: earlier →
      ∃ before, earlier = .pushed ci false :: before ∧
        failuresSince ci earlier = conf.maxAttemtps) ∧
    ∀ push ci, ∃ (rounds : List (ConsumerInfo × List Bool)) (added : List ConsumerEvent)
        (lst' : Consumers),
      lst.send conf push ci (lst.clst.length + 1) = some lst' ∧
      lst'.log.events = added ++ lst.log.events ∧
      rounds.map Prod.fst = (lst.clst.filter (addressed ci)).map (·.toConsumerInfo) ∧
      (∀ r ∈ rounds, RoundOf conf.sendAttemtps r.2) ∧
      added.filterMap ConsumerEvent.push? =
        (rounds.flatMap fun r => r.2.map fun ok => (r.1, ok)).reverse ∧
      lst'.clst.map (·.toConsumerInfo) =
        (lst.clst.map (·.toConsumerInfo)).filter fun ci => .erased ci ∉ added := by
  intro lst
  have h : Kept conf lst := Kept.new.run ops
  refine ⟨h.nodup, fun _ _ _ => h.exact.failed_iff, fun _ _ _ => h.exact.erased_after, ?_⟩
  intro push ci
  obtain ⟨rounds, added, lst', hsend, -, hsent⟩ := h.send push ci (Nat.lt_succ_self _)
  exact ⟨rounds, added, lst', hsend, hsent.events, hsent.consumers, hsent.shapes, hsent.pushes,
    hsent.left⟩

end Consumers

end Uniset.Processes
