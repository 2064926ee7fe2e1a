import Uniset.Processes.IONotifyController
import Uniset.Processes.IOControllerLaws
import Uniset.Lib.Hysteresis
import Uniset.Lib.GuardedRun

/-! The state of every threshold is the hysteresis of the values that its sensor has shown
since the threshold is there. -/

namespace Uniset.Processes

open Uniset.Lib

namespace UThresholdInfo

def hysteresis (it : UThresholdInfo) : Hysteresis Int ThresholdState :=
  if it.invert then
    ⟨fun v => it.hilimit ≤ v, fun v => v ≤ it.lowlimit, .NormalThreshold, .LowThreshold⟩
  else ⟨fun v => v ≤ it.lowlimit, fun v => it.hilimit ≤ v, .NormalThreshold, .HiThreshold⟩

variable {it it' : UThresholdInfo}

theorem nextState_eq (it : UThresholdInfo) (value : Int) :
    it.nextState value = it.hysteresis.next it.state value := by
  cases h : it.invert <;> simp [nextState, hysteresis, Hysteresis.next, h]

theorem hysteresis_ne (it : UThresholdInfo) : it.hysteresis.offState ≠ it.hysteresis.onState := by
  cases h : it.invert <;> simp [hysteresis, h]

theorem offState_eq (it : UThresholdInfo) : it.hysteresis.offState = .NormalThreshold := by
  cases h : it.invert <;> simp [hysteresis, h]

/-- The value takes the threshold out of its normal state. -/
def Trips (it : UThresholdInfo) (value : Int) : Prop :=
  if it.invert then value ≤ it.lowlimit else it.hilimit ≤ value

instance (it : UThresholdInfo) (value : Int) : Decidable (it.Trips value) :=
  inferInstanceAs (Decidable (if it.invert then value ≤ it.lowlimit else it.hilimit ≤ value))

theorem trips_iff (it : UThresholdInfo) (value : Int) :
    it.Trips value ↔ it.hysteresis.on value := by
  cases h : it.invert <;> simp [Trips, hysteresis, h]

theorem agrees_start_iff (it : UThresholdInfo) (value : Int) :
    it.hysteresis.Agrees .NormalThreshold value [] .NormalThreshold ↔ ¬it.Trips value := by
  rw [trips_iff, ← it.offState_eq]
  exact Hysteresis.agrees_start_iff it.hysteresis_ne

/-- Everything but the state and the consumers. -/
structure SameBand (it it' : UThresholdInfo) : Prop where
  id : it'.id = it.id
  lowlimit : it'.lowlimit = it.lowlimit
  hilimit : it'.hilimit = it.hilimit
  invert : it'.invert = it.invert

theorem SameBand.refl (it : UThresholdInfo) : SameBand it it := ⟨rfl, rfl, rfl, rfl⟩

theorem SameBand.trans {it₁ it₂ it₃ : UThresholdInfo} (h : SameBand it₁ it₂)
    (h' : SameBand it₂ it₃) : SameBand it₁ it₃ :=
  ⟨h'.id.trans h.id, h'.lowlimit.trans h.lowlimit, h'.hilimit.trans h.hilimit,
    h'.invert.trans h.invert⟩

theorem SameBand.hysteresis (h : SameBand it it') : it'.hysteresis = it.hysteresis := by
  unfold UThresholdInfo.hysteresis
  rw [h.lowlimit, h.hilimit, h.invert]

theorem nextState_nextState (it : UThresholdInfo) (value : Int) :
    ({ it with state := it.nextState value } : UThresholdInfo).nextState value =
      it.nextState value := by
  have hband : ({ it with state := it.nextState value } : UThresholdInfo).hysteresis =
      it.hysteresis := SameBand.hysteresis ⟨rfl, rfl, rfl, rfl⟩
  rw [nextState_eq, hband]
  simp only [nextState_eq, Hysteresis.next_next]

/-- A state for which the value asks the same. -/
structure SameNext (value : Int) (it it' : UThresholdInfo) : Prop where
  band : SameBand it it'
  next : it'.nextState value = it.nextState value

theorem SameNext.refl (value : Int) (it : UThresholdInfo) : SameNext value it it :=
  ⟨.refl it, rfl⟩

theorem SameNext.nextState (value : Int) (it : UThresholdInfo) :
    SameNext value it { it with state := it.nextState value } :=
  ⟨⟨rfl, rfl, rfl, rfl⟩, it.nextState_nextState value⟩

/-- Everything but the consumers. -/
def SameState (it it' : UThresholdInfo) : Prop := SameBand it it' ∧ it'.state = it.state

theorem SameState.refl (it : UThresholdInfo) : SameState it it := ⟨.refl it, rfl⟩

end UThresholdInfo

open UThresholdInfo

def Stores (tid : Int) (usi : USensorInfo) : Prop := ∃ it ∈ usi.thresholds, it.id = tid

instance (tid : Int) : DecidablePred (Stores tid) := fun usi =>
  inferInstanceAs (Decidable (∃ it ∈ usi.thresholds, it.id = tid))

/-- The values shown since the threshold is stored, from the latest on. -/
def valuesSince (tid : Int) (past : List USensorInfo) : List Int :=
  (past.filter (Stores tid)).map USensorInfo.value

/-- A sensor and what it was before, from the latest on. -/
structure History where
  cur : USensorInfo
  past : List USensorInfo

namespace History

def push (h : History) (usi : USensorInfo) : History := ⟨usi, h.cur :: h.past⟩

/-- Every stored threshold has the state that the values ask for. -/
def ThresholdsAgree (h : History) : Prop :=
  ∀ it ∈ h.cur.thresholds, it.hysteresis.Agrees .NormalThreshold h.cur.value
    (valuesSince it.id h.past) it.state

/-- What every history keeps: no threshold is ever dropped. -/
structure Sound (h : History) : Prop where
  plain : h.cur.Plain
  kept : ∀ usi ∈ h.past, ∀ tid, Stores tid usi → Stores tid h.cur

variable {h : History} {it it' : UThresholdInfo} {usi : USensorInfo}

theorem Sound.push (hs : h.Sound) (hplain : usi.Plain)
    (hkept : ∀ tid, Stores tid h.cur → Stores tid usi) : (h.push usi).Sound where
  plain := hplain
  kept u hu tid htid := by
    rcases List.mem_cons.mp hu with rfl | hu
    · exact hkept tid htid
    · exact hkept tid (hs.kept u hu tid htid)

theorem valuesSince_push (hmem : it ∈ h.cur.thresholds) :
    valuesSince it.id (h.push usi).past = h.cur.value :: valuesSince it.id h.past := by
  have hstores : Stores it.id h.cur := ⟨it, hmem, rfl⟩
  simp [valuesSince, push, hstores]

/-- A threshold that is not stored has seen no value. -/
theorem Sound.valuesSince_nil (hs : h.Sound) {tid : Int} (hnew : ¬Stores tid h.cur) :
    valuesSince tid (h.push usi).past = [] := by
  have hpast : ∀ u ∈ (h.push usi).past, ¬Stores tid u := by
    intro u hu htid
    rcases List.mem_cons.mp hu with rfl | hu
    · exact hnew htid
    · exact hnew (hs.kept u hu tid htid)
  simpa [valuesSince] using hpast

theorem ThresholdsAgree.state (ha : h.ThresholdsAgree) (hmem : it ∈ h.cur.thresholds) :
    it.state = it.hysteresis.last .NormalThreshold (h.cur.value :: valuesSince it.id h.past) :=
  ((Hysteresis.agrees_iff it.hysteresis_ne).mp (ha it hmem)).2

/-- A threshold after a step: its new state is the one that the new value asks for of the old. -/
theorem agrees_next_iff {value : Int} {vs : List Int} (hsame : SameBand it it')
    (hstate : it.state = it.hysteresis.last .NormalThreshold vs) :
    it'.hysteresis.Agrees .NormalThreshold value vs it'.state ↔
      ¬it.hysteresis.Torn value ∧ it'.state = it.nextState value := by
  rw [hsame.hysteresis, Hysteresis.agrees_iff it.hysteresis_ne, Hysteresis.last_cons, ← hstate,
    it.nextState_eq]

theorem ThresholdsAgree.agrees_push_iff (ha : h.ThresholdsAgree) (hmem : it ∈ h.cur.thresholds)
    (hsame : SameBand it it') :
    it'.hysteresis.Agrees .NormalThreshold usi.value (valuesSince it'.id (h.push usi).past)
        it'.state ↔
      ¬it.hysteresis.Torn usi.value ∧ it'.state = it.nextState usi.value := by
  rw [hsame.id, valuesSince_push hmem]
  exact agrees_next_iff hsame (ha.state hmem)

/-- A value that stays asks for nothing new. -/
theorem ThresholdsAgree.same (ha : h.ThresholdsAgree) (hmem : it ∈ h.cur.thresholds) :
    ¬it.hysteresis.Torn h.cur.value ∧ it.state = it.nextState h.cur.value := by
  refine ⟨((Hysteresis.agrees_iff it.hysteresis_ne).mp (ha it hmem)).1, ?_⟩
  rw [it.nextState_eq]
  conv_rhs => rw [ha.state hmem]
  rw [Hysteresis.last_cons, Hysteresis.next_next, ← Hysteresis.last_cons, ha.state hmem]

end History

theorem forall_iff_of_forall₂ {α β : Type} {S R : α → β → Prop} {P : β → Prop} {l : List α}
    {l' : List β} (hS : List.Forall₂ S l l')
    (h : ∀ a ∈ l, ∀ b, S a b → (P b ↔ R a b)) : (∀ b ∈ l', P b) ↔ List.Forall₂ R l l' := by
  induction hS with
  | nil => simp
  | cons hab _ ih =>
    rw [List.forall_mem_cons, List.forall₂_cons, h _ List.mem_cons_self _ hab,
      ih fun a ha b => h a (List.mem_cons_of_mem _ ha) b]

theorem forall₂_trans {α : Type} {R S T : α → α → Prop} (hT : ∀ a b c, R a b → S b c → T a c)
    {l l' l'' : List α} (h : List.Forall₂ R l l') (h' : List.Forall₂ S l' l'') :
    List.Forall₂ T l l'' := by
  induction h generalizing l'' with
  | nil =>
    cases h'
    exact .nil
  | cons hab _ ih =>
    cases h' with
    | cons hbc htail => exact .cons (hT _ _ _ hab hbc) (ih htail)

namespace History

variable {h : History} {it it' : UThresholdInfo} {usi : USensorInfo}

theorem ThresholdsAgree.push_iff (ha : h.ThresholdsAgree)
    (hsame : List.Forall₂ SameBand h.cur.thresholds usi.thresholds) :
    (h.push usi).ThresholdsAgree ↔
      (∀ it ∈ h.cur.thresholds, ¬it.hysteresis.Torn usi.value) ∧
      List.Forall₂ (fun it it' => it'.state = it.nextState usi.value) h.cur.thresholds
        usi.thresholds := by
  rw [← List.forall₂_and_left]
  exact forall_iff_of_forall₂ hsame fun it hmem it' hband => ha.agrees_push_iff hmem hband

theorem start_unchanged_iff (hnormal : ∀ it ∈ usi.thresholds, it.state = .NormalThreshold) :
    (History.mk usi []).ThresholdsAgree ↔ ∀ it ∈ usi.thresholds, ¬it.Trips usi.value := by
  refine forall₂_congr fun it hmem => ?_
  rw [hnormal it hmem]
  exact it.agrees_start_iff usi.value

/-- A sensor without a past whose thresholds were all normal. -/
theorem start_iff {usi₀ : USensorInfo} (hnormal : ∀ it ∈ usi₀.thresholds, it.state = .NormalThreshold)
    (hsame : List.Forall₂ SameBand usi₀.thresholds usi.thresholds) :
    (History.mk usi []).ThresholdsAgree ↔
      (∀ it ∈ usi₀.thresholds, ¬it.hysteresis.Torn usi.value) ∧
      List.Forall₂ (fun it it' => it'.state = it.nextState usi.value) usi₀.thresholds
        usi.thresholds := by
  rw [← List.forall₂_and_left]
  exact forall_iff_of_forall₂ hsame fun it hmem it' hband =>
    agrees_next_iff hband (hnormal it hmem)

/-- A sensor whose value and whose states stay as they are. -/
theorem ThresholdsAgree.push_sameState (ha : h.ThresholdsAgree)
    (hstate : List.Forall₂ SameState h.cur.thresholds usi.thresholds)
    (hvalue : usi.value = h.cur.value) : (h.push usi).ThresholdsAgree := by
  rw [ha.push_iff (hstate.imp fun _ _ h => h.1), hvalue]
  refine ⟨fun it hmem => (ha.same hmem).1, ?_⟩
  have hnext : ∀ it ∈ h.cur.thresholds, it.state = it.nextState h.cur.value := fun it hmem =>
    (ha.same hmem).2
  exact ((List.forall₂_and_left ..).mpr ⟨hnext, hstate⟩).imp fun _ _ h => h.2.2.trans h.1

theorem ThresholdsAgree.push_same (ha : h.ThresholdsAgree)
    (hthresholds : usi.thresholds = h.cur.thresholds) (hvalue : usi.value = h.cur.value) :
    (h.push usi).ThresholdsAgree :=
  ha.push_sameState (hthresholds ▸ List.forall₂_same.mpr fun it _ => .refl it) hvalue

end History

namespace IONotifyController

variable {ic : IOController} {io io' : IOStateList} {usi : USensorInfo} {sup_id : ObjectId}

/-- A threshold with no sensor of its own, or whose sensor can be set. -/
def LinkAccepts (ic : IOController) (io : IOStateList) (sid sup_id : ObjectId) : Prop :=
  sid = DefaultObjectId ∨ sid ∈ ic.slots.nodes ∧ ic.conf.Accepts (io sid) (ic.supplierOf sup_id)

instance (sid sup_id : ObjectId) : Decidable (LinkAccepts ic io sid sup_id) :=
  inferInstanceAs (Decidable (_ ∨ _ ∧ _))

/-- The check gets through the thresholds: when the sensor of one that changes cannot be set,
those after it have nothing to change. -/
def Passes (ic : IOController) (io : IOStateList) (sup_id : ObjectId) (value : Int) :
    List UThresholdInfo → Prop
  | [] => True
  | it :: ti =>
    if it.state = it.nextState value ∨ LinkAccepts ic io it.sid sup_id then
      Passes ic io sup_id value ti
    else ∀ t ∈ ti, t.state = t.nextState value

/-- Thresholds without sensors of their own hold nothing up. -/
theorem passes_of_unlinked (value : Int) {ti : List UThresholdInfo}
    (h : ∀ it ∈ ti, it.sid = DefaultObjectId) : Passes ic io sup_id value ti := by
  induction ti with
  | nil => exact trivial
  | cons it ti ih =>
    rw [Passes, if_pos (.inr (.inl (h it List.mem_cons_self)))]
    exact ih fun t ht => h t (List.mem_cons_of_mem _ ht)

theorem setValue_accepts (sid : ObjectId) (value : Int) (hne : sid ≠ DefaultObjectId)
    (h : LinkAccepts ic io sid sup_id) : ∃ v, (ic.setValue io sid value sup_id).2 = .ok v := by
  obtain ⟨hmem, ha⟩ := h.resolve_left hne
  unfold IOController.setValue
  rw [if_pos ⟨hne, hmem⟩, ControllerConf.localSetValue_accepts ha]
  exact ⟨_, rfl⟩

theorem setValue_refuses (sid : ObjectId) (value : Int) (h : ¬LinkAccepts ic io sid sup_id) :
    ∃ e, (ic.setValue io sid value sup_id).2 = .error e := by
  unfold LinkAccepts at h
  rw [not_or, not_and] at h
  unfold IOController.setValue
  split_ifs with hfound
  · obtain ⟨e, he⟩ := ControllerConf.localSetValue_refuses (h.2 hfound.2) value
    rw [he]
    exact ⟨e, rfl⟩
  · exact ⟨_, rfl⟩

theorem linkAccepts_congr (hruns : SensorRuns io io') (sid sup_id : ObjectId) :
    LinkAccepts ic io' sid sup_id ↔ LinkAccepts ic io sid sup_id := by
  unfold LinkAccepts
  rw [(hruns sid).accepts_iff]

theorem sensorRuns_setValue (sid : ObjectId) (value : Int) (sup_id : ObjectId) :
    SensorRuns io (ic.setValue io sid value sup_id).1 :=
  IOController.step_sensorRuns io (.setValue sid value sup_id)

/-- Whether or not it gets through, the check leaves what the value asks for. -/
theorem checkThresholds_sameNext (value : Int) (send_msg : Bool) (ti : List UThresholdInfo) :
    ∀ io : IOStateList, List.Forall₂ (SameNext value) ti
      (checkThresholds ic value sup_id send_msg ti io).1 := by
  induction ti with
  | nil => exact fun _ => .nil
  | cons it ti ih =>
    intro io
    unfold checkThresholds
    simp only
    split
    · exact .cons (.refl value it) (ih io)
    · split
      · exact .cons (.nextState value it) (List.forall₂_same.mpr fun it _ => .refl value it)
      · exact .cons (.nextState value it) (ih _)

theorem checkThresholds_sameBand (value : Int) (send_msg : Bool) (ti : List UThresholdInfo)
    (io : IOStateList) :
    List.Forall₂ SameBand ti (checkThresholds ic value sup_id send_msg ti io).1 :=
  (checkThresholds_sameNext value send_msg ti io).imp fun _ _ h => h.band

theorem checkThresholds_state_of_none {value : Int} {send_msg : Bool} {ti : List UThresholdInfo} :
    ∀ {io : IOStateList}, (checkThresholds ic value sup_id send_msg ti io).2.2.2 = none →
      List.Forall₂ (fun it it' => it'.state = it.nextState value) ti
        (checkThresholds ic value sup_id send_msg ti io).1 := by
  induction ti with
  | nil => exact fun _ => .nil
  | cons it ti ih =>
    intro io hnone
    unfold checkThresholds at hnone ⊢
    simp only at hnone ⊢
    split at hnone
    · next hstay =>
      rw [if_pos hstay]
      exact .cons hstay (ih hnone)
    · next hmove =>
      rw [if_neg hmove]
      split at hnone
      · cases hnone
      · exact .cons rfl (ih hnone)

/-- The check gives every threshold its new state exactly when it gets through. -/
theorem checkThresholds_iff (value : Int) (send_msg : Bool) (ti : List UThresholdInfo) :
    ∀ {io' : IOStateList}, SensorRuns io io' →
      (List.Forall₂ (fun it it' => it'.state = it.nextState value) ti
          (checkThresholds ic value sup_id send_msg ti io').1 ↔
        Passes ic io sup_id value ti) := by
  induction ti with
  | nil => exact fun _ => by simp [checkThresholds, Passes]
  | cons it ti ih =>
    intro io' hruns
    unfold checkThresholds Passes
    simp only
    by_cases hstay : it.state = it.nextState value
    · rw [if_pos hstay, if_pos (.inl hstay), List.forall₂_cons, ih hruns]
      exact and_iff_right hstay
    · rw [if_neg hstay]
      by_cases hsid : it.sid = DefaultObjectId
      · have hlink : LinkAccepts ic io it.sid sup_id := .inl hsid
        rw [if_neg (not_not.mpr hsid), if_pos (Or.inr hlink : _ ∨ _), List.forall₂_cons, ih hruns]
        exact and_iff_right rfl
      · rw [if_pos hsid]
        generalize hset : (if decide (it.nextState value ≠ .NormalThreshold) = true then (1 : Int)
          else 0) = shown
        have hruns' : SensorRuns io (ic.setValue io' it.sid shown sup_id).1 :=
          IOController.SensorRuns.trans hruns (sensorRuns_setValue it.sid shown sup_id)
        rcases hres : ic.setValue io' it.sid shown sup_id with ⟨io₂, res⟩
        rw [hres] at hruns'
        by_cases hlink : LinkAccepts ic io it.sid sup_id
        · have hlink' : LinkAccepts ic io' it.sid sup_id :=
            (linkAccepts_congr hruns it.sid sup_id).mpr hlink
          obtain ⟨v, hv⟩ := setValue_accepts it.sid shown hsid hlink'
          rw [hres] at hv
          cases hv
          rw [if_pos (Or.inr hlink : _ ∨ _), List.forall₂_cons, ih hruns']
          exact and_iff_right rfl
        · have hlink' : ¬LinkAccepts ic io' it.sid sup_id :=
            mt (linkAccepts_congr hruns it.sid sup_id).mp hlink
          obtain ⟨e, he⟩ := setValue_refuses it.sid shown hlink'
          rw [hres] at he
          cases he
          rw [if_neg (not_or.mpr ⟨hstay, hlink⟩), List.forall₂_cons, List.forall₂_same]
          exact and_iff_right rfl

/-- A new value by `sup_id` is followed by all thresholds. -/
def Tracked (ic : IOController) (io : IOStateList) (sup_id : ObjectId) (usi : USensorInfo)
    (value : Int) : Prop :=
  (∀ it ∈ usi.thresholds, ¬it.hysteresis.Torn value) ∧
    (value ≠ usi.value → Passes ic io sup_id value usi.thresholds)

theorem notify_eq (prevValue : Int) (usi : USensorInfo) (io : IOStateList) :
    (notify ic prevValue usi io).1 =
      if prevValue = usi.value then usi
      else
        { usi with
          thresholds :=
            (checkThresholds ic usi.value usi.supplier true usi.thresholds io).1 } := by
  unfold notify
  split_ifs <;> rfl

theorem notify_sameBand {usi' : USensorInfo} (h : usi'.thresholds = usi.thresholds)
    (prevValue : Int) (io : IOStateList) :
    ∃ ti, List.Forall₂ SameBand usi.thresholds ti ∧
      (notify ic prevValue usi' io).1 = { usi' with thresholds := ti } := by
  rw [notify_eq, ← h]
  split_ifs
  · exact ⟨usi'.thresholds, List.forall₂_same.mpr fun it _ => .refl it, rfl⟩
  · exact ⟨_, checkThresholds_sameBand _ _ _ _, rfl⟩

theorem push_notify_iff {h : History} (ha : h.ThresholdsAgree)
    (hthresholds : usi.thresholds = h.cur.thresholds) :
    (h.push (notify ic h.cur.value usi io).1).ThresholdsAgree ↔
      Tracked ic io usi.supplier h.cur usi.value := by
  rw [notify_eq]
  split_ifs with hvalue
  · have hagree := ha.push_same hthresholds hvalue.symm
    refine iff_of_true hagree ⟨fun it hmem => ?_, fun hne => absurd hvalue.symm hne⟩
    rw [← hvalue]
    exact (ha.same hmem).1
  · rw [ha.push_iff (hthresholds ▸ checkThresholds_sameBand _ _ _ _)]
    simp only [hthresholds]
    rw [checkThresholds_iff _ _ _ (fun _ => .refl : SensorRuns io io)]
    exact and_congr Iff.rfl ⟨fun hp _ => hp, fun hp => hp (Ne.symm hvalue)⟩

theorem step_localSetValue (value : Int) (sup_id : ObjectId) :
    step ic usi (io, .sensor (.localSetValue value sup_id)) =
      if ic.conf.Accepts usi sup_id then (notify ic usi.value (usi.assign value sup_id).1 io).1
      else usi := by
  simp only [step, localSetValue]
  split_ifs with ha
  · rw [ControllerConf.localSetValue_accepts ha]
    rfl
  · obtain ⟨e, he⟩ := ControllerConf.localSetValue_refuses ha value
    rw [he]
    rfl

theorem step_localFreezeValue (set : Bool) (value : Int) (sup_id : ObjectId) :
    step ic usi (io, .sensor (.localFreezeValue set value sup_id)) =
      if ic.conf.Accepts usi sup_id then
        (notify ic usi.value ((usi.assignFrozen set value).assign usi.real_value sup_id).1 io).1
      else usi := by
  simp only [step, localFreezeValue]
  split_ifs with ha
  · have hfrozen : ic.conf.Accepts (usi.assignFrozen set value) sup_id := ha
    rw [ControllerConf.checkWrite_accepts _ ha]
    simp only [localSetValue, ControllerConf.localSetValue_accepts hfrozen]
    rfl
  · obtain ⟨e, he⟩ := ControllerConf.checkWrite_refuses "localFreezeValue" ha
    rw [he]
    rfl

theorem step_localSetUndefinedState (undefined : Bool) :
    step ic usi (io, .sensor (.localSetUndefinedState undefined)) =
      if usi.readonly then usi else (usi.assignUndefined undefined).1 :=
  ControllerConf.step_localSetUndefinedState undefined

section checkDepend

variable {d_it_value : Int} {d_it_supplier : ObjectId}

theorem checkDepend_same (h : usi.blocked = decide (d_it_value ≠ usi.d_value)) :
    checkDepend ic usi d_it_value d_it_supplier io = (usi, .ok (io, [])) := by
  simp [checkDepend, USensorInfo.assignBlocked, ← h]

theorem checkDepend_accepts (h : usi.blocked ≠ decide (d_it_value ≠ usi.d_value))
    (ha : ic.conf.Accepts usi d_it_supplier) :
    checkDepend ic usi d_it_value d_it_supplier io =
      ((notify ic usi.value (usi.turn.assign usi.real_value d_it_supplier).1 io).1,
        .ok (notify ic usi.value (usi.turn.assign usi.real_value d_it_supplier).1 io).2) := by
  have hturn : ic.conf.Accepts usi.turn d_it_supplier := ha
  simp only [checkDepend, USensorInfo.assignBlocked_turns h, if_true, localSetValue,
    ControllerConf.localSetValue_accepts hturn]
  rfl

theorem checkDepend_refuses (io : IOStateList)
    (h : usi.blocked ≠ decide (d_it_value ≠ usi.d_value))
    (ha : ¬ic.conf.Accepts usi d_it_supplier) :
    ∃ e, checkDepend ic usi d_it_value d_it_supplier io = (usi.turn, .error e) := by
  have hturn : ¬ic.conf.Accepts usi.turn d_it_supplier := ha
  obtain ⟨e, he⟩ := ControllerConf.localSetValue_refuses hturn usi.turn.real_value
  refine ⟨e, ?_⟩
  simp only [checkDepend, USensorInfo.assignBlocked_turns h, if_true, localSetValue, he]
  rfl

theorem step_checkDepend (d_it_value : Int) (d_it_supplier : ObjectId) :
    step ic usi (io, .sensor (.checkDepend d_it_value d_it_supplier)) =
      if usi.blocked = decide (d_it_value ≠ usi.d_value) then usi
      else if ic.conf.Accepts usi d_it_supplier then
        (notify ic usi.value (usi.turn.assign usi.real_value d_it_supplier).1 io).1
      else usi.turn := by
  simp only [step]
  split_ifs with hsame ha
  · rw [checkDepend_same hsame]
  · rw [checkDepend_accepts hsame ha]
  · obtain ⟨e, he⟩ := checkDepend_refuses io hsame ha
    rw [he]

end checkDepend

/-- The consumer may read the sensor. -/
def CanRead (ic : IOController) (usi : USensorInfo) (consumer_id : ObjectId) : Prop :=
  consumer_id = ic.conf.id ∨
    (usi.checkMask ic.conf.acls consumer_id ic.conf.defaultAccessMask).canRead = true

instance (consumer_id : ObjectId) : Decidable (CanRead ic usi consumer_id) :=
  inferInstanceAs (Decidable (_ ∨ _))

/-- The order stores a threshold that was not there. -/
def Adds (ic : IOController) (usi : USensorInfo) (ci : ConsumerInfo) (tid lowLimit hiLimit : Int)
    (cmd : UIOCommand) : Prop :=
  lowLimit ≤ hiLimit ∧ CanRead ic usi ci.id ∧ (cmd = .UIONotify ∨ cmd = .UIONotifyChange) ∧
    ¬Stores tid usi

theorem orderValue_eq {consumer_id : ObjectId} (h : CanRead ic usi consumer_id) :
    orderValue ic usi consumer_id = .ok (if usi.undefined then 0 else usi.value) := by
  have hpass : ¬(consumer_id ≠ ic.conf.id ∧
      !(usi.checkMask ic.conf.acls consumer_id ic.conf.defaultAccessMask).canRead) := by
    rintro ⟨hid, hmask⟩
    rcases h with rfl | hread
    · exact hid rfl
    · simp [hread] at hmask
  unfold orderValue localGetValue
  rw [if_neg hpass]
  cases usi.undefined
  · rfl
  · rfl

theorem orderValue_canRead {consumer_id : ObjectId} (h : CanRead ic usi consumer_id) :
    ∃ val, orderValue ic usi consumer_id = .ok val := ⟨_, orderValue_eq h⟩

theorem orderValue_cannotRead {consumer_id : ObjectId} (h : ¬CanRead ic usi consumer_id) :
    ∃ e, orderValue ic usi consumer_id = .error e := by
  unfold CanRead at h
  rw [not_or] at h
  unfold orderValue localGetValue
  rw [if_pos ⟨h.1, by simpa using h.2⟩]
  exact ⟨_, rfl⟩

theorem onThreshold_forall₂ {R : UThresholdInfo → UThresholdInfo → Prop}
    {f : UThresholdInfo → UThresholdInfo} (hrefl : ∀ it, R it it) (hf : ∀ it, R it (f it))
    (tid : Int) (ti : List UThresholdInfo) : List.Forall₂ R ti (onThreshold tid f ti) := by
  induction ti with
  | nil => exact .nil
  | cons it ti ih =>
    unfold onThreshold
    split_ifs
    · exact .cons (hf it) (List.forall₂_same.mpr fun it _ => hrefl it)
    · exact .cons (hrefl it) ih

theorem onThreshold_append {f : UThresholdInfo → UThresholdInfo} {tid : Int}
    {ti : List UThresholdInfo} (h : ∀ it ∈ ti, it.id ≠ tid) (new : UThresholdInfo)
    (hnew : new.id = tid) : onThreshold tid f (ti ++ [new]) = ti ++ [f new] := by
  induction ti with
  | nil => simp [onThreshold, hnew]
  | cons it ti ih =>
    rw [List.cons_append, onThreshold, if_neg (h it List.mem_cons_self),
      ih fun it hmem => h it (List.mem_cons_of_mem _ hmem), List.cons_append]

theorem sameState_addConsumer (ci : ConsumerInfo) (it : UThresholdInfo) :
    SameState it (addConsumer ci it) := ⟨⟨rfl, rfl, rfl, rfl⟩, rfl⟩

theorem sameState_removeConsumer (ci : ConsumerInfo) (it : UThresholdInfo) :
    SameState it (removeConsumer ci it) := ⟨⟨rfl, rfl, rfl, rfl⟩, rfl⟩

section askThreshold

variable {ci : ConsumerInfo} {tid lowLimit hiLimit : Int} {invert : Bool} {cmd : UIOCommand}

/-- An order that adds nothing changes lists of consumers at most. -/
theorem step_askThreshold_of_not_adds (io : IOStateList) (invert : Bool)
    (h : ¬Adds ic usi ci tid lowLimit hiLimit cmd) :
    ∃ ti, List.Forall₂ SameState usi.thresholds ti ∧
      step ic usi (io, .askThreshold ci tid lowLimit hiLimit invert cmd) =
        { usi with thresholds := ti } := by
  have hsame : ∃ ti, List.Forall₂ SameState usi.thresholds ti ∧
      usi = { usi with thresholds := ti } :=
    ⟨usi.thresholds, List.forall₂_same.mpr fun it _ => .refl it, rfl⟩
  simp only [step, askThreshold]
  by_cases hrange : hiLimit < lowLimit
  · rw [if_pos hrange]
    exact hsame
  rw [if_neg hrange]
  by_cases hread : CanRead ic usi ci.id
  · obtain ⟨val, hval⟩ := orderValue_canRead hread
    rw [hval]
    cases cmd with
    | UIONotifyFirstNotNull => exact hsame
    | UIODontNotify =>
      exact ⟨_, onThreshold_forall₂ SameState.refl (sameState_removeConsumer ci) tid _, rfl⟩
    | _ =>
      have hstores : ∃ t ∈ usi.thresholds, t.id = tid := by
        by_contra hnew
        exact h ⟨by omega, hread, by simp, hnew⟩
      have hold : addThresholdIfNotExist usi.thresholds
          (newThreshold tid lowLimit hiLimit invert) = usi.thresholds := if_pos hstores
      rw [hold]
      exact ⟨_, onThreshold_forall₂ SameState.refl (sameState_addConsumer ci) tid _, rfl⟩
  · obtain ⟨e, he⟩ := orderValue_cannotRead hread
    rw [he]
    exact hsame

theorem step_askThreshold_of_adds (h : Adds ic usi ci tid lowLimit hiLimit cmd) :
    step ic usi (io, .askThreshold ci tid lowLimit hiLimit invert cmd) =
      { usi with
        thresholds :=
          usi.thresholds ++ [addConsumer ci (newThreshold tid lowLimit hiLimit invert)] } := by
  obtain ⟨hrange, hread, hcmd, hnew⟩ := h
  obtain ⟨val, hval⟩ := orderValue_canRead hread
  have hadd : addThresholdIfNotExist usi.thresholds (newThreshold tid lowLimit hiLimit invert) =
      usi.thresholds ++ [newThreshold tid lowLimit hiLimit invert] := if_neg hnew
  simp only [step, askThreshold]
  rw [if_neg (Int.not_lt.mpr hrange), hval, hadd,
    onThreshold_append (fun it hmem hid => hnew ⟨it, hmem, hid⟩) _ rfl]
  rcases hcmd with rfl | rfl
  · rfl
  · rfl

end askThreshold

/-- The operation leaves every threshold in the state that the values ask for. -/
def Keeps (ic : IOController) (usi : USensorInfo) : IOStateList × NotifyOp → Prop
  | (io, .sensor (.localSetValue value sup_id)) =>
    ic.conf.Accepts usi sup_id → Tracked ic io sup_id usi (usi.shown value)
  | (_, .sensor (.localSetUndefinedState undefined)) =>
    usi.readonly = false → ∀ it ∈ usi.thresholds,
      ¬it.hysteresis.Torn (usi.undefinedValue undefined) ∧
        it.state = it.nextState (usi.undefinedValue undefined)
  | (io, .sensor (.localFreezeValue set value sup_id)) =>
    ic.conf.Accepts usi sup_id →
      Tracked ic io sup_id usi ((usi.assignFrozen set value).shown usi.real_value)
  | (io, .sensor (.checkDepend d_it_value d_it_supplier)) =>
    usi.blocked ≠ decide (d_it_value ≠ usi.d_value) → ic.conf.Accepts usi d_it_supplier →
      Tracked ic io d_it_supplier usi (usi.turn.shown usi.real_value)
  | (_, .askThreshold ci tid lowLimit hiLimit invert cmd) =>
    Adds ic usi ci tid lowLimit hiLimit cmd →
      ¬(newThreshold tid lowLimit hiLimit invert).Trips usi.value

variable {h : History}

theorem push_appended_iff {new : UThresholdInfo} (hs : h.Sound) (ha : h.ThresholdsAgree)
    (hnew : ¬Stores new.id h.cur) (hstate : new.state = .NormalThreshold) :
    (h.push { h.cur with thresholds := h.cur.thresholds ++ [new] }).ThresholdsAgree ↔
      ¬new.Trips h.cur.value := by
  have hold : (h.push h.cur).ThresholdsAgree := ha.push_same rfl rfl
  have hnil : valuesSince new.id
      (h.push { h.cur with thresholds := h.cur.thresholds ++ [new] }).past = [] :=
    hs.valuesSince_nil hnew
  have hfresh := new.agrees_start_iff h.cur.value
  unfold History.ThresholdsAgree
  simp only [History.push, List.mem_append, List.mem_singleton, or_imp, forall_and, forall_eq]
  simp only [History.push] at hnil
  rw [hnil, hstate, hfresh]
  exact and_iff_right hold

/-- One step, from a history where every state is the one that the values ask for. -/
theorem push_step_iff (hs : h.Sound) (ha : h.ThresholdsAgree) (op : IOStateList × NotifyOp) :
    (h.push (step ic h.cur op)).ThresholdsAgree ↔ Keeps ic h.cur op := by
  have hsame : (h.push h.cur).ThresholdsAgree := ha.push_same rfl rfl
  obtain ⟨io, op⟩ := op
  cases op with
  | sensor op =>
    cases op with
    | localSetValue value sup_id =>
      rw [step_localSetValue, Keeps, ← hs.plain.assign_value value sup_id]
      split_ifs with haccept
      · rw [push_notify_iff ha (USensorInfo.assign_thresholds ..), USensorInfo.assign_eq,
          imp_iff_right haccept]
      · exact iff_of_true hsame fun h => absurd h haccept
    | localSetUndefinedState undefined =>
      rw [step_localSetUndefinedState, Keeps, USensorInfo.assignUndefined_eq]
      split_ifs with hreadonly
      · exact iff_of_true hsame fun h => absurd (hreadonly.symm.trans h) (by simp)
      · rw [imp_iff_right (Bool.not_eq_true _ ▸ hreadonly)]
        refine (ha.push_iff ?_).trans ?_
        · exact List.forall₂_same.mpr fun it _ => .refl it
        · rw [List.forall₂_same, ← forall₂_and]
    | localFreezeValue set value sup_id =>
      rw [step_localFreezeValue, Keeps, ← USensorInfo.assignFrozen_shown set value sup_id]
      split_ifs with haccept
      · rw [push_notify_iff ha ((h.cur.assignFrozen set value).assign_thresholds ..), USensorInfo.assign_eq,
          imp_iff_right haccept]
      · exact iff_of_true hsame fun h => absurd h haccept
    | checkDepend d_it_value d_it_supplier =>
      rw [step_checkDepend, Keeps, ← hs.plain.turn_assign_value d_it_supplier]
      split_ifs with hblocked haccept
      · exact iff_of_true hsame fun h => absurd hblocked h
      · rw [push_notify_iff ha (h.cur.turn.assign_thresholds ..), USensorInfo.assign_eq,
          imp_iff_right hblocked, imp_iff_right haccept]
      · exact iff_of_true (ha.push_same rfl rfl) fun _ h => absurd h haccept
  | askThreshold ci tid lowLimit hiLimit invert cmd =>
    rw [Keeps]
    by_cases hadds : Adds ic h.cur ci tid lowLimit hiLimit cmd
    · rw [step_askThreshold_of_adds hadds, imp_iff_right hadds]
      exact push_appended_iff hs ha hadds.2.2.2 rfl
    · obtain ⟨ti, hstate, hstep⟩ :=
        step_askThreshold_of_not_adds io invert hadds
      rw [hstep]
      exact iff_of_true (ha.push_sameState hstate rfl) fun h => absurd h hadds

/-- With thresholds, an operation does to the sensor what it does without. -/
theorem step_sensor (usi : USensorInfo) (io : IOStateList) (op : SensorOp) :
    ∃ ti, List.Forall₂ SameBand usi.thresholds ti ∧
      step ic usi (io, .sensor op) = { ic.conf.step usi op with thresholds := ti } := by
  have hsame : ∃ ti, List.Forall₂ SameBand usi.thresholds ti ∧
      usi = { usi with thresholds := ti } :=
    ⟨usi.thresholds, List.forall₂_same.mpr fun it _ => .refl it, rfl⟩
  cases op with
  | localSetValue value sup_id =>
    rw [step_localSetValue, ControllerConf.step_localSetValue]
    split_ifs
    · exact notify_sameBand (usi.assign_thresholds ..) usi.value io
    · exact hsame
  | localSetUndefinedState undefined =>
    rw [step_localSetUndefinedState, ControllerConf.step_localSetUndefinedState,
      USensorInfo.assignUndefined_eq]
    split_ifs
    · exact hsame
    · exact ⟨usi.thresholds, List.forall₂_same.mpr fun it _ => .refl it, rfl⟩
  | localFreezeValue set value sup_id =>
    rw [step_localFreezeValue, ControllerConf.step_localFreezeValue]
    split_ifs
    · exact notify_sameBand ((usi.assignFrozen set value).assign_thresholds ..) usi.value io
    · exact hsame
  | checkDepend d_it_value d_it_supplier =>
    rw [step_checkDepend, ControllerConf.step_checkDepend]
    split_ifs
    · exact hsame
    · exact notify_sameBand (usi.turn.assign_thresholds ..) usi.value io
    · exact ⟨usi.thresholds, List.forall₂_same.mpr fun it _ => .refl it, rfl⟩

theorem forall₂_exists {α β : Type} {R : α → β → Prop} {l : List α} {l' : List β}
    (h : List.Forall₂ R l l') {a : α} (ha : a ∈ l) : ∃ b ∈ l', R a b := by
  induction h with
  | nil => cases ha
  | cons hab _ ih =>
    rcases List.mem_cons.mp ha with rfl | ha
    · exact ⟨_, List.mem_cons_self, hab⟩
    · obtain ⟨b, hb, hR⟩ := ih ha
      exact ⟨b, List.mem_cons_of_mem _ hb, hR⟩

theorem stores_of_sameBand {usi usi' : USensorInfo} {tid : Int}
    (h : List.Forall₂ SameBand usi.thresholds usi'.thresholds) (hstores : Stores tid usi) :
    Stores tid usi' := by
  obtain ⟨it, hmem, rfl⟩ := hstores
  obtain ⟨it', hmem', hband⟩ := forall₂_exists h hmem
  exact ⟨it', hmem', hband.id⟩

theorem push_step_sound (hs : h.Sound) (op : IOStateList × NotifyOp) :
    (h.push (step ic h.cur op)).Sound := by
  obtain ⟨io, op⟩ := op
  cases op with
  | sensor op =>
    obtain ⟨ti, hband, hstep⟩ := step_sensor h.cur io op
    rw [hstep]
    have hplain : (ic.conf.step h.cur op).Plain := ControllerConf.step_plain op hs.plain
    exact hs.push hplain fun tid => stores_of_sameBand hband
  | askThreshold ci tid lowLimit hiLimit invert cmd =>
    by_cases hadds : Adds ic h.cur ci tid lowLimit hiLimit cmd
    · rw [step_askThreshold_of_adds hadds]
      refine hs.push hs.plain ?_
      rintro tid' ⟨it, hmem, hid⟩
      exact ⟨it, List.mem_append_left _ hmem, hid⟩
    · obtain ⟨ti, hstate, hstep⟩ :=
        step_askThreshold_of_not_adds io invert hadds
      rw [hstep]
      exact hs.push hs.plain fun tid => stores_of_sameBand (hstate.imp fun _ _ h => h.1)

end IONotifyController

namespace IONotifyController

variable {ic : IOController} {io : IOStateList} {usi usi' : USensorInfo}
  {parent : Option (Int × ObjectId)}

/-- The value that the activation leaves. -/
def activeValue (usi : USensorInfo) : Option (Int × ObjectId) → Int
  | none => usi.value
  | some (d_it_value, _) =>
    if usi.blocked = decide (d_it_value ≠ usi.d_value) then usi.value
    else usi.turn.shown usi.real_value

/-- The activation gives every threshold its state.  Those of a discrete sensor are checked
only when its parent blocks it. -/
def Starts (ic : IOController) (usi : USensorInfo) (parent : Option (Int × ObjectId))
    (io : IOStateList) : Prop :=
  (∀ it ∈ usi.thresholds, ¬it.hysteresis.Torn (activeValue usi parent)) ∧
    (usi.type = .AI ∨ usi.type = .AO ∨
      if activeValue usi parent = usi.value then ∀ it ∈ usi.thresholds, ¬it.Trips usi.value
      else
        ∀ p ∈ parent, Passes ic io p.2 (activeValue usi parent) usi.thresholds)

/-- What the check of the parent leaves. -/
structure Checked (ic : IOController) (usi : USensorInfo) (parent : Option (Int × ObjectId))
    (io : IOStateList) (usi' : USensorInfo) : Prop where
  value : usi'.value = activeValue usi parent
  type : usi'.type = usi.type
  plain : usi'.Plain
  same : activeValue usi parent = usi.value → usi'.thresholds = usi.thresholds
  checked : activeValue usi parent ≠ usi.value → ∃ p ∈ parent, usi'.thresholds =
    (checkThresholds ic (activeValue usi parent) p.2 true usi.thresholds io).1

theorem checked_of_unchanged (hplain : usi.Plain) (h : activeValue usi parent = usi.value) :
    Checked ic usi parent io usi where
  value := h.symm
  type := rfl
  plain := hplain
  same _ := rfl
  checked hne := absurd h hne

theorem checkDepend_checked {d_it_value : Int} {d_it_supplier : ObjectId}
    {res : IOStateList × List ThresholdMessage} (hplain : usi.Plain)
    (hok : checkDepend ic usi d_it_value d_it_supplier io = (usi', .ok res)) :
    Checked ic usi (some (d_it_value, d_it_supplier)) io usi' := by
  by_cases hblocked : usi.blocked = decide (d_it_value ≠ usi.d_value)
  · rw [checkDepend_same hblocked] at hok
    cases hok
    exact checked_of_unchanged hplain (if_pos hblocked)
  by_cases haccept : ic.conf.Accepts usi d_it_supplier
  · have hactive : activeValue usi (some (d_it_value, d_it_supplier)) =
        (usi.turn.assign usi.real_value d_it_supplier).1.value := by
      rw [hplain.turn_assign_value]
      exact if_neg hblocked
    have hturned : (usi.turn.assign usi.real_value d_it_supplier).1.Plain :=
      USensorInfo.plain_of_shown (hplain.turn_assign_value d_it_supplier)
    rw [checkDepend_accepts hblocked haccept, notify_eq] at hok
    obtain ⟨rfl, -⟩ := Prod.mk.inj hok
    rw [USensorInfo.assign_eq] at hactive hturned ⊢
    split_ifs with hvalue
    · exact ⟨hactive.symm, rfl, hturned, fun _ => rfl, fun hne => absurd (hactive.trans hvalue.symm) hne⟩
    · refine ⟨hactive.symm, rfl, hturned, fun h => absurd (h.symm.trans hactive) hvalue, fun _ => ?_⟩
      exact ⟨_, rfl, by rw [hactive]; rfl⟩
  · obtain ⟨e, he⟩ := checkDepend_refuses io hblocked haccept
    rw [he] at hok
    cases hok

theorem activateItem_checked (hplain : usi.Plain)
    (hok : activateItem ic usi parent io = .ok usi') :
    ∃ usi₁ io₁ io₂ msgs, Checked ic usi parent io usi₁ ∧
      initItem ic usi₁ io₁ = (usi', io₂, msgs, none) := by
  unfold activateItem at hok
  cases parent with
  | none =>
    rcases hinit : initItem ic usi io with ⟨usi₂, io₂, msgs, res⟩
    simp only [bind, Except.bind, pure, Except.pure, hinit] at hok
    cases res with
    | none =>
      cases hok
      exact ⟨usi, io, io₂, msgs, checked_of_unchanged hplain rfl, hinit⟩
    | some e => cases hok
  | some p =>
    obtain ⟨d_it_value, d_it_supplier⟩ := p
    rcases hcheck : checkDepend ic usi d_it_value d_it_supplier io with ⟨usi₁, res⟩
    cases res with
    | error e =>
      simp only [bind, Except.bind, hcheck] at hok
      cases hok
    | ok out =>
      obtain ⟨io₁, sent⟩ := out
      rcases hinit : initItem ic usi₁ io₁ with ⟨usi₂, io₂, msgs, res⟩
      simp only [bind, Except.bind, pure, Except.pure, hcheck, hinit] at hok
      cases res with
      | none =>
        cases hok
        exact ⟨usi₁, io₁, io₂, msgs, checkDepend_checked hplain hcheck, hinit⟩
      | some e => cases hok

/-- An analog sensor is checked once more, a discrete one is not. -/
theorem initItem_analog {io' : IOStateList} {msgs : List ThresholdMessage}
    (htype : usi.type = .AI ∨ usi.type = .AO)
    (hok : initItem ic usi io = (usi', io', msgs, none)) :
    List.Forall₂ SameBand usi.thresholds usi'.thresholds ∧
      List.Forall₂ (fun it it' => it'.state = it.nextState usi.value) usi.thresholds
        usi'.thresholds ∧ ∃ ti, usi' = { usi with thresholds := ti } := by
  unfold initItem checkThreshold at hok
  rw [if_pos htype] at hok
  simp only [Prod.mk.injEq] at hok
  obtain ⟨rfl, -, -, hnone⟩ := hok
  exact ⟨checkThresholds_sameBand _ _ _ _, checkThresholds_state_of_none hnone, _, rfl⟩

theorem initItem_discrete {io' : IOStateList} {msgs : List ThresholdMessage}
    (htype : ¬(usi.type = .AI ∨ usi.type = .AO))
    (hok : initItem ic usi io = (usi', io', msgs, none)) : usi' = usi := by
  unfold initItem at hok
  rw [if_neg htype] at hok
  exact (Prod.mk.inj hok).1.symm

theorem Checked.sameNext (h : Checked ic usi parent io usi') :
    List.Forall₂ (SameNext (activeValue usi parent)) usi.thresholds usi'.thresholds := by
  by_cases hvalue : activeValue usi parent = usi.value
  · rw [h.same hvalue]
    exact List.forall₂_same.mpr fun it _ => .refl _ it
  · obtain ⟨p, -, hthresholds⟩ := h.checked hvalue
    rw [hthresholds]
    exact checkThresholds_sameNext _ _ _ _

theorem Checked.discrete_iff (h : Checked ic usi parent io usi')
    (hnormal : ∀ it ∈ usi.thresholds, it.state = .NormalThreshold)
    (htype : ¬(usi.type = .AI ∨ usi.type = .AO)) :
    (History.mk usi' []).ThresholdsAgree ↔ Starts ic usi parent io := by
  unfold Starts
  rw [← or_assoc, or_iff_right htype]
  split_ifs with hvalue
  · have hsame := h.same hvalue
    have htorn : (∀ it ∈ usi.thresholds, ¬it.Trips usi.value) →
        ∀ it ∈ usi.thresholds, ¬it.hysteresis.Torn (activeValue usi parent) := by
      intro htrips it hmem hboth
      rw [hvalue] at hboth
      exact htrips it hmem ((it.trips_iff _).mpr hboth.2)
    rw [History.start_unchanged_iff (hsame ▸ hnormal), h.value, hvalue, hsame]
    exact ⟨fun htrips => ⟨hvalue ▸ htorn htrips, htrips⟩, And.right⟩
  · obtain ⟨p, hp, hthresholds⟩ := h.checked hvalue
    cases hp
    rw [History.start_iff hnormal (h.sameNext.imp fun _ _ h => h.band), h.value, hthresholds,
      checkThresholds_iff _ _ _ (fun _ => .refl : SensorRuns io io)]
    simp

theorem activateItem_starts_iff (hplain : usi.Plain)
    (hnormal : ∀ it ∈ usi.thresholds, it.state = .NormalThreshold)
    (hok : activateItem ic usi parent io = .ok usi') :
    (History.mk usi' []).ThresholdsAgree ↔ Starts ic usi parent io := by
  obtain ⟨usi₁, io₁, io₂, msgs, hchecked, hinit⟩ := activateItem_checked hplain hok
  by_cases htype : usi₁.type = .AI ∨ usi₁.type = .AO
  · obtain ⟨hband, hstate, ti, rfl⟩ := initItem_analog htype hinit
    have hband₀ : List.Forall₂ SameBand usi.thresholds ti :=
      forall₂_trans (fun _ _ _ h h' => h.band.trans h') hchecked.sameNext hband
    rw [hchecked.value] at hstate
    have hnext : List.Forall₂ (fun it it' => it'.state = it.nextState (activeValue usi parent))
        usi.thresholds ti :=
      forall₂_trans (fun _ _ _ h h' => h'.trans h.next) hchecked.sameNext hstate
    rw [hchecked.type] at htype
    rw [History.start_iff hnormal hband₀]
    unfold Starts
    simp only [hchecked.value]
    exact and_congr_right fun _ => iff_of_true hnext (or_assoc.mp (.inl htype))
  · cases initItem_discrete htype hinit
    exact hchecked.discrete_iff hnormal (hchecked.type ▸ htype)

theorem activateItem_sound (hplain : usi.Plain)
    (hok : activateItem ic usi parent io = .ok usi') : (History.mk usi' []).Sound := by
  obtain ⟨usi₁, io₁, io₂, msgs, hchecked, hinit⟩ := activateItem_checked hplain hok
  refine ⟨?_, by simp⟩
  by_cases htype : usi₁.type = .AI ∨ usi₁.type = .AO
  · obtain ⟨-, -, ti, rfl⟩ := initItem_analog htype hinit
    exact hchecked.plain
  · cases initItem_discrete htype hinit
    exact hchecked.plain

/-- The sensor goes through an operation, and what it was is kept. -/
def advance (ic : IOController) (h : History) (op : IOStateList × NotifyOp) : History :=
  h.push (step ic h.cur op)

theorem configured_plain (it : SensorConf) (ths : List ThresholdConf) :
    (init_thresholds (getSensorInfo it) ths).Plain := by
  intro hfrozen _
  have hnone : it.frozen_value = none := Option.isNone_iff_eq_none.mp (by
    simpa [init_thresholds, getSensorInfo] using hfrozen)
  simp [init_thresholds, getSensorInfo, hnone]

theorem configured_normal (it : SensorConf) (ths : List ThresholdConf) :
    ∀ th ∈ (init_thresholds (getSensorInfo it) ths).thresholds, th.state = .NormalThreshold := by
  simp [init_thresholds, getThresholdInfo]

/-- From the activation of a configured sensor on, whatever the other sensors are meanwhile,
the state of every threshold is the one that the shown values ask for if and only if the
activation and every operation keep it so. -/
theorem thresholds_agree (ic : IOController) (it : SensorConf) (ths : List ThresholdConf)
    (parent : Option (Int × ObjectId)) (io : IOStateList) (usi : USensorInfo)
    (hok : activateItem ic (init_thresholds (getSensorInfo it) ths) parent io = .ok usi)
    (ops : List (IOStateList × NotifyOp)) :
    (∀ h ∈ List.scanl (advance ic) ⟨usi, []⟩ ops, h.ThresholdsAgree) ↔
      Starts ic (init_thresholds (getSensorInfo it) ths) parent io ∧
        Guarded (advance ic) (fun h => Keeps ic h.cur) ⟨usi, []⟩ ops := by
  have hsound := activateItem_sound (configured_plain it ths) hok
  rw [← activateItem_starts_iff (configured_plain it ths) (configured_normal it ths) hok]
  have hpush : ∀ (h : History) op, h.Sound → (advance ic h op).Sound := fun _ op hs =>
    push_step_sound hs op
  have hstep : ∀ (h : History) op, h.Sound → h.ThresholdsAgree →
      ((advance ic h op).ThresholdsAgree ↔ Keeps ic h.cur op) := fun _ op hs ha =>
    push_step_iff hs ha op
  exact forall_visited_iff_start_and_guarded (fun h op hs _ _ => hpush h op hs) hstep hsound ops

/-- An analog sensor, with or without a value for the undefined state, and its threshold. -/
def levelOf (undefined_value : Option Int) : USensorInfo :=
  init_thresholds (getSensorInfo ⟨2, .AI, 0, false, none, undefined_value, none, none⟩)
    [⟨1, 10, 20, false, none⟩]

/-- The value goes over the upper limit of the threshold, and another one is ordered. -/
theorem thresholds_agree_ordered :
    let ic := IOController.read (.unrestricted 1) [] dependsAcyclic_nil
    activateItem ic (levelOf none) none (readList []) = .ok (levelOf none) ∧
      ∀ h ∈ List.scanl (advance ic) ⟨levelOf none, []⟩
        [(readList [], .sensor (.localSetValue 25 1)),
          (readList [], .askThreshold ⟨3, 0⟩ 2 30 40 false .UIONotify)], h.ThresholdsAgree := by
  have hok : activateItem (IOController.read (.unrestricted 1) [] dependsAcyclic_nil)
      (levelOf none) none (readList []) = .ok (levelOf none) := rfl
  refine ⟨hok, (thresholds_agree _ _ _ _ _ _ hok _).mpr ⟨?_, ?_⟩⟩
  · exact ⟨by decide, .inl rfl⟩
  · exact ⟨fun _ => ⟨by decide, fun _ => passes_of_unlinked _ (by decide)⟩, fun _ => by decide, trivial⟩

/-- The undefined state shows a value over the upper limit, and no threshold is checked. -/
theorem thresholds_not_agree :
    let ic := IOController.read (.unrestricted 1) [] dependsAcyclic_nil
    activateItem ic (levelOf (some 65635)) none (readList []) = .ok (levelOf (some 65635)) ∧
      ¬∀ h ∈ List.scanl (advance ic) ⟨levelOf (some 65635), []⟩
        [(readList [], .sensor (.localSetUndefinedState true))], h.ThresholdsAgree := by
  refine ⟨rfl, fun hall => ?_⟩
  have hlast := hall _ (List.mem_cons_of_mem _ List.mem_cons_self) _ List.mem_cons_self
  exact absurd (hlast.on (by decide)) (by decide)

end IONotifyController

end Uniset.Processes
