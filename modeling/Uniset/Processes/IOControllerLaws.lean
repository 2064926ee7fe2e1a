import Uniset.Processes.IOController

/-! What the operations of the controller are for each of its sensors, and what they do to
all of them. -/

namespace Uniset.Processes

open Uniset.Lib

namespace USensorInfo

/-- Where neither a frozen value nor the one of the undefined state is shown, it is the real
value or the value of a block, though not always the right one of the two. -/
def Plain (usi : USensorInfo) : Prop :=
  usi.frozen = false → (usi.undefined = true → ¬usi.HasUndefValue) →
    usi.value = usi.real_value ∨ usi.value = usi.d_off_value

/-- The value follows the flag of the block. -/
def Recomputed (usi : USensorInfo) : Prop :=
  usi.frozen = false → usi.undefined = false →
    usi.value = if usi.blocked then usi.d_off_value else usi.real_value

instance (usi : USensorInfo) : Decidable usi.Recomputed :=
  inferInstanceAs (Decidable (_ → _ → _))

variable {usi : USensorInfo}

theorem Plain.assign_value (h : usi.Plain) (value : Int) (sup_id : ObjectId) :
    (usi.assign value sup_id).1.value = usi.shown value :=
  USensorInfo.assign_value usi value sup_id fun hopen =>
    h hopen.1 fun hundefined => absurd hundefined (by simp [hopen.2.2])

theorem Plain.turn_assign_value (h : usi.Plain) (sup_id : ObjectId) :
    (usi.turn.assign usi.real_value sup_id).1.value = usi.turn.shown usi.real_value := by
  have hturn : usi.turn.Plain := h
  exact hturn.assign_value usi.real_value sup_id

theorem plain_of_shown {value : Int} {sup_id : ObjectId}
    (h : (usi.assign value sup_id).1.value = usi.shown value) :
    (usi.assign value sup_id).1.Plain := by
  intro hfrozen _
  rw [assign_eq] at hfrozen ⊢
  simp only at hfrozen ⊢
  rw [h]
  unfold shown
  rw [if_neg (by simp [hfrozen])]
  split_ifs
  · exact .inr rfl
  · exact .inl rfl

theorem recomputed_of_shown {value : Int} {sup_id : ObjectId}
    (h : (usi.assign value sup_id).1.value = usi.shown value) :
    (usi.assign value sup_id).1.Recomputed := by
  intro hfrozen hundefined
  rw [assign_eq] at hfrozen hundefined ⊢
  simp only at hfrozen hundefined ⊢
  rw [h]
  simp [shown, hfrozen, hundefined]

theorem Plain.assignUndefined (h : usi.Plain) (undefined : Bool) :
    (usi.assignUndefined undefined).1.Plain := by
  rw [assignUndefined_eq]
  intro hfrozen hshown
  by_cases hhas : usi.HasUndefValue
  · cases undefined with
    | true => exact absurd hhas (hshown rfl)
    | false => simp [undefinedValue, hhas]
  · simpa [undefinedValue, hhas] using h hfrozen fun _ => hhas

theorem assignFrozen_shown (set : Bool) (w : Int) (sup_id : ObjectId) :
    ((usi.assignFrozen set w).assign usi.real_value sup_id).1.value =
      (usi.assignFrozen set w).shown usi.real_value := by
  cases set with
  | true =>
    rw [assignFrozen_true_value]
    rfl
  | false => exact assign_value_of_emitted _ _ _ (assignFrozen_false_emitted _ _ _ w)

end USensorInfo

namespace ControllerConf

variable {ic : ControllerConf} {usi : USensorInfo}

theorem step_plain (op : SensorOp) (h : usi.Plain) : (ic.step usi op).Plain := by
  cases op with
  | localSetValue value sup_id =>
    rw [step_localSetValue]
    split_ifs
    · exact USensorInfo.plain_of_shown (h.assign_value value sup_id)
    · exact h
  | localSetUndefinedState undefined =>
    rw [step_localSetUndefinedState]
    split_ifs
    · exact h
    · exact h.assignUndefined undefined
  | localFreezeValue set value sup_id =>
    rw [step_localFreezeValue]
    split_ifs
    · exact USensorInfo.plain_of_shown (USensorInfo.assignFrozen_shown set value sup_id)
    · exact h
  | checkDepend d_it_value d_it_supplier =>
    rw [step_checkDepend]
    split_ifs
    · exact h
    · exact USensorInfo.plain_of_shown (h.turn_assign_value d_it_supplier)
    · exact h

/-- What the configuration says of the sensor no operation changes. -/
theorem step_configured (op : SensorOp) :
    ∃ value undefined blocked frozen real_value supplier frozen_value,
      ic.step usi op =
        { usi with value, undefined, blocked, frozen, real_value, supplier, frozen_value } := by
  cases op with
  | localSetValue value sup_id =>
    rw [step_localSetValue, USensorInfo.assign_eq]
    split_ifs <;> exact ⟨_, _, _, _, _, _, _, rfl⟩
  | localSetUndefinedState undefined =>
    rw [step_localSetUndefinedState, USensorInfo.assignUndefined_eq]
    split_ifs <;> exact ⟨_, _, _, _, _, _, _, rfl⟩
  | localFreezeValue set value sup_id =>
    rw [step_localFreezeValue, USensorInfo.assign_eq]
    split_ifs <;> exact ⟨_, _, _, _, _, _, _, rfl⟩
  | checkDepend d_it_value d_it_supplier =>
    rw [step_checkDepend, USensorInfo.assign_eq]
    split_ifs <;> exact ⟨_, _, _, _, _, _, _, rfl⟩

end ControllerConf

/-- The record of one sensor goes through operations on it, under whatever rights. -/
def SensorRun : USensorInfo → USensorInfo → Prop :=
  Relation.ReflTransGen fun usi usi' => ∃ (ic : ControllerConf) (op : SensorOp), usi' = ic.step usi op

theorem SensorRun.plain {usi usi' : USensorInfo} (h : SensorRun usi usi') (hplain : usi.Plain) :
    usi'.Plain := by
  induction h with
  | refl => exact hplain
  | tail _ hstep ih =>
    obtain ⟨ic, op, rfl⟩ := hstep
    exact ControllerConf.step_plain op ih

theorem SensorRun.configured {usi usi' : USensorInfo} (h : SensorRun usi usi') :
    ∃ value undefined blocked frozen real_value supplier frozen_value,
      usi' =
        { usi with value, undefined, blocked, frozen, real_value, supplier, frozen_value } := by
  induction h with
  | refl => exact ⟨_, _, _, _, _, _, _, rfl⟩
  | tail _ hstep ih =>
    obtain ⟨ic, op, rfl⟩ := hstep
    obtain ⟨_, _, _, _, _, _, _, rfl⟩ := ih
    obtain ⟨_, _, _, _, _, _, _, hop⟩ := @ControllerConf.step_configured ic _ op
    exact ⟨_, _, _, _, _, _, _, hop⟩

theorem SensorRun.depend_sid {usi usi' : USensorInfo} (h : SensorRun usi usi') :
    usi'.depend_sid = usi.depend_sid := by
  obtain ⟨_, _, _, _, _, _, _, rfl⟩ := h.configured
  rfl

/-- Whoever may set the sensor may go on setting it. -/
theorem SensorRun.accepts_iff {usi usi' : USensorInfo} (h : SensorRun usi usi')
    (ic : ControllerConf) (sup_id : ObjectId) : ic.Accepts usi' sup_id ↔ ic.Accepts usi sup_id := by
  obtain ⟨_, _, _, _, _, _, _, rfl⟩ := h.configured
  exact Iff.rfl

/-- The controller changes every record by operations on it. -/
def SensorRuns (io io' : IOStateList) : Prop := ∀ y, SensorRun (io y) (io' y)

namespace IOController

variable {ic : IOController} {io io' : IOStateList} {sid : ObjectId}

theorem sensorRuns_update (op : SensorOp) (io : IOStateList) (sid : ObjectId) :
    SensorRuns io (Function.update io sid (ic.conf.step (io sid) op)) := by
  intro y
  by_cases hy : y = sid
  · subst hy
    rw [Function.update_self]
    exact Relation.ReflTransGen.single ⟨ic.conf, op, rfl⟩
  · rw [Function.update_of_ne hy]
    exact Relation.ReflTransGen.refl

theorem SensorRuns.trans {io₁ io₂ io₃ : IOStateList} (h : SensorRuns io₁ io₂)
    (h' : SensorRuns io₂ io₃) : SensorRuns io₁ io₃ := fun y => (h y).trans (h' y)

theorem slot_fst (p c : ObjectId) (io : IOStateList) :
    (ic.slot p c io).1 =
      Function.update io c (ic.conf.step (io c) (.checkDepend (io p).value (io p).supplier)) := rfl

theorem sensorRuns_slot (p c : ObjectId) (io : IOStateList) :
    SensorRuns io (ic.slot p c io).1 := by
  rw [slot_fst]
  exact sensorRuns_update _ io c

theorem sensorRuns_emit (sid : ObjectId) (io : IOStateList) : SensorRuns io (ic.emit sid io) :=
  Forest.visit_rel (R := SensorRuns) (fun _ _ => Relation.ReflTransGen.refl) SensorRuns.trans
    sensorRuns_slot sid io

theorem sensorRuns_commit {out : USensorInfo × Bool} (op : SensorOp)
    (h : out.1 = ic.conf.step (io sid) op) : SensorRuns io (ic.commit io sid out) := by
  have hupdate : SensorRuns io (Function.update io sid out.1) := h ▸ sensorRuns_update op io sid
  unfold commit
  split_ifs
  · exact SensorRuns.trans hupdate (sensorRuns_emit sid _)
  · exact hupdate

theorem conclude_fst {accepts : Prop} [Decidable accepts] {out : USensorInfo × Bool}
    {res : Except Exception (USensorInfo × Bool)} (hok : accepts → res = .ok out)
    (herror : ¬accepts → ∃ e, res = .error e) :
    (ic.conclude io sid res).1 = if accepts then ic.commit io sid out else io := by
  split_ifs with h
  · rw [hok h]
    rfl
  · obtain ⟨e, he⟩ := herror h
    rw [he]
    rfl

theorem step_setValue (sid : ObjectId) (value : Int) (sup_id : ObjectId) :
    ic.step io (.setValue sid value sup_id) =
      if sid ≠ DefaultObjectId ∧ sid ∈ ic.slots.nodes then
        if ic.conf.Accepts (io sid) (ic.supplierOf sup_id) then
          ic.commit io sid ((io sid).assign value (ic.supplierOf sup_id))
        else io
      else io := by
  unfold step setValue
  simp only
  split_ifs with hfound ha
  · rw [conclude_fst (fun h => ControllerConf.localSetValue_accepts h value)
      (fun h => ControllerConf.localSetValue_refuses h value), if_pos ha]
  · rw [conclude_fst (fun h => ControllerConf.localSetValue_accepts h value)
      (fun h => ControllerConf.localSetValue_refuses h value), if_neg ha]
  · rfl

theorem step_freezeValue (sid : ObjectId) (set : Bool) (value : Int) (sup_id : ObjectId) :
    ic.step io (.freezeValue sid set value sup_id) =
      if sid ≠ DefaultObjectId ∧ sid ∈ ic.slots.nodes then
        if ic.conf.Accepts (io sid) (ic.supplierOf sup_id) then
          ic.commit io sid
            (((io sid).assignFrozen set value).assign (io sid).real_value (ic.supplierOf sup_id))
        else io
      else io := by
  unfold step freezeValue
  simp only
  split_ifs with hfound ha
  · rw [conclude_fst (fun h => ControllerConf.localFreezeValue_accepts h set value)
      (fun h => ControllerConf.localFreezeValue_refuses h set value), if_pos ha]
  · rw [conclude_fst (fun h => ControllerConf.localFreezeValue_accepts h set value)
      (fun h => ControllerConf.localFreezeValue_refuses h set value), if_neg ha]
  · rfl

theorem step_setUndefinedState (sid : ObjectId) (undefined : Bool) (sup_id : ObjectId) :
    ic.step io (.setUndefinedState sid undefined sup_id) =
      if sid ∈ ic.slots.nodes then
        if (io sid).readonly = false then ic.commit io sid ((io sid).assignUndefined undefined)
        else io
      else io := by
  have hrefuses : ¬(io sid).readonly = false →
      ∃ e, ic.conf.localSetUndefinedState (io sid) undefined = .error e := fun h =>
    ControllerConf.localSetUndefinedState_refuses (Bool.not_eq_false _ ▸ h) undefined
  unfold step setUndefinedState
  simp only
  split_ifs with hfound hwritable
  · rw [conclude_fst (fun h => ControllerConf.localSetUndefinedState_accepts h undefined)
      hrefuses, if_pos hwritable]
  · rw [conclude_fst (fun h => ControllerConf.localSetUndefinedState_accepts h undefined)
      hrefuses, if_neg hwritable]
  · rfl

/-- An operation on the controller is, for each sensor, a sequence of operations on it. -/
theorem step_sensorRuns (io : IOStateList) (op : ControllerOp) : SensorRuns io (ic.step io op) := by
  have hrefl : SensorRuns io io := fun _ => Relation.ReflTransGen.refl
  cases op with
  | setValue sid value sup_id =>
    rw [step_setValue]
    split_ifs with _ ha
    · refine sensorRuns_commit (.localSetValue value (ic.supplierOf sup_id)) ?_
      rw [ControllerConf.step_localSetValue, if_pos ha]
    · exact hrefl
    · exact hrefl
  | setUndefinedState sid undefined sup_id =>
    rw [step_setUndefinedState]
    split_ifs with _ hwritable
    · refine sensorRuns_commit (.localSetUndefinedState undefined) ?_
      rw [ControllerConf.step_localSetUndefinedState, if_neg (by simp [hwritable])]
    · exact hrefl
    · exact hrefl
  | freezeValue sid set value sup_id =>
    rw [step_freezeValue]
    split_ifs with _ ha
    · refine sensorRuns_commit (.localFreezeValue set value (ic.supplierOf sup_id)) ?_
      rw [ControllerConf.step_localFreezeValue, if_pos ha]
    · exact hrefl
    · exact hrefl

end IOController

end Uniset.Processes
