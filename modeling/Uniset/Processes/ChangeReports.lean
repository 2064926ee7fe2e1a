import Uniset.Processes.USensorInfoLaws
import Uniset.Lib.GuardedRun

/-! The changes of a sensor that `localSetValue` signals and counts, whichever operation calls it. -/

namespace Uniset.Processes

open Uniset.Lib

structure CountedSensor where
  usi : USensorInfo
  nchanges : UInt64

/-- A call of `localSetValue`, with the sensor as it is found. -/
structure SetCall where
  found : CountedSensor
  value : Int
  sup_id : ObjectId

namespace CountedSensor

def initial (it : SensorConf) : CountedSensor := ⟨getSensorInfo it, 0⟩

/-- The new value under the lock.  The counter is next to the fields that are assigned. -/
def assign (s : CountedSensor) (value : Int) (sup_id : ObjectId) : CountedSensor × Bool :=
  let out := s.usi.assign value sup_id
  (⟨out.1, if out.2 then s.nchanges + 1 else s.nchanges⟩, out.2)

end CountedSensor

namespace ControllerConf

variable (ic : ControllerConf)

def countedSetValue (call : SetCall) : Except Exception (CountedSensor × Bool) := do
  ic.checkWrite call.found.usi "localSetValue" call.sup_id
  return call.found.assign call.value call.sup_id

/-- What an operation does before it calls `localSetValue`, and the call. -/
def upToCall (s : CountedSensor) : SensorOp → CountedSensor × Option SetCall
  | .localSetValue value sup_id => (s, some ⟨s, value, sup_id⟩)
  | .localSetUndefinedState undefined =>
    match ic.localSetUndefinedState s.usi undefined with
    | .ok (usi, _) => ({ s with usi }, none)
    | .error _ => (s, none)
  | .localFreezeValue set value sup_id =>
    match ic.checkWrite s.usi "localFreezeValue" sup_id with
    | .ok () =>
      let frozen := { s with usi := s.usi.assignFrozen set value }
      (frozen, some ⟨frozen, s.usi.real_value, sup_id⟩)
    | .error _ => (s, none)
  | .checkDepend d_it_value d_it_supplier =>
    let (usi, changed) := s.usi.assignBlocked d_it_value
    let flagged := { s with usi }
    (flagged, if changed then some ⟨flagged, usi.real_value, d_it_supplier⟩ else none)

def countedStep (s : CountedSensor) (op : SensorOp) : CountedSensor :=
  match ic.upToCall s op with
  | (s, none) => s
  | (s, some call) =>
    match ic.countedSetValue call with
    | .ok (s, _) => s
    | .error _ => s

end ControllerConf

/-- The visible or the real value is another one. -/
def Differs (usi usi' : USensorInfo) : Prop :=
  usi'.value ≠ usi.value ∨ usi'.real_value ≠ usi.real_value

/-- The signal and the counter tell just of a difference. -/
structure Tells (s t : CountedSensor) (emitted : Bool) : Prop where
  signalled : emitted = true ↔ Differs s.usi t.usi
  counted : t.nchanges = s.nchanges + 1 ↔ Differs s.usi t.usi
  uncounted : t.nchanges = s.nchanges ↔ ¬Differs s.usi t.usi

namespace ControllerConf

variable (ic : ControllerConf)

def TellsCall (call : SetCall) : Prop :=
  ∀ t emitted, ic.countedSetValue call = .ok (t, emitted) → Tells call.found t emitted

def TellsOp (s : CountedSensor) (op : SensorOp) : Prop :=
  ∀ call, (ic.upToCall s op).2 = some call → ic.TellsCall call

end ControllerConf

namespace USensorInfo

/-- The value that is shown anyway is not taken for a block or a freeze to be removed, nor is one of
these missed. -/
def Distinct (usi : USensorInfo) : Prop :=
  if usi.frozen then
    (usi.blocked = true ∨ usi.undefined = true) ↔ usi.frozen_value = usi.d_off_value
  else if usi.blocked || usi.undefined then usi.d_off_value ≠ usi.frozen_value
  else usi.real_value ≠ usi.d_off_value ∧ usi.real_value ≠ usi.frozen_value

end USensorInfo

namespace ControllerConf

/-- A permitted call that finds its value stored and shown finds no coincidence. -/
def DistinctOp (ic : ControllerConf) (s : CountedSensor) (op : SensorOp) : Prop :=
  ∀ call, (ic.upToCall s op).2 = some call → ic.Accepts call.found.usi call.sup_id →
    call.value = call.found.usi.real_value →
    call.found.usi.value = call.found.usi.shown call.value → call.found.usi.Distinct

end ControllerConf

namespace USensorInfo

variable {usi : USensorInfo} {value : Int} {sup_id : ObjectId}

theorem assign_real_value : (usi.assign value sup_id).1.real_value = value := by
  rw [assign_eq]

/-- A difference is always signalled. -/
theorem not_differs_of_not_emitted (h : (usi.assign value sup_id).2 = false) :
    ¬Differs usi (usi.assign value sup_id).1 := by
  unfold assign at h ⊢
  simp only at h ⊢
  split at h
  · cases h
  · next hsame =>
    rw [if_neg hsame]
    rintro (hvalue | hreal)
    · exact hvalue rfl
    · exact hreal rfl

theorem differs_iff_of_emitted (h : (usi.assign value sup_id).2 = true) :
    Differs usi (usi.assign value sup_id).1 ↔
      ¬(value = usi.real_value ∧ usi.value = usi.shown value) := by
  rw [Differs, assign_value_of_emitted usi value sup_id h, assign_real_value, not_and_or, Or.comm,
    ne_comm (a := usi.shown value)]

theorem emitted_eq : (usi.assign value sup_id).2 =
    (decide (usi.real_value ≠ value) ||
      ((usi.blocked || usi.undefined) != decide (usi.value = usi.d_off_value)) ||
      (usi.frozen != decide (usi.value = usi.frozen_value))) := by
  unfold assign
  simp only
  split
  · next hdiff => exact hdiff.symm
  · next hsame => exact (Bool.eq_false_iff.mpr hsame).symm

/-- What is stored and shown already is signalled only by a coincidence. -/
theorem not_emitted_iff_distinct (hreal : value = usi.real_value)
    (hshown : usi.value = usi.shown value) :
    (usi.assign value sup_id).2 = false ↔ usi.Distinct := by
  rw [emitted_eq, hshown, hreal, Distinct, shown]
  simp only [ne_eq, not_true_eq_false, decide_false, Bool.false_or, Bool.or_eq_false_iff,
    bne_eq_false_iff_eq]
  cases usi.frozen with
  | true => cases usi.blocked <;> cases usi.undefined <;> simp
  | false =>
    cases usi.blocked || usi.undefined with
    | true => simp
    | false => simp

end USensorInfo

theorem tells_assign_iff {s : CountedSensor} {value : Int} {sup_id : ObjectId} :
    Tells s (s.assign value sup_id).1 (s.assign value sup_id).2 ↔
      (value = s.usi.real_value → s.usi.value = s.usi.shown value → s.usi.Distinct) := by
  have hnext : s.nchanges + 1 ≠ s.nchanges := by
    intro hsame
    simp at hsame
  cases hemit : (s.usi.assign value sup_id).2 with
  | true =>
    have hdiffers := USensorInfo.differs_iff_of_emitted hemit
    have hout : s.assign value sup_id =
        (⟨(s.usi.assign value sup_id).1, s.nchanges + 1⟩, true) := by
      simp [CountedSensor.assign, hemit]
    rw [hout]
    constructor
    · intro htells hreal hshown
      have hboth := hdiffers.mp (htells.signalled.mp rfl)
      exact absurd ⟨hreal, hshown⟩ hboth
    · intro hdistinct
      have hboth : Differs s.usi (s.usi.assign value sup_id).1 := by
        refine hdiffers.mpr fun ⟨hreal, hshown⟩ => ?_
        have hsilent : (s.usi.assign value sup_id).2 = false :=
          (USensorInfo.not_emitted_iff_distinct hreal hshown).mpr (hdistinct hreal hshown)
        rw [hemit] at hsilent
        cases hsilent
      exact ⟨iff_of_true rfl hboth, iff_of_true rfl hboth, iff_of_false hnext (not_not_intro hboth)⟩
  | false =>
    have hsame := USensorInfo.not_differs_of_not_emitted hemit
    have hout : s.assign value sup_id =
        (⟨(s.usi.assign value sup_id).1, s.nchanges⟩, false) := by
      simp [CountedSensor.assign, hemit]
    rw [hout]
    refine iff_of_true ⟨?_, ?_, ?_⟩ fun hreal hshown => ?_
    · exact iff_of_false Bool.false_ne_true hsame
    · exact iff_of_false hnext.symm hsame
    · exact iff_of_true rfl hsame
    · exact (USensorInfo.not_emitted_iff_distinct hreal hshown).mp hemit

namespace ControllerConf

variable {ic : ControllerConf} {s : CountedSensor} {op : SensorOp} {call : SetCall}

theorem countedSetValue_eq : ic.countedSetValue call =
    (ic.localSetValue call.found.usi call.value call.sup_id).map fun out =>
      (⟨out.1, if out.2 then call.found.nchanges + 1 else call.found.nchanges⟩, out.2) := by
  unfold countedSetValue localSetValue
  cases ic.checkWrite call.found.usi "localSetValue" call.sup_id with
  | error e => rfl
  | ok _ => rfl

theorem countedSetValue_accepts (h : ic.Accepts call.found.usi call.sup_id) :
    ic.countedSetValue call = .ok (call.found.assign call.value call.sup_id) := by
  rw [countedSetValue_eq, localSetValue_accepts h]
  rfl

theorem countedSetValue_refuses (h : ¬ic.Accepts call.found.usi call.sup_id) :
    ∃ e, ic.countedSetValue call = .error e := by
  obtain ⟨e, he⟩ := localSetValue_refuses h call.value
  refine ⟨e, ?_⟩
  rw [countedSetValue_eq, he]
  rfl

/-- The counter does not change what the operations do. -/
theorem countedStep_usi (s : CountedSensor) (op : SensorOp) :
    (ic.countedStep s op).usi = ic.step s.usi op := by
  cases op with
  | localSetValue value sup_id =>
    rw [step_localSetValue]
    simp only [countedStep, upToCall]
    split_ifs with ha
    · simp only [@countedSetValue_accepts _ ⟨s, value, sup_id⟩ ha]
      rfl
    · obtain ⟨e, he⟩ := @countedSetValue_refuses _ ⟨s, value, sup_id⟩ ha
      simp only [he]
  | localSetUndefinedState undefined =>
    simp only [countedStep, upToCall, step]
    cases ic.localSetUndefinedState s.usi undefined with
    | error e => rfl
    | ok out => rfl
  | localFreezeValue set value sup_id =>
    rw [step_localFreezeValue]
    simp only [countedStep, upToCall]
    split_ifs with ha
    · have hcall : ic.Accepts (s.usi.assignFrozen set value) sup_id := ha
      simp only [checkWrite_accepts _ ha]
      rw [@countedSetValue_accepts _
        ⟨⟨s.usi.assignFrozen set value, s.nchanges⟩, s.usi.real_value, sup_id⟩ hcall]
      rfl
    · obtain ⟨e, he⟩ := checkWrite_refuses "localFreezeValue" ha
      simp only [he]
  | checkDepend d_it_value d_it_supplier =>
    rw [step_checkDepend]
    simp only [countedStep, upToCall]
    by_cases hsame : s.usi.blocked = decide (d_it_value ≠ s.usi.d_value)
    · have hflag : s.usi.assignBlocked d_it_value = (s.usi, false) := by
        simp [USensorInfo.assignBlocked, ← hsame]
      rw [if_pos hsame, hflag]
      rfl
    · rw [if_neg hsame, USensorInfo.assignBlocked_turns hsame]
      simp only [if_true]
      split_ifs with ha
      · have hcall : ic.Accepts s.usi.turn d_it_supplier := ha
        rw [@countedSetValue_accepts _
          ⟨⟨s.usi.turn, s.nchanges⟩, s.usi.turn.real_value, d_it_supplier⟩ hcall]
        rfl
      · have hcall : ¬ic.Accepts s.usi.turn d_it_supplier := ha
        obtain ⟨e, he⟩ := @countedSetValue_refuses _
          ⟨⟨s.usi.turn, s.nchanges⟩, s.usi.turn.real_value, d_it_supplier⟩ hcall
        simp only [he]

theorem tellsCall_iff : ic.TellsCall call ↔
    (ic.Accepts call.found.usi call.sup_id → call.value = call.found.usi.real_value →
      call.found.usi.value = call.found.usi.shown call.value → call.found.usi.Distinct) := by
  by_cases haccepts : ic.Accepts call.found.usi call.sup_id
  · simp only [TellsCall, countedSetValue_accepts haccepts, haccepts, true_implies,
      ← @tells_assign_iff call.found call.value call.sup_id]
    constructor
    · intro h
      exact h _ _ rfl
    · rintro h t emitted hok
      cases hok
      exact h
  · obtain ⟨e, he⟩ := countedSetValue_refuses haccepts
    refine iff_of_true (fun t emitted hok => ?_) fun h => absurd h haccepts
    rw [he] at hok
    cases hok

theorem tellsOp_iff : ic.TellsOp s op ↔ ic.DistinctOp s op := by
  refine forall_congr' fun call => forall_congr' fun _ => ?_
  exact tellsCall_iff

/-- Every call in a run of operations tells just of a difference if and only if none of them meets a
coincidence. -/
theorem tells_run_iff (ic : ControllerConf) (it : SensorConf) (ops : List SensorOp) :
    (∀ before op after, ops = before ++ op :: after →
      ic.TellsOp (before.foldl ic.countedStep (.initial it)) op) ↔
    Guarded ic.countedStep ic.DistinctOp (.initial it) ops := by
  rw [guarded_iff_forall]
  refine forall_congr' fun before => forall_congr' fun op => forall_congr' fun after => ?_
  exact forall_congr' fun _ => tellsOp_iff

/-- A new sensor takes its value 0 for the one that a block leaves. -/
theorem not_tells_zero : ¬∀ (ic : ControllerConf) (it : SensorConf) (ops : List SensorOp),
    ∀ before op after, ops = before ++ op :: after →
      ic.TellsOp (before.foldl ic.countedStep (.initial it)) op := by
  intro hall
  let ic := ControllerConf.unrestricted 1
  let it : SensorConf := ⟨2, .AI, 0, false, none, none, none, none⟩
  have htells := hall ic it [.localSetValue 0 1] [] (.localSetValue 0 1) [] rfl _ rfl
  have hok := htells ⟨{ getSensorInfo it with supplier := 1 }, 1⟩ true rfl
  rcases hok.signalled.mp rfl with hvalue | hreal
  · exact hvalue rfl
  · exact hreal rfl

end ControllerConf

end Uniset.Processes
