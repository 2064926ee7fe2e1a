import Uniset.Processes.USensorInfoLaws
import Uniset.Lib.GuardedRun

/-! The visible value of a sensor under any order of operations.  Each of them renews the
value by a formula of its own, and the formulas do not agree everywhere. -/

namespace Uniset.Processes

open Uniset.Lib

namespace USensorInfo

variable (usi : USensorInfo)

/-- What the sensor is to show. -/
def visibleValue : Int :=
  if usi.frozen then usi.frozen_value
  else if usi.undefined ∧ usi.HasUndefValue then usi.undef_value
  else if usi.blocked || usi.undefined then usi.d_off_value
  else usi.real_value

/-- The value for the undefined state, if it is the one to show, is the one that
`localSetValue` shows as well. -/
def UndefShown : Prop :=
  usi.frozen = false → usi.undefined = true → usi.HasUndefValue →
    usi.undef_value = usi.d_off_value

theorem shown_eq_visibleValue_iff :
    usi.shown usi.real_value = usi.visibleValue ↔ usi.UndefShown := by
  unfold shown visibleValue UndefShown
  cases usi.frozen with
  | true => simp
  | false =>
    cases usi.undefined with
    | false => simp
    | true =>
      by_cases h : usi.HasUndefValue
      · simpa [h] using eq_comm
      · simp [h]

theorem visibleValue_of_open (h : usi.Open) : usi.visibleValue = usi.real_value := by
  obtain ⟨hfrozen, hblocked, hundefined⟩ := h
  simp [visibleValue, hfrozen, hblocked, hundefined]

variable {usi}

/-- `localSetValue` shows what is to be shown unless the undefined state has another value. -/
theorem assign_visible_iff {value : Int} {sup_id : ObjectId}
    (hshown : (usi.assign value sup_id).1.value = usi.shown value) :
    (usi.assign value sup_id).1.value = (usi.assign value sup_id).1.visibleValue ↔
      usi.UndefShown := by
  rw [hshown, assign_eq]
  exact shown_eq_visibleValue_iff { usi with real_value := value }

end USensorInfo

namespace ControllerConf

variable {ic : ControllerConf} {usi : USensorInfo} {sup_id : ObjectId}

/-- The conditions under which the formula of each operation gives the visible value. -/
def Keeps (ic : ControllerConf) (usi : USensorInfo) : SensorOp → Prop
  | .localSetValue _ sup_id => ic.Accepts usi sup_id → usi.UndefShown
  | .localSetUndefinedState undefined =>
    usi.readonly = false →
      if usi.HasUndefValue then
        (usi.frozen = true →
          (if undefined then usi.undef_value else usi.real_value) = usi.frozen_value) ∧
        (usi.frozen = false → undefined = false → usi.blocked = true →
          usi.real_value = usi.d_off_value)
      else
        usi.undefined = undefined ∨ usi.frozen = true ∨ usi.blocked = true ∨
          usi.real_value = usi.d_off_value
  | .localFreezeValue set _ sup_id =>
    ic.Accepts usi sup_id → set = false → { usi with frozen := false }.UndefShown
  | .checkDepend d_it_value d_it_supplier =>
    usi.blocked ≠ decide (d_it_value ≠ usi.d_value) →
      if ic.Accepts usi d_it_supplier then usi.UndefShown
      else usi.frozen = true ∨ usi.undefined = true ∨ usi.real_value = usi.d_off_value

theorem assignFrozen_visible_iff (set : Bool) (value : Int) (sup_id : ObjectId) :
    ((usi.assignFrozen set value).assign usi.real_value sup_id).1.value =
        ((usi.assignFrozen set value).assign usi.real_value sup_id).1.visibleValue ↔
      (set = false → { usi with frozen := false }.UndefShown) := by
  cases set with
  | true =>
    have hvisible :
        ((usi.assignFrozen true value).assign usi.real_value sup_id).1.visibleValue = value := by
      rw [USensorInfo.assign_eq]
      simp [USensorInfo.visibleValue, USensorInfo.assignFrozen]
    simp [hvisible, USensorInfo.assignFrozen_true_value]
  | false =>
    simp only [true_implies]
    exact USensorInfo.assign_visible_iff (USensorInfo.assign_value_of_emitted _ _ _
      (usi.assignFrozen_false_emitted _ _ value))

/-- The flag that has turned is taken up by `localSetValue`. -/
theorem assign_turned_value (h : usi.value = usi.visibleValue) (sup_id : ObjectId) :
    (usi.turn.assign usi.real_value sup_id).1.value =
      usi.turn.shown usi.real_value := by
  refine USensorInfo.assign_value _ _ _ fun ⟨hfrozen, hblocked, hundefined⟩ => .inr ?_
  simp only [USensorInfo.turn, Bool.not_eq_eq_eq_not, Bool.not_false] at hfrozen hblocked hundefined
  simp only [USensorInfo.turn, h, USensorInfo.visibleValue, hfrozen, hblocked, hundefined]
  simp

theorem turned_visible_iff (h : usi.value = usi.visibleValue) :
    usi.value = usi.turn.visibleValue ↔
      usi.frozen = true ∨ usi.undefined = true ∨ usi.real_value = usi.d_off_value := by
  rw [h]
  cases hfrozen : usi.frozen <;> cases hblocked : usi.blocked <;>
    cases hundefined : usi.undefined <;>
    simp [USensorInfo.visibleValue, USensorInfo.turn, USensorInfo.HasUndefValue, hfrozen, hblocked,
      hundefined, eq_comm]

theorem assignUndefined_visible_iff (h : usi.value = usi.visibleValue) (undefined : Bool) :
    (usi.assignUndefined undefined).1.value = (usi.assignUndefined undefined).1.visibleValue ↔
      if usi.HasUndefValue then
        (usi.frozen = true →
          (if undefined then usi.undef_value else usi.real_value) = usi.frozen_value) ∧
        (usi.frozen = false → undefined = false → usi.blocked = true →
          usi.real_value = usi.d_off_value)
      else
        usi.undefined = undefined ∨ usi.frozen = true ∨ usi.blocked = true ∨
          usi.real_value = usi.d_off_value := by
  rw [USensorInfo.assignUndefined_eq]
  by_cases hhas : usi.HasUndefValue
  · simp only [USensorInfo.undefinedValue, if_pos hhas]
    have hspec : usi.undef_value ≠ not_specified_value := hhas
    simp only [USensorInfo.visibleValue, USensorInfo.HasUndefValue, hspec, ne_eq,
      not_false_eq_true]
    cases usi.frozen <;> cases usi.blocked <;> cases undefined <;> simp
  · have hspec : usi.undef_value = not_specified_value := not_not.mp hhas
    simp only [USensorInfo.undefinedValue, if_neg hhas]
    simp only [USensorInfo.visibleValue, USensorInfo.HasUndefValue, hspec] at h
    simp only [USensorInfo.visibleValue, USensorInfo.HasUndefValue, hspec, ne_eq,
      not_true_eq_false, h]
    cases usi.frozen <;> cases usi.blocked <;> cases usi.undefined <;> cases undefined <;>
      simp [eq_comm]

/-- One step keeps the visible value exactly when its condition is met. -/
theorem step_visible_iff (op : SensorOp) (h : usi.value = usi.visibleValue) :
    (ic.step usi op).value = (ic.step usi op).visibleValue ↔ ic.Keeps usi op := by
  cases op with
  | localSetValue value sup_id =>
    rw [step_localSetValue]
    split_ifs with ha
    · simp only [Keeps, ha, true_implies]
      refine USensorInfo.assign_visible_iff (usi.assign_value value sup_id fun hopen => ?_)
      exact .inl (h.trans (usi.visibleValue_of_open hopen))
    · simp [Keeps, ha, h]
  | localSetUndefinedState undefined =>
    rw [step_localSetUndefinedState]
    split_ifs with hreadonly
    · simp [Keeps, hreadonly, h]
    · simp only [Bool.not_eq_true] at hreadonly
      simp only [Keeps, hreadonly, true_implies]
      exact assignUndefined_visible_iff h undefined
  | localFreezeValue set value sup_id =>
    rw [step_localFreezeValue]
    split_ifs with ha
    · simp only [Keeps, ha, true_implies]
      exact assignFrozen_visible_iff set value sup_id
    · simp [Keeps, ha, h]
  | checkDepend d_it_value d_it_supplier =>
    rw [step_checkDepend]
    split_ifs with hsame ha
    · simp [Keeps, hsame, h]
    · simp only [Keeps, ne_eq, hsame, not_false_eq_true, true_implies, if_pos ha]
      exact USensorInfo.assign_visible_iff (assign_turned_value h d_it_supplier)
    · simp only [Keeps, ne_eq, hsame, not_false_eq_true, true_implies, if_neg ha]
      exact turned_visible_iff h

theorem localSetValue_real_value {value : Int} {out : USensorInfo × Bool}
    (h : ic.localSetValue usi value sup_id = .ok out) : out.1.real_value = value := by
  by_cases ha : ic.Accepts usi sup_id
  · rw [localSetValue_accepts ha] at h
    cases h
    rw [USensorInfo.assign_eq]
  · obtain ⟨e, he⟩ := localSetValue_refuses ha value
    rw [he] at h
    cases h

theorem getSensorInfo_visible (it : SensorConf) :
    (getSensorInfo it).value = (getSensorInfo it).visibleValue := by
  cases h : it.frozen_value <;> simp [getSensorInfo, USensorInfo.visibleValue, h]

/-- A configured sensor shows its visible value after every operation of a sequence if and
only if each of them meets its condition, and a `localSetValue` that returns has stored
the real value. -/
theorem visibleValue_shown (ic : ControllerConf) (it : SensorConf) (ops : List SensorOp) :
    ((∀ usi ∈ List.scanl ic.step (getSensorInfo it) ops, usi.value = usi.visibleValue) ∧
      (∀ usi ∈ List.scanl ic.step (getSensorInfo it) ops, ∀ value sup_id out,
        ic.localSetValue usi value sup_id = .ok out → out.1.real_value = value)) ↔
    Guarded ic.step ic.Keeps (getSensorInfo it) ops := by
  have hvisited :
      (∀ usi ∈ List.scanl ic.step (getSensorInfo it) ops, usi.value = usi.visibleValue) ↔
        Guarded ic.step ic.Keeps (getSensorInfo it) ops := by
    refine forall_visited_iff_guarded (fun _ op h => step_visible_iff op h) ?_ ops
    exact getSensorInfo_visible it
  rw [← hvisited]
  exact and_iff_left fun _ _ _ _ _ h => localSetValue_real_value h

/-- A frozen sensor that becomes undefined shows its value for that state. -/
theorem visibleValue_not_shown :
    let it : SensorConf := ⟨2, .AI, 2, false, none, some 65635, none, none⟩
    ¬∀ usi ∈ List.scanl (unrestricted 1).step (getSensorInfo it)
        [.localFreezeValue true 10 1, .localSetUndefinedState true],
      usi.value = usi.visibleValue := by
  decide

end ControllerConf

end Uniset.Processes
