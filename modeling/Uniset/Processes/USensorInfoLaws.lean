import Uniset.Processes.USensorInfo

/-! What one operation leaves behind in the record of the sensor. -/

namespace Uniset.Processes

namespace USensorInfo

variable (usi : USensorInfo) (value : Int) (sup_id : ObjectId)

/-- The value that `localSetValue` shows for the real value `value`. -/
def shown : Int :=
  if usi.frozen then usi.frozen_value
  else if usi.blocked || usi.undefined then usi.d_off_value else value

/-- The other flag of the block. -/
def turn : USensorInfo := { usi with blocked := !usi.blocked }

/-- Nothing hides the real value. -/
def Open : Prop := usi.frozen = false ∧ usi.blocked = false ∧ usi.undefined = false

theorem shown_of_open {usi : USensorInfo} (h : usi.Open) (value : Int) :
    usi.shown value = value := by
  obtain ⟨hfrozen, hblocked, hundefined⟩ := h
  simp [shown, hfrozen, hblocked, hundefined]

/-- Everything but the supplier, the real value and the value stays. -/
theorem assign_eq :
    (usi.assign value sup_id).1 =
      { usi with
        supplier := sup_id
        real_value := value
        value := (usi.assign value sup_id).1.value } := by
  unfold assign
  simp only
  split
  · rfl
  · next hsame =>
    simp only [Bool.or_eq_true, not_or, decide_eq_true_eq, not_not] at hsame
    rw [← hsame.1.1]

theorem assign_thresholds : (usi.assign value sup_id).1.thresholds = usi.thresholds := by
  rw [assign_eq]

/-- Without a signal the value has not moved. -/
theorem assign_value_of_not_emitted (h : (usi.assign value sup_id).2 = false) :
    (usi.assign value sup_id).1.value = usi.value := by
  unfold assign at h ⊢
  simp only at h ⊢
  split at h
  · cases h
  · next hsame => rw [if_neg hsame]

theorem assign_value_of_emitted (h : (usi.assign value sup_id).2 = true) :
    (usi.assign value sup_id).1.value = usi.shown value := by
  unfold assign at h ⊢
  simp only at h ⊢
  split at h
  · next hdiff => rw [if_pos hdiff]; rfl
  · cases h

/-- Where nothing hides the real value but another one is shown, only the value of a block
is sure to be renewed. -/
theorem assign_value
    (hopen : usi.Open → usi.value = usi.real_value ∨ usi.value = usi.d_off_value) :
    (usi.assign value sup_id).1.value = usi.shown value := by
  cases hemit : (usi.assign value sup_id).2 with
  | true => exact assign_value_of_emitted usi value sup_id hemit
  | false =>
    rw [assign_value_of_not_emitted usi value sup_id hemit]
    unfold assign at hemit
    simp only at hemit
    split at hemit
    · cases hemit
    · next hsame =>
      simp only [Bool.or_eq_true, not_or, decide_eq_true_eq, not_not, bne_iff_ne, ne_eq] at hsame
      obtain ⟨⟨hreal, hblock⟩, hfreeze⟩ := hsame
      unfold shown
      split_ifs with hfrozen hblocked
      · simpa [hfrozen] using hfreeze
      · simpa [hblocked] using hblock
      · simp only [Bool.or_eq_true, not_or, Bool.not_eq_true] at hfrozen hblocked
        have hoff : usi.value ≠ usi.d_off_value := by simpa [hblocked] using hblock
        rw [(hopen ⟨hfrozen, hblocked⟩).resolve_right hoff, hreal]

/-- The value that `localSetUndefinedState` leaves. -/
def undefinedValue (undefined : Bool) : Int :=
  if usi.HasUndefValue then if undefined then usi.undef_value else usi.real_value
  else usi.value

theorem assignUndefined_eq (undefined : Bool) :
    usi.assignUndefined undefined =
      ({ usi with undefined, value := usi.undefinedValue undefined },
        usi.undefined != undefined) := by
  by_cases hhas : usi.HasUndefValue
  · have hspec : usi.undef_value ≠ not_specified_value := hhas
    simp only [assignUndefined, undefinedValue, if_pos hhas, if_pos hspec]
  · have hspec : ¬usi.undef_value ≠ not_specified_value := hhas
    simp only [assignUndefined, undefinedValue, if_neg hhas, if_neg hspec]

theorem assignBlocked_turns {usi : USensorInfo} {d_it_value : Int}
    (h : usi.blocked ≠ decide (d_it_value ≠ usi.d_value)) :
    usi.assignBlocked d_it_value = (usi.turn, true) := by
  have hnew : decide (d_it_value ≠ usi.d_value) = !usi.blocked := by
    cases hb : usi.blocked <;> simpa [hb] using h
  simp only [assignBlocked, hnew, turn, Prod.mk.injEq, true_and]
  cases usi.blocked <;> rfl

theorem assignFrozen_true_value (w : Int) :
    ((usi.assignFrozen true w).assign value sup_id).1.value = w := by
  rw [assign_value _ _ _ fun h => absurd h.1 (by simp [assignFrozen])]
  simp [shown, assignFrozen]

/-- Unfreezing is always signalled, since it notes the value as the frozen one. -/
theorem assignFrozen_false_emitted (w : Int) :
    ((usi.assignFrozen false w).assign value sup_id).2 = true := by
  simp [assign, assignFrozen]

end USensorInfo

namespace ControllerConf

variable {ic : ControllerConf} {usi : USensorInfo} {sup_id : ObjectId}

theorem checkWrite_accepts (function : String) (h : ic.Accepts usi sup_id) :
    ic.checkWrite usi function sup_id = .ok () := by
  obtain ⟨haccess, hreadonly⟩ := h
  unfold checkWrite
  rw [if_neg, if_neg (by simp [hreadonly])]
  rintro ⟨hid, hmask⟩
  rcases haccess with rfl | hwrite
  · exact hid rfl
  · simp [hwrite] at hmask

theorem checkWrite_refuses (function : String) (h : ¬ic.Accepts usi sup_id) :
    ∃ e, ic.checkWrite usi function sup_id = .error e := by
  unfold checkWrite
  split_ifs with haccess hreadonly
  · exact ⟨_, rfl⟩
  · exact ⟨_, rfl⟩
  · refine absurd ⟨?_, by simpa using hreadonly⟩ h
    by_contra hno
    rw [not_or] at hno
    exact haccess ⟨hno.1, by simpa using hno.2⟩

theorem localSetValue_accepts (h : ic.Accepts usi sup_id) (value : Int) :
    ic.localSetValue usi value sup_id = .ok (usi.assign value sup_id) := by
  simp only [localSetValue, checkWrite_accepts _ h]
  rfl

theorem localSetValue_refuses (h : ¬ic.Accepts usi sup_id) (value : Int) :
    ∃ e, ic.localSetValue usi value sup_id = .error e := by
  obtain ⟨e, he⟩ := checkWrite_refuses "localSetValue" h
  refine ⟨e, ?_⟩
  simp only [localSetValue, he]
  rfl

theorem localFreezeValue_accepts (h : ic.Accepts usi sup_id) (set : Bool) (value : Int) :
    ic.localFreezeValue usi set value sup_id =
      .ok ((usi.assignFrozen set value).assign usi.real_value sup_id) := by
  have hfrozen : ic.Accepts (usi.assignFrozen set value) sup_id := h
  simp only [localFreezeValue, checkWrite_accepts _ h, localSetValue_accepts hfrozen]
  rfl

theorem localFreezeValue_refuses (h : ¬ic.Accepts usi sup_id) (set : Bool) (value : Int) :
    ∃ e, ic.localFreezeValue usi set value sup_id = .error e := by
  obtain ⟨e, he⟩ := checkWrite_refuses "localFreezeValue" h
  refine ⟨e, ?_⟩
  simp only [localFreezeValue, he]
  rfl

theorem localSetUndefinedState_accepts (h : usi.readonly = false) (undefined : Bool) :
    ic.localSetUndefinedState usi undefined = .ok (usi.assignUndefined undefined) := by
  simp [localSetUndefinedState, h]

theorem localSetUndefinedState_refuses (h : usi.readonly = true) (undefined : Bool) :
    ∃ e, ic.localSetUndefinedState usi undefined = .error e := by
  simp [localSetUndefinedState, h]

/-- A flag that stays leaves the sensor as it was; a flag that turns is followed by
`localSetValue` with the real value. -/
theorem checkDepend_same {d_it_value : Int} (h : usi.blocked = decide (d_it_value ≠ usi.d_value))
    (d_it_supplier : ObjectId) : ic.checkDepend usi d_it_value d_it_supplier = (usi, .ok false) := by
  simp [checkDepend, USensorInfo.assignBlocked, ← h]

theorem checkDepend_accepts {d_it_value : Int} {d_it_supplier : ObjectId}
    (h : usi.blocked ≠ decide (d_it_value ≠ usi.d_value)) (ha : ic.Accepts usi d_it_supplier) :
    ic.checkDepend usi d_it_value d_it_supplier =
      ((usi.turn.assign usi.real_value d_it_supplier).1,
        .ok (usi.turn.assign usi.real_value d_it_supplier).2) := by
  have hturn : ic.Accepts usi.turn d_it_supplier := ha
  simp only [checkDepend, USensorInfo.assignBlocked_turns h, if_true,
    localSetValue_accepts hturn]
  rfl

theorem checkDepend_refuses {d_it_value : Int} {d_it_supplier : ObjectId}
    (h : usi.blocked ≠ decide (d_it_value ≠ usi.d_value)) (ha : ¬ic.Accepts usi d_it_supplier) :
    ∃ e, ic.checkDepend usi d_it_value d_it_supplier = (usi.turn, .error e) := by
  have hturn : ¬ic.Accepts usi.turn d_it_supplier := ha
  obtain ⟨e, he⟩ := localSetValue_refuses hturn usi.turn.real_value
  exact ⟨e, by simp only [checkDepend, USensorInfo.assignBlocked_turns h, if_true, he]⟩

theorem step_localSetValue (value : Int) (sup_id : ObjectId) :
    ic.step usi (.localSetValue value sup_id) =
      if ic.Accepts usi sup_id then (usi.assign value sup_id).1 else usi := by
  unfold step
  split_ifs with h
  · simp only [localSetValue_accepts h]
  · obtain ⟨e, he⟩ := localSetValue_refuses h value
    simp only [he]

theorem step_localSetUndefinedState (undefined : Bool) :
    ic.step usi (.localSetUndefinedState undefined) =
      if usi.readonly then usi else (usi.assignUndefined undefined).1 := by
  unfold step
  split_ifs with h
  · obtain ⟨e, he⟩ := @localSetUndefinedState_refuses ic _ h undefined
    simp only [he]
  · simp only [localSetUndefinedState_accepts (Bool.not_eq_true _ ▸ h)]

theorem step_localFreezeValue (set : Bool) (value : Int) (sup_id : ObjectId) :
    ic.step usi (.localFreezeValue set value sup_id) =
      if ic.Accepts usi sup_id then
        ((usi.assignFrozen set value).assign usi.real_value sup_id).1
      else usi := by
  unfold step
  split_ifs with h
  · simp only [localFreezeValue_accepts h]
  · obtain ⟨e, he⟩ := localFreezeValue_refuses h set value
    simp only [he]

theorem step_checkDepend (d_it_value : Int) (d_it_supplier : ObjectId) :
    ic.step usi (.checkDepend d_it_value d_it_supplier) =
      if usi.blocked = decide (d_it_value ≠ usi.d_value) then usi
      else if ic.Accepts usi d_it_supplier then
        (usi.turn.assign usi.real_value d_it_supplier).1
      else usi.turn := by
  simp only [step]
  split_ifs with hsame ha
  · rw [checkDepend_same hsame]
  · rw [checkDepend_accepts hsame ha]
  · obtain ⟨e, he⟩ := checkDepend_refuses hsame ha
    rw [he]

end ControllerConf

end Uniset.Processes
