import Uniset.Processes.Thresholds

/-! The message with which an order of a threshold is answered, beside what `checkThreshold` makes of
the threshold that the order is for. -/

namespace Uniset.Processes

open UThresholdInfo

namespace IONotifyController

variable {ic : IOController} {usi : USensorInfo} {ci : ConsumerInfo} {tid lowLimit hiLimit : Int}
  {invert : Bool}

/-- The threshold of an order: the stored one of that number, else a new one. -/
def orderedThreshold (usi : USensorInfo) (tid lowLimit hiLimit : Int) (invert : Bool) :
    UThresholdInfo :=
  (usi.thresholds.find? fun it => it.id = tid).getD (newThreshold tid lowLimit hiLimit invert)

/-- The answer tells the state that `checkThreshold` would give the threshold as it is stored then. -/
def FirstTells (ic : IOController) (usi : USensorInfo) (ci : ConsumerInfo)
    (tid lowLimit hiLimit : Int) (invert : Bool) : Prop :=
  ∀ usi' msgs, askThreshold ic usi ci tid lowLimit hiLimit invert .UIONotify = .ok (usi', msgs) →
    ∀ it, usi'.thresholds.find? (fun it => it.id = tid) = some it → ∀ msg ∈ msgs,
      msg.threshold = true ↔ it.nextState usi.value ≠ .NormalThreshold

/-- The value at which the order looks. -/
def seenValue (usi : USensorInfo) : Int := if usi.undefined then 0 else usi.value

/-- A threshold that is out of its normal state at a value: beyond the limit at which it trips, or
between the limits when it has tripped before. -/
def Tripped (it : UThresholdInfo) (value : Int) : Prop :=
  if it.invert then
    value < it.hilimit ∧ (value ≤ it.lowlimit ∨ it.state ≠ .NormalThreshold)
  else it.lowlimit < value ∧ (it.hilimit ≤ value ∨ it.state ≠ .NormalThreshold)

/-- When the order is for the limits of the threshold and the sensor is defined, the threshold is not
one that has tripped before and is between its limits now, and an inverted one is just there.
Otherwise the limits of the order and the value it looks at are to come out the same. -/
def FirstAgrees (usi : USensorInfo) (it : UThresholdInfo) (lowLimit hiLimit : Int) : Prop :=
  if usi.undefined = false ∧ it.lowlimit = lowLimit ∧ it.hilimit = hiLimit then
    if it.invert then
      lowLimit < usi.value ∧ usi.value < hiLimit ∧ it.state = .NormalThreshold ∨
        usi.value = lowLimit ∧ usi.value = hiLimit
    else usi.value ≤ lowLimit ∨ hiLimit ≤ usi.value ∨ it.state = .NormalThreshold
  else lowLimit < seenValue usi ∧ hiLimit ≤ seenValue usi ↔ Tripped it usi.value

theorem nextState_ne_normal_iff (it : UThresholdInfo) (value : Int) :
    it.nextState value ≠ .NormalThreshold ↔ Tripped it value := by
  unfold nextState Tripped
  cases it.invert with
  | false =>
    simp only [Bool.not_false, if_true, Bool.false_eq_true, if_false]
    split_ifs with hlow hhi
    · simp only [ne_eq, not_true_eq_false, false_iff]
      omega
    · simp only [ne_eq, reduceCtorEq, not_false_eq_true, true_iff]
      exact ⟨by omega, .inl hhi⟩
    · refine ⟨fun h => ⟨by omega, .inr h⟩, fun h => h.2.resolve_left hhi⟩
  | true =>
    simp only [Bool.not_true, Bool.false_eq_true, if_false, if_true]
    split_ifs with hhi hlow
    · simp only [ne_eq, not_true_eq_false, false_iff]
      omega
    · simp only [ne_eq, reduceCtorEq, not_false_eq_true, true_iff]
      exact ⟨by omega, .inl hlow⟩
    · refine ⟨fun h => ⟨by omega, .inr h⟩, fun h => h.2.resolve_left hlow⟩

theorem firstAgrees_iff (it : UThresholdInfo) (hrange : lowLimit ≤ hiLimit) :
    FirstAgrees usi it lowLimit hiLimit ↔
      (lowLimit < seenValue usi ∧ hiLimit ≤ seenValue usi ↔ Tripped it usi.value) := by
  unfold FirstAgrees
  split_ifs with hplain hinvert
  · obtain ⟨hdefined, rfl, rfl⟩ := hplain
    have hseen : seenValue usi = usi.value := by
      rw [seenValue, hdefined]
      rfl
    rw [hseen, Tripped, if_pos hinvert]
    by_cases hstate : it.state = .NormalThreshold
    · simp only [hstate, ne_eq, not_true_eq_false, or_false, and_true]
      omega
    · simp only [hstate, ne_eq, not_false_eq_true, or_true, and_true, and_false, false_or]
      omega
  · obtain ⟨hdefined, rfl, rfl⟩ := hplain
    have hseen : seenValue usi = usi.value := by
      rw [seenValue, hdefined]
      rfl
    rw [hseen, Tripped, if_neg hinvert]
    by_cases hstate : it.state = .NormalThreshold
    · simp only [hstate, ne_eq, not_true_eq_false, or_false, or_true]
    · simp only [hstate, ne_eq, not_false_eq_true, or_true, and_true, or_false]
      omega
  · exact Iff.rfl

/-- The order leaves the threshold as it is but for its consumers. -/
theorem find_ordered (usi : USensorInfo) (ci : ConsumerInfo) (tid lowLimit hiLimit : Int)
    (invert : Bool) :
    (onThreshold tid (addConsumer ci) (addThresholdIfNotExist usi.thresholds
      (newThreshold tid lowLimit hiLimit invert))).find? (fun it => it.id = tid) =
      some (addConsumer ci (orderedThreshold usi tid lowLimit hiLimit invert)) := by
  have hstored : ∀ {ti : List UThresholdInfo} {it : UThresholdInfo},
      ti.find? (fun it => it.id = tid) = some it →
      (onThreshold tid (addConsumer ci) ti).find? (fun it => it.id = tid) =
        some (addConsumer ci it) := by
    intro ti
    induction ti with
    | nil =>
      intro it h
      cases h
    | cons t ti ih =>
      intro it h
      unfold onThreshold
      by_cases hid : t.id = tid
      · rw [List.find?_cons_of_pos (by simpa using hid)] at h
        cases h
        have hsame : (addConsumer ci t).id = tid := hid
        rw [if_pos hid]
        exact List.find?_cons_of_pos (decide_eq_true hsame)
      · rw [List.find?_cons_of_neg (by simpa using hid)] at h
        rw [if_neg hid, List.find?_cons_of_neg (by simpa using hid)]
        exact ih h
  refine hstored ?_
  unfold addThresholdIfNotExist orderedThreshold
  cases hfind : usi.thresholds.find? fun it => it.id = tid with
  | some it =>
    have hid : it.id = tid := by simpa using List.find?_some hfind
    have hexists : ∃ t ∈ usi.thresholds, t.id = (newThreshold tid lowLimit hiLimit invert).id :=
      ⟨it, List.mem_of_find?_eq_some hfind, hid⟩
    rw [if_pos hexists, hfind]
    rfl
  | none =>
    have hnone : ¬∃ t ∈ usi.thresholds, t.id = (newThreshold tid lowLimit hiLimit invert).id := by
      rintro ⟨t, ht, hid⟩
      exact List.find?_eq_none.mp hfind t ht (decide_eq_true hid)
    rw [if_neg hnone, List.find?_append, hfind]
    simp [newThreshold]

/-- The answer to an order that is accepted tells the state exactly when the limits and the value that
it looks at come out as those of the threshold. -/
theorem first_tells_iff (ic : IOController) (usi : USensorInfo) (ci : ConsumerInfo)
    (tid lowLimit hiLimit : Int) (invert : Bool) :
    FirstTells ic usi ci tid lowLimit hiLimit invert ↔
      (lowLimit ≤ hiLimit → CanRead ic usi ci.id →
        FirstAgrees usi (orderedThreshold usi tid lowLimit hiLimit invert) lowLimit hiLimit) := by
  unfold FirstTells askThreshold
  by_cases hrange : hiLimit < lowLimit
  · rw [if_pos hrange]
    refine iff_of_true (fun usi' msgs h => ?_) fun hle => absurd hrange (by omega)
    cases h
  rw [if_neg hrange]
  by_cases hread : CanRead ic usi ci.id
  · have hle : lowLimit ≤ hiLimit := Int.not_lt.mp hrange
    rw [orderValue_eq hread]
    have hnext := nextState_ne_normal_iff
      (addConsumer ci (orderedThreshold usi tid lowLimit hiLimit invert)) usi.value
    have hmessage : (!decide (seenValue usi ≤ lowLimit) && decide (hiLimit ≤ seenValue usi)) = true ↔
        lowLimit < seenValue usi ∧ hiLimit ≤ seenValue usi := by
      simp
    simp only [hle, hread, true_implies, firstAgrees_iff _ hle]
    rw [← hmessage]
    constructor
    · intro h
      have hfirst := h _ _ rfl _ (find_ordered usi ci tid lowLimit hiLimit invert)
      exact (hfirst _ List.mem_cons_self).trans hnext
    · rintro h usi' msgs hok it hit msg hmsg
      cases hok
      rw [find_ordered] at hit
      cases hit
      rw [List.mem_singleton.mp hmsg]
      exact h.trans hnext.symm
  · obtain ⟨e, he⟩ := orderValue_cannotRead hread
    rw [he]
    refine iff_of_true (fun usi' msgs h => ?_) fun _ hcan => absurd hcan hread
    cases h

/-- A new inverted threshold that the value is below. -/
theorem not_first_tells_inverted : ¬∀ (ic : IOController) (usi : USensorInfo) (ci : ConsumerInfo)
    (tid lowLimit hiLimit : Int) (invert : Bool),
    FirstTells ic usi ci tid lowLimit hiLimit invert := by
  intro hall
  let usi := getSensorInfo ⟨2, .AI, 5, false, none, none, none, none⟩
  let it := addConsumer ⟨3, 0⟩ (newThreshold 7 10 20 true)
  let ic := IOController.read (.unrestricted 1) [] dependsAcyclic_nil
  have hread : CanRead ic usi 3 := .inr (by decide)
  have hok : askThreshold ic usi ⟨3, 0⟩ 7 10 20 true .UIONotify =
      .ok ({ usi with thresholds := [it] }, [⟨⟨3, 0⟩, 7, 5, false⟩]) := by
    unfold askThreshold
    rw [if_neg (by decide), orderValue_eq hread]
    rfl
  have hfirst := hall ic usi ⟨3, 0⟩ 7 10 20 true _ _ hok it rfl _ List.mem_cons_self
  exact absurd (hfirst.mpr (by decide)) Bool.false_ne_true

end IONotifyController

end Uniset.Processes
