import Uniset.Lib.Scaling
import Uniset.Processes.Requests
import Uniset.Processes.USensorInfoLaws

/-! The raw value that a controller gives back for the visible value of a calibrated sensor. -/

namespace Uniset.Processes

open Uniset.Lib

/-- In either order of the limits. -/
def setinregion (ret calMin calMax : Int) : Int :=
  if calMin < calMax then
    if ret < calMin then calMin
    else if calMax < ret then calMax
    else ret
  else
    if calMin < ret then calMin
    else if ret < calMax then calMax
    else ret

/-- The floats are taken as the numbers they stand for. -/
def lcalibrate (raw rawMin rawMax calMin calMax : Int) (limit : Bool) : Int :=
  if rawMax = rawMin then 0
  else
    let ret := lround (((raw - rawMin : Int) : ℚ) * ((calMax - calMin : Int) : ℚ) /
      ((rawMax - rawMin : Int) : ℚ) + calMin)
    if !limit then ret else setinregion ret calMin calMax

/-- The last lines of `getRawValue`. -/
def rawOf (type : IOType) (value : Int) (ci : CalibrateInfo) : Int :=
  if ci.maxCal ≠ 0 ∧ ci.maxCal ≠ ci.minCal then
    if type = .AI then lcalibrate value ci.minRaw ci.maxRaw ci.minCal ci.maxCal true
    else if type = .AO then lcalibrate value ci.minCal ci.maxCal ci.minRaw ci.maxRaw true
    else value
  else value

/-- The sensor is what the list has under `sid`. -/
def ControllerConf.getRawValue (ic : ControllerConf) (it : Option (USensorInfo × CalibrateInfo))
    (sid consumer_id : ObjectId) : Except Exception Int :=
  match it with
  | none =>
    .error (.NameNotFound (ic.myname ++ "(getRawValue): Unknown analog sensor (" ++ toString sid ++
      ")" ++ ic.getNameById sid))
  | some (usi, ci) =>
    if consumer_id ≠ ic.id ∧ !(usi.checkMask ic.acls consumer_id ic.defaultAccessMask).canRead then
      .error (.AccessDenied (ic.myname ++ "(getRawValue): Access denied"))
    else .ok (rawOf usi.type usi.value ci)

/-! ## Without the rounding -/

/-- `lcalibrate` with its limits, but for the rounding. -/
def calibrate (rawMin rawMax calMin calMax raw : ℚ) : ℚ :=
  within calMin calMax (scale rawMin rawMax calMin calMax raw)

/-- A way to get a visible value from a raw one. -/
inductive Visible
  /-- as an input does -/
  | rawToCal
  /-- with the ranges the other way round -/
  | calToRaw
  deriving DecidableEq

namespace CalibrateInfo

variable (ci : CalibrateInfo)

def exactVisible (r : ℚ) : Visible → ℚ
  | .rawToCal => calibrate ci.minRaw ci.maxRaw ci.minCal ci.maxCal r
  | .calToRaw => calibrate ci.minCal ci.maxCal ci.minRaw ci.maxRaw r

def visible (r : Int) : Visible → Int
  | .rawToCal => lcalibrate r ci.minRaw ci.maxRaw ci.minCal ci.maxCal true
  | .calToRaw => lcalibrate r ci.minCal ci.maxCal ci.minRaw ci.maxRaw true

/-- `rawOf`, but for the rounding. -/
def exactRawOf (type : IOType) (value : ℚ) : ℚ :=
  if ci.maxCal ≠ 0 ∧ ci.maxCal ≠ ci.minCal then
    if type = .AI then ci.exactVisible value .rawToCal
    else if type = .AO then ci.exactVisible value .calToRaw
    else value
  else value

/-- What the two roundings may do to a raw value: the one to the visible value, as wide as the line
back makes it, and its own. -/
def tolerance : ℚ := 1 / 2 + 1 / 2 * |((ci.maxRaw : ℚ) - ci.minRaw) / (ci.maxCal - ci.minCal)|

/-- Rounding apart, the raw value comes back. -/
def Inverts (type : IOType) (dir : Visible) : Prop :=
  ∀ r : Int, ci.minRaw ≤ r → r ≤ ci.maxRaw → ci.exactRawOf type (ci.exactVisible r dir) = r

/-- The raw value comes back up to the rounding, to whoever may read the sensor. -/
def Recovers (type : IOType) (dir : Visible) : Prop :=
  ∀ (ic : ControllerConf) (usi : USensorInfo) (consumer_id : ObjectId) (r : Int), usi.type = type →
    (consumer_id = ic.id ∨
      (usi.checkMask ic.acls consumer_id ic.defaultAccessMask).canRead = true) →
    ci.minRaw ≤ r → r ≤ ci.maxRaw → usi.value = ci.visible r dir →
    ∃ raw, ic.getRawValue (some (usi, ci)) usi.id consumer_id = .ok raw ∧
      |(raw : ℚ) - r| ≤ ci.tolerance

/-- The raw values and the visible ones are the same. -/
def SameRange : Prop := ci.minCal = ci.minRaw ∧ ci.maxCal = ci.maxRaw

def ReversedRange : Prop := ci.minCal = ci.maxRaw ∧ ci.maxCal = ci.minRaw

end CalibrateInfo

theorem setinregion_eq (ret calMin calMax : Int) :
    setinregion ret calMin calMax = within calMin calMax ret := by
  unfold setinregion
  rcases lt_or_ge calMin calMax with h | h
  · rw [if_pos h, within_of_le h.le]
    split_ifs with hlow hhigh
    · omega
    · omega
    · omega
  · rw [if_neg (not_lt.mpr h), within_of_ge h]
    split_ifs with hlow hhigh
    · omega
    · omega
    · omega

theorem cast_within (c d x : Int) : ((within c d x : Int) : ℚ) = within (c : ℚ) d x := by
  unfold within
  push_cast
  rfl

/-- The rounding changes a calibrated value by a half at most. -/
theorem abs_lcalibrate_sub {raw rawMin rawMax calMin calMax : Int} (h : rawMax ≠ rawMin) :
    |(lcalibrate raw rawMin rawMax calMin calMax true : ℚ) -
      calibrate rawMin rawMax calMin calMax raw| ≤ 1 / 2 := by
  have hline : scale (rawMin : ℚ) rawMax calMin calMax raw =
      ((raw - rawMin : Int) : ℚ) * ((calMax - calMin : Int) : ℚ) / ((rawMax - rawMin : Int) : ℚ) +
        calMin := by
    unfold scale
    push_cast
    rfl
  unfold lcalibrate calibrate
  rw [if_neg h, if_neg (by decide), setinregion_eq, cast_within, ← hline]
  exact (abs_within_sub _ _ _ _).trans (abs_lround_sub _)

section Calibrate

variable {a b c d x y : ℚ}

theorem calibrate_comm (h : a ≠ b) : calibrate a b c d x = calibrate b a d c x := by
  unfold calibrate within
  rw [scale_comm h, min_comm c d, max_comm c d]

theorem calibrate_left : calibrate a b c d a = c := by
  rw [calibrate, scale_left]
  exact within_eq_self (min_le_left _ _) (le_max_left _ _)

theorem calibrate_right (h : a ≠ b) : calibrate a b c d b = d := by
  rw [calibrate, scale_right h]
  exact within_eq_self (min_le_right _ _) (le_max_right _ _)

theorem calibrate_mono (hab : a < b) (hcd : c < d) : Monotone (calibrate a b c d) :=
  within_mono.comp (scale_strictMono hab hcd).monotone

theorem calibrate_anti (hab : a < b) (hcd : d < c) : Antitone (calibrate a b c d) :=
  within_mono.comp_antitone (scale_strictAnti hab hcd).antitone

/-- Between the ends nothing is cut. -/
theorem calibrate_eq_scale (hab : a < b) (hcd : c ≠ d) (ha : a ≤ x) (hb : x ≤ b) :
    calibrate a b c d x = scale a b c d x := by
  have hleft : scale a b c d a = c := scale_left
  have hright : scale a b c d b = d := scale_right hab.ne
  rcases lt_or_gt_of_ne hcd with h | h
  · have hmono := (scale_strictMono hab h).monotone
    refine within_eq_self ((min_le_left _ _).trans ?_) (le_trans ?_ (le_max_right _ _))
    · exact hleft.symm.trans_le (hmono ha)
    · exact (hmono hb).trans_eq hright
  · have hanti := (scale_strictAnti hab h).antitone
    refine within_eq_self ((min_le_right _ _).trans ?_) (le_trans ?_ (le_max_left _ _))
    · exact hright.symm.trans_le (hanti hb)
    · exact (hanti ha).trans_eq hleft

/-- The line back takes a value between the ends back. -/
theorem calibrate_calibrate (hab : a < b) (hcd : c ≠ d) (ha : a ≤ x) (hb : x ≤ b) :
    calibrate c d a b (calibrate a b c d x) = x := by
  rw [calibrate_eq_scale hab hcd ha hb, calibrate, scale_scale hab.ne hcd]
  refine within_eq_self ?_ ?_
  · rwa [min_eq_left hab.le]
  · rwa [max_eq_right hab.le]

theorem abs_calibrate_sub : |calibrate a b c d x - calibrate a b c d y| ≤
    |x - y| * |(d - c) / (b - a)| := by
  refine (abs_within_sub _ _ _ _).trans_eq ?_
  rw [scale_sub_scale, abs_mul]

theorem le_calibrate (h : c ≤ d) : c ≤ calibrate a b c d x :=
  (min_eq_left h).symm.trans_le min_le_within

theorem calibrate_le (h : c ≤ d) : calibrate a b c d x ≤ d :=
  within_le_max.trans_eq (max_eq_right h)

/-- A line that takes its ends back when it is taken twice. -/
theorem ends_of_calibrate_twice (hab : a < b) (hcd : c ≠ d) (hc : calibrate a b c d c = a)
    (hd : calibrate a b c d d = b) : c = a ∧ d = b ∨ c = b ∧ d = a := by
  have hleft : calibrate a b c d a = c := calibrate_left
  have hright : calibrate a b c d b = d := calibrate_right hab.ne
  rcases lt_or_gt_of_ne hcd with h | h
  · left
    refine ends_eq_of_monotone (calibrate_mono hab h) (fun x => ?_) (fun x => ?_) hleft hright hc hd
    · exact le_calibrate h.le
    · exact calibrate_le h.le
  · right
    refine ends_eq_of_antitone (calibrate_anti hab h) (fun x => ?_) (fun x => ?_) hleft hright hc hd
    · exact (min_eq_right h.le).symm.trans_le min_le_within
    · exact within_le_max.trans_eq (max_eq_left h.le)

/-- Past the points it is drawn by a line leaves the ends of its range. -/
theorem lt_calibrate (hab : a < b) (hcd : c < d) (hx : a < x) : c < calibrate a b c d x := by
  have hstrict := scale_strictMono hab hcd hx
  rw [scale_left] at hstrict
  rw [calibrate, within_of_le hcd.le]
  exact lt_max_of_lt_right (lt_min hstrict hcd)

theorem calibrate_lt (hab : a < b) (hcd : c < d) (hx : x < b) : calibrate a b c d x < d := by
  have hstrict := scale_strictMono hab hcd hx
  rw [scale_right hab.ne] at hstrict
  rw [calibrate, within_of_le hcd.le]
  exact max_lt hcd (min_lt_of_left_lt hstrict)

theorem calibrate_lt_of_gt (hba : b < a) (hcd : c < d) (hx : b < x) : calibrate a b c d x < d := by
  have hstrict := scale_strictAnti hba hcd hx
  rw [scale_left, ← scale_comm hba.ne'] at hstrict
  rw [calibrate, within_of_le hcd.le]
  exact max_lt hcd (min_lt_of_left_lt hstrict)

theorem lt_calibrate_of_gt (hba : b < a) (hcd : c < d) (hx : x < a) : c < calibrate a b c d x := by
  have hstrict := scale_strictAnti hba hcd hx
  rw [scale_right hba.ne, ← scale_comm hba.ne'] at hstrict
  rw [calibrate, within_of_le hcd.le]
  exact lt_max_of_lt_right (lt_min hstrict hcd)

/-- A line into a range that is its own inverse there is drawn by the ends of the range. -/
theorem ends_of_calibrate_involutive (hab : a ≠ b) (hcd : c < d)
    (h : ∀ x, x = a ∨ x = b ∨ x = c ∨ x = d → c ≤ x → x ≤ d →
      calibrate a b c d (calibrate a b c d x) = x) : a = c ∧ b = d ∨ a = d ∧ b = c := by
  have hleft : calibrate a b c d a = c := calibrate_left
  have hright : calibrate a b c d b = d := calibrate_right hab
  have hlow : ∀ x, c ≤ calibrate a b c d x := fun x => le_calibrate hcd.le
  have hhigh : ∀ x, calibrate a b c d x ≤ d := fun x => calibrate_le hcd.le
  have hc := h c (.inr (.inr (.inl rfl))) le_rfl hcd.le
  have hd := h d (.inr (.inr (.inr rfl))) hcd.le le_rfl
  rcases lt_or_gt_of_ne hab with hlt | hlt
  · left
    obtain ⟨hcc, hdd⟩ := ends_fixed_of_monotone (calibrate_mono hlt hcd) hlow hhigh hc hd
    have hca : c ≤ a := le_of_not_gt fun hac => (lt_calibrate hlt hcd hac).ne' hcc
    have hbd : b ≤ d := le_of_not_gt fun hdb => (calibrate_lt hlt hcd hdb).ne hdd
    have ha := h a (.inl rfl) hca (hlt.le.trans hbd)
    have hb := h b (.inr (.inl rfl)) (hca.trans hlt.le) hbd
    rw [hleft, hcc] at ha
    rw [hright, hdd] at hb
    exact ⟨ha.symm, hb.symm⟩
  · right
    have hanti : Antitone (calibrate a b c d) := by
      have hcomm : calibrate a b c d = calibrate b a d c := funext fun x => calibrate_comm hab
      rw [hcomm]
      exact calibrate_anti hlt hcd
    obtain ⟨hcd', hdc⟩ := ends_exchanged_of_antitone hanti hlow hhigh hc hd
    have hcb : c ≤ b := le_of_not_gt fun hbc => (calibrate_lt_of_gt hlt hcd hbc).ne hcd'
    have had : a ≤ d := le_of_not_gt fun hda => (lt_calibrate_of_gt hlt hcd hda).ne' hdc
    have ha := h a (.inl rfl) (hcb.trans hlt.le) had
    have hb := h b (.inr (.inl rfl)) hcb (hlt.le.trans had)
    rw [hleft, hcd'] at ha
    rw [hright, hdc] at hb
    exact ⟨ha.symm, hb.symm⟩

/-- A line into a range that is the identity there. -/
theorem ends_of_calibrate_id (hab : a ≠ b) (hcd : c < d)
    (h : ∀ x, x = a ∨ x = b ∨ x = c ∨ x = d → c ≤ x → x ≤ d → calibrate a b c d x = x) :
    a = c ∧ b = d := by
  have htwice := ends_of_calibrate_involutive hab hcd fun x hx hcx hxd => by
    rw [h x hx hcx hxd, h x hx hcx hxd]
  rcases htwice with hends | ⟨rfl, rfl⟩
  · exact hends
  · have hleft := h a (.inl rfl) hcd.le le_rfl
    rw [calibrate_left] at hleft
    exact absurd hleft hab.symm

theorem calibrate_same (hab : a < b) (ha : a ≤ x) (hb : x ≤ b) : calibrate a b a b x = x := by
  rw [calibrate_eq_scale hab hab.ne ha hb, scale_self hab.ne]

theorem calibrate_reverse (hab : a < b) (ha : a ≤ x) (hb : x ≤ b) :
    calibrate a b b a x = a + b - x := by
  rw [calibrate_eq_scale hab hab.ne' ha hb, scale_reverse hab.ne]

/-- The reversed range is its own inverse. -/
theorem calibrate_reverse_twice (hab : a < b) (ha : a ≤ x) (hb : x ≤ b) :
    calibrate a b b a (calibrate a b b a x) = x := by
  rw [calibrate_reverse hab ha hb, calibrate_reverse hab (by linarith) (by linarith)]
  ring

end Calibrate

namespace CalibrateInfo

variable {ci : CalibrateInfo}

/-- Where an input gives the raw value back. -/
theorem inverts_AI_iff (hraw : ci.minRaw < ci.maxRaw) (hcal : ci.minCal ≠ ci.maxCal) :
    ci.Inverts .AI .rawToCal ↔ ci.SameRange ∨ ci.maxCal ≠ 0 ∧ ci.ReversedRange := by
  have hraw' : (ci.minRaw : ℚ) < ci.maxRaw := by exact_mod_cast hraw
  have hcal' : (ci.minCal : ℚ) ≠ ci.maxCal := by exact_mod_cast hcal
  have hexact : ∀ v, ci.exactRawOf .AI v =
      if ci.maxCal ≠ 0 then calibrate ci.minRaw ci.maxRaw ci.minCal ci.maxCal v else v := by
    intro v
    unfold exactRawOf exactVisible
    simp only [if_true, hcal.symm, ne_eq, not_false_eq_true, and_true]
  unfold Inverts
  simp only [hexact, exactVisible]
  constructor
  · intro h
    have hleft := h ci.minRaw le_rfl hraw.le
    have hright := h ci.maxRaw hraw.le le_rfl
    rw [calibrate_left] at hleft
    rw [calibrate_right hraw'.ne] at hright
    by_cases hzero : ci.maxCal ≠ 0
    · rw [if_pos hzero] at hleft hright
      rcases ends_of_calibrate_twice hraw' hcal' hleft hright with ⟨hmin, hmax⟩ | ⟨hmin, hmax⟩
      · exact .inl ⟨by exact_mod_cast hmin, by exact_mod_cast hmax⟩
      · exact .inr ⟨hzero, by exact_mod_cast hmin, by exact_mod_cast hmax⟩
    · rw [if_neg hzero] at hleft hright
      exact .inl ⟨by exact_mod_cast hleft, by exact_mod_cast hright⟩
  · rintro (⟨hmin, hmax⟩ | ⟨hzero, hmin, hmax⟩) r hlow hhigh
    · have hlow' : (ci.minRaw : ℚ) ≤ r := by exact_mod_cast hlow
      have hhigh' : (r : ℚ) ≤ ci.maxRaw := by exact_mod_cast hhigh
      simp only [hmin, hmax, calibrate_same hraw' hlow' hhigh', ite_self]
    · have hlow' : (ci.minRaw : ℚ) ≤ r := by exact_mod_cast hlow
      have hhigh' : (r : ℚ) ≤ ci.maxRaw := by exact_mod_cast hhigh
      rw [if_pos hzero, hmin, hmax, calibrate_reverse_twice hraw' hlow' hhigh']

theorem exactRawOf_AO (hcal : ci.minCal ≠ ci.maxCal) (v : ℚ) : ci.exactRawOf .AO v =
    if ci.maxCal ≠ 0 then ci.exactVisible v .calToRaw else v := by
  unfold exactRawOf
  simp only [reduceCtorEq, if_false, if_true, hcal.symm, ne_eq, not_false_eq_true, and_true]

/-- Where an output whose visible value comes from the reversed map gives the raw value back. -/
theorem inverts_AO_iff (hraw : ci.minRaw < ci.maxRaw) (hcal : ci.minCal ≠ ci.maxCal) :
    ci.Inverts .AO .calToRaw ↔ ci.SameRange ∨ ci.maxCal ≠ 0 ∧ ci.ReversedRange := by
  have hraw' : (ci.minRaw : ℚ) < ci.maxRaw := by exact_mod_cast hraw
  have hcal' : (ci.minCal : ℚ) ≠ ci.maxCal := by exact_mod_cast hcal
  unfold Inverts
  simp only [exactRawOf_AO hcal, exactVisible]
  constructor
  · intro h
    have hat : ∀ x : ℚ, x = ci.minCal ∨ x = ci.maxCal ∨ x = ci.minRaw ∨ x = ci.maxRaw →
        ∃ r : Int, x = r := by
      rintro x (rfl | rfl | rfl | rfl)
      · exact ⟨_, rfl⟩
      · exact ⟨_, rfl⟩
      · exact ⟨_, rfl⟩
      · exact ⟨_, rfl⟩
    by_cases hzero : ci.maxCal ≠ 0
    · simp only [if_pos hzero] at h
      have hends := ends_of_calibrate_involutive hcal' hraw' fun x hx hlow hhigh => by
        obtain ⟨r, rfl⟩ := hat x hx
        exact h r (by exact_mod_cast hlow) (by exact_mod_cast hhigh)
      rcases hends with ⟨hmin, hmax⟩ | ⟨hmin, hmax⟩
      · exact .inl ⟨by exact_mod_cast hmin, by exact_mod_cast hmax⟩
      · exact .inr ⟨hzero, by exact_mod_cast hmin, by exact_mod_cast hmax⟩
    · simp only [if_neg hzero] at h
      obtain ⟨hmin, hmax⟩ := ends_of_calibrate_id hcal' hraw' fun x hx hlow hhigh => by
        obtain ⟨r, rfl⟩ := hat x hx
        exact h r (by exact_mod_cast hlow) (by exact_mod_cast hhigh)
      exact .inl ⟨by exact_mod_cast hmin, by exact_mod_cast hmax⟩
  · rintro (⟨hmin, hmax⟩ | ⟨hzero, hmin, hmax⟩) r hlow hhigh
    · have hlow' : (ci.minRaw : ℚ) ≤ r := by exact_mod_cast hlow
      have hhigh' : (r : ℚ) ≤ ci.maxRaw := by exact_mod_cast hhigh
      simp only [hmin, hmax, calibrate_same hraw' hlow' hhigh', ite_self]
    · have hlow' : (ci.minRaw : ℚ) ≤ r := by exact_mod_cast hlow
      have hhigh' : (r : ℚ) ≤ ci.maxRaw := by exact_mod_cast hhigh
      rw [if_pos hzero, hmin, hmax, calibrate_comm hraw'.ne', calibrate_comm hraw'.ne',
        calibrate_reverse_twice hraw' hlow' hhigh']

/-- Where an output whose visible value is calibrated as that of an input gives the raw value back. -/
theorem inverts_AO_rawToCal_iff (hraw : ci.minRaw < ci.maxRaw) (hcal : ci.minCal ≠ ci.maxCal) :
    ci.Inverts .AO .rawToCal ↔ ci.maxCal ≠ 0 ∨ ci.SameRange := by
  have hraw' : (ci.minRaw : ℚ) < ci.maxRaw := by exact_mod_cast hraw
  have hcal' : (ci.minCal : ℚ) ≠ ci.maxCal := by exact_mod_cast hcal
  unfold Inverts
  simp only [exactRawOf_AO hcal, exactVisible]
  by_cases hzero : ci.maxCal ≠ 0
  · refine iff_of_true (fun r hlow hhigh => ?_) (.inl hzero)
    rw [if_pos hzero]
    exact calibrate_calibrate hraw' hcal' (by exact_mod_cast hlow) (by exact_mod_cast hhigh)
  · simp only [hzero, if_false, false_or]
    constructor
    · intro h
      have hleft := h ci.minRaw le_rfl hraw.le
      have hright := h ci.maxRaw hraw.le le_rfl
      rw [calibrate_left] at hleft
      rw [calibrate_right hraw'.ne] at hright
      exact ⟨by exact_mod_cast hleft, by exact_mod_cast hright⟩
    · rintro ⟨hmin, hmax⟩ r hlow hhigh
      rw [hmin, hmax]
      exact calibrate_same hraw' (by exact_mod_cast hlow) (by exact_mod_cast hhigh)

/-! ## With the rounding -/

theorem abs_visible_sub (hraw : ci.minRaw < ci.maxRaw) (hcal : ci.minCal ≠ ci.maxCal) (r : Int)
    (dir : Visible) : |(ci.visible r dir : ℚ) - ci.exactVisible r dir| ≤ 1 / 2 := by
  cases dir with
  | rawToCal => exact abs_lcalibrate_sub hraw.ne'
  | calToRaw => exact abs_lcalibrate_sub hcal.symm

/-- A value that is calibrated back is as far from the raw value as its rounding takes it, and its
own rounding in addition. -/
theorem Inverts.recovers {type : IOType} {dir : Visible} {back : Visible}
    (hraw : ci.minRaw < ci.maxRaw) (hcal : ci.minCal ≠ ci.maxCal)
    (hexact : ∀ v, ci.exactRawOf type v = if ci.maxCal ≠ 0 then ci.exactVisible v back else v)
    (hround : ∀ v, rawOf type v ci = if ci.maxCal ≠ 0 then ci.visible v back else v)
    (hback : ci.maxCal ≠ 0 → ∀ x y, |ci.exactVisible x back - ci.exactVisible y back| ≤
      |x - y| * |((ci.maxRaw : ℚ) - ci.minRaw) / (ci.maxCal - ci.minCal)|)
    (h : ci.Inverts type dir) : ci.Recovers type dir := by
  intro ic usi consumer_id r htype hread hlow hhigh hvalue
  refine ⟨rawOf usi.type usi.value ci, ?_, ?_⟩
  · unfold ControllerConf.getRawValue
    dsimp only
    rw [if_neg]
    rintro ⟨hid, hmask⟩
    rcases hread with rfl | hread
    · exact hid rfl
    · simp [hread] at hmask
  · rw [htype, hvalue, hround, ← h r hlow hhigh, hexact, tolerance]
    have hvisible := ci.abs_visible_sub hraw hcal r dir
    have hslope := abs_nonneg (((ci.maxRaw : ℚ) - ci.minRaw) / (ci.maxCal - ci.minCal))
    split_ifs with hzero
    · have hnear := ci.abs_visible_sub hraw hcal (ci.visible r dir) back
      have hline := hback hzero (ci.visible r dir) (ci.exactVisible r dir)
      have hscaled := mul_le_mul_of_nonneg_right hvisible hslope
      have htri := abs_sub_le (ci.visible (ci.visible r dir) back : ℚ)
        (ci.exactVisible (ci.visible r dir) back) (ci.exactVisible (ci.exactVisible r dir) back)
      linarith
    · linarith

/-- Where the raw value comes back, rounding apart. -/
def InvertsWhen (ci : CalibrateInfo) : IOType → Visible → Prop
  | .AO, .rawToCal => ci.maxCal ≠ 0 ∨ ci.SameRange
  | _, _ => ci.SameRange ∨ ci.maxCal ≠ 0 ∧ ci.ReversedRange

/-- Ranges of one length are taken to each other without a stretch. -/
theorem abs_slope_eq_one (hraw : ci.minRaw < ci.maxRaw) (h : ci.SameRange ∨ ci.ReversedRange) :
    |((ci.maxCal : ℚ) - ci.minCal) / (ci.maxRaw - ci.minRaw)| = 1 ∧
      |((ci.maxRaw : ℚ) - ci.minRaw) / (ci.maxCal - ci.minCal)| = 1 := by
  have hpos : (0 : ℚ) < ci.maxRaw - ci.minRaw := by
    rw [sub_pos]
    exact_mod_cast hraw
  rcases h with ⟨hmin, hmax⟩ | ⟨hmin, hmax⟩
  · rw [hmin, hmax, div_self hpos.ne', abs_one]
    exact ⟨rfl, rfl⟩
  · rw [hmin, hmax, ← neg_sub (ci.maxRaw : ℚ) ci.minRaw, neg_div, div_neg, div_self hpos.ne', abs_neg,
      abs_one]
    exact ⟨rfl, rfl⟩

/-- An input, and an output in either reading of its visible value. -/
theorem inverts_iff (hraw : ci.minRaw < ci.maxRaw) (hcal : ci.minCal ≠ ci.maxCal) {type : IOType}
    {dir : Visible} (htype : type = .AI ∧ dir = .rawToCal ∨ type = .AO) :
    (ci.Inverts type dir ↔ ci.InvertsWhen type dir) ∧
      (ci.Inverts type dir → ci.Recovers type dir) := by
  have hround : ∀ v, rawOf .AO v ci = if ci.maxCal ≠ 0 then ci.visible v .calToRaw else v := by
    intro v
    unfold rawOf visible
    simp only [reduceCtorEq, if_false, if_true, hcal.symm, ne_eq, not_false_eq_true, and_true]
  rcases htype with ⟨rfl, rfl⟩ | rfl
  · refine ⟨inverts_AI_iff hraw hcal, fun h => ?_⟩
    refine @Inverts.recovers ci .AI .rawToCal .rawToCal hraw hcal ?_ ?_ (fun _ x y => ?_) h
    · intro v
      unfold exactRawOf
      simp only [if_true, hcal.symm, ne_eq, not_false_eq_true, and_true]
    · intro v
      unfold rawOf visible
      simp only [if_true, hcal.symm, ne_eq, not_false_eq_true, and_true]
    · obtain ⟨hone, hone'⟩ := abs_slope_eq_one hraw
        (((inverts_AI_iff hraw hcal).mp h).imp_right And.right)
      rw [hone', ← hone]
      exact abs_calibrate_sub
  · cases dir with
    | rawToCal =>
      refine ⟨inverts_AO_rawToCal_iff hraw hcal, fun h => ?_⟩
      exact h.recovers hraw hcal (exactRawOf_AO hcal) hround fun _ _ _ => abs_calibrate_sub
    | calToRaw =>
      refine ⟨inverts_AO_iff hraw hcal, fun h => ?_⟩
      exact h.recovers hraw hcal (exactRawOf_AO hcal) hround fun _ _ _ => abs_calibrate_sub

theorem inverts_same : (CalibrateInfo.Inverts ⟨0, 100, 0, 100, 0⟩ .AI .rawToCal ↔
      CalibrateInfo.InvertsWhen ⟨0, 100, 0, 100, 0⟩ .AI .rawToCal) ∧
    (CalibrateInfo.Inverts ⟨0, 100, 0, 100, 0⟩ .AI .rawToCal →
      CalibrateInfo.Recovers ⟨0, 100, 0, 100, 0⟩ .AI .rawToCal) :=
  inverts_iff (by decide) (by decide) (.inl ⟨rfl, rfl⟩)

/-- An input that shows 5 for the raw value 50 is said to have the raw value 1. -/
theorem not_recovers_AI : ¬∀ ci : CalibrateInfo, ci.minRaw < ci.maxRaw → ci.minCal ≠ ci.maxCal →
    ci.Recovers .AI .rawToCal := by
  intro hall
  let ci : CalibrateInfo := ⟨0, 100, 0, 10, 0⟩
  let usi := { getSensorInfo ⟨2, .AI, 5, false, none, none, none, none⟩ with value := 5 }
  have hvisible : usi.value = ci.visible 50 .rawToCal := by
    decide +kernel
  obtain ⟨raw, hok, hnear⟩ := hall ci (by decide) (by decide) (.unrestricted 1) usi 1 50 rfl
    (.inl rfl) (by decide) (by decide) hvisible
  have hraw : raw = 1 := by
    have hone : rawOf .AI 5 ci = 1 := by decide +kernel
    exact (Except.ok.inj hok).symm.trans hone
  rw [hraw, tolerance] at hnear
  norm_num [ci] at hnear

end CalibrateInfo

end Uniset.Processes
