import Uniset.Extensions.CalibrationCache
import Mathlib.Data.List.Infix
import Mathlib.Data.List.Nodup

/-! The values of a calibration diagram: the line through its points. -/

namespace Uniset.Extensions

open Uniset.Lib

/-! ## What is expected -/

/-- A value of the line through the points: at a point, or between two neighbours. -/
inductive Interpolates (points : List Point) (x : ℚ) : ℚ → Prop
  | point {p : Point} (h : p ∈ points) (hx : p.x = x) : Interpolates points x p.y
  | segment {p q : Point} (h : [p, q] <:+: points) (hleft : min p.x q.x < x)
      (hright : x < max p.x q.x) : Interpolates points x (scale p.x q.x p.y q.y x)

/-- The value of the line, rounded; outside of it the value of its end, or `outOfRange`. -/
inductive Expected (points : List Point) (raw : Int) : Bool → Int → Prop
  | inside {crop : Bool} {y : ℚ} (h : Interpolates points raw y) : Expected points raw crop (lround y)
  | left {p : Point} (hp : p ∈ points) (hleft : ∀ q ∈ points, p.x ≤ q.x) (hout : (raw : ℚ) < p.x) :
      Expected points raw true (lround p.y)
  | right {p : Point} (hp : p ∈ points) (hright : ∀ q ∈ points, q.x ≤ p.x) (hout : p.x < raw) :
      Expected points raw true (lround p.y)
  | out (hout : (∀ q ∈ points, (raw : ℚ) < q.x) ∨ ∀ q ∈ points, q.x < raw) :
      Expected points raw false outOfRange

namespace Calibration

variable (d : Calibration)

/-- A call comes to an end with what is expected. -/
def Right (s : ValueCache) (raw : Int) (crop : Bool) : Prop :=
  ∃ val, d.Returns s raw crop val ∧ Expected d.points raw crop val

/-- The points are in the order of their `x`. -/
def Monotone : Prop :=
  d.points.Pairwise (fun p q => p.x < q.x) ∨ d.points.Pairwise fun p q => q.x < p.x

/-- No segment hides another that has the raw value: the first segment begins with the leftmost
point, and the segments that end next to the value on the right have it. -/
structure Steady (raw : Int) : Prop where
  first : ∀ part, d.pvec.head? = some part → ∀ q ∈ d.points, part.left_x ≤ q.x
  next : (∃ q ∈ d.points, q.x ≤ raw) → ∀ part ∈ d.pvec, (raw : ℚ) ≤ part.right_x →
    (∀ other ∈ d.pvec, (raw : ℚ) ≤ other.right_x → part.right_x ≤ other.right_x) →
    part.left_x ≤ raw

/-- A raw value beyond an end is beyond its integer part, which has the value of the end. -/
structure SuitsEnds (raw : Int) (crop : Bool) : Prop where
  left : ∀ p ∈ d.points, (∀ q ∈ d.points, p.x ≤ q.x) → (raw : ℚ) < p.x →
    raw < truncate p.x ∧ (crop = true → truncate p.y = lround p.y)
  right : ∀ p ∈ d.points, (∀ q ∈ d.points, q.x ≤ p.x) → p.x < raw →
    truncate p.x < raw ∧ (crop = true → truncate p.y = lround p.y)

/-- A single point has no segment: its values are 0. -/
structure SuitsPoint (p : Point) (raw : Int) (crop : Bool) : Prop where
  other : raw ≠ 0
  outside : (raw : ℚ) = p.x → crop = true
  zero : crop = true → lround p.y = 0

def Suits (raw : Int) (crop : Bool) : Prop :=
  match d.points with
  | [p] => SuitsPoint p raw crop
  | _ => d.SuitsEnds raw crop

end Calibration

/-! ## Segments -/

namespace Part

theorem slope_eq {p q : Point} (h : p.x ≠ q.x) : slope p q = (q.y - p.y) / (q.x - p.x) := by
  unfold slope
  split_ifs with hzero
  · rcases hzero with ⟨hq, hp⟩ | ⟨hq, hp⟩
    · rw [hq, hp, sub_self, zero_div]
    · exact absurd (hp.trans hq.symm) h
  · rfl

theorem new_of_lt {p q : Point} (h : q.x < p.x) : new p q = ⟨q, p, slope q p⟩ := if_pos h

theorem left_le_right (p q : Point) : (new p q).left_x ≤ (new p q).right_x := by
  rcases le_or_gt p.x q.x with hle | hlt
  · rw [new_of_le hle]
    exact hle
  · rw [new_of_lt hlt]
    exact hlt.le

theorem right_new (p q : Point) : (new p q).right_x = max p.x q.x := by
  rcases le_or_gt p.x q.x with hle | hlt
  · rw [new_of_le hle, max_eq_right hle]
    rfl
  · rw [new_of_lt hlt, max_eq_left hlt.le]
    rfl

theorem left_new (p q : Point) : (new p q).left_x = min p.x q.x := by
  rcases le_or_gt p.x q.x with hle | hlt
  · rw [new_of_le hle, min_eq_left hle]
    rfl
  · rw [new_of_lt hlt, min_eq_right hlt.le]
    rfl

theorem checkX_iff (p : Part) (x : ℚ) : p.checkX x ↔ p.left_x ≤ x ∧ x ≤ p.right_x := by
  rw [checkX, not_or, not_lt, not_lt]

theorem calcY_eq {p q : Point} (h : p.x ≠ q.x) (x : ℚ) :
    (Part.mk p q (slope p q)).calcY x = scale p.x q.x p.y q.y x := by
  unfold calcY scale left_x left_y
  rw [slope_eq h]
  ring

end Part

theorem new_mem_parts {points : List Point} {p q : Point} (h : [p, q] <:+: points) :
    Part.new p q ∈ parts points := by
  obtain ⟨before, after, rfl⟩ := h
  induction before with
  | nil => exact List.mem_cons_self
  | cons a before ih =>
    cases before with
    | nil => exact List.mem_cons_of_mem _ ih
    | cons b before => exact List.mem_cons_of_mem _ ih

/-- Each of two points or more is an end of a segment. -/
theorem exists_part_of_mem {points : List Point} (hlength : points.length ≠ 1) {p : Point}
    (hp : p ∈ points) : ∃ part ∈ parts points, part.left_x ≤ p.x ∧ p.x ≤ part.right_x := by
  obtain ⟨before, after, rfl⟩ := List.append_of_mem hp
  cases after with
  | cons q after =>
    refine ⟨.new p q, new_mem_parts ⟨before, after, by simp⟩, ?_⟩
    rw [Part.left_new, Part.right_new]
    exact ⟨min_le_left _ _, le_max_left _ _⟩
  | nil =>
    rcases List.eq_nil_or_concat before with rfl | ⟨before, q, rfl⟩
    · exact absurd rfl hlength
    · refine ⟨.new q p, new_mem_parts ⟨before, [], by simp⟩, ?_⟩
      rw [Part.left_new, Part.right_new]
      exact ⟨min_le_right _ _, le_max_right _ _⟩

namespace Calibration

variable {d : Calibration} {raw : Int}

theorem mem_pvec_iff (d : Calibration) {part : Part} : part ∈ d.pvec ↔ part ∈ parts d.points :=
  d.perm.mem_iff

theorem left_mem {part : Part} (h : part ∈ d.pvec) : part.p_left ∈ d.points := by
  obtain ⟨p, q, hpq, rfl⟩ := mem_pvec h
  have hp : p ∈ d.points := hpq.subset List.mem_cons_self
  have hq : q ∈ d.points := hpq.subset (List.mem_cons_of_mem _ List.mem_cons_self)
  rcases Part.new_mem p q with hnew | hnew
  · exact hnew.1.symm ▸ hp
  · exact hnew.1.symm ▸ hq

theorem left_le_right {part : Part} (h : part ∈ d.pvec) : part.left_x ≤ part.right_x := by
  obtain ⟨p, q, -, rfl⟩ := mem_pvec h
  exact Part.left_le_right p q

/-- A segment in order has the value of the line. -/
theorem getY_interpolates {points : List Point} {p q : Point} (hpoints : p ∈ points ∧ q ∈ points)
    (hpq : [p, q] <:+: points ∨ [q, p] <:+: points) (hle : p.x ≤ q.x) {x : ℚ}
    (hcheck : (Part.mk p q (Part.slope p q)).checkX x) :
    ∃ y, Interpolates points x y ∧ (Part.mk p q (Part.slope p q)).getY x = some y := by
  obtain ⟨hleft, hright⟩ := (Part.checkX_iff _ _).mp hcheck
  unfold Part.getY
  rw [if_neg (not_not.mpr hcheck)]
  by_cases hp : x = p.x
  · exact ⟨p.y, .point hpoints.1 hp.symm, if_pos hp⟩
  by_cases hq : x = q.x
  · exact ⟨q.y, .point hpoints.2 hq.symm, (if_neg hp).trans (if_pos hq)⟩
  have hlt : p.x < x := lt_of_le_of_ne hleft (Ne.symm hp)
  have hgt : x < q.x := lt_of_le_of_ne hright hq
  have hne : p.x ≠ q.x := (hlt.trans hgt).ne
  refine ⟨scale p.x q.x p.y q.y x, ?_, (if_neg hp).trans ((if_neg hq).trans ?_)⟩
  · rcases hpq with hpq | hpq
    · exact .segment hpq (by rwa [min_eq_left hle]) (by rwa [max_eq_right hle])
    · rw [scale_comm hne]
      exact .segment hpq (by rwa [min_eq_right hle]) (by rwa [max_eq_left hle])
  · rw [Part.calcY_eq hne]

/-- What is found for a raw value is a value of the line. -/
theorem valueOf_interpolates {part : Part} (hpart : part ∈ d.pvec) (hcheck : part.checkX raw) :
    ∃ y, Interpolates d.points raw y ∧ valueOf part raw = lround y := by
  obtain ⟨p, q, hpq, rfl⟩ := mem_pvec hpart
  have hp : p ∈ d.points := hpq.subset List.mem_cons_self
  have hq : q ∈ d.points := hpq.subset (List.mem_cons_of_mem _ List.mem_cons_self)
  have hvalue : ∃ y, Interpolates d.points raw y ∧ (Part.new p q).getY raw = some y := by
    rcases le_or_gt p.x q.x with hle | hlt
    · rw [Part.new_of_le hle] at hcheck ⊢
      exact getY_interpolates ⟨hp, hq⟩ (.inl hpq) hle hcheck
    · rw [Part.new_of_lt hlt] at hcheck ⊢
      exact getY_interpolates ⟨hq, hp⟩ (.inr hpq) hlt.le hcheck
  obtain ⟨y, hy, hget⟩ := hvalue
  refine ⟨y, hy, ?_⟩
  rw [valueOf, hget]

/-! ## The search -/

/-- What is found is a segment with the raw value. -/
theorem find_range_mem {pvec : List Part} {x : ℚ} {fuel beg last : Nat} {fit : Part}
    (h : find_range pvec x fuel beg last = some fit) : fit ∈ pvec ∧ fit.checkX x := by
  induction fuel generalizing beg last with
  | zero => cases h
  | succ fuel ih =>
    unfold find_range at h
    simp only [Option.bind_eq_bind, Option.bind_eq_some_iff] at h
    obtain ⟨b, hb, h⟩ := h
    by_cases hbeg : b.checkX x
    · rw [if_pos hbeg] at h
      cases h
      exact ⟨List.mem_of_getElem? hb, hbeg⟩
    rw [if_neg hbeg, Option.bind_eq_some_iff] at h
    obtain ⟨e, he, h⟩ := h
    by_cases hend : e.checkX x
    · rw [if_pos hend] at h
      cases h
      exact ⟨List.mem_of_getElem? he, hend⟩
    rw [if_neg hend, Option.bind_eq_some_iff] at h
    obtain ⟨it, hit, h⟩ := h
    split_ifs at h with hleft hright
    · exact ih h
    · exact ih h
    · cases h
      exact ⟨List.mem_of_getElem? hit, not_or.mpr ⟨hleft, hright⟩⟩

/-- The search comes to an end if the first segment that does not end before the value has it. -/
theorem find_range_finds {pvec : List Part} {x : ℚ} {t : Nat} (ht : t < pvec.length)
    (hsorted : pvec.Pairwise fun p q => p.right_x ≤ q.right_x)
    (hle : ∀ part ∈ pvec, part.left_x ≤ part.right_x) (hcheck : pvec[t].checkX x)
    (hbefore : ∀ i (hi : i < t), (pvec[i]).right_x < x) {fuel beg last : Nat} (hbeg : beg ≤ t)
    (hlast : t ≤ last) (hlength : last < pvec.length) (hfuel : last - beg < fuel) :
    ∃ fit, find_range pvec x fuel beg last = some fit := by
  induction fuel generalizing beg last with
  | zero => exact absurd hfuel (Nat.not_lt_zero _)
  | succ fuel ih =>
    have hb : beg < pvec.length := by omega
    have hm : beg + (last - beg) / 2 < pvec.length := by omega
    unfold find_range
    rw [List.getElem?_eq_getElem hb, List.getElem?_eq_getElem hlength, List.getElem?_eq_getElem hm]
    simp only [Option.bind_eq_bind, Option.bind_some]
    by_cases hfirst : pvec[beg].checkX x
    · exact ⟨_, if_pos hfirst⟩
    rw [if_neg hfirst]
    by_cases hend : pvec[last].checkX x
    · exact ⟨_, if_pos hend⟩
    rw [if_neg hend]
    have hnbeg : beg ≠ t := fun heq => hfirst (by subst heq; exact hcheck)
    have hnlast : last ≠ t := fun heq => hend (by subst heq; exact hcheck)
    have hright : x ≤ pvec[t].right_x := ((Part.checkX_iff _ _).mp hcheck).2
    have hleft : pvec[t].left_x ≤ x := ((Part.checkX_iff _ _).mp hcheck).1
    by_cases hlow : x < pvec[beg + (last - beg) / 2].left_x
    · rw [if_pos hlow]
      refine ih hbeg ?_ hm (by omega)
      by_contra hlater
      have hend' := hbefore _ (Nat.not_le.mp hlater)
      exact absurd (hle _ (List.getElem_mem hm)) (not_le.mpr (hend'.trans hlow))
    rw [if_neg hlow]
    by_cases hhigh : pvec[beg + (last - beg) / 2].right_x < x
    · rw [if_pos hhigh]
      have hmid : beg + (last - beg) / 2 < t := by
        by_contra hnot
        rcases Nat.eq_or_lt_of_le (Nat.not_lt.mp hnot) with heq | hlt
        · simp only [← heq] at hhigh
          exact absurd hright (not_le.mpr hhigh)
        · have hsort := List.pairwise_iff_getElem.mp hsorted _ _ ht hm hlt
          exact absurd (hright.trans hsort) (not_le.mpr hhigh)
      exact ih (Nat.le_of_lt hmid) hlast hlength (by omega)
    · exact ⟨_, if_neg hhigh⟩

/-- The first segment that does not end before a value. -/
theorem exists_first {pvec : List Part} {x : ℚ} (h : ∃ part ∈ pvec, x ≤ part.right_x) :
    ∃ t, ∃ ht : t < pvec.length, x ≤ pvec[t].right_x ∧ ∀ i (hi : i < t), (pvec[i]).right_x < x := by
  classical
  have hex : ∃ t, ∃ ht : t < pvec.length, x ≤ pvec[t].right_x := by
    obtain ⟨part, hpart, hx⟩ := h
    obtain ⟨t, ht, rfl⟩ := List.mem_iff_getElem.mp hpart
    exact ⟨t, ht, hx⟩
  obtain ⟨ht, hx⟩ := Nat.find_spec hex
  refine ⟨Nat.find hex, ht, hx, fun i hi => ?_⟩
  by_contra hnot
  exact Nat.find_min hex hi ⟨hi.trans ht, not_lt.mp hnot⟩

/-- It ends next to the value. -/
theorem first_le {pvec : List Part} {x : ℚ} {t : Nat} (ht : t < pvec.length)
    (hsorted : pvec.Pairwise fun p q => p.right_x ≤ q.right_x)
    (hbefore : ∀ i (hi : i < t), (pvec[i]).right_x < x) {other : Part} (hother : other ∈ pvec)
    (hx : x ≤ other.right_x) : pvec[t].right_x ≤ other.right_x := by
  obtain ⟨j, hj, rfl⟩ := List.mem_iff_getElem.mp hother
  rcases Nat.lt_trichotomy j t with hlt | rfl | hgt
  · exact absurd hx (not_le.mpr (hbefore j hlt))
  · exact le_rfl
  · exact List.pairwise_iff_getElem.mp hsorted _ _ ht hj hgt

/-- In a steady diagram a value is found at every raw value between its ends. -/
theorem Steady.finds (h : d.Steady raw) (hleft : ∃ q ∈ d.points, q.x ≤ raw)
    (hright : ∃ part ∈ d.pvec, (raw : ℚ) ≤ part.right_x) :
    ∃ y, Interpolates d.points raw y ∧ d.Finds raw (lround y) := by
  obtain ⟨t, ht, hx, hbefore⟩ := exists_first hright
  have hmem := List.getElem_mem ht
  have hstart := h.next hleft _ hmem hx fun other hother hle =>
    first_le ht d.sorted hbefore hother hle
  obtain ⟨fit, hfit⟩ := find_range_finds ht d.sorted (fun part hpart => left_le_right hpart)
    ((Part.checkX_iff _ _).mpr ⟨hstart, hx⟩) hbefore (Nat.zero_le t) (Nat.le_sub_one_of_lt ht)
    (Nat.sub_one_lt_of_lt ht) (Nat.lt_succ_self _)
  obtain ⟨hpart, hcheck⟩ := find_range_mem hfit
  obtain ⟨y, hy, hvalue⟩ := valueOf_interpolates hpart hcheck
  exact ⟨y, hy, _, fit, hfit, hvalue.symm⟩

/-! ## The ends -/

/-- The segment at the left end, and the one at the right end. -/
theorem exists_ends (hlength : d.points.length ≠ 1) : ∃ first last, d.pvec.head? = some first ∧
    d.pvec.getLast? = some last ∧ (∀ part ∈ d.pvec, first.right_x ≤ part.right_x) ∧
      ∀ q ∈ d.points, q.x ≤ last.right_x := by
  obtain ⟨p, hp⟩ := List.exists_mem_of_ne_nil _ d.accepted
  obtain ⟨part, hpart, -⟩ := exists_part_of_mem hlength hp
  have hne : d.pvec ≠ [] := List.ne_nil_of_mem ((mem_pvec_iff d).mpr hpart)
  refine ⟨d.pvec.head hne, d.pvec.getLast hne, List.head?_eq_some_head hne,
    List.getLast?_eq_some_getLast hne, fun part hpart => ?_, fun q hq => ?_⟩
  · obtain ⟨i, hi, rfl⟩ := List.mem_iff_getElem.mp hpart
    rw [List.head_eq_getElem]
    rcases Nat.eq_zero_or_pos i with rfl | hpos
    · exact le_rfl
    · exact List.pairwise_iff_getElem.mp d.sorted _ _ _ hi hpos
  · obtain ⟨part, hpart, -, hle⟩ := exists_part_of_mem hlength hq
    refine hle.trans ?_
    obtain ⟨i, hi, rfl⟩ := List.mem_iff_getElem.mp ((mem_pvec_iff d).mpr hpart)
    rw [List.getLast_eq_getElem]
    rcases Nat.eq_or_lt_of_le (Nat.le_sub_one_of_lt hi) with heq | hlt
    · simp only [heq]
      exact le_rfl
    · exact List.pairwise_iff_getElem.mp d.sorted _ _ hi _ hlt

theorem leftRaw_eq {part : Part} (h : d.pvec.head? = some part) : d.leftRaw = truncate part.left_x := by
  rw [leftRaw, h]
  rfl

theorem leftVal_eq {part : Part} (h : d.pvec.head? = some part) : d.leftVal = truncate part.left_y := by
  rw [leftVal, h]
  rfl

theorem rightRaw_eq {part : Part} (h : d.pvec.getLast? = some part) :
    d.rightRaw = truncate part.right_x := by
  rw [rightRaw, h]
  rfl

theorem rightVal_eq {part : Part} (h : d.pvec.getLast? = some part) :
    d.rightVal = truncate part.right_y := by
  rw [rightVal, h]
  rfl

/-- What a diagram with segments is expected to give it gives, where it is steady and suits its
ends. -/
theorem plain_of_suitsEnds (hlength : d.points.length ≠ 1) (h : d.Steady raw) {crop : Bool}
    (hsuits : d.SuitsEnds raw crop) :
    ∃ val, d.Plain raw crop val ∧ Expected d.points raw crop val := by
  obtain ⟨first, last, hfirst, hlast, -, hmost⟩ := exists_ends hlength
  have hleft := h.first first hfirst
  have hfirstmem := left_mem (List.mem_of_head? hfirst)
  have hlastmem := right_mem (List.mem_of_getLast? hlast)
  have hleftRaw := leftRaw_eq hfirst
  have hrightRaw := rightRaw_eq hlast
  by_cases hbelow : ∃ q ∈ d.points, q.x ≤ raw
  · have hnotleft : ¬raw < d.leftRaw := by
      obtain ⟨q, hq, hle⟩ := hbelow
      rw [hleftRaw]
      exact not_lt.mpr (truncate_le_of_le ((hleft q hq).trans hle))
    by_cases habove : ∃ q ∈ d.points, (raw : ℚ) ≤ q.x
    · obtain ⟨q, hq, hle⟩ := habove
      have hx : (raw : ℚ) ≤ last.right_x := hle.trans (hmost q hq)
      have hnotright : ¬d.rightRaw < raw := by
        rw [hrightRaw]
        exact not_lt.mpr (le_truncate_of_le hx)
      obtain ⟨y, hy, hfinds⟩ := h.finds hbelow ⟨last, List.mem_of_getLast? hlast, hx⟩
      exact ⟨lround y, (plain_inside hnotleft hnotright).mpr hfinds, .inside hy⟩
    · have hout : ∀ q ∈ d.points, q.x < raw := fun q hq => not_le.mp fun hle => habove ⟨q, hq, hle⟩
      obtain ⟨htruncate, hround⟩ := hsuits.right last.p_right hlastmem hmost (hout _ hlastmem)
      have hright : d.rightRaw < raw := hrightRaw.trans_lt htruncate
      refine ⟨_, (plain_right hnotleft hright).mpr rfl, ?_⟩
      cases crop with
      | false => exact .out (.inr hout)
      | true =>
        have hval : d.rightVal = lround last.p_right.y := (rightVal_eq hlast).trans (hround rfl)
        rw [if_pos rfl, hval]
        exact .right hlastmem hmost (hout _ hlastmem)
  · have hout : ∀ q ∈ d.points, (raw : ℚ) < q.x := fun q hq => not_le.mp fun hle => hbelow ⟨q, hq, hle⟩
    obtain ⟨htruncate, hround⟩ := hsuits.left first.p_left hfirstmem hleft (hout _ hfirstmem)
    refine ⟨_, (plain_left (htruncate.trans_eq hleftRaw.symm)).mpr rfl, ?_⟩
    cases crop with
    | false => exact .out (.inl hout)
    | true =>
      have hval : d.leftVal = lround first.p_left.y := (leftVal_eq hfirst).trans (hround rfl)
      rw [if_pos rfl, hval]
      exact .left hfirstmem hleft (hout _ hfirstmem)

/-! ## A single point -/

theorem pvec_point {p : Point} (hp : d.points = [p]) : d.pvec = [] := by
  have hperm := d.perm
  rw [hp] at hperm
  exact List.perm_nil.mp hperm

theorem interpolates_point {p : Point} {x y : ℚ} (h : Interpolates [p] x y) : x = p.x ∧ y = p.y := by
  cases h with
  | point hq hx =>
    rw [List.mem_singleton.mp hq] at hx ⊢
    exact ⟨hx.symm, rfl⟩
  | segment hpq =>
    have hle := hpq.length_le
    simp at hle

theorem plain_point {p : Point} (hp : d.points = [p]) {crop : Bool} {val : Int} :
    d.Plain raw crop val ↔ raw ≠ 0 ∧ val = if crop then 0 else outOfRange := by
  have hnil := pvec_point hp
  have hleft : d.leftRaw = 0 ∧ d.leftVal = 0 := by
    rw [leftRaw, leftVal, hnil]
    exact ⟨rfl, rfl⟩
  have hright : d.rightRaw = 0 ∧ d.rightVal = 0 := by
    rw [rightRaw, rightVal, hnil]
    exact ⟨rfl, rfl⟩
  rcases Int.lt_trichotomy raw 0 with hlt | rfl | hgt
  · rw [plain_left (hlt.trans_eq hleft.1.symm), hleft.2, and_iff_right hlt.ne]
  · rw [plain_inside hleft.1.not_gt hright.1.not_lt]
    refine iff_of_false ?_ fun h => h.1 rfl
    rintro ⟨fuel, fit, hfit, -⟩
    rw [hnil] at hfit
    exact absurd (find_range_mem hfit).1 List.not_mem_nil
  · have hnotleft : ¬raw < d.leftRaw := by omega
    rw [plain_right hnotleft (hright.1.trans_lt hgt), hright.2, and_iff_right hgt.ne']

theorem lround_lt {q : ℚ} (h : InLong q) : lround q < outOfRange := by
  have hclose := (abs_le.mp (abs_lround_sub q)).2
  have hle := h.2
  have hlt : (lround q : ℚ) < (outOfRange : Int) := by
    rw [outOfRange]
    push_cast
    linarith
  exact_mod_cast hlt

/-- The values of a single point are 0 on both sides of the raw value 0. -/
theorem plain_point_iff {p : Point} (hp : d.points = [p]) {crop : Bool} :
    (∃ val, d.Plain raw crop val ∧ Expected d.points raw crop val) ↔ SuitsPoint p raw crop := by
  have hlong : InLong p.y := (d.coords p (hp ▸ List.mem_cons_self)).2
  simp only [plain_point hp]
  rw [hp]
  constructor
  · rintro ⟨val, ⟨hzero, hval⟩, hexpected⟩
    cases hexpected with
    | inside hy =>
      obtain ⟨-, rfl⟩ := interpolates_point hy
      cases crop with
      | false => exact absurd hval (lround_lt hlong).ne
      | true => exact ⟨hzero, fun _ => rfl, fun _ => hval⟩
    | left hq =>
      rw [List.mem_singleton.mp hq] at hval
      exact ⟨hzero, fun _ => rfl, fun _ => hval⟩
    | right hq =>
      rw [List.mem_singleton.mp hq] at hval
      exact ⟨hzero, fun _ => rfl, fun _ => hval⟩
    | out hout =>
      refine ⟨hzero, fun hx => ?_, fun hcrop => absurd hcrop Bool.false_ne_true⟩
      rcases hout with hout | hout
      · exact absurd hx (hout p List.mem_cons_self).ne
      · exact absurd hx (hout p List.mem_cons_self).ne'
  · rintro ⟨hzero, houtside, hround⟩
    refine ⟨_, ⟨hzero, rfl⟩, ?_⟩
    have hall : ∀ q ∈ [p], q.x = p.x := fun q hq => congrArg Point.x (List.mem_singleton.mp hq)
    cases crop with
    | true =>
      have hval : (if true = true then 0 else outOfRange) = lround p.y := (hround rfl).symm
      rw [hval]
      rcases lt_trichotomy (raw : ℚ) p.x with hlt | heq | hgt
      · exact .left List.mem_cons_self (fun q hq => (hall q hq).ge) hlt
      · exact .inside (.point List.mem_cons_self heq.symm)
      · exact .right List.mem_cons_self (fun q hq => (hall q hq).le) hgt
    | false =>
      have hne : (raw : ℚ) ≠ p.x := fun heq => Bool.false_ne_true (houtside heq)
      refine .out (hne.lt_or_gt.imp (fun hlt q hq => ?_) fun hgt q hq => ?_)
      · rw [hall q hq]
        exact hlt
      · rw [hall q hq]
        exact hgt

/-! ## Points in order -/

/-- Left of a segment, but for the leftmost, there is one that ends where it begins. -/
theorem exists_neighbour (h : d.Monotone) {part : Part} (hpart : part ∈ d.pvec) {q : Point}
    (hq : q ∈ d.points) (hlt : q.x < part.left_x) :
    part.left_x < part.right_x ∧ ∃ other ∈ d.pvec, other.right_x = part.left_x := by
  obtain ⟨a, b, ⟨before, after, hpoints⟩, rfl⟩ := mem_pvec hpart
  rw [Part.left_new] at hlt
  rw [Part.left_new, Part.right_new]
  unfold Monotone at h
  rw [← hpoints] at h hq
  rcases h with hup | hdown
  · rw [List.append_assoc, List.pairwise_append] at hup
    have hab : a.x < b.x := by
      have hcons := hup.2.1
      rw [List.cons_append, List.pairwise_cons] at hcons
      exact hcons.1 b List.mem_cons_self
    rw [min_eq_left hab.le] at hlt ⊢
    rw [max_eq_right hab.le]
    refine ⟨hab, ?_⟩
    have hqbefore : q ∈ before := by
      rw [List.append_assoc, List.mem_append] at hq
      refine hq.resolve_right fun hlater => ?_
      rcases List.mem_cons.mp hlater with rfl | hrest
      · exact lt_irrefl _ hlt
      · exact absurd ((List.pairwise_cons.mp hup.2.1).1 q hrest) (not_lt.mpr hlt.le)
    obtain ⟨before, z, rfl⟩ :=
      (List.eq_nil_or_concat before).resolve_left (List.ne_nil_of_mem hqbefore)
    refine ⟨.new z a, (mem_pvec_iff d).mpr (new_mem_parts ⟨before, b :: after, ?_⟩), ?_⟩
    · rw [← hpoints]
      simp
    · have hza : z.x < a.x := hup.2.2 z (by simp) a List.mem_cons_self
      rw [Part.right_new, max_eq_right hza.le]
  · rw [List.append_assoc, List.pairwise_append] at hdown
    have hcons := hdown.2.1
    rw [List.cons_append, List.pairwise_cons, List.singleton_append, List.pairwise_cons] at hcons
    have hba : b.x < a.x := hcons.1 b List.mem_cons_self
    rw [min_eq_right hba.le] at hlt ⊢
    rw [max_eq_left hba.le]
    refine ⟨hba, ?_⟩
    have hqafter : q ∈ after := by
      rw [List.append_assoc, List.mem_append] at hq
      rcases hq with hqbefore | hq
      · have hbefore := hdown.2.2 q hqbefore b (List.mem_cons_of_mem _ List.mem_cons_self)
        exact absurd hbefore (not_lt.mpr hlt.le)
      rw [List.cons_append, List.singleton_append] at hq
      rcases List.mem_cons.mp hq with rfl | hq
      · exact absurd hba (not_lt.mpr hlt.le)
      rcases List.mem_cons.mp hq with rfl | hq
      · exact absurd hlt (lt_irrefl _)
      · exact hq
    obtain ⟨z, after, rfl⟩ := List.exists_cons_of_ne_nil (List.ne_nil_of_mem hqafter)
    refine ⟨.new b z, (mem_pvec_iff d).mpr (new_mem_parts ⟨before ++ [a], after, ?_⟩), ?_⟩
    · rw [← hpoints]
      simp
    · have hzb : z.x < b.x := hcons.2.1 z List.mem_cons_self
      rw [Part.right_new, max_eq_left hzb.le]

theorem Monotone.steady (h : d.Monotone) (raw : Int) : d.Steady raw := by
  refine ⟨fun first hfirst q hq => ?_, fun hbelow part hpart hx hnext => ?_⟩
  · by_contra hnot
    obtain ⟨hlt, other, hother, hends⟩ :=
      exists_neighbour h (List.mem_of_head? hfirst) hq (not_le.mp hnot)
    have hlength : d.points.length ≠ 1 := fun hone => by
      obtain ⟨p, hp⟩ := List.length_eq_one_iff.mp hone
      rw [pvec_point hp] at hother
      exact absurd hother List.not_mem_nil
    obtain ⟨first', last, hfirst', -, hleast, -⟩ := exists_ends hlength
    obtain rfl : first = first' := Option.some.inj (hfirst.symm.trans hfirst')
    exact absurd (hleast other hother) (not_le.mpr (hends.trans_lt hlt))
  · by_contra hnot
    rw [not_le] at hnot
    obtain ⟨q, hq, hqx⟩ := hbelow
    obtain ⟨hlt, other, hother, hends⟩ := exists_neighbour h hpart hq (hqx.trans_lt hnot)
    exact absurd (hnext other hother (hnot.trans_eq hends.symm).le) (not_le.mpr (hends.trans_lt hlt))

/-- Points in order are known by their `x`. -/
theorem Monotone.eq_of_x_eq (h : d.Monotone) {p q : Point} (hp : p ∈ d.points) (hq : q ∈ d.points)
    (hx : p.x = q.x) : p = q := by
  have hnodup : (d.points.map Point.x).Nodup := by
    rw [List.Nodup, List.pairwise_map]
    rcases h with hup | hdown
    · exact hup.imp ne_of_lt
    · exact hdown.imp ne_of_gt
  exact List.inj_on_of_nodup_map hnodup hp hq hx

theorem interpolates_between {points : List Point} {x y : ℚ} (h : Interpolates points x y) :
    (∃ q ∈ points, q.x ≤ x) ∧ ∃ q ∈ points, x ≤ q.x := by
  cases h with
  | point hp hx => exact ⟨⟨_, hp, hx.le⟩, _, hp, hx.ge⟩
  | @segment p q hpq hleft hright =>
    have hp : p ∈ points := hpq.subset List.mem_cons_self
    have hq : q ∈ points := hpq.subset (List.mem_cons_of_mem _ List.mem_cons_self)
    refine ⟨?_, ?_⟩
    · rcases min_lt_iff.mp hleft with hlt | hlt
      · exact ⟨p, hp, hlt.le⟩
      · exact ⟨q, hq, hlt.le⟩
    · rcases lt_max_iff.mp hright with hlt | hlt
      · exact ⟨p, hp, hlt.le⟩
      · exact ⟨q, hq, hlt.le⟩

/-- Left of all points nothing but the value of the leftmost one is expected. -/
theorem expected_left {points : List Point} {val : Int} (h : Expected points raw true val)
    (hout : ∀ q ∈ points, (raw : ℚ) < q.x) :
    ∃ q ∈ points, (∀ q' ∈ points, q.x ≤ q'.x) ∧ val = lround q.y := by
  cases h with
  | inside hy =>
    obtain ⟨⟨q, hq, hle⟩, -⟩ := interpolates_between hy
    exact absurd hle (not_le.mpr (hout q hq))
  | left hq hleft => exact ⟨_, hq, hleft, rfl⟩
  | right hq _ hgt => exact absurd hgt (hout _ hq).not_gt

theorem expected_right {points : List Point} {val : Int} (h : Expected points raw true val)
    (hout : ∀ q ∈ points, q.x < raw) :
    ∃ q ∈ points, (∀ q' ∈ points, q'.x ≤ q.x) ∧ val = lround q.y := by
  cases h with
  | inside hy =>
    obtain ⟨-, q, hq, hle⟩ := interpolates_between hy
    exact absurd hle (not_le.mpr (hout q hq))
  | left hq _ hlt => exact absurd hlt (hout _ hq).not_gt
  | right hq hright => exact ⟨_, hq, hright, rfl⟩

/-- Where no segment has the raw value the search does not come to an end. -/
theorem not_finds {val : Int} (hout : (∀ q ∈ d.points, (raw : ℚ) < q.x) ∨ ∀ q ∈ d.points, q.x < raw) :
    ¬d.Finds raw val := by
  rintro ⟨fuel, fit, hfit, -⟩
  obtain ⟨hmem, hcheck⟩ := find_range_mem hfit
  obtain ⟨hleft, hright⟩ := (Part.checkX_iff _ _).mp hcheck
  rcases hout with hout | hout
  · exact absurd hleft (not_le.mpr (hout _ (left_mem hmem)))
  · exact absurd hright (not_le.mpr (hout _ (right_mem hmem)))

/-- In order, the diagram gives only what is expected where it suits its ends. -/
theorem suitsEnds_of_plain (hlength : d.points.length ≠ 1) (h : d.Monotone) {crop : Bool} {val : Int}
    (hplain : d.Plain raw crop val) (hexpected : Expected d.points raw crop val) :
    d.SuitsEnds raw crop := by
  obtain ⟨first, last, hfirst, hlast, -, hmost⟩ := exists_ends hlength
  have hfirstleft := (h.steady raw).first first hfirst
  have hfirstmem := left_mem (List.mem_of_head? hfirst)
  have hlastmem := right_mem (List.mem_of_getLast? hlast)
  refine ⟨fun p hp hleft hlt => ?_, fun p hp hright hgt => ?_⟩
  · obtain rfl : p = first.p_left :=
      h.eq_of_x_eq hp hfirstmem (le_antisymm (hleft _ hfirstmem) (hfirstleft p hp))
    have hout : ∀ q ∈ d.points, (raw : ℚ) < q.x := fun q hq => hlt.trans_le (hleft q hq)
    have hbeyond : raw < d.leftRaw := by
      by_contra hnot
      have hx : (raw : ℚ) ≤ last.right_x := (hout _ hlastmem).le
      have hnotright : ¬d.rightRaw < raw :=
        not_lt.mpr ((le_truncate_of_le hx).trans_eq (rightRaw_eq hlast).symm)
      exact not_finds (.inl hout) ((plain_inside hnot hnotright).mp hplain)
    refine ⟨hbeyond.trans_eq (leftRaw_eq hfirst), fun hcrop => ?_⟩
    subst hcrop
    obtain ⟨q, hq, hqleft, hval⟩ := expected_left hexpected hout
    rw [h.eq_of_x_eq hq hp (le_antisymm (hqleft _ hp) (hleft q hq))] at hval
    rw [plain_left hbeyond, if_pos rfl] at hplain
    exact (leftVal_eq hfirst).symm.trans (hplain.symm.trans hval)
  · obtain rfl : p = last.p_right :=
      h.eq_of_x_eq hp hlastmem (le_antisymm (hmost p hp) (hright _ hlastmem))
    have hout : ∀ q ∈ d.points, q.x < raw := fun q hq => (hright q hq).trans_lt hgt
    have hnotleft : ¬raw < d.leftRaw :=
      not_lt.mpr ((leftRaw_eq hfirst).trans_le (truncate_le_of_le (hout _ hfirstmem).le))
    have hbeyond : d.rightRaw < raw := by
      by_contra hnot
      exact not_finds (.inr hout) ((plain_inside hnotleft hnot).mp hplain)
    refine ⟨(rightRaw_eq hlast).symm.trans_lt hbeyond, fun hcrop => ?_⟩
    subst hcrop
    obtain ⟨q, hq, hqright, hval⟩ := expected_right hexpected hout
    rw [h.eq_of_x_eq hq hp (le_antisymm (hright q hq) (hqright _ hp))] at hval
    rw [plain_right hnotleft hbeyond, if_pos rfl] at hplain
    exact (rightVal_eq hlast).symm.trans (hplain.symm.trans hval)

theorem suits_of_length {crop : Bool} (hlength : d.points.length ≠ 1) :
    d.Suits raw crop ↔ d.SuitsEnds raw crop := by
  unfold Suits
  split
  · rename_i hp
    rw [hp] at hlength
    exact absurd rfl hlength
  · exact Iff.rfl

theorem suits_of_point {p : Point} {crop : Bool} (hp : d.points = [p]) :
    d.Suits raw crop ↔ SuitsPoint p raw crop := by
  unfold Suits
  rw [hp]

/-! ## Calls -/

theorem expected_iff_suits {crop : Bool} : (d.Steady raw → d.Suits raw crop →
      ∃ val, d.Plain raw crop val ∧ Expected d.points raw crop val) ∧
    (d.Monotone → ((∃ val, d.Plain raw crop val ∧ Expected d.points raw crop val) ↔
      d.Suits raw crop)) := by
  by_cases hlength : d.points.length = 1
  · obtain ⟨p, hp⟩ := List.length_eq_one_iff.mp hlength
    rw [suits_of_point hp]
    exact ⟨fun _ => (plain_point_iff hp).mpr, fun _ => plain_point_iff hp⟩
  · rw [suits_of_length hlength]
    refine ⟨fun h => plain_of_suitsEnds hlength h, fun h =>
      ⟨?_, plain_of_suitsEnds hlength (h.steady raw)⟩⟩
    rintro ⟨val, hplain, hexpected⟩
    exact suitsEnds_of_plain hlength h hplain hexpected

/-! ## Calls -/

/-- A call of `getValue`. -/
def Calls (op : CacheOp) : Prop :=
  match op with
  | .getValue .. => True
  | _ => False

theorem insertToCache_szCache {s s' : ValueCache} {val : Int} (h : s.insertToCache raw val = some s') :
    s'.szCache = s.szCache := by
  unfold ValueCache.insertToCache at h
  simp only [Option.bind_eq_bind, Option.bind_eq_some_iff] at h
  obtain ⟨cache, -, heq⟩ := h
  cases heq
  rfl

theorem getValue_szCache {s s' : ValueCache} {fuel : Nat} {crop : Bool} {val : Int}
    (h : d.getValue fuel s raw crop = some (val, s')) : s'.szCache = s.szCache := by
  by_cases hleft : raw < d.leftRaw
  · rw [getValue, if_pos hleft] at h
    cases h
    rfl
  by_cases hright : d.rightRaw < raw
  · rw [getValue, if_neg hleft, if_pos hright] at h
    cases h
    rfl
  rw [getValue_inside hleft hright] at h
  cases hhit : hit s raw with
  | some found =>
    rw [hhit] at h
    dsimp only at h
    split_ifs at h
    · cases h
      rfl
    · simp only [Option.bind_eq_bind, Option.bind_eq_some_iff] at h
      obtain ⟨sorted, -, heq⟩ := h
      cases heq
      rfl
  | none =>
    rw [hhit] at h
    simp only [Option.bind_eq_bind, Option.bind_eq_some_iff] at h
    obtain ⟨fit, -, h⟩ := h
    split_ifs at h
    · rw [Option.bind_eq_some_iff] at h
      obtain ⟨s'', hinsert, heq⟩ := h
      cases heq
      exact insertToCache_szCache hinsert
    · cases h
      rfl

/-- Calls keep the five entries of a new cache. -/
theorem szCache_of_calls {s : ValueCache} (h : Reaches d.step (fun _ op => Calls op.2) .new s) :
    s.szCache = 5 := by
  refine h.invariant (I := fun s => s.szCache = 5) (fun {s op s'} hsize hcall hstep => ?_) rfl
  obtain ⟨fuel, op⟩ := op
  cases op with
  | getValue raw crop =>
    simp only [step, Option.map_eq_some_iff] at hstep
    obtain ⟨⟨val, s''⟩, hget, rfl⟩ := hstep
    exact (getValue_szCache hget).trans hsize
  | setCacheSize => exact hcall.elim
  | setCacheResortCycle => exact hcall.elim

theorem right_iff_plain {s : ValueCache} (h : Reaches d.step (fun _ op => Calls op.2) .new s)
    {crop : Bool} : d.Right s raw crop ↔
      ∃ val, d.Plain raw crop val ∧ Expected d.points raw crop val := by
  have hsound := Sound.of_reaches h
  have hsort : CanSort s (.getValue raw crop) := by
    left
    rw [hsound.size, szCache_of_calls h]
    decide
  exact exists_congr fun val => and_congr_left fun _ => hsound.returns_iff hsort

/-- After any calls, a call comes to an end with the value of the line, if the diagram is steady
there and suits it; if its points are in order, only then. -/
theorem getValue_iff (d : Calibration) {s : ValueCache}
    (hrun : Reaches d.step (fun _ op => Calls op.2) .new s) (raw : Int) (crop : Bool) :
    (d.Steady raw → d.Suits raw crop → d.Right s raw crop) ∧
      (d.Monotone → (d.Right s raw crop ↔ d.Suits raw crop)) := by
  rw [right_iff_plain hrun]
  exact expected_iff_suits

theorem monotone_line : line.Monotone := by
  left
  change List.Pairwise (fun p q : Point => p.x < q.x) [⟨0, 0⟩, ⟨10, 10⟩]
  simp

theorem getValue_line : line.Right .new 3 false := by
  have hsuits : line.Suits 3 false := by
    refine ⟨fun p _ hleft hlt => ?_, fun p _ hright hgt => ?_⟩
    · have hle : p.x ≤ 0 := hleft ⟨0, 0⟩ List.mem_cons_self
      norm_num at hlt
      linarith
    · have hge : 10 ≤ p.x := hright ⟨10, 10⟩ (List.mem_cons_of_mem _ List.mem_cons_self)
      norm_num at hgt
      linarith
  exact ((getValue_iff line (.refl _) 3 false).2 monotone_line).mpr hsuits

/-- The line from 1.5 to 10. -/
def offset : Calibration where
  points := [⟨3 / 2, 15⟩, ⟨10, 100⟩]
  pvec := [.new ⟨3 / 2, 15⟩ ⟨10, 100⟩]
  accepted := List.cons_ne_nil _ _
  coords := by
    unfold InLong
    simp only [List.mem_cons, List.not_mem_nil, or_false, forall_eq_or_imp, forall_eq]
    norm_num
  perm := .refl _
  sorted := List.pairwise_singleton _ _

/-- The raw value 1 is not left of the integer part of 1.5: the search does not come to an end. -/
theorem not_right_offset : ¬offset.Right .new 1 true := by
  rw [right_iff_plain (.refl _)]
  rintro ⟨val, hplain, hexpected⟩
  have hmono : offset.Monotone := by
    left
    change List.Pairwise (fun p q : Point => p.x < q.x) [⟨3 / 2, 15⟩, ⟨10, 100⟩]
    norm_num
  have hlength : offset.points.length ≠ 1 := by decide
  have hleft : ∀ q ∈ offset.points, (3 / 2 : ℚ) ≤ q.x := by
    change ∀ q ∈ [Point.mk (3 / 2) 15, Point.mk 10 100], (3 / 2 : ℚ) ≤ q.x
    norm_num
  have hbeyond := ((suitsEnds_of_plain hlength hmono hplain hexpected).left ⟨3 / 2, 15⟩
    List.mem_cons_self hleft (by norm_num)).1
  have htruncate : truncate (3 / 2) = 1 := by
    rw [truncate, if_pos (by norm_num), Int.floor_eq_iff]
    norm_num
  exact absurd hbeyond htruncate.not_gt

end Calibration

end Uniset.Extensions
