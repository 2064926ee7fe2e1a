import Uniset.Extensions.CalibrationValues
import Uniset.Lib.FloatRounding

/-! The way back through a calibration diagram, from a value to the raw value.  Here the numbers are
those of `float`, and every operation on them rounds. -/

namespace Uniset.Extensions

open Uniset.Lib

/-- What a number becomes that is stored in a `float`. -/
def toFloat (q : ℚ) : ℚ := binary32.nearest q

/-! ## Arithmetic -/

theorem toFloat_mono : Monotone toFloat := FloatFormat.nearest_mono

theorem toFloat_nonneg {v : ℚ} (hv : 0 ≤ v) : 0 ≤ toFloat v := FloatFormat.nearest_nonneg hv

theorem toFloat_le (v : ℚ) : toFloat v ≤ v + |v| / 2 ^ 24 + 1 / 2 ^ 149 := by
  have herror := (abs_le.mp (FloatFormat.abs_nearest_sub_le_add (F := binary32) v)).2
  have hplace : binary32.leastPlace = -149 := rfl
  have hdigits : binary32.digits = 23 := rfl
  rw [hplace, hdigits] at herror
  norm_num at herror ⊢
  unfold toFloat
  linarith

theorem le_toFloat {v : ℚ} (hv : 1 / 2 ^ 126 ≤ v) : v * (1 - 1 / 2 ^ 24) ≤ toFloat v := by
  have hpos : 0 < v := lt_of_lt_of_le (by positivity) hv
  have hplace : binary32.leastPlace = -149 := rfl
  have hdigits : binary32.digits = 23 := rfl
  have hnormal : (2 : ℚ) ^ (binary32.leastPlace + binary32.digits) ≤ |v| := by
    rw [hplace, hdigits, abs_of_pos hpos]
    norm_num at hv ⊢
    exact hv
  have herror := (abs_le.mp (FloatFormat.abs_nearest_sub_le hnormal)).1
  rw [hdigits, abs_of_pos hpos] at herror
  norm_num at herror ⊢
  unfold toFloat
  linarith

namespace Part

/-- The slope that the constructor computes; none is one that is not finite. -/
def floatSlope (p_left p_right : Point) : Option ℚ :=
  if (p_right.y = 0 ∧ p_left.y = 0) ∨ (p_right.x = 0 ∧ p_left.x = 0) then some 0
  else
    let dx := toFloat (p_right.x - p_left.x)
    let k := toFloat (toFloat (p_right.y - p_left.y) / dx)
    if dx = 0 ∨ binary32.limit ≤ |k| then none else some k

variable (p : Part)

def checkY (y : ℚ) : Prop := ¬(y < p.left_y ∨ p.right_y < y)

instance (y : ℚ) : Decidable (p.checkY y) := inferInstanceAs (Decidable (¬_))

/-- By an infinite slope the quotient is 0. -/
def calcX (y : ℚ) : ℚ :=
  match floatSlope p.p_left p.p_right with
  | none => p.left_x
  | some k =>
    if k = 0 then p.left_x else toFloat (toFloat (toFloat (y - p.left_y) / k) + p.left_x)

/-- None is `ValueOutOfRange`. -/
def getX (y : ℚ) : Option ℚ :=
  if ¬p.checkY y then none
  else if y = p.left_y then some p.left_x
  else if y = p.right_y then some p.right_x
  else some (p.calcX y)

end Part

/-- The left end of the segment between two points is not higher than its right end. -/
def Rises (p q : Point) : Prop := if q.x < p.x then q.y ≤ p.y else p.y ≤ q.y

/-- A number of `float`, not so large that the raw values near it would have no `long`. -/
def IsCoordinate (q : ℚ) : Prop := toFloat q = q ∧ |q| ≤ 2 ^ 62

namespace Calibration

variable (d : Calibration)

/-- The first segment that has the value tells. -/
def getRawValue (cal : Int) (range : Bool) : Int :=
  match d.pvec.findSome? fun p => p.getX (toFloat cal) with
  | some q => lround q
  | none =>
    if range then
      if cal < d.leftVal then d.leftRaw
      else if d.rightVal < cal then d.rightRaw
      else outOfRange
    else outOfRange

def OfFloats : Prop := ∀ p ∈ d.points, IsCoordinate p.x ∧ IsCoordinate p.y

/-- The points are in the order of their `y`. -/
def MonotoneValues : Prop :=
  d.points.Pairwise (fun p q => p.y < q.y) ∨ d.points.Pairwise fun p q => q.y < p.y

/-- For a value between two neighbouring points the raw value is between them. -/
def FindsBetween : Prop := ∀ p q, [p, q] <:+: d.points → ∀ cal : Int,
  min p.y q.y < cal → (cal : ℚ) < max p.y q.y → ∀ range,
    min p.x q.x ≤ d.getRawValue cal range ∧ d.getRawValue cal range ≤ max p.x q.x

/-- The ends of the segments that rise are found where they have integer coordinates. -/
def FindsEnds : Prop := ∀ p q, [p, q] <:+: d.points → Rises p q → ∀ r, r = p ∨ r = q →
  ∀ x y : Int, r.x = x → r.y = y → ∀ range, d.getRawValue y range = x

/-- What the operations of a line may add to its raw values. -/
def tolerance (p q : Point) : ℚ := (1 + |p.x| + |q.x|) / 2 ^ 20

/-- For a value inside of a segment that rises the raw value is the integer nearest to a number between
the ends, which may be beyond the right one by the tolerance. -/
def FindsNear : Prop := ∀ p q, [p, q] <:+: d.points → Rises p q → 1 / 2 ^ 60 ≤ |q.y - p.y| →
  ∀ cal : Int, min p.y q.y < cal → (cal : ℚ) < max p.y q.y → ∀ range,
    min p.x q.x - 1 / 2 ≤ d.getRawValue cal range ∧
      d.getRawValue cal range ≤ max p.x q.x + tolerance p q + 1 / 2

variable {d}

/-! ## Neighbours -/

theorem mem_of_neighbours {points : List Point} {p q : Point} (h : [p, q] <:+: points) :
    p ∈ points ∧ q ∈ points :=
  ⟨h.subset List.mem_cons_self, h.subset (List.mem_cons_of_mem _ List.mem_cons_self)⟩

section Order

variable {points : List Point} {f : Point → ℚ} {a b p q c : Point} {v : ℚ}

/-- In order no point is between two neighbours. -/
theorem outside_of_neighbours (h : points.Pairwise fun p q => f p < f q) (hpq : [p, q] <:+: points)
    (hc : c ∈ points) : f p < f q ∧ (c = p ∨ c = q ∨ f c < f p ∨ f q < f c) := by
  obtain ⟨before, after, rfl⟩ := hpq
  rw [List.append_assoc, List.pairwise_append] at h
  obtain ⟨-, hcons, hbefore⟩ := h
  rw [List.cons_append, List.pairwise_cons, List.singleton_append, List.pairwise_cons] at hcons
  refine ⟨hcons.1 q List.mem_cons_self, ?_⟩
  rw [List.append_assoc, List.mem_append] at hc
  rcases hc with hc | hc
  · exact .inr (.inr (.inl (hbefore c hc p List.mem_cons_self)))
  rw [List.cons_append, List.singleton_append] at hc
  rcases List.mem_cons.mp hc with rfl | hc
  · exact .inl rfl
  rcases List.mem_cons.mp hc with rfl | hc
  · exact .inr (.inl rfl)
  · exact .inr (.inr (.inr (hcons.2.1 c hc)))

theorem eq_end_of_between (h : points.Pairwise fun p q => f p < f q) (hpq : [p, q] <:+: points)
    (hc : c ∈ points) (hlow : f p ≤ f c) (hhigh : f c ≤ f q) : c = p ∨ c = q := by
  rcases (outside_of_neighbours h hpq hc).2 with heq | heq | hlt | hlt
  · exact .inl heq
  · exact .inr heq
  · exact absurd hlow (not_le.mpr hlt)
  · exact absurd hhigh (not_le.mpr hlt)

/-- A value inside of one pair of neighbours is within no other. -/
theorem neighbours_unique (h : points.Pairwise fun p q => f p < f q) (hpq : [p, q] <:+: points)
    (hab : [a, b] <:+: points) (hlow : f p < v) (hhigh : v < f q) (ha : f a ≤ v) (hb : v ≤ f b) :
    a = p ∧ b = q := by
  constructor
  · rcases (outside_of_neighbours h hpq (mem_of_neighbours hab).1).2 with heq | rfl | hlt | hlt
    · exact heq
    · exact absurd ha (not_le.mpr hhigh)
    · rcases (outside_of_neighbours h hab (mem_of_neighbours hpq).1).2 with rfl | rfl | hlt' | hlt'
      · rfl
      · exact absurd hb (not_le.mpr hlow)
      · exact absurd hlt hlt'.not_gt
      · exact absurd (hlow.trans_le hb) hlt'.not_gt
    · exact absurd (ha.trans_lt hhigh) hlt.not_gt
  · rcases (outside_of_neighbours h hpq (mem_of_neighbours hab).2).2 with rfl | heq | hlt | hlt
    · exact absurd hb (not_le.mpr hlow)
    · exact heq
    · exact absurd (hlow.trans_le hb) hlt.not_gt
    · rcases (outside_of_neighbours h hab (mem_of_neighbours hpq).2).2 with rfl | rfl | hlt' | hlt'
      · exact absurd ha (not_le.mpr hhigh)
      · rfl
      · exact absurd (ha.trans_lt hhigh) hlt'.not_gt
      · exact absurd hlt hlt'.not_gt

end Order

variable {a b p q c : Point} {v : ℚ}

theorem MonotoneValues.eq_end (h : d.MonotoneValues) (hpq : [p, q] <:+: d.points) (hc : c ∈ d.points)
    (hlow : min p.y q.y ≤ c.y) (hhigh : c.y ≤ max p.y q.y) : c = p ∨ c = q := by
  rcases h with hup | hdown
  · have hlt := (outside_of_neighbours hup hpq hc).1
    rw [min_eq_left hlt.le] at hlow
    rw [max_eq_right hlt.le] at hhigh
    exact eq_end_of_between hup hpq hc hlow hhigh
  · have hneg : d.points.Pairwise fun p q => -p.y < -q.y := hdown.imp neg_lt_neg
    have hlt := neg_lt_neg_iff.mp (outside_of_neighbours hneg hpq hc).1
    rw [min_eq_right hlt.le] at hlow
    rw [max_eq_left hlt.le] at hhigh
    exact eq_end_of_between hneg hpq hc (neg_le_neg hhigh) (neg_le_neg hlow)

theorem MonotoneValues.neighbours (h : d.MonotoneValues) (hpq : [p, q] <:+: d.points)
    (hab : [a, b] <:+: d.points) (hlow : min p.y q.y < v) (hhigh : v < max p.y q.y)
    (ha : min a.y b.y ≤ v) (hb : v ≤ max a.y b.y) : a = p ∧ b = q := by
  have hp := (mem_of_neighbours hpq).1
  rcases h with hup | hdown
  · have hlt := (outside_of_neighbours hup hpq hp).1
    have hlt' := (outside_of_neighbours hup hab hp).1
    rw [min_eq_left hlt.le] at hlow
    rw [max_eq_right hlt.le] at hhigh
    rw [min_eq_left hlt'.le] at ha
    rw [max_eq_right hlt'.le] at hb
    exact neighbours_unique hup hpq hab hlow hhigh ha hb
  · have hneg : d.points.Pairwise fun p q => -p.y < -q.y := hdown.imp neg_lt_neg
    have hlt := neg_lt_neg_iff.mp (outside_of_neighbours hneg hpq hp).1
    have hlt' := neg_lt_neg_iff.mp (outside_of_neighbours hneg hab hp).1
    rw [min_eq_right hlt.le] at hlow
    rw [max_eq_left hlt.le] at hhigh
    rw [min_eq_right hlt'.le] at ha
    rw [max_eq_left hlt'.le] at hb
    exact neighbours_unique hneg hpq hab (neg_lt_neg hhigh) (neg_lt_neg hlow) (neg_le_neg hb)
      (neg_le_neg ha)

theorem MonotoneValues.ne (h : d.MonotoneValues) (hpq : [p, q] <:+: d.points) : p.y ≠ q.y := by
  rcases h with hup | hdown
  · exact (outside_of_neighbours hup hpq (mem_of_neighbours hpq).1).1.ne
  · have hneg : d.points.Pairwise fun p q => -p.y < -q.y := hdown.imp neg_lt_neg
    exact (neg_lt_neg_iff.mp (outside_of_neighbours hneg hpq (mem_of_neighbours hpq).1).1).ne'

theorem MonotoneValues.eq_of_y_eq (h : d.MonotoneValues) (hp : p ∈ d.points) (hq : q ∈ d.points)
    (hy : p.y = q.y) : p = q := by
  have hnodup : (d.points.map Point.y).Nodup := by
    rw [List.Nodup, List.pairwise_map]
    rcases h with hup | hdown
    · exact hup.imp ne_of_lt
    · exact hdown.imp ne_of_gt
  exact List.inj_on_of_nodup_map hnodup hp hq hy

/-! ## Segments -/

theorem rises_iff (p q : Point) : Rises p q ↔ (Part.new p q).left_y ≤ (Part.new p q).right_y := by
  unfold Rises
  split_ifs with hlt
  · rw [Part.new_of_lt hlt]
    exact Iff.rfl
  · rw [Part.new_of_le (not_lt.mp hlt)]
    exact Iff.rfl

theorem checkY_iff (part : Part) (y : ℚ) : part.checkY y ↔ part.left_y ≤ y ∧ y ≤ part.right_y := by
  rw [Part.checkY, not_or, not_lt, not_lt]

/-- The ends of a segment that rises. -/
theorem ends_of_rises (h : Rises p q) : (Part.new p q).left_y = min p.y q.y ∧
    (Part.new p q).right_y = max p.y q.y := by
  unfold Rises at h
  split_ifs at h with hlt
  · rw [Part.new_of_lt hlt, min_eq_right h, max_eq_left h]
    exact ⟨rfl, rfl⟩
  · rw [Part.new_of_le (not_lt.mp hlt), min_eq_left h, max_eq_right h]
    exact ⟨rfl, rfl⟩

theorem getX_eq_none_iff (part : Part) (y : ℚ) : part.getX y = none ↔ ¬part.checkY y := by
  unfold Part.getX
  by_cases hcheck : part.checkY y
  · rw [if_neg (not_not.mpr hcheck)]
    refine iff_of_false ?_ (not_not.mpr hcheck)
    split_ifs
    all_goals exact not_false
  · rw [if_pos hcheck]
    exact iff_of_true rfl hcheck

/-- What is found is on a segment that rises. -/
theorem exists_of_found {x y : ℚ} (h : (d.pvec.findSome? fun part => part.getX y) = some x) :
    ∃ a b, [a, b] <:+: d.points ∧ Rises a b ∧ min a.y b.y ≤ y ∧ y ≤ max a.y b.y ∧
      (Part.new a b).getX y = some x := by
  obtain ⟨part, hpart, hget⟩ := List.exists_of_findSome?_eq_some h
  obtain ⟨a, b, hab, rfl⟩ := mem_pvec hpart
  have hcheck : (Part.new a b).checkY y := by
    by_contra hnot
    rw [(getX_eq_none_iff _ _).mpr hnot] at hget
    cases hget
  obtain ⟨hlow, hhigh⟩ := (checkY_iff _ _).mp hcheck
  have hrises : Rises a b := (rises_iff a b).mpr (hlow.trans hhigh)
  obtain ⟨hleft, hright⟩ := ends_of_rises hrises
  exact ⟨a, b, hab, hrises, hleft ▸ hlow, hright ▸ hhigh, hget⟩

/-- On a segment that rises every value is found. -/
theorem exists_found (hab : [a, b] <:+: d.points) (hrises : Rises a b) (hlow : min a.y b.y ≤ v)
    (hhigh : v ≤ max a.y b.y) : ∃ x, (d.pvec.findSome? fun part => part.getX v) = some x := by
  rw [← Option.isSome_iff_exists, List.findSome?_isSome_iff]
  refine ⟨.new a b, (mem_pvec_iff d).mpr (new_mem_parts hab), ?_⟩
  obtain ⟨hleft, hright⟩ := ends_of_rises hrises
  rw [Option.isSome_iff_ne_none, Ne, getX_eq_none_iff, not_not, checkY_iff, hleft, hright]
  exact ⟨hlow, hhigh⟩

/-! ## The line -/

theorem floatSlope_eq {l r : Point} {k : ℚ} (h : Part.floatSlope l r = some k) (hk : k ≠ 0) :
    toFloat (r.x - l.x) ≠ 0 ∧ k = toFloat (toFloat (r.y - l.y) / toFloat (r.x - l.x)) := by
  unfold Part.floatSlope at h
  dsimp only at h
  split_ifs at h with hzero hinfinite
  · exact absurd (Option.some.inj h).symm hk
  · exact ⟨fun hx => hinfinite (.inl hx), (Option.some.inj h).symm⟩

/-- A quotient by the slope, before it is rounded, is hardly more than the length of the segment. -/
theorem div_slope_le {D X k y : ℚ} (hX : 0 < X) (hmost : X ≤ 2 ^ 64) (hD : 1 / 2 ^ 61 ≤ D)
    (hk : k = toFloat (D / X)) (hy : y ≤ D) : 0 < k ∧ y / k ≤ X * (1 + 2 / 2 ^ 24) := by
  have hnormal : 1 / 2 ^ 126 ≤ D / X := by
    rw [le_div_iff₀ hX]
    norm_num at hmost hD ⊢
    linarith
  have hslope : D / X * (1 - 1 / 2 ^ 24) ≤ k := hk ▸ le_toFloat hnormal
  have hquot : 0 < D / X := lt_of_lt_of_le (by positivity) hnormal
  have hpos : 0 < k := lt_of_lt_of_le (mul_pos hquot (by norm_num)) hslope
  refine ⟨hpos, (div_le_iff₀ hpos).mpr ?_⟩
  have hmul : D * (1 - 1 / 2 ^ 24) ≤ X * k := by
    calc D * (1 - 1 / 2 ^ 24) = X * (D / X * (1 - 1 / 2 ^ 24)) := by field_simp
      _ ≤ X * k := mul_le_mul_of_nonneg_left hslope hX.le
  norm_num at hmul hD ⊢
  linarith

/-- Inside of a segment that rises the line is not below the left end, and hardly beyond the right
one. -/
theorem calcX_near {l r : Point} {k : ℚ} (hl : IsCoordinate l.x) (hr : |r.x| ≤ 2 ^ 62)
    (hx : l.x ≤ r.x) (hy : 1 / 2 ^ 60 ≤ r.y - l.y) (hlow : l.y ≤ v) (hhigh : v ≤ r.y) :
    l.x ≤ (Part.mk l r k).calcX v ∧ (Part.mk l r k).calcX v ≤ r.x + tolerance l r := by
  have htolerance : 0 ≤ tolerance l r := by
    unfold tolerance
    positivity
  have hleft : l.x ≤ l.x ∧ l.x ≤ r.x + tolerance l r := ⟨le_rfl, by linarith⟩
  unfold Part.calcX Part.left_x Part.left_y
  dsimp only
  cases hslope : Part.floatSlope l r with
  | none => exact hleft
  | some k =>
    dsimp only
    by_cases hk : k = 0
    · rw [if_pos hk]
      exact hleft
    rw [if_neg hk]
    obtain ⟨hne, hk⟩ := floatSlope_eq hslope hk
    have hwidth : 0 ≤ r.x - l.x := sub_nonneg.mpr hx
    have hX := (toFloat_nonneg hwidth).lt_of_ne' hne
    have hXle := toFloat_le (r.x - l.x)
    have hD := le_toFloat (v := r.y - l.y) (le_trans (by norm_num) hy)
    have hdle : toFloat (v - l.y) ≤ toFloat (r.y - l.y) := toFloat_mono (sub_le_sub_right hhigh _)
    have hd : 0 ≤ toFloat (v - l.y) := toFloat_nonneg (sub_nonneg.mpr hlow)
    have habsl := abs_le.mp hl.2
    have habsr := abs_le.mp hr
    rw [abs_of_nonneg hwidth] at hXle
    obtain ⟨hkpos, hquot⟩ := div_slope_le hX (by norm_num at habsl habsr hXle ⊢; linarith)
      (by norm_num at hD hy ⊢; linarith) hk hdle
    have hquot0 : 0 ≤ toFloat (v - l.y) / k := div_nonneg hd hkpos.le
    have hq := toFloat_nonneg hquot0
    have hqle := toFloat_le (toFloat (v - l.y) / k)
    rw [abs_of_nonneg hquot0] at hqle
    have hsum := toFloat_le (toFloat (toFloat (v - l.y) / k) + l.x)
    have habs := abs_add_le (toFloat (toFloat (v - l.y) / k)) l.x
    rw [abs_of_nonneg hq] at habs
    refine ⟨?_, ?_⟩
    · have hmono := toFloat_mono (le_add_of_nonneg_left (a := l.x) hq)
      rwa [hl.1] at hmono
    · have hle := le_abs_self r.x
      have hge := neg_abs_le l.x
      have hl0 := abs_nonneg l.x
      have hr0 := abs_nonneg r.x
      unfold tolerance
      norm_num at hXle hquot hqle hsum ⊢
      linarith

/-- The value of an end of a segment is found there. -/
theorem getX_end (h : d.MonotoneValues) (hab : [a, b] <:+: d.points) (hrises : Rises a b)
    (hp : p = a ∨ p = b) : (Part.new a b).getX p.y = some p.x := by
  obtain ⟨ha, hb⟩ := mem_of_neighbours hab
  have hmem : p ∈ d.points := hp.elim (fun heq => heq ▸ ha) fun heq => heq ▸ hb
  have hcheck : (Part.new a b).checkY p.y := by
    rw [checkY_iff, (ends_of_rises hrises).1, (ends_of_rises hrises).2]
    rcases hp with rfl | rfl
    · exact ⟨min_le_left _ _, le_max_left _ _⟩
    · exact ⟨min_le_right _ _, le_max_right _ _⟩
  have hends : ((Part.new a b).p_left = p ∨ (Part.new a b).p_right = p) ∧
      (Part.new a b).p_left ∈ d.points ∧ (Part.new a b).p_right ∈ d.points := by
    rcases Part.new_mem a b with ⟨hl, hr⟩ | ⟨hl, hr⟩
    · rw [hl, hr]
      exact ⟨hp.imp Eq.symm Eq.symm, ha, hb⟩
    · rw [hl, hr]
      exact ⟨hp.symm.imp Eq.symm Eq.symm, hb, ha⟩
  unfold Part.getX
  rw [if_neg (not_not.mpr hcheck)]
  by_cases hleft : p.y = (Part.new a b).left_y
  · rw [if_pos hleft, h.eq_of_y_eq hmem hends.2.1 hleft]
    rfl
  · have hright : (Part.new a b).p_right = p :=
      hends.1.resolve_left fun heq => hleft (congrArg Point.y heq).symm
    have hy : p.y = (Part.new a b).right_y := (congrArg Point.y hright).symm
    rw [if_neg hleft, if_pos hy, ← hright]
    rfl

/-- The value of a segment that rises is found inside of it, or hardly beyond its right end. -/
theorem getX_near {x : ℚ} (ha : IsCoordinate a.x) (hb : IsCoordinate b.x) (hrises : Rises a b)
    (hdiff : 1 / 2 ^ 60 ≤ |b.y - a.y|) (hget : (Part.new a b).getX v = some x) :
    min a.x b.x ≤ x ∧ x ≤ max a.x b.x + tolerance a b := by
  have hcheck : (Part.new a b).checkY v := by
    by_contra hnot
    rw [(getX_eq_none_iff _ _).mpr hnot] at hget
    cases hget
  obtain ⟨hlow, hhigh⟩ := (checkY_iff _ _).mp hcheck
  have htolerance : 0 ≤ tolerance a b := by
    unfold tolerance
    positivity
  have hends : (Part.new a b).left_x = min a.x b.x ∧ (Part.new a b).right_x = max a.x b.x :=
    ⟨Part.left_new a b, Part.right_new a b⟩
  have hle := min_le_max (a := a.x) (b := b.x)
  unfold Part.getX at hget
  rw [if_neg (not_not.mpr hcheck)] at hget
  split_ifs at hget
  · rw [← Option.some.inj hget, hends.1]
    exact ⟨le_rfl, by linarith⟩
  · rw [← Option.some.inj hget, hends.2]
    exact ⟨hle, by linarith⟩
  · rw [← Option.some.inj hget]
    unfold Rises at hrises
    split_ifs at hrises with hlt
    · rw [Part.new_of_lt hlt] at hlow hhigh ⊢
      rw [abs_sub_comm, abs_of_nonneg (sub_nonneg.mpr hrises)] at hdiff
      rw [min_eq_right hlt.le, max_eq_left hlt.le, tolerance, add_right_comm]
      exact calcX_near hb ha.2 hlt.le hdiff hlow hhigh
    · rw [Part.new_of_le (not_lt.mp hlt)] at hlow hhigh ⊢
      rw [abs_of_nonneg (sub_nonneg.mpr hrises)] at hdiff
      rw [min_eq_left (not_lt.mp hlt), max_eq_right (not_lt.mp hlt)]
      exact calcX_near ha hb.2 (not_lt.mp hlt) hdiff hlow hhigh

/-! ## The claim -/

theorem getRawValue_found {cal : Int} {x : ℚ}
    (h : (d.pvec.findSome? fun part => part.getX (toFloat cal)) = some x) (range : Bool) :
    d.getRawValue cal range = lround x := by
  unfold getRawValue
  rw [h]

/-- Where a value is that of an end of a segment, the end is found. -/
theorem found_end {x : ℚ} {r : Point} (h : d.MonotoneValues) (hpq : [p, q] <:+: d.points)
    (hr : r = p ∨ r = q) (hfound : (d.pvec.findSome? fun part => part.getX r.y) = some x) :
    x = r.x := by
  have hmem : r ∈ d.points := by
    obtain ⟨hp, hq⟩ := mem_of_neighbours hpq
    rcases hr with rfl | rfl
    · exact hp
    · exact hq
  obtain ⟨a, b, hab, hrises, hlow, hhigh, hget⟩ := exists_of_found hfound
  rw [getX_end h hab hrises (h.eq_end hab hmem hlow hhigh)] at hget
  exact (Option.some.inj hget).symm

theorem findsEnds (hfloats : d.OfFloats) (h : d.MonotoneValues) : d.FindsEnds := by
  intro p q hpq hrises r hr x y hx hy range
  obtain ⟨hp, hq⟩ := mem_of_neighbours hpq
  have hstored : toFloat y = r.y := by
    rw [← hy]
    rcases hr with rfl | rfl
    · exact (hfloats r hp).2.1
    · exact (hfloats r hq).2.1
  have hwithin : min p.y q.y ≤ r.y ∧ r.y ≤ max p.y q.y := by
    rcases hr with rfl | rfl
    · exact ⟨min_le_left _ _, le_max_left _ _⟩
    · exact ⟨min_le_right _ _, le_max_right _ _⟩
  obtain ⟨x', hfound⟩ := exists_found hpq hrises hwithin.1 hwithin.2
  have hend := found_end h hpq hr hfound
  rw [← hstored] at hfound
  rw [getRawValue_found hfound, hend, hx, lround_intCast]

theorem findsNear (hfloats : d.OfFloats) (h : d.MonotoneValues) : d.FindsNear := by
  intro p q hpq hrises hdiff cal hlow hhigh range
  obtain ⟨hp, hq⟩ := mem_of_neighbours hpq
  -- the value that is stored may be that of an end
  have hstored : min p.y q.y ≤ toFloat cal ∧ toFloat cal ≤ max p.y q.y := by
    have hmin := toFloat_mono hlow.le
    have hmax := toFloat_mono hhigh.le
    rw [toFloat_mono.map_min, (hfloats p hp).2.1, (hfloats q hq).2.1] at hmin
    rw [toFloat_mono.map_max, (hfloats p hp).2.1, (hfloats q hq).2.1] at hmax
    exact ⟨hmin, hmax⟩
  have htolerance : 0 ≤ tolerance p q := by
    unfold tolerance
    positivity
  obtain ⟨x, hfound⟩ := exists_found hpq hrises hstored.1 hstored.2
  have hx : min p.x q.x ≤ x ∧ x ≤ max p.x q.x + tolerance p q := by
    by_cases hend : toFloat cal = p.y ∨ toFloat cal = q.y
    · obtain ⟨r, hr, hy⟩ : ∃ r, (r = p ∨ r = q) ∧ toFloat cal = r.y :=
        hend.elim (fun hy => ⟨p, .inl rfl, hy⟩) fun hy => ⟨q, .inr rfl, hy⟩
      rw [hy] at hfound
      rw [found_end h hpq hr hfound]
      rcases hr with rfl | rfl
      · exact ⟨min_le_left _ _, (le_max_left _ _).trans (le_add_of_nonneg_right htolerance)⟩
      · exact ⟨min_le_right _ _, (le_max_right _ _).trans (le_add_of_nonneg_right htolerance)⟩
    · rw [not_or] at hend
      obtain ⟨a, b, hab, hrises', hlow', hhigh', hget⟩ := exists_of_found hfound
      have hinside : min p.y q.y < toFloat cal ∧ toFloat cal < max p.y q.y := by
        refine ⟨hstored.1.lt_of_ne fun heq => ?_, hstored.2.lt_of_ne fun heq => ?_⟩
        · rcases min_choice p.y q.y with hmin | hmin
          · exact hend.1 (heq.symm.trans hmin)
          · exact hend.2 (heq.symm.trans hmin)
        · rcases max_choice p.y q.y with hmax | hmax
          · exact hend.1 (heq.trans hmax)
          · exact hend.2 (heq.trans hmax)
      obtain ⟨rfl, rfl⟩ := h.neighbours hpq hab hinside.1 hinside.2 hlow' hhigh'
      exact getX_near (hfloats a hp).1 (hfloats b hq).1 hrises' hdiff hget
  have hround := abs_le.mp (abs_lround_sub x)
  rw [getRawValue_found hfound]
  constructor
  · linarith
  · linarith

/-- A diagram whose values are in order is inverted on its segments that rise, as far as the numbers
are not rounded. -/
theorem getRawValue_inverts (d : Calibration) (hfloats : d.OfFloats) (h : d.MonotoneValues) :
    d.FindsEnds ∧ d.FindsNear := ⟨findsEnds hfloats h, findsNear hfloats h⟩

/-- Down from 200 to 100, with the raw values; and to 0, against them. -/
def bent : Calibration where
  points := [⟨30, 200⟩, ⟨10, 100⟩, ⟨20, 0⟩]
  pvec := [.new ⟨10, 100⟩ ⟨20, 0⟩, .new ⟨30, 200⟩ ⟨10, 100⟩]
  accepted := List.cons_ne_nil _ _
  coords := by
    unfold InLong
    simp only [List.mem_cons, List.not_mem_nil, or_false, forall_eq_or_imp, forall_eq]
    norm_num
  perm := .swap _ _ _
  sorted := by
    rw [List.pairwise_pair]
    norm_num [Part.right_x, Part.new]

/-- The value of an end is read exactly, that of the middle near to it. -/
theorem getRawValue_inverts_bent : (∀ range, bent.getRawValue 100 range = 10) ∧ ∀ range,
    10 - 1 / 2 ≤ (bent.getRawValue 150 range : ℚ) ∧
      (bent.getRawValue 150 range : ℚ) ≤ 30 + 41 / 2 ^ 20 + 1 / 2 := by
  have hfloats : bent.OfFloats := by
    unfold OfFloats IsCoordinate
    decide +kernel
  have hmono : bent.MonotoneValues := by
    right
    change List.Pairwise (fun p q : Point => q.y < p.y) [⟨30, 200⟩, ⟨10, 100⟩, ⟨20, 0⟩]
    norm_num
  obtain ⟨hends, hnear⟩ := getRawValue_inverts bent hfloats hmono
  have hpq : [⟨30, 200⟩, ⟨10, 100⟩] <:+: bent.points := ⟨[], [⟨20, 0⟩], rfl⟩
  have hrises : Rises ⟨30, 200⟩ ⟨10, 100⟩ := by norm_num [Rises]
  refine ⟨hends _ _ hpq hrises _ (.inr rfl) 10 100 rfl rfl, fun range => ?_⟩
  have hraw := hnear _ _ hpq hrises (by norm_num) 150 (by norm_num) (by norm_num) range
  norm_num [tolerance] at hraw ⊢
  exact hraw

/-- From 0 to 10 between two raw values that have no integer between them. -/
def steep : Calibration where
  points := [⟨5 / 8, 0⟩, ⟨7 / 8, 10⟩]
  pvec := [.new ⟨5 / 8, 0⟩ ⟨7 / 8, 10⟩]
  accepted := List.cons_ne_nil _ _
  coords := by
    unfold InLong
    simp only [List.mem_cons, List.not_mem_nil, or_false, forall_eq_or_imp, forall_eq]
    norm_num
  perm := .refl _
  sorted := List.pairwise_singleton _ _

/-- The raw value of the middle is rounded to 1. -/
theorem not_findsBetween_steep : steep.OfFloats ∧ steep.MonotoneValues ∧ ¬steep.FindsBetween := by
  refine ⟨by unfold OfFloats IsCoordinate; decide +kernel, .inl ?_, fun hfinds => ?_⟩
  · change List.Pairwise (fun p q : Point => p.y < q.y) [⟨5 / 8, 0⟩, ⟨7 / 8, 10⟩]
    simp
  · have hraw : steep.getRawValue 5 false = 1 := by decide +kernel
    have hle := (hfinds _ _ (List.infix_refl _) 5 (by norm_num) (by norm_num) false).2
    rw [hraw] at hle
    norm_num at hle

end Calibration

end Uniset.Extensions
