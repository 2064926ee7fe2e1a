import Uniset.Extensions.Calibration

/-! The cache of a calibration diagram does not change the values. -/

namespace Uniset.Extensions

open Uniset.Lib

/-! ## The diagram -/

namespace Part

theorem new_of_le {p q : Point} (h : p.x ≤ q.x) : new p q = ⟨p, q, slope p q⟩ := if_neg (not_lt.mpr h)

theorem new_mem (p q : Point) : ((new p q).p_left = p ∧ (new p q).p_right = q) ∨
    ((new p q).p_left = q ∧ (new p q).p_right = p) := by
  unfold new
  split_ifs
  · exact .inr ⟨rfl, rfl⟩
  · exact .inl ⟨rfl, rfl⟩

end Part

/-- A segment is between two neighbouring points. -/
theorem mem_parts {points : List Point} {part : Part} (h : part ∈ parts points) :
    ∃ p q, [p, q] <:+: points ∧ part = .new p q := by
  induction points with
  | nil => exact absurd h List.not_mem_nil
  | cons p points ih =>
    cases points with
    | nil => exact absurd h List.not_mem_nil
    | cons q points =>
      rcases List.mem_cons.mp h with rfl | hrest
      · exact ⟨p, q, ⟨[], points, rfl⟩, rfl⟩
      · obtain ⟨a, b, hab, rfl⟩ := ih hrest
        exact ⟨a, b, hab.trans (List.suffix_cons p _).isInfix, rfl⟩

namespace Calibration

variable (d : Calibration)

theorem mem_pvec {d : Calibration} {part : Part} (h : part ∈ d.pvec) :
    ∃ p q, [p, q] <:+: d.points ∧ part = .new p q := mem_parts (d.perm.mem_iff.mp h)

theorem right_mem {d : Calibration} {part : Part} (h : part ∈ d.pvec) :
    part.p_right ∈ d.points := by
  obtain ⟨p, q, hpq, rfl⟩ := mem_pvec h
  have hp : p ∈ d.points := hpq.subset List.mem_cons_self
  have hq : q ∈ d.points := hpq.subset (List.mem_cons_of_mem _ List.mem_cons_self)
  rcases Part.new_mem p q with hnew | hnew
  · exact hnew.2.symm ▸ hq
  · exact hnew.2.symm ▸ hp

/-- No raw value in the range is that of an unused entry. -/
theorem rightRaw_lt : d.rightRaw < outOfRange := by
  unfold rightRaw
  cases hlast : d.pvec.getLast? with
  | none => exact of_decide_eq_true rfl
  | some part =>
    have hmem := List.mem_of_getLast? hlast
    have hlong := (d.coords _ (right_mem hmem)).1.2
    have hle : truncate part.right_x ≤ 9223372036854775806 :=
      truncate_le_of_le (hlong.trans_eq (by norm_num))
    exact Int.lt_of_le_of_lt hle (of_decide_eq_true rfl)

theorem find_range_beg {pvec : List Part} {raw : ℚ} {fuel beg last : Nat} {b : Part}
    (hb : pvec[beg]? = some b) (hcheck : b.checkX raw) :
    find_range pvec raw (fuel + 1) beg last = some b := by
  unfold find_range
  rw [hb]
  exact if_pos hcheck

/-- What is found with some fuel is found with more. -/
theorem find_range_succ {pvec : List Part} {raw : ℚ} {fuel beg last : Nat} {fit : Part}
    (h : find_range pvec raw fuel beg last = some fit) :
    find_range pvec raw (fuel + 1) beg last = some fit := by
  induction fuel generalizing beg last with
  | zero => cases h
  | succ fuel ih =>
    unfold find_range at h ⊢
    simp only [Option.bind_eq_bind, Option.bind_eq_some_iff] at h ⊢
    obtain ⟨b, hb, h⟩ := h
    refine ⟨b, hb, ?_⟩
    by_cases hbeg : b.checkX raw
    · rw [if_pos hbeg] at h ⊢
      exact h
    rw [if_neg hbeg, Option.bind_eq_some_iff] at h ⊢
    obtain ⟨e, he, h⟩ := h
    refine ⟨e, he, ?_⟩
    by_cases hend : e.checkX raw
    · rw [if_pos hend] at h ⊢
      exact h
    rw [if_neg hend, Option.bind_eq_some_iff] at h ⊢
    obtain ⟨it, hit, h⟩ := h
    refine ⟨it, hit, ?_⟩
    split_ifs at h ⊢
    · exact ih h
    · exact ih h
    · exact h

theorem find_range_mono {pvec : List Part} {raw : ℚ} {fuel more beg last : Nat} {fit : Part}
    (hle : fuel ≤ more) (h : find_range pvec raw fuel beg last = some fit) :
    find_range pvec raw more beg last = some fit := by
  induction more, hle using Nat.le_induction with
  | base => exact h
  | succ more _ ih => exact find_range_succ ih

/-- The search comes to an end with the value. -/
def Finds (raw val : Int) : Prop :=
  ∃ fuel fit, find_range d.pvec raw fuel 0 (d.pvec.length - 1) = some fit ∧ val = valueOf fit raw

theorem Finds.unique {d : Calibration} {raw val val' : Int} (h : d.Finds raw val)
    (h' : d.Finds raw val') : val = val' := by
  obtain ⟨fuel, fit, hfit, rfl⟩ := h
  obtain ⟨fuel', fit', hfit', rfl⟩ := h'
  have heq := (find_range_mono (Nat.le_max_left fuel fuel') hfit).symm.trans
    (find_range_mono (Nat.le_max_right fuel fuel') hfit')
  rw [Option.some.inj heq]

end Calibration

/-! ## The entries -/

namespace CacheInfo

variable {c r : CacheInfo}

theorem before_of_used (hc : c.raw ≠ outOfRange) (hr : r.raw ≠ outOfRange) :
    c.before r = true ↔ r.cnt < c.cnt := by
  unfold before
  rw [if_neg hr, if_neg hc, decide_eq_true_iff]

/-- Nothing can be after an entry that is after an unused one, but another unused one. -/
theorem before_of_unused (hc : c.raw = outOfRange) : c.before r = true ↔ r.raw = outOfRange := by
  unfold before
  split_ifs with hr
  · exact iff_of_true rfl hr
  · exact iff_of_false id hr

theorem before_unused (c : CacheInfo) (hr : r.raw = outOfRange) : c.before r = true := if_pos hr

theorem before_trans {a b c : CacheInfo} (hab : a.before b = true) (hbc : b.before c = true) :
    a.before c = true := by
  by_cases hc : c.raw = outOfRange
  · exact before_unused a hc
  have hb : b.raw ≠ outOfRange := fun hb => hc ((before_of_unused hb).mp hbc)
  have ha : a.raw ≠ outOfRange := fun ha => hb ((before_of_unused ha).mp hab)
  rw [before_of_used ha hb] at hab
  rw [before_of_used hb hc] at hbc
  exact (before_of_used ha hc).mpr (hbc.trans hab)

/-- Two entries of which none is before the other are both used, and as often. -/
theorem not_before_iff : ¬c.before r = true ∧ ¬r.before c = true ↔
    c.raw ≠ outOfRange ∧ r.raw ≠ outOfRange ∧ c.cnt = r.cnt := by
  constructor
  · rintro ⟨hcr, hrc⟩
    have hr : r.raw ≠ outOfRange := fun hr => hcr (before_unused c hr)
    have hc : c.raw ≠ outOfRange := fun hc => hrc (before_unused r hc)
    rw [before_of_used hc hr] at hcr
    rw [before_of_used hr hc] at hrc
    exact ⟨hc, hr, by omega⟩
  · rintro ⟨hc, hr, hcnt⟩
    rw [before_of_used hc hr, before_of_used hr hc]
    omega

/-- The order of the cache is a strict weak order on entries if and only if all of them are used: it is
always transitive, and so is what is incomparable, but an unused entry is before itself. -/
theorem before_isStrictWeakOrder_iff (cache : List CacheInfo) :
    IsStrictWeakOrder {c // c ∈ cache} (fun c r => c.1.before r.1 = true) ↔
      ∀ c ∈ cache, c.raw ≠ outOfRange := by
  constructor
  · intro horder c hc hraw
    exact horder.irrefl ⟨c, hc⟩ (before_unused c hraw)
  · intro hused
    refine { irrefl := ?_, trans := ?_, incomp_trans := ?_ }
    · rintro ⟨c, hc⟩ hbefore
      exact absurd ((before_of_used (hused c hc) (hused c hc)).mp hbefore) (Nat.lt_irrefl _)
    · exact fun _ _ _ => before_trans
    · rintro a b c hab hbc
      obtain ⟨ha, -, hfirst⟩ := not_before_iff.mp hab
      obtain ⟨-, hc, hlast⟩ := not_before_iff.mp hbc
      exact not_before_iff.mpr ⟨ha, hc, hfirst.trans hlast⟩

/-- The cache that every diagram begins with has five unused entries. -/
theorem not_before_isStrictWeakOrder_new : ¬ IsStrictWeakOrder {c // c ∈ ValueCache.new.cache}
    (fun c r => c.1.before r.1 = true) := fun horder =>
  horder.irrefl ⟨unused, by decide⟩ rfl

end CacheInfo

namespace ValueCache

theorem insertEntry_perm (sorted : List CacheInfo) (c : CacheInfo) :
    (insertEntry sorted c).Perm (c :: sorted) := by
  unfold insertEntry
  split_ifs
  · exact .refl _
  · refine List.perm_middle.trans (.cons c ?_)
    rw [← List.reverse_append, List.takeWhile_append_dropWhile, List.reverse_reverse]

theorem foldl_insertEntry_perm (cache sorted : List CacheInfo) :
    (cache.foldl insertEntry sorted).Perm (cache ++ sorted) := by
  induction cache generalizing sorted with
  | nil => exact .refl _
  | cons c cache ih =>
    have hinsert := (insertEntry_perm sorted c).append_left cache
    exact (ih _).trans (hinsert.trans List.perm_middle)

theorem sort_perm {cache sorted : List CacheInfo} (h : sort cache = some sorted) :
    sorted.Perm cache := by
  unfold sort at h
  split_ifs at h
  have hperm := foldl_insertEntry_perm cache []
  rw [List.append_nil, Option.some.inj h] at hperm
  exact hperm

theorem sort_isSome_iff {cache : List CacheInfo} : (∃ sorted, sort cache = some sorted) ↔
    cache.length ≤ 16 ∨ ∀ c ∈ cache, c.raw ≠ outOfRange := by
  unfold sort
  split_ifs with hcan
  · exact iff_of_true ⟨_, rfl⟩ hcan
  · exact iff_of_false (fun ⟨_, h⟩ => by cases h) hcan

/-- The entry that is found, and what is left of the others. -/
theorem find_some {raw val : Int} {cache cache' : List CacheInfo}
    (h : find raw cache = some (val, cache')) :
    (∃ c ∈ cache, c.raw = raw ∧ c.val = val) ∧
      cache'.map (fun c => (c.raw, c.val)) = cache.map fun c => (c.raw, c.val) := by
  induction cache generalizing cache' with
  | nil => cases h
  | cons c cache ih =>
    unfold find at h
    by_cases hraw : c.raw = raw
    · rw [if_pos hraw] at h
      cases h
      exact ⟨⟨c, List.mem_cons_self, hraw, rfl⟩, rfl⟩
    · rw [if_neg hraw, Option.map_eq_some_iff] at h
      obtain ⟨⟨val', rest⟩, hrest, heq⟩ := h
      cases heq
      obtain ⟨⟨c', hc', hfound⟩, hmap⟩ := ih hrest
      exact ⟨⟨c', List.mem_cons_of_mem _ hc', hfound⟩, congrArg (List.cons (c.raw, c.val)) hmap⟩

theorem find_eq_none {raw : Int} {cache : List CacheInfo} (h : find raw cache = none) :
    ∀ c ∈ cache, c.raw ≠ raw := by
  induction cache with
  | nil => exact fun c hc => absurd hc List.not_mem_nil
  | cons c cache ih =>
    unfold find at h
    by_cases hraw : c.raw = raw
    · rw [if_pos hraw] at h
      cases h
    · rw [if_neg hraw, Option.map_eq_none_iff] at h
      exact List.forall_mem_cons.mpr ⟨hraw, ih h⟩

theorem find_some_mem {raw val : Int} {cache cache' : List CacheInfo}
    (h : find raw cache = some (val, cache')) {c : CacheInfo} (hc : c ∈ cache') :
    ∃ c' ∈ cache, c'.raw = c.raw ∧ c'.val = c.val := by
  have hmem := List.mem_map_of_mem (f := fun c : CacheInfo => (c.raw, c.val)) hc
  rw [(find_some h).2, List.mem_map] at hmem
  obtain ⟨c', hc', heq⟩ := hmem
  exact ⟨c', hc', congrArg Prod.fst heq, congrArg Prod.snd heq⟩

theorem find_some_length {raw val : Int} {cache cache' : List CacheInfo}
    (h : find raw cache = some (val, cache')) : cache'.length = cache.length := by
  have hlength := congrArg List.length (find_some h).2
  rwa [List.length_map, List.length_map] at hlength

end ValueCache

/-! ## One call -/

inductive CacheOp
  | getValue (raw : Int) (crop_raw : Bool)
  | setCacheSize (sz : Nat)
  | setCacheResortCycle (n : Nat)

namespace Calibration

variable {d : Calibration} {s s' : ValueCache} {raw val : Int} {crop : Bool}

/-- An operation, with the fuel it takes. -/
def step (d : Calibration) (s : ValueCache) (op : Nat × CacheOp) : Option ValueCache :=
  match op.2 with
  | .getValue raw crop => (d.getValue op.1 s raw crop).map Prod.snd
  | .setCacheSize sz => s.setCacheSize sz
  | .setCacheResortCycle n => some (s.setCacheResortCycle n)

/-- What the operation sorts has 16 entries at most, or no unused one. -/
def CanSort (s : ValueCache) (op : CacheOp) : Prop := s.cache.length ≤ 16 ∨
  match op with
  | .getValue raw _ => (∀ c ∈ s.cache.dropLast, c.raw ≠ outOfRange) ∧
    ((∃ c ∈ s.cache, c.raw = raw) → ∀ c ∈ s.cache, c.raw ≠ outOfRange)
  | .setCacheSize _ => ∀ c ∈ s.cache, c.raw ≠ outOfRange
  | .setCacheResortCycle _ => True

/-- The value with a cache. -/
def Returns (d : Calibration) (s : ValueCache) (raw : Int) (crop : Bool) (val : Int) : Prop :=
  ∃ fuel s', d.getValue fuel s raw crop = some (val, s')

/-- The value without a cache. -/
def Plain (d : Calibration) (raw : Int) (crop : Bool) (val : Int) : Prop :=
  if raw < d.leftRaw then val = if crop then d.leftVal else outOfRange
  else if d.rightRaw < raw then val = if crop then d.rightVal else outOfRange
  else d.Finds raw val

theorem plain_left (h : raw < d.leftRaw) :
    d.Plain raw crop val ↔ val = if crop then d.leftVal else outOfRange := by
  rw [Plain, if_pos h]

theorem plain_right (hleft : ¬raw < d.leftRaw) (h : d.rightRaw < raw) :
    d.Plain raw crop val ↔ val = if crop then d.rightVal else outOfRange := by
  rw [Plain, if_neg hleft, if_pos h]

theorem plain_inside (hleft : ¬raw < d.leftRaw) (hright : ¬d.rightRaw < raw) :
    d.Plain raw crop val ↔ d.Finds raw val := by
  rw [Plain, if_neg hleft, if_neg hright]

/-- An entry is unused, or has the value that is found for it. -/
def Holds (d : Calibration) (c : CacheInfo) : Prop := c.raw = outOfRange ∨ d.Finds c.raw c.val

/-- Every entry of the cache is right. -/
structure Sound (d : Calibration) (s : ValueCache) : Prop where
  size : s.cache.length = s.szCache
  holds : ∀ c ∈ s.cache, d.Holds c

/-- The entry for a raw value in the range, if there is one. -/
def hit (s : ValueCache) (raw : Int) : Option (Int × List CacheInfo) :=
  if s.szCache ≠ 0 then ValueCache.find raw s.cache else none

theorem getValue_inside (hleft : ¬raw < d.leftRaw) (hright : ¬d.rightRaw < raw) (fuel : Nat)
    (s : ValueCache) (crop : Bool) : d.getValue fuel s raw crop =
      match hit s raw with
      | some (val, cache) =>
        let numCallToCache := (s.numCallToCache + 18446744073709551615) % 18446744073709551616
        if numCallToCache ≠ 0 then some (val, { s with cache, numCallToCache })
        else do
          let cache ← ValueCache.sort cache
          return (val, { s with cache, numCallToCache := s.numCacheResort })
      | none => do
        let fit ← find_range d.pvec raw fuel 0 (d.pvec.length - 1)
        if s.szCache ≠ 0 then
          let s ← s.insertToCache raw (valueOf fit raw)
          return (valueOf fit raw, s)
        else return (valueOf fit raw, s) := by
  unfold getValue
  rw [if_neg hleft, if_neg hright]
  rfl

theorem hit_eq_some {val : Int} {cache : List CacheInfo} (h : hit s raw = some (val, cache)) :
    ValueCache.find raw s.cache = some (val, cache) := by
  unfold hit at h
  split_ifs at h
  exact h

/-- What is stored for a raw value in the range is what is found for it. -/
theorem Sound.finds (h : d.Sound s) (hright : ¬d.rightRaw < raw) {val : Int}
    {cache : List CacheInfo} (hhit : hit s raw = some (val, cache)) : d.Finds raw val := by
  obtain ⟨⟨c, hc, hraw, hval⟩, -⟩ := ValueCache.find_some (hit_eq_some hhit)
  have hused : c.raw ≠ outOfRange := by
    have hlt := rightRaw_lt d
    omega
  rw [← hraw, ← hval]
  exact (h.holds c hc).resolve_left hused

theorem canSort_find {cache : List CacheInfo} (hsort : CanSort s (.getValue raw crop))
    (hhit : hit s raw = some (val, cache)) : ∃ sorted, ValueCache.sort cache = some sorted := by
  have hfind := hit_eq_some hhit
  obtain ⟨⟨c, hc, hraw, -⟩, -⟩ := ValueCache.find_some hfind
  rw [ValueCache.sort_isSome_iff, ValueCache.find_some_length hfind]
  refine hsort.imp_right fun hused c' hc' => ?_
  obtain ⟨c'', hc'', hsame, -⟩ := ValueCache.find_some_mem hfind hc'
  rw [← hsame]
  exact hused.2 ⟨c, hc, hraw⟩ c'' hc''

theorem canSort_insert (hright : ¬d.rightRaw < raw) (hsort : CanSort s (.getValue raw crop))
    (val : Int) :
    ∃ s', s.insertToCache raw val = some s' := by
  have hcan : ∃ sorted, ValueCache.sort (s.cache.dropLast ++ [⟨val, raw, 0⟩]) = some sorted := by
    rw [ValueCache.sort_isSome_iff]
    rcases hsort with hlength | hused
    · left
      rw [List.length_append, List.length_dropLast, List.length_singleton]
      omega
    · refine .inr fun c hc => ?_
      rcases List.mem_append.mp hc with hold | hnew
      · exact hused.1 c hold
      · have hlt := rightRaw_lt d
        rw [List.mem_singleton.mp hnew]
        exact ne_of_lt (lt_of_le_of_lt (not_lt.mp hright) hlt)
  obtain ⟨sorted, hsorted⟩ := hcan
  refine ⟨{ s with cache := sorted }, ?_⟩
  unfold ValueCache.insertToCache
  rw [hsorted]
  rfl

/-- A cache whose entries are right changes no value. -/
theorem Sound.returns_iff (h : d.Sound s) (hsort : CanSort s (.getValue raw crop)) :
    d.Returns s raw crop val ↔ d.Plain raw crop val := by
  unfold Returns Plain
  by_cases hleft : raw < d.leftRaw
  · rw [if_pos hleft]
    unfold getValue
    simp only [if_pos hleft, Option.some.injEq, Prod.mk.injEq]
    exact ⟨fun ⟨_, _, hval, _⟩ => hval.symm, fun hval => ⟨0, s, hval.symm, rfl⟩⟩
  by_cases hright : d.rightRaw < raw
  · rw [if_neg hleft, if_pos hright]
    unfold getValue
    simp only [if_neg hleft, if_pos hright, Option.some.injEq, Prod.mk.injEq]
    exact ⟨fun ⟨_, _, hval, _⟩ => hval.symm, fun hval => ⟨0, s, hval.symm, rfl⟩⟩
  rw [if_neg hleft, if_neg hright]
  simp only [getValue_inside hleft hright]
  cases hhit : hit s raw with
  | some found =>
    obtain ⟨val', cache⟩ := found
    have hfinds := h.finds hright hhit
    obtain ⟨sorted, hsorted⟩ := canSort_find hsort hhit
    dsimp only
    constructor
    · rintro ⟨fuel, s', hget⟩
      split_ifs at hget
      · cases hget
        exact hfinds
      · rw [hsorted] at hget
        cases hget
        exact hfinds
    · intro hval
      rw [hval.unique hfinds]
      split_ifs
      · exact ⟨0, _, rfl⟩
      · rw [hsorted]
        exact ⟨0, _, rfl⟩
  | none =>
    dsimp only
    constructor
    · rintro ⟨fuel, s', hget⟩
      simp only [Option.bind_eq_bind, Option.bind_eq_some_iff] at hget
      obtain ⟨fit, hfit, hget⟩ := hget
      refine ⟨fuel, fit, hfit, ?_⟩
      split_ifs at hget
      · rw [Option.bind_eq_some_iff] at hget
        obtain ⟨s'', -, heq⟩ := hget
        cases heq
        rfl
      · cases hget
        rfl
    · rintro ⟨fuel, fit, hfit, rfl⟩
      refine ⟨fuel, ?_⟩
      rw [hfit]
      by_cases hsize : s.szCache ≠ 0
      · obtain ⟨s', hs'⟩ := canSort_insert hright hsort (valueOf fit raw)
        refine ⟨s', ?_⟩
        simp only [Option.bind_eq_bind, Option.bind_some, if_pos hsize, hs']
        rfl
      · refine ⟨s, ?_⟩
        simp only [Option.bind_eq_bind, Option.bind_some, if_neg hsize]
        rfl

/-! ## Runs -/

theorem sound_new (d : Calibration) : d.Sound .new :=
  ⟨rfl, fun _ hc => .inl (List.eq_of_mem_replicate hc ▸ rfl)⟩

theorem Sound.of_perm (h : d.Sound s) {cache : List CacheInfo} (hperm : cache.Perm s.cache)
    (numCacheResort numCallToCache : Nat) :
    d.Sound { s with cache, numCacheResort, numCallToCache } :=
  ⟨hperm.length_eq.trans h.size, fun c hc => h.holds c (hperm.mem_iff.mp hc)⟩

/-- Counting an entry changes no value. -/
theorem Sound.of_hit (h : d.Sound s) {cache : List CacheInfo}
    (hhit : hit s raw = some (val, cache)) : d.Sound { s with cache } := by
  have hfind := hit_eq_some hhit
  refine ⟨(ValueCache.find_some_length hfind).trans h.size, fun c hc => ?_⟩
  obtain ⟨c', hc', hraw, hval⟩ := ValueCache.find_some_mem hfind hc
  unfold Holds
  rw [← hraw, ← hval]
  exact h.holds c' hc'

theorem Sound.insertToCache (h : d.Sound s) (hsize : s.szCache ≠ 0) (hfinds : d.Finds raw val)
    (hs' : s.insertToCache raw val = some s') : d.Sound s' := by
  unfold ValueCache.insertToCache at hs'
  simp only [Option.bind_eq_bind, Option.bind_eq_some_iff] at hs'
  obtain ⟨cache, hsorted, heq⟩ := hs'
  cases heq
  have hperm := ValueCache.sort_perm hsorted
  refine ⟨?_, fun c hc => ?_⟩
  · have hlength := hperm.length_eq
    have hpos := h.size
    rw [List.length_append, List.length_dropLast, List.length_singleton] at hlength
    change cache.length = s.szCache
    omega
  · rcases List.mem_append.mp (hperm.mem_iff.mp hc) with hold | hnew
    · exact h.holds c ((List.dropLast_sublist _).subset hold)
    · rw [List.mem_singleton.mp hnew]
      exact .inr hfinds

theorem Sound.getValue (h : d.Sound s) {fuel : Nat}
    (hget : d.getValue fuel s raw crop = some (val, s')) : d.Sound s' := by
  by_cases hleft : raw < d.leftRaw
  · unfold Calibration.getValue at hget
    rw [if_pos hleft] at hget
    cases hget
    exact h
  by_cases hright : d.rightRaw < raw
  · unfold Calibration.getValue at hget
    rw [if_neg hleft, if_pos hright] at hget
    cases hget
    exact h
  rw [getValue_inside hleft hright] at hget
  cases hhit : hit s raw with
  | some found =>
    obtain ⟨val', cache⟩ := found
    rw [hhit] at hget
    have hsound := h.of_hit hhit
    dsimp only at hget
    split_ifs at hget
    · cases hget
      exact ⟨hsound.size, hsound.holds⟩
    · simp only [Option.bind_eq_bind, Option.bind_eq_some_iff] at hget
      obtain ⟨sorted, hsorted, heq⟩ := hget
      cases heq
      exact hsound.of_perm (ValueCache.sort_perm hsorted) _ _
  | none =>
    rw [hhit] at hget
    simp only [Option.bind_eq_bind, Option.bind_eq_some_iff] at hget
    obtain ⟨fit, hfit, hget⟩ := hget
    split_ifs at hget with hsize
    · rw [Option.bind_eq_some_iff] at hget
      obtain ⟨s'', hinsert, heq⟩ := hget
      cases heq
      exact h.insertToCache hsize ⟨fuel, fit, hfit, rfl⟩ hinsert
    · cases hget
      exact h

theorem Sound.setCacheSize (h : d.Sound s) {sz : Nat} (hs' : s.setCacheSize sz = some s') :
    d.Sound s' := by
  unfold ValueCache.setCacheSize at hs'
  simp only [Option.bind_eq_bind, Option.bind_eq_some_iff] at hs'
  obtain ⟨cache, hsorted, heq⟩ := hs'
  cases heq
  refine ⟨?_, fun c hc => ?_⟩
  · dsimp only
    rw [List.length_append, List.length_take, List.length_replicate]
    omega
  · rcases List.mem_append.mp hc with hold | hnew
    · exact h.holds c ((ValueCache.sort_perm hsorted).mem_iff.mp (List.mem_of_mem_take hold))
    · exact .inl (List.eq_of_mem_replicate hnew ▸ rfl)

theorem Sound.step (h : d.Sound s) {op : Nat × CacheOp} (hs' : d.step s op = some s') :
    d.Sound s' := by
  obtain ⟨fuel, op⟩ := op
  cases op with
  | getValue raw crop =>
    simp only [Calibration.step, Option.map_eq_some_iff] at hs'
    obtain ⟨⟨val, s''⟩, hget, rfl⟩ := hs'
    exact h.getValue hget
  | setCacheSize sz => exact h.setCacheSize hs'
  | setCacheResortCycle n =>
    cases hs'
    exact ⟨h.size, h.holds⟩

/-- The cache is right in every state that a calibration diagram reaches. -/
theorem Sound.of_reaches {G : ValueCache → Nat × CacheOp → Prop} (h : Reaches d.step G .new s) :
    d.Sound s :=
  h.invariant (fun hsound _ hstep => hsound.step hstep) (sound_new d)

end Calibration

/-- The cache when it is disabled. -/
def ValueCache.disabled (s : ValueCache) : ValueCache := { s with szCache := 0, cache := [] }

namespace Calibration

theorem sound_disabled (d : Calibration) (s : ValueCache) : d.Sound s.disabled :=
  ⟨rfl, fun _ hc => absurd hc List.not_mem_nil⟩

/-- After any run of calls that sort at most 16 entries or none that is unused, and changes of the
cache, a call that does so too returns what it returns without a cache. -/
theorem getValue_cached_iff (d : Calibration) {s : ValueCache}
    (hrun : Reaches d.step (fun s op => CanSort s op.2) .new s) (raw : Int) (crop : Bool)
    (hsort : CanSort s (.getValue raw crop)) (val : Int) :
    d.Returns s raw crop val ↔ d.Returns s.disabled raw crop val := by
  rw [(Sound.of_reaches hrun).returns_iff hsort,
    (sound_disabled d s).returns_iff (.inl (Nat.zero_le _))]

/-- The line from 0 to 10. -/
def line : Calibration where
  points := [⟨0, 0⟩, ⟨10, 10⟩]
  pvec := [.new ⟨0, 0⟩ ⟨10, 10⟩]
  accepted := List.cons_ne_nil _ _
  coords := by
    unfold InLong
    simp only [List.mem_cons, List.not_mem_nil, or_false, forall_eq_or_imp, forall_eq]
    norm_num
  perm := .refl _
  sorted := List.pairwise_singleton _ _

instance : (s : ValueCache) → (op : CacheOp) → Decidable (CanSort s op)
  | s, .getValue raw _ => inferInstanceAs (Decidable (_ ∨
      (∀ c ∈ s.cache.dropLast, c.raw ≠ outOfRange) ∧
        ((∃ c ∈ s.cache, c.raw = raw) → ∀ c ∈ s.cache, c.raw ≠ outOfRange)))
  | s, .setCacheSize _ => inferInstanceAs (Decidable (_ ∨ ∀ c ∈ s.cache, c.raw ≠ outOfRange))
  | _, .setCacheResortCycle _ => inferInstanceAs (Decidable (_ ∨ True))

/-- Two entries that are sorted anew at every second hit: 7 and 0 are stored, 0 is hit twice, and 5
takes the place of 7. -/
def hits : List (Nat × CacheOp) :=
  [(0, .setCacheSize 2), (0, .setCacheResortCycle 2), (1, .getValue 7 false), (1, .getValue 0 true),
    (1, .getValue 0 false), (1, .getValue 0 false), (1, .getValue 5 true)]

def afterHits : ValueCache := ⟨2, [⟨0, 0, 2⟩, ⟨5, 5, 0⟩], 2, 2⟩

theorem reaches_afterHits : Reaches line.step (fun s op => CanSort s op.2) .new afterHits :=
  .of_checked (by decide +kernel : hits.foldlM (checkedStep line.step _) .new = some afterHits)

/-- One value is in the cache, the other is not any more. -/
theorem getValue_cached_line :
    (line.Returns afterHits 5 false 5 ↔ line.Returns afterHits.disabled 5 false 5) ∧
      (line.Returns afterHits 7 true 7 ↔ line.Returns afterHits.disabled 7 true 7) :=
  ⟨getValue_cached_iff line reaches_afterHits 5 false (.inl (by decide)) 5,
    getValue_cached_iff line reaches_afterHits 7 true (.inl (by decide)) 7⟩

/-- The cache with 17 entries, none of which is used. -/
def seventeen : ValueCache := { ValueCache.new with szCache := 17, cache := .replicate 17 .unused }

theorem leftRaw_line : line.leftRaw = 0 := by
  change truncate (Part.new ⟨0, 0⟩ ⟨10, 10⟩).left_x = 0
  rw [Part.new_of_le (by norm_num)]
  exact truncate_intCast 0

theorem rightRaw_line : line.rightRaw = 10 := by
  change truncate (Part.new ⟨0, 0⟩ ⟨10, 10⟩).right_x = 10
  rw [Part.new_of_le (by norm_num)]
  exact truncate_intCast 10

theorem insertToCache_seventeen (raw val : Int) : seventeen.insertToCache raw val = none := by
  have hsort : ValueCache.sort (seventeen.cache.dropLast ++ [⟨val, raw, 0⟩]) = none := by
    unfold ValueCache.sort
    refine if_neg fun hcan => hcan.elim (fun hlength => ?_) fun hused => ?_
    · exact absurd hlength (by simp [seventeen])
    · exact hused .unused (by simp [seventeen]) rfl
  unfold ValueCache.insertToCache
  rw [hsort]
  rfl

theorem finds_line : line.Finds 0 0 := by
  have hnew : Part.new ⟨0, 0⟩ ⟨10, 10⟩ = ⟨⟨0, 0⟩, ⟨10, 10⟩, Part.slope ⟨0, 0⟩ ⟨10, 10⟩⟩ :=
    Part.new_of_le (by norm_num)
  have hcheck : (Part.new ⟨0, 0⟩ ⟨10, 10⟩).checkX ((0 : Int) : ℚ) := by
    rw [hnew, Part.checkX]
    norm_num [Part.left_x, Part.right_x]
  refine ⟨1, .new ⟨0, 0⟩ ⟨10, 10⟩, ?_, ?_⟩
  · exact find_range_beg rfl hcheck
  · have hget : (Part.new ⟨0, 0⟩ ⟨10, 10⟩).getY ((0 : Int) : ℚ) = some ((0 : Int) : ℚ) := by
      unfold Part.getY
      rw [if_neg (not_not.mpr hcheck), hnew]
      exact if_pos Int.cast_zero
    rw [valueOf, hget]
    exact (lround_intCast 0).symm

/-- The first value that is stored makes the sort of a large cache undefined. -/
theorem not_cached_seventeen : ValueCache.new.setCacheSize 17 = some seventeen ∧
    ¬∀ raw crop val, line.Returns seventeen raw crop val ↔
      line.Returns seventeen.disabled raw crop val := by
  refine ⟨by decide, fun h => ?_⟩
  have hplain : line.Returns seventeen.disabled 0 false 0 := by
    rw [(sound_disabled line seventeen).returns_iff (.inl (Nat.zero_le _)), Plain, leftRaw_line,
      rightRaw_line]
    exact finds_line
  obtain ⟨fuel, s', hget⟩ := (h 0 false 0).mpr hplain
  rw [getValue_inside (by rw [leftRaw_line]; decide) (by rw [rightRaw_line]; decide),
    show hit seventeen 0 = none by decide] at hget
  simp only [Option.bind_eq_bind, Option.bind_eq_some_iff] at hget
  obtain ⟨fit, -, hget⟩ := hget
  rw [if_pos (by decide), Option.bind_eq_some_iff] at hget
  obtain ⟨s'', hinsert, -⟩ := hget
  rw [insertToCache_seventeen] at hinsert
  cases hinsert

end Calibration

end Uniset.Extensions
