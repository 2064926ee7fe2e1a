import Uniset.Backends.ClickHouseTags

/-! The texts of the tags are kept up to date where a list of ranges is one sensor's own. -/

namespace Uniset.Backends.ClickHouseTags

open Lib

/-! ## Texts -/

theorem percent_notMem_to_string (n : Int) : '%' ∉ to_string n := by
  have hdigits : ∀ m : Nat, '%' ∉ Nat.toDigits 10 m := fun m hm =>
    absurd (Nat.isDigit_of_mem_toDigits (by decide) (by decide) hm) (by decide)
  unfold to_string
  split_ifs
  · exact fun h => (List.mem_cons.mp h).elim (by decide) (hdigits _)
  · exact hdigits _

variable {r : Range} {t : Text} {v w : Int}

theorem replaced_of_not_hasValue (h : ¬HasValue t) : r.replaced v t = r.replaced w t := by
  unfold Range.replaced
  rw [replaceAll_of_absent h, replaceAll_of_absent h]

/-- A text with something to replace is not left as it is, since a `%` is gone. -/
theorem replaced_eq_self_iff : r.replaced v t = t ↔ Plain t := by
  have hwords : ∀ w ∈ [(['%', 'v'], to_string v), (['%', 'm', 'i', 'n'], to_string r.vmin),
      (['%', 'm', 'a', 'x'], to_string r.vmax)], '%' ∈ w.1 ∧ '%' ∉ w.2 := by
    simp [percent_notMem_to_string]
  refine (replaceEach_eq_self_iff hwords).trans ?_
  simp [Plain, HasValue]

/-! ## One field of the tags: its texts as they are configured, and as they are -/

def sweep (text : Text → Text) : Bool → List (Text × Text) → List (Text × Text) × Bool
  | need, [] => ([], need)
  | need, p :: ps =>
    let k := replaceField need (text p.1) p.1 p.2
    let rest := sweep text k.2 ps
    ((p.1, k.1) :: rest.1, rest.2)

/-- The texts are up to date, and the next ones are needed if none of them is plain. -/
structure Held (text : Text → Text) (need : Bool) (ps : List (Text × Text)) : Prop where
  texts : ∀ p ∈ ps, p.2 = text p.1
  need_iff : need = true ↔ ∀ p ∈ ps, ¬Plain p.1

/-- The texts as they are configured. -/
structure Unused (need : Bool) (ps : List (Text × Text)) : Prop where
  texts : ∀ p ∈ ps, p.2 = p.1
  need : need = true

section Sweep

variable {text : Text → Text} {need : Bool} {ps : List (Text × Text)}

@[simp] theorem sweep_false : sweep text false ps = (ps, false) := by
  induction ps with
  | nil => rfl
  | cons p ps ih => simp [sweep, replaceField, ih]

theorem held_sweep_true (hplain : ∀ t, text t = t ↔ Plain t)
    (hpairwise : (ps.map Prod.fst).Pairwise fun s t => Plain s → Plain t)
    (htexts : ∀ p ∈ ps, Plain p.1 → p.2 = p.1) :
    Held text (sweep text true ps).2 (sweep text true ps).1 := by
  induction ps with
  | nil => exact ⟨fun _ h => absurd h List.not_mem_nil, iff_of_true rfl fun _ h => absurd h List.not_mem_nil⟩
  | cons p ps ih =>
    obtain ⟨hhead, htail⟩ := List.pairwise_cons.mp hpairwise
    by_cases hp : Plain p.1
    · have hafter : ∀ q ∈ ps, Plain q.1 := fun q hq => hhead q.1 (List.mem_map_of_mem hq) hp
      have hsweep : sweep text true (p :: ps) = ((p.1, text p.1) :: ps, false) := by
        simp [sweep, replaceField, (hplain p.1).mpr hp]
      rw [hsweep]
      refine ⟨List.forall_mem_cons.mpr ⟨rfl, fun q hq => ?_⟩, ?_⟩
      · exact (htexts q (List.mem_cons_of_mem _ hq) (hafter q hq)).trans ((hplain q.1).mpr (hafter q hq)).symm
      · exact iff_of_false Bool.false_ne_true fun h => h _ List.mem_cons_self hp
    · have hneed : text p.1 ≠ p.1 := fun h => hp ((hplain p.1).mp h)
      have hsweep : sweep text true (p :: ps) =
          ((p.1, text p.1) :: (sweep text true ps).1, (sweep text true ps).2) := by
        simp [sweep, replaceField, hneed]
      have hrest := ih htail fun q hq => htexts q (List.mem_cons_of_mem _ hq)
      rw [hsweep]
      exact ⟨List.forall_mem_cons.mpr ⟨rfl, hrest.texts⟩,
        hrest.need_iff.trans (by rw [List.forall_mem_cons, and_iff_right hp])⟩

/-- A sweep with a new value brings the texts up to date. -/
theorem held_sweep (h : Replaceable (ps.map Prod.fst))
    (hps : Unused need ps ∨ ∃ w, Held (r.replaced w) need ps) :
    Held (r.replaced v) (sweep (r.replaced v) need ps).2 (sweep (r.replaced v) need ps).1 := by
  have hplain : ∀ t, r.replaced v t = t ↔ Plain t := fun t => replaced_eq_self_iff
  obtain ⟨htexts, rfl⟩ | ⟨w, hheld⟩ := hps
  · exact held_sweep_true hplain h.pairwise fun p hp _ => htexts p hp
  · cases need with
    | true =>
      exact held_sweep_true hplain h.pairwise fun p hp hpl => absurd hpl (hheld.need_iff.mp rfl p hp)
    | false =>
      rw [sweep_false]
      have hconst : ∀ t ∈ ps.map Prod.fst, ¬HasValue t := h.hasValue.resolve_left fun hnone =>
        absurd (hheld.need_iff.mpr fun p hp => hnone _ (List.mem_map_of_mem hp)) Bool.false_ne_true
      exact ⟨fun p hp => (hheld.texts p hp).trans
        (replaced_of_not_hasValue (hconst _ (List.mem_map_of_mem hp))), hheld.need_iff⟩

theorem Held.of_constant (h : Held (r.replaced v) need ps) (hps : ∀ p ∈ ps, ¬HasValue p.1) :
    Held (r.replaced w) need ps :=
  ⟨fun p hp => (h.texts p hp).trans (replaced_of_not_hasValue (hps p hp)), h.need_iff⟩

end Sweep

/-! ## Ranges -/

def Tag.keyTexts (t : Tag) : Text × Text := (t.orig_key, t.key)

def Tag.valueTexts (t : Tag) : Text × Text := (t.orig_value, t.value)

/-- A range as it is configured. -/
def Range.template (r : Range) : Range :=
  { r with tags := r.tags.map (Tag.shown id), needReplaceKey := true, needReplaceVal := true }

structure Range.Fresh (value : Int) (r : Range) : Prop where
  keys : Held (r.replaced value) r.needReplaceKey (r.tags.map Tag.keyTexts)
  values : Held (r.replaced value) r.needReplaceVal (r.tags.map Tag.valueTexts)

structure Range.New (r : Range) : Prop where
  keys : Unused r.needReplaceKey (r.tags.map Tag.keyTexts)
  values : Unused r.needReplaceVal (r.tags.map Tag.valueTexts)

section Ranges

variable {text : Text → Text} {k u : Bool} {ts : List Tag} {r' : Range}

theorem updateTexts_keys :
    (updateTexts text k u ts).1.map Tag.keyTexts = (sweep text k (ts.map Tag.keyTexts)).1 ∧
      (updateTexts text k u ts).2.1 = (sweep text k (ts.map Tag.keyTexts)).2 := by
  induction ts generalizing k u with
  | nil => exact ⟨rfl, rfl⟩
  | cons t ts ih =>
    obtain ⟨htexts, hneed⟩ := ih (k := (replaceField k (text t.orig_key) t.orig_key t.key).2)
      (u := (replaceField u (text t.orig_value) t.orig_value t.value).2)
    exact ⟨congrArg _ htexts, hneed⟩

theorem updateTexts_values :
    (updateTexts text k u ts).1.map Tag.valueTexts = (sweep text u (ts.map Tag.valueTexts)).1 ∧
      (updateTexts text k u ts).2.2 = (sweep text u (ts.map Tag.valueTexts)).2 := by
  induction ts generalizing k u with
  | nil => exact ⟨rfl, rfl⟩
  | cons t ts ih =>
    obtain ⟨htexts, hneed⟩ := ih (k := (replaceField k (text t.orig_key) t.orig_key t.key).2)
      (u := (replaceField u (text t.orig_value) t.orig_value t.value).2)
    exact ⟨congrArg _ htexts, hneed⟩

theorem updateTexts_shown (f : Text → Text) :
    (updateTexts text k u ts).1.map (Tag.shown f) = ts.map (Tag.shown f) := by
  induction ts generalizing k u with
  | nil => rfl
  | cons t ts ih => simp [updateTexts, Tag.shown, ih]

@[simp] theorem template_updateText (value : Int) : (r.updateText value).template = r.template := by
  simp [Range.template, Range.updateText, updateTexts_shown]

theorem map_keyTexts_fst : (ts.map Tag.keyTexts).map Prod.fst = ts.map Tag.orig_key := List.map_map

theorem map_valueTexts_fst : (ts.map Tag.valueTexts).map Prod.fst = ts.map Tag.orig_value := List.map_map

theorem fresh_updateText (h : r.Replaces) (hr : r.New ∨ ∃ w, r.Fresh w) :
    (r.updateText v).Fresh v := by
  refine ⟨?_, ?_⟩
  · have hheld := held_sweep (v := v) (map_keyTexts_fst ▸ h.keys)
      (hr.imp Range.New.keys fun ⟨w, hw⟩ => ⟨w, hw.keys⟩)
    rw [← updateTexts_keys.1, ← updateTexts_keys.2] at hheld
    exact hheld
  · have hheld := held_sweep (v := v) (map_valueTexts_fst ▸ h.values)
      (hr.imp Range.New.values fun ⟨w, hw⟩ => ⟨w, hw.values⟩)
    rw [← updateTexts_values.1, ← updateTexts_values.2] at hheld
    exact hheld

theorem Range.Fresh.of_constant (h : r.Fresh v) (hr : r.Constant) : r.Fresh w := by
  refine ⟨h.keys.of_constant fun p hp => ?_, h.values.of_constant fun p hp => ?_⟩
  · obtain ⟨t, ht, rfl⟩ := List.mem_map.mp hp
    exact (hr t ht).1
  · obtain ⟨t, ht, rfl⟩ := List.mem_map.mp hp
    exact (hr t ht).2

/-- What is shown for a range that is up to date. -/
theorem Range.Fresh.tagsAt (h : r.Fresh v) : r.tagsAt v = r.computed v := by
  unfold Range.tagsAt Range.computed
  split_ifs
  · refine (List.map_congr_left fun t ht => ?_).trans (List.map_id _) |>.symm
    have hkey : t.key = r.replaced v t.orig_key := h.keys.texts _ (List.mem_map_of_mem ht)
    have hvalue : t.value = r.replaced v t.orig_value := h.values.texts _ (List.mem_map_of_mem ht)
    rw [Tag.shown, ← hkey, ← hvalue]
    rfl
  · rfl

theorem computed_template : r.template.computed v = r.computed v := by
  unfold Range.computed
  simp only [Range.template, List.map_map]
  rfl

theorem map_orig_key_template : r.template.tags.map Tag.orig_key = r.tags.map Tag.orig_key :=
  List.map_map

theorem map_orig_value_template : r.template.tags.map Tag.orig_value = r.tags.map Tag.orig_value :=
  List.map_map

theorem replaces_iff :
    r.Replaces ↔ Replaceable (r.tags.map Tag.orig_key) ∧ Replaceable (r.tags.map Tag.orig_value) :=
  ⟨fun h => ⟨h.keys, h.values⟩, fun ⟨hkeys, hvalues⟩ => ⟨hkeys, hvalues⟩⟩

theorem replaces_template : r.template.Replaces ↔ r.Replaces := by
  rw [replaces_iff, map_orig_key_template, map_orig_value_template, replaces_iff]

theorem constant_template : r.template.Constant ↔ r.Constant := List.forall_mem_map

end Ranges

/-! ## Values of keys -/

section Assign

variable {κ β γ : Type*} [DecidableEq κ] [BEq κ] [LawfulBEq κ] {l : List (κ × β)} {a : κ} {b b' : β}

omit [DecidableEq κ] in
theorem lookup_cons_of_ne {k : κ} {c : β} (h : k ≠ a) : ((k, c) :: l).lookup a = l.lookup a := by
  rw [List.lookup_cons, beq_false_of_ne h.symm]

theorem exists_of_lookup (h : l.lookup a = some b) :
    ∃ l₁ l₂, l = l₁ ++ (a, b) :: l₂ ∧ ∀ b', assign a b' l = l₁ ++ (a, b') :: l₂ := by
  induction l with
  | nil => cases h
  | cons p l ih =>
    obtain ⟨k, c⟩ := p
    by_cases hk : k = a
    · subst hk
      obtain rfl := Option.some.inj (List.lookup_cons_self.symm.trans h)
      exact ⟨[], l, rfl, fun b' => if_pos rfl⟩
    · obtain ⟨l₁, l₂, rfl, hassign⟩ := ih ((lookup_cons_of_ne hk).symm.trans h)
      exact ⟨(k, c) :: l₁, l₂, rfl, fun b' => by rw [assign, if_neg hk, hassign]; rfl⟩

theorem lookup_assign_self : (assign a b l).lookup a = some b := by
  induction l with
  | nil => exact List.lookup_cons_self
  | cons p l ih =>
    obtain ⟨k, c⟩ := p
    by_cases hk : k = a
    · subst hk
      rw [assign, if_pos rfl, List.lookup_cons_self]
    · rw [assign, if_neg hk, lookup_cons_of_ne hk, ih]

theorem lookup_assign_of_ne {a' : κ} (h : a' ≠ a) : (assign a b l).lookup a' = l.lookup a' := by
  induction l with
  | nil => exact lookup_cons_of_ne h.symm
  | cons p l ih =>
    obtain ⟨k, c⟩ := p
    by_cases hk : k = a
    · subst hk
      rw [assign, if_pos rfl, lookup_cons_of_ne h.symm, lookup_cons_of_ne h.symm]
    · rw [assign, if_neg hk, List.lookup_cons, List.lookup_cons, ih]

omit [DecidableEq κ] [LawfulBEq κ] in
theorem lookup_map_snd (f : β → γ) :
    (l.map fun p => (p.1, f p.2)).lookup a = (l.lookup a).map f := by
  induction l with
  | nil => rfl
  | cons p l ih =>
    obtain ⟨k, c⟩ := p
    rw [List.map_cons, List.lookup_cons, List.lookup_cons]
    cases a == k with
    | true => rfl
    | false => exact ih

/-- A value that looks like the old one to `f`. -/
theorem map_snd_assign (f : β → γ) (h : l.lookup a = some b) (hf : f b' = f b) :
    (assign a b' l).map (fun p => (p.1, f p.2)) = l.map fun p => (p.1, f p.2) := by
  obtain ⟨l₁, l₂, rfl, hassign⟩ := exists_of_lookup h
  simp [hassign, hf]

end Assign

/-! ## Entries -/

def templates (m : TagsMap) : TagsMap := m.map fun p => (p.1, p.2.map Range.template)

/-- An entry as it is configured. -/
def TagsInfo.blank (t : TagsInfo) : TagsInfo := { t with prev_value := 0, initOk := false }

/-- The ranges of an entry can be kept up to date, and are so for what the entry remembers. -/
def Sound (m : TagsMap) (t : TagsInfo) : Prop :=
  t.any_tags = [] → ∃ name ranges, t.vit = some name ∧ m.lookup name = some ranges ∧
    ∀ r ∈ ranges, r.Replaces ∧ (r.New ∨ ∃ w, r.Fresh w) ∧
      (t.initOk = true → r.Fresh t.prev_value)

section Entries

variable {m m' : TagsMap} {t u : TagsInfo} {smap : ObjectId → Option Int} {value : Int}

theorem rangesOf_templates (vit : Option Text) :
    rangesOf (templates m) vit = (rangesOf m vit).map Range.template := by
  cases vit with
  | none => rfl
  | some name =>
    simp only [rangesOf, templates, Option.bind_some, lookup_map_snd]
    cases m.lookup name <;> rfl

theorem computed_templates : t.computed smap (templates m) = t.computed smap m := by
  unfold TagsInfo.computed
  simp only [rangesOf_templates, List.flatMap_map, computed_template]

theorem computed_congr (h : templates m' = templates m) : t.computed smap m' = t.computed smap m := by
  rw [← computed_templates, h, computed_templates]

theorem apart_templates : Apart (templates m) t u ↔ Apart m t u := by
  unfold Apart
  rw [rangesOf_templates, List.forall_mem_map]
  simp only [constant_template]

theorem apart_congr (h : templates m' = templates m) : Apart m' t u ↔ Apart m t u := by
  rw [← apart_templates, h, apart_templates]

theorem apart_comm : Apart m t u ↔ Apart m u t := by
  have hone : ∀ {t u}, Apart m t u → Apart m u t := fun {t u} h => by
    obtain ht | hu | hne | hconst := h
    · exact .inr (.inl ht)
    · exact .inl hu
    · exact .inr (.inr (.inl (Ne.symm hne)))
    · by_cases heq : t.vit = u.vit
      · exact .inr (.inr (.inr (heq ▸ hconst)))
      · exact .inr (.inr (.inl fun h => heq h.symm))
  exact ⟨hone, hone⟩

/-- One entry shows its tags as if they were computed anew, and those that are apart from it do not
see it. -/
theorem makeTags_entry (hsound : Sound m t) (hvalue : smap t.it = some value) :
    ∃ m' t', t.makeTags smap m = some (t.computed smap m, m', t') ∧ t'.blank = t.blank ∧
      templates m' = templates m ∧ Sound m' t' ∧ ∀ u, Sound m u → Apart m t u → Sound m' u := by
  by_cases hany : t.any_tags = []
  · obtain ⟨name, ranges, hvit, hlookup, hranges⟩ := hsound hany
    have hcomputed : t.computed smap m = ranges.flatMap (·.computed value) := by
      simp [TagsInfo.computed, rangesOf, hany, hvit, hlookup, hvalue]
    by_cases hchanged : value ≠ t.prev_value ∨ t.initOk = false
    · have hfresh : ∀ r ∈ ranges.map (·.updateText value), r.Fresh value := List.forall_mem_map.mpr
        fun r hr => fresh_updateText (hranges r hr).1 (hranges r hr).2.1
      have hreplaces : ∀ r ∈ ranges.map (·.updateText value), r.Replaces := List.forall_mem_map.mpr
        fun r hr => replaces_template.mp ((template_updateText value).symm ▸
          replaces_template.mpr (hranges r hr).1)
      have htags : (ranges.map (·.updateText value)).flatMap (·.tagsAt value) =
          ranges.flatMap (·.computed value) := by
        rw [List.flatMap_map]
        refine List.flatMap_congr fun r hr => ?_
        rw [(hfresh _ (List.mem_map_of_mem hr)).tagsAt, ← computed_template, template_updateText,
          computed_template]
      refine ⟨assign name (ranges.map (·.updateText value)) m,
        { t with prev_value := value, initOk := true }, ?_, rfl, ?_, ?_, fun u hu hapart => ?_⟩
      · simp [TagsInfo.makeTags, hvalue, hany, hvit, hlookup, hchanged, htags, hcomputed]
      · refine map_snd_assign (List.map Range.template) hlookup ?_
        rw [List.map_map]
        exact List.map_congr_left fun r _ => template_updateText value
      · exact fun _ => ⟨name, _, hvit, lookup_assign_self, fun r hr =>
          ⟨hreplaces r hr, .inr ⟨value, hfresh r hr⟩, fun _ => hfresh r hr⟩⟩
      · intro huany
        obtain ⟨name', ranges', hvit', hlookup', hranges'⟩ := hu huany
        by_cases hname : name' = name
        · subst hname
          obtain rfl : ranges = ranges' := Option.some.inj (hlookup.symm.trans hlookup')
          have hconst : ∀ r ∈ ranges, r.Constant := by
            obtain h | h | h | h := hapart
            · exact absurd hany h
            · exact absurd huany h
            · exact absurd (hvit.trans hvit'.symm) h
            · simpa [rangesOf, hvit, hlookup] using h
          refine ⟨name', _, hvit', lookup_assign_self, fun r hr =>
            ⟨hreplaces r hr, .inr ⟨value, hfresh r hr⟩, fun _ => (hfresh r hr).of_constant ?_⟩⟩
          obtain ⟨r, hmem, rfl⟩ := List.mem_map.mp hr
          exact constant_template.mp ((template_updateText value).symm ▸
            constant_template.mpr (hconst r hmem))
        · exact ⟨name', ranges', hvit', (lookup_assign_of_ne hname).trans hlookup', hranges'⟩
    · obtain ⟨hsame, hok⟩ := not_or.mp hchanged
      obtain rfl := not_ne_iff.mp hsame
      have htags : ranges.flatMap (·.tagsAt t.prev_value) = ranges.flatMap (·.computed t.prev_value) :=
        List.flatMap_congr fun r hr => ((hranges r hr).2.2 (by simpa using hok)).tagsAt
      refine ⟨m, t, ?_, rfl, rfl, hsound, fun u hu _ => hu⟩
      simp [TagsInfo.makeTags, hvalue, hany, hvit, hlookup, hok, htags, hcomputed]
  · refine ⟨m, t, ?_, rfl, rfl, hsound, fun u hu _ => hu⟩
    simp [TagsInfo.makeTags, TagsInfo.computed, hvalue, hany]

/-- The entries of a sensor, one after the other. -/
theorem makeTags_spec {ts : TagList} (hsound : ∀ t ∈ ts, Sound m t)
    (hknown : ∀ t ∈ ts, (smap t.it).isSome) (hapart : ts.Pairwise (Apart m)) :
    ∃ m' ts', makeTags smap m ts = some (ts.flatMap (·.computed smap m), m', ts') ∧
      ts'.map TagsInfo.blank = ts.map TagsInfo.blank ∧ templates m' = templates m ∧
      (∀ t ∈ ts', Sound m' t) ∧ ∀ u, Sound m u → (∀ t ∈ ts, Apart m t u) → Sound m' u := by
  induction ts generalizing m with
  | nil => exact ⟨m, [], rfl, rfl, rfl, fun _ h => absurd h List.not_mem_nil, fun u hu _ => hu⟩
  | cons t ts ih =>
    obtain ⟨hhead, htail⟩ := List.pairwise_cons.mp hapart
    obtain ⟨hsound₀, hsounds⟩ := List.forall_mem_cons.mp hsound
    obtain ⟨hknown₀, hknowns⟩ := List.forall_mem_cons.mp hknown
    obtain ⟨value, hvalue⟩ := Option.isSome_iff_exists.mp hknown₀
    obtain ⟨m₁, t', hstep, hblank, htemplates, hsound', hframe⟩ := makeTags_entry hsound₀ hvalue
    obtain ⟨m₂, ts', hrest, hblanks, htemplates', hsounds', hframe'⟩ := ih
      (fun u hu => hframe u (hsounds u hu) (hhead u hu)) hknowns
      (htail.imp fun h => (apart_congr htemplates).mpr h)
    have hapart' : ∀ u ∈ ts, Apart m₁ u t' := fun u hu => by
      have hapart : Apart m₁ u t := apart_comm.mp ((apart_congr htemplates).mpr (hhead u hu))
      have hblank' : Apart m₁ u t'.blank ↔ Apart m₁ u t.blank := by rw [hblank]
      exact hblank'.mpr hapart
    refine ⟨m₂, t' :: ts', ?_, ?_, htemplates'.trans htemplates, ?_, fun u hu huapart => ?_⟩
    · have hcomputed : ts.flatMap (·.computed smap m₁) = ts.flatMap (·.computed smap m) :=
        List.flatMap_congr fun u _ => computed_congr htemplates
      rw [makeTags, hstep]
      simp [hrest, hcomputed]
    · rw [List.map_cons, hblank, hblanks, List.map_cons]
    · exact List.forall_mem_cons.mpr ⟨hframe' t' hsound' hapart', hsounds'⟩
    · obtain ⟨huhead, hutail⟩ := List.forall_mem_cons.mp huapart
      exact hframe' u (hframe u hu huhead) fun t ht => (apart_congr htemplates).mpr (hutail t ht)

end Entries

/-! ## Runs -/

def blanks (tags : List (ObjectId × TagList)) : List (ObjectId × TagList) :=
  tags.map fun p => (p.1, p.2.map TagsInfo.blank)

/-- What the calls keep. -/
structure Kept (c₀ c : TagsConfig) : Prop where
  tags : blanks c.tags = blanks c₀.tags
  templates : templates c.tagsmap = templates c₀.tagsmap
  known : ∀ t ∈ c.entries, (c.smap t.it).isSome
  sound : ∀ t ∈ c.entries, Sound c.tagsmap t
  apart : c.entries.Pairwise (Apart c.tagsmap)

section Runs

variable {c₀ c : TagsConfig}

theorem blank_entries : c.entries.map TagsInfo.blank = (blanks c.tags).flatMap Prod.snd := by
  simp [TagsConfig.entries, blanks, List.map_flatMap, List.flatMap_map]

theorem listOf_blank (id : ObjectId) :
    (c.listOf id).map TagsInfo.blank = ((blanks c.tags).lookup id).getD [] := by
  rw [TagsConfig.listOf, blanks, lookup_map_snd]
  cases c.tags.lookup id <;> rfl

theorem computed_blank (smap : ObjectId → Option Int) (id : ObjectId) :
    c.computed smap id =
      ((c.listOf id).map TagsInfo.blank).flatMap (·.computed smap (templates c.tagsmap)) := by
  rw [List.flatMap_map]
  exact List.flatMap_congr fun t _ => (computed_templates (t := t)).symm

/-- What is computed anew is so from the configuration. -/
theorem Kept.computed (h : Kept c₀ c) (smap : ObjectId → Option Int) (id : ObjectId) :
    c.computed smap id = c₀.computed smap id := by
  rw [computed_blank, computed_blank, listOf_blank, listOf_blank, h.tags, h.templates]

theorem apart_blank {m : TagsMap} {ts : TagList} :
    ts.Pairwise (Apart m) ↔ (ts.map TagsInfo.blank).Pairwise (Apart m) :=
  (List.pairwise_map (f := TagsInfo.blank) (R := Apart m)).symm

theorem forall_it_blank {smap : ObjectId → Option Int} {ts : TagList} :
    (∀ t ∈ ts, (smap t.it).isSome) ↔ ∀ t ∈ ts.map TagsInfo.blank, (smap t.it).isSome :=
  (List.forall_mem_map (f := TagsInfo.blank) (P := fun t => (smap t.it).isSome)).symm

theorem Kept.getTags (h : Kept c₀ c) (id : ObjectId) :
    ∃ c', c.getTags id = some (c₀.computed c.smap id, c') ∧ Kept c₀ c' := by
  rw [← h.computed]
  cases hlookup : c.tags.lookup id with
  | none =>
    refine ⟨c, ?_, h⟩
    simp [TagsConfig.getTags, TagsConfig.computed, TagsConfig.listOf, hlookup]
  | some lst =>
    obtain ⟨l₁, l₂, htags, hassign⟩ := exists_of_lookup hlookup
    have hentries : c.entries = l₁.flatMap Prod.snd ++ (lst ++ l₂.flatMap Prod.snd) := by
      rw [TagsConfig.entries, htags, List.flatMap_append, List.flatMap_cons]
    have hlst : ∀ t ∈ lst, t ∈ c.entries := fun t ht => by
      rw [hentries]
      exact List.mem_append_right _ (List.mem_append_left _ ht)
    have hsplit := h.apart
    rw [hentries] at hsplit
    obtain ⟨-, hsplit, hbefore⟩ := List.pairwise_append.mp hsplit
    obtain ⟨hinside, -, hafter⟩ := List.pairwise_append.mp hsplit
    have hknown : ∀ t ∈ lst, (c.smap t.it).isSome := fun t ht => h.known t (hlst t ht)
    obtain ⟨m', lst', hmake, hblank, htemplates, hsound, hframe⟩ :=
      makeTags_spec (fun t ht => h.sound t (hlst t ht)) hknown hinside
    have hblanks : blanks (assign id lst' c.tags) = blanks c.tags :=
      map_snd_assign (List.map TagsInfo.blank) hlookup hblank
    let c' : TagsConfig := { c with tagsmap := m', tags := assign id lst' c.tags }
    have hentries' : c'.entries = l₁.flatMap Prod.snd ++ (lst' ++ l₂.flatMap Prod.snd) := by
      change (assign id lst' c.tags).flatMap Prod.snd = _
      rw [hassign, List.flatMap_append, List.flatMap_cons]
    have hsame : c'.entries.map TagsInfo.blank = c.entries.map TagsInfo.blank := by
      rw [blank_entries, blank_entries]
      exact congrArg (List.flatMap Prod.snd) hblanks
    refine ⟨c', ?_, hblanks.trans h.tags, htemplates.trans h.templates, ?_, ?_, ?_⟩
    · simp [TagsConfig.getTags, hlookup, hmake, TagsConfig.computed, TagsConfig.listOf, c']
    · exact forall_it_blank.mpr (hsame ▸ forall_it_blank.mp h.known)
    · rw [hentries']
      refine List.forall_mem_append.mpr ⟨fun u hu => ?_, List.forall_mem_append.mpr ⟨hsound, fun u hu => ?_⟩⟩
      · refine hframe u (h.sound u ?_) fun t ht =>
          apart_comm.mp (hbefore u hu t (List.mem_append_left _ ht))
        rw [hentries]
        exact List.mem_append_left _ hu
      · refine hframe u (h.sound u ?_) fun t ht => hafter t ht u hu
        rw [hentries]
        exact List.mem_append_right _ (List.mem_append_right _ hu)
    · have hpairwise : (c'.entries.map TagsInfo.blank).Pairwise (Apart m') :=
        (hsame ▸ apart_blank.mp h.apart).imp fun h => (apart_congr htemplates).mpr h
      exact apart_blank.mpr hpairwise

theorem Kept.updateTags (h : Kept c₀ c) (id : ObjectId) (value : Int) :
    Kept c₀ (c.updateTags id value).2 := by
  unfold TagsConfig.updateTags
  split_ifs
  · refine ⟨h.tags, h.templates, fun t ht => ?_, h.sound, h.apart⟩
    change (Function.update c.smap id (some value) t.it).isSome
    by_cases hid : t.it = id
    · simp [hid]
    · rw [Function.update_of_ne hid]
      exact h.known t ht
  · exact h

theorem Kept.call (h : Kept c₀ c) (x : Call) : ∃ c', c.call x = some c' ∧ Kept c₀ c' := by
  cases x with
  | updateTags id value => exact ⟨_, rfl, h.updateTags id value⟩
  | getTags id =>
    obtain ⟨c', hget, hkept⟩ := h.getTags id
    exact ⟨c', congrArg (Option.map Prod.snd) hget, hkept⟩

theorem Kept.run (h : Kept c₀ c) (calls : List Call) : ∃ c', c.run calls = some c' ∧ Kept c₀ c' := by
  induction calls generalizing c with
  | nil => exact ⟨c, rfl, h⟩
  | cons x calls ih =>
    obtain ⟨c₁, hcall, hkept⟩ := h.call x
    obtain ⟨c', hrun, hkept'⟩ := ih hkept
    exact ⟨c', by rw [TagsConfig.run, List.foldlM_cons, hcall]; exact hrun, hkept'⟩

end Runs

/-! ## What is loaded -/

/-- An entry that was not asked for yet, of a sensor with a value; its ranges exist if they are set. -/
structure Ready (c : TagsConfig) (t : TagsInfo) : Prop where
  initOk : t.initOk = false
  known : (c.smap t.it).isSome
  vit : ∀ name, t.vit = some name → (c.tagsmap.lookup name).isSome

structure Loaded (c : TagsConfig) : Prop where
  ranges : ∀ p ∈ c.tagsmap, ∀ r ∈ p.2, r.New
  entries : ∀ t ∈ c.entries, Ready c t

theorem forall_mem_of_mapM {α β : Type} {f : α → Option β} {P : β → Prop}
    (hf : ∀ a b, f a = some b → P b) {l : List α} {l' : List β} (h : l.mapM f = some l') :
    ∀ b ∈ l', P b := by
  induction l generalizing l' with
  | nil =>
    cases h
    exact fun _ hb => absurd hb List.not_mem_nil
  | cons a l ih =>
    rw [List.mapM_cons] at h
    obtain ⟨b, hb, h⟩ := Option.bind_eq_some_iff.mp h
    obtain ⟨l', hl', h⟩ := Option.bind_eq_some_iff.mp h
    cases h
    exact List.forall_mem_cons.mpr ⟨hf a b hb, ih hl'⟩

section Load

variable {c c' : TagsConfig} {s : Text} {sep : Char} {ts : List Tag} {r : Range} {id sid : ObjectId}
  {lst : TagList} {default : Int}

theorem parseTag_spec {t : Tag} (h : parseTag s = some t) : t.key = t.orig_key ∧ t.value = t.orig_value := by
  unfold parseTag at h
  split at h <;> cases h
  exact ⟨rfl, rfl⟩

theorem new_of_parseTags {lo hi : Int} (h : parseTags s sep = some ts) :
    Range.New ⟨lo, hi, ts, true, true⟩ := by
  obtain ⟨parts, -, h⟩ := Option.bind_eq_some_iff.mp h
  have hsame := forall_mem_of_mapM (fun _ _ ht => parseTag_spec ht) h
  refine ⟨⟨?_, rfl⟩, ⟨?_, rfl⟩⟩
  · exact List.forall_mem_map.mpr fun t ht => (hsame t ht).1
  · exact List.forall_mem_map.mpr fun t ht => (hsame t ht).2

theorem new_of_initRange {item : RangeItem} (h : initRange item = some r) : r.New := by
  cases item with
  | value v tags =>
    obtain ⟨ts, hts, rfl⟩ := Option.map_eq_some_iff.mp h
    exact new_of_parseTags hts
  | range lo hi tags =>
    obtain ⟨ts, hts, rfl⟩ := Option.map_eq_some_iff.mp h
    split_ifs
    · exact new_of_parseTags hts
    · exact new_of_parseTags hts

theorem new_of_initTagsMap {sections : List (Text × List RangeItem)} {m : TagsMap}
    (h : initTagsMap sections = some m) : ∀ p ∈ m, ∀ r ∈ p.2, r.New := by
  refine forall_mem_of_mapM (fun t p hp => ?_) h
  split_ifs at hp
  obtain ⟨rlist, hrlist, rfl⟩ := Option.map_eq_some_iff.mp hp
  exact forall_mem_of_mapM (fun _ _ hr => new_of_initRange hr) hrlist

theorem isSome_addState {smap : ObjectId → Option Int} {a : ObjectId}
    (h : (smap a).isSome ∨ a = sid) : (addState smap sid default a).isSome := by
  unfold addState
  split_ifs with hsid
  · exact h.elim id fun h => h ▸ hsid
  · by_cases ha : a = sid
    · simp [ha]
    · rw [Function.update_of_ne ha]
      exact h.resolve_right ha

theorem mem_of_mem_assign {tags : List (ObjectId × TagList)} {t : TagsInfo}
    (h : t ∈ (assign id lst tags).flatMap Prod.snd) : t ∈ lst ∨ t ∈ tags.flatMap Prod.snd := by
  induction tags with
  | nil => exact .inl (by simpa [assign] using h)
  | cons p tags ih =>
    unfold assign at h
    split_ifs at h
    · exact (List.mem_append.mp h).imp_right fun h => List.mem_append_right _ h
    · exact (List.mem_append.mp h).elim (fun h => .inr (List.mem_append_left _ h))
        fun h => (ih h).imp_right fun h => List.mem_append_right _ h

/-- The entries of one sensor are given anew. -/
theorem Loaded.assign (h : Loaded c) {smap : ObjectId → Option Int}
    (hsmap : ∀ a, (c.smap a).isSome → (smap a).isSome)
    (hlst : ∀ t ∈ lst, Ready ⟨smap, c.tagsmap, []⟩ t) :
    Loaded ⟨smap, c.tagsmap, assign id lst c.tags⟩ := by
  refine ⟨h.ranges, fun t ht => ?_⟩
  obtain ht | ht := mem_of_mem_assign ht
  · exact ⟨(hlst t ht).initOk, (hlst t ht).known, (hlst t ht).vit⟩
  · exact ⟨(h.entries t ht).initOk, hsmap _ (h.entries t ht).known, (h.entries t ht).vit⟩

theorem Loaded.initFromTags (h : Loaded c) (hc : initFromTags c id sid s default = some c') :
    Loaded c' := by
  obtain ⟨ts, -, rfl⟩ := Option.map_eq_some_iff.mp hc
  refine h.assign (fun a ha => isSome_addState (.inl ha)) (List.forall_mem_singleton.mpr ?_)
  exact ⟨rfl, isSome_addState (.inr rfl), nofun⟩

theorem Loaded.initFromValues (h : Loaded c) (hc : initFromValues c id sid s default = some c') :
    Loaded c' := by
  obtain ⟨ranges, hlookup, rfl⟩ := Option.map_eq_some_iff.mp hc
  refine h.assign (fun a ha => isSome_addState (.inl ha)) (List.forall_mem_singleton.mpr ?_)
  refine ⟨rfl, isSome_addState (.inr rfl), fun name hname => ?_⟩
  cases hname
  exact Option.isSome_iff_exists.mpr ⟨ranges, hlookup⟩

/-- A sensor is added with ranges that exist. -/
theorem ready_addTagsInfo (hlst : ∀ t ∈ lst, Ready c t) (hs : (c.tagsmap.lookup s).isSome)
    (hsid : (∃ t ∈ lst, t.sid = sid) ∨ (c.smap sid).isSome) :
    ∀ t ∈ addTagsInfo sid s lst, Ready c t := by
  induction lst with
  | nil =>
    refine List.forall_mem_singleton.mpr ⟨rfl, hsid.resolve_left ?_, fun name hname => ?_⟩
    · exact fun ⟨t, ht, _⟩ => absurd ht List.not_mem_nil
    · cases hname
      exact hs
  | cons t ts ih =>
    obtain ⟨ht, hts⟩ := List.forall_mem_cons.mp hlst
    unfold addTagsInfo
    split_ifs with heq
    · refine List.forall_mem_cons.mpr ⟨⟨ht.initOk, ht.known, fun name hname => ?_⟩, hts⟩
      cases hname
      exact hs
    · refine List.forall_mem_cons.mpr ⟨ht, ih hts (hsid.imp_left ?_)⟩
      rintro ⟨u, hu, husid⟩
      obtain rfl | hu := List.mem_cons.mp hu
      · exact absurd husid heq
      · exact ⟨u, hu, husid⟩

theorem mem_entries_of_mem_listOf {t : TagsInfo} (h : t ∈ c.listOf id) : t ∈ c.entries := by
  unfold TagsConfig.listOf at h
  cases hlookup : c.tags.lookup id with
  | none =>
    rw [hlookup] at h
    exact absurd h List.not_mem_nil
  | some lst =>
    rw [hlookup] at h
    obtain ⟨l₁, l₂, htags, -⟩ := exists_of_lookup hlookup
    rw [TagsConfig.entries, htags, List.flatMap_append, List.flatMap_cons]
    exact List.mem_append_right _ (List.mem_append_left _ h)

theorem Loaded.initFromTagsList (h : Loaded c) {ps : List (Option ObjectId × Text)}
    (hc : initFromTagsList id ps c = some c') : Loaded c' := by
  induction ps generalizing c with
  | nil =>
    cases hc
    exact h
  | cons p ps ih =>
    obtain ⟨_ | sid, values⟩ := p
    · cases hc
    · rw [ClickHouseTags.initFromTagsList] at hc
      split_ifs at hc with hvalues
      refine ih (h.assign (fun a ha => ?_) (ready_addTagsInfo (fun t ht => ?_) hvalues ?_)) hc
      · split_ifs
        · exact ha
        · exact isSome_addState (.inl ha)
      · have hready := h.entries t (mem_entries_of_mem_listOf ht)
        refine ⟨hready.initOk, ?_, hready.vit⟩
        split_ifs
        · exact hready.known
        · exact isSome_addState (.inl hready.known)
      · by_cases hany : (c.listOf id).any (·.sid = sid) = true
        · obtain ⟨t, ht, hsid⟩ := List.any_eq_true.mp hany
          exact .inl ⟨t, ht, of_decide_eq_true hsid⟩
        · refine .inr ?_
          rw [if_neg hany]
          exact isSome_addState (.inr rfl)

theorem Loaded.initFromItem (h : Loaded c) {item : ObjectId × Setting}
    (hc : initFromItem c item = some c') : Loaded c' := by
  obtain ⟨id, setting⟩ := item
  cases setting with
  | none =>
    cases hc
    exact h
  | dyn_tags s_tags sid default =>
    obtain ⟨sid, -, hc⟩ := Option.bind_eq_some_iff.mp hc
    exact h.initFromTags hc
  | dyn_values s_values sid default =>
    obtain ⟨sid, -, hc⟩ := Option.bind_eq_some_iff.mp hc
    exact h.initFromValues hc
  | tags lst => exact h.initFromTagsList hc

theorem Loaded.foldlM (h : Loaded c) {sensors : List (ObjectId × Setting)}
    (hc : sensors.foldlM ClickHouseTags.initFromItem c = some c') : Loaded c' := by
  induction sensors generalizing c with
  | nil =>
    cases hc
    exact h
  | cons item sensors ih =>
    rw [List.foldlM_cons] at hc
    obtain ⟨c₁, hitem, hc⟩ := Option.bind_eq_some_iff.mp hc
    exact ih (h.initFromItem hitem) hc

theorem loaded_load {sections : List (Text × List RangeItem)} {sensors : List (ObjectId × Setting)}
    (h : load sections sensors = some c) : Loaded c := by
  obtain ⟨m, hm, h⟩ := Option.bind_eq_some_iff.mp h
  have hstart : Loaded ⟨fun _ => none, m, []⟩ :=
    ⟨new_of_initTagsMap hm, fun _ ht => absurd ht List.not_mem_nil⟩
  exact hstart.foldlM h

/-- What is loaded can be kept up to date if it suits. -/
theorem Loaded.kept (h : Loaded c) (hc : c.Suits) : Kept c c := by
  refine ⟨rfl, rfl, fun t ht => (h.entries t ht).known, fun t ht hany => ?_, hc.apart⟩
  obtain ⟨name, hname⟩ := Option.ne_none_iff_exists'.mp ((hc.filled t ht).resolve_left (not_not.mpr hany))
  obtain ⟨ranges, hlookup⟩ := Option.isSome_iff_exists.mp ((h.entries t ht).vit name hname)
  refine ⟨name, ranges, hname, hlookup, fun r hr => ⟨hc.replaces t ht hany r ?_, .inl ?_, fun hok => ?_⟩⟩
  · simpa [rangesOf, hname, hlookup] using hr
  · obtain ⟨l₁, l₂, htagsmap, -⟩ := exists_of_lookup hlookup
    exact h.ranges (name, ranges) (htagsmap ▸ List.mem_append_right _ List.mem_cons_self) r hr
  · exact absurd (hok.symm.trans (h.entries t ht).initOk) Bool.noConfusion

end Load

/-! ## The tags that are shown -/

/-- After any calls every sensor shows the tags that are computed anew. -/
def ShowsComputed (sections : List (Text × List RangeItem)) (sensors : List (ObjectId × Setting)) :
    Prop :=
  ∀ c₀, load sections sensors = some c₀ → ∀ (calls : List Call) (id : ObjectId),
    ∃ c, c₀.run calls = some c ∧ (c.getTags id).map Prod.fst = some (c₀.computed c.smap id)

theorem showsComputed_of_suits {sections : List (Text × List RangeItem)}
    {sensors : List (ObjectId × Setting)} (h : ∀ c₀, load sections sensors = some c₀ → c₀.Suits) :
    ShowsComputed sections sensors := by
  intro c₀ hload calls id
  obtain ⟨c, hrun, hkept⟩ := ((loaded_load hload).kept (h c₀ hload)).run calls
  obtain ⟨c', hget, -⟩ := hkept.getTags id
  exact ⟨c, hrun, congrArg (Option.map Prod.fst) hget⟩

/-- Two sensors with one list of ranges, whose texts show the range only, and a list of one sensor
with a text that shows the value. -/
theorem showsComputed_dynval :
    ShowsComputed
      [("post".toList, [.value 0 "post=none".toList, .range 1 3 "post=%min key=1".toList]),
        ("dynval".toList, [.range 0 10 "dyntag=%v".toList, .range 11 15 "dyntag=%min_%v_%max".toList])]
      [(5, .tags [(some 8, "post".toList), (some 9, "dynval".toList)]),
        (6, .dyn_values "post".toList (some 9) 0),
        (7, .dyn_tags "tag1=key1 tag2=key2".toList (some 8) 0)] := by
  exact showsComputed_of_suits fun c₀ hload =>
    of_decide_eq_true ((Option.all_eq_true (decide ·.Suits) _).mp (by decide +kernel) c₀ hload)

/-- A list of three tags, the last of which is plain, keeps the value that was seen first. -/
theorem not_showsComputed :
    ¬ShowsComputed
      [("myDynValue".toList, [.range (-9223372036854775808) 9223372036854775807 "mykey=%v key2=%min key3=text".toList])]
      [(1, .dyn_values "myDynValue".toList (some 3) 0)] := by
  intro h
  have hbad : ((load
      [("myDynValue".toList, [.range (-9223372036854775808) 9223372036854775807 "mykey=%v key2=%min key3=text".toList])]
      [(1, .dyn_values "myDynValue".toList (some 3) 0)]).bind fun c₀ =>
        (c₀.run [.updateTags 3 5, .getTags 1, .updateTags 3 6]).bind fun c =>
          (c.getTags 1).map fun out => decide (out.1 = c₀.computed c.smap 1)) = some false := by
    decide +kernel
  obtain ⟨c₀, hload, hbad⟩ := Option.bind_eq_some_iff.mp hbad
  obtain ⟨c, hrun, hbad⟩ := Option.bind_eq_some_iff.mp hbad
  obtain ⟨out, hget, hne⟩ := Option.map_eq_some_iff.mp hbad
  obtain ⟨c', hrun', hget'⟩ := h c₀ hload [.updateTags 3 5, .getTags 1, .updateTags 3 6] 1
  obtain rfl : c = c' := Option.some.inj (hrun.symm.trans hrun')
  rw [hget] at hget'
  exact of_decide_eq_false hne (Option.some.inj hget')

end Uniset.Backends.ClickHouseTags
