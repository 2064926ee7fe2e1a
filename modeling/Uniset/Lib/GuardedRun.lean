import Mathlib.Data.List.Basic
import Mathlib.Logic.Function.Basic
import Mathlib.Logic.Relation

/-! Runs of a labelled step function that may fault.  A guard constrains every
step by the state before it; what the guarded steps preserve holds in every
state such a run reaches. -/

universe u v

namespace Uniset.Lib

variable {σ : Type u} {ι : Type v}

/-- One step under a label that meets the guard in the state before it. -/
def GuardedStep (step : σ → ι → Option σ) (G : σ → ι → Prop) (s t : σ) : Prop :=
  ∃ i, G s i ∧ step s i = some t

/-- `t` is reached from `s` by finitely many guarded steps. -/
def Reaches (step : σ → ι → Option σ) (G : σ → ι → Prop) : σ → σ → Prop :=
  Relation.ReflTransGen (GuardedStep step G)

theorem Reaches.refl {step : σ → ι → Option σ} {G : σ → ι → Prop} (s : σ) :
    Reaches step G s s := Relation.ReflTransGen.refl

theorem Reaches.tail {step : σ → ι → Option σ} {G : σ → ι → Prop} {s t u : σ} {i : ι}
    (h : Reaches step G s t) (hG : G t i) (hi : step t i = some u) : Reaches step G s u :=
  Relation.ReflTransGen.tail h ⟨i, hG, hi⟩

theorem Reaches.head {step : σ → ι → Option σ} {G : σ → ι → Prop} {s t u : σ} {i : ι} (hG : G s i)
    (hi : step s i = some t) (h : Reaches step G t u) : Reaches step G s u :=
  Relation.ReflTransGen.head ⟨i, hG, hi⟩ h

theorem Reaches.mono {step : σ → ι → Option σ} {G G' : σ → ι → Prop} (hle : ∀ s i, G s i → G' s i)
    {s t : σ} (h : Reaches step G s t) : Reaches step G' s t := by
  apply Relation.ReflTransGen.mono _ s t h
  rintro s t ⟨i, hG, hi⟩
  exact ⟨i, hle s i hG, hi⟩

/-- A finite run whose guard is met whatever the state. -/
theorem Reaches.of_foldlM {step : σ → ι → Option σ} {G : σ → ι → Prop} {s t : σ} {is : List ι}
    (hG : ∀ i ∈ is, ∀ s, G s i) (h : is.foldlM step s = some t) : Reaches step G s t := by
  induction is generalizing s with
  | nil =>
    cases h
    exact .refl _
  | cons i is ih =>
    simp only [List.foldlM_cons, Option.bind_eq_bind, Option.bind_eq_some_iff] at h
    obtain ⟨u, hu, ht⟩ := h
    exact .head (hG i List.mem_cons_self s) hu (ih (fun i hi => hG i (List.mem_cons_of_mem _ hi)) ht)

/-- A step that is refused where its guard is not met. -/
def checkedStep (step : σ → ι → Option σ) (G : σ → ι → Prop) [∀ s i, Decidable (G s i)] (s : σ)
    (i : ι) : Option σ :=
  if G s i then step s i else none

/-- A finite run: a part of its guard is looked at in every state, and gives the guard for these
inputs. -/
theorem Reaches.of_checked_imp {step : σ → ι → Option σ} {G G' : σ → ι → Prop}
    [∀ s i, Decidable (G' s i)] {s t : σ} {is : List ι} (hG : ∀ i ∈ is, ∀ s, G' s i → G s i)
    (h : is.foldlM (checkedStep step G') s = some t) : Reaches step G s t := by
  induction is generalizing s with
  | nil =>
    cases h
    exact .refl _
  | cons i is ih =>
    simp only [List.foldlM_cons, Option.bind_eq_bind, Option.bind_eq_some_iff, checkedStep,
      Option.ite_none_right_eq_some] at h
    obtain ⟨u, ⟨hchecked, hu⟩, ht⟩ := h
    exact .head (hG i List.mem_cons_self s hchecked) hu
      (ih (fun i hi => hG i (List.mem_cons_of_mem _ hi)) ht)

/-- A finite run whose guard is looked at in every state. -/
theorem Reaches.of_checked {step : σ → ι → Option σ} {G : σ → ι → Prop} [∀ s i, Decidable (G s i)]
    {s t : σ} {is : List ι} (h : is.foldlM (checkedStep step G) s = some t) : Reaches step G s t :=
  .of_checked_imp (fun _ _ _ hG => hG) h

/-- What every guarded step preserves holds in every state reached. -/
theorem Reaches.invariant {step : σ → ι → Option σ} {G : σ → ι → Prop} {I : σ → Prop}
    (hstep : ∀ {s i t}, I s → G s i → step s i = some t → I t)
    {s t : σ} (h : Reaches step G s t) (hs : I s) : I t := by
  induction h with
  | refl => exact hs
  | tail _ hlast ih =>
    obtain ⟨i, hG, hi⟩ := hlast
    exact hstep ih hG hi

/-- A run of a total step function, all its steps guarded. -/
def Guarded (step : σ → ι → σ) (G : σ → ι → Prop) : σ → List ι → Prop
  | _, [] => True
  | s, i :: is => G s i ∧ Guarded step G (step s i) is

instance Guarded.decidable {step : σ → ι → σ} {G : σ → ι → Prop} [∀ s i, Decidable (G s i)] :
    (s : σ) → (is : List ι) → Decidable (Guarded step G s is)
  | _, [] => .isTrue trivial
  | s, i :: is => @instDecidableAnd _ _ _ (Guarded.decidable (step s i) is)

theorem foldl_mem_scanl (step : σ → ι → σ) (s : σ) (is : List ι) :
    is.foldl step s ∈ is.scanl step s := by
  induction is generalizing s with
  | nil => simp
  | cons i is ih =>
    rw [List.scanl_cons, List.foldl_cons]
    exact List.mem_cons_of_mem s (ih (step s i))

theorem Guarded.of_forall {step : σ → ι → σ} {G : σ → ι → Prop} (hG : ∀ s i, G s i) {s : σ}
    {is : List ι} : Guarded step G s is := by
  induction is generalizing s with
  | nil => trivial
  | cons i is ih => exact ⟨hG s i, ih⟩

theorem Guarded.mono {step : σ → ι → σ} {G G' : σ → ι → Prop} {P : σ → Prop}
    (hle : ∀ s i, P s → G s i → G' s i) {s : σ} {is : List ι} (h : Guarded step G s is)
    (hP : ∀ t ∈ List.scanl step s is, P t) : Guarded step G' s is := by
  induction is generalizing s with
  | nil => trivial
  | cons i is ih =>
    simp only [List.scanl_cons, List.mem_cons, forall_eq_or_imp] at hP
    exact ⟨hle s i hP.1 h.1, ih h.2 hP.2⟩

/-- The steps of a guarded run have what each has in a state with the invariant. -/
theorem Guarded.of_invariant {step : σ → ι → σ} {G G' : σ → ι → Prop} {I : σ → Prop}
    (hstep : ∀ s i, I s → G s i → G' s i ∧ I (step s i)) {s : σ} {is : List ι} (hs : I s)
    (h : Guarded step G s is) : Guarded step G' s is := by
  induction is generalizing s with
  | nil => trivial
  | cons i is ih =>
    obtain ⟨hG', hI⟩ := hstep s i hs h.1
    exact ⟨hG', ih hI h.2⟩

/-- The steps of a run one by one, each after those before it. -/
theorem guarded_iff_forall {step : σ → ι → σ} {G : σ → ι → Prop} {s : σ} {is : List ι} :
    Guarded step G s is ↔
      ∀ before i after, is = before ++ i :: after → G (before.foldl step s) i := by
  induction is generalizing s with
  | nil =>
    refine iff_of_true trivial fun before i after h => ?_
    simp at h
  | cons j is ih =>
    rw [Guarded, ih]
    constructor
    · rintro ⟨hfirst, hrest⟩ before i after h
      cases before with
      | nil =>
        cases h
        exact hfirst
      | cons k before =>
        cases h
        exact hrest before i after rfl
    · intro hall
      refine ⟨hall [] j is rfl, fun before i after h => ?_⟩
      exact hall (j :: before) i after (congrArg (j :: ·) h)

/-- Guards that mean the same in a state with the invariant, in a run whose steps keep it. -/
theorem Guarded.congr {step : σ → ι → σ} {G G' T : σ → ι → Prop} {I : σ → Prop}
    (hinv : ∀ s i, I s → T s i → I (step s i)) (hstep : ∀ s i, I s → T s i → (G s i ↔ G' s i)) {s : σ}
    {is : List ι} (hs : I s) (h : Guarded step T s is) :
    Guarded step G s is ↔ Guarded step G' s is := by
  induction is generalizing s with
  | nil => exact Iff.rfl
  | cons i is ih => exact and_congr (hstep s i hs h.1) (ih (hinv s i hs h.1) h.2)

/-- An invariant of the guarded steps holds in every state a guarded run visits. -/
theorem Guarded.forall_visited {step : σ → ι → σ} {G : σ → ι → Prop} {I : σ → Prop}
    (hstep : ∀ s i, I s → G s i → I (step s i)) {s : σ} {is : List ι} (hs : I s)
    (h : Guarded step G s is) : ∀ t ∈ List.scanl step s is, I t := by
  induction is generalizing s with
  | nil => simpa using hs
  | cons i is ih =>
    rw [List.scanl_cons, List.forall_mem_cons]
    exact ⟨hs, ih (hstep s i hs h.1) h.2⟩

/-- When the guard is exact for one step from a state with the invariant, it is exact for whole
runs: the property holds in every state visited if and only if every step is guarded. -/
theorem forall_visited_iff_guarded_of_invariant {step : σ → ι → σ} {G : σ → ι → Prop}
    {I P : σ → Prop} (hinv : ∀ s i, I s → P s → G s i → I (step s i))
    (hstep : ∀ s i, I s → P s → (P (step s i) ↔ G s i)) {s : σ} (hI : I s) (hs : P s)
    (is : List ι) : (∀ t ∈ List.scanl step s is, P t) ↔ Guarded step G s is := by
  induction is generalizing s with
  | nil => simpa [Guarded] using hs
  | cons i is ih =>
    simp only [List.scanl_cons, List.mem_cons, forall_eq_or_imp, Guarded]
    constructor
    · rintro ⟨-, htail⟩
      have hnext : P (step s i) := htail _ (by cases is <;> simp [List.scanl])
      have hG : G s i := (hstep s i hI hs).mp hnext
      exact ⟨hG, (ih (hinv s i hI hs hG) hnext).mp htail⟩
    · rintro ⟨hG, htail⟩
      exact ⟨hs, (ih (hinv s i hI hs hG) ((hstep s i hI hs).mpr hG)).mpr htail⟩

/-- The same within runs whose states all have a property that the steps need not keep. -/
theorem forall_visited_iff_guarded_within {step : σ → ι → σ} {G : σ → ι → Prop}
    {I P T : σ → Prop} (hinv : ∀ s i, I s → I (step s i))
    (hstep : ∀ s i, I s → T s → P s → (P (step s i) ↔ G s i)) {s : σ} (hI : I s) (hs : P s)
    (is : List ι) (hT : ∀ t ∈ List.scanl step s is, T t) :
    (∀ t ∈ List.scanl step s is, P t) ↔ Guarded step G s is := by
  induction is generalizing s with
  | nil => simpa [Guarded] using hs
  | cons i is ih =>
    simp only [List.scanl_cons, List.mem_cons, forall_eq_or_imp, Guarded] at hT ⊢
    have hfirst : P (step s i) ↔ G s i := hstep s i hI hT.1 hs
    constructor
    · rintro ⟨-, htail⟩
      have hnext : P (step s i) := htail _ (by cases is <;> simp [List.scanl])
      exact ⟨hfirst.mp hnext, (ih (hinv s i hI) hnext hT.2).mp htail⟩
    · rintro ⟨hG, htail⟩
      exact ⟨hs, (ih (hinv s i hI) (hfirst.mpr hG) hT.2).mpr htail⟩

theorem forall_visited_iff_start_and_guarded {step : σ → ι → σ} {G : σ → ι → Prop}
    {I P : σ → Prop} (hinv : ∀ s i, I s → P s → G s i → I (step s i))
    (hstep : ∀ s i, I s → P s → (P (step s i) ↔ G s i)) {s : σ} (hI : I s) (is : List ι) :
    (∀ t ∈ List.scanl step s is, P t) ↔ P s ∧ Guarded step G s is := by
  have hruns : P s → ((∀ t ∈ List.scanl step s is, P t) ↔ Guarded step G s is) := fun hs =>
    forall_visited_iff_guarded_of_invariant hinv hstep hI hs is
  constructor
  · intro hall
    have hs : P s := hall s (by cases is <;> simp [List.scanl])
    exact ⟨hs, (hruns hs).mp hall⟩
  · rintro ⟨hs, hG⟩
    exact (hruns hs).mpr hG

theorem forall_visited_iff_guarded {step : σ → ι → σ} {G : σ → ι → Prop} {P : σ → Prop}
    (hstep : ∀ s i, P s → (P (step s i) ↔ G s i)) {s : σ} (hs : P s) (is : List ι) :
    (∀ t ∈ List.scanl step s is, P t) ↔ Guarded step G s is :=
  forall_visited_iff_guarded_of_invariant (I := fun _ => True) (fun _ _ _ _ _ => trivial)
    (fun s i _ => hstep s i) trivial hs is

end Uniset.Lib

/-! Threads over a shared state.  A step is what a thread does at once: under a lock, or by one
atomic operation. -/

universe w x

namespace Uniset.Lib

/-- A shared state, and for every thread where it stands in what it does. -/
structure Threads (τ : Type u) (σ : Type v) (κ : Type w) where
  shared : σ
  locals : τ → κ

namespace Threads

variable {τ : Type u} {σ : Type v} {κ : Type w} {ι : Type x} [DecidableEq τ]

def step (act : ι → σ → κ → Option (σ × κ)) (s : Threads τ σ κ) (i : τ × ι) :
    Option (Threads τ σ κ) :=
  (act i.2 s.shared (s.locals i.1)).map fun r => ⟨r.1, Function.update s.locals i.1 r.2⟩

variable {act : ι → σ → κ → Option (σ × κ)} {G : Threads τ σ κ → τ × ι → Prop}
  {s s' : Threads τ σ κ}

theorem step_eq_some {i : τ × ι} (h : s.step act i = some s') :
    ∃ sh k, act i.2 s.shared (s.locals i.1) = some (sh, k) ∧
      s' = ⟨sh, Function.update s.locals i.1 k⟩ := by
  rw [step, Option.map_eq_some_iff] at h
  obtain ⟨⟨sh, k⟩, hact, rfl⟩ := h
  exact ⟨sh, k, hact, rfl⟩

/-- What every step keeps of the shared state, whoever takes it. -/
theorem reaches_shared {I : σ → Prop}
    (hact : ∀ {i sh k sh' k'}, I sh → act i sh k = some (sh', k') → I sh')
    (h : Reaches (step act) G s s') (hs : I s.shared) : I s'.shared := by
  refine h.invariant (I := fun s => I s.shared) ?_ hs
  intro s i t hI _ hi
  obtain ⟨sh, k, hstep, rfl⟩ := step_eq_some hi
  exact hact hI hstep

end Threads

end Uniset.Lib
