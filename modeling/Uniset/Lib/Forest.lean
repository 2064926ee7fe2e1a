import Mathlib.Logic.Relation
import Mathlib.Data.List.Nodup
import Mathlib.Data.List.Perm.Subperm

/-! Finite forests given by the children of each node, and visits that go down them.  A visit
acts on the children of a node in their order, goes on below those it is told to, and leaves
a node for good when the action fails on one of its children. -/

universe u v w

namespace Uniset.Lib

structure Forest (α : Type u) where
  nodes : List α
  children : α → List α
  children_subset : ∀ p, children p ⊆ nodes
  children_nodup : ∀ p, (children p).Nodup
  parent_unique : ∀ {p q c}, c ∈ children p → c ∈ children q → p = q
  acyclic : ∀ x, ¬Relation.TransGen (fun p c => c ∈ children p) x x

namespace Forest

variable {α : Type u} (F : Forest α)

def Child (p c : α) : Prop := c ∈ F.children p

/-- `y` is `x` or lies below it. -/
def Within : α → α → Prop := Relation.ReflTransGen F.Child

variable {F}

theorem Within.refl (x : α) : F.Within x x := Relation.ReflTransGen.refl

theorem Within.head {x c y : α} (hc : c ∈ F.children x) (h : F.Within c y) : F.Within x y :=
  Relation.ReflTransGen.head hc h

theorem Within.tail {x y z : α} (h : F.Within x y) (hz : z ∈ F.children y) : F.Within x z :=
  Relation.ReflTransGen.tail h hz

theorem within_iff {x y : α} : F.Within x y ↔ y = x ∨ ∃ c ∈ F.children x, F.Within c y := by
  constructor
  · intro h
    rcases Relation.ReflTransGen.cases_head h with rfl | ⟨c, hc, hy⟩
    · exact .inl rfl
    · exact .inr ⟨c, hc, hy⟩
  · rintro (rfl | ⟨c, hc, hy⟩)
    · exact .refl _
    · exact hy.head hc

/-- A parent does not lie below its child. -/
theorem not_within_parent {p c : α} (hc : c ∈ F.children p) : ¬F.Within c p := fun h =>
  F.acyclic p (Relation.TransGen.head' hc h)

/-- Nothing lies below two children of one node. -/
theorem siblings_apart {p c d y : α} (hc : c ∈ F.children p) (hd : d ∈ F.children p)
    (hne : c ≠ d) (hy : F.Within c y) : ¬F.Within d y := by
  -- upwards from `y` there is one way, so one of the siblings lies below the other
  have hbelow : ∀ {a b : α}, a ∈ F.children p → b ∈ F.children p → a ≠ b → ¬F.Within a b := by
    intro a b ha hb hab h
    rcases Relation.ReflTransGen.cases_tail h with heq | ⟨q, hq, hqb⟩
    · exact hab heq.symm
    · cases F.parent_unique hqb hb
      exact not_within_parent ha hq
  intro hy'
  have hup : Relation.ReflTransGen (Function.swap F.Child) c d ∨
      Relation.ReflTransGen (Function.swap F.Child) d c :=
    (Relation.ReflTransGen.total_of_right_unique
      (fun _ _ _ hab hac => F.parent_unique hab hac) (Relation.reflTransGen_swap.mpr hy)
      (Relation.reflTransGen_swap.mpr hy'))
  rcases hup with h | h
  · exact hbelow hd hc hne.symm (Relation.reflTransGen_swap.mp h)
  · exact hbelow hc hd hne (Relation.reflTransGen_swap.mp h)

/-- The ways down are no longer than the forest is large. -/
theorem length_le_of_isChain {x : α} {l : List α} (h : (x :: l).IsChain F.Child) :
    l.length ≤ F.nodes.length := by
  have htrans : (x :: l).Pairwise (Relation.TransGen F.Child) :=
    (h.imp fun _ _ hc => Relation.TransGen.single hc).pairwise
  have hnodup : l.Nodup :=
    (List.pairwise_cons.mp htrans).2.imp fun hab heq => by
      subst heq
      exact F.acyclic _ hab
  have hsubset : l ⊆ F.nodes := by
    intro c hc
    obtain ⟨q, -, hq⟩ :=
      Relation.TransGen.tail'_iff.mp ((List.pairwise_cons.mp htrans).1 c hc)
    exact F.children_subset q hq
  exact (List.subperm_of_subset hnodup hsubset).length_le

theorem bounded_induction {P : α → Prop} (h : ∀ x, (∀ c ∈ F.children x, P c) → P x) (n : Nat) :
    ∀ x, (∀ l, (x :: l).IsChain F.Child → l.length ≤ n) → P x := by
  induction n with
  | zero =>
    intro x hx
    refine h x fun c hc => ?_
    have hlen := hx [c] (List.isChain_cons_cons.mpr ⟨hc, List.IsChain.singleton c⟩)
    simp at hlen
  | succ n ih =>
    intro x hx
    refine h x fun c hc => ih c fun l hl => ?_
    simpa using hx (c :: l) (List.isChain_cons_cons.mpr ⟨hc, hl⟩)

/-- What holds of a node when it holds of its children holds everywhere. -/
theorem induction {P : α → Prop} (h : ∀ x, (∀ c ∈ F.children x, P c) → P x) (x : α) : P x :=
  bounded_induction h F.nodes.length x fun _ => length_le_of_isChain

section Visit

variable {σ : Type v} {ε : Type w}

/-- The loop over the children `cs` of a node.  `act` says whether to go on below the child;
its failure ends the loop. -/
def visitChildren (visit : α → σ → Option σ) (act : α → σ → σ × Except ε Bool) :
    List α → σ → Option σ
  | [], s => some s
  | c :: cs, s =>
    match act c s with
    | (s, .error _) => some s
    | (s, .ok false) => visitChildren visit act cs s
    | (s, .ok true) => (visit c s).bind (visitChildren visit act cs)

variable (F) in
def visitFuel (act : α → α → σ → σ × Except ε Bool) : Nat → α → σ → Option σ
  | 0, _, _ => none
  | n + 1, x, s => visitChildren (visitFuel act n) (act x) (F.children x) s

variable {act : α → α → σ → σ × Except ε Bool}

theorem visitChildren_isSome {visit : α → σ → Option σ} {act : α → σ → σ × Except ε Bool}
    {cs : List α} (h : ∀ c ∈ cs, ∀ s, (visit c s).isSome) (s : σ) :
    (visitChildren visit act cs s).isSome := by
  induction cs generalizing s with
  | nil => rfl
  | cons c cs ih =>
    have hrest : ∀ s, (visitChildren visit act cs s).isSome :=
      ih fun d hd => h d (List.mem_cons_of_mem _ hd)
    unfold visitChildren
    split
    · rfl
    · exact hrest _
    · next t _ =>
      obtain ⟨u, hu⟩ := Option.isSome_iff_exists.mp (h c List.mem_cons_self t)
      simp only [hu, Option.bind_some]
      exact hrest u

theorem visitFuel_isSome (n : Nat) :
    ∀ x, (∀ l, (x :: l).IsChain F.Child → l.length < n) → ∀ s : σ,
      (F.visitFuel act n x s).isSome := by
  induction n with
  | zero => exact fun x hx => absurd (hx [] (List.IsChain.singleton x)) (Nat.lt_irrefl 0)
  | succ n ih =>
    intro x hx s
    refine visitChildren_isSome (fun c hc s => ih c (fun l hl => ?_) s) s
    simpa using hx (c :: l) (List.isChain_cons_cons.mpr ⟨hc, hl⟩)

theorem visitChildren_mono {visit visit' : α → σ → Option σ} {act : α → σ → σ × Except ε Bool}
    (hle : ∀ c s t, visit c s = some t → visit' c s = some t) {cs : List α} {s t : σ}
    (h : visitChildren visit act cs s = some t) : visitChildren visit' act cs s = some t := by
  induction cs generalizing s with
  | nil => exact h
  | cons c cs ih =>
    unfold visitChildren at h ⊢
    split at h
    · exact h
    · exact ih h
    · obtain ⟨u, hu, ht⟩ := Option.bind_eq_some_iff.mp h
      simp only [hle _ _ _ hu, Option.bind_some]
      exact ih ht

theorem visitFuel_succ (n : Nat) :
    ∀ (x : α) (s t : σ), F.visitFuel act n x s = some t → F.visitFuel act (n + 1) x s = some t := by
  induction n with
  | zero => exact fun _ _ _ h => nomatch h
  | succ n ih => exact fun _ _ _ h => visitChildren_mono ih h

variable (F act) in
/-- The visit of everything below a node.  The forest bounds its depth. -/
def visit (x : α) (s : σ) : σ :=
  (F.visitFuel act (F.nodes.length + 1) x s).get
    (visitFuel_isSome _ x (fun _ hl => Nat.lt_succ_of_le (length_le_of_isChain hl)) s)

theorem visitFuel_eq_visit (x : α) (s : σ) :
    F.visitFuel act (F.nodes.length + 1) x s = some (F.visit act x s) :=
  (Option.some_get _).symm

variable (F act) in
/-- The loop of a visit over some children of the node `p`. -/
def visitList (p : α) : List α → σ → σ
  | [], s => s
  | c :: cs, s =>
    match act p c s with
    | (s, .error _) => s
    | (s, .ok false) => visitList p cs s
    | (s, .ok true) => visitList p cs (F.visit act c s)

theorem visitChildren_eq_visitList (p : α) (cs : List α) (s : σ) :
    visitChildren (F.visitFuel act (F.nodes.length + 1)) (act p) cs s =
      some (F.visitList act p cs s) := by
  induction cs generalizing s with
  | nil => rfl
  | cons c cs ih =>
    unfold visitChildren visitList
    split
    · rfl
    · exact ih _
    · simp only [visitFuel_eq_visit, Option.bind_some]
      exact ih _

theorem visit_eq (x : α) (s : σ) : F.visit act x s = F.visitList act x (F.children x) s := by
  have hvisit : F.visitFuel act (F.nodes.length + 2) x s = some (F.visit act x s) :=
    visitFuel_succ _ _ _ _ (visitFuel_eq_visit x s)
  exact Option.some_inj.mp (hvisit.symm.trans (visitChildren_eq_visitList x _ s))

theorem visitList_error {p c : α} {cs : List α} {s t : σ} {e : ε} (h : act p c s = (t, .error e)) :
    F.visitList act p (c :: cs) s = t := by
  simp only [visitList, h]

theorem visitList_skip {p c : α} {cs : List α} {s t : σ} (h : act p c s = (t, .ok false)) :
    F.visitList act p (c :: cs) s = F.visitList act p cs t := by
  simp only [visitList, h]

theorem visitList_descend {p c : α} {cs : List α} {s t : σ} (h : act p c s = (t, .ok true)) :
    F.visitList act p (c :: cs) s = F.visitList act p cs (F.visit act c t) := by
  simp only [visitList, h]

/-- What every action preserves is preserved by a visit. -/
theorem visit_rel {R : σ → σ → Prop} (hrefl : ∀ s, R s s) (htrans : ∀ {s t u}, R s t → R t u → R s u)
    (hact : ∀ p c s, R s (act p c s).1) (x : α) : ∀ s, R s (F.visit act x s) := by
  refine induction (F := F) (P := fun x => ∀ s, R s (F.visit act x s)) (fun x ih s => ?_) x
  rw [visit_eq]
  generalize hcs : F.children x = cs at ih
  clear hcs
  induction cs generalizing s with
  | nil => exact hrefl s
  | cons c cs ihcs =>
    have hc := hact x c s
    have hrest : ∀ s, R s (F.visitList act x cs s) := fun s =>
      ihcs s fun d hd => ih d (List.mem_cons_of_mem _ hd)
    rcases heq : act x c s with ⟨t, e | below⟩
    · rw [visitList_error heq]
      simpa [heq] using hc
    · rw [heq] at hc
      cases below with
      | false =>
        rw [visitList_skip heq]
        exact htrans hc (hrest t)
      | true =>
        rw [visitList_descend heq]
        exact htrans hc (htrans (ih c List.mem_cons_self t) (hrest _))

end Visit

section Frame

variable {τ : Type v} {ε : Type w} {act : α → α → (α → τ) → (α → τ) × Except ε Bool}
  (hlocal : ∀ p c s y, y ≠ c → (act p c s).1 y = s y)

include hlocal

theorem visitList_frame_of {p y : α} {cs : List α} (hcs : ∀ c ∈ cs, ¬F.Within c y)
    (hvisit : ∀ c ∈ cs, ∀ s, F.visit act c s y = s y) (s : α → τ) :
    F.visitList act p cs s y = s y := by
  induction cs generalizing s with
  | nil => rfl
  | cons c cs ih =>
    have hc : (act p c s).1 y = s y :=
      hlocal p c s y fun heq => hcs c List.mem_cons_self (heq ▸ Within.refl _)
    have hrest := ih (fun d hd => hcs d (List.mem_cons_of_mem _ hd))
      fun d hd => hvisit d (List.mem_cons_of_mem _ hd)
    rcases heq : act p c s with ⟨t, e | below⟩
    · rw [visitList_error heq]
      simpa [heq] using hc
    · have ht : t y = s y := by rw [heq] at hc; exact hc
      cases below with
      | false => rw [visitList_skip heq, hrest, ht]
      | true => rw [visitList_descend heq, hrest, hvisit c List.mem_cons_self, ht]

/-- Where an action writes only the child it is given, a visit writes only what lies below
its node. -/
theorem visit_frame {y : α} (x : α) :
    (∀ c ∈ F.children x, ¬F.Within c y) → ∀ s, F.visit act x s y = s y := by
  refine induction (F := F)
    (P := fun x => (∀ c ∈ F.children x, ¬F.Within c y) → ∀ s, F.visit act x s y = s y)
    (fun x ih hx s => ?_) x
  rw [visit_eq]
  refine visitList_frame_of hlocal hx (fun c hc => ih c hc fun d hd h => ?_) s
  exact hx c hc (h.head hd)

theorem visitList_frame {p y : α} {cs : List α} (hcs : ∀ c ∈ cs, ¬F.Within c y) (s : α → τ) :
    F.visitList act p cs s y = s y :=
  visitList_frame_of hlocal hcs
    (fun c hc => visit_frame hlocal c fun _ hd h => hcs c hc (h.head hd)) s

end Frame

section Parents

variable [DecidableEq α] {parent : α → Option α} {nodes : List α}

variable (parent nodes) in
/-- The nodes with the parent `p`. -/
def childrenOf (p : α) : List α := nodes.filter fun c => parent c = some p

theorem mem_childrenOf {p c : α} : c ∈ childrenOf parent nodes p ↔ c ∈ nodes ∧ parent c = some p := by
  simp [childrenOf]

variable (parent) in
/-- The forest in which each node hangs below its parent, if it has one. -/
def ofParent (hnodup : nodes.Nodup)
    (hacyclic : ∀ x, ¬Relation.TransGen (fun p c => c ∈ childrenOf parent nodes p) x x) :
    Forest α where
  nodes := nodes
  children := childrenOf parent nodes
  children_subset _ _ hc := (mem_childrenOf.mp hc).1
  children_nodup _ := hnodup.filter _
  parent_unique hp hq :=
    Option.some_inj.mp ((mem_childrenOf.mp hp).2.symm.trans (mem_childrenOf.mp hq).2)
  acyclic := hacyclic

/-- The order of the nodes makes no cycle. -/
theorem acyclic_perm {nodes' : List α} (hperm : nodes'.Perm nodes)
    (hacyclic : ∀ x, ¬Relation.TransGen (fun p c => c ∈ childrenOf parent nodes p) x x) (x : α) :
    ¬Relation.TransGen (fun p c => c ∈ childrenOf parent nodes' p) x x := by
  have hsame : ∀ p c, c ∈ childrenOf parent nodes' p → c ∈ childrenOf parent nodes p :=
    fun p c hc => (hperm.filter _).mem_iff.mp hc
  exact fun hcycle => hacyclic x (Relation.TransGen.mono hsame x x hcycle)

/-- The same forest, with its nodes in another order. -/
def reorder (F : Forest α) {nodes : List α} (hperm : nodes.Perm F.nodes) : Forest α :=
  { F with
    nodes := nodes
    children_subset := fun p _ hc => hperm.symm.subset (F.children_subset p hc) }

/-- A rank that falls from each parent to its children excludes cycles. -/
theorem acyclic_of_rank (rank : α → Nat)
    (h : ∀ c ∈ nodes, ∀ p, parent c = some p → rank c < rank p) (x : α) :
    ¬Relation.TransGen (fun p c => c ∈ childrenOf parent nodes p) x x := by
  intro hcycle
  have hfall : ∀ {a b}, Relation.TransGen (fun p c => c ∈ childrenOf parent nodes p) a b →
      rank b < rank a := by
    intro a b hab
    induction hab with
    | single hc => exact h _ (mem_childrenOf.mp hc).1 _ (mem_childrenOf.mp hc).2
    | tail _ hc ih => exact Nat.lt_trans (h _ (mem_childrenOf.mp hc).1 _ (mem_childrenOf.mp hc).2) ih
  exact Nat.lt_irrefl _ (hfall hcycle)

end Parents

end Forest

end Uniset.Lib
