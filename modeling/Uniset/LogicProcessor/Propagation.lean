import Uniset.LogicProcessor.ElementLaws
import Uniset.LogicProcessor.Acyclicity

/-! How a change goes through the links: the calls of `setIn` one after the other, and what each
of them keeps. -/

universe u

namespace Uniset.LogicProcessor

open Relation Uniset.Lib

variable {π : Type u}

namespace Heap

/-- `a` has a link to the input `n` of `e`. -/
def FeedsPort (h : Heap π) (a e : π) (n : Nat) : Prop :=
  ∃ it ∈ (h a).outs, it.el = e ∧ (h e).gate.SamePort it.num n

/-- No input is linked from inside the schema and called from outside. -/
def External (h : Heap π) (c : Call π) : Prop := ∀ a, ¬h.FeedsPort a c.el c.num

/-- The links have no cycle, and no input has two of them. -/
structure Wired (h : Heap π) : Prop where
  acyclic : Acyclic h.Child
  single : ∀ {a a' e n}, h.FeedsPort a e n → h.FeedsPort a' e n → a = a'

variable {h h' : Heap π}

theorem FeedsPort.child {a e : π} {n : Nat} (hfeeds : h.FeedsPort a e n) : h.Child a e := by
  obtain ⟨it, hit, hel, -⟩ := hfeeds
  exact ⟨it, hit, hel⟩

theorem feedsPort_of_mem {a : π} {it : ChildInfo π} (hit : it ∈ (h a).outs) :
    h.FeedsPort a it.el it.num :=
  ⟨it, hit, rfl, .inl rfl⟩

/-- The same elements with the same links, and other values in them. -/
structure SameNet (h h' : Heap π) : Prop extends SameLinks h h' where
  kind : ∀ e, Gate.SameKind (h e).gate (h' e).gate

theorem SameNet.refl (h : Heap π) : SameNet h h := ⟨.refl h, fun _ => .refl _⟩

theorem SameNet.trans {h'' : Heap π} (hh : SameNet h h') (hh' : SameNet h' h'') :
    SameNet h h'' :=
  ⟨hh.toSameLinks.trans hh'.toSameLinks, fun e => (hh.kind e).trans (hh'.kind e)⟩

theorem SameNet.feedsPort_iff (hh : SameNet h h') {a e : π} {n : Nat} :
    h'.FeedsPort a e n ↔ h.FeedsPort a e n := by
  simp only [FeedsPort, hh.outs, (hh.kind e).samePort]

theorem SameNet.wired (hh : SameNet h h') (hw : h.Wired) : h'.Wired where
  acyclic := hh.child_eq ▸ hw.acyclic
  single ha ha' := hw.single (hh.feedsPort_iff.mp ha) (hh.feedsPort_iff.mp ha')

variable [DecidableEq π]

/-- One call with the calls that are still to be made after it: its own calls come first. -/
inductive Turn : Heap π × List (Call π) → Heap π × List (Call π) → Prop
  | turn (h : Heap π) (c : Call π) (calls : List (Call π)) :
    Turn (h, c :: calls) ((h.take c).1, (h.take c).2 ++ calls)

def Turns : Heap π × List (Call π) → Heap π × List (Call π) → Prop := ReflTransGen Turn

theorem turns_setIn {fuel : Nat} {c : Call π} (hsetIn : h.setIn fuel c = some h')
    (calls : List (Call π)) : Turns (h, c :: calls) (h', calls) := by
  induction fuel generalizing h h' c calls with
  | zero => cases hsetIn
  | succ fuel ih =>
    refine .head (.turn h c calls) ?_
    unfold setIn at hsetIn
    generalize (h.take c).1 = u at hsetIn ⊢
    generalize (h.take c).2 = inner at hsetIn ⊢
    induction inner generalizing u with
    | nil =>
      cases hsetIn
      exact .refl
    | cons d inner ihinner =>
      simp only [List.foldlM_cons, Option.bind_eq_bind, Option.bind_eq_some_iff] at hsetIn
      obtain ⟨w, hd, hrest⟩ := hsetIn
      exact (ih hd (inner ++ calls)).trans (ihinner w hrest)

/-! One call. -/

variable {c : Call π}

theorem take_of_ne {e : π} (he : e ≠ c.el) : (h.take c).1 e = h e :=
  Function.update_of_ne he _ _

theorem gate_take_self : ((h.take c).1 c.el).gate =
    ((h c.el).gate.setIn (h c.el).init_out c.num c.value).1 := by
  simp [take]

theorem init_out_take_self : ((h.take c).1 c.el).init_out =
    ((h c.el).gate.setIn (h c.el).init_out c.num c.value).2.1 := by
  simp [take]

theorem sameNet_take (h : Heap π) (c : Call π) : SameNet h (h.take c).1 := by
  refine ⟨sameLinks_take h c, fun e => ?_⟩
  by_cases he : e = c.el
  · rw [he, gate_take_self]
    exact Gate.setIn_sameKind _ _ _ _
  · rw [take_of_ne he]
    exact .refl _

theorem mem_take_iff {inner : Call π} : inner ∈ (h.take c).2 ↔
    ((h c.el).gate.setIn (h c.el).init_out c.num c.value).2.2 = true ∧
      ∃ it ∈ (h c.el).outs,
        inner = ⟨it.el, it.num, ((h.take c).1 c.el).gate.getOut⟩ := by
  rw [gate_take_self]
  simp only [take]
  split_ifs with hannounced
  · simp [hannounced, eq_comm]
  · simp [hannounced]

theorem takes_take_self : ((h.take c).1 c.el).gate.Takes c.num c.value := by
  rw [gate_take_self]
  exact Gate.setIn_takes _ _ _ _

/-- The call is for another element or another input of it. -/
def Apart (h : Heap π) (e : π) (n : Nat) (c : Call π) : Prop :=
  ¬(c.el = e ∧ (h e).gate.SamePort n c.num)

theorem takes_take_iff {e : π} {n : Nat} {v : Int} (hapart : h.Apart e n c) :
    ((h.take c).1 e).gate.Takes n v ↔ (h e).gate.Takes n v := by
  by_cases he : e = c.el
  · subst he
    rw [gate_take_self]
    exact Gate.setIn_takes_iff fun hport => hapart ⟨rfl, hport.symm⟩
  · rw [take_of_ne he]

/-! The calls still to be made. -/

/-- While calls of `a` wait, what runs lies below `a`; so they carry the output that `a` has. -/
structure Pending (h : Heap π) (calls : List (Call π)) : Prop where
  below : calls.Pairwise fun c c' => ∀ a, h.FeedsPort a c'.el c'.num → TransGen h.Child a c.el
  value : ∀ c ∈ calls, ∀ a, h.FeedsPort a c.el c.num → c.value = (h a).gate.getOut

variable {calls : List (Call π)}

omit [DecidableEq π] in
theorem Pending.of_external (hext : ∀ c ∈ calls, h.External c) : h.Pending calls where
  below := by
    apply List.Pairwise.imp_of_mem (R := fun _ _ => True)
    · intro c c' _ hc' _ a hfeeds
      exact absurd hfeeds (hext c' hc' a)
    · exact List.pairwise_of_forall fun _ _ => trivial
  value c hc a hfeeds := absurd hfeeds (hext c hc a)

omit [DecidableEq π] in
/-- The element called has no calls waiting. -/
theorem Pending.ne_of_feeds (hw : h.Wired) (hp : h.Pending (c :: calls)) {c' : Call π}
    (hc' : c' ∈ calls) {a : π} (hfeeds : h.FeedsPort a c'.el c'.num) : a ≠ c.el :=
  hw.acyclic.ne_of_transGen ((List.pairwise_cons.mp hp.below).1 c' hc' a hfeeds)

theorem Pending.turn (hw : h.Wired) (hp : h.Pending (c :: calls)) :
    (h.take c).1.Pending ((h.take c).2 ++ calls) := by
  have hnet := sameNet_take h c
  obtain ⟨hbelow, hrest⟩ := List.pairwise_cons.mp hp.below
  -- a call made by this one is fed by the element called
  have hinner : ∀ d ∈ (h.take c).2, ∀ a, h.FeedsPort a d.el d.num → a = c.el := by
    intro d hd a hfeeds
    obtain ⟨-, it, hit, rfl⟩ := mem_take_iff.mp hd
    exact hw.single hfeeds (feedsPort_of_mem hit)
  constructor
  · simp only [hnet.feedsPort_iff, hnet.child_eq]
    refine List.pairwise_append.mpr ⟨?_, hrest, ?_⟩
    · apply List.Pairwise.imp_of_mem (R := fun _ _ => True)
      · intro d d' hd hd' _ a hfeeds
        rw [hinner d' hd' a hfeeds]
        exact .single (child_of_mem_take hd)
      · exact List.pairwise_of_forall fun _ _ => trivial
    · intro d hd c' hc' a hfeeds
      exact (hbelow c' hc' a hfeeds).tail (child_of_mem_take hd)
  · simp only [hnet.feedsPort_iff]
    intro d hd a hfeeds
    cases List.mem_append.mp hd with
    | inl hd =>
      rw [hinner d hd a hfeeds]
      obtain ⟨-, it, hit, rfl⟩ := mem_take_iff.mp hd
      rfl
    | inr hd =>
      rw [take_of_ne (hp.ne_of_feeds hw hd hfeeds)]
      exact hp.value d (List.mem_cons_of_mem c hd) a hfeeds

/-- No change of an output is missed by the call. -/
def Keeps (h : Heap π) (c : Call π) : Prop := ¬(h c.el).gate.LosesChange c.num c.value

/-- The child has taken the output of its source.  Nothing is said of a source that has not yet
announced an output. -/
def Current (h : Heap π) (a : π) (it : ChildInfo π) : Prop :=
  (h a).init_out = true ∨ (h it.el).gate.Takes it.num (h a).gate.getOut

/-- The child has taken the output of its source, or is about to. -/
def Told (h : Heap π) (calls : List (Call π)) (a : π) (it : ChildInfo π) : Prop :=
  h.Current a it ∨ ∃ c ∈ calls, c.el = it.el ∧ c.num = it.num

theorem Told.turn (hw : h.Wired) (hp : h.Pending (c :: calls)) (hkeeps : h.Keeps c) {a : π}
    {it : ChildInfo π} (hit : it ∈ (h a).outs) (htold : h.Told (c :: calls) a it) :
    (h.take c).1.Told ((h.take c).2 ++ calls) a it := by
  have hfeeds := feedsPort_of_mem hit
  have hlink : h.Child a it.el := ⟨it, hit, rfl⟩
  by_cases ha : a = c.el
  · -- the source is called: its children are called next, or they know its output
    subst ha
    have hne : it.el ≠ c.el := Ne.symm (hw.acyclic.ne_of_transGen (.single hlink))
    rcases Gate.setIn_announces (h c.el).init_out hkeeps with htold' | hinit | hsame
    · exact .inr ⟨_, List.mem_append_left _ (mem_take_iff.mpr ⟨htold', it, hit, rfl⟩), rfl, rfl⟩
    · exact .inl (.inl (by rw [init_out_take_self]; exact hinit))
    · rcases htold with (hinit | htakes) | ⟨d, hd, hel, hnum⟩
      · rw [hinit] at hsame
        exact absurd hsame.1 Bool.true_eq_false_eq_False
      · refine .inl (.inr ?_)
        rw [take_of_ne hne, gate_take_self, hsame.2]
        exact htakes
      · rcases List.mem_cons.mp hd with rfl | hd
        · exact absurd hel (Ne.symm hne)
        · exact .inr ⟨d, List.mem_append_right _ hd, hel, hnum⟩
  · rcases htold with (hinit | htakes) | ⟨d, hd, hel, hnum⟩
    · exact .inl (.inl (by rw [take_of_ne ha]; exact hinit))
    · refine .inl (.inr ?_)
      rw [take_of_ne ha]
      by_cases hapart : h.Apart it.el it.num c
      · exact (takes_take_iff hapart).mpr htakes
      · -- the input itself is called, with the output of its one source
        obtain ⟨hel, hport⟩ := not_not.mp hapart
        have hvalue := hp.value c List.mem_cons_self a ⟨it, hit, hel.symm, hel ▸ hport⟩
        rw [← hvalue, ← hel]
        refine Gate.takes_of_samePort ?_ takes_take_self
        rw [((sameNet_take h c).kind c.el).samePort, hel]
        exact hport.symm
    · rcases List.mem_cons.mp hd with rfl | hd
      · refine .inl (.inr ?_)
        have hvalue := hp.value d List.mem_cons_self a (hel ▸ hnum ▸ hfeeds)
        rw [take_of_ne ha, ← hvalue, ← hel, ← hnum]
        exact takes_take_self
      · exact .inr ⟨d, List.mem_append_right _ hd, hel, hnum⟩

/-- The element has the output that its inputs ask for, once it has announced one. -/
def Computed (h : Heap π) (e : π) : Prop := (h e).init_out = true ∨ (h e).gate.Computes

theorem Computed.take {e : π} (h0 : h.Computed e) : (h.take c).1.Computed e := by
  unfold Computed at h0 ⊢
  by_cases he : e = c.el
  · subst he
    rw [gate_take_self]
    exact .inr (Gate.setIn_computes h0)
  · rw [take_of_ne he]
    exact h0

/-! All the calls. -/

/-- Every call still to be made keeps the changes. -/
def AllKeep (h : Heap π) (calls : List (Call π)) : Prop :=
  ∀ h' c calls', Turns (h, calls) (h', c :: calls') → h'.Keeps c

theorem AllKeep.head (hkeep : h.AllKeep (c :: calls)) : h.Keeps c := hkeep h c calls .refl

theorem AllKeep.turn (hkeep : h.AllKeep (c :: calls)) :
    (h.take c).1.AllKeep ((h.take c).2 ++ calls) := fun h' d calls' hturns =>
  hkeep h' d calls' (.head (.turn h c calls) hturns)

theorem sameNet_of_turns {s t : Heap π × List (Call π)} (hturns : Turns s t) :
    SameNet s.1 t.1 := by
  induction hturns with
  | refl => exact .refl _
  | tail _ hlast ih =>
    cases hlast with
    | turn u c calls => exact ih.trans (sameNet_take u c)

/-- Only a `TSEL_R` loses a change. -/
theorem allKeep_of_gates
    (hgates : ∀ e myout c t f, (h e).gate ≠ .TSEL_R myout c t f) : h.AllKeep calls := by
  intro h' d calls' hturns hloses
  have hkind := (sameNet_of_turns hturns).kind d.el
  simp only at hkind
  cases hgate : (h' d.el).gate with
  | TSEL_R myout c t f =>
    rw [hgate] at hkind
    cases hgate' : (h d.el).gate with
    | TSEL_R myout' c' t' f' => exact hgates d.el myout' c' t' f' hgate'
    | _ => simp [hgate', Gate.SameKind] at hkind
  | _ => simp [hgate, Gate.LosesChange] at hloses

/-- What the turns keep while they go through what the external calls make. -/
theorem turns_induction {P : Heap π → List (Call π) → Prop}
    (hturn : ∀ {h c calls}, h.Wired → h.Pending (c :: calls) → h.Keeps c → P h (c :: calls) →
      P (h.take c).1 ((h.take c).2 ++ calls))
    {calls' : List (Call π)} (hturns : Turns (h, calls) (h', calls')) (hw : h.Wired)
    (hp : h.Pending calls) (hkeep : h.AllKeep calls) (hP : P h calls) :
    SameNet h h' ∧ P h' calls' := by
  generalize hstart : (h, calls) = start at hturns
  induction hturns using ReflTransGen.head_induction_on generalizing h calls with
  | refl =>
    cases hstart
    exact ⟨.refl h', hP⟩
  | head hfirst _ ih =>
    cases hfirst with
    | turn u c rest =>
      cases hstart
      have hnet := sameNet_take h c
      obtain ⟨hnet', hend'⟩ := ih (hnet.wired hw) (hp.turn hw) hkeep.turn
        (hturn hw hp hkeep.head hP) rfl
      exact ⟨hnet.trans hnet', hend'⟩

end Heap

end Uniset.LogicProcessor
