import Uniset.LogicProcessor.Schema
import Uniset.Lib.Acyclic
import Uniset.Lib.GuardedRun

/-! What the search for a cycle finds, and when the child links stay without cycles. -/

universe u

namespace Uniset.LogicProcessor

open Relation Uniset.Lib

variable {π : Type u}

namespace Heap

def Child (h : Heap π) (x y : π) : Prop := ∃ it ∈ (h x).outs, it.el = y

/-- The child that `find` goes down to. -/
def FirstChild (h : Heap π) (x y : π) : Prop := ∃ it rest, (h x).outs = it :: rest ∧ it.el = y

/-- What `find` looks for is on the way down over first children. -/
def OnFirstPath (h : Heap π) (id : String) (e : π) : Prop :=
  ∃ x, TransGen h.FirstChild e x ∧ (h x).myid = id

variable {h : Heap π}

theorem FirstChild.child {x y : π} (hxy : h.FirstChild x y) : h.Child x y := by
  obtain ⟨it, rest, houts, rfl⟩ := hxy
  exact ⟨it, by simp [houts], rfl⟩

theorem onFirstPath_iff {id : String} {e : π} {it : ChildInfo π} {rest : List (ChildInfo π)}
    (houts : (h e).outs = it :: rest) :
    h.OnFirstPath id e ↔ (h it.el).myid = id ∨ h.OnFirstPath id it.el := by
  have hfirst : ∀ y, h.FirstChild e y ↔ y = it.el := by
    intro y
    simp [FirstChild, houts, eq_comm]
  constructor
  · rintro ⟨x, hx, hid⟩
    obtain ⟨y, hy, hpath⟩ := TransGen.head'_iff.mp hx
    rw [hfirst] at hy
    subst hy
    cases ReflTransGen.cases_head hpath with
    | inl heq =>
      rw [heq]
      exact .inl hid
    | inr hmore =>
      obtain ⟨z, hz, hzx⟩ := hmore
      exact .inr ⟨x, .head' hz hzx, hid⟩
  · rintro (hid | ⟨x, hx, hid⟩)
    · exact ⟨it.el, .single ((hfirst _).mpr rfl), hid⟩
    · exact ⟨x, .head ((hfirst _).mpr rfl) hx, hid⟩

theorem find_isSome_iff {id : String} {fuel : Nat} {e : π} {found : Option π}
    (hfind : h.find id fuel e = some found) : found.isSome ↔ h.OnFirstPath id e := by
  induction fuel generalizing e with
  | zero => cases hfind
  | succ fuel ih =>
    unfold find at hfind
    cases houts : (h e).outs with
    | nil =>
      simp only [houts, Option.some.injEq] at hfind
      subst hfind
      refine iff_of_false (by simp) ?_
      rintro ⟨x, hx, -⟩
      obtain ⟨y, ⟨it, rest, hcons, -⟩, -⟩ := TransGen.head'_iff.mp hx
      rw [houts] at hcons
      cases hcons
    | cons it rest =>
      rw [onFirstPath_iff houts]
      simp only [houts] at hfind
      split_ifs at hfind with hid
      · simp only [Option.some.injEq] at hfind
        subst hfind
        exact iff_of_true rfl (.inl hid)
      · rw [ih hfind]
        exact ⟨.inr, fun h => h.resolve_left hid⟩

/-- The search is as long as the path it follows. -/
theorem exists_find (id : String) {fuel : Nat} {e : π}
    (hpaths : ∀ l, (e :: l).IsChain h.Child → (e :: l).length ≤ fuel) :
    ∃ found, h.find id fuel e = some found := by
  induction fuel generalizing e with
  | zero => exact absurd (hpaths [] (.singleton e)) (by simp)
  | succ fuel ih =>
    unfold find
    cases houts : (h e).outs with
    | nil => exact ⟨none, rfl⟩
    | cons it rest =>
      have hit : h.Child e it.el := ⟨it, by simp [houts], rfl⟩
      obtain ⟨found, hfound⟩ := ih (e := it.el) fun l hl =>
        Nat.le_of_succ_le_succ (hpaths (it.el :: l) (.cons_cons hit hl))
      simp only
      split_ifs
      · exact ⟨_, rfl⟩
      · exact ⟨found, hfound⟩

/-- What `addChildOut` refuses. -/
def Refuses (h : Heap π) (this el : π) : Prop :=
  el = this ∨ h.Child this el ∨ h.OnFirstPath (h this).myid el

variable [DecidableEq π]

theorem addChildOut_cases [Fintype π] (hacyclic : Acyclic h.Child) (this el : π) (num : Nat) :
    (h.Refuses this el ∧ ∃ e, h.addChildOut this el num = some (.error e)) ∨
    (¬h.Refuses this el ∧ h.addChildOut this el num =
      some (.ok (Function.update h this { h this with outs := (h this).outs ++ [⟨el, num⟩] }))) := by
  unfold addChildOut Refuses
  by_cases hself : el = this
  · exact .inl ⟨.inl hself, _, if_pos hself⟩
  rw [if_neg hself]
  have hchild : ((h this).outs.any fun it => it.el = el) ↔ h.Child this el := by
    simp [Child]
  by_cases hany : (h this).outs.any fun it => it.el = el
  · exact .inl ⟨.inr (.inl (hchild.mp hany)), _, if_pos hany⟩
  rw [if_neg hany]
  obtain ⟨found, hfound⟩ := exists_find (h := h) (h this).myid (e := el)
    fun l hl => hacyclic.length_le hl
  have hiff := find_isSome_iff hfound
  rw [hfound]
  cases found with
  | some x => exact .inl ⟨.inr (.inr (hiff.mp rfl)), _, rfl⟩
  | none =>
    have hnot : ¬h.OnFirstPath (h this).myid el := fun hpath => by simpa using hiff.mpr hpath
    exact .inr ⟨by simp [hself, ← hchild, hany, hnot], rfl⟩

theorem child_update_outs {x y this el : π} {num : Nat} :
    Child (Function.update h this { h this with outs := (h this).outs ++ [⟨el, num⟩] }) x y ↔
      h.Child x y ∨ (x = this ∧ y = el) := by
  by_cases hx : x = this
  · subst hx
    simp only [Child, Function.update_self, List.mem_append, List.mem_singleton, or_and_right,
      exists_or, true_and]
    exact or_congr_right ⟨by rintro ⟨_, rfl, rfl⟩; rfl, fun hy => ⟨_, rfl, hy.symm⟩⟩
  · simp [Child, hx]

theorem child_delChildOut {x y this el : π} (hxy : (h.delChildOut this el).Child x y) :
    h.Child x y := by
  obtain ⟨it, hit, rfl⟩ := hxy
  by_cases hx : x = this
  · subst hx
    simp only [delChildOut, Function.update_self] at hit
    exact ⟨it, List.mem_of_mem_eraseP hit, rfl⟩
  · simp only [delChildOut, Function.update_of_ne hx] at hit
    exact ⟨it, hit, rfl⟩

/-- `setIn` keeps the links and the ids. -/
structure SameLinks (h h' : Heap π) : Prop where
  outs : ∀ e, (h' e).outs = (h e).outs
  myid : ∀ e, (h' e).myid = (h e).myid

omit [DecidableEq π] in
theorem SameLinks.refl (h : Heap π) : SameLinks h h := ⟨fun _ => rfl, fun _ => rfl⟩

omit [DecidableEq π] in
theorem SameLinks.trans {h h' h'' : Heap π} (hh : SameLinks h h') (hh' : SameLinks h' h'') :
    SameLinks h h'' :=
  ⟨fun e => (hh'.outs e).trans (hh.outs e), fun e => (hh'.myid e).trans (hh.myid e)⟩

omit [DecidableEq π] in
theorem SameLinks.child_eq {h h' : Heap π} (hh : SameLinks h h') : h'.Child = h.Child := by
  funext x y
  simp only [Child, hh.outs]

theorem sameLinks_take (h : Heap π) (c : Call π) : SameLinks h (h.take c).1 := by
  constructor <;> intro e <;> by_cases he : e = c.el <;> simp [take, he]

theorem child_of_mem_take {c inner : Call π} (hinner : inner ∈ (h.take c).2) :
    h.Child c.el inner.el := by
  simp only [take] at hinner
  split_ifs at hinner
  · obtain ⟨it, hit, rfl⟩ := List.mem_map.mp hinner
    exact ⟨it, hit, rfl⟩
  · cases hinner

omit [DecidableEq π] in
theorem foldlM_sameLinks (f : Heap π → Call π → Option (Heap π)) (calls : List (Call π))
    {h : Heap π} (hf : ∀ c ∈ calls, ∀ h', SameLinks h h' → ∃ h'', f h' c = some h'' ∧
      SameLinks h' h'') : ∃ h', calls.foldlM f h = some h' ∧ SameLinks h h' := by
  induction calls generalizing h with
  | nil => exact ⟨h, rfl, .refl h⟩
  | cons c calls ih =>
    obtain ⟨h', hc, hh'⟩ := hf c List.mem_cons_self h (.refl h)
    obtain ⟨h'', hcalls, hh''⟩ := ih fun d hd u hu =>
      hf d (List.mem_cons_of_mem c hd) u (hh'.trans hu)
    exact ⟨h'', by rw [List.foldlM_cons, hc]; exact hcalls, hh'.trans hh''⟩

/-- The calls go down along the links, and end where the links end. -/
theorem exists_setIn {fuel : Nat} {c : Call π} {h : Heap π}
    (hpaths : ∀ l, (c.el :: l).IsChain h.Child → (c.el :: l).length ≤ fuel) :
    ∃ h', h.setIn fuel c = some h' ∧ SameLinks h h' := by
  induction fuel generalizing c h with
  | zero => exact absurd (hpaths [] (.singleton c.el)) (by simp)
  | succ fuel ih =>
    have htake := sameLinks_take h c
    obtain ⟨h', hcalls, hh'⟩ := foldlM_sameLinks (fun h c => setIn fuel c h)
      (h.take c).2 (h := (h.take c).1) fun inner hinner u hu => by
        refine ih fun l hl => Nat.le_of_succ_le_succ (hpaths (inner.el :: l) ?_)
        rw [hu.child_eq, htake.child_eq] at hl
        exact .cons_cons (child_of_mem_take hinner) hl
    exact ⟨h', hcalls, htake.trans hh'⟩

end Heap

namespace Schema

variable [DecidableEq π] [Fintype π] {s : Schema π}

/-- The `addChildOut` that an operation comes to. -/
def addCall (s : Schema π) : SchemaOp π → Option (π × π)
  | .addChildOut el child _ => some (el, child)
  | .link rootID childID _ =>
    match s.emap rootID, s.emap childID with
    | some e1, some e2 => some (e1, e2)
    | _, _ => none
  | _ => none

/-- A link that would close a cycle is refused. -/
def RefusesCycle (s : Schema π) (op : SchemaOp π) : Prop :=
  ∀ this el, s.addCall op = some (this, el) → ReflTransGen s.heap.Child el this →
    ∃ e, s.step op = (s, .refused e)

/-- When the new child leads back to the element, the way down over first children meets the
element's id. -/
def CycleOnFirstPath (s : Schema π) (op : SchemaOp π) : Prop :=
  ∀ this el, s.addCall op = some (this, el) → ReflTransGen s.heap.Child el this →
    el = this ∨ s.heap.OnFirstPath (s.heap this).myid el

/-- What an operation does to the links. -/
inductive Linked (s : Schema π) (op : SchemaOp π) : Prop
  | fewer : s.addCall op = none → (∀ x y, (s.next op).heap.Child x y → s.heap.Child x y) →
    Linked s op
  | refused {this el : π} {e : LogicException} : s.addCall op = some (this, el) →
    s.heap.Refuses this el → s.step op = (s, .refused e) → Linked s op
  | added {this el : π} : s.addCall op = some (this, el) → ¬s.heap.Refuses this el →
    (s.step op).2 = .returned →
    (∀ x y, (s.next op).heap.Child x y ↔ s.heap.Child x y ∨ (x = this ∧ y = el)) → Linked s op

theorem linked (hacyclic : Acyclic s.heap.Child) (op : SchemaOp π) : s.Linked op := by
  cases op with
  | manage el => exact .fewer rfl fun _ _ => id
  | remove el => exact .fewer rfl fun _ _ => id
  | extlink name childID numIn =>
    refine .fewer rfl fun x y => ?_
    change (s.extlink name childID numIn).1.heap.Child x y → _
    unfold extlink
    cases s.emap childID with
    | none => exact id
    | some el => exact id
  | unlink rootID childID =>
    refine .fewer rfl fun x y => ?_
    change (s.unlink rootID childID).1.heap.Child x y → _
    unfold unlink
    cases s.emap rootID with
    | none => exact id
    | some e1 =>
      cases s.emap childID with
      | none => exact id
      | some e2 => exact Heap.child_delChildOut
  | delChildOut el child => exact .fewer rfl fun _ _ => Heap.child_delChildOut
  | setIn ID inNum state =>
    refine .fewer rfl fun x y => ?_
    change (s.setIn ID inNum state).1.heap.Child x y → _
    unfold setIn
    cases hID : s.emap ID with
    | none => exact id
    | some el =>
      obtain ⟨h', hh', hlinks⟩ := Heap.exists_setIn (h := s.heap) (c := ⟨el, inNum, state⟩)
        fun l hl => hacyclic.length_le hl
      rw [← hlinks.child_eq]
      simp only [hh']
      exact id
  | addChildOut this el num =>
    rcases Heap.addChildOut_cases hacyclic this el num with ⟨hrefuses, e, he⟩ | ⟨hnot, hok⟩
    · exact .refused (e := e) rfl hrefuses (by simp only [step, addChildOut, he])
    · refine .added rfl hnot (by simp only [step, addChildOut, hok]) fun x y => ?_
      simp only [next, step, addChildOut, hok]
      exact Heap.child_update_outs
  | link rootID childID numIn =>
    cases hroot : s.emap rootID with
    | none =>
      refine .fewer (by simp [addCall, hroot]) fun x y => ?_
      simp only [next, step, link, hroot]
      exact id
    | some this =>
      cases hchild : s.emap childID with
      | none =>
        refine .fewer (by simp [addCall, hchild]) fun x y => ?_
        simp only [next, step, link, hroot, hchild]
        exact id
      | some el =>
        have hcall : s.addCall (.link rootID childID numIn) = some (this, el) := by
          simp only [addCall, hroot, hchild]
        rcases Heap.addChildOut_cases hacyclic this el numIn with ⟨hrefuses, e, he⟩ | ⟨hnot, hok⟩
        · exact .refused (e := e) hcall hrefuses
            (by simp only [step, link, hroot, hchild, addChildOut, he])
        · refine .added hcall hnot
            (by simp only [step, link, hroot, hchild, addChildOut, hok]) fun x y => ?_
          simp only [next, step, link, hroot, hchild, addChildOut, hok]
          exact Heap.child_update_outs

theorem acyclic_next_iff (hacyclic : Acyclic s.heap.Child) (op : SchemaOp π) :
    Acyclic (s.next op).heap.Child ↔ s.CycleOnFirstPath op := by
  cases linked hacyclic op with
  | fewer hcall hle =>
    refine iff_of_true (hacyclic.mono hle) fun this el hsome => ?_
    rw [hcall] at hsome
    cases hsome
  | refused hcall hrefuses hstep =>
    refine iff_of_true (by rw [next, hstep]; exact hacyclic) fun this el hsome hback => ?_
    rw [hcall] at hsome
    cases hsome
    rcases hrefuses with hself | hchild | hpath
    · exact .inl hself
    · exact absurd hback (hacyclic.not_reflTransGen hchild)
    · exact .inr hpath
  | @added this el hcall hnot _ hiff =>
    have hedge : (s.next op).heap.Child = fun x y => s.heap.Child x y ∨ (x = this ∧ y = el) := by
      funext x y
      exact propext (hiff x y)
    rw [hedge, hacyclic.edge_iff]
    constructor
    · intro hback this' el' hsome hback'
      rw [hcall] at hsome
      cases hsome
      exact absurd hback' hback
    · intro hguard hback
      rcases hguard this el hcall hback with hself | hpath
      · exact hnot (.inl hself)
      · exact hnot (.inr (.inr hpath))

theorem refusesCycle (hacyclic : Acyclic s.heap.Child) {op : SchemaOp π}
    (hguard : s.CycleOnFirstPath op) : s.RefusesCycle op := by
  intro this el hsome hback
  cases linked hacyclic op with
  | fewer hcall _ =>
    rw [hcall] at hsome
    cases hsome
  | refused _ _ hstep => exact ⟨_, hstep⟩
  | added hcall hnot _ _ =>
    rw [hcall] at hsome
    cases hsome
    rcases hguard this el hcall hback with hself | hpath
    · exact absurd (.inl hself) hnot
    · exact absurd (.inr (.inr hpath)) hnot

/-- The links have no cycle, and every change of an input comes to an end. -/
def Settles (s : Schema π) : Prop :=
  Acyclic s.heap.Child ∧ ∀ c, ∃ h', s.heap.setIn (Fintype.card π) c = some h'

theorem settles_iff : s.Settles ↔ Acyclic s.heap.Child := by
  refine ⟨And.left, fun hacyclic => ⟨hacyclic, fun c => ?_⟩⟩
  obtain ⟨h', hh', -⟩ := Heap.exists_setIn (h := s.heap) (c := c) fun l hl => hacyclic.length_le hl
  exact ⟨h', hh'⟩

omit [DecidableEq π] [Fintype π] in
theorem acyclic_new (heap : Heap π) : Acyclic (new heap).heap.Child := by
  intro x hx
  obtain ⟨y, ⟨it, hit, -⟩, -⟩ := TransGen.head'_iff.mp hx
  cases hit

/-- In every run from elements without links, the links stay without cycles, the changes of
inputs end and all that would close a cycle is refused, if and only if the way back always goes
over first children. -/
theorem acyclic_iff (heap : Heap π) (ops : List (SchemaOp π)) :
    ((∀ t ∈ ops.scanl next (new heap), t.Settles) ∧ Guarded next RefusesCycle (new heap) ops) ↔
      Guarded next CycleOnFirstPath (new heap) ops := by
  have hruns : (∀ t ∈ ops.scanl next (new heap), t.Settles) ↔
      Guarded next CycleOnFirstPath (new heap) ops :=
    forall_visited_iff_guarded (fun s op hs => by
      rw [settles_iff]
      exact acyclic_next_iff hs.1 op) (settles_iff.mpr (acyclic_new heap)) ops
  constructor
  · rintro ⟨hall, -⟩
    exact hruns.mp hall
  · intro hguarded
    have hall := hruns.mpr hguarded
    exact ⟨hall, hguarded.mono (fun s op hs => refusesCycle hs.1) hall⟩

/-- The element "2" has "3" as its first child and "1" as its second one; the link from "1" back
to "2" is not refused. -/
theorem cycle_not_refused :
    let heap : Heap (Fin 3) := fun
      | 0 => .newTOR "1" 2 false
      | 1 => .newTOR "2" 2 false
      | 2 => .newTOR "3" 2 false
    let ops := [.manage 0, .manage 1, .manage 2, .link "2" "3" 1, .link "2" "1" 1, .link "1" "2" 1]
    ¬((∀ t ∈ ops.scanl next (new heap), t.Settles) ∧
      Guarded next RefusesCycle (new heap) ops) := by
  intro heap ops
  have hthere : (ops.foldl next (new heap)).heap.Child 0 1 := ⟨⟨1, 1⟩, by decide, rfl⟩
  have hback : (ops.foldl next (new heap)).heap.Child 1 0 := ⟨⟨0, 1⟩, by decide, rfl⟩
  rintro ⟨hall, -⟩
  exact (hall _ (foldl_mem_scanl next (new heap) ops)).1 0 (.head hthere (.single hback))

end Schema

end Uniset.LogicProcessor
