import Mathlib.Data.String.Basic
import Mathlib.Logic.Function.Basic
import Uniset.Lib.Acyclic
import Uniset.Lib.SortedMap

/-! The order in which the process groups are started. -/

namespace Uniset.Launcher

open Uniset.Lib

/-- A `std::set<std::string>`, in the order of its iteration. -/
abbrev Names := SortedMap String id

/-- An exception with its text. -/
inductive DependencyException
  | CyclicDependencyException (what : String)
  | UnknownDependencyException (what : String)
  deriving DecidableEq

structure Node where
  name : String
  depends : Names

structure DependencyResolver where
  nodes : SortedMap Node Node.name

inductive VisitState
  | White
  | Gray
  | Black
  deriving DecidableEq

/-- What the search has seen.  A name without an entry in the map of states reads as `White`. -/
structure Visit where
  visited : String → VisitState
  result : List String

namespace Visit

def mark (v : Visit) (name : String) (state : VisitState) : Visit :=
  { v with visited := Function.update v.visited name state }

def push_back (v : Visit) (name : String) : Visit := { v with result := v.result ++ [name] }

end Visit

namespace DependencyResolver

def new : DependencyResolver := ⟨SortedMap.empty⟩

def addGroup (r : DependencyResolver) (name : String) (depends : Names) : DependencyResolver :=
  ⟨r.nodes.insert ⟨name, depends⟩⟩

def hasGroup (r : DependencyResolver) (name : String) : Bool := (r.nodes.find name).isSome

def clear (_ : DependencyResolver) : DependencyResolver := new

def getDependencies (r : DependencyResolver) (name : String) : Names :=
  ((r.nodes.find name).map Node.depends).getD SortedMap.empty

/-- The names of the groups, in the order of the map. -/
def groups (r : DependencyResolver) : List String := r.nodes.entries.map Node.name

/-- The first entry that names no group, with the group that has it. -/
def unknownDependency (r : DependencyResolver) : Option (String × String) :=
  (r.nodes.entries.flatMap fun kv => kv.depends.entries.map fun dep => (kv.name, dep)).find?
    fun entry => !r.hasGroup entry.2

/-- The loop of `dfs`; `none` when the recursion runs out of fuel. -/
def visitDeps (dfs : String → Visit → Option (Except DependencyException Visit)) (name : String) :
    List String → Visit → Option (Except DependencyException Visit)
  | [], v => some (.ok v)
  | dep :: deps, v =>
    match v.visited dep with
    | .Gray => some (.error (.CyclicDependencyException
        ("Cyclic dependency detected: " ++ name ++ " -> " ++ dep)))
    | .White =>
      match dfs dep v with
      | some (.ok v) => visitDeps dfs name deps v
      | stopped => stopped
    | .Black => visitDeps dfs name deps v

def dfs (r : DependencyResolver) :
    Nat → String → Visit → Option (Except DependencyException Visit)
  | 0, _, _ => none
  | fuel + 1, name, v =>
    match visitDeps (r.dfs fuel) name (r.getDependencies name).entries (v.mark name .Gray) with
    | some (.ok v) => some (.ok ((v.mark name .Black).push_back name))
    | stopped => stopped

/-- The loop of `resolve` over the groups. -/
def visitGroups (r : DependencyResolver) (fuel : Nat) :
    List String → Visit → Option (Except DependencyException Visit)
  | [], v => some (.ok v)
  | group :: groups, v =>
    match v.visited group with
    | .White =>
      match r.dfs fuel group v with
      | some (.ok v) => r.visitGroups fuel groups v
      | stopped => stopped
    | _ => r.visitGroups fuel groups v

def resolve (r : DependencyResolver) (fuel : Nat) :
    Option (Except DependencyException (List String)) :=
  match r.unknownDependency with
  | some (group, dep) => some (.error (.UnknownDependencyException
      ("Group '" ++ group ++ "' depends on unknown group '" ++ dep ++ "'")))
  | none => (r.visitGroups fuel r.groups ⟨fun _ => .White, []⟩).map (·.map Visit.result)

def resolveReverse (r : DependencyResolver) (fuel : Nat) :
    Option (Except DependencyException (List String)) :=
  (r.resolve fuel).map (·.map List.reverse)

end DependencyResolver

end Uniset.Launcher

/-! The search puts every group after the groups it depends on, or finds a cycle. -/

namespace Uniset.Launcher

open Relation Uniset.Lib

namespace DependencyResolver

variable {r : DependencyResolver}

/-- The group `g` has the name `d` in its `depends`. -/
def DependsOn (r : DependencyResolver) (g d : String) : Prop := d ∈ (r.getDependencies g).entries

theorem mem_groups_iff {g : String} : g ∈ r.groups ↔ r.hasGroup g :=
  SortedMap.mem_keys_iff

theorem getDependencies_of_mem {kv : Node} (h : kv ∈ r.nodes.entries) :
    r.getDependencies kv.name = kv.depends := by
  rw [getDependencies, SortedMap.find_key h]
  rfl

theorem hasGroup_of_dependsOn {g d : String} (h : r.DependsOn g d) : r.hasGroup g := by
  unfold DependsOn getDependencies at h
  unfold hasGroup
  cases hfind : r.nodes.find g with
  | none => simp [hfind, SortedMap.empty] at h
  | some kv => rfl

theorem dependsOn_iff {g d : String} :
    r.DependsOn g d ↔ (g, d) ∈
      r.nodes.entries.flatMap fun kv => kv.depends.entries.map fun dep => (kv.name, dep) := by
  simp only [List.mem_flatMap, List.mem_map, Prod.mk.injEq]
  constructor
  · intro h
    obtain ⟨kv, hkv, rfl⟩ := List.mem_map.mp (mem_groups_iff.mpr (hasGroup_of_dependsOn h))
    rw [DependsOn, getDependencies_of_mem hkv] at h
    exact ⟨kv, hkv, d, h, rfl, rfl⟩
  · rintro ⟨kv, hkv, dep, hdep, rfl, rfl⟩
    rw [DependsOn, getDependencies_of_mem hkv]
    exact hdep

theorem unknownDependency_eq_none_iff :
    r.unknownDependency = none ↔ ∀ g d, r.DependsOn g d → r.hasGroup d := by
  simp only [unknownDependency, List.find?_eq_none, Prod.forall, ← dependsOn_iff,
    Bool.not_eq_true', Bool.not_eq_false]

/-- What the groups put in the result satisfy at every moment of the search. -/
structure Sound (r : DependencyResolver) (v : Visit) : Prop where
  black : ∀ g, g ∈ v.result ↔ v.visited g = .Black
  nodup : v.result.Nodup
  order : TopologicalOrder r.DependsOn v.result
  known : ∀ g ∈ v.result, r.hasGroup g

/-- The groups on the stack of the search are the same, and no group is left again. -/
structure Extends (v w : Visit) : Prop where
  gray : ∀ g, w.visited g = .Gray ↔ v.visited g = .Gray
  black : ∀ g, v.visited g = .Black → w.visited g = .Black

theorem Extends.refl (v : Visit) : Extends v v := ⟨fun _ => .rfl, fun _ => id⟩

theorem Extends.trans {v w u : Visit} (h : Extends v w) (h' : Extends w u) : Extends v u :=
  ⟨fun g => (h'.gray g).trans (h.gray g), fun g hg => h'.black g (h.black g hg)⟩

/-- The groups that the search has not entered. -/
def white (r : DependencyResolver) (v : Visit) : Nat :=
  r.groups.countP fun g => v.visited g = .White

theorem white_le_of_extends {v w : Visit} (h : Extends v w) : r.white w ≤ r.white v := by
  apply List.countP_mono_left
  intro g _ hg
  simp only [decide_eq_true_eq] at hg ⊢
  cases hv : v.visited g with
  | White => rfl
  | Gray => rw [(h.gray g).mpr hv] at hg; cases hg
  | Black => rw [h.black g hv] at hg; cases hg

theorem white_mark_lt {v : Visit} {name : String} (hgroup : r.hasGroup name)
    (hwhite : v.visited name = .White) : r.white (v.mark name .Gray) < r.white v := by
  obtain ⟨before, after, hsplit⟩ := List.append_of_mem (mem_groups_iff.mpr hgroup)
  have hle : ∀ l : List String, l.countP (fun g => (v.mark name .Gray).visited g = .White) ≤
      l.countP fun g => v.visited g = .White := by
    intro l
    apply List.countP_mono_left
    intro g _ hg
    by_cases hname : g = name
    · simp [hname, hwhite]
    · simpa [Visit.mark, hname] using hg
  have hbefore := hle before
  have hafter := hle after
  simp only [white, hsplit, List.countP_append, List.countP_cons, hwhite, Visit.mark,
    Function.update_self, reduceCtorEq, decide_false, decide_true, ite_true] at hbefore hafter ⊢
  simp only [ite_false]
  omega

/-- The search has ended: with what it had to do, or on a cycle. -/
inductive Searched (r : DependencyResolver) (v : Visit) (done : Visit → Prop) :
    Option (Except DependencyException Visit) → Prop
  | finished {w : Visit} : Sound r w → Extends v w → done w → Searched r v done (some (.ok w))
  | cyclic {g what : String} : TransGen r.DependsOn g g →
    Searched r v done (some (.error (.CyclicDependencyException what)))

/-- A search of one group is followed by the search of the rest. -/
theorem Searched.cons {v u : Visit} {group : String} {groups : List String}
    {outcome : Option (Except DependencyException Visit)} (hext : Extends v u)
    (hblack : u.visited group = .Black)
    (h : Searched r u (fun w => ∀ g ∈ groups, w.visited g = .Black) outcome) :
    Searched r v (fun w => ∀ g ∈ group :: groups, w.visited g = .Black) outcome := by
  cases h with
  | cyclic hcycle => exact .cyclic hcycle
  | finished hw hext' hdone =>
    refine .finished hw (hext.trans hext') fun g hg => ?_
    cases List.mem_cons.mp hg with
    | inl hg =>
      rw [hg]
      exact hext'.black group hblack
    | inr hg => exact hdone g hg

theorem Sound.mark {v : Visit} {name : String} (h : Sound r v) (hwhite : v.visited name = .White) :
    Sound r (v.mark name .Gray) where
  black g := by
    by_cases hname : g = name
    · simp [Visit.mark, hname, h.black, hwhite]
    · simp [Visit.mark, hname, h.black]
  nodup := h.nodup
  order := h.order
  known := h.known

theorem Sound.push_back {v : Visit} {name : String} (h : Sound r v) (hgroup : r.hasGroup name)
    (hgray : v.visited name = .Gray) (hdeps : ∀ d, r.DependsOn name d → v.visited d = .Black) :
    Sound r ((v.mark name .Black).push_back name) where
  black g := by
    by_cases hname : g = name
    · simp [Visit.mark, Visit.push_back, hname]
    · simp [Visit.mark, Visit.push_back, hname, h.black]
  nodup := by
    have hnew : name ∉ v.result := by simp [h.black, hgray]
    exact List.nodup_append.mpr ⟨h.nodup, List.nodup_singleton name, by
      rintro g hg _ (_ | ⟨_, ⟨⟩⟩) rfl
      exact hnew hg⟩
  order := h.order.concat fun d hd => (h.black d).mpr (hdeps d hd)
  known g hg := by
    rcases List.mem_append.mp hg with hg | hg
    · exact h.known g hg
    · rw [List.mem_singleton.mp hg]
      exact hgroup

theorem Extends.push_back {v w : Visit} {name : String} (h : Extends (v.mark name .Gray) w)
    (hwhite : v.visited name = .White) :
    Extends v ((w.mark name .Black).push_back name) where
  gray g := by
    by_cases hname : g = name
    · simp [Visit.mark, Visit.push_back, hname, hwhite]
    · simpa [Visit.mark, Visit.push_back, hname] using h.gray g
  black g hg := by
    by_cases hname : g = name
    · simp [Visit.mark, Visit.push_back, hname]
    · simpa [Visit.mark, Visit.push_back, hname] using
        h.black g (by simpa [Visit.mark, hname] using hg)

section search

variable (hknown : ∀ g d, r.DependsOn g d → r.hasGroup d)

include hknown

/-- Given that the recursive calls do their part, so does the loop over the dependencies. -/
theorem searched_visitDeps {dfs : String → Visit → Option (Except DependencyException Visit)}
    {fuel : Nat} {name : String} (hdfs : ∀ dep v, Sound r v → v.visited dep = .White →
      r.hasGroup dep → (∀ g, v.visited g = .Gray → TransGen r.DependsOn g dep) →
      r.white v ≤ fuel → Searched r v (fun w => w.visited dep = .Black) (dfs dep v))
    {deps : List String} {v : Visit} (hdeps : ∀ dep ∈ deps, r.DependsOn name dep)
    (hsound : Sound r v) (hgray : ∀ g, v.visited g = .Gray → ReflTransGen r.DependsOn g name)
    (hfuel : r.white v ≤ fuel) :
    Searched r v (fun w => ∀ dep ∈ deps, w.visited dep = .Black) (visitDeps dfs name deps v) := by
  induction deps generalizing v with
  | nil => exact .finished hsound (.refl v) (by simp)
  | cons dep deps ih =>
    have hdep : r.DependsOn name dep := hdeps dep List.mem_cons_self
    have hrest : ∀ d ∈ deps, r.DependsOn name d := fun d hd => hdeps d (List.mem_cons_of_mem _ hd)
    unfold visitDeps
    cases hstate : v.visited dep with
    | Gray => exact .cyclic (.tail' (hgray dep hstate) hdep)
    | Black => exact .cons (.refl v) hstate (ih hrest hsound hgray hfuel)
    | White =>
      have hcall := hdfs dep v hsound hstate (hknown name dep hdep)
        (fun g hg => .tail' (hgray g hg) hdep) hfuel
      simp only
      generalize dfs dep v = outcome at hcall
      cases hcall with
      | cyclic hcycle => exact .cyclic hcycle
      | @finished u hu hext hblack =>
        exact .cons hext hblack (ih hrest hu (fun g hg => hgray g ((hext.gray g).mp hg))
          (Nat.le_trans (white_le_of_extends hext) hfuel))

/-- Induction on the fuel, of which a call needs one unit for every group not yet entered. -/
theorem searched_dfs {fuel : Nat} {name : String} {v : Visit} (hsound : Sound r v)
    (hwhite : v.visited name = .White) (hgroup : r.hasGroup name)
    (hgray : ∀ g, v.visited g = .Gray → TransGen r.DependsOn g name) (hfuel : r.white v ≤ fuel) :
    Searched r v (fun w => w.visited name = .Black) (r.dfs fuel name v) := by
  induction fuel generalizing name v with
  | zero =>
    have hlt := white_mark_lt hgroup hwhite
    omega
  | succ fuel ih =>
    have hless := white_mark_lt hgroup hwhite
    have hstack : ∀ g, (v.mark name .Gray).visited g = .Gray →
        ReflTransGen r.DependsOn g name := by
      intro g hg
      by_cases hname : g = name
      · rw [hname]
      · exact (hgray g (by simpa [Visit.mark, hname] using hg)).to_reflTransGen
    have hloop := searched_visitDeps hknown (fun _ _ => ih)
      (fun dep (hdep : dep ∈ (r.getDependencies name).entries) => hdep)
      (hsound.mark hwhite) hstack (by omega)
    unfold dfs
    generalize visitDeps _ _ _ _ = outcome at hloop
    cases hloop with
    | cyclic hcycle => exact .cyclic hcycle
    | finished hw hext hdone =>
      have hname := (hext.gray name).mpr (by simp [Visit.mark])
      exact .finished (hw.push_back hgroup hname hdone) (hext.push_back hwhite)
        (by simp [Visit.mark, Visit.push_back])

theorem searched_visitGroups {fuel : Nat} (hfuel : r.groups.length ≤ fuel) {groups : List String}
    {v : Visit} (hgroups : ∀ g ∈ groups, r.hasGroup g) (hsound : Sound r v)
    (hgray : ∀ g, v.visited g ≠ .Gray) :
    Searched r v (fun w => ∀ g ∈ groups, w.visited g = .Black) (r.visitGroups fuel groups v) := by
  induction groups generalizing v with
  | nil => exact .finished hsound (.refl v) (by simp)
  | cons group groups ih =>
    have hrest : ∀ g ∈ groups, r.hasGroup g := fun g hg => hgroups g (List.mem_cons_of_mem _ hg)
    unfold visitGroups
    cases hstate : v.visited group with
    | Gray => exact absurd hstate (hgray group)
    | Black => exact .cons (.refl v) hstate (ih hrest hsound hgray)
    | White =>
      have hcall := searched_dfs hknown hsound hstate (hgroups group List.mem_cons_self)
        (fun g hg => absurd hg (hgray g)) (Nat.le_trans List.countP_le_length hfuel)
      simp only
      generalize r.dfs fuel group v = outcome at hcall
      cases hcall with
      | cyclic hcycle => exact .cyclic hcycle
      | @finished u hu hext hblack =>
        exact .cons hext hblack (ih hrest hu fun g hg => hgray g ((hext.gray g).mp hg))

theorem searched_groups {fuel : Nat} (hfuel : r.groups.length ≤ fuel) :
    Searched r ⟨fun _ => .White, []⟩ (fun w => ∀ g ∈ r.groups, w.visited g = .Black)
      (r.visitGroups fuel r.groups ⟨fun _ => .White, []⟩) :=
  searched_visitGroups hknown hfuel (fun _ => mem_groups_iff.mp)
    ⟨by simp, List.nodup_nil, .nil, by simp⟩ (by simp)

end search

section fuel

/-! A search that has ended does not see how much fuel was left. -/

theorem visitDeps_mono {dfs dfs' : String → Visit → Option (Except DependencyException Visit)}
    (hdfs : ∀ dep v outcome, dfs dep v = some outcome → dfs' dep v = some outcome) {name : String}
    {deps : List String} {v : Visit} {outcome : Except DependencyException Visit}
    (h : visitDeps dfs name deps v = some outcome) : visitDeps dfs' name deps v = some outcome := by
  induction deps generalizing v with
  | nil => exact h
  | cons dep deps ih =>
    unfold visitDeps at h ⊢
    cases hstate : v.visited dep with
    | Gray => simpa only [hstate] using h
    | Black =>
      simp only [hstate] at h
      exact ih h
    | White =>
      simp only [hstate] at h ⊢
      cases hcall : dfs dep v with
      | none => simp [hcall] at h
      | some result =>
        rw [hdfs dep v result hcall]
        cases result with
        | error e => simpa [hcall] using h
        | ok w => exact ih (by simpa [hcall] using h)

theorem dfs_mono {fuel fuel' : Nat} (hle : fuel ≤ fuel') {name : String} {v : Visit}
    {outcome : Except DependencyException Visit} (h : r.dfs fuel name v = some outcome) :
    r.dfs fuel' name v = some outcome := by
  induction fuel generalizing fuel' name v outcome with
  | zero => cases h
  | succ fuel ih =>
    cases fuel' with
    | zero => omega
    | succ fuel' =>
      unfold dfs at h ⊢
      cases hloop : visitDeps (r.dfs fuel) name (r.getDependencies name).entries
          (v.mark name .Gray) with
      | none => simp [hloop] at h
      | some result =>
        rw [visitDeps_mono (fun _ _ _ => ih (Nat.le_of_succ_le_succ hle)) hloop]
        simpa only [hloop] using h

theorem visitGroups_mono {fuel fuel' : Nat} (hle : fuel ≤ fuel') {groups : List String} {v : Visit}
    {outcome : Except DependencyException Visit} (h : r.visitGroups fuel groups v = some outcome) :
    r.visitGroups fuel' groups v = some outcome := by
  induction groups generalizing v with
  | nil => exact h
  | cons group groups ih =>
    unfold visitGroups at h ⊢
    cases hstate : v.visited group with
    | Gray =>
      simp only [hstate] at h
      exact ih h
    | Black =>
      simp only [hstate] at h
      exact ih h
    | White =>
      simp only [hstate] at h ⊢
      cases hcall : r.dfs fuel group v with
      | none => simp [hcall] at h
      | some result =>
        rw [dfs_mono hle hcall]
        cases result with
        | error e => simpa [hcall] using h
        | ok w => exact ih (by simpa [hcall] using h)

theorem resolve_mono {fuel fuel' : Nat} (hle : fuel ≤ fuel')
    {outcome : Except DependencyException (List String)} (h : r.resolve fuel = some outcome) :
    r.resolve fuel' = some outcome := by
  unfold resolve at h ⊢
  cases hunknown : r.unknownDependency with
  | some entry => simpa only [hunknown] using h
  | none =>
    simp only [hunknown, Option.map_eq_some_iff] at h ⊢
    obtain ⟨result, hgroups, rfl⟩ := h
    exact ⟨result, visitGroups_mono hle hgroups, rfl⟩

end fuel

/-- The order of the groups, each after those it depends on. -/
structure StartOrder (r : DependencyResolver) (order : List String) : Prop where
  perm : order.Perm r.groups
  after : ∀ g d, r.DependsOn g d → order.idxOf d < order.idxOf g

theorem Sound.startOrder {v : Visit} (h : Sound r v)
    (hdone : ∀ g ∈ r.groups, v.visited g = .Black) : r.StartOrder v.result where
  perm := by
    apply (List.perm_ext_iff_of_nodup h.nodup r.nodes.nodup_keys).mpr
    intro g
    exact ⟨fun hg => mem_groups_iff.mpr (h.known g hg), fun hg => (h.black g).mpr (hdone g hg)⟩
  after g d hd := by
    have hg : r.hasGroup g := hasGroup_of_dependsOn hd
    exact h.order.idxOf_lt ((h.black g).mpr (hdone g (mem_groups_iff.mpr hg))) hd

/-- What `resolve` has to return. -/
inductive Resolved (r : DependencyResolver) : Except DependencyException (List String) → Prop
  | order {order : List String} : (∀ g d, r.DependsOn g d → r.hasGroup d) →
    (∀ g, ¬TransGen r.DependsOn g g) → r.StartOrder order → Resolved r (.ok order)
  | unknown {g d what : String} : r.DependsOn g d → ¬r.hasGroup d →
    Resolved r (.error (.UnknownDependencyException what))
  | cyclic {g what : String} : (∀ g d, r.DependsOn g d → r.hasGroup d) →
    TransGen r.DependsOn g g → Resolved r (.error (.CyclicDependencyException what))

theorem exists_resolved (r : DependencyResolver) :
    ∃ outcome, r.resolve r.groups.length = some outcome ∧ Resolved r outcome := by
  unfold resolve
  cases hunknown : r.unknownDependency with
  | some entry =>
    have hmem := dependsOn_iff.mpr (List.mem_of_find?_eq_some hunknown)
    exact ⟨_, rfl, .unknown hmem (by simpa using List.find?_some hunknown)⟩
  | none =>
    have hknown := unknownDependency_eq_none_iff.mp hunknown
    have hsearch := searched_groups hknown (Nat.le_refl r.groups.length)
    simp only
    generalize r.visitGroups _ _ _ = outcome at hsearch
    cases hsearch with
    | cyclic hcycle => exact ⟨_, rfl, .cyclic hknown hcycle⟩
    | @finished w hw _ hdone =>
      refine ⟨_, rfl, .order hknown (fun g hcycle => ?_) (hw.startOrder hdone)⟩
      obtain ⟨d, hd, -⟩ := TransGen.head'_iff.mp hcycle
      have hg : g ∈ r.groups := mem_groups_iff.mpr (hasGroup_of_dependsOn hd)
      exact hw.order.acyclic ((hw.black g).mpr (hdone g hg)) hcycle

/-- With one unit of fuel for every group, or more, `resolve` returns, and it returns the one of
the three outcomes that the dependencies ask for. -/
theorem resolve_order (r : DependencyResolver) :
    ∃ outcome, (∀ fuel, r.groups.length ≤ fuel → r.resolve fuel = some outcome ∧
      r.resolveReverse fuel = some (outcome.map List.reverse)) ∧
    (∀ order, outcome = .ok order →
      order.Perm r.groups ∧ ∀ g d, r.DependsOn g d → order.idxOf d < order.idxOf g) ∧
    ((∃ what, outcome = .error (.UnknownDependencyException what)) ↔
      ∃ g d, r.DependsOn g d ∧ ¬r.hasGroup d) ∧
    ((∃ what, outcome = .error (.CyclicDependencyException what)) ↔
      (¬∃ g d, r.DependsOn g d ∧ ¬r.hasGroup d) ∧ ∃ g, TransGen r.DependsOn g g) := by
  obtain ⟨outcome, hresolve, houtcome⟩ := r.exists_resolved
  refine ⟨outcome, fun fuel hfuel => ?_, ?_⟩
  · have hreturns := resolve_mono hfuel hresolve
    exact ⟨hreturns, by rw [resolveReverse, hreturns]; rfl⟩
  · cases houtcome with
    | order hknown hacyclic horder =>
      exact ⟨by rintro _ ⟨⟩; exact ⟨horder.perm, horder.after⟩, by simpa using hknown,
        by simpa using fun _ => hacyclic⟩
    | @unknown g d _ hdep hunknown =>
      have hexists : ∃ g d, r.DependsOn g d ∧ ¬r.hasGroup d := ⟨g, d, hdep, hunknown⟩
      exact ⟨by simp, by simpa using hexists,
        by simpa using fun hknown => (hunknown (hknown g d hdep)).elim⟩
    | @cyclic g _ hknown hcycle =>
      exact ⟨by simp, by simpa using hknown, by simpa using ⟨hknown, g, hcycle⟩⟩

end DependencyResolver

end Uniset.Launcher
