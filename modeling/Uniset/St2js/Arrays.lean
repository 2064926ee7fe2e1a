import Mathlib.Algebra.Order.Ring.Int
import Mathlib.Data.List.Forall2
import Mathlib.Data.List.Induction
import Mathlib.Tactic.SplitIfs
import Uniset.St2js.StructuredText

/-! Arrays: how they are declared and indexed, and which cells are there. -/

namespace Uniset.St2js.IR

/-- The bounds of one subrange of indices. -/
structure Subrange where
  start : Int
  stop : Int
  le : start ≤ stop

/-- The elements of an array may be arrays. -/
inductive ArraySpecification
  | elements (subrange : Subrange) (more : List Subrange) (type : IECType)
  | arrays (subrange : Subrange) (more : List Subrange) (type : ArraySpecification)

namespace ArraySpecification

/-- The bounds are those of the first subrange. -/
def subrange : ArraySpecification → Subrange
  | .elements r _ _ => r
  | .arrays r _ _ => r

def more : ArraySpecification → List Subrange
  | .elements _ rs _ => rs
  | .arrays _ rs _ => rs

/-- An element that is an array is taken for a structure. -/
def elemType : ArraySpecification → IECType
  | .elements _ _ t => t
  | .arrays .. => .STRUCT

end ArraySpecification

def transformArrayVar (name : Ident) (spec : ArraySpecification) : Variable where
  name := name
  iecType := .ARRAY
  arrayElementType := some spec.elemType
  arraySize := some (spec.subrange.stop - spec.subrange.start + 1)
  arrayLowerBound := spec.subrange.start

/-- One list of subscripts; there is at least one. -/
structure Subscripts (E : Type) where
  first : E
  more : List E

/-- An access by lists of subscripts: the first of each list is used. -/
def transformMultiElementVariable (name : Ident) (elements : List (Subscripts Expression)) :
    Expression :=
  elements.foldl (fun result element => .arrayAccess result element.first) (.varRef name)

/-- The values that are printed for a variable. -/
inductive JsValue
  | element
  | array (cells : List JsValue)

/-- Each element is printed as its default. -/
def formatArrayInit (v : Variable) : JsValue :=
  .array (List.replicate (v.arraySize.getD 0).toNat .element)

/-- The sections of a unit that a variable may be declared in. -/
inductive Section
  | input
  | output
  | loc
  deriving DecidableEq, Repr

inductive UnitKind
  | main
  | secondary
  | block
  deriving DecidableEq, Repr

/-- The initial values are printed of the locals, and of all variables of a function block; the inputs
and outputs of a program are sensors. -/
def printsInit : UnitKind → Section → Bool
  | .block, _ => true
  | .main, s => s = .loc
  | .secondary, s => s = .loc

/-- The array that a declaration is printed as. -/
def emittedArray (kind : UnitKind) (s : Section) (v : Variable) : Option JsValue :=
  if printsInit kind s then some (formatArrayInit v) else none

def POU.declarations (u : POU) : Section → List Variable
  | .input => u.inputs
  | .output => u.outputs
  | .loc => u.locals

namespace Program

variable (p : Program)

/-- A unit of that kind declares the variable. -/
def Declares : UnitKind → Section → Variable → Prop
  | .main, s, v => v ∈ p.toPOU.declarations s
  | .secondary, s, v => ∃ u ∈ p.secondaryPrograms, v ∈ u.declarations s
  | .block, s, v => ∃ u ∈ p.functionBlocks, v ∈ u.declarations s

def findVariable (name : Ident) : Option Variable :=
  (p.globals ++ p.inputs ++ p.outputs ++ p.locals).find? (·.name = name)

def lowerBound : Expression → Int
  | .varRef x =>
    match p.findVariable x with
    | some v => v.arrayLowerBound
    | none => 1
  | _ => 1

end Program

/-- An access as it is printed, with what is taken off each index. -/
inductive JsAccess
  | array (e : Expression)
  | index (array : JsAccess) (index : Expression) (minus : Option Int)

def Program.emitArrayAccess (p : Program) : Expression → JsAccess
  | .arrayAccess array index =>
    let lowerBound := p.lowerBound array
    .index (p.emitArrayAccess array) index (if lowerBound ≠ 0 then some lowerBound else none)
  | e => .array e

/-- What subscripts come to; a literal is its value. -/
structure Valuation where
  value : Expression → Int
  literal : ∀ n t, value (.literal (.int n) t) = n

/-- The indices of the cell that an access gets at. -/
def JsAccess.path (V : Valuation) : JsAccess → List Int
  | .array _ => []
  | .index a i minus => a.path V ++ [V.value i - minus.getD 0]

/-- There is an element at the end of the path. -/
def JsValue.Has : JsValue → List Int → Prop
  | .element, [] => True
  | .array cells, k :: ks => 0 ≤ k ∧ ∃ c, cells[k.toNat]? = some c ∧ c.Has ks
  | _, _ => False

/-- An index is in a subrange. -/
def Subrange.Has (r : Subrange) (i : Int) : Prop := r.start ≤ i ∧ i ≤ r.stop

/-- The indices are in the range of an array. -/
def ArraySpecification.InRange : ArraySpecification → List (Subscripts Int) → Prop
  | .elements r rs _, [is] => r.Has is.first ∧ List.Forall₂ Subrange.Has rs is.more
  | .arrays r rs t, is :: rest =>
    (r.Has is.first ∧ List.Forall₂ Subrange.Has rs is.more) ∧ t.InRange rest
  | _, _ => False

def Valuation.indices (V : Valuation) (elements : List (Subscripts Expression)) :
    List (Subscripts Int) :=
  elements.map fun e => ⟨V.value e.first, e.more.map V.value⟩

/-- The accesses with indices in range get at cells that are there, and at different ones if the indices
differ. -/
structure Addresses (V : Valuation) (p : Program) (array : Option JsValue) (name : Ident)
    (spec : ArraySpecification) : Prop where
  has : ∀ es, spec.InRange (V.indices es) → ∃ a, array = some a ∧
    a.Has ((p.emitArrayAccess (transformMultiElementVariable name es)).path V)
  ne : ∀ es es', spec.InRange (V.indices es) → spec.InRange (V.indices es') →
    V.indices es ≠ V.indices es' →
    (p.emitArrayAccess (transformMultiElementVariable name es)).path V ≠
      (p.emitArrayAccess (transformMultiElementVariable name es')).path V

/-- The elements are no arrays, and each subrange after the first has one index. -/
def ArraySpecification.Flat : ArraySpecification → Prop
  | .elements _ rs _ => ∀ r ∈ rs, r.start = r.stop
  | .arrays .. => False

variable {V : Valuation} {p : Program} {name : Ident}

theorem formatArrayInit_has_iff (spec : ArraySpecification) (k : Int) :
    (formatArrayInit (transformArrayVar name spec)).Has [k] ↔
      0 ≤ k ∧ k ≤ spec.subrange.stop - spec.subrange.start := by
  have hle := spec.subrange.le
  have hsize : (formatArrayInit (transformArrayVar name spec)) =
    .array (List.replicate (spec.subrange.stop - spec.subrange.start + 1).toNat .element) := rfl
  rw [hsize]
  unfold JsValue.Has
  simp only [List.getElem?_replicate, Option.ite_none_right_eq_some, Option.some.injEq]
  constructor
  · rintro ⟨hk, c, ⟨hlt, -⟩, -⟩
    omega
  · rintro ⟨hk, hle⟩
    exact ⟨hk, .element, ⟨by omega, rfl⟩, trivial⟩

/-- Nothing is inside an element. -/
theorem formatArrayInit_not_has (v : Variable) (k j : Int) (ks : List Int) :
    ¬(formatArrayInit v).Has (k :: j :: ks) := by
  unfold formatArrayInit JsValue.Has
  rintro ⟨-, c, hc, hhas⟩
  obtain rfl := List.eq_of_mem_replicate (List.mem_of_getElem? hc)
  exact hhas

theorem path_singleton (e : Subscripts Expression) :
    (p.emitArrayAccess (transformMultiElementVariable name [e])).path V =
      [V.value e.first - p.lowerBound (.varRef name)] := by
  change [V.value e.first - (if p.lowerBound _ ≠ 0 then some (p.lowerBound _) else none).getD 0] = _
  split_ifs with hzero
  · rfl
  · rw [not_not.mp hzero]
    rfl

theorem length_path (es : List (Subscripts Expression)) :
    ((p.emitArrayAccess (transformMultiElementVariable name es)).path V).length = es.length := by
  induction es using List.reverseRecOn with
  | nil => rfl
  | append_singleton es e ih =>
    unfold transformMultiElementVariable at ih ⊢
    rw [List.foldl_concat, Program.emitArrayAccess, JsAccess.path, List.length_append, ih,
      List.length_append]
    rfl

/-- Subscripts that are literals. -/
def literalSubscripts (is : Subscripts Int) : Subscripts Expression :=
  ⟨.literal (.int is.first) .INT, is.more.map fun i => .literal (.int i) .INT⟩

theorem indices_literal (V : Valuation) (iss : List (Subscripts Int)) :
    V.indices (iss.map literalSubscripts) = iss := by
  rw [Valuation.indices, List.map_map]
  refine (List.map_congr_left fun is _ => ?_).trans (List.map_id iss)
  obtain ⟨first, more⟩ := is
  simp only [Function.comp_def, literalSubscripts, V.literal, List.map_map, List.map_id', id]

/-- The lowest index of each subrange, and the highest. -/
def lowest (r : Subrange) (rs : List Subrange) : Subscripts Int := ⟨r.start, rs.map (·.start)⟩

theorem forall₂_start (rs : List Subrange) : List.Forall₂ Subrange.Has rs (rs.map (·.start)) := by
  rw [List.forall₂_map_right_iff, List.forall₂_same]
  exact fun r _ => ⟨le_rfl, r.le⟩

theorem forall₂_stop (rs : List Subrange) : List.Forall₂ Subrange.Has rs (rs.map (·.stop)) := by
  rw [List.forall₂_map_right_iff, List.forall₂_same]
  exact fun r _ => ⟨r.le, le_rfl⟩

/-- Where each subrange has one index, there is one tuple of them. -/
theorem eq_of_forall₂ {rs : List Subrange} (h : ∀ r ∈ rs, r.start = r.stop) {is : List Int}
    (his : List.Forall₂ Subrange.Has rs is) : is = rs.map (·.start) := by
  induction his with
  | nil => rfl
  | cons hi _ ih =>
    have hr := h _ List.mem_cons_self
    obtain ⟨hle, hge⟩ := hi
    rw [List.map_cons, ih fun r hr => h r (List.mem_cons_of_mem _ hr)]
    congr 1
    omega

theorem exists_inRange : ∀ spec : ArraySpecification, ∃ iss, spec.InRange iss ∧ iss ≠ []
  | .elements r rs t => ⟨[lowest r rs], ⟨⟨le_rfl, r.le⟩, forall₂_start rs⟩, nofun⟩
  | .arrays r rs t => by
    obtain ⟨iss, hin, hne⟩ := exists_inRange t
    exact ⟨lowest r rs :: iss, ⟨⟨⟨le_rfl, r.le⟩, forall₂_start rs⟩, hin⟩, nofun⟩

theorem inRange_elements {r : Subrange} {rs : List Subrange} {t : IECType}
    {es : List (Subscripts Expression)}
    (h : (ArraySpecification.elements r rs t).InRange (V.indices es)) :
    ∃ e, es = [e] ∧ r.Has (V.value e.first) ∧ List.Forall₂ Subrange.Has rs (e.more.map V.value) := by
  match es, h with
  | [e], h => exact ⟨e, rfl, h⟩

/-- `PROGRAM s VAR a : ARRAY[0..3] OF INT; END_VAR`, as a secondary program. -/
def arrayInSecondary : Program where
  name := ['m']
  inputs := []
  outputs := []
  locals := []
  fbInstances := []
  body := []
  functionBlocks := []
  globals := []
  gvlFieldMap := []
  secondaryPrograms := [{
    name := ['s']
    inputs := []
    outputs := []
    locals := [transformArrayVar ['a'] (.elements ⟨0, 3, by decide⟩ [] .INT)]
    fbInstances := []
    body := [] }]

def literalValue : Expression → Int
  | .literal (.int n) _ => n
  | _ => 0

end Uniset.St2js.IR
