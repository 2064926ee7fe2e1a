import Mathlib.Data.Char
import Mathlib.Data.List.Dedup
import Mathlib.Data.List.Lex
import Mathlib.Data.List.Nodup
import Uniset.St2js.StructuredText

/-! Variables that are declared by their prefixes: what the names of a program are collected from,
and where variables occur. -/

namespace Uniset.St2js.IR

def inputPrefixes : List Ident :=
  [['M', 'B', 'I', '_'], ['R', 'D', 'I', '_'], ['R', 'A', 'I', '_']]

def outputPrefixes : List Ident :=
  [['M', 'B', 'O', '_'], ['R', 'D', 'O', '_'], ['R', 'A', 'O', '_']]

def startsWithOneOf (ps : List Ident) (x : Ident) : Bool := ps.any (·.isPrefixOf x)

/-- The arguments of a function are pairs of a name and an expression, and nothing is collected from
a pair. -/
def collectExprRefs : Expression → List Ident
  | .varRef x => [x]
  | .binaryOp _ l r => collectExprRefs l ++ collectExprRefs r
  | .unaryOp _ e => collectExprRefs e
  | .fieldAccess obj _ => collectExprRefs obj
  | .arrayAccess a i => collectExprRefs a ++ collectExprRefs i
  | .typeCoercion e _ _ => collectExprRefs e
  | .literal .. | .functionCall .. | .fbCall .. => []

def collectBasicRefs : Basic → List Ident
  | .assignment target value => collectExprRefs target ++ collectExprRefs value
  | .fbCall _ args => args.flatMap fun a => collectExprRefs a.2
  | .programCall _ => []

mutual

def collectStatementRefs : Statement → List Ident
  | .basic s => collectBasicRefs s
  | .ifElse c t es el =>
    collectExprRefs c ++ (collectVarRefs t ++ (collectElse el ++ collectElsif es))
  | .case c bs el => collectExprRefs c ++ (collectBranches bs ++ collectElse el)
  | .forLoop x start stop step body => x :: (collectExprRefs start ++ (collectExprRefs stop ++
      (step.toList.flatMap collectExprRefs ++ collectVarRefs body)))
  | .whileLoop c body => collectExprRefs c ++ collectVarRefs body
  | .repeatLoop c body => collectExprRefs c ++ collectVarRefs body
  | .exit | .continue | .return => []

def collectVarRefs : Body → List Ident
  | [] => []
  | s :: ss => collectStatementRefs s ++ collectVarRefs ss

def collectElsif : List (Expression × Body) → List Ident
  | [] => []
  | (c, b) :: es => collectExprRefs c ++ (collectVarRefs b ++ collectElsif es)

/-- The values of a branch are not looked at. -/
def collectBranches : List (List Expression × Body) → List Ident
  | [] => []
  | (_, b) :: bs => collectVarRefs b ++ collectBranches bs

def collectElse : Option Body → List Ident
  | none => []
  | some b => collectVarRefs b

end

namespace Program

variable (p : Program)

def known : List Ident :=
  let vs := p.inputs ++ p.outputs ++ p.locals ++ p.globals
  (vs.flatMap fun v => v.name :: v.structFields.map (·.name)) ++ p.fbInstances.map (·.name) ++
    p.gvlFieldMap.map (·.1) ++ p.secondaryPrograms.map (·.name)

def used : List Ident :=
  collectVarRefs p.body ++ p.secondaryPrograms.flatMap fun sec => collectVarRefs sec.body

def undeclared : List Ident :=
  (p.used.filter (· ∉ p.known)).dedup.mergeSort fun a b => decide (a ≤ b)

def newInputs : List Variable :=
  (p.undeclared.filter (startsWithOneOf inputPrefixes)).map fun x =>
    { name := x, iecType := .INT, isInput := true }

def newOutputs : List Variable :=
  (p.undeclared.filter fun x =>
      !startsWithOneOf inputPrefixes x && startsWithOneOf outputPrefixes x).map fun x =>
    { name := x, iecType := .INT, isOutput := true }

def resolveIoByPrefix : Program :=
  { p with inputs := p.inputs ++ p.newInputs, outputs := p.outputs ++ p.newOutputs }

end Program

/-! ### Occurrences -/

/-- An occurrence of a variable; it is out of sight when it stands among the arguments of a call in
an expression, among the values of a `CASE`, among the arguments of a constructor or in a function
block. -/
structure VarOccurrence where
  name : Ident
  seen : Bool

mutual

def exprOccurrences (seen : Bool) : Expression → List VarOccurrence
  | .literal .. => []
  | .varRef x => [⟨x, seen⟩]
  | .binaryOp _ l r => exprOccurrences seen l ++ exprOccurrences seen r
  | .unaryOp _ e => exprOccurrences seen e
  | .fieldAccess obj _ => exprOccurrences seen obj
  | .arrayAccess a i => exprOccurrences seen a ++ exprOccurrences seen i
  | .typeCoercion e _ _ => exprOccurrences seen e
  | .functionCall _ args => functionArgOccurrences false args
  | .fbCall _ args => argOccurrences false args

def functionArgOccurrences (seen : Bool) : List (Option Ident × Expression) → List VarOccurrence
  | [] => []
  | (_, e) :: args => exprOccurrences seen e ++ functionArgOccurrences seen args

def argOccurrences (seen : Bool) : List (Ident × Expression) → List VarOccurrence
  | [] => []
  | (_, e) :: args => exprOccurrences seen e ++ argOccurrences seen args

end

def basicOccurrences (seen : Bool) : Basic → List VarOccurrence
  | .assignment target value => exprOccurrences seen target ++ exprOccurrences seen value
  | .fbCall _ args => argOccurrences seen args
  | .programCall _ => []

mutual

def statementOccurrences (seen : Bool) : Statement → List VarOccurrence
  | .basic s => basicOccurrences seen s
  | .ifElse c t es el => exprOccurrences seen c ++
      (bodyOccurrences seen t ++ (elseOccurrences seen el ++ elsifOccurrences seen es))
  | .case c bs el => exprOccurrences seen c ++ (branchOccurrences seen bs ++ elseOccurrences seen el)
  | .forLoop x start stop step body => ⟨x, seen⟩ :: (exprOccurrences seen start ++
      (exprOccurrences seen stop ++
        (step.toList.flatMap (exprOccurrences seen) ++ bodyOccurrences seen body)))
  | .whileLoop c body => exprOccurrences seen c ++ bodyOccurrences seen body
  | .repeatLoop c body => exprOccurrences seen c ++ bodyOccurrences seen body
  | .exit | .continue | .return => []

def bodyOccurrences (seen : Bool) : Body → List VarOccurrence
  | [] => []
  | s :: ss => statementOccurrences seen s ++ bodyOccurrences seen ss

def elsifOccurrences (seen : Bool) : List (Expression × Body) → List VarOccurrence
  | [] => []
  | (c, b) :: es => exprOccurrences seen c ++ (bodyOccurrences seen b ++ elsifOccurrences seen es)

def branchOccurrences (seen : Bool) : List (List Expression × Body) → List VarOccurrence
  | [] => []
  | (vs, b) :: bs => vs.flatMap (exprOccurrences false) ++
      (bodyOccurrences seen b ++ branchOccurrences seen bs)

def elseOccurrences (seen : Bool) : Option Body → List VarOccurrence
  | none => []
  | some b => bodyOccurrences seen b

end

/-- The occurrences in a unit: in its body, and in what its instances are made with. -/
def POU.occurrences (u : POU) (seen : Bool) : List VarOccurrence :=
  bodyOccurrences seen u.body ++ u.fbInstances.flatMap fun i => argOccurrences false i.constructorArgs

namespace Program

variable (p : Program)

/-- The units of a program, and whether names are collected from them. -/
def units : List (POU × Bool) :=
  (p.toPOU, true) :: (p.secondaryPrograms.map (·, true) ++ p.functionBlocks.map (·, false))

/-- What a unit sees under a name: a variable or an instance of its own, a global, a field of a global
object or a program. -/
def DeclaredIn (u : POU) (x : Ident) : Prop :=
  x ∈ names (u.inputs ++ u.outputs ++ u.locals) ∨ x ∈ u.fbInstances.map (·.name) ∨
    x ∈ names p.globals ∨ x ∈ p.gvlFieldMap.map (·.1) ∨ x ∈ p.secondaryPrograms.map (·.name)

def IsIo (x : Ident) : Prop := startsWithOneOf (inputPrefixes ++ outputPrefixes) x = true

/-- The name is used as a variable in a unit that does not declare it. -/
def Undeclared (x : Ident) : Prop :=
  ∃ u ∈ p.units, (∃ o ∈ u.1.occurrences u.2, o.name = x) ∧ ¬p.DeclaredIn u.1 x

/-- The undeclared inputs and outputs of `p` have been declared in `p'`, and nothing else has. -/
structure Maps (p' : Program) : Prop where
  declared : ∀ x, IsIo x → p.Undeclared x → x ∈ names p'.inputs ∨ x ∈ names p'.outputs
  added : ∃ ins outs, p' = { p with inputs := p.inputs ++ ins, outputs := p.outputs ++ outs } ∧
    (names (ins ++ outs)).Nodup ∧
    ∀ x ∈ names (ins ++ outs), IsIo x ∧ p.Undeclared x ∧ ¬p.DeclaredIn p.toPOU x

/-- The name occurs where names are collected from. -/
def Seen (x : Ident) : Prop :=
  ∃ u ∈ p.units, ⟨x, true⟩ ∈ u.1.occurrences u.2

/-- Each undeclared input or output is one already, or occurs where names are collected from and is no
other name of the main program; what occurs there is undeclared in some unit. -/
structure Mappable : Prop where
  found : ∀ x, IsIo x → p.Undeclared x →
    x ∈ names p.inputs ∨ x ∈ names p.outputs ∨ x ∉ p.known ∧ p.Seen x
  own : ∀ x, IsIo x → x ∉ p.known → p.Seen x → p.Undeclared x

end Program

/-! ### Collecting -/

/-- The names of the occurrences that are seen. -/
def seenNames (os : List VarOccurrence) : List Ident := (os.filter (·.seen)).map (·.name)

@[simp] theorem seenNames_nil : seenNames [] = [] := rfl

@[simp] theorem seenNames_append (os os' : List VarOccurrence) :
    seenNames (os ++ os') = seenNames os ++ seenNames os' := by
  rw [seenNames, List.filter_append, List.map_append]
  rfl

theorem mem_seenNames {x : Ident} {os : List VarOccurrence} :
    x ∈ seenNames os ↔ ⟨x, true⟩ ∈ os := by
  constructor
  · intro h
    obtain ⟨⟨y, seen⟩, ho, rfl⟩ := List.mem_map.mp h
    obtain ⟨hmem, rfl⟩ := List.mem_filter.mp ho
    exact hmem
  · intro h
    exact List.mem_map.mpr ⟨⟨x, true⟩, List.mem_filter.mpr ⟨h, rfl⟩, rfl⟩

theorem seenNames_flatMap {α : Type} (f : α → List VarOccurrence) (l : List α) :
    seenNames (l.flatMap f) = l.flatMap fun a => seenNames (f a) := by
  induction l with
  | nil => rfl
  | cons a l ih => rw [List.flatMap_cons, seenNames_append, ih, List.flatMap_cons]

mutual

/-- Nothing is seen in what is out of sight. -/
theorem seenNames_exprOccurrences_false : ∀ e : Expression, seenNames (exprOccurrences false e) = []
  | .literal .. => rfl
  | .varRef _ => rfl
  | .binaryOp _ l r => by
    rw [exprOccurrences, seenNames_append, seenNames_exprOccurrences_false l,
      seenNames_exprOccurrences_false r, List.nil_append]
  | .unaryOp _ e => seenNames_exprOccurrences_false e
  | .fieldAccess obj _ => seenNames_exprOccurrences_false obj
  | .arrayAccess a i => by
    rw [exprOccurrences, seenNames_append, seenNames_exprOccurrences_false a,
      seenNames_exprOccurrences_false i, List.nil_append]
  | .typeCoercion e _ _ => seenNames_exprOccurrences_false e
  | .functionCall _ args => seenNames_functionArgOccurrences args
  | .fbCall _ args => seenNames_argOccurrences args

theorem seenNames_functionArgOccurrences : ∀ args : List (Option Ident × Expression),
    seenNames (functionArgOccurrences false args) = []
  | [] => rfl
  | (_, e) :: args => by
    rw [functionArgOccurrences, seenNames_append, seenNames_exprOccurrences_false e,
      seenNames_functionArgOccurrences args, List.nil_append]

theorem seenNames_argOccurrences : ∀ args : List (Ident × Expression),
    seenNames (argOccurrences false args) = []
  | [] => rfl
  | (_, e) :: args => by
    rw [argOccurrences, seenNames_append, seenNames_exprOccurrences_false e,
      seenNames_argOccurrences args, List.nil_append]

end

/-- Names that are collected only where there is sight. -/
def inSight (seen : Bool) (xs : List Ident) : List Ident := if seen then xs else []

@[simp] theorem inSight_nil (seen : Bool) : inSight seen [] = [] := ite_self _

@[simp] theorem inSight_append (seen : Bool) (xs ys : List Ident) :
    inSight seen (xs ++ ys) = inSight seen xs ++ inSight seen ys := by
  cases seen <;> rfl

theorem inSight_cons (seen : Bool) (x : Ident) (xs : List Ident) :
    inSight seen (x :: xs) = inSight seen [x] ++ inSight seen xs := by
  cases seen <;> rfl

theorem seenNames_cons (seen : Bool) (x : Ident) (os : List VarOccurrence) :
    seenNames (⟨x, seen⟩ :: os) = inSight seen [x] ++ seenNames os := by
  cases seen <;> rfl

theorem inSight_flatMap {α : Type} (seen : Bool) (f : α → List Ident) (l : List α) :
    inSight seen (l.flatMap f) = l.flatMap fun a => inSight seen (f a) := by
  cases seen with
  | true => rfl
  | false => exact (List.flatMap_eq_nil_iff.mpr fun _ _ => rfl).symm

/-- What is collected from an expression is what is seen there. -/
theorem seenNames_exprOccurrences (seen : Bool) : ∀ e : Expression,
    seenNames (exprOccurrences seen e) = inSight seen (collectExprRefs e)
  | .literal .. => (inSight_nil seen).symm
  | .varRef _ => by cases seen <;> rfl
  | .binaryOp _ l r => by
    rw [exprOccurrences, seenNames_append, seenNames_exprOccurrences seen l,
      seenNames_exprOccurrences seen r, collectExprRefs, inSight_append]
  | .unaryOp _ e => seenNames_exprOccurrences seen e
  | .fieldAccess obj _ => seenNames_exprOccurrences seen obj
  | .arrayAccess a i => by
    rw [exprOccurrences, seenNames_append, seenNames_exprOccurrences seen a,
      seenNames_exprOccurrences seen i, collectExprRefs, inSight_append]
  | .typeCoercion e _ _ => seenNames_exprOccurrences seen e
  | .functionCall _ args => (seenNames_functionArgOccurrences args).trans (inSight_nil seen).symm
  | .fbCall _ args => (seenNames_argOccurrences args).trans (inSight_nil seen).symm

theorem argOccurrences_eq (seen : Bool) (args : List (Ident × Expression)) :
    argOccurrences seen args = args.flatMap fun a => exprOccurrences seen a.2 := by
  induction args with
  | nil => rfl
  | cons a args ih => rw [argOccurrences, ih, List.flatMap_cons]

theorem seenNames_basicOccurrences (seen : Bool) (s : Basic) :
    seenNames (basicOccurrences seen s) = inSight seen (collectBasicRefs s) := by
  cases s with
  | assignment target value =>
    rw [basicOccurrences, seenNames_append, seenNames_exprOccurrences, seenNames_exprOccurrences,
      collectBasicRefs, inSight_append]
  | fbCall inst args =>
    rw [basicOccurrences, argOccurrences_eq, seenNames_flatMap, collectBasicRefs, inSight_flatMap]
    simp only [seenNames_exprOccurrences]
  | programCall name => exact (inSight_nil seen).symm

theorem seenNames_values (vs : List Expression) :
    seenNames (vs.flatMap (exprOccurrences false)) = [] := by
  rw [seenNames_flatMap]
  exact List.flatMap_eq_nil_iff.mpr fun e _ => seenNames_exprOccurrences_false e

mutual

theorem seenNames_statementOccurrences (seen : Bool) : ∀ s : Statement,
    seenNames (statementOccurrences seen s) = inSight seen (collectStatementRefs s)
  | .basic s => seenNames_basicOccurrences seen s
  | .ifElse c t es el => by
    simp only [statementOccurrences, collectStatementRefs, seenNames_append, inSight_append,
      seenNames_exprOccurrences seen c, seenNames_bodyOccurrences seen t,
      seenNames_elsifOccurrences seen es, seenNames_elseOccurrences seen el]
  | .case c bs el => by
    simp only [statementOccurrences, collectStatementRefs, seenNames_append, inSight_append,
      seenNames_exprOccurrences seen c, seenNames_branchOccurrences seen bs,
      seenNames_elseOccurrences seen el]
  | .forLoop x start stop step body => by
    rw [statementOccurrences, seenNames_cons, collectStatementRefs,
      inSight_cons seen x (collectExprRefs start ++ _)]
    simp only [seenNames_append, inSight_append, seenNames_flatMap, inSight_flatMap,
      seenNames_exprOccurrences, seenNames_bodyOccurrences seen body]
  | .whileLoop c body => by
    simp only [statementOccurrences, collectStatementRefs, seenNames_append, inSight_append,
      seenNames_exprOccurrences seen c, seenNames_bodyOccurrences seen body]
  | .repeatLoop c body => by
    simp only [statementOccurrences, collectStatementRefs, seenNames_append, inSight_append,
      seenNames_exprOccurrences seen c, seenNames_bodyOccurrences seen body]
  | .exit => (inSight_nil seen).symm
  | .continue => (inSight_nil seen).symm
  | .return => (inSight_nil seen).symm

theorem seenNames_bodyOccurrences (seen : Bool) : ∀ ss : Body,
    seenNames (bodyOccurrences seen ss) = inSight seen (collectVarRefs ss)
  | [] => (inSight_nil seen).symm
  | s :: ss => by
    rw [bodyOccurrences, seenNames_append, seenNames_statementOccurrences seen s,
      seenNames_bodyOccurrences seen ss, collectVarRefs, inSight_append]

theorem seenNames_elsifOccurrences (seen : Bool) : ∀ es : List (Expression × Body),
    seenNames (elsifOccurrences seen es) = inSight seen (collectElsif es)
  | [] => (inSight_nil seen).symm
  | (c, b) :: es => by
    simp only [elsifOccurrences, collectElsif, seenNames_append, inSight_append,
      seenNames_exprOccurrences seen c, seenNames_bodyOccurrences seen b,
      seenNames_elsifOccurrences seen es]

theorem seenNames_branchOccurrences (seen : Bool) : ∀ bs : List (List Expression × Body),
    seenNames (branchOccurrences seen bs) = inSight seen (collectBranches bs)
  | [] => (inSight_nil seen).symm
  | (vs, b) :: bs => by
    simp only [branchOccurrences, collectBranches, seenNames_append, inSight_append,
      seenNames_values vs, List.nil_append, seenNames_bodyOccurrences seen b,
      seenNames_branchOccurrences seen bs]

theorem seenNames_elseOccurrences (seen : Bool) : ∀ el : Option Body,
    seenNames (elseOccurrences seen el) = inSight seen (collectElse el)
  | none => (inSight_nil seen).symm
  | some b => seenNames_bodyOccurrences seen b

end

namespace Program

variable {p : Program} {x : Ident}

/-- What is used is what is seen. -/
theorem mem_used_iff : x ∈ p.used ↔ p.Seen x := by
  have hinst : ∀ u : POU, seenNames
      (u.fbInstances.flatMap fun i => argOccurrences false i.constructorArgs) = [] := fun u => by
    rw [seenNames_flatMap]
    exact List.flatMap_eq_nil_iff.mpr fun i _ => seenNames_argOccurrences i.constructorArgs
  have hseen : ∀ u : POU × Bool, ⟨x, true⟩ ∈ u.1.occurrences u.2 ↔
      x ∈ inSight u.2 (collectVarRefs u.1.body) := fun u => by
    rw [← mem_seenNames, POU.occurrences, seenNames_append, hinst, List.append_nil,
      seenNames_bodyOccurrences]
  unfold used Seen units
  simp only [hseen, List.mem_cons, List.mem_append, List.mem_map, List.mem_flatMap]
  constructor
  · rintro (h | ⟨sec, hsec, h⟩)
    · exact ⟨(p.toPOU, true), .inl rfl, h⟩
    · exact ⟨(sec, true), .inr (.inl ⟨sec, hsec, rfl⟩), h⟩
  · rintro ⟨u, rfl | ⟨sec, hsec, rfl⟩ | ⟨fb, hfb, rfl⟩, h⟩
    · exact .inl h
    · exact .inr ⟨sec, hsec, h⟩
    · cases h

theorem mem_undeclared_iff : x ∈ p.undeclared ↔ p.Seen x ∧ x ∉ p.known := by
  rw [undeclared, List.mem_mergeSort, List.mem_dedup, List.mem_filter, mem_used_iff,
    decide_eq_true_iff]

theorem names_new : names (p.newInputs ++ p.newOutputs) =
    (p.undeclared.filter (startsWithOneOf inputPrefixes)) ++ p.undeclared.filter fun x =>
      !startsWithOneOf inputPrefixes x && startsWithOneOf outputPrefixes x := by
  simp only [names, newInputs, newOutputs, List.map_append, List.map_map, Function.comp_def,
    List.map_id']

theorem isIo_iff : IsIo x ↔ startsWithOneOf inputPrefixes x = true ∨
    (!startsWithOneOf inputPrefixes x && startsWithOneOf outputPrefixes x) = true := by
  unfold IsIo startsWithOneOf
  rw [List.any_append]
  cases inputPrefixes.any (·.isPrefixOf x) <;> simp

theorem mem_names_new_iff : x ∈ names (p.newInputs ++ p.newOutputs) ↔
    IsIo x ∧ p.Seen x ∧ x ∉ p.known := by
  rw [names_new, List.mem_append, List.mem_filter, List.mem_filter, ← and_or_left,
    mem_undeclared_iff, isIo_iff, and_comm]

theorem nodup_names_new (p : Program) : (names (p.newInputs ++ p.newOutputs)).Nodup := by
  have hnodup : p.undeclared.Nodup :=
    (List.mergeSort_perm ..).nodup_iff.mpr (List.nodup_dedup _)
  rw [names_new]
  refine List.nodup_append'.mpr ⟨hnodup.filter _, hnodup.filter _, ?_⟩
  intro y hin hout
  have hin := (List.mem_filter.mp hin).2
  have hout := (List.mem_filter.mp hout).2
  rw [hin] at hout
  cases hout

/-- What the main program sees is known. -/
theorem known_of_declaredIn (h : p.DeclaredIn p.toPOU x) : x ∈ p.known := by
  have hvars : ∀ vs : List Variable, x ∈ names vs →
      x ∈ vs.flatMap fun v => v.name :: v.structFields.map (·.name) := fun vs h => by
    obtain ⟨v, hv, rfl⟩ := List.mem_map.mp h
    exact List.mem_flatMap.mpr ⟨v, hv, List.mem_cons_self⟩
  unfold known
  simp only [List.flatMap_append, List.mem_append]
  rcases h with h | h | h | h | h
  · unfold names at h
    rw [List.map_append, List.map_append, List.mem_append, List.mem_append] at h
    rcases h with (h | h) | h
    · exact .inl (.inl (.inl (.inl (.inl (.inl (hvars _ h))))))
    · exact .inl (.inl (.inl (.inl (.inl (.inr (hvars _ h))))))
    · exact .inl (.inl (.inl (.inl (.inr (hvars _ h)))))
  · exact .inl (.inl (.inr h))
  · exact .inl (.inl (.inl (.inr (hvars _ h))))
  · exact .inl (.inr h)
  · exact .inr h

theorem mem_names_append {vs ws : List Variable} :
    x ∈ names (vs ++ ws) ↔ x ∈ names vs ∨ x ∈ names ws := by
  rw [names, List.map_append, List.mem_append]
  rfl

theorem maps_iff (p : Program) : p.Maps p.resolveIoByPrefix ↔ p.Mappable := by
  constructor
  · rintro ⟨hdeclared, ins, outs, heq, -, hadded⟩
    have hins : p.newInputs = ins := List.append_cancel_left (congrArg (·.inputs) heq)
    have houts : p.newOutputs = outs := List.append_cancel_left (congrArg (·.outputs) heq)
    subst hins houts
    refine ⟨fun x hio hx => ?_, fun x hio hknown hseen =>
      (hadded x (mem_names_new_iff.mpr ⟨hio, hseen, hknown⟩)).2.1⟩
    have hnew : x ∈ names p.newInputs ∨ x ∈ names p.newOutputs → x ∉ p.known ∧ p.Seen x :=
      fun h => (mem_names_new_iff.mp (mem_names_append.mpr h)).2.symm
    rcases hdeclared x hio hx with h | h
    · rcases mem_names_append.mp h with h | h
      · exact .inl h
      · exact .inr (.inr (hnew (.inl h)))
    · rcases mem_names_append.mp h with h | h
      · exact .inr (.inl h)
      · exact .inr (.inr (hnew (.inr h)))
  · rintro ⟨hfound, hown⟩
    refine ⟨fun x hio hx => ?_, p.newInputs, p.newOutputs, rfl, nodup_names_new p, fun x hx => ?_⟩
    · rcases hfound x hio hx with h | h | ⟨hknown, hseen⟩
      · exact .inl (mem_names_append.mpr (.inl h))
      · exact .inr (mem_names_append.mpr (.inl h))
      · rcases mem_names_append.mp (mem_names_new_iff.mpr ⟨hio, hseen, hknown⟩) with h | h
        · exact .inl (mem_names_append.mpr (.inr h))
        · exact .inr (mem_names_append.mpr (.inr h))
    · obtain ⟨hio, hseen, hknown⟩ := mem_names_new_iff.mp hx
      exact ⟨hio, hown x hio hknown hseen, fun h => hknown (known_of_declaredIn h)⟩

end Program

/-- `x := f(MBI_1);`. -/
def inFunctionCall : Program where
  name := ['m']
  inputs := []
  outputs := []
  locals := [{ name := ['x'], iecType := .INT }]
  fbInstances := []
  body := [.basic (.assignment (.varRef ['x'])
    (.functionCall ['f'] [(none, .varRef ['M', 'B', 'I', '_', '1'])]))]
  functionBlocks := []
  globals := []
  gvlFieldMap := []
  secondaryPrograms := []

/-- The input is an argument of a function, and is not found. -/
theorem not_maps : ¬∀ p : Program, p.Maps p.resolveIoByPrefix := by
  intro h
  have hundeclared : inFunctionCall.Undeclared ['M', 'B', 'I', '_', '1'] := by
    refine ⟨(inFunctionCall.toPOU, true), List.mem_cons_self,
      ⟨⟨['M', 'B', 'I', '_', '1'], false⟩, ?_, rfl⟩, ?_⟩
    · exact List.mem_cons_of_mem _ List.mem_cons_self
    · unfold Program.DeclaredIn
      decide
  have hunseen : ¬inFunctionCall.Seen ['M', 'B', 'I', '_', '1'] := by
    rw [← Program.mem_used_iff]
    decide
  have hio : Program.IsIo ['M', 'B', 'I', '_', '1'] := by
    unfold Program.IsIo
    decide
  rcases (h inFunctionCall).declared _ hio hundeclared with h | h
  · exact hunseen (Program.mem_names_new_iff.mp (Program.mem_names_append.mpr (.inl h))).2.1
  · exact hunseen (Program.mem_names_new_iff.mp (Program.mem_names_append.mpr (.inr h))).2.1

end Uniset.St2js.IR
