import Mathlib.Data.List.Nodup
import Mathlib.Data.List.Pairwise
import Mathlib.Tactic.SplitIfs
import Uniset.St2js.Codegen

/-! Whether the references printed for a program are the names its variables
are declared under.  What a body may name and how each variable is declared in
the printed file is stated first; the occurrences of a body are then listed with
where they stand, and the printing is compared with the declarations. The names
of all declarations of a scope are compared last. -/

namespace Uniset.St2js

/-- The parts of the printed file that have a scope of their own. -/
inductive Region
  | load
  | onStep
  | secondary (p : IRSecondary)
  | block (fb : IRFunctionBlock)

/-- How a variable is declared: by a `let` of its own or of its prefixed name, as
a sensor, as a property of a block or as a field of a global object. -/
inductive Form
  | plain (x : Ident)
  | prefixed (x : Ident)
  | sensorIn (s : Ident)
  | sensorOut (s : Ident)
  | this (x : Ident)
  | member (obj x : Ident)

namespace CodeGenerator

variable (G : CodeGenerator)

/-! ### Declarations in scope -/

def Form.ref : Form → Ref
  | .plain x => .name x
  | .prefixed x => .name (G.prefixed x)
  | .sensorIn s => .name (G.inSensor s)
  | .sensorOut s => .name (G.outSensor s)
  | .this x => .this x
  | .member obj x => .member obj x

/-- The variables every body sees: the inputs and outputs of the main program,
the globals and the fields of global objects.  An input kept in a variable of
its own is declared in `uniset_on_step` only, and an output kept so nowhere. -/
def sharedForm (inStep : Bool) (x : Ident) : Option Form :=
  if x ∈ G.program.inputs then
    if G.directInput x then (if inStep then some (.plain x) else none)
    else some (.sensorIn (sensorOf G.mapping.inputs x))
  else if x ∈ G.program.outputs then
    if G.directOutput x then none else some (.sensorOut (sensorOf G.mapping.outputs x))
  else if x ∈ G.program.globals then
    if x ∈ G.emitGlobalVars then some (.plain x) else none
  else match G.program.gvlFieldMap.lookup x with
    | some obj => if obj ∈ G.emitGlobalVars then some (.member obj x) else none
    | none => none

def ownMain (x : Ident) : Prop :=
  (x ∉ G.program.inputs ∧ x ∉ G.program.outputs) ∧
    (x ∈ G.program.locals ∨ x ∈ instanceNames G.program.fbInstances)

def ownSecondary (p : IRSecondary) (x : Ident) : Prop :=
  x ∈ p.locals ∨ x ∈ instanceNames p.fbInstances

instance (x : Ident) : Decidable (G.ownMain x) := by unfold ownMain; infer_instance

instance (p : IRSecondary) (x : Ident) : Decidable (ownSecondary p x) := by
  unfold ownSecondary
  infer_instance

/-- A field is out of reach where its object's name is taken. -/
def unlessTaken (taken : Ident → Bool) : Option Form → Option Form
  | some (.member obj x) => if taken obj then none else some (.member obj x)
  | f => f

/-- The declaration, in the printed file, of the variable that a name means in a
body.  The inputs and outputs of a secondary program and the instances in a
function block have none. -/
def declaredForm (x : Ident) : Region → Option Form
  | .load => if G.ownMain x then some (.prefixed x) else G.sharedForm false x
  | .onStep => if G.ownMain x then some (.prefixed x) else G.sharedForm true x
  | .secondary p =>
    if ownSecondary p x then some (.plain x)
    else if x ∈ p.inputs ∨ x ∈ p.outputs then none
    else unlessTaken (fun obj => decide (ownSecondary p obj)) (G.sharedForm false x)
  | .block fb =>
    if x ∈ fb.variables then some (.this x)
    else if x ∈ instanceNames fb.fbInstances then none
    else G.sharedForm false x

def declaredAs (R : Region) (x : Ident) : Option Ref := (G.declaredForm x R).map (Form.ref G)

def IsRegion : Region → Prop
  | .load => True
  | .onStep => True
  | .secondary p => p ∈ G.program.secondaryPrograms
  | .block fb => fb ∈ G.program.functionBlocks

def printedIn : Region → List Printed
  | .load => G.emitFbInstances [] G.program.fbInstances
  | .onStep => G.emitOnStep
  | .secondary p => G.emitProgramFunction p
  | .block fb => G.emitFunctionBlockClass fb

/-- The names that a scope declares: the file, `uniset_on_step` and the function around a
secondary program. -/
def declaredNames : Region → List Ident
  | .load => FilePart.all.flatMap G.emitted
  | .onStep => G.stepLets
  | .secondary p => p.locals ++ instanceNames p.fbInstances
  | .block _ => []

def lexicalWords : List Ident := "let".toList :: reservedWords

/-- What the file uses or the runtime declares under names that are always the same. -/
def fixedNames : List Ident :=
  ["undefined", "NaN", "Infinity", "load", "uniset_inputs", "uniset_outputs"].map String.toList

def sensorNames : List Ident :=
  G.collectInputEntries.map G.inSensor ++ G.collectOutputEntries.map G.outSensor

/-- The names that a scope cannot declare, or under which its bodies would find something else. -/
def forbidden : Region → List Ident
  | .load => "arguments".toList :: lexicalWords ++ fixedNames ++ G.loaded ++ G.sensorNames
  | .onStep => lexicalWords
  | .secondary p => G.prefixedFunc p.name :: "arguments".toList :: lexicalWords
  | .block _ => []

/-- Every occurrence is printed as the name its variable is declared under, and
in no body do two variables share a name.  Each scope declares a name once and
none that it cannot; the names of classes, and those in their bodies, are names
there too. -/
structure Resolves : Prop where
  declared : ∀ R, G.IsRegion R → ∀ p ∈ G.printedIn R, G.declaredAs R p.name = some p.ref
  apart : ∀ R, G.IsRegion R → ∀ x y r,
    G.declaredAs R x = some r → G.declaredAs R y = some r → x = y
  once : ∀ R, G.IsRegion R → (G.declaredNames R).Nodup
  permitted : ∀ R, G.IsRegion R → ∀ n ∈ G.declaredNames R, n ∉ G.forbidden R
  classes : ∀ n ∈ G.emitted .blocks ++ G.emitted .stubs, n ∉ strictWords
  inClasses : ∀ fb ∈ G.program.functionBlocks, ∀ p ∈ G.emitFunctionBlockClass fb,
    ∀ n ∈ strictWords, p.ref ≠ .name n

/-! ### Occurrences -/

end CodeGenerator

inductive Role
  | reading
  | call
  | bare
  deriving DecidableEq, Repr

/-- An occurrence of a variable; it is lost when it stands in a `CASE`, in a loop
or under a coercion. -/
structure Occurrence where
  name : Ident
  role : Role
  lost : Bool
  deriving DecidableEq, Repr

namespace CodeGenerator

variable (G : CodeGenerator)

mutual

def expressionOccurrences (lost : Bool) : IRExpression → List Occurrence
  | .literal => []
  | .varRef x => [⟨x, .reading, lost⟩]
  | .binaryOp l r => expressionOccurrences lost l ++ expressionOccurrences lost r
  | .unaryOp e => expressionOccurrences lost e
  | .fieldAccess obj _ => expressionOccurrences lost obj
  | .arrayAccess a i => expressionOccurrences lost a ++ expressionOccurrences lost i
  | .typeCoercion e => expressionOccurrences true e
  | .functionCall _ args => argumentOccurrences lost args

def argumentOccurrences (lost : Bool) : List IRExpression → List Occurrence
  | [] => []
  | e :: es => expressionOccurrences lost e ++ argumentOccurrences lost es

end

def fbCallOccurrences (lost : Bool) (inst : Ident) (args : List (Ident × IRExpression)) :
    List Occurrence :=
  match G.getFbInfo (G.getFbType inst) with
  | some info => ⟨inst, .call, lost⟩ ::
      argumentOccurrences lost (info.updateParams.filterMap fun p => args.lookup p)
  | none =>
    if G.getFbType inst ∈ G.userFbTypes then
      (args.flatMap fun a => ⟨inst, .call, lost⟩ :: expressionOccurrences lost a.2) ++
        [⟨inst, .call, lost⟩]
    else []

def basicOccurrences (lost : Bool) : IRBasic → List Occurrence
  | .assignment target value => expressionOccurrences lost target ++ expressionOccurrences lost value
  | .fbCall inst args => G.fbCallOccurrences lost inst args
  | .programCall _ => []

mutual

def statementOccurrences (lost : Bool) : IRStatement IRBasic IRExpression → List Occurrence
  | .basic s => G.basicOccurrences lost s
  | .ifElse c t es el => expressionOccurrences lost c ++
      (bodyOccurrences lost t ++ (elsifOccurrences lost es ++ elseOccurrences lost el))
  | .case c bs el => expressionOccurrences true c ++
      (branchOccurrences true bs ++ elseOccurrences true el)
  | .forLoop x start stop step body => ⟨x, .bare, lost⟩ :: (expressionOccurrences true start ++
      (expressionOccurrences true stop ++
        (argumentOccurrences true step.toList ++ bodyOccurrences true body)))
  | .whileLoop c body => expressionOccurrences true c ++ bodyOccurrences true body
  | .repeatLoop c body => bodyOccurrences true body ++ expressionOccurrences true c
  | .exit => []
  | .continue => []
  | .return => []

def bodyOccurrences (lost : Bool) : IRBody → List Occurrence
  | [] => []
  | s :: ss => statementOccurrences lost s ++ bodyOccurrences lost ss

def elsifOccurrences (lost : Bool) : List (IRExpression × IRBody) → List Occurrence
  | [] => []
  | (c, b) :: es => expressionOccurrences lost c ++ (bodyOccurrences lost b ++ elsifOccurrences lost es)

def branchOccurrences (lost : Bool) : List (List IRExpression × IRBody) → List Occurrence
  | [] => []
  | (vs, b) :: bs => argumentOccurrences lost vs ++ (bodyOccurrences lost b ++ branchOccurrences lost bs)

def elseOccurrences (lost : Bool) : Option IRBody → List Occurrence
  | none => []
  | some b => bodyOccurrences lost b

end

def instanceOccurrences (seen : List Ident) : List IRFBInstance → List Occurrence
  | [] => []
  | i :: is =>
    if i.name ∈ seen then instanceOccurrences seen is
    else argumentOccurrences false (G.constructorCall i) ++ instanceOccurrences (i.name :: seen) is

/-- Each output kept in a variable of its own occurs after the body once for each
sensor it goes to. -/
def outputOccurrences : List Occurrence :=
  (if G.mapping.structFlatten then
    G.program.outputs.flatMap fun x =>
      (flatFields G.mapping.outputs x).map fun _ => ⟨x, .bare, false⟩
  else []) ++ (G.program.outputs.filter (isScaled G.mapping.outputs)).map fun x => ⟨x, .bare, false⟩

def occurrencesIn : Region → List Occurrence
  | .load => G.instanceOccurrences [] G.program.fbInstances
  | .onStep => G.bodyOccurrences false G.program.body ++ G.outputOccurrences
  | .secondary p => p.fbInstances.flatMap (fun i => argumentOccurrences false (G.constructorCall i)) ++
      G.bodyOccurrences false p.body
  | .block fb => G.bodyOccurrences false fb.body

/-! ### The printing, by occurrence -/

def contextOf (lost : Bool) (fb : Option IRFunctionBlock) : Option IRFunctionBlock :=
  if lost then none else fb

def printedFor (fb : Option IRFunctionBlock) (o : Occurrence) : Printed where
  name := o.name
  ref := match o.role with
    | .reading => G.emitVarRef (contextOf o.lost fb) o.name
    | .call => G.instRef (contextOf o.lost fb) o.name
    | .bare => .name o.name

variable (fb : Option IRFunctionBlock)

mutual

theorem emitExpression_eq (lost : Bool) : ∀ e : IRExpression,
    G.emitExpression (contextOf lost fb) e = (expressionOccurrences lost e).map (G.printedFor fb)
  | .literal => rfl
  | .varRef _ => rfl
  | .binaryOp l r => by
    simp only [emitExpression, expressionOccurrences, List.map_append, emitExpression_eq lost l,
      emitExpression_eq lost r]
  | .unaryOp e => emitExpression_eq lost e
  | .fieldAccess obj _ => emitExpression_eq lost obj
  | .arrayAccess a i => by
    simp only [emitExpression, expressionOccurrences, List.map_append, emitExpression_eq lost a,
      emitExpression_eq lost i]
  | .typeCoercion e => emitExpression_eq true e
  | .functionCall _ args => emitArguments_eq lost args

theorem emitArguments_eq (lost : Bool) : ∀ es : List IRExpression,
    G.emitArguments (contextOf lost fb) es = (argumentOccurrences lost es).map (G.printedFor fb)
  | [] => rfl
  | e :: es => by
    simp only [emitArguments, argumentOccurrences, List.map_append, emitExpression_eq lost e,
      emitArguments_eq lost es]

end

theorem emitBasic_eq (lost : Bool) (s : IRBasic) :
    G.emitBasic (contextOf lost fb) s = (G.basicOccurrences lost s).map (G.printedFor fb) := by
  cases s with
  | assignment target value =>
    simp only [emitBasic, basicOccurrences, List.map_append, G.emitExpression_eq fb]
  | fbCall inst args =>
    simp only [emitBasic, basicOccurrences, emitFbCall, fbCallOccurrences]
    cases G.getFbInfo (G.getFbType inst) with
    | some info =>
      simp only [List.map_cons, G.emitArguments_eq fb]
      rfl
    | none =>
      by_cases h : G.getFbType inst ∈ G.userFbTypes
      · simp only [if_pos h, List.map_append, List.map_flatMap, List.map_cons,
          G.emitExpression_eq fb, List.map_nil]
        rfl
      · simp only [if_neg h, List.map_nil]
  | programCall _ => rfl

mutual

theorem emitStatement_eq (lost : Bool) : ∀ s : IRStatement IRBasic IRExpression,
    G.emitStatement (contextOf lost fb) s = (G.statementOccurrences lost s).map (G.printedFor fb)
  | .basic s => G.emitBasic_eq fb lost s
  | .ifElse c t es el => by
    simp only [emitStatement, statementOccurrences, List.map_append, G.emitExpression_eq fb,
      emitBody_eq lost t, emitElsif_eq lost es, emitElse_eq lost el]
  | .case c bs el => by
    have hc := G.emitExpression_eq fb true c
    have hbs := emitBranches_eq true bs
    have hel := emitElse_eq true el
    simp only [contextOf, if_true] at hc hbs hel
    simp only [emitStatement, statementOccurrences, List.map_append, hc, hbs, hel]
  | .forLoop x start stop step body => by
    have hstart := G.emitExpression_eq fb true start
    have hstop := G.emitExpression_eq fb true stop
    have hstep := G.emitArguments_eq fb true step.toList
    have hbody := emitBody_eq true body
    simp only [contextOf, if_true] at hstart hstop hstep hbody
    simp only [emitStatement, statementOccurrences, List.map_cons, List.map_append, hstart, hstop,
      hstep, hbody]
    rfl
  | .whileLoop c body => by
    have hc := G.emitExpression_eq fb true c
    have hbody := emitBody_eq true body
    simp only [contextOf, if_true] at hc hbody
    simp only [emitStatement, statementOccurrences, List.map_append, hc, hbody]
  | .repeatLoop c body => by
    have hc := G.emitExpression_eq fb true c
    have hbody := emitBody_eq true body
    simp only [contextOf, if_true] at hc hbody
    simp only [emitStatement, statementOccurrences, List.map_append, hc, hbody]
  | .exit => rfl
  | .continue => rfl
  | .return => rfl

theorem emitBody_eq (lost : Bool) : ∀ ss : IRBody,
    G.emitBody (contextOf lost fb) ss = (G.bodyOccurrences lost ss).map (G.printedFor fb)
  | [] => rfl
  | s :: ss => by
    simp only [emitBody, bodyOccurrences, List.map_append, emitStatement_eq lost s,
      emitBody_eq lost ss]

theorem emitElsif_eq (lost : Bool) : ∀ es : List (IRExpression × IRBody),
    G.emitElsif (contextOf lost fb) es = (G.elsifOccurrences lost es).map (G.printedFor fb)
  | [] => rfl
  | (c, b) :: es => by
    simp only [emitElsif, elsifOccurrences, List.map_append, G.emitExpression_eq fb,
      emitBody_eq lost b, emitElsif_eq lost es]

theorem emitBranches_eq (lost : Bool) : ∀ bs : List (List IRExpression × IRBody),
    G.emitBranches (contextOf lost fb) bs = (G.branchOccurrences lost bs).map (G.printedFor fb)
  | [] => rfl
  | (vs, b) :: bs => by
    simp only [emitBranches, branchOccurrences, List.map_append, G.emitArguments_eq fb,
      emitBody_eq lost b, emitBranches_eq lost bs]

theorem emitElse_eq (lost : Bool) : ∀ el : Option IRBody,
    G.emitElse (contextOf lost fb) el = (G.elseOccurrences lost el).map (G.printedFor fb)
  | none => rfl
  | some b => emitBody_eq lost b

end

omit fb

def context : Region → Option IRFunctionBlock
  | .load => none
  | .onStep => none
  | .secondary _ => none
  | .block fb => some fb

theorem emitFbInstances_eq (seen : List Ident) (is : List IRFBInstance) :
    G.emitFbInstances seen is = (G.instanceOccurrences seen is).map (G.printedFor none) := by
  induction is generalizing seen with
  | nil => rfl
  | cons i is ih =>
    simp only [emitFbInstances, instanceOccurrences]
    split_ifs
    · exact ih seen
    · rw [List.map_append, ih, ← G.emitArguments_eq none false]
      rfl

theorem outputLines_eq : G.outputLines = G.outputOccurrences.map (G.printedFor none) := by
  simp only [outputLines, outputOccurrences, List.map_append, List.map_map]
  congr 1
  split_ifs
  · rw [List.map_flatMap]
    congr 1
    funext x
    rw [List.map_map]
    rfl
  · rfl

/-- The text of a body has its occurrences, in their order. -/
theorem printedIn_eq (R : Region) :
    G.printedIn R = (G.occurrencesIn R).map (G.printedFor (context R)) := by
  cases R with
  | load => exact G.emitFbInstances_eq [] G.program.fbInstances
  | onStep =>
    simp only [printedIn, occurrencesIn, emitOnStep, List.map_append, G.outputLines_eq]
    congr 1
    exact G.emitBody_eq none false G.program.body
  | secondary p =>
    simp only [printedIn, occurrencesIn, emitProgramFunction, List.map_append, List.map_flatMap]
    congr 1
    · congr 1
      funext i
      exact G.emitArguments_eq none false _
    · exact G.emitBody_eq none false p.body
  | block fb => exact G.emitBody_eq (some fb) false fb.body

/-! ### Where the printing fits the declaration -/

def Form.isNamed (n : Ident) : Form → Prop
  | .plain x => x = n
  | .prefixed x => G.prefixed x = n
  | .sensorIn s => G.inSensor s = n
  | .sensorOut s => G.outSensor s = n
  | .this _ => False
  | .member _ _ => False

/-- When a variable that is read is printed by the rule of its declaration: a
variable of a program's own, when no rule for another variable of that name
comes first and, in a secondary program, no prefix is added; a variable of a
function block, when the occurrence is not lost. -/
def ReadsOwn (x : Ident) (lost : Bool) : Region → Prop
  | .load => G.ownMain x →
    if x ∈ G.program.globals then G.mapping.varPrefix = [] else G.program.gvlFieldMap.lookup x = none
  | .onStep => G.ownMain x →
    if x ∈ G.program.globals then G.mapping.varPrefix = [] else G.program.gvlFieldMap.lookup x = none
  | .secondary p => ownSecondary p x →
    if x ∈ G.program.inputs then G.inputName x = x
    else if x ∈ G.program.outputs then G.outputName x = x
    else x ∈ G.program.globals ∨
      G.program.gvlFieldMap.lookup x = none ∧ G.mapping.varPrefix = []
  | .block fb => x ∈ fb.variables → lost = false

def CallsOwn (x : Ident) (lost : Bool) (f : Form) : Region → Prop
  | .block fb => if x ∈ fb.variables then lost = false else Form.isNamed G (G.prefixed x) f
  | _ => Form.isNamed G (G.prefixed x) f

/-- The variable is declared in the scope of the occurrence, and the occurrence
is one that its role prints by the declaration. -/
def Fits (R : Region) (o : Occurrence) : Prop :=
  ∃ f, G.declaredForm o.name R = some f ∧
    match o.role with
    | .reading => G.ReadsOwn o.name o.lost R
    | .call => G.CallsOwn o.name o.lost f R
    | .bare => Form.isNamed G o.name f

/-- Two declarations give one name: two inputs, or two outputs, have one sensor,
or a name looks like a prefixed one or like a sensor's. -/
def Form.Collides : Form → Form → Prop
  | .sensorIn s, .sensorIn s' => s = s'
  | .sensorOut s, .sensorOut s' => s = s'
  | .plain x, .prefixed y => x = G.prefixed y
  | .plain x, .sensorIn s => x = G.inSensor s
  | .plain x, .sensorOut s => x = G.outSensor s
  | .prefixed x, .sensorIn s => G.prefixed x = G.inSensor s
  | .prefixed x, .sensorOut s => G.prefixed x = G.outSensor s
  | _, _ => False

/-- The part of the file declares something under the name. -/
def Declares (n : Ident) : FilePart → Prop
  | .blocks => ∃ fb ∈ G.program.functionBlocks, G.prefixedFunc fb.name = n
  | .stubs => ∃ t ∈ G.stubFbTypes, jsType t = n
  | .globals => n ∈ G.program.globals ∧
      n ∉ G.program.locals ∧ n ∉ G.program.inputs ∧ n ∉ G.program.outputs
  | .locals => ∃ x ∈ G.program.locals, G.prefixed x = n
  | .instances => ∃ i ∈ G.program.fbInstances, G.prefixed i.name = n
  | .programs => ∃ p ∈ G.program.secondaryPrograms, G.prefixedFunc p.name = n
  | .lifecycle => n ∈ lifecycleNames

/-- No two parts of the file declare one name, and what is printed as often as it
is listed is listed once: blocks, secondary programs with what is their own, and
inputs kept in variables, which have a scale or fields but not both.  Unknown types
do not differ in dots and underscores only. -/
structure Separate : Prop where
  parts : ∀ n s t, G.Declares n s → G.Declares n t → s = t
  blocks : (G.program.functionBlocks.map (·.name)).Nodup
  programs : (G.program.secondaryPrograms.map (·.name)).Nodup
  stubs : ∀ t ∈ G.stubFbTypes, ∀ t' ∈ G.stubFbTypes, jsType t = jsType t' → t = t'
  scaled : (G.program.inputs.filter (isScaled G.mapping.inputs)).Nodup
  flat : (G.program.inputs.filter G.flatInput).Nodup
  single : ∀ x ∈ G.program.inputs, isScaled G.mapping.inputs x = true → G.flatInput x = false
  own : ∀ p ∈ G.program.secondaryPrograms, p.locals.Nodup ∧ (instanceNames p.fbInstances).Nodup ∧
    ∀ x ∈ p.locals, x ∉ instanceNames p.fbInstances

/-- Nothing is named like what has a meaning already: for the classes, and for the globals
that a function block names, these are more words. -/
structure Permitted : Prop where
  file : ∀ n s, G.Declares n s → n ∉ G.forbidden .load
  step : ∀ x ∈ G.program.inputs, G.directInput x = true → x ∉ lexicalWords
  own : ∀ p ∈ G.program.secondaryPrograms, ∀ x, ownSecondary p x → x ∉ G.forbidden (.secondary p)
  classes : ∀ n, G.Declares n .blocks ∨ G.Declares n .stubs → n ∉ strictWords
  inClasses : ∀ fb ∈ G.program.functionBlocks, ∀ o ∈ G.occurrencesIn (.block fb),
    o.name ∈ strictWords → G.declaredForm o.name (.block fb) ≠ some (.plain o.name)

structure Clear : Prop where
  fits : ∀ R, G.IsRegion R → ∀ o ∈ G.occurrencesIn R, G.Fits R o
  distinct : ∀ R, G.IsRegion R → ∀ x y f g, G.declaredForm x R = some f →
    G.declaredForm y R = some g → x ≠ y → ¬ Form.Collides G f g
  separate : G.Separate
  permitted : G.Permitted

theorem Form.ref_eq_name (f : Form) (n : Ident) : Form.ref G f = .name n ↔ Form.isNamed G n f := by
  cases f <;> simp [Form.ref, Form.isNamed]

theorem prefixed_eq_self (x : Ident) : G.prefixed x = x ↔ G.mapping.varPrefix = [] := by
  simp [prefixed]

/-- What every body sees is printed as it is declared. -/
theorem outerRef_of_shared {inStep : Bool} {x : Ident} {f : Form}
    (h : G.sharedForm inStep x = some f) : G.outerRef x = Form.ref G f := by
  simp only [sharedForm] at h
  simp only [outerRef, inputName, outputName]
  by_cases hi : x ∈ G.program.inputs
  · rw [if_pos hi] at h ⊢
    split_ifs at h ⊢ <;> cases h <;> rfl
  rw [if_neg hi] at h ⊢
  by_cases ho : x ∈ G.program.outputs
  · rw [if_pos ho] at h ⊢
    split_ifs at h ⊢
    cases h
    rfl
  rw [if_neg ho] at h ⊢
  by_cases hg : x ∈ G.program.globals
  · rw [if_pos hg] at h ⊢
    split_ifs at h
    cases h
    rfl
  rw [if_neg hg] at h ⊢
  cases hl : G.program.gvlFieldMap.lookup x with
  | none => simp [hl] at h
  | some obj =>
    simp only [hl] at h ⊢
    split_ifs at h
    cases h
    rfl

theorem outerRef_ne_this (x : Ident) : G.outerRef x ≠ .this x := by
  simp only [outerRef]
  split_ifs
  · simp
  · simp
  · simp
  · cases G.program.gvlFieldMap.lookup x <;> simp

theorem unlessTaken_eq {taken : Ident → Bool} {o : Option Form} {f : Form}
    (h : unlessTaken taken o = some f) : o = some f := by
  match o, h with
  | some (.member obj x), h =>
    simp only [unlessTaken] at h
    split_ifs at h
    exact h
  | some (.plain _), h => exact h
  | some (.prefixed _), h => exact h
  | some (.sensorIn _), h => exact h
  | some (.sensorOut _), h => exact h
  | some (.this _), h => exact h
  | none, h => exact h

/-- A name that is no input and no output is printed with the prefix unless a
global or a field of that name comes first. -/
theorem outerRef_eq_prefixed {x : Ident} (hi : x ∉ G.program.inputs) (ho : x ∉ G.program.outputs) :
    Ref.name (G.prefixed x) = G.outerRef x ↔
      if x ∈ G.program.globals then G.mapping.varPrefix = []
      else G.program.gvlFieldMap.lookup x = none := by
  simp only [outerRef, if_neg hi, if_neg ho]
  by_cases hg : x ∈ G.program.globals
  · rw [if_pos hg, if_pos hg, Ref.name.injEq, prefixed_eq_self]
  · rw [if_neg hg, if_neg hg]
    cases G.program.gvlFieldMap.lookup x <;> simp

theorem outerRef_eq_plain (x : Ident) :
    Ref.name x = G.outerRef x ↔
      if x ∈ G.program.inputs then G.inputName x = x
      else if x ∈ G.program.outputs then G.outputName x = x
      else x ∈ G.program.globals ∨
        G.program.gvlFieldMap.lookup x = none ∧ G.mapping.varPrefix = [] := by
  simp only [outerRef]
  by_cases hi : x ∈ G.program.inputs
  · rw [if_pos hi, if_pos hi, Ref.name.injEq, eq_comm]
  rw [if_neg hi, if_neg hi]
  by_cases ho : x ∈ G.program.outputs
  · rw [if_pos ho, if_pos ho, Ref.name.injEq, eq_comm]
  rw [if_neg ho, if_neg ho]
  by_cases hg : x ∈ G.program.globals
  · simp [hg]
  · rw [if_neg hg]
    cases G.program.gvlFieldMap.lookup x with
    | none =>
      have hself := G.prefixed_eq_self x
      rw [eq_comm] at hself
      simpa [hg] using hself
    | some obj => simp [hg]

theorem contextOf_none (lost : Bool) : contextOf lost none = none := ite_self none

theorem mainReads_iff {x : Ident} {inStep : Bool} {f : Form}
    (h : (if G.ownMain x then some (.prefixed x) else G.sharedForm inStep x) = some f) :
    Form.ref G f = G.outerRef x ↔ (G.ownMain x →
      if x ∈ G.program.globals then G.mapping.varPrefix = []
      else G.program.gvlFieldMap.lookup x = none) := by
  by_cases hown : G.ownMain x
  · rw [if_pos hown] at h
    cases h
    simp only [hown, forall_const]
    exact G.outerRef_eq_prefixed hown.1.1 hown.1.2
  · rw [if_neg hown] at h
    simp [hown, G.outerRef_of_shared h]

theorem reads_iff {R : Region} {x : Ident} {lost : Bool} {f : Form}
    (h : G.declaredForm x R = some f) :
    Form.ref G f = G.emitVarRef (contextOf lost (context R)) x ↔ G.ReadsOwn x lost R := by
  cases R with
  | load =>
    rw [context, contextOf_none]
    exact G.mainReads_iff h
  | onStep =>
    rw [context, contextOf_none]
    exact G.mainReads_iff h
  | secondary p =>
    rw [context, contextOf_none]
    simp only [declaredForm] at h
    by_cases hown : ownSecondary p x
    · rw [if_pos hown] at h
      cases h
      simp only [ReadsOwn, hown, forall_const]
      exact G.outerRef_eq_plain x
    · rw [if_neg hown] at h
      split_ifs at h
      simp [ReadsOwn, hown, emitVarRef, G.outerRef_of_shared (unlessTaken_eq h)]
  | block fb =>
    simp only [declaredForm] at h
    by_cases hvar : x ∈ fb.variables
    · rw [if_pos hvar] at h
      cases h
      cases lost with
      | false => simp [ReadsOwn, emitVarRef, contextOf, context, hvar, Form.ref]
      | true =>
        have hne : ∀ r, r = G.outerRef x → r ≠ Ref.this x := by
          rintro r rfl
          exact G.outerRef_ne_this x
        simpa [ReadsOwn, emitVarRef, contextOf, context, hvar, Form.ref] using
          fun h => hne _ h rfl
    · rw [if_neg hvar] at h
      split_ifs at h
      have hprint : G.emitVarRef (contextOf lost (some fb)) x = G.outerRef x := by
        cases lost <;> simp [emitVarRef, contextOf, hvar]
      simp [ReadsOwn, hvar, context, hprint, G.outerRef_of_shared h]

theorem calls_iff {R : Region} {x : Ident} {lost : Bool} {f : Form}
    (h : G.declaredForm x R = some f) :
    Form.ref G f = G.instRef (contextOf lost (context R)) x ↔ G.CallsOwn x lost f R := by
  cases R with
  | load =>
    rw [context, contextOf_none]
    exact Form.ref_eq_name G f _
  | onStep =>
    rw [context, contextOf_none]
    exact Form.ref_eq_name G f _
  | secondary p =>
    rw [context, contextOf_none]
    exact Form.ref_eq_name G f _
  | block fb =>
    simp only [declaredForm] at h
    by_cases hvar : x ∈ fb.variables
    · rw [if_pos hvar] at h
      cases h
      cases lost <;> simp [CallsOwn, instRef, contextOf, context, hvar, Form.ref]
    · rw [if_neg hvar] at h
      by_cases hinst : x ∈ instanceNames fb.fbInstances
      · rw [if_pos hinst] at h
        cases h
      · have hprint : G.instRef (contextOf lost (some fb)) x = .name (G.prefixed x) := by
          cases lost <;> simp [instRef, contextOf, hvar, hinst]
        rw [context, hprint, CallsOwn, if_neg hvar]
        exact Form.ref_eq_name G f _

/-- An occurrence is printed as the name its variable is declared under exactly
when it fits the declaration. -/
theorem printed_iff_fits (R : Region) (o : Occurrence) :
    G.declaredAs R o.name = some (G.printedFor (context R) o).ref ↔ G.Fits R o := by
  simp only [declaredAs, Fits, Option.map_eq_some_iff]
  refine exists_congr fun f => and_congr_right fun h => ?_
  obtain ⟨x, role, lost⟩ := o
  cases role with
  | reading => exact G.reads_iff h
  | call => exact G.calls_iff h
  | bare => exact Form.ref_eq_name G f x

/-! ### Names kept apart -/

/-- A declaration that is not a sensor's is made under its variable's name. -/
def Form.belongsTo (x : Ident) : Form → Prop
  | .plain y => y = x
  | .prefixed y => y = x
  | .sensorIn _ => True
  | .sensorOut _ => True
  | .this y => y = x
  | .member _ y => y = x

theorem sharedForm_belongsTo {inStep : Bool} {x : Ident} {f : Form}
    (h : G.sharedForm inStep x = some f) : Form.belongsTo x f := by
  simp only [sharedForm] at h
  split_ifs at h
  · cases h
    rfl
  · cases h
    trivial
  · cases h
    trivial
  · cases h
    rfl
  · cases hl : G.program.gvlFieldMap.lookup x with
    | none => simp [hl] at h
    | some obj =>
      simp only [hl] at h
      split_ifs at h
      cases h
      rfl

theorem declaredForm_belongsTo {R : Region} {x : Ident} {f : Form}
    (h : G.declaredForm x R = some f) : Form.belongsTo x f := by
  cases R with
  | load =>
    simp only [declaredForm] at h
    split_ifs at h
    · cases h
      rfl
    · exact G.sharedForm_belongsTo h
  | onStep =>
    simp only [declaredForm] at h
    split_ifs at h
    · cases h
      rfl
    · exact G.sharedForm_belongsTo h
  | secondary p =>
    simp only [declaredForm] at h
    split_ifs at h
    · cases h
      rfl
    · exact G.sharedForm_belongsTo (unlessTaken_eq h)
  | block fb =>
    simp only [declaredForm] at h
    split_ifs at h
    · cases h
      rfl
    · exact G.sharedForm_belongsTo h

theorem ref_eq_ref_iff {x y : Ident} {f g : Form} (hf : Form.belongsTo x f) (hg : Form.belongsTo y g)
    (hne : x ≠ y) : Form.ref G f = Form.ref G g ↔ Form.Collides G f g ∨ Form.Collides G g f := by
  cases f <;> cases g <;>
    simp_all [Form.ref, Form.Collides, Form.belongsTo, prefixed, inSensor, outSensor, eq_comm]

/-! ### Declarations of a scope -/

theorem mem_emitted {n : Ident} {s : FilePart} : n ∈ G.emitted s ↔ G.Declares n s := by
  cases s <;> simp [emitted, Declares, emitGlobalVars, emitLocalVars, instanceNames]

theorem prefixedFunc_injective : Function.Injective G.prefixedFunc := fun _ _ => List.append_cancel_left

theorem prefixed_injective : Function.Injective G.prefixed := fun _ _ => List.append_cancel_left

/-- Globals, locals and instances are printed once each. -/
theorem nodup_emitted_iff : (∀ s, (G.emitted s).Nodup) ↔
    (G.program.functionBlocks.map (·.name)).Nodup ∧
      (G.program.secondaryPrograms.map (·.name)).Nodup ∧
      ∀ t ∈ G.stubFbTypes, ∀ t' ∈ G.stubFbTypes, jsType t = jsType t' → t = t' := by
  have hblocks : (G.emitted .blocks).Nodup ↔ (G.program.functionBlocks.map (·.name)).Nodup := by
    rw [← List.nodup_map_iff (l := G.program.functionBlocks.map _) G.prefixedFunc_injective,
      List.map_map]
    rfl
  have hprograms : (G.emitted .programs).Nodup ↔
      (G.program.secondaryPrograms.map (·.name)).Nodup := by
    rw [← List.nodup_map_iff (l := G.program.secondaryPrograms.map _) G.prefixedFunc_injective,
      List.map_map]
    rfl
  have hstubs : (G.emitted .stubs).Nodup ↔
      ∀ t ∈ G.stubFbTypes, ∀ t' ∈ G.stubFbTypes, jsType t = jsType t' → t = t' :=
    List.nodup_map_iff_inj_on (List.nodup_dedup _)
  rw [← hblocks, ← hprograms, ← hstubs]
  refine ⟨fun h => ⟨h _, h _, h _⟩, fun ⟨hblocks, hprograms, hstubs⟩ s => ?_⟩
  cases s with
  | blocks => exact hblocks
  | stubs => exact hstubs
  | globals => exact List.nodup_dedup _
  | locals => exact List.nodup_dedup _
  | instances => exact (List.nodup_dedup _).map G.prefixed_injective
  | programs => exact hprograms
  | lifecycle => exact (by decide : lifecycleNames.Nodup)

theorem mem_all (s : FilePart) : s ∈ FilePart.all := by cases s <;> decide

theorem disjoint_emitted_iff :
    FilePart.all.Pairwise (fun s t => (G.emitted s).Disjoint (G.emitted t)) ↔
      ∀ n s t, G.Declares n s → G.Declares n t → s = t := by
  constructor
  · intro h n s t hs ht
    by_contra hne
    have : Std.Symm fun s t => (G.emitted s).Disjoint (G.emitted t) := ⟨fun _ _ => List.Disjoint.symm⟩
    exact h.forall (mem_all s) (mem_all t) hne (G.mem_emitted.mpr hs) (G.mem_emitted.mpr ht)
  · intro h
    refine List.Nodup.pairwise_of_forall_ne (by decide) fun s _ t _ hne n hs ht => hne ?_
    exact h n s t (G.mem_emitted.mp hs) (G.mem_emitted.mp ht)

theorem once_file_iff : (G.declaredNames .load).Nodup ↔
    (∀ s, (G.emitted s).Nodup) ∧ ∀ n s t, G.Declares n s → G.Declares n t → s = t := by
  rw [declaredNames, List.nodup_flatMap]
  exact and_congr ⟨fun h s => h s (mem_all s), fun h s _ => h s⟩ G.disjoint_emitted_iff

theorem once_step_iff : G.stepLets.Nodup ↔
    (G.program.inputs.filter (isScaled G.mapping.inputs)).Nodup ∧
      (G.program.inputs.filter G.flatInput).Nodup ∧
      ∀ x ∈ G.program.inputs, isScaled G.mapping.inputs x = true → G.flatInput x = false := by
  rw [stepLets, List.nodup_append']
  refine and_congr_right fun _ => and_congr_right fun _ => ⟨fun h x hx hscaled => ?_, fun h x hs hf => ?_⟩
  · refine Bool.eq_false_iff.mpr fun hflat => ?_
    exact h (List.mem_filter.mpr ⟨hx, hscaled⟩) (List.mem_filter.mpr ⟨hx, hflat⟩)
  · obtain ⟨hx, hscaled⟩ := List.mem_filter.mp hs
    exact absurd ((List.mem_filter.mp hf).2.symm.trans (h x hx hscaled)) Bool.noConfusion

/-- Every scope declares its names once exactly when the parts of the program do not meet. -/
theorem once_iff : (∀ R, G.IsRegion R → (G.declaredNames R).Nodup) ↔ G.Separate := by
  constructor
  · intro h
    obtain ⟨hemitted, hparts⟩ := G.once_file_iff.mp (h .load trivial)
    obtain ⟨hblocks, hprograms, hstubs⟩ := G.nodup_emitted_iff.mp hemitted
    obtain ⟨hscaled, hflat, hsingle⟩ := G.once_step_iff.mp (h .onStep trivial)
    exact ⟨hparts, hblocks, hprograms, hstubs, hscaled, hflat, hsingle, fun p hp =>
      List.nodup_append'.mp (h (.secondary p) hp)⟩
  · intro h R hR
    cases R with
    | load =>
      exact G.once_file_iff.mpr ⟨G.nodup_emitted_iff.mpr ⟨h.blocks, h.programs, h.stubs⟩, h.parts⟩
    | onStep => exact G.once_step_iff.mpr ⟨h.scaled, h.flat, h.single⟩
    | secondary p => exact List.nodup_append'.mpr (h.own p hR)
    | block fb => exact List.nodup_nil

theorem mem_stepLets {x : Ident} : x ∈ G.stepLets ↔ x ∈ G.program.inputs ∧ G.directInput x = true := by
  simp only [stepLets, directInput, List.mem_append, List.mem_filter, Bool.or_eq_true, and_or_left]

theorem permitted_iff : (∀ R, G.IsRegion R → ∀ n ∈ G.declaredNames R, n ∉ G.forbidden R) ↔
    (∀ n s, G.Declares n s → n ∉ G.forbidden .load) ∧
      (∀ x ∈ G.program.inputs, G.directInput x = true → x ∉ lexicalWords) ∧
      ∀ p ∈ G.program.secondaryPrograms, ∀ x, ownSecondary p x → x ∉ G.forbidden (.secondary p) := by
  constructor
  · intro h
    refine ⟨fun n s hs => h .load trivial n ?_, fun x hx hdirect => h .onStep trivial x ?_,
      fun p hp x hown => h (.secondary p) hp x (List.mem_append.mpr hown)⟩
    · exact List.mem_flatMap.mpr ⟨s, mem_all s, G.mem_emitted.mpr hs⟩
    · exact G.mem_stepLets.mpr ⟨hx, hdirect⟩
  · rintro ⟨hfile, hstep, hown⟩ R hR n hn
    cases R with
    | load =>
      obtain ⟨s, -, hs⟩ := List.mem_flatMap.mp hn
      exact hfile n s (G.mem_emitted.mp hs)
    | onStep =>
      obtain ⟨hx, hdirect⟩ := G.mem_stepLets.mp hn
      exact hstep n hx hdirect
    | secondary p => exact hown p hR n (List.mem_append.mp hn)
    | block fb => exact absurd hn List.not_mem_nil

theorem classes_iff : (∀ n ∈ G.emitted .blocks ++ G.emitted .stubs, n ∉ strictWords) ↔
    ∀ n, G.Declares n .blocks ∨ G.Declares n .stubs → n ∉ strictWords := by
  simp only [List.mem_append, mem_emitted]

theorem sharedForm_ne_prefixed {inStep : Bool} {x y : Ident} :
    G.sharedForm inStep x ≠ some (.prefixed y) := by
  intro h
  simp only [sharedForm] at h
  split_ifs at h <;> try cases h
  cases hl : G.program.gvlFieldMap.lookup x with
  | none => simp [hl] at h
  | some obj =>
    simp only [hl] at h
    split_ifs at h
    cases h

/-- In a class a sensor's name is no word. -/
theorem strict_iff {fb : IRFunctionBlock} {o : Occurrence} (h : G.Fits (.block fb) o) :
    (∀ n ∈ strictWords, (G.printedFor (some fb) o).ref ≠ .name n) ↔
      (o.name ∈ strictWords → G.declaredForm o.name (.block fb) ≠ some (.plain o.name)) := by
  obtain ⟨f, hf, href⟩ := Option.map_eq_some_iff.mp ((G.printed_iff_fits (.block fb) o).mpr h)
  change Form.ref G f = (G.printedFor (some fb) o).ref at href
  have hbelongs := G.declaredForm_belongsTo hf
  have hsensor : ∀ n ∈ strictWords, n.take 3 ≠ "in_".toList ∧ n.take 4 ≠ "out_".toList := by decide
  rw [← href, hf]
  cases f with
  | plain x =>
    cases hbelongs
    simp only [Form.ref, ne_eq, Ref.name.injEq, not_true_eq_false, imp_false]
    exact ⟨fun hne hmem => hne _ hmem rfl, fun hnot n hn heq => hnot (heq ▸ hn)⟩
  | prefixed x =>
    simp only [declaredForm] at hf
    split_ifs at hf
    · cases hf
    · exact absurd hf G.sharedForm_ne_prefixed
  | sensorIn s =>
    refine iff_of_true (fun n hn heq => (hsensor n hn).1 ?_) fun _ => by simp
    rw [← Ref.name.inj heq]
    rfl
  | sensorOut s =>
    refine iff_of_true (fun n hn heq => (hsensor n hn).2 ?_) fun _ => by simp
    rw [← Ref.name.inj heq]
    rfl
  | this x => exact iff_of_true (fun _ _ => Ref.noConfusion) fun _ => by simp
  | member obj x => exact iff_of_true (fun _ _ => Ref.noConfusion) fun _ => by simp

theorem inClasses_iff (h : ∀ R, G.IsRegion R → ∀ o ∈ G.occurrencesIn R, G.Fits R o) :
    (∀ fb ∈ G.program.functionBlocks, ∀ p ∈ G.emitFunctionBlockClass fb,
        ∀ n ∈ strictWords, p.ref ≠ .name n) ↔
      ∀ fb ∈ G.program.functionBlocks, ∀ o ∈ G.occurrencesIn (.block fb),
        o.name ∈ strictWords → G.declaredForm o.name (.block fb) ≠ some (.plain o.name) := by
  refine forall_congr' fun fb => forall_congr' fun hfb => ?_
  have hprinted : G.emitFunctionBlockClass fb = _ := G.printedIn_eq (.block fb)
  rw [hprinted, List.forall_mem_map]
  exact forall_congr' fun o => forall_congr' fun ho => G.strict_iff (h (.block fb) hfb o ho)

section Programs

def emptyProgram : IRProgram where
  inputs := []
  outputs := []
  locals := []
  fbInstances := []
  body := []
  functionBlocks := []
  globals := []
  gvlFieldMap := []
  gvlFieldTypes := []
  secondaryPrograms := []

def plainMapping : SensorMapping where
  inputs := []
  outputs := []
  structFlatten := false
  varPrefix := []
  funcPrefix := []

/-- A function block whose loop assigns its own variable. -/
def ramp : IRFunctionBlock where
  name := ['R']
  inputs := [['x']]
  outputs := []
  locals := []
  fbInstances := []
  body := [.whileLoop .literal [.basic (.assignment (.varRef ['x']) .literal)]]

def loopInBlock : CodeGenerator where
  program := { emptyProgram with functionBlocks := [ramp] }
  mapping := plainMapping
  getFbInfo := fun _ => none
  loaded := []

/-- A main program with one output that has a scale. -/
def scaledOutput : CodeGenerator where
  program :=
    { emptyProgram with
      outputs := [['v']]
      body := [.basic (.assignment (.varRef ['v']) .literal)] }
  mapping := { plainMapping with outputs := [⟨['v'], ['S'], true⟩] }
  getFbInfo := fun _ => none
  loaded := []

def alarms : IRSecondary where
  name := ['A']
  inputs := []
  outputs := []
  locals := [['n']]
  fbInstances := []
  body := [.basic (.assignment (.varRef ['n']) .literal)]

/-- A secondary program with a variable of its own, printed with a prefix. -/
def prefixedSecondary : CodeGenerator where
  program := { emptyProgram with secondaryPrograms := [alarms] }
  mapping := { plainMapping with varPrefix := ['p'] }
  getFbInfo := fun _ => none
  loaded := []

/-- A global and an instance of the main program, both named `g`. -/
def sameName : CodeGenerator where
  program := { emptyProgram with globals := [['g']], fbInstances := [⟨['g'], ['T'], []⟩] }
  mapping := plainMapping
  getFbInfo := fun _ => some ⟨[], []⟩
  loaded := [['T']]

end Programs

end CodeGenerator

end Uniset.St2js
