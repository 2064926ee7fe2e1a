import Mathlib.Data.List.Dedup
import Uniset.St2js.StructuredText

/-! The code generator of `st2js` as far as names go: what a program declares,
and the reference that is printed for each occurrence of a variable, in the
order of the text. -/

namespace Uniset.St2js

/-- The words that are no name. -/
def reservedWords : List Ident :=
  ["break", "case", "catch", "class", "const", "continue", "debugger", "default", "delete", "do",
   "else", "enum", "export", "extends", "false", "finally", "for", "function", "if", "import", "in",
   "instanceof", "new", "null", "return", "super", "switch", "this", "throw", "true", "try",
   "typeof", "var", "void", "while", "with"].map String.toList

/-- The words that name nothing in a class either. -/
def strictWords : List Ident :=
  ["arguments", "eval", "implements", "interface", "let", "package", "private", "protected",
   "public", "static", "yield"].map String.toList

/-! ### Programs -/

/-- Expressions, with the parts that name variables. -/
inductive IRExpression
  | literal
  | varRef (name : Ident)
  | binaryOp (left right : IRExpression)
  | unaryOp (operand : IRExpression)
  | fieldAccess (obj : IRExpression) (field : Ident)
  | arrayAccess (array index : IRExpression)
  | typeCoercion (expr : IRExpression)
  | functionCall (name : Ident) (arguments : List IRExpression)

inductive IRBasic
  | assignment (target value : IRExpression)
  | fbCall (inst : Ident) (arguments : List (Ident × IRExpression))
  | programCall (programName : Ident)

abbrev IRBody := List (IRStatement IRBasic IRExpression)

structure IRFBInstance where
  name : Ident
  fbType : Ident
  constructorArgs : List (Ident × IRExpression)

structure IRFunctionBlock where
  name : Ident
  inputs : List Ident
  outputs : List Ident
  locals : List Ident
  fbInstances : List IRFBInstance
  body : IRBody

/-- A secondary program. -/
structure IRSecondary where
  name : Ident
  inputs : List Ident
  outputs : List Ident
  locals : List Ident
  fbInstances : List IRFBInstance
  body : IRBody

/-- The main program with what is around it; a field of a global object can begin as a new object
of a type. -/
structure IRProgram where
  inputs : List Ident
  outputs : List Ident
  locals : List Ident
  fbInstances : List IRFBInstance
  body : IRBody
  functionBlocks : List IRFunctionBlock
  globals : List Ident
  gvlFieldMap : List (Ident × Ident)
  gvlFieldTypes : List Ident
  secondaryPrograms : List IRSecondary

def IRFunctionBlock.variables (fb : IRFunctionBlock) : List Ident :=
  fb.inputs ++ fb.outputs ++ fb.locals

def instanceNames (is : List IRFBInstance) : List Ident := is.map (·.name)

structure SensorEntry where
  stName : Ident
  sensorName : Ident
  scaled : Bool

structure SensorMapping where
  inputs : List SensorEntry
  outputs : List SensorEntry
  structFlatten : Bool
  varPrefix : Ident
  funcPrefix : Ident

structure FBInfo where
  constructorArgs : List Ident
  updateParams : List Ident

/-- The generator, with the registry of the known types and the names that the scripts declare
which the file loads. -/
structure CodeGenerator where
  program : IRProgram
  mapping : SensorMapping
  getFbInfo : Ident → Option FBInfo
  loaded : List Ident

/-- What stands in the text for a variable. -/
inductive Ref
  | this (x : Ident)
  | name (x : Ident)
  | member (obj x : Ident)
  deriving DecidableEq, Repr

structure Printed where
  name : Ident
  ref : Ref
  deriving DecidableEq, Repr

/-! ### The mapping -/

/-- The last entry of a variable counts. -/
def sensorOf (es : List SensorEntry) (x : Ident) : Ident :=
  match es.reverse.find? (·.stName = x) with
  | some e => e.sensorName
  | none => x

def isScaled (es : List SensorEntry) (x : Ident) : Bool := es.any fun e => e.stName = x && e.scaled

def structName (stName : Ident) : Option Ident :=
  if '.' ∈ stName then some (stName.takeWhile (· ≠ '.')) else none

def flatFields (es : List SensorEntry) (x : Ident) : List SensorEntry :=
  es.filter fun e => structName e.stName = some x

namespace CodeGenerator

variable (G : CodeGenerator)

def prefixed (name : Ident) : Ident := G.mapping.varPrefix ++ name

def prefixedFunc (name : Ident) : Ident := G.mapping.funcPrefix ++ name

def flatInput (x : Ident) : Bool :=
  G.mapping.structFlatten && !(flatFields G.mapping.inputs x).isEmpty

/-- An input that is a `let` of `uniset_on_step`. -/
def directInput (x : Ident) : Bool := isScaled G.mapping.inputs x || G.flatInput x

def directOutput (x : Ident) : Bool :=
  isScaled G.mapping.outputs x || G.mapping.structFlatten && !(flatFields G.mapping.outputs x).isEmpty

def inSensor (s : Ident) : Ident := 'i' :: 'n' :: '_' :: G.prefixed s

def outSensor (s : Ident) : Ident := 'o' :: 'u' :: 't' :: '_' :: G.prefixed s

def inputName (x : Ident) : Ident :=
  if G.directInput x then x else G.inSensor (sensorOf G.mapping.inputs x)

def outputName (x : Ident) : Ident :=
  if G.directOutput x then x else G.outSensor (sensorOf G.mapping.outputs x)

/-! ### References -/

/-- A reference printed without a function block around it. -/
def outerRef (x : Ident) : Ref :=
  if x ∈ G.program.inputs then .name (G.inputName x)
  else if x ∈ G.program.outputs then .name (G.outputName x)
  else if x ∈ G.program.globals then .name x
  else match G.program.gvlFieldMap.lookup x with
    | some obj => .member obj x
    | none => .name (G.prefixed x)

def emitVarRef (fb : Option IRFunctionBlock) (x : Ident) : Ref :=
  match fb with
  | some fb => if x ∈ fb.variables then .this x else G.outerRef x
  | none => G.outerRef x

def instRef (fb : Option IRFunctionBlock) (inst : Ident) : Ref :=
  match fb with
  | some fb =>
    if inst ∈ instanceNames fb.fbInstances ∨ inst ∈ fb.variables then .this inst
    else .name (G.prefixed inst)
  | none => .name (G.prefixed inst)

mutual

/-- A coercion prints its operand as if outside of any function block. -/
def emitExpression (fb : Option IRFunctionBlock) : IRExpression → List Printed
  | .literal => []
  | .varRef x => [⟨x, G.emitVarRef fb x⟩]
  | .binaryOp l r => emitExpression fb l ++ emitExpression fb r
  | .unaryOp e => emitExpression fb e
  | .fieldAccess obj _ => emitExpression fb obj
  | .arrayAccess a i => emitExpression fb a ++ emitExpression fb i
  | .typeCoercion e => emitExpression none e
  | .functionCall _ args => emitArguments fb args

def emitArguments (fb : Option IRFunctionBlock) : List IRExpression → List Printed
  | [] => []
  | e :: es => emitExpression fb e ++ emitArguments fb es

end

/-- The type of the first instance of that name anywhere. -/
def getFbType (inst : Ident) : Ident :=
  match (G.program.fbInstances ++ G.program.secondaryPrograms.flatMap (·.fbInstances) ++
      G.program.functionBlocks.flatMap (·.fbInstances)).find? (·.name = inst) with
  | some i => i.fbType
  | none => []

def userFbTypes : List Ident := G.program.functionBlocks.map (·.name)

/-- A call of a known type updates it with the parameters given, in the type's
order; a user's block has its parameters set one by one and is executed; any
other call is printed as a comment. -/
def emitFbCall (fb : Option IRFunctionBlock) (inst : Ident) (args : List (Ident × IRExpression)) :
    List Printed :=
  match G.getFbInfo (G.getFbType inst) with
  | some info => ⟨inst, G.instRef fb inst⟩ ::
      emitArguments G fb (info.updateParams.filterMap fun p => args.lookup p)
  | none =>
    if G.getFbType inst ∈ G.userFbTypes then
      (args.flatMap fun a => ⟨inst, G.instRef fb inst⟩ :: emitExpression G fb a.2) ++
        [⟨inst, G.instRef fb inst⟩]
    else []

def emitBasic (fb : Option IRFunctionBlock) : IRBasic → List Printed
  | .assignment target value => emitExpression G fb target ++ emitExpression G fb value
  | .fbCall inst args => G.emitFbCall fb inst args
  | .programCall _ => []

mutual

/-- `CASE` and the loops print what is in them as if outside of any function
block, and the variable of a `FOR` loop as it is. -/
def emitStatement (fb : Option IRFunctionBlock) :
    IRStatement IRBasic IRExpression → List Printed
  | .basic s => G.emitBasic fb s
  | .ifElse c t es el => emitExpression G fb c ++ (emitBody fb t ++ (emitElsif fb es ++ emitElse fb el))
  | .case c bs el => emitExpression G none c ++ (emitBranches none bs ++ emitElse none el)
  | .forLoop x start stop step body => ⟨x, .name x⟩ :: (emitExpression G none start ++
      (emitExpression G none stop ++ (emitArguments G none step.toList ++ emitBody none body)))
  | .whileLoop c body => emitExpression G none c ++ emitBody none body
  | .repeatLoop c body => emitBody none body ++ emitExpression G none c
  | .exit => []
  | .continue => []
  | .return => []

def emitBody (fb : Option IRFunctionBlock) : IRBody → List Printed
  | [] => []
  | s :: ss => emitStatement fb s ++ emitBody fb ss

def emitElsif (fb : Option IRFunctionBlock) : List (IRExpression × IRBody) → List Printed
  | [] => []
  | (c, b) :: es => emitExpression G fb c ++ (emitBody fb b ++ emitElsif fb es)

def emitBranches (fb : Option IRFunctionBlock) :
    List (List IRExpression × IRBody) → List Printed
  | [] => []
  | (vs, b) :: bs => emitArguments G fb vs ++ (emitBody fb b ++ emitBranches fb bs)

def emitElse (fb : Option IRFunctionBlock) : Option IRBody → List Printed
  | none => []
  | some b => emitBody fb b

end

/-! ### Declarations -/

/-- The globals that get a `let`: one hidden by a variable of the main program
does not. -/
def emitGlobalVars : List Ident :=
  (G.program.globals.filter fun x =>
    x ∉ G.program.locals ∧ x ∉ G.program.inputs ∧ x ∉ G.program.outputs).dedup

def emitLocalVars : List Ident := (G.program.locals.map G.prefixed).dedup

def jsType (fbType : Ident) : Ident := fbType.map fun c => if c = '.' then '_' else c

/-- The types that are neither known nor declared, each once. -/
def stubFbTypes : List Ident :=
  (((G.program.fbInstances ++ G.program.secondaryPrograms.flatMap (·.fbInstances)).map (·.fbType) ++
      G.program.gvlFieldTypes).filter fun t => (G.getFbInfo t).isNone ∧ t ∉ G.userFbTypes).dedup

/-- The parts of the top level of the file, in the order of the text. -/
inductive FilePart
  | blocks | stubs | globals | locals | instances | programs | lifecycle
  deriving DecidableEq, Repr

def FilePart.all : List FilePart :=
  [.blocks, .stubs, .globals, .locals, .instances, .programs, .lifecycle]

/-- The functions of the file, the same for every program. -/
def lifecycleNames : List Ident :=
  ["uniset_on_step", "uniset_on_start", "uniset_on_stop", "uniset_process_timers",
   "uniset_on_sensor"].map String.toList

/-- The names that a part of the file declares: blocks and unknown types as a `class`, variables by
`let`, instances and secondary programs by `const`. -/
def emitted : FilePart → List Ident
  | .blocks => G.program.functionBlocks.map fun fb => G.prefixedFunc fb.name
  | .stubs => G.stubFbTypes.map jsType
  | .globals => G.emitGlobalVars
  | .locals => G.emitLocalVars
  | .instances => (instanceNames G.program.fbInstances).dedup.map G.prefixed
  | .programs => G.program.secondaryPrograms.map fun p => G.prefixedFunc p.name
  | .lifecycle => lifecycleNames

/-- The inputs that `uniset_on_step` begins with, first those with a scale. -/
def stepLets : List Ident :=
  G.program.inputs.filter (isScaled G.mapping.inputs) ++ G.program.inputs.filter G.flatInput

/-- The sensors of the inputs. -/
def collectInputEntries : List Ident :=
  G.program.inputs.flatMap fun x =>
    if G.flatInput x then (flatFields G.mapping.inputs x).map (·.sensorName)
    else [sensorOf G.mapping.inputs x]

def collectOutputEntries : List Ident :=
  G.program.outputs.flatMap fun x =>
    if G.mapping.structFlatten && !(flatFields G.mapping.outputs x).isEmpty then
      (flatFields G.mapping.outputs x).map (·.sensorName)
    else [sensorOf G.mapping.outputs x]

/-- The constructor arguments that are printed for an instance. -/
def constructorCall (i : IRFBInstance) : List IRExpression :=
  match G.getFbInfo i.fbType with
  | some info => info.constructorArgs.filterMap fun p => i.constructorArgs.lookup p
  | none => []

def emitFbInstances (seen : List Ident) : List IRFBInstance → List Printed
  | [] => []
  | i :: is =>
    if i.name ∈ seen then emitFbInstances seen is
    else emitArguments G none (G.constructorCall i) ++ emitFbInstances (i.name :: seen) is

/-- The lines after the body of the main program that write the outputs kept in
variables of their own. -/
def outputLines : List Printed :=
  (if G.mapping.structFlatten then
    G.program.outputs.flatMap fun x => (flatFields G.mapping.outputs x).map fun _ => ⟨x, .name x⟩
  else []) ++ (G.program.outputs.filter (isScaled G.mapping.outputs)).map fun x => ⟨x, .name x⟩

def emitOnStep : List Printed := G.emitBody none G.program.body ++ G.outputLines

def emitProgramFunction (p : IRSecondary) : List Printed :=
  p.fbInstances.flatMap (fun i => emitArguments G none (G.constructorCall i)) ++ G.emitBody none p.body

def emitFunctionBlockClass (fb : IRFunctionBlock) : List Printed := G.emitBody (some fb) fb.body

end CodeGenerator

end Uniset.St2js
