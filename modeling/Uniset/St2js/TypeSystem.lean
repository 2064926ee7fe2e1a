import Uniset.St2js.StructuredText

/-! The type checker of `st2js`: types of expressions, and the coercions that are put in. -/

namespace Uniset.St2js.IR

open IECType

def BinaryOp.isArithmetic : BinaryOp → Bool
  | .add | .sub | .mul | .div | .mod => true
  | _ => false

def numericTypes : List IECType :=
  [BOOL, SINT, INT, DINT, LINT, USINT, UINT, UDINT, ULINT, BYTE, WORD, DWORD, LWORD, REAL, LREAL]

def integerTypes : List IECType :=
  [SINT, INT, DINT, LINT, USINT, UINT, UDINT, ULINT, BYTE, WORD, DWORD, LWORD]

def floatTypes : List IECType := [REAL, LREAL]

inductive STTypeError
  | undefinedVariable (name : Ident)
  | notArithmetic (type : IECType) (op : BinaryOp)
  | cannotAssign (value target : IECType)
  deriving DecidableEq

/-- What names mean in a body; a later variable hides an earlier one, and fields of global objects are
hidden by both. -/
structure Context where
  vars : List Variable
  gvlFieldMap : List (Ident × Ident × IECType)
  fbInstances : List FBInstance
  getFbInfo : Ident → Option FBInfo
  ignoreUndefined : Bool

namespace Context

variable (C : Context)

def declared? (x : Ident) : Option Variable :=
  match C.vars.reverse.find? (·.name = x) with
  | some v => some v
  | none => (C.gvlFieldMap.lookup x).map fun field => { name := x, iecType := field.2 }

def resolveFieldAccessType (obj field : Ident) : IECType :=
  match C.fbInstances.find? (·.name = obj) with
  | some inst =>
    match C.getFbInfo inst.fbType with
    | some info => (info.outputs.lookup field).getD VOID
    | none => VOID
  | none =>
    match C.declared? obj with
    | some v =>
      if v.iecType = STRUCT then
        match v.structFields.find? (·.name = field) with
        | some f => f.iecType
        | none => VOID
      else VOID
    | none => VOID

def intRank : IECType → Nat
  | LINT | ULINT | LWORD => 4
  | DINT | UDINT | DWORD => 3
  | SINT | USINT | BYTE => 1
  | _ => 2

def voidAsInt (t : IECType) : IECType := if t = VOID then INT else t

def boolAsInt (t : IECType) : IECType := if t = BOOL then INT else t

def resolveArithmeticType (left right : IECType) (op : BinaryOp) : Except STTypeError IECType :=
  let left := voidAsInt left
  let right := voidAsInt right
  if left ∉ numericTypes then .error (.notArithmetic left op)
  else if right ∉ numericTypes then .error (.notArithmetic right op)
  else
    let left := boolAsInt left
    let right := boolAsInt right
    if left ∈ floatTypes ∨ right ∈ floatTypes then
      .ok (if left = LREAL ∨ right = LREAL then LREAL else REAL)
    else .ok (if intRank left ≥ intRank right then left else right)

/-- The value of a function and the element of an array are taken for integers. -/
def resolveType : Expression → Except STTypeError IECType
  | .literal _ t => .ok t
  | .varRef x =>
    match C.declared? x with
    | some v => .ok v.iecType
    | none => if C.ignoreUndefined then .ok INT else .error (.undefinedVariable x)
  | .typeCoercion _ _ t => .ok t
  | .unaryOp op e => do
    let t ← resolveType e
    return if op = .not then BOOL else t
  | .binaryOp op l r => do
    let leftType ← resolveType l
    let rightType ← resolveType r
    if BinaryOp.isArithmetic op then resolveArithmeticType leftType rightType op else return BOOL
  | .fieldAccess (.varRef obj) field => .ok (C.resolveFieldAccessType obj field)
  | .fieldAccess .. => .ok VOID
  | .fbCall .. => .ok VOID
  | .functionCall .. => .ok INT
  | .arrayAccess .. => .ok INT

def coerceBool (t : IECType) (e : Expression) : Expression :=
  if t = BOOL then .typeCoercion e BOOL INT else e

/-- The operands have been checked. -/
def checkBinaryOp (op : BinaryOp) (newLeft newRight : Expression) : Except STTypeError Expression :=
  if BinaryOp.isArithmetic op then do
    let leftType ← C.resolveType newLeft
    let rightType ← C.resolveType newRight
    let _ ← resolveArithmeticType leftType rightType op
    return .binaryOp op (coerceBool leftType newLeft) (coerceBool rightType newRight)
  else return .binaryOp op newLeft newRight

mutual

/-- Fields, elements and calls of functions are passed through. -/
def checkExpression : Expression → Except STTypeError Expression
  | .literal v t => .ok (.literal v t)
  | .varRef x => .ok (.varRef x)
  | .typeCoercion e fromType toType => do return .typeCoercion (← checkExpression e) fromType toType
  | .unaryOp op e => do return .unaryOp op (← checkExpression e)
  | .binaryOp op l r => do
    let newLeft ← checkExpression l
    let newRight ← checkExpression r
    C.checkBinaryOp op newLeft newRight
  | .fbCall inst args => do return .fbCall inst (← checkArguments args)
  | .fieldAccess obj field => .ok (.fieldAccess obj field)
  | .arrayAccess a i => .ok (.arrayAccess a i)
  | .functionCall name args => .ok (.functionCall name args)

def checkArguments : List (Ident × Expression) → Except STTypeError (List (Ident × Expression))
  | [] => .ok []
  | (x, e) :: args => do
    let e' ← checkExpression e
    let args' ← checkArguments args
    return (x, e') :: args'

end

def resolveTargetType : Expression → Option IECType
  | .varRef x => (C.declared? x).map (·.iecType)
  | _ => none

def coerceAssignment (value : Expression) (valueType targetType : IECType) :
    Except STTypeError Expression :=
  if valueType = targetType then .ok value
  else if valueType = VOID ∨ targetType = VOID then .ok value
  else if valueType = REAL ∧ targetType ∈ integerTypes then
    .ok (.typeCoercion value REAL targetType)
  else if (valueType ∈ integerTypes ∨ valueType = BOOL) ∧ targetType = REAL then .ok value
  else if valueType = BOOL ∧ targetType ∈ integerTypes then
    .ok (.typeCoercion value BOOL targetType)
  else if valueType ∈ integerTypes ∧ targetType = BOOL then
    .ok (.typeCoercion value valueType BOOL)
  else if valueType ∈ integerTypes ∧ targetType ∈ integerTypes then .ok value
  else if valueType = TIME ∧ targetType ∈ integerTypes then .ok value
  else if valueType ∈ integerTypes ∧ targetType = TIME then .ok value
  else .error (.cannotAssign valueType targetType)

def checkAssignment (target value : Expression) : Except STTypeError Basic := do
  let newValue ← C.checkExpression value
  let valueType ← C.resolveType newValue
  match C.resolveTargetType target with
  | some targetType => return .assignment target (← coerceAssignment newValue valueType targetType)
  | none => return .assignment target newValue

def checkBasic : Basic → Except STTypeError Basic
  | .assignment target value => C.checkAssignment target value
  | .fbCall inst args => do return .fbCall inst (← C.checkArguments args)
  | .programCall name => .ok (.programCall name)

def checkList : List Expression → Except STTypeError (List Expression)
  | [] => .ok []
  | e :: es => do
    let e' ← C.checkExpression e
    let es' ← checkList es
    return e' :: es'

def checkStep : Option Expression → Except STTypeError (Option Expression)
  | none => .ok none
  | some e => do return some (← C.checkExpression e)

mutual

def checkStatement : Statement → Except STTypeError Statement
  | .basic s => do return .basic (← C.checkBasic s)
  | .ifElse c t es el => do
    let c' ← C.checkExpression c
    let t' ← checkBody t
    let es' ← checkElsif es
    let el' ← checkElse el
    return .ifElse c' t' es' el'
  | .case c bs el => do
    let c' ← C.checkExpression c
    let bs' ← checkBranches bs
    let el' ← checkElse el
    return .case c' bs' el'
  | .forLoop x start stop step body => do
    let start' ← C.checkExpression start
    let stop' ← C.checkExpression stop
    let step' ← C.checkStep step
    let body' ← checkBody body
    return .forLoop x start' stop' step' body'
  | .whileLoop c body => do
    let c' ← C.checkExpression c
    let body' ← checkBody body
    return .whileLoop c' body'
  | .repeatLoop c body => do
    let c' ← C.checkExpression c
    let body' ← checkBody body
    return .repeatLoop c' body'
  | .exit => .ok .exit
  | .continue => .ok .continue
  | .return => .ok .return

def checkBody : Body → Except STTypeError Body
  | [] => .ok []
  | s :: ss => do
    let s' ← checkStatement s
    let ss' ← checkBody ss
    return s' :: ss'

def checkElsif : List (Expression × Body) → Except STTypeError (List (Expression × Body))
  | [] => .ok []
  | (c, b) :: es => do
    let c' ← C.checkExpression c
    let b' ← checkBody b
    let es' ← checkElsif es
    return (c', b') :: es'

def checkBranches :
    List (List Expression × Body) → Except STTypeError (List (List Expression × Body))
  | [] => .ok []
  | (vs, b) :: bs => do
    let vs' ← C.checkList vs
    let b' ← checkBody b
    let bs' ← checkBranches bs
    return (vs', b') :: bs'

def checkElse : Option Body → Except STTypeError (Option Body)
  | none => .ok none
  | some b => do return some (← checkBody b)

end

end Context

/-! ### Programs -/

namespace Program

variable (getFbInfo : Ident → Option FBInfo) (ignoreUndefined : Bool) (p : Program)

def mainContext : Context where
  vars := p.globals ++ p.inputs ++ p.outputs ++ p.locals
  gvlFieldMap := p.gvlFieldMap
  fbInstances := p.fbInstances
  getFbInfo := getFbInfo
  ignoreUndefined := ignoreUndefined

/-- The inputs and outputs of the main program are seen by the secondary ones. -/
def secondaryContext (sec : POU) : Context where
  vars := p.globals ++ (p.inputs ++ sec.inputs) ++ (p.outputs ++ sec.outputs) ++ sec.locals
  gvlFieldMap := p.gvlFieldMap
  fbInstances := sec.fbInstances
  getFbInfo := getFbInfo
  ignoreUndefined := ignoreUndefined

def checkSecondary : List POU → Except STTypeError (List POU)
  | [] => .ok []
  | sec :: secs => do
    let body ← (p.secondaryContext getFbInfo ignoreUndefined sec).checkBody sec.body
    let secs' ← checkSecondary secs
    return { sec with body := body } :: secs'

def checkTypes : Except STTypeError Program := do
  let body ← (p.mainContext getFbInfo ignoreUndefined).checkBody p.body
  let secondaryPrograms ← p.checkSecondary getFbInfo ignoreUndefined p.secondaryPrograms
  return { p with body := body, secondaryPrograms := secondaryPrograms }

end Program

end Uniset.St2js.IR
