import Mathlib.Logic.Function.Basic
import Uniset.Lib.Commands

/-! The statements of the intermediate representation of `st2js` and what they
mean as Structured Text.  The control statements are the same for every type of
basic statements and of expressions. -/

namespace Uniset.St2js

open Lib Lib.Cmd

abbrev Ident := List Char

scoped instance lawfulBEqIdent : LawfulBEq Ident := inferInstanceAs (LawfulBEq (List Char))

inductive IRStatement (L E : Type)
  | basic (stmt : L)
  | ifElse (condition : E) (thenBody : List (IRStatement L E))
      (elsifBranches : List (E × List (IRStatement L E))) (elseBody : Option (List (IRStatement L E)))
  | case (selector : E) (branches : List (List E × List (IRStatement L E)))
      (elseBody : Option (List (IRStatement L E)))
  | forLoop (var : Ident) (start stop : E) (step : Option E) (body : List (IRStatement L E))
  | whileLoop (condition : E) (body : List (IRStatement L E))
  | repeatLoop (condition : E) (body : List (IRStatement L E))
  | exit
  | continue
  | return

/-- A match of a `CASE` element as the parser gives it. -/
inductive CaseMatch (E : Type)
  | value (e : E)
  | range (start stop : Int)
  | openRange (start : E)

/-! ### Expressions on integers -/

inductive BinaryOp
  | add | sub | mul | div | mod
  | lt | gt | le | ge | eq | ne
  | and | or | xor
  deriving DecidableEq, Repr

inductive UnaryOp
  | not
  | neg
  deriving DecidableEq, Repr

/-- The scalar expressions; a Boolean is `0` or `1`. -/
inductive Scalar
  | literal (value : Int)
  | varRef (name : Ident)
  | binaryOp (op : BinaryOp) (left right : Scalar)
  | unaryOp (op : UnaryOp) (operand : Scalar)
  deriving DecidableEq, Repr

/-- What `/` and `MOD` compute. -/
structure Division where
  div : Int → Int → Int
  mod : Int → Int → Int

def truth (b : Bool) : Int := if b then 1 else 0

def BinaryOp.apply (D : Division) (a b : Int) : BinaryOp → Int
  | .add => a + b
  | .sub => a - b
  | .mul => a * b
  | .div => D.div a b
  | .mod => D.mod a b
  | .lt => truth (a < b)
  | .gt => truth (a > b)
  | .le => truth (a ≤ b)
  | .ge => truth (a ≥ b)
  | .eq => truth (a = b)
  | .ne | .xor => truth (a ≠ b)
  | .and => if a = 0 then 0 else b
  | .or => if a = 0 then b else a

def UnaryOp.apply (a : Int) : UnaryOp → Int
  | .not => truth (a = 0)
  | .neg => -a

/-- The values of the variables; a variable may have none that can be read. -/
abbrev Store := Ident → Option Int

/-- `AND` and `OR` read their second operand only where the first leaves the
result open. -/
def Scalar.eval (D : Division) (s : Store) : Scalar → Option Int
  | .literal a => some a
  | .varRef x => s x
  | .binaryOp op l r =>
    match l.eval D s with
    | none => none
    | some a =>
      if op = .and ∧ a = 0 then some 0
      else if op = .or ∧ a ≠ 0 then some a
      else (r.eval D s).map fun b => op.apply D a b
  | .unaryOp op e => (e.eval D s).map fun a => op.apply a

def Scalar.test (D : Division) (s : Store) (e : Scalar) : Option Bool :=
  (e.eval D s).map (· ≠ 0)

structure Assignment where
  target : Ident
  value : Scalar
  deriving DecidableEq, Repr

abbrev Statement := IRStatement Assignment Scalar

def Store.set (s : Store) (x : Ident) (a : Option Int) : Store := Function.update s x a

def Assignment.exec (D : Division) (a : Assignment) : Cmd Store :=
  update fun s => (a.value.eval D s).map fun v => s.set a.target (some v)

/-! ### `CASE` ranges -/

def Scalar.literals (start stop : Int) : List Scalar :=
  (List.range (stop + 1 - start).toNat).map fun k : Nat => .literal (start + k)

/-- The values a `CASE` element is given in the representation: a range with
literal bounds is written out, any other one is left with its start. -/
def CaseMatch.values : CaseMatch Scalar → List Scalar
  | .value e => [e]
  | .range start stop => Scalar.literals start stop
  | .openRange start => [start]

/-- One of the values of a branch is the selector's, in the order written. -/
def selects (D : Division) (a : Int) : List Scalar → Store → Option Bool
  | [], _ => some false
  | e :: es, s =>
    match e.eval D s with
    | none => none
    | some b => if b = a then some true else selects D a es s

/-! ### Structured Text -/

/-- A `FOR` loop goes on while its variable has not passed the end, in the
direction of the step. -/
def goesOn (stop step v : Int) : Bool := if 0 ≤ step then v ≤ stop else stop ≤ v

def stepOf (step : Option Scalar) : Scalar := step.getD (.literal 1)

def counts (x : Ident) (stop step : Int) (s : Store) : Option Bool :=
  (s x).map (goesOn stop step)

def advance (x : Ident) (step : Int) (s : Store) : Option Store :=
  (s x).map fun v => s.set x (some (v + step))

/-- A `FOR` loop evaluates its start, end and step once. -/
def forCmd (D : Division) (x : Ident) (start stop step : Scalar) (body : Cmd Store) : Cmd Store :=
  read (start.eval D) fun a => read (stop.eval D) fun b => read (step.eval D) fun k =>
    seq (update fun s => some (s.set x (some a))) (loop (counts x b k) body (advance x k))

mutual

def IRStatement.exec (D : Division) : Statement → Cmd Store
  | .basic a => a.exec D
  | .ifElse c t es el => ite (c.test D) (execList D t) (execElsif D (execElse D el) es)
  | .case c bs el => read (c.eval D) fun a => execCase D a (execElse D el) bs
  | .forLoop x start stop step body => forCmd D x start stop (stepOf step) (execList D body)
  | .whileLoop c body => loop (c.test D) (execList D body) some
  | .repeatLoop c body => doLoop (execList D body) fun s => (c.test D s).map not
  | .exit => raise .brk
  | .continue => raise .cont
  | .return => raise .ret

def execList (D : Division) : List Statement → Cmd Store
  | [] => raise .next
  | s :: ss => seq (s.exec D) (execList D ss)

def execElsif (D : Division) (otherwise : Cmd Store) : List (Scalar × List Statement) → Cmd Store
  | [] => otherwise
  | (c, b) :: es => ite (c.test D) (execList D b) (execElsif D otherwise es)

def execCase (D : Division) (a : Int) (otherwise : Cmd Store) :
    List (List Scalar × List Statement) → Cmd Store
  | [] => otherwise
  | (vs, b) :: bs => ite (selects D a vs) (execList D b) (execCase D a otherwise bs)

def execElse (D : Division) : Option (List Statement) → Cmd Store
  | none => raise .next
  | some b => execList D b

end

/-! ### One result -/

theorem forCmd_stable (D : Division) (x : Ident) (start stop step : Scalar) {body : Cmd Store}
    (h : Stable body) : Stable (forCmd D x start stop step body) :=
  .read _ fun _ => .read _ fun _ => .read _ fun _ => .seq (.update _) (.loop _ h _)

mutual

theorem exec_stable (D : Division) : ∀ s : Statement, Stable (s.exec D)
  | .basic _ => .update _
  | .ifElse _ t es el => .ite _ (execList_stable D t) (execElsif_stable D (execElse_stable D el) es)
  | .case _ bs el => .read _ fun a => execCase_stable D a (execElse_stable D el) bs
  | .forLoop x start stop step body =>
      forCmd_stable D x start stop (stepOf step) (execList_stable D body)
  | .whileLoop _ body => .loop _ (execList_stable D body) _
  | .repeatLoop _ body => .doLoop (execList_stable D body) _
  | .exit => .raise _
  | .continue => .raise _
  | .return => .raise _

theorem execList_stable (D : Division) : ∀ ss : List Statement, Stable (execList D ss)
  | [] => .raise _
  | s :: ss => .seq (exec_stable D s) (execList_stable D ss)

theorem execElsif_stable (D : Division) {otherwise : Cmd Store} (h : Stable otherwise) :
    ∀ es : List (Scalar × List Statement), Stable (execElsif D otherwise es)
  | [] => h
  | (_, b) :: es => .ite _ (execList_stable D b) (execElsif_stable D h es)

theorem execCase_stable (D : Division) (a : Int) {otherwise : Cmd Store} (h : Stable otherwise) :
    ∀ bs : List (List Scalar × List Statement), Stable (execCase D a otherwise bs)
  | [] => h
  | (_, b) :: bs => .ite _ (execList_stable D b) (execCase_stable D a h bs)

theorem execElse_stable (D : Division) : ∀ el : Option (List Statement), Stable (execElse D el)
  | none => .raise _
  | some b => execList_stable D b

end

end Uniset.St2js

/-! The intermediate representation of `st2js`, with types and operators. -/

namespace Uniset.St2js.IR

inductive IECType
  | BOOL
  | SINT | INT | DINT | LINT
  | USINT | UINT | UDINT | ULINT
  | BYTE | WORD | DWORD | LWORD
  | REAL | LREAL
  | TIME
  | STRING | WSTRING
  | STRUCT
  | ARRAY
  | FB_INSTANCE
  | VOID
  deriving DecidableEq, Repr

inductive LiteralValue
  | int (value : Int)
  | real (value : Rat)
  | bool (value : Bool)
  | string (value : Ident)
  deriving DecidableEq

inductive Expression
  | literal (value : LiteralValue) (iecType : IECType)
  | varRef (name : Ident)
  | binaryOp (op : BinaryOp) (left right : Expression)
  | unaryOp (op : UnaryOp) (operand : Expression)
  | fieldAccess (obj : Expression) (field : Ident)
  | arrayAccess (array index : Expression)
  | typeCoercion (expr : Expression) (fromType toType : IECType)
  | functionCall (name : Ident) (arguments : List (Option Ident × Expression))
  | fbCall (inst : Ident) (arguments : List (Ident × Expression))

inductive Basic
  | assignment (target value : Expression)
  | fbCall (inst : Ident) (arguments : List (Ident × Expression))
  | programCall (programName : Ident)

abbrev Statement := IRStatement Basic Expression

abbrev Body := List Statement

structure StructField where
  name : Ident
  iecType : IECType

structure Variable where
  name : Ident
  iecType : IECType
  isInput : Bool := false
  isOutput : Bool := false
  structFields : List StructField := []
  arrayElementType : Option IECType := none
  arraySize : Option Int := none
  arrayLowerBound : Int := 1

def names (vs : List Variable) : List Ident := vs.map (·.name)

structure FBInstance where
  name : Ident
  fbType : Ident
  constructorArgs : List (Ident × Expression)

/-- A function block, or a secondary program. -/
structure POU where
  name : Ident
  inputs : List Variable
  outputs : List Variable
  locals : List Variable
  fbInstances : List FBInstance
  body : Body

/-- The main program; the fields of global objects are kept with the name of the object. -/
structure Program extends POU where
  functionBlocks : List POU
  globals : List Variable
  gvlFieldMap : List (Ident × Ident × IECType)
  secondaryPrograms : List POU

structure FBInfo where
  constructorArgs : List Ident
  updateParams : List Ident
  outputs : List (Ident × IECType)

end Uniset.St2js.IR
