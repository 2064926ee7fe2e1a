import Mathlib.Algebra.Order.Ring.Cast
import Mathlib.Algebra.Order.Ring.Rat
import Mathlib.Data.Int.Bitwise
import Mathlib.Data.Int.Cast.Lemmas
import Mathlib.Data.Rat.Lemmas
import Uniset.St2js.JsSyntax
import Uniset.St2js.TypeSystem

/-! Expressions over Booleans, integers and bit-strings: their values, the text that is printed for
them, and the values of that text. -/

namespace Uniset.St2js.Values

open IR (IECType integerTypes floatTypes)
open JsSyntax

/-- `REAL` has no values here, and a coercion does not start from it. -/
inductive ValueExpr
  | intLiteral (value : Int) (iecType : IECType) (integer : iecType ∈ integerTypes)
  | boolLiteral (value : Bool)
  | varRef (name : Ident)
  | binaryOp (op : BinaryOp) (left right : ValueExpr)
  | unaryOp (op : UnaryOp) (operand : ValueExpr)
  | typeCoercion (expr : ValueExpr) (fromType toType : IECType) (exact : fromType ∉ floatTypes)

/-! ### Values -/

inductive Val
  | bool (b : Bool)
  | int (n : Int)
  deriving DecidableEq, Repr

def Val.hasType (t : IECType) : Val → Bool
  | .bool _ => t = .BOOL
  | .int _ => t ∈ integerTypes

structure Store where
  iecType : Ident → IECType
  value : Ident → Option Val
  typed : ∀ x v, value x = some v → v.hasType (iecType x) = true

def width : IECType → Option Nat
  | .BYTE => some 8
  | .WORD => some 16
  | .DWORD => some 32
  | .LWORD => some 64
  | _ => none

/-- Division by zero has no value. -/
def intBinary (a b : Int) : BinaryOp → Option Val
  | .add => some (.int (a + b))
  | .sub => some (.int (a - b))
  | .mul => some (.int (a * b))
  | .div => if b = 0 then none else some (.int (a.tdiv b))
  | .mod => if b = 0 then none else some (.int (a.tmod b))
  | .lt => some (.bool (a < b))
  | .gt => some (.bool (a > b))
  | .le => some (.bool (a ≤ b))
  | .ge => some (.bool (a ≥ b))
  | .eq => some (.bool (a = b))
  | .ne => some (.bool (a ≠ b))
  | .and => some (.int (Int.land a b))
  | .or => some (.int (Int.lor a b))
  | .xor => some (.int (Int.xor a b))

def boolBinary (a b : Bool) : BinaryOp → Option Val
  | .lt => some (.bool (a < b))
  | .gt => some (.bool (a > b))
  | .le => some (.bool (a ≤ b))
  | .ge => some (.bool (a ≥ b))
  | .eq => some (.bool (a = b))
  | .ne => some (.bool (a ≠ b))
  | .and => some (.bool (a && b))
  | .or => some (.bool (a || b))
  | .xor => some (.bool (a ^^ b))
  | .add | .sub | .mul | .div | .mod => none

def binary (op : BinaryOp) : Val → Val → Option Val
  | .int a, .int b => intBinary a b op
  | .bool a, .bool b => boolBinary a b op
  | _, _ => none

def unary (op : UnaryOp) (t : IECType) (v : Val) : Option Val :=
  match op, v with
  | .not, .bool b => some (.bool !b)
  | .not, .int n => (width t).map fun w => .int (2 ^ w - 1 - n)
  | .neg, .int n => some (.int (-n))
  | .neg, .bool _ => none

def convert (t : IECType) : Val → Option Val
  | .bool b =>
    if t = .BOOL then some (.bool b) else if t ∈ integerTypes then some (.int (truth b)) else none
  | .int n =>
    if t = .BOOL then some (.bool (n ≠ 0)) else if t ∈ integerTypes then some (.int n) else none

namespace Store

variable (S : Store)

def typeOf : ValueExpr → IECType
  | .intLiteral _ t _ => t
  | .boolLiteral _ => .BOOL
  | .varRef x => S.iecType x
  | .binaryOp op l r =>
    if op ∈ [.lt, .gt, .le, .ge, .eq, .ne] then .BOOL
    else if IR.Context.intRank (typeOf l) ≥ IR.Context.intRank (typeOf r) then typeOf l
    else typeOf r
  | .unaryOp _ e => typeOf e
  | .typeCoercion _ _ t _ => t

/-- An expression that is not well typed has no value. -/
def eval : ValueExpr → Option Val
  | .intLiteral n _ _ => some (.int n)
  | .boolLiteral b => some (.bool b)
  | .varRef x => S.value x
  | .binaryOp op l r => do
    let v ← eval l
    let w ← eval r
    binary op v w
  | .unaryOp op e => do
    let v ← eval e
    unary op (S.typeOf e) v
  | .typeCoercion e fromType toType _ => do
    let v ← eval e
    if v.hasType fromType then convert toType v else none

variable {S}

theorem eval_binaryOp (h : S.eval (.binaryOp op l r) = some u) :
    ∃ v w, S.eval l = some v ∧ S.eval r = some w ∧ binary op v w = some u := by
  simpa [eval, Option.bind_eq_some_iff] using h

theorem eval_unaryOp (h : S.eval (.unaryOp op e) = some u) :
    ∃ v, S.eval e = some v ∧ unary op (S.typeOf e) v = some u := by
  simpa [eval, Option.bind_eq_some_iff] using h

theorem eval_typeCoercion (h : S.eval (.typeCoercion e s t hs) = some u) :
    ∃ v, S.eval e = some v ∧ v.hasType s = true ∧ convert t v = some u := by
  simpa [eval, Option.bind_eq_some_iff] using h

theorem binary_hasType (hu : binary op v w = some u) (hv : v.hasType t = true)
    (hw : w.hasType t' = true) :
    u.hasType (if op ∈ [BinaryOp.lt, .gt, .le, .ge, .eq, .ne] then .BOOL
      else if IR.Context.intRank t ≥ IR.Context.intRank t' then t else t') = true := by
  cases v with
  | int a =>
    cases w with
    | int b =>
      have hmax : (if IR.Context.intRank t ≥ IR.Context.intRank t' then t else t') ∈ integerTypes := by
        simp only [Val.hasType, decide_eq_true_eq] at hv hw
        split_ifs
        · exact hv
        · exact hw
      cases op with
      | div => simp only [binary, intBinary] at hu; split_ifs at hu; cases hu; simpa [Val.hasType]
      | mod => simp only [binary, intBinary] at hu; split_ifs at hu; cases hu; simpa [Val.hasType]
      | _ => cases hu; simp_all [Val.hasType]
    | bool b => cases hu
  | bool a =>
    cases w with
    | int b => cases hu
    | bool b =>
      simp only [Val.hasType, decide_eq_true_eq] at hv hw
      subst hv hw
      cases op <;> cases hu <;> rfl

/-- The value of an expression has its type. -/
theorem eval_hasType (h : S.eval e = some v) : v.hasType (S.typeOf e) = true := by
  induction e generalizing v with
  | intLiteral n t hn => cases h; exact decide_eq_true hn
  | boolLiteral b => cases h; rfl
  | varRef x => exact S.typed x v h
  | binaryOp op l r ihl ihr =>
    obtain ⟨a, b, hl, hr, hu⟩ := eval_binaryOp h
    exact binary_hasType hu (ihl hl) (ihr hr)
  | unaryOp op e ih =>
    obtain ⟨a, he, hu⟩ := eval_unaryOp h
    have ha := ih he
    cases a with
    | int n =>
      cases op with
      | not =>
        obtain ⟨w, -, rfl⟩ := Option.map_eq_some_iff.mp hu
        exact ha
      | neg => cases hu; exact ha
    | bool b =>
      cases op with
      | not => cases hu; exact ha
      | neg => cases hu
  | typeCoercion e s t hs ih =>
    obtain ⟨a, -, -, hu⟩ := eval_typeCoercion h
    cases a with
    | bool b =>
      simp only [convert] at hu
      split_ifs at hu with hbool hint
      · cases hu; exact decide_eq_true hbool
      · cases hu; exact decide_eq_true hint
    | int n =>
      simp only [convert] at hu
      split_ifs at hu with hbool hint
      · cases hu; exact decide_eq_true hbool
      · cases hu; exact decide_eq_true hint

end Store

/-! ### JavaScript -/

inductive JsVal
  | bool (b : Bool)
  | num (q : Rat)
  deriving DecidableEq

def JsVal.toNumber : JsVal → Rat
  | .bool b => if b then 1 else 0
  | .num q => q

def JsVal.truthy : JsVal → Bool
  | .bool b => b
  | .num q => q ≠ 0

def truncate (q : Rat) : Int := q.num.tdiv q.den

/-- A quotient that is not finite is left out. -/
def jsBinary (v w : JsVal) : JsOp → Option JsVal
  | .or => some (if v.truthy then v else w)
  | .and => some (if v.truthy then w else v)
  | .seq => some (.bool (v = w))
  | .sne => some (.bool (v ≠ w))
  | .lt => some (.bool (v.toNumber < w.toNumber))
  | .gt => some (.bool (v.toNumber > w.toNumber))
  | .le => some (.bool (v.toNumber ≤ w.toNumber))
  | .ge => some (.bool (v.toNumber ≥ w.toNumber))
  | .add => some (.num (v.toNumber + w.toNumber))
  | .sub => some (.num (v.toNumber - w.toNumber))
  | .mul => some (.num (v.toNumber * w.toNumber))
  | .div => if w.toNumber = 0 then none else some (.num (v.toNumber / w.toNumber))
  | .rem =>
    if w.toNumber = 0 then none
    else some (.num (v.toNumber - w.toNumber * truncate (v.toNumber / w.toNumber)))

/-- The right operand of `&&` and of `||` is read only if it is the value. -/
def jsEval (σ : Ref → Option JsVal) : JsExpr → Option JsVal
  | .num n => some (.num n)
  | .bool b => some (.bool b)
  | .ref r => σ r
  | .not e => (jsEval σ e).map fun v => .bool !v.truthy
  | .neg e => (jsEval σ e).map fun v => .num (-v.toNumber)
  | .preDecrement r => (σ r).map fun v => .num (v.toNumber - 1)
  | .binary op l r =>
    match jsEval σ l with
    | none => none
    | some v =>
      if op = .and ∧ v.truthy = false ∨ op = .or ∧ v.truthy = true then some v
      else
        match jsEval σ r with
        | none => none
        | some w => jsBinary v w op
  | .cond c a b =>
    match jsEval σ c with
    | none => none
    | some v => if v.truthy then jsEval σ a else jsEval σ b

def Val.toJs : Val → JsVal
  | .bool b => .bool b
  | .int n => .num n

/-! ### Text -/

def operatorMap : BinaryOp → JsOp
  | .eq => .seq
  | .ne => .sne
  | .and => .and
  | .or => .or
  | .xor => .sne
  | .mod => .rem
  | .add => .add
  | .sub => .sub
  | .mul => .mul
  | .div => .div
  | .gt => .gt
  | .lt => .lt
  | .ge => .ge
  | .le => .le

def emitLiteral (n : Int) : List Char :=
  if n < 0 then '-' :: Nat.toDigits 10 n.natAbs else Nat.toDigits 10 n.natAbs

def literalTree (n : Int) : JsExpr := if n < 0 then .neg (.num n.natAbs) else .num n.natAbs

section Emit

variable (G : CodeGenerator)

/-- Unary operators have no parentheses; a coercion loses the function block. -/
def emitExpression (fb : Option IRFunctionBlock) : ValueExpr → List Char
  | .intLiteral n _ _ => emitLiteral n
  | .boolLiteral b => if b then trueWord else falseWord
  | .varRef x => refText (G.emitVarRef fb x)
  | .binaryOp op l r =>
    '(' :: (emitExpression fb l ++ ' ' :: ((operatorMap op).text ++ ' ' ::
      (emitExpression fb r ++ [')'])))
  | .unaryOp .not e => '!' :: emitExpression fb e
  | .unaryOp .neg e => '-' :: emitExpression fb e
  | .typeCoercion e fromType toType _ =>
    if fromType = .BOOL ∧ toType ∈ integerTypes then
      '(' :: (emitExpression none e ++ [' ', '?', ' ', '1', ' ', ':', ' ', '0', ')'])
    else emitExpression none e

/-- The operators of an expression. -/
def tree (fb : Option IRFunctionBlock) : ValueExpr → JsExpr
  | .intLiteral n _ _ => literalTree n
  | .boolLiteral b => .bool b
  | .varRef x => .ref (G.emitVarRef fb x)
  | .binaryOp op l r => .binary (operatorMap op) (tree fb l) (tree fb r)
  | .unaryOp .not e => .not (tree fb e)
  | .unaryOp .neg e => .neg (tree fb e)
  | .typeCoercion e fromType toType _ =>
    if fromType = .BOOL ∧ toType ∈ integerTypes then .cond (tree none e) (.num 1) (.num 0)
    else tree none e

end Emit

/-! ### Parts of an expression -/

/-- What holds of an expression and of all its parts, each where it is printed. -/
def Everywhere (P : Option IRFunctionBlock → ValueExpr → Prop) (fb : Option IRFunctionBlock) :
    ValueExpr → Prop
  | .intLiteral n t h => P fb (.intLiteral n t h)
  | .boolLiteral b => P fb (.boolLiteral b)
  | .varRef x => P fb (.varRef x)
  | .binaryOp op l r => P fb (.binaryOp op l r) ∧ Everywhere P fb l ∧ Everywhere P fb r
  | .unaryOp op e => P fb (.unaryOp op e) ∧ Everywhere P fb e
  | .typeCoercion e s t h => P fb (.typeCoercion e s t h) ∧ Everywhere P none e

section Everywhere

variable {P Q : Option IRFunctionBlock → ValueExpr → Prop}

theorem Everywhere.root (h : Everywhere P fb e) : P fb e := by
  cases e with
  | intLiteral n t hn => exact h
  | boolLiteral b => exact h
  | varRef x => exact h
  | binaryOp op l r => exact h.1
  | unaryOp op e => exact h.1
  | typeCoercion e s t hs => exact h.1

theorem Everywhere.imp (hPQ : ∀ {fb e}, Everywhere P fb e → Q fb e) (h : Everywhere P fb e) :
    Everywhere Q fb e := by
  induction e generalizing fb with
  | intLiteral n t hn => exact hPQ h
  | boolLiteral b => exact hPQ h
  | varRef x => exact hPQ h
  | binaryOp op l r ihl ihr => exact ⟨hPQ h, ihl h.2.1, ihr h.2.2⟩
  | unaryOp op e ih => exact ⟨hPQ h, ih h.2⟩
  | typeCoercion e s t hs ih => exact ⟨hPQ h, ih h.2⟩

end Everywhere

/-- The bitwise and the logical result are one, and quotients have no remainder. -/
def Alike (a b : Int) : BinaryOp → Prop
  | .div => b ∣ a
  | .and => Int.land a b = if a = 0 then a else b
  | .or => Int.lor a b = if a = 0 then b else a
  | .xor => False
  | _ => True

/-- The variables of `ST` have their values where they are printed in `fb`. -/
structure Stores (G : CodeGenerator) (fb : Option IRFunctionBlock) extends Store where
  js : Ref → Option JsVal
  holds : ∀ x v, value x = some v → js (G.emitVarRef fb x) = some v.toJs

namespace Stores

variable {G : CodeGenerator} {top : Option IRFunctionBlock} (T : Stores G top)

/-- The text is read as the tree of the expression, and has its value. -/
def Preserved (fb : Option IRFunctionBlock) (e : ValueExpr) : Prop :=
  ∀ v, T.eval e = some v →
    ParsesTo (emitExpression G fb e) (tree G fb e) ∧ jsEval T.js (tree G fb e) = some v.toJs

/-- No minus is printed before a minus, variables are printed as references to their values, `NOT` and
`XOR` have no bit-strings, and no integer becomes a Boolean. -/
def Faithful (fb : Option IRFunctionBlock) : ValueExpr → Prop
  | .intLiteral .. => True
  | .boolLiteral _ => True
  | .varRef x =>
    validRef (G.emitVarRef fb x) = true ∧
      ∀ v, T.value x = some v → T.js (G.emitVarRef fb x) = some v.toJs
  | .unaryOp .not e => ∀ n, T.eval e ≠ some (.int n)
  | .unaryOp .neg e => ∀ c ∈ (emitExpression G fb e).head?, c ≠ '-'
  | .binaryOp op l r => ∀ a b, T.eval l = some (.int a) → T.eval r = some (.int b) → Alike a b op
  | .typeCoercion _ fromType toType _ => toType = .BOOL → fromType = .BOOL

end Stores

/-! ### Operators -/

theorem mul_tdiv_mul (hc : c ≠ 0) (a b : Int) : (c * a).tdiv (c * b) = a.tdiv b := by
  obtain hneg | hpos := lt_or_gt_of_ne hc
  · rw [← Int.neg_tdiv_neg, ← Int.neg_mul, ← Int.neg_mul]
    exact Int.mul_tdiv_mul_of_pos a b (by omega)
  · exact Int.mul_tdiv_mul_of_pos a b hpos

theorem truncate_intCast_div (hb : b ≠ 0) (a : Int) : truncate ((a : Rat) / (b : Int)) = a.tdiv b := by
  obtain ⟨c, ha, hden⟩ := Rat.exists_eq_mul_div_num_and_eq_mul_div_den a hb
  have hc : c ≠ 0 := by
    rintro rfl
    exact hb (by simpa using hden)
  calc truncate ((a : Rat) / b)
      = (c * ((a : Rat) / b).num).tdiv (c * ((a : Rat) / b).den) := (mul_tdiv_mul hc _ _).symm
    _ = a.tdiv b := by rw [← ha, ← hden]

theorem intCast_div_eq_iff {a b : Int} (hb : b ≠ 0) :
    (a : Rat) / b = ((a.tdiv b : Int) : Rat) ↔ b ∣ a := by
  have hb' : (b : Rat) ≠ 0 := Int.cast_ne_zero.mpr hb
  rw [div_eq_iff hb']
  constructor
  · intro h
    have hmul : a = a.tdiv b * b := by exact_mod_cast h
    exact ⟨a.tdiv b, by rw [mul_comm]; exact hmul⟩
  · intro h
    exact_mod_cast (Int.tdiv_mul_cancel h).symm

theorem tmod_eq (hb : b ≠ 0) (a : Int) :
    (a : Rat) - (b : Int) * truncate ((a : Rat) / b) = ((a.tmod b : Int) : Rat) := by
  rw [truncate_intCast_div hb, Int.tmod_def]
  push_cast
  rfl

/-- `/`, `AND`, `OR` and `XOR` on integers are not the operators that are printed. -/
theorem intBinary_iff (h : intBinary a b op = some v) :
    jsBinary (.num a) (.num b) (operatorMap op) = some v.toJs ↔ Alike a b op := by
  cases op with
  | add => cases h; simp [jsBinary, operatorMap, Alike, Val.toJs, JsVal.toNumber]
  | sub => cases h; simp [jsBinary, operatorMap, Alike, Val.toJs, JsVal.toNumber]
  | mul => cases h; simp [jsBinary, operatorMap, Alike, Val.toJs, JsVal.toNumber]
  | div =>
    simp only [intBinary] at h
    split_ifs at h with hb
    cases h
    have hb' : (b : Rat) ≠ 0 := Int.cast_ne_zero.mpr hb
    simp [jsBinary, operatorMap, Alike, Val.toJs, JsVal.toNumber, hb, intCast_div_eq_iff hb]
  | mod =>
    simp only [intBinary] at h
    split_ifs at h with hb
    cases h
    simp [jsBinary, operatorMap, Alike, Val.toJs, JsVal.toNumber, hb, tmod_eq hb]
  | lt => cases h; simp [jsBinary, operatorMap, Alike, Val.toJs, JsVal.toNumber]
  | gt => cases h; simp [jsBinary, operatorMap, Alike, Val.toJs, JsVal.toNumber]
  | le => cases h; simp [jsBinary, operatorMap, Alike, Val.toJs, JsVal.toNumber]
  | ge => cases h; simp [jsBinary, operatorMap, Alike, Val.toJs, JsVal.toNumber]
  | eq => cases h; simp [jsBinary, operatorMap, Alike, Val.toJs]
  | ne => cases h; simp [jsBinary, operatorMap, Alike, Val.toJs]
  | and =>
    cases h
    by_cases ha : a = 0
    · simp [jsBinary, operatorMap, Alike, Val.toJs, JsVal.truthy, ha, eq_comm]
    · simp [jsBinary, operatorMap, Alike, Val.toJs, JsVal.truthy, ha, eq_comm]
  | or =>
    cases h
    by_cases ha : a = 0
    · simp [jsBinary, operatorMap, Alike, Val.toJs, JsVal.truthy, ha, eq_comm]
    · simp [jsBinary, operatorMap, Alike, Val.toJs, JsVal.truthy, ha, eq_comm]
  | xor => cases h; simp [jsBinary, operatorMap, Alike, Val.toJs]

theorem boolBinary_eq (h : boolBinary a b op = some v) :
    jsBinary (.bool a) (.bool b) (operatorMap op) = some v.toJs := by
  cases op <;> cases h <;> cases a <;> cases b <;> decide

theorem jsEval_binary (hl : jsEval σ l = some v) (hr : jsEval σ r = some w) (op : JsOp) :
    jsEval σ (.binary op l r) = jsBinary v w op := by
  simp only [jsEval, hl, hr]
  split_ifs with h
  · obtain ⟨rfl, hv⟩ | ⟨rfl, hv⟩ := h <;> simp [jsBinary, hv]
  · rfl

/-! ### The printed text -/

theorem lexes_literal (n : Int) : ∃ ts, Lexes (emitLiteral n) ts ∧ Reads ts (literalTree n) := by
  have hdigits : ∀ c ∈ Nat.toDigits 10 n.natAbs, c.isDigit = true := fun c hc =>
    Nat.isDigit_of_mem_toDigits (by decide) (by decide) hc
  have hlex := Lexes.number hdigits Nat.toDigits_ne_nil
  by_cases hn : n < 0
  · refine ⟨_, ?_, by simpa [literalTree, hn] using (Reads.number n.natAbs).neg⟩
    simp only [emitLiteral, hn, if_true]
    refine hlex.neg ?_
    rintro c hc rfl
    exact absurd (hdigits '-' (List.mem_of_mem_head? hc)) (by decide)
  · exact ⟨_, by simpa [emitLiteral, hn] using hlex,
      by simpa [literalTree, hn] using Reads.number n.natAbs⟩

theorem lexes_one_zero : Lexes ['1'] [.number (Nat.toDigits 10 1)] ∧
    Lexes ['0'] [.number (Nat.toDigits 10 0)] :=
  ⟨.number (List.forall_mem_singleton.mpr rfl) (by decide),
    .number (List.forall_mem_singleton.mpr rfl) (by decide)⟩

namespace Stores

variable {G : CodeGenerator} {top : Option IRFunctionBlock} (T : Stores G top)

theorem lexes (h : Everywhere T.Faithful fb e) :
    ∃ ts, Lexes (emitExpression G fb e) ts ∧ Reads ts (tree G fb e) := by
  induction e generalizing fb with
  | intLiteral n t hn => exact lexes_literal n
  | boolLiteral b => exact ⟨_, .word (by cases b <;> rfl), .bool b⟩
  | varRef x => exact ⟨_, lexes_ref h.1, reads_ref h.1⟩
  | binaryOp op l r ihl ihr =>
    obtain ⟨lts, hllex, hlread⟩ := ihl h.2.1
    obtain ⟨rts, hrlex, hrread⟩ := ihr h.2.2
    exact ⟨_, hllex.binary hrlex _, hlread.binary hrread _⟩
  | unaryOp op e ih =>
    obtain ⟨ts, hlex, hread⟩ := ih h.2
    cases op with
    | not => exact ⟨_, hlex.not, hread.not⟩
    | neg => exact ⟨_, hlex.neg h.1, hread.neg⟩
  | typeCoercion e s t hs ih =>
    obtain ⟨ts, hlex, hread⟩ := ih h.2
    simp only [emitExpression, tree]
    split_ifs
    · exact ⟨_, by simpa using hlex.cond lexes_one_zero.1 lexes_one_zero.2,
        hread.cond (.number 1) (.number 0)⟩
    · exact ⟨ts, hlex, hread⟩

/-! ### Values of the parts -/

theorem literal_value (n : Int) : jsEval T.js (literalTree n) = some (Val.int n).toJs := by
  by_cases hn : n < 0
  · have hcast : (n.natAbs : Rat) = -(n : Rat) := by
      rw [← Int.cast_natCast, show (n.natAbs : Int) = -n by omega, Int.cast_neg]
    simp [literalTree, hn, jsEval, Val.toJs, JsVal.toNumber, hcast]
  · have hcast : (n.natAbs : Rat) = (n : Rat) := by
      rw [← Int.cast_natCast, show (n.natAbs : Int) = n by omega]
    simp [literalTree, hn, jsEval, Val.toJs, hcast]

theorem binary_value_iff (hl : T.eval l = some v) (hr : T.eval r = some w)
    (hu : binary op v w = some u) : jsBinary v.toJs w.toJs (operatorMap op) = some u.toJs ↔
      ∀ a b, T.eval l = some (.int a) → T.eval r = some (.int b) → Alike a b op := by
  cases v with
  | int a =>
    cases w with
    | int b =>
      refine (intBinary_iff hu).trans ⟨?_, fun h => h a b hl hr⟩
      intro h a' b' hl' hr'
      cases hl.symm.trans hl'
      cases hr.symm.trans hr'
      exact h
    | bool b => cases hu
  | bool a =>
    cases w with
    | int b => cases hu
    | bool b =>
      refine iff_of_true (boolBinary_eq hu) ?_
      intro a' b' hl'
      cases hl.symm.trans hl'

theorem not_value_iff (he : T.eval e = some v) (hu : unary .not (T.typeOf e) v = some u) :
    some (JsVal.bool !v.toJs.truthy) = some u.toJs ↔ ∀ n, T.eval e ≠ some (.int n) := by
  cases v with
  | int n =>
    obtain ⟨k, -, rfl⟩ := Option.map_eq_some_iff.mp hu
    refine iff_of_false (by simp [Val.toJs]) ?_
    intro h
    exact h n he
  | bool b =>
    cases hu
    refine iff_of_true rfl ?_
    intro n hn
    cases he.symm.trans hn

theorem neg_value (hu : unary .neg t v = some u) : JsVal.num (-v.toJs.toNumber) = u.toJs := by
  cases v with
  | int n => cases hu; simp [Val.toJs, JsVal.toNumber]
  | bool b => cases hu

/-- What a coercion prints has the value of the coercion, if an integer is not to become a Boolean. -/
theorem coercion_value_iff (he : jsEval σ e = some v.toJs)
    (hv : v.hasType s = true) (hu : convert t v = some u) :
    jsEval σ (if s = .BOOL ∧ t ∈ integerTypes then .cond e (.num 1) (.num 0) else e) = some u.toJs ↔
      (t = .BOOL → s = .BOOL) := by
  cases v with
  | bool b =>
    obtain rfl : s = .BOOL := by simpa [Val.hasType] using hv
    refine iff_of_true ?_ fun _ => rfl
    simp only [convert] at hu
    split_ifs at hu with hbool hint
    · cases hu
      subst hbool
      simpa [integerTypes] using he
    · cases hu
      cases b <;> simp [hint, jsEval, he, Val.toJs, JsVal.truthy, truth]
  | int n =>
    have hint : s ∈ integerTypes := by simpa [Val.hasType] using hv
    have hne : s ≠ .BOOL := by
      rintro rfl
      exact absurd hint (by decide)
    simp only [convert] at hu
    split_ifs at hu with hbool hto
    · cases hu
      simp [hne, hbool, he, Val.toJs]
    · cases hu
      simp [hne, hbool, he]

theorem jsEval_tree (h : Everywhere T.Faithful fb e) (hv : T.eval e = some v) :
    jsEval T.js (tree G fb e) = some v.toJs := by
  induction e generalizing fb v with
  | intLiteral n t hn => cases hv; exact T.literal_value n
  | boolLiteral b => cases hv; rfl
  | varRef x => exact h.2 v hv
  | binaryOp op l r ihl ihr =>
    obtain ⟨a, b, hl, hr, hu⟩ := Store.eval_binaryOp hv
    rw [tree, jsEval_binary (ihl h.2.1 hl) (ihr h.2.2 hr)]
    exact (T.binary_value_iff hl hr hu).mpr h.1
  | unaryOp op e ih =>
    obtain ⟨a, he, hu⟩ := Store.eval_unaryOp hv
    have hjs := ih h.2 he
    cases op with
    | not =>
      simp only [tree, jsEval, hjs, Option.map_some]
      exact (T.not_value_iff he hu).mpr h.1
    | neg =>
      simp only [tree, jsEval, hjs, Option.map_some]
      exact congrArg some (neg_value hu)
  | typeCoercion e s t hs ih =>
    obtain ⟨a, he, htype, hu⟩ := Store.eval_typeCoercion hv
    exact (coercion_value_iff (ih h.2 he) htype hu).mpr h.1

theorem preserved (h : Everywhere T.Faithful fb e) : T.Preserved fb e := by
  intro v hv
  obtain ⟨ts, hlex, hread⟩ := T.lexes h
  exact ⟨⟨ts, hlex.lexed, hread.parsed⟩, T.jsEval_tree h hv⟩

theorem faithful (hv : T.eval e = some v) (h : Everywhere T.Preserved fb e) :
    Everywhere T.Faithful fb e := by
  induction e generalizing fb v with
  | intLiteral n t hn => trivial
  | boolLiteral b => trivial
  | varRef x =>
    obtain ⟨hparse, hjs⟩ := h v hv
    refine ⟨hparse.validRef, ?_⟩
    intro w hw
    cases hv.symm.trans hw
    exact hjs
  | binaryOp op l r ihl ihr =>
    obtain ⟨a, b, hl, hr, hu⟩ := Store.eval_binaryOp hv
    refine ⟨?_, ihl hl h.2.1, ihr hr h.2.2⟩
    have hjs := (h.1 v hv).2
    rw [tree, jsEval_binary (h.2.1.root a hl).2 (h.2.2.root b hr).2] at hjs
    exact (T.binary_value_iff hl hr hu).mp hjs
  | unaryOp op e ih =>
    obtain ⟨a, he, hu⟩ := Store.eval_unaryOp hv
    refine ⟨?_, ih he h.2⟩
    obtain ⟨hparse, hjs⟩ := h.1 v hv
    cases op with
    | not =>
      simp only [tree, jsEval, (h.2.root a he).2, Option.map_some] at hjs
      exact (T.not_value_iff he hu).mp hjs
    | neg =>
      rintro c hc rfl
      obtain ⟨cs, hcs⟩ : ∃ cs, emitExpression G fb e = '-' :: cs := by
        cases htext : emitExpression G fb e with
        | nil => rw [htext] at hc; cases hc
        | cons d cs =>
          rw [htext] at hc
          cases hc
          exact ⟨cs, rfl⟩
      rw [emitExpression, hcs, tree] at hparse
      exact not_parsesTo_neg cs _ hparse
  | typeCoercion e s t hs ih =>
    obtain ⟨a, he, htype, hu⟩ := Store.eval_typeCoercion hv
    refine ⟨?_, ih he h.2⟩
    exact (coercion_value_iff (h.2.root a he).2 htype hu).mp (h.1 v hv).2

/-- An expression with a value is printed with this value, part by part, if and only if every part of
it is printed faithfully. -/
theorem preserved_iff (h : T.eval e = some v) :
    Everywhere T.Preserved top e ↔ Everywhere T.Faithful top e :=
  ⟨T.faithful h, fun hf => hf.imp T.preserved⟩

end Stores

/-! ### Division -/

def noNames : CodeGenerator where
  program := IRProgram.mk [] [] [] [] [] [] [] [] [] []
  mapping := SensorMapping.mk [] [] false [] []
  getFbInfo := fun _ => none
  loaded := []

theorem noNames_ref : noNames.emitVarRef none ['x'] = .name ['x'] := by decide

/-- One variable, with the value six. -/
def six : Stores noNames none where
  iecType := fun _ => .INT
  value := fun x => if x = ['x'] then some (.int 6) else none
  typed := by
    intro x v h
    split_ifs at h
    cases h
    rfl
  js := fun r => if r = .name ['x'] then some (.num 6) else none
  holds := by
    intro x v h
    split_ifs at h with hx
    cases h
    subst hx
    rw [noNames_ref]
    simp [Val.toJs]

theorem int_mem : IECType.INT ∈ integerTypes := by decide

def divideBy (n : Int) : ValueExpr := .binaryOp .div (.varRef ['x']) (.intLiteral n .INT int_mem)

theorem six_divideBy_two :
    Everywhere six.Preserved none (divideBy 2) ↔ Everywhere six.Faithful none (divideBy 2) :=
  six.preserved_iff (v := .int 3) rfl

/-- The quotient of six and four. -/
theorem not_preserved : ¬∀ (G : CodeGenerator) (fb : Option IRFunctionBlock) (T : Stores G fb)
    (e : ValueExpr), T.Preserved fb e := by
  intro h
  have hjs := (h noNames none six (divideBy 4) (.int 1) rfl).2
  have hx : jsEval six.js (tree noNames none (.varRef ['x'])) = some (Val.int 6).toJs :=
    six.holds ['x'] (.int 6) rfl
  have hfour : jsEval six.js (tree noNames none (.intLiteral 4 .INT int_mem)) =
      some (Val.int 4).toJs := six.literal_value 4
  rw [divideBy, tree, jsEval_binary hx hfour] at hjs
  have hdiv : intBinary 6 4 .div = some (.int 1) := rfl
  have hdvd : (4 : Int) ∣ 6 := (intBinary_iff hdiv).mp hjs
  exact absurd hdvd (by decide)

end Uniset.St2js.Values
