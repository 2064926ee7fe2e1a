import Mathlib.Tactic.SplitIfs
import Uniset.St2js.TypeSystem

/-! Where coercions are needed, and where the type checker puts them. -/

namespace Uniset.St2js.IR

open IECType

/-! ### What is needed -/

namespace Context

variable (C : Context) (blocks : List POU)

/-- The declared type of a field: of an output of a registered block, a variable of a user's block or
a field of a structure. -/
def fieldType (obj field : Ident) : Option IECType :=
  match C.fbInstances.find? (·.name = obj) with
  | some inst =>
    match C.getFbInfo inst.fbType with
    | some info => info.outputs.lookup field
    | none =>
      match blocks.find? (·.name = inst.fbType) with
      | some fb =>
        ((fb.inputs ++ fb.outputs ++ fb.locals).find? (·.name = field)).map (·.iecType)
      | none => none
  | none =>
    match C.declared? obj with
    | some v =>
      if v.iecType = STRUCT then (v.structFields.find? (·.name = field)).map (·.iecType) else none
    | none => none

def elementType (array : Ident) : Option IECType :=
  (C.declared? array).bind (·.arrayElementType)

/-- The declared type of a variable, a field or an element. -/
def declaredType : Expression → Option IECType
  | .varRef x => (C.declared? x).map (·.iecType)
  | .fieldAccess (.varRef obj) field => C.fieldType blocks obj field
  | .arrayAccess (.varRef array) _ => C.elementType array
  | _ => none

def isBool : Expression → Bool
  | .literal _ t => t = BOOL
  | .typeCoercion _ _ t => t = BOOL
  | .unaryOp op e => op = .not && isBool e
  | .binaryOp op l r =>
    match op with
    | .lt | .gt | .le | .ge | .eq | .ne => true
    | .and | .or | .xor => isBool l || isBool r
    | .add | .sub | .mul | .div | .mod => false
  | e => C.declaredType blocks e = some BOOL

/-- The value may be no integer: there is an operand of a real type, or a division. -/
def isFraction : Expression → Bool
  | .literal _ t => t ∈ floatTypes
  | .typeCoercion _ _ t => t ∈ floatTypes
  | .unaryOp op e => op = .neg && isFraction e
  | .binaryOp op l r =>
    match op with
    | .div => true
    | .add | .sub | .mul | .mod => isFraction l || isFraction r
    | _ => false
  | e => (C.declaredType blocks e).any (· ∈ floatTypes)

mutual

/-- No operand of an arithmetic operator is a Boolean: each is under a coercion. -/
def Covered : Expression → Prop
  | .literal .. => True
  | .varRef _ => True
  | .typeCoercion e _ _ => Covered e
  | .unaryOp op e => Covered e ∧ (op = .neg → C.isBool blocks e = false)
  | .binaryOp op l r => Covered l ∧ Covered r ∧
      (BinaryOp.isArithmetic op = true → C.isBool blocks l = false ∧ C.isBool blocks r = false)
  | .fieldAccess obj _ => Covered obj
  | .arrayAccess a i => Covered a ∧ Covered i
  | .functionCall _ args => CoveredFunctionArgs args
  | .fbCall _ args => CoveredArgs args

def CoveredFunctionArgs : List (Option Ident × Expression) → Prop
  | [] => True
  | (_, e) :: args => Covered e ∧ CoveredFunctionArgs args

def CoveredArgs : List (Ident × Expression) → Prop
  | [] => True
  | (_, e) :: args => Covered e ∧ CoveredArgs args

end

/-- What an integer is set to is no Boolean and has no fraction: it is under a coercion. -/
def Assigns (target value : Expression) : Prop :=
  (∃ t ∈ integerTypes, C.declaredType blocks target = some t) →
    C.isBool blocks value = false ∧ C.isFraction blocks value = false

end Context

/-! ### Statements -/

section Statements

variable (E : Expression → Prop) (A : Expression → Expression → Prop)

def Basic.Each : Basic → Prop
  | .assignment target value => A target value
  | .fbCall _ args => ∀ a ∈ args, E a.2
  | .programCall _ => True

mutual

/-- All expressions are as `E` says, and all assignments as `A` says. -/
def Each : Statement → Prop
  | .basic s => s.Each E A
  | .ifElse c t es el => E c ∧ EachOf t ∧ EachElsif es ∧ EachElse el
  | .case c bs el => E c ∧ EachBranch bs ∧ EachElse el
  | .forLoop _ start stop step body => E start ∧ E stop ∧ (∀ e ∈ step, E e) ∧ EachOf body
  | .whileLoop c body => E c ∧ EachOf body
  | .repeatLoop c body => E c ∧ EachOf body
  | .exit => True
  | .continue => True
  | .return => True

def EachOf : Body → Prop
  | [] => True
  | s :: ss => Each s ∧ EachOf ss

def EachElsif : List (Expression × Body) → Prop
  | [] => True
  | (c, b) :: es => E c ∧ EachOf b ∧ EachElsif es

def EachBranch : List (List Expression × Body) → Prop
  | [] => True
  | (vs, b) :: bs => (∀ v ∈ vs, E v) ∧ EachOf b ∧ EachBranch bs

def EachElse : Option Body → Prop
  | none => True
  | some b => EachOf b

end

end Statements

namespace Context

variable (C : Context) (blocks : List POU)

/-- The coercions that are needed are there. -/
def CoveredBody : Body → Prop :=
  EachOf (C.Covered blocks) fun target value =>
    C.Covered blocks target ∧ C.Covered blocks value ∧ C.Assigns blocks target value

/-! ### What is checked -/

mutual

/-- The Booleans among the operands are seen: each is one by the types of the checker.  What is passed
through is covered already. -/
def Coverable : Expression → Prop
  | .literal .. => True
  | .varRef _ => True
  | .typeCoercion e _ _ => Coverable e
  | .unaryOp op e => Coverable e ∧ (op = .neg → C.isBool blocks e = false)
  | .binaryOp op l r => Coverable l ∧ Coverable r ∧ (BinaryOp.isArithmetic op = true →
      (C.isBool blocks l = true → C.resolveType l = .ok BOOL) ∧
      (C.isBool blocks r = true → C.resolveType r = .ok BOOL))
  | .fieldAccess obj _ => C.Covered blocks obj
  | .arrayAccess a i => C.Covered blocks a ∧ C.Covered blocks i
  | .functionCall _ args => C.CoveredFunctionArgs blocks args
  | .fbCall _ args => CoverableArgs args

def CoverableArgs : List (Ident × Expression) → Prop
  | [] => True
  | (_, e) :: args => Coverable e ∧ CoverableArgs args

end

/-- The target is a variable and the checker sees what it is set to as a real or a Boolean, or else
that is neither. -/
def Seen (target value : Expression) : Prop :=
  (∃ t ∈ integerTypes, C.declaredType blocks target = some t) →
    (∃ x, target = .varRef x) ∧
      (C.resolveType value = .ok REAL ∨ C.resolveType value = .ok BOOL) ∨
    C.isBool blocks value = false ∧ C.isFraction blocks value = false

def CoverableBody : Body → Prop :=
  EachOf (C.Coverable blocks) fun target value =>
    C.Covered blocks target ∧ C.Coverable blocks value ∧ C.Seen blocks target value

end Context

/-! ### Expressions -/

theorem bind_eq_ok {ε α β : Type} {x : Except ε α} {f : α → Except ε β} {b : β} :
    x >>= f = .ok b ↔ ∃ a, x = .ok a ∧ f a = .ok b := by
  cases x with
  | error e => exact ⟨nofun, fun ⟨_, h, _⟩ => nomatch h⟩
  | ok a => exact ⟨fun h => ⟨a, rfl, h⟩, fun ⟨_, h, hf⟩ => Except.ok.inj h ▸ hf⟩

theorem bind_return_eq_ok {ε α β : Type} {x : Except ε α} {f : α → β} {b : β} :
    (x >>= fun a => pure (f a)) = .ok b ↔ ∃ a, x = .ok a ∧ f a = b := by
  rw [bind_eq_ok]
  exact exists_congr fun a => and_congr_right fun _ => ⟨Except.ok.inj, congrArg Except.ok⟩

namespace Context

variable {C : Context} {blocks : List POU} {e e' l r : Expression} {op : BinaryOp} {t : IECType}

theorem resolveArithmeticType_boolAsInt (lt rt : IECType) (op : BinaryOp) :
    resolveArithmeticType (boolAsInt lt) (boolAsInt rt) op = resolveArithmeticType lt rt op := by
  by_cases hl : lt = BOOL <;> by_cases hr : rt = BOOL
  · rw [hl, hr]
    rfl
  · rw [hl, boolAsInt, boolAsInt, if_neg hr]
    rfl
  · rw [hr, boolAsInt, boolAsInt, if_neg hl]
    rfl
  · rw [boolAsInt, boolAsInt, if_neg hl, if_neg hr]

theorem resolveArithmeticType_ne_bool {lt rt : IECType}
    (h : resolveArithmeticType lt rt op = .ok t) : t ≠ BOOL := by
  have hne : ∀ t, boolAsInt t ≠ BOOL := fun t => by
    unfold boolAsInt
    split_ifs with h
    · decide
    · exact h
  unfold resolveArithmeticType at h
  dsimp only at h
  split_ifs at h <;> obtain rfl := Except.ok.inj h
  · decide
  · decide
  · exact hne _
  · exact hne _

theorem resolveType_coerceBool (h : C.resolveType e = .ok t) :
    C.resolveType (coerceBool t e) = .ok (boolAsInt t) := by
  unfold coerceBool boolAsInt
  split_ifs
  · rfl
  · exact h

theorem coerceBool_boolAsInt (t : IECType) (e : Expression) : coerceBool (boolAsInt t) e = e := by
  unfold coerceBool boolAsInt
  split_ifs <;> trivial

theorem checkExpression_coerceBool (h : C.checkExpression e = .ok e) :
    C.checkExpression (coerceBool t e) = .ok (coerceBool t e) := by
  unfold coerceBool
  split_ifs
  · rw [checkExpression, h]
    rfl
  · exact h

theorem covered_coerceBool : C.Covered blocks (coerceBool t e) ↔ C.Covered blocks e := by
  unfold coerceBool
  split_ifs <;> rfl

theorem isBool_coerceBool :
    C.isBool blocks (coerceBool t e) = false ↔ (C.isBool blocks e = true → t = BOOL) := by
  unfold coerceBool
  split_ifs with h
  · exact iff_of_true rfl fun _ => h
  · rw [← Bool.not_eq_true]
    exact ⟨fun hnot hbool => absurd hbool hnot, fun himp hbool => h (himp hbool)⟩

theorem isFraction_coerceBool (h : t = BOOL → C.isFraction blocks e = false) :
    C.isFraction blocks (coerceBool t e) = C.isFraction blocks e := by
  unfold coerceBool
  split_ifs with ht
  · exact (h ht).symm
  · rfl

/-- What is checked of the operands, and what is put around them. -/
inductive BinaryChecked (C : Context) (op : BinaryOp) (l' r' : Expression) : Expression → Prop
  | arithmetic {lt rt t : IECType} (hop : BinaryOp.isArithmetic op = true)
      (hl : C.resolveType l' = .ok lt) (hr : C.resolveType r' = .ok rt)
      (ht : resolveArithmeticType lt rt op = .ok t) :
      BinaryChecked C op l' r' (.binaryOp op (coerceBool lt l') (coerceBool rt r'))
  | other (hop : BinaryOp.isArithmetic op = false) :
      BinaryChecked C op l' r' (.binaryOp op l' r')

theorem checkExpression_binaryOp (h : C.checkExpression (.binaryOp op l r) = .ok e') :
    ∃ l' r', C.checkExpression l = .ok l' ∧ C.checkExpression r = .ok r' ∧
      BinaryChecked C op l' r' e' := by
  rw [checkExpression] at h
  obtain ⟨l', hl, h⟩ := bind_eq_ok.mp h
  obtain ⟨r', hr, h⟩ := bind_eq_ok.mp h
  refine ⟨l', r', hl, hr, ?_⟩
  unfold checkBinaryOp at h
  split_ifs at h with hop
  · obtain ⟨lt, hlt, h⟩ := bind_eq_ok.mp h
    obtain ⟨rt, hrt, h⟩ := bind_eq_ok.mp h
    obtain ⟨t, ht, h⟩ := bind_return_eq_ok.mp h
    exact h ▸ .arithmetic hop hlt hrt ht
  · exact Except.ok.inj h ▸ .other (Bool.eq_false_iff.mpr hop)

theorem checkBinaryOp_of_checked {l' r' : Expression} (h : BinaryChecked C op l' r' e') :
    C.checkBinaryOp op l' r' = .ok e' := by
  cases h with
  | @arithmetic lt rt t hop hl hr ht =>
    rw [checkBinaryOp, if_pos hop, hl, hr]
    change (resolveArithmeticType lt rt op >>= fun _ => _) = _
    rw [ht]
    rfl
  | other hop => exact if_neg (Bool.eq_false_iff.mp hop)

/-- The checked expression has the type of the given one. -/
theorem resolveType_checkExpression : ∀ {e e' : Expression}, C.checkExpression e = .ok e' →
    C.resolveType e' = C.resolveType e
  | .literal .., _, h => by rw [← Except.ok.inj h]
  | .varRef _, _, h => by rw [← Except.ok.inj h]
  | .typeCoercion e _ _, _, h => by
    obtain ⟨e', -, rfl⟩ := bind_return_eq_ok.mp h
    rfl
  | .unaryOp op e, _, h => by
    obtain ⟨e', he, rfl⟩ := bind_return_eq_ok.mp h
    rw [resolveType, resolveType, resolveType_checkExpression he]
  | .binaryOp op l r, _, h => by
    obtain ⟨l', r', hl, hr, hchecked⟩ := checkExpression_binaryOp h
    have ihl := resolveType_checkExpression hl
    have ihr := resolveType_checkExpression hr
    cases hchecked with
    | @arithmetic lt rt t hop hlt hrt ht =>
      rw [resolveType, resolveType, resolveType_coerceBool hlt, resolveType_coerceBool hrt, ← ihl,
        ← ihr, hlt, hrt]
      change (if _ then resolveArithmeticType _ _ op else _) =
        if _ then resolveArithmeticType _ _ op else _
      rw [resolveArithmeticType_boolAsInt]
    | other hop => rw [resolveType, resolveType, ihl, ihr]
  | .fieldAccess .., _, h => by rw [← Except.ok.inj h]
  | .arrayAccess .., _, h => by rw [← Except.ok.inj h]
  | .functionCall .., _, h => by rw [← Except.ok.inj h]
  | .fbCall .., _, h => by
    obtain ⟨args, -, rfl⟩ := bind_return_eq_ok.mp h
    rfl

theorem isBool_congr {l' r' : Expression} (hl : C.isBool blocks l' = C.isBool blocks l)
    (hr : C.isBool blocks r' = C.isBool blocks r) :
    C.isBool blocks (.binaryOp op l' r') = C.isBool blocks (.binaryOp op l r) := by
  cases op <;> simp only [isBool, hl, hr]

theorem isFraction_congr {l' r' : Expression}
    (hl : C.isFraction blocks l' = C.isFraction blocks l)
    (hr : C.isFraction blocks r' = C.isFraction blocks r) :
    C.isFraction blocks (.binaryOp op l' r') = C.isFraction blocks (.binaryOp op l r) := by
  cases op <;> simp only [isFraction, hl, hr]

theorem isBool_checkExpression : ∀ {e e' : Expression}, C.checkExpression e = .ok e' →
    C.isBool blocks e' = C.isBool blocks e
  | .literal .., _, h => by rw [← Except.ok.inj h]
  | .varRef _, _, h => by rw [← Except.ok.inj h]
  | .typeCoercion e _ _, _, h => by
    obtain ⟨e', -, rfl⟩ := bind_return_eq_ok.mp h
    rfl
  | .unaryOp op e, _, h => by
    obtain ⟨e', he, rfl⟩ := bind_return_eq_ok.mp h
    rw [isBool, isBool, isBool_checkExpression he]
  | .binaryOp op l r, _, h => by
    obtain ⟨l', r', hl, hr, hchecked⟩ := checkExpression_binaryOp h
    have ihl := isBool_checkExpression hl
    have ihr := isBool_checkExpression hr
    cases hchecked with
    | arithmetic hop =>
      cases op <;> first | rfl | cases hop
    | other hop => exact isBool_congr ihl ihr
  | .fieldAccess .., _, h => by rw [← Except.ok.inj h]
  | .arrayAccess .., _, h => by rw [← Except.ok.inj h]
  | .functionCall .., _, h => by rw [← Except.ok.inj h]
  | .fbCall .., _, h => by
    obtain ⟨args, -, rfl⟩ := bind_return_eq_ok.mp h
    rfl

theorem isFraction_declared (h : C.declaredType blocks e = some BOOL) :
    (C.declaredType blocks e).any (· ∈ floatTypes) = false := by
  rw [h]
  rfl

/-- A field that is resolved has its declared type. -/
theorem fieldType_of_resolve {obj field : Ident} (h : C.resolveFieldAccessType obj field = BOOL) :
    C.fieldType blocks obj field = some BOOL := by
  unfold resolveFieldAccessType at h
  unfold fieldType
  cases hinst : C.fbInstances.find? (·.name = obj) with
  | some inst =>
    rw [hinst] at h
    dsimp only at h ⊢
    cases hinfo : C.getFbInfo inst.fbType with
    | some info =>
      rw [hinfo] at h
      dsimp only at h ⊢
      cases hout : info.outputs.lookup field with
      | none =>
        rw [hout] at h
        cases h
      | some t =>
        rw [hout] at h
        exact congrArg some h
    | none =>
      rw [hinfo] at h
      cases h
  | none =>
    rw [hinst] at h
    dsimp only at h ⊢
    cases hvar : C.declared? obj with
    | none =>
      rw [hvar] at h
      cases h
    | some v =>
      rw [hvar] at h
      dsimp only at h ⊢
      split_ifs at h ⊢
      · cases hfield : v.structFields.find? (·.name = field) with
        | none =>
          rw [hfield] at h
          cases h
        | some f =>
          rw [hfield] at h
          exact congrArg some h

/-- What the checker sees as a Boolean has no fraction. -/
theorem isFraction_of_resolveType : ∀ {e : Expression}, C.resolveType e = .ok BOOL →
    C.isFraction blocks e = false
  | .literal _ t, h => by
    obtain rfl := Except.ok.inj h
    rfl
  | .varRef x, h => by
    refine isFraction_declared ?_
    rw [resolveType] at h
    rw [declaredType]
    cases hvar : C.declared? x with
    | none =>
      rw [hvar] at h
      dsimp only at h
      split_ifs at h
      cases h
    | some v =>
      rw [hvar] at h
      exact congrArg some (Except.ok.inj h)
  | .typeCoercion _ _ t, h => by
    obtain rfl := Except.ok.inj h
    rfl
  | .unaryOp .not e, _ => rfl
  | .unaryOp .neg e, h => by
    obtain ⟨t, ht, hbool⟩ := bind_return_eq_ok.mp h
    obtain rfl : t = BOOL := hbool
    have ih := isFraction_of_resolveType ht
    exact ih
  | .binaryOp op l r, h => by
    rw [resolveType] at h
    obtain ⟨lt, -, h⟩ := bind_eq_ok.mp h
    obtain ⟨rt, -, h⟩ := bind_eq_ok.mp h
    split_ifs at h with hop
    · exact absurd rfl (resolveArithmeticType_ne_bool h)
    · cases op <;> first | rfl | exact absurd rfl hop
  | .fieldAccess (.varRef obj) field, h =>
    isFraction_declared (fieldType_of_resolve (Except.ok.inj h))
  | .fieldAccess (.literal ..) _, _ => rfl
  | .fieldAccess (.binaryOp ..) _, _ => rfl
  | .fieldAccess (.unaryOp ..) _, _ => rfl
  | .fieldAccess (.fieldAccess ..) _, _ => rfl
  | .fieldAccess (.arrayAccess ..) _, _ => rfl
  | .fieldAccess (.typeCoercion ..) _, _ => rfl
  | .fieldAccess (.functionCall ..) _, _ => rfl
  | .fieldAccess (.fbCall ..) _, _ => rfl
  | .arrayAccess .., h => nomatch Except.ok.inj h
  | .functionCall .., _ => rfl
  | .fbCall .., _ => rfl

theorem isFraction_checkExpression : ∀ {e e' : Expression}, C.checkExpression e = .ok e' →
    C.isFraction blocks e' = C.isFraction blocks e
  | .literal .., _, h => by rw [← Except.ok.inj h]
  | .varRef _, _, h => by rw [← Except.ok.inj h]
  | .typeCoercion e _ _, _, h => by
    obtain ⟨e', -, rfl⟩ := bind_return_eq_ok.mp h
    rfl
  | .unaryOp op e, _, h => by
    obtain ⟨e', he, rfl⟩ := bind_return_eq_ok.mp h
    rw [isFraction, isFraction, isFraction_checkExpression he]
  | .binaryOp op l r, _, h => by
    obtain ⟨l', r', hl, hr, hchecked⟩ := checkExpression_binaryOp h
    have ihl := isFraction_checkExpression hl
    have ihr := isFraction_checkExpression hr
    cases hchecked with
    | arithmetic hop hlt hrt =>
      have hseen : ∀ {e t}, C.resolveType e = .ok t → t = BOOL → C.isFraction blocks e = false :=
        fun he ht => isFraction_of_resolveType (ht ▸ he)
      exact isFraction_congr ((isFraction_coerceBool (hseen hlt)).trans ihl)
        ((isFraction_coerceBool (hseen hrt)).trans ihr)
    | other hop => exact isFraction_congr ihl ihr
  | .fieldAccess .., _, h => by rw [← Except.ok.inj h]
  | .arrayAccess .., _, h => by rw [← Except.ok.inj h]
  | .functionCall .., _, h => by rw [← Except.ok.inj h]
  | .fbCall .., _, h => by
    obtain ⟨args, -, rfl⟩ := bind_return_eq_ok.mp h
    rfl

mutual

/-- A checked expression is checked again without a change. -/
theorem checkExpression_idem : ∀ {e e' : Expression}, C.checkExpression e = .ok e' →
    C.checkExpression e' = .ok e'
  | .literal .., _, h => by rw [← Except.ok.inj h, checkExpression]
  | .varRef _, _, h => by rw [← Except.ok.inj h, checkExpression]
  | .typeCoercion e _ _, _, h => by
    obtain ⟨e', he, rfl⟩ := bind_return_eq_ok.mp h
    rw [checkExpression, checkExpression_idem he]
    rfl
  | .unaryOp op e, _, h => by
    obtain ⟨e', he, rfl⟩ := bind_return_eq_ok.mp h
    rw [checkExpression, checkExpression_idem he]
    rfl
  | .binaryOp op l r, _, h => by
    obtain ⟨l', r', hl, hr, hchecked⟩ := checkExpression_binaryOp h
    have ihl := checkExpression_idem hl
    have ihr := checkExpression_idem hr
    cases hchecked with
    | @arithmetic lt rt t hop hlt hrt ht =>
      rw [checkExpression, checkExpression_coerceBool ihl, checkExpression_coerceBool ihr]
      have hagain := checkBinaryOp_of_checked (.arithmetic hop (resolveType_coerceBool hlt)
        (resolveType_coerceBool hrt) ((resolveArithmeticType_boolAsInt lt rt op).trans ht))
      rwa [coerceBool_boolAsInt, coerceBool_boolAsInt] at hagain
    | other hop =>
      rw [checkExpression, ihl, ihr]
      exact checkBinaryOp_of_checked (.other hop)
  | .fieldAccess .., _, h => by rw [← Except.ok.inj h, checkExpression]
  | .arrayAccess .., _, h => by rw [← Except.ok.inj h, checkExpression]
  | .functionCall .., _, h => by rw [← Except.ok.inj h, checkExpression]
  | .fbCall inst args, _, h => by
    obtain ⟨args', hargs, rfl⟩ := bind_return_eq_ok.mp h
    rw [checkExpression, checkArguments_idem hargs]
    rfl

theorem checkArguments_idem : ∀ {args args' : List (Ident × Expression)},
    C.checkArguments args = .ok args' → C.checkArguments args' = .ok args'
  | [], _, h => by
    obtain rfl := Except.ok.inj h
    rfl
  | (x, e) :: args, _, h => by
    obtain ⟨e', he, h⟩ := bind_eq_ok.mp h
    obtain ⟨args', hargs, rfl⟩ := bind_return_eq_ok.mp h
    rw [checkArguments, checkExpression_idem he, checkArguments_idem hargs]
    rfl

end

mutual

/-- The operands of a checked expression are covered if the given ones can be. -/
theorem covered_iff : ∀ {e e' : Expression}, C.checkExpression e = .ok e' →
    (C.Covered blocks e' ↔ C.Coverable blocks e)
  | .literal .., _, h => by
    obtain rfl := Except.ok.inj h
    rfl
  | .varRef _, _, h => by
    obtain rfl := Except.ok.inj h
    rfl
  | .typeCoercion e _ _, _, h => by
    obtain ⟨e', he, rfl⟩ := bind_return_eq_ok.mp h
    have ih := covered_iff he
    exact ih
  | .unaryOp op e, _, h => by
    obtain ⟨e', he, rfl⟩ := bind_return_eq_ok.mp h
    rw [Covered, Coverable, covered_iff he, isBool_checkExpression he]
  | .binaryOp op l r, _, h => by
    obtain ⟨l', r', hl, hr, hchecked⟩ := checkExpression_binaryOp h
    have ihl := covered_iff hl
    have ihr := covered_iff hr
    have hseen : ∀ {e e' t}, C.checkExpression e = .ok e' → C.resolveType e' = .ok t →
        (C.isBool blocks (coerceBool t e') = false ↔
          (C.isBool blocks e = true → C.resolveType e = .ok BOOL)) := by
      intro e e' t he ht
      rw [isBool_coerceBool, isBool_checkExpression he, ← resolveType_checkExpression he, ht,
        Except.ok.injEq]
    cases hchecked with
    | arithmetic hop hlt hrt =>
      rw [Covered, Coverable, covered_coerceBool, covered_coerceBool, ihl, ihr, hseen hl hlt,
        hseen hr hrt]
    | other hop =>
      have hnot : ¬BinaryOp.isArithmetic op = true := Bool.eq_false_iff.mp hop
      rw [Covered, Coverable, ihl, ihr]
      exact and_congr_right fun _ => and_congr_right fun _ =>
        iff_of_true (fun h => absurd h hnot) fun h => absurd h hnot
  | .fieldAccess .., _, h => by
    obtain rfl := Except.ok.inj h
    rfl
  | .arrayAccess .., _, h => by
    obtain rfl := Except.ok.inj h
    rfl
  | .functionCall .., _, h => by
    obtain rfl := Except.ok.inj h
    rfl
  | .fbCall inst args, _, h => by
    obtain ⟨args', hargs, rfl⟩ := bind_return_eq_ok.mp h
    have ih := coveredArgs_iff hargs
    exact ih

theorem coveredArgs_iff : ∀ {args args' : List (Ident × Expression)},
    C.checkArguments args = .ok args' → (C.CoveredArgs blocks args' ↔ C.CoverableArgs blocks args)
  | [], _, h => by
    obtain rfl := Except.ok.inj h
    rfl
  | (x, e) :: args, _, h => by
    obtain ⟨e', he, h⟩ := bind_eq_ok.mp h
    obtain ⟨args', hargs, rfl⟩ := bind_return_eq_ok.mp h
    rw [CoveredArgs, CoverableArgs, covered_iff he, coveredArgs_iff hargs]

end

/-! ### Assignments -/

/-- A value is left as it is, or coerced to the type of the target. -/
theorem coerceAssignment_ok {v v' : Expression} {vt tt : IECType}
    (h : coerceAssignment v vt tt = .ok v') :
    v' = v ∧ (tt ∈ integerTypes → vt ≠ REAL ∧ vt ≠ BOOL) ∨
      v' = .typeCoercion v vt tt ∧ (tt ∈ integerTypes → vt = REAL ∨ vt = BOOL) := by
  have hnot : ∀ t ∈ integerTypes, t ≠ REAL ∧ t ≠ BOOL ∧ t ≠ VOID := by decide
  unfold coerceAssignment at h
  split_ifs at h with hsame hvoid hreal htoReal hbool htoBool hint htime htoTime
  · refine .inl ⟨(Except.ok.inj h).symm, fun htt => ?_⟩
    rw [hsame]
    exact ⟨(hnot tt htt).1, (hnot tt htt).2.1⟩
  · refine .inl ⟨(Except.ok.inj h).symm, fun htt => ?_⟩
    rcases hvoid with rfl | rfl
    · exact ⟨nofun, nofun⟩
    · exact absurd rfl (hnot VOID htt).2.2
  · obtain ⟨rfl, -⟩ := hreal
    exact .inr ⟨(Except.ok.inj h).symm, fun _ => .inl rfl⟩
  · obtain ⟨-, rfl⟩ := htoReal
    exact .inl ⟨(Except.ok.inj h).symm, fun htt => absurd rfl (hnot REAL htt).1⟩
  · obtain ⟨rfl, -⟩ := hbool
    exact .inr ⟨(Except.ok.inj h).symm, fun _ => .inr rfl⟩
  · obtain ⟨-, rfl⟩ := htoBool
    exact .inr ⟨(Except.ok.inj h).symm, fun htt => absurd rfl (hnot BOOL htt).2.1⟩
  · exact .inl ⟨(Except.ok.inj h).symm, fun _ => ⟨(hnot vt hint.1).1, (hnot vt hint.1).2.1⟩⟩
  · obtain ⟨rfl, -⟩ := htime
    exact .inl ⟨(Except.ok.inj h).symm, fun _ => ⟨nofun, nofun⟩⟩
  · exact .inl ⟨(Except.ok.inj h).symm, fun _ => ⟨(hnot vt htoTime.1).1, (hnot vt htoTime.1).2.1⟩⟩

theorem coerceAssignment_self (v : Expression) (t : IECType) : coerceAssignment v t t = .ok v :=
  if_pos rfl

/-- What is checked of the value, and what is put around it. -/
inductive AssignmentChecked (C : Context) (target v' : Expression) : Basic → Prop
  | typed {vt tt : IECType} {v'' : Expression} (hv : C.resolveType v' = .ok vt)
      (ht : C.resolveTargetType target = some tt) (hc : coerceAssignment v' vt tt = .ok v'') :
      AssignmentChecked C target v' (.assignment target v'')
  | other {vt : IECType} (hv : C.resolveType v' = .ok vt) (ht : C.resolveTargetType target = none) :
      AssignmentChecked C target v' (.assignment target v')

theorem checkAssignment_ok {target v : Expression} {s : Basic}
    (h : C.checkAssignment target v = .ok s) :
    ∃ v', C.checkExpression v = .ok v' ∧ AssignmentChecked C target v' s := by
  obtain ⟨v', hv, h⟩ := bind_eq_ok.mp h
  obtain ⟨vt, hvt, h⟩ := bind_eq_ok.mp h
  refine ⟨v', hv, ?_⟩
  cases ht : C.resolveTargetType target with
  | some tt =>
    rw [ht] at h
    obtain ⟨v'', hc, rfl⟩ := bind_return_eq_ok.mp h
    exact .typed hvt ht hc
  | none =>
    rw [ht] at h
    exact Except.ok.inj h ▸ .other hvt ht

theorem checkAssignment_of_checked {target v : Expression} {s : Basic}
    (hv : C.checkExpression v = .ok v) (h : AssignmentChecked C target v s) :
    C.checkAssignment target v = .ok s := by
  unfold checkAssignment
  rw [hv]
  cases h with
  | typed hvt ht hc =>
    change (C.resolveType v >>= _) = _
    rw [hvt, ht]
    change (coerceAssignment v _ _ >>= _) = _
    rw [hc]
    rfl
  | other hvt ht =>
    change (C.resolveType v >>= _) = _
    rw [hvt, ht]
    rfl

theorem checkAssignment_idem {target v : Expression} {s : Basic}
    (h : C.checkAssignment target v = .ok s) : C.checkBasic s = .ok s := by
  obtain ⟨v', hv, hchecked⟩ := checkAssignment_ok h
  have hidem := checkExpression_idem hv
  cases hchecked with
  | @typed vt tt v'' hvt ht hc =>
    rcases coerceAssignment_ok hc with ⟨rfl, -⟩ | ⟨rfl, -⟩
    · exact checkAssignment_of_checked hidem (.typed hvt ht hc)
    · refine checkAssignment_of_checked ?_ (.typed rfl ht (coerceAssignment_self _ tt))
      rw [checkExpression, hidem]
      rfl
  | other hvt ht => exact checkAssignment_of_checked hidem (.other hvt ht)

theorem resolveTargetType_eq {target : Expression} {x : Ident} (h : target = .varRef x) :
    C.resolveTargetType target = C.declaredType blocks target := by
  rw [h]
  rfl

theorem exists_varRef_of_resolveTargetType {target : Expression} {t : IECType}
    (h : C.resolveTargetType target = some t) : ∃ x, target = .varRef x := by
  cases target with
  | varRef x => exact ⟨x, rfl⟩
  | _ => cases h

/-- An assignment is under a coercion if what it needs is seen. -/
theorem assigns_iff {target v : Expression} {s : Basic} (h : C.checkAssignment target v = .ok s) :
    s.Each (C.Covered blocks) (fun target value =>
        C.Covered blocks target ∧ C.Covered blocks value ∧ C.Assigns blocks target value) ↔
      C.Covered blocks target ∧ C.Coverable blocks v ∧ C.Seen blocks target v := by
  obtain ⟨v', hv, hchecked⟩ := checkAssignment_ok h
  have hcovered : C.Covered blocks v' ↔ C.Coverable blocks v := covered_iff hv
  have hbool : C.isBool blocks v' = C.isBool blocks v := isBool_checkExpression hv
  have hfraction : C.isFraction blocks v' = C.isFraction blocks v := isFraction_checkExpression hv
  have htype := resolveType_checkExpression hv
  cases hchecked with
  | @typed vt tt v'' hvt ht hc =>
    obtain ⟨x, hx⟩ := exists_varRef_of_resolveTargetType ht
    have hdeclared : C.declaredType blocks target = some tt := (resolveTargetType_eq hx).symm.trans ht
    have hinteger : (∃ t ∈ integerTypes, C.declaredType blocks target = some t) →
        tt ∈ integerTypes := by
      rintro ⟨t, hmem, hd⟩
      rw [hdeclared] at hd
      exact Option.some.inj hd ▸ hmem
    rw [hvt] at htype
    rcases coerceAssignment_ok hc with ⟨rfl, hunseen⟩ | ⟨rfl, hseen⟩
    · rw [Basic.Each, hcovered]
      refine and_congr_right fun _ => and_congr_right fun _ => ?_
      refine forall_congr' fun hint => ?_
      obtain ⟨hreal, hb⟩ := hunseen (hinteger hint)
      rw [hbool, hfraction, ← htype]
      refine (or_iff_right ?_).symm
      rintro ⟨-, h | h⟩
      · exact hreal (Except.ok.inj h)
      · exact hb (Except.ok.inj h)
    · have hcoercion : C.Covered blocks (.typeCoercion v' vt tt) ↔ C.Coverable blocks v := hcovered
      rw [Basic.Each, hcoercion]
      refine and_congr_right fun _ => and_congr_right fun _ => ?_
      refine forall_congr' fun hint => iff_of_true ?_ (.inl ⟨⟨x, hx⟩, ?_⟩)
      · have hne : ∀ t ∈ integerTypes, decide (t = BOOL) = false ∧
            decide (t ∈ floatTypes) = false := by decide
        exact hne tt (hinteger hint)
      · rw [← htype]
        exact (hseen (hinteger hint)).imp (congrArg _) (congrArg _)
  | other hvt ht =>
    rw [Basic.Each, hcovered]
    refine and_congr_right fun _ => and_congr_right fun _ => ?_
    refine forall_congr' fun ⟨t, _, hd⟩ => ?_
    rw [hbool, hfraction]
    refine (or_iff_right ?_).symm
    rintro ⟨⟨x, hx⟩, -⟩
    rw [← resolveTargetType_eq hx, ht] at hd
    cases hd

/-! ### Statements and programs -/

theorem checkList_idem {es es' : List Expression} (h : C.checkList es = .ok es') :
    C.checkList es' = .ok es' := by
  induction es generalizing es' with
  | nil =>
    obtain rfl := Except.ok.inj h
    rfl
  | cons e es ih =>
    obtain ⟨e', he, h⟩ := bind_eq_ok.mp h
    obtain ⟨es'', hes, rfl⟩ := bind_return_eq_ok.mp h
    rw [checkList, checkExpression_idem he, ih hes]
    rfl

theorem checkStep_idem {step step' : Option Expression} (h : C.checkStep step = .ok step') :
    C.checkStep step' = .ok step' := by
  cases step with
  | none =>
    obtain rfl := Except.ok.inj h
    rfl
  | some e =>
    obtain ⟨e', he, rfl⟩ := bind_return_eq_ok.mp h
    rw [checkStep, checkExpression_idem he]
    rfl

theorem checkBasic_idem {s s' : Basic} (h : C.checkBasic s = .ok s') : C.checkBasic s' = .ok s' := by
  cases s with
  | assignment target value => exact checkAssignment_idem h
  | fbCall inst args =>
    obtain ⟨args', hargs, rfl⟩ := bind_return_eq_ok.mp h
    rw [checkBasic, checkArguments_idem hargs]
    rfl
  | programCall name =>
    obtain rfl := Except.ok.inj h
    rfl

mutual

theorem checkStatement_idem : ∀ {s s' : Statement}, C.checkStatement s = .ok s' →
    C.checkStatement s' = .ok s'
  | .basic s, _, h => by
    obtain ⟨s', hs, rfl⟩ := bind_return_eq_ok.mp h
    rw [checkStatement, checkBasic_idem hs]
    rfl
  | .ifElse c t es el, _, h => by
    obtain ⟨c', hc, h⟩ := bind_eq_ok.mp h
    obtain ⟨t', ht, h⟩ := bind_eq_ok.mp h
    obtain ⟨es', hes, h⟩ := bind_eq_ok.mp h
    obtain ⟨el', hel, rfl⟩ := bind_return_eq_ok.mp h
    rw [checkStatement, checkExpression_idem hc, checkBody_idem ht, checkElsif_idem hes,
      checkElse_idem hel]
    rfl
  | .case c bs el, _, h => by
    obtain ⟨c', hc, h⟩ := bind_eq_ok.mp h
    obtain ⟨bs', hbs, h⟩ := bind_eq_ok.mp h
    obtain ⟨el', hel, rfl⟩ := bind_return_eq_ok.mp h
    rw [checkStatement, checkExpression_idem hc, checkBranches_idem hbs, checkElse_idem hel]
    rfl
  | .forLoop x start stop step body, _, h => by
    obtain ⟨start', hstart, h⟩ := bind_eq_ok.mp h
    obtain ⟨stop', hstop, h⟩ := bind_eq_ok.mp h
    obtain ⟨step', hstep, h⟩ := bind_eq_ok.mp h
    obtain ⟨body', hbody, rfl⟩ := bind_return_eq_ok.mp h
    rw [checkStatement, checkExpression_idem hstart, checkExpression_idem hstop,
      checkStep_idem hstep, checkBody_idem hbody]
    rfl
  | .whileLoop c body, _, h => by
    obtain ⟨c', hc, h⟩ := bind_eq_ok.mp h
    obtain ⟨body', hbody, rfl⟩ := bind_return_eq_ok.mp h
    rw [checkStatement, checkExpression_idem hc, checkBody_idem hbody]
    rfl
  | .repeatLoop c body, _, h => by
    obtain ⟨c', hc, h⟩ := bind_eq_ok.mp h
    obtain ⟨body', hbody, rfl⟩ := bind_return_eq_ok.mp h
    rw [checkStatement, checkExpression_idem hc, checkBody_idem hbody]
    rfl
  | .exit, _, h => by
    obtain rfl := Except.ok.inj h
    rfl
  | .continue, _, h => by
    obtain rfl := Except.ok.inj h
    rfl
  | .return, _, h => by
    obtain rfl := Except.ok.inj h
    rfl

theorem checkBody_idem : ∀ {b b' : Body}, C.checkBody b = .ok b' → C.checkBody b' = .ok b'
  | [], _, h => by
    obtain rfl := Except.ok.inj h
    rfl
  | s :: ss, _, h => by
    obtain ⟨s', hs, h⟩ := bind_eq_ok.mp h
    obtain ⟨ss', hss, rfl⟩ := bind_return_eq_ok.mp h
    rw [checkBody, checkStatement_idem hs, checkBody_idem hss]
    rfl

theorem checkElsif_idem : ∀ {es es' : List (Expression × Body)}, C.checkElsif es = .ok es' →
    C.checkElsif es' = .ok es'
  | [], _, h => by
    obtain rfl := Except.ok.inj h
    rfl
  | (c, b) :: es, _, h => by
    obtain ⟨c', hc, h⟩ := bind_eq_ok.mp h
    obtain ⟨b', hb, h⟩ := bind_eq_ok.mp h
    obtain ⟨es', hes, rfl⟩ := bind_return_eq_ok.mp h
    rw [checkElsif, checkExpression_idem hc, checkBody_idem hb, checkElsif_idem hes]
    rfl

theorem checkBranches_idem : ∀ {bs bs' : List (List Expression × Body)},
    C.checkBranches bs = .ok bs' → C.checkBranches bs' = .ok bs'
  | [], _, h => by
    obtain rfl := Except.ok.inj h
    rfl
  | (vs, b) :: bs, _, h => by
    obtain ⟨vs', hvs, h⟩ := bind_eq_ok.mp h
    obtain ⟨b', hb, h⟩ := bind_eq_ok.mp h
    obtain ⟨bs', hbs, rfl⟩ := bind_return_eq_ok.mp h
    rw [checkBranches, checkList_idem hvs, checkBody_idem hb, checkBranches_idem hbs]
    rfl

theorem checkElse_idem : ∀ {el el' : Option Body}, C.checkElse el = .ok el' →
    C.checkElse el' = .ok el'
  | none, _, h => by
    obtain rfl := Except.ok.inj h
    rfl
  | some b, _, h => by
    obtain ⟨b', hb, rfl⟩ := bind_return_eq_ok.mp h
    rw [checkElse, checkBody_idem hb]
    rfl

end

section Each

/-- A check that makes each expression as `E` says where `E'` does, and each assignment likewise. -/
structure Turns (C : Context) (E E' : Expression → Prop) (A A' : Expression → Expression → Prop) :
    Prop where
  expression : ∀ {e e'}, C.checkExpression e = .ok e' → (E e' ↔ E' e)
  assignment : ∀ {target v s}, C.checkAssignment target v = .ok s → (s.Each E A ↔ A' target v)

variable {E E' : Expression → Prop} {A A' : Expression → Expression → Prop}

theorem forall_checkList_iff (hT : Turns C E E' A A') {es es' : List Expression}
    (h : C.checkList es = .ok es') : (∀ e ∈ es', E e) ↔ ∀ e ∈ es, E' e := by
  induction es generalizing es' with
  | nil =>
    obtain rfl := Except.ok.inj h
    exact iff_of_true nofun nofun
  | cons e es ih =>
    obtain ⟨e', he, h⟩ := bind_eq_ok.mp h
    obtain ⟨es'', hes, rfl⟩ := bind_return_eq_ok.mp h
    rw [List.forall_mem_cons, List.forall_mem_cons, hT.expression he, ih hes]

theorem forall_checkArguments_iff (hT : Turns C E E' A A') {args args' : List (Ident × Expression)}
    (h : C.checkArguments args = .ok args') : (∀ a ∈ args', E a.2) ↔ ∀ a ∈ args, E' a.2 := by
  induction args generalizing args' with
  | nil =>
    obtain rfl := Except.ok.inj h
    exact iff_of_true nofun nofun
  | cons a args ih =>
    obtain ⟨e', he, h⟩ := bind_eq_ok.mp h
    obtain ⟨args'', hargs, rfl⟩ := bind_return_eq_ok.mp h
    rw [List.forall_mem_cons, List.forall_mem_cons, hT.expression he, ih hargs]

theorem forall_checkStep_iff (hT : Turns C E E' A A') {step step' : Option Expression}
    (h : C.checkStep step = .ok step') : (∀ e ∈ step', E e) ↔ ∀ e ∈ step, E' e := by
  cases step with
  | none =>
    obtain rfl := Except.ok.inj h
    exact iff_of_true nofun nofun
  | some e =>
    obtain ⟨e', he, rfl⟩ := bind_return_eq_ok.mp h
    simp only [Option.mem_def, Option.some.injEq, forall_eq', hT.expression he]

theorem basic_each_iff (hT : Turns C E E' A A') {s s' : Basic} (h : C.checkBasic s = .ok s') :
    s'.Each E A ↔ s.Each E' A' := by
  cases s with
  | assignment target value => exact hT.assignment h
  | fbCall inst args =>
    obtain ⟨args', hargs, rfl⟩ := bind_return_eq_ok.mp h
    exact forall_checkArguments_iff hT hargs
  | programCall name =>
    obtain rfl := Except.ok.inj h
    rfl

mutual

theorem each_iff (hT : Turns C E E' A A') : ∀ {s s' : Statement}, C.checkStatement s = .ok s' →
    (Each E A s' ↔ Each E' A' s)
  | .basic s, _, h => by
    obtain ⟨s', hs, rfl⟩ := bind_return_eq_ok.mp h
    exact basic_each_iff hT hs
  | .ifElse c t es el, _, h => by
    obtain ⟨c', hc, h⟩ := bind_eq_ok.mp h
    obtain ⟨t', ht, h⟩ := bind_eq_ok.mp h
    obtain ⟨es', hes, h⟩ := bind_eq_ok.mp h
    obtain ⟨el', hel, rfl⟩ := bind_return_eq_ok.mp h
    rw [Each, Each, hT.expression hc, eachOf_iff hT ht, eachElsif_iff hT hes, eachElse_iff hT hel]
  | .case c bs el, _, h => by
    obtain ⟨c', hc, h⟩ := bind_eq_ok.mp h
    obtain ⟨bs', hbs, h⟩ := bind_eq_ok.mp h
    obtain ⟨el', hel, rfl⟩ := bind_return_eq_ok.mp h
    rw [Each, Each, hT.expression hc, eachBranch_iff hT hbs, eachElse_iff hT hel]
  | .forLoop x start stop step body, _, h => by
    obtain ⟨start', hstart, h⟩ := bind_eq_ok.mp h
    obtain ⟨stop', hstop, h⟩ := bind_eq_ok.mp h
    obtain ⟨step', hstep, h⟩ := bind_eq_ok.mp h
    obtain ⟨body', hbody, rfl⟩ := bind_return_eq_ok.mp h
    rw [Each, Each, hT.expression hstart, hT.expression hstop, forall_checkStep_iff hT hstep,
      eachOf_iff hT hbody]
  | .whileLoop c body, _, h => by
    obtain ⟨c', hc, h⟩ := bind_eq_ok.mp h
    obtain ⟨body', hbody, rfl⟩ := bind_return_eq_ok.mp h
    rw [Each, Each, hT.expression hc, eachOf_iff hT hbody]
  | .repeatLoop c body, _, h => by
    obtain ⟨c', hc, h⟩ := bind_eq_ok.mp h
    obtain ⟨body', hbody, rfl⟩ := bind_return_eq_ok.mp h
    rw [Each, Each, hT.expression hc, eachOf_iff hT hbody]
  | .exit, _, h => by
    obtain rfl := Except.ok.inj h
    rfl
  | .continue, _, h => by
    obtain rfl := Except.ok.inj h
    rfl
  | .return, _, h => by
    obtain rfl := Except.ok.inj h
    rfl

theorem eachOf_iff (hT : Turns C E E' A A') : ∀ {b b' : Body}, C.checkBody b = .ok b' →
    (EachOf E A b' ↔ EachOf E' A' b)
  | [], _, h => by
    obtain rfl := Except.ok.inj h
    rfl
  | s :: ss, _, h => by
    obtain ⟨s', hs, h⟩ := bind_eq_ok.mp h
    obtain ⟨ss', hss, rfl⟩ := bind_return_eq_ok.mp h
    rw [EachOf, EachOf, each_iff hT hs, eachOf_iff hT hss]

theorem eachElsif_iff (hT : Turns C E E' A A') : ∀ {es es' : List (Expression × Body)},
    C.checkElsif es = .ok es' → (EachElsif E A es' ↔ EachElsif E' A' es)
  | [], _, h => by
    obtain rfl := Except.ok.inj h
    rfl
  | (c, b) :: es, _, h => by
    obtain ⟨c', hc, h⟩ := bind_eq_ok.mp h
    obtain ⟨b', hb, h⟩ := bind_eq_ok.mp h
    obtain ⟨es', hes, rfl⟩ := bind_return_eq_ok.mp h
    rw [EachElsif, EachElsif, hT.expression hc, eachOf_iff hT hb, eachElsif_iff hT hes]

theorem eachBranch_iff (hT : Turns C E E' A A') : ∀ {bs bs' : List (List Expression × Body)},
    C.checkBranches bs = .ok bs' → (EachBranch E A bs' ↔ EachBranch E' A' bs)
  | [], _, h => by
    obtain rfl := Except.ok.inj h
    rfl
  | (vs, b) :: bs, _, h => by
    obtain ⟨vs', hvs, h⟩ := bind_eq_ok.mp h
    obtain ⟨b', hb, h⟩ := bind_eq_ok.mp h
    obtain ⟨bs', hbs, rfl⟩ := bind_return_eq_ok.mp h
    rw [EachBranch, EachBranch, forall_checkList_iff hT hvs, eachOf_iff hT hb,
      eachBranch_iff hT hbs]

theorem eachElse_iff (hT : Turns C E E' A A') : ∀ {el el' : Option Body},
    C.checkElse el = .ok el' → (EachElse E A el' ↔ EachElse E' A' el)
  | none, _, h => by
    obtain rfl := Except.ok.inj h
    rfl
  | some b, _, h => by
    obtain ⟨b', hb, rfl⟩ := bind_return_eq_ok.mp h
    exact eachOf_iff hT hb

end

end Each

theorem coveredBody_iff {b b' : Body} (h : C.checkBody b = .ok b') :
    C.CoveredBody blocks b' ↔ C.CoverableBody blocks b :=
  eachOf_iff ⟨covered_iff, assigns_iff⟩ h

end Context

namespace Program

variable (getFbInfo : Ident → Option FBInfo) (ignoreUndefined : Bool)

/-- What a function block sees: the globals and its own. -/
def blockContext (p : Program) (fb : POU) : Context where
  vars := p.globals ++ fb.inputs ++ fb.outputs ++ fb.locals
  gvlFieldMap := p.gvlFieldMap
  fbInstances := fb.fbInstances
  getFbInfo := getFbInfo
  ignoreUndefined := ignoreUndefined

/-- The coercions that are needed are there in all units. -/
structure Covered (p : Program) : Prop where
  main : (p.mainContext getFbInfo ignoreUndefined).CoveredBody p.functionBlocks p.body
  secondary : ∀ sec ∈ p.secondaryPrograms,
    (p.secondaryContext getFbInfo ignoreUndefined sec).CoveredBody p.functionBlocks sec.body
  block : ∀ fb ∈ p.functionBlocks,
    (p.blockContext getFbInfo ignoreUndefined fb).CoveredBody p.functionBlocks fb.body

/-- What needs a coercion is seen in the programs; the function blocks, which are not looked at, need
none. -/
structure Coverable (p : Program) : Prop where
  main : (p.mainContext getFbInfo ignoreUndefined).CoverableBody p.functionBlocks p.body
  secondary : ∀ sec ∈ p.secondaryPrograms,
    (p.secondaryContext getFbInfo ignoreUndefined sec).CoverableBody p.functionBlocks sec.body
  block : ∀ fb ∈ p.functionBlocks,
    (p.blockContext getFbInfo ignoreUndefined fb).CoveredBody p.functionBlocks fb.body

variable {getFbInfo ignoreUndefined} {p q : Program}

theorem checkSecondary_ok
    (hq : q.secondaryContext getFbInfo ignoreUndefined = p.secondaryContext getFbInfo ignoreUndefined)
    (blocks : List POU) {secs secs' : List POU}
    (h : p.checkSecondary getFbInfo ignoreUndefined secs = .ok secs') :
    q.checkSecondary getFbInfo ignoreUndefined secs' = .ok secs' ∧
    ((∀ sec ∈ secs', (q.secondaryContext getFbInfo ignoreUndefined sec).CoveredBody blocks sec.body) ↔
      ∀ sec ∈ secs,
        (p.secondaryContext getFbInfo ignoreUndefined sec).CoverableBody blocks sec.body) := by
  induction secs generalizing secs' with
  | nil =>
    obtain rfl := Except.ok.inj h
    exact ⟨rfl, iff_of_true nofun nofun⟩
  | cons sec secs ih =>
    obtain ⟨body, hbody, h⟩ := bind_eq_ok.mp h
    obtain ⟨secs'', hsecs, rfl⟩ := bind_return_eq_ok.mp h
    obtain ⟨hidem, hiff⟩ := ih hsecs
    -- the context of a secondary program does not depend on its body
    have hcontext : q.secondaryContext getFbInfo ignoreUndefined { sec with body := body } =
        p.secondaryContext getFbInfo ignoreUndefined sec := congrFun hq _
    constructor
    · rw [checkSecondary, hcontext]
      change ((p.secondaryContext _ _ sec).checkBody body >>= _) = _
      rw [Context.checkBody_idem hbody]
      change (q.checkSecondary _ _ secs'' >>= _) = _
      rw [hidem]
      rfl
    · rw [List.forall_mem_cons, List.forall_mem_cons, hiff, hcontext]
      exact and_congr_left fun _ => Context.coveredBody_iff hbody

/-- A program that is accepted is checked again without a change, and the coercions that it needs are
there if what needs one is seen. -/
theorem checkTypes_covered_iff (h : p.checkTypes getFbInfo ignoreUndefined = .ok q) :
    q.checkTypes getFbInfo ignoreUndefined = .ok q ∧
      (q.Covered getFbInfo ignoreUndefined ↔ p.Coverable getFbInfo ignoreUndefined) := by
  obtain ⟨body, hbody, h⟩ := bind_eq_ok.mp h
  obtain ⟨secs, hsecs, rfl⟩ := bind_return_eq_ok.mp h
  have hbodies : _ ↔ (p.mainContext getFbInfo ignoreUndefined).CoverableBody p.functionBlocks
    p.body := Context.coveredBody_iff hbody
  obtain ⟨hidem, hiff⟩ := checkSecondary_ok (p := p)
    (q := { p with body := body, secondaryPrograms := secs }) rfl p.functionBlocks hsecs
  constructor
  · unfold checkTypes
    change ((p.mainContext _ _).checkBody body >>= _) = _
    rw [Context.checkBody_idem hbody]
    change (checkSecondary _ _ _ secs >>= _) = _
    rw [hidem]
    rfl
  · exact ⟨fun hc => ⟨hbodies.mp hc.main, hiff.mp hc.secondary, hc.block⟩,
      fun hc => ⟨hbodies.mpr hc.main, hiff.mpr hc.secondary, hc.block⟩⟩

/-- A program with the integers `x` and `y`, the real `r` and the Boolean `b`. -/
def assigning (value : Expression) : Program where
  name := ['m']
  inputs := []
  outputs := []
  locals := [{ name := ['x'], iecType := .INT }, { name := ['y'], iecType := .INT },
    { name := ['r'], iecType := .REAL }, { name := ['b'], iecType := .BOOL }]
  fbInstances := []
  body := [.basic (.assignment (.varRef ['x']) value)]
  functionBlocks := []
  globals := []
  gvlFieldMap := []
  secondaryPrograms := []

/-- `x := r + b;`. -/
theorem checkTypes_sum :
    let q := assigning (.typeCoercion (.binaryOp .add (.varRef ['r'])
      (.typeCoercion (.varRef ['b']) .BOOL .INT)) .REAL .INT)
    q.checkTypes (fun _ => none) false = .ok q ∧
      (q.Covered (fun _ => none) false ↔
        (assigning (.binaryOp .add (.varRef ['r']) (.varRef ['b']))).Coverable (fun _ => none) false) :=
  checkTypes_covered_iff rfl

/-- The quotient of two integers is set to an integer without a coercion: `x := x / y;`. -/
theorem not_covered : ¬∀ (getFbInfo : Ident → Option FBInfo) (ignoreUndefined : Bool) (p q : Program),
    p.checkTypes getFbInfo ignoreUndefined = .ok q →
      q.Covered getFbInfo ignoreUndefined ∧ q.checkTypes getFbInfo ignoreUndefined = .ok q := by
  intro h
  let p := assigning (.binaryOp .div (.varRef ['x']) (.varRef ['y']))
  have hmain := (h (fun _ => none) false p p rfl).1.main
  have hvalue := (hmain.1.2.2 ⟨.INT, by decide, rfl⟩).2
  cases hvalue

end Program

end Uniset.St2js.IR
