import Mathlib.Tactic.SplitIfs
import Uniset.St2js.StructuredText

/-! The JavaScript that `st2js` prints for control statements, and the printing.
Expressions keep their trees: their operators are the same on both sides, and
their variables are printed by a function of the name. -/

namespace Uniset.St2js

open Lib Lib.Cmd

mutual

inductive Js
  | assign (x : Ident) (e : Scalar)
  | ifElse (c : Scalar) (thenBody elseBody : List Js)
  | switch (selector : Scalar) (lines : List Line)
  | forLet (x : Ident) (init test step : Scalar) (body : List Js)
  | whileLoop (c : Scalar) (body : List Js)
  | doWhile (body : List Js) (c : Scalar)
  | brk
  | cont
  | ret

/-- A line between the braces of a `switch`. -/
inductive Line
  | case (e : Scalar)
  | default
  | stmt (s : Js)

end

/-! ### Meaning -/

/-- While the initial value is computed the `let` name cannot be read. -/
def enterLet (D : Division) (x : Ident) (init : Scalar) (s : Store) : Option Store :=
  (init.eval D (s.set x none)).map fun a => s.set x (some a)

/-- No closure is printed, so the scope of a `let` ends by giving its name the
value that it has outside. -/
def leaveLet (x : Ident) (s s' : Store) : Store := s'.set x (s x)

def increment (D : Division) (x : Ident) (step : Scalar) (s : Store) : Option Store :=
  match s x, step.eval D s with
  | some v, some k => some (s.set x (some (v + k)))
  | _, _ => none

mutual

def Js.exec (D : Division) : Js → Cmd Store
  | .assign x e => update fun s => (e.eval D s).map fun v => s.set x (some v)
  | .ifElse c t el => ite (c.test D) (execJs D t) (execJs D el)
  | .switch c ls => read (c.eval D) fun a => catchBreak (execSwitch D a (raise .next) ls)
  | .forLet x init test step body => within (enterLet D x init) (leaveLet x)
      (loop (test.test D) (execJs D body) (increment D x step))
  | .whileLoop c body => loop (c.test D) (execJs D body) some
  | .doWhile body c => doLoop (execJs D body) (c.test D)
  | .brk => raise .brk
  | .cont => raise .cont
  | .ret => raise .ret

def execJs (D : Division) : List Js → Cmd Store
  | [] => raise .next
  | s :: ss => seq (s.exec D) (execJs D ss)

/-- From a label on, the lines run through the labels that follow. -/
def execLines (D : Division) : List Line → Cmd Store
  | [] => raise .next
  | .case _ :: ls => execLines D ls
  | .default :: ls => execLines D ls
  | .stmt s :: ls => seq (s.exec D) (execLines D ls)

/-- The labels are compared in order; `otherwise` is run when none of them is the
value, and is what follows `default` once that is passed. -/
def execSwitch (D : Division) (a : Int) (otherwise : Cmd Store) : List Line → Cmd Store
  | [] => otherwise
  | .case e :: ls => ite (fun s => (e.eval D s).map (· = a)) (execLines D ls)
      (execSwitch D a otherwise ls)
  | .default :: ls => execSwitch D a (execLines D ls) ls
  | .stmt _ :: ls => execSwitch D a otherwise ls

end

mutual

theorem js_stable (D : Division) : ∀ s : Js, Stable (s.exec D)
  | .assign _ _ => .update _
  | .ifElse _ t el => .ite _ (execJs_stable D t) (execJs_stable D el)
  | .switch _ ls => .read _ fun a => .onBreak _ (execSwitch_stable D a (.raise _) ls)
  | .forLet _ _ _ _ body => .within _ _ (.loop _ (execJs_stable D body) _)
  | .whileLoop _ body => .loop _ (execJs_stable D body) _
  | .doWhile body _ => .doLoop (execJs_stable D body) _
  | .brk => .raise _
  | .cont => .raise _
  | .ret => .raise _

theorem execJs_stable (D : Division) : ∀ ss : List Js, Stable (execJs D ss)
  | [] => .raise _
  | s :: ss => .seq (js_stable D s) (execJs_stable D ss)

theorem execLines_stable (D : Division) : ∀ ls : List Line, Stable (execLines D ls)
  | [] => .raise _
  | .case _ :: ls => execLines_stable D ls
  | .default :: ls => execLines_stable D ls
  | .stmt s :: ls => .seq (js_stable D s) (execLines_stable D ls)

theorem execSwitch_stable (D : Division) (a : Int) {otherwise : Cmd Store} (h : Stable otherwise) :
    ∀ ls : List Line, Stable (execSwitch D a otherwise ls)
  | [] => h
  | .case _ :: ls => .ite _ (execLines_stable D ls) (execSwitch_stable D a h ls)
  | .default :: ls => execSwitch_stable D a (execLines_stable D ls) ls
  | .stmt _ :: ls => execSwitch_stable D a h ls

end

/-! ### Early errors -/

def startsWithLabel : List Line → Bool
  | .stmt _ :: _ => false
  | _ => true

mutual

/-- `break` stands in a loop or a `switch`, `continue` in a loop, and the lines
of a `switch` begin with a label. -/
def Js.legal (inLoop inSwitch : Bool) : Js → Bool
  | .assign _ _ => true
  | .ifElse _ t el => legalJs inLoop inSwitch t && legalJs inLoop inSwitch el
  | .switch _ ls => startsWithLabel ls && legalLines inLoop ls
  | .forLet _ _ _ _ body => legalJs true inSwitch body
  | .whileLoop _ body => legalJs true inSwitch body
  | .doWhile body _ => legalJs true inSwitch body
  | .brk => inLoop || inSwitch
  | .cont => inLoop
  | .ret => true

def legalJs (inLoop inSwitch : Bool) : List Js → Bool
  | [] => true
  | s :: ss => s.legal inLoop inSwitch && legalJs inLoop inSwitch ss

def legalLines (inLoop : Bool) : List Line → Bool
  | [] => true
  | .case _ :: ls => legalLines inLoop ls
  | .default :: ls => legalLines inLoop ls
  | .stmt s :: ls => s.legal inLoop true && legalLines inLoop ls

end

/-- The body of a function; nothing of a text with an early error is run. -/
def runJs (D : Division) (ss : List Js) : Cmd Store :=
  if legalJs false false ss then execJs D ss else raise .fail

theorem runJs_stable (D : Division) (ss : List Js) : Stable (runJs D ss) := by
  unfold runJs
  split_ifs
  · exact execJs_stable D ss
  · exact .raise _

/-! ### Printing -/

def emitExpression (ref : Ident → Ident) : Scalar → Scalar
  | .literal a => .literal a
  | .varRef x => .varRef (ref x)
  | .binaryOp op l r => .binaryOp op (emitExpression ref l) (emitExpression ref r)
  | .unaryOp op e => .unaryOp op (emitExpression ref e)

def emitLabels (ref : Ident → Ident) (vs : List Scalar) : List Line :=
  vs.map fun v => .case (emitExpression ref v)

mutual

/-- The variable of a `FOR` loop is printed as it is. -/
def emitStatement (ref : Ident → Ident) : Statement → Js
  | .basic a => .assign (ref a.target) (emitExpression ref a.value)
  | .ifElse c t es el => .ifElse (emitExpression ref c) (emitBody ref t)
      (emitElsif ref (emitElse ref el) es)
  | .case c bs el => .switch (emitExpression ref c) (emitBranches ref (emitDefault ref el) bs)
  | .forLoop x start stop step body => .forLet x (emitExpression ref start)
      (.binaryOp .le (.varRef x) (emitExpression ref stop)) (emitExpression ref (stepOf step))
      (emitBody ref body)
  | .whileLoop c body => .whileLoop (emitExpression ref c) (emitBody ref body)
  | .repeatLoop c body => .doWhile (emitBody ref body) (.unaryOp .not (emitExpression ref c))
  | .exit => .brk
  | .continue => .cont
  | .return => .ret

def emitBody (ref : Ident → Ident) : List Statement → List Js
  | [] => []
  | s :: ss => emitStatement ref s :: emitBody ref ss

def emitElsif (ref : Ident → Ident) (otherwise : List Js) :
    List (Scalar × List Statement) → List Js
  | [] => otherwise
  | (c, b) :: es => [.ifElse (emitExpression ref c) (emitBody ref b) (emitElsif ref otherwise es)]

def emitElse (ref : Ident → Ident) : Option (List Statement) → List Js
  | none => []
  | some b => emitBody ref b

/-- Each branch ends with a `break` of its own. -/
def emitBranches (ref : Ident → Ident) (otherwise : List Line) :
    List (List Scalar × List Statement) → List Line
  | [] => otherwise
  | (vs, b) :: bs => emitLabels ref vs ++ ((emitBody ref b).map .stmt ++
      .stmt .brk :: emitBranches ref otherwise bs)

def emitDefault (ref : Ident → Ident) : Option (List Statement) → List Line
  | none => []
  | some b => .default :: ((emitBody ref b).map .stmt ++ [.stmt .brk])

end

/-! ### The lines of a branch -/

theorem execLines_labels (D : Division) (ref : Ident → Ident) (vs : List Scalar) (ls : List Line) :
    execLines D (emitLabels ref vs ++ ls) = execLines D ls := by
  induction vs with
  | nil => rfl
  | cons v vs ih => exact ih

/-- What follows a `break` among the lines is not run. -/
theorem execLines_body (D : Division) (b : List Js) (ls : List Line) :
    execLines D (b.map .stmt ++ .stmt .brk :: ls) = seq (execJs D b) (raise .brk) := by
  induction b with
  | nil => rfl
  | cons s ss ih =>
    funext n t
    simp only [List.map_cons, List.cons_append, execLines, execJs, ih, seq]
    rcases s.exec D n t with _ | ⟨_ | _ | _ | _ | _, t'⟩ <;> rfl

theorem execSwitch_stmts (D : Division) (a : Int) (otherwise : Cmd Store) (b : List Js)
    (ls : List Line) :
    execSwitch D a otherwise (b.map .stmt ++ .stmt .brk :: ls) = execSwitch D a otherwise ls := by
  induction b with
  | nil => rfl
  | cons s ss ih => exact ih

end Uniset.St2js
