import Uniset.LogicProcessor.Element

/-! The schema: the elements by their ids, and the links made between them. -/

universe u

namespace Uniset.LogicProcessor

/-- An inner link.  An end is `none` after its element has been removed. -/
structure INLink (π : Type u) where
  fromEl : Option π
  toEl : Option π
  numInput : Nat
  deriving DecidableEq

/-- An outer input of an element. -/
structure EXTLink (π : Type u) where
  name : String
  toEl : Option π
  numInput : Nat
  deriving DecidableEq

structure Schema (π : Type u) where
  heap : Heap π
  emap : String → Option π
  inLinks : List (INLink π)
  extLinks : List (EXTLink π)

/-- How an operation ends. -/
inductive Outcome
  | returned
  | refused (e : LogicException)
  | looped
  deriving DecidableEq

inductive SchemaOp (π : Type u)
  | manage (el : π)
  | remove (el : π)
  | link (rootID childID : String) (numIn : Nat)
  | unlink (rootID childID : String)
  | extlink (name : String) (childID : String) (numIn : Nat)
  | addChildOut (el child : π) (num : Nat)
  | delChildOut (el child : π)
  | setIn (ID : String) (inNum : Nat) (state : Int)

namespace Schema

variable {π : Type u} [DecidableEq π]

/-- A schema of elements that nothing links yet. -/
def new (heap : Heap π) : Schema π :=
  ⟨fun e => { heap e with outs := [] }, fun _ => none, [], []⟩

def notFound (id : String) : LogicException := ⟨"Schema: элемент id=" ++ id ++ " NOT FOUND!"⟩

def elementNotFound (id : String) : LogicException := ⟨"Schema: element id=" ++ id ++ " NOT FOUND!"⟩

def manage (s : Schema π) (el : π) : Schema π :=
  { s with emap := Function.update s.emap (s.heap el).myid (some el) }

/-- An element is in the map under its own id, or it is not there. -/
def remove (s : Schema π) (el : π) : Schema π :=
  let mark := fun e => if e = some el then none else e
  { s with
    emap := if s.emap (s.heap el).myid = some el
      then Function.update s.emap (s.heap el).myid none else s.emap
    inLinks := s.inLinks.map fun lit => { lit with fromEl := mark lit.fromEl, toEl := mark lit.toEl }
    extLinks := s.extLinks.map fun lit => { lit with toEl := mark lit.toEl } }

def unlink (s : Schema π) (rootID childID : String) : Schema π × Outcome :=
  match s.emap rootID, s.emap childID with
  | none, _ => (s, .refused (notFound rootID))
  | some _, none => (s, .refused (elementNotFound childID))
  | some e1, some e2 =>
    ({ s with
      heap := s.heap.delChildOut e1 e2
      inLinks := s.inLinks.eraseP fun lit => lit.fromEl = some e1 ∧ lit.toEl = some e2 }, .returned)

def extlink (s : Schema π) (name childID : String) (numIn : Nat) : Schema π × Outcome :=
  match s.emap childID with
  | none => (s, .refused (elementNotFound childID))
  | some el => ({ s with extLinks := s.extLinks ++ [⟨name, some el, numIn⟩] }, .returned)

def getOut (s : Schema π) (ID : String) : Except LogicException Int :=
  match s.emap ID with
  | some el => .ok (s.heap el).gate.getOut
  | none => .error (elementNotFound ID)

variable [Fintype π]

/-- A search that does not end leaves everything as it was, for ever. -/
def addChildOut (s : Schema π) (this el : π) (num : Nat) : Schema π × Outcome :=
  match s.heap.addChildOut this el num with
  | none => (s, .looped)
  | some (.error e) => (s, .refused e)
  | some (.ok heap) => ({ s with heap }, .returned)

def link (s : Schema π) (rootID childID : String) (numIn : Nat) : Schema π × Outcome :=
  match s.emap rootID, s.emap childID with
  | none, _ => (s, .refused (notFound rootID))
  | some _, none => (s, .refused (notFound childID))
  | some e1, some e2 =>
    match s.addChildOut e1 e2 numIn with
    | (s, .returned) => ({ s with inLinks := s.inLinks ++ [⟨some e1, some e2, numIn⟩] }, .returned)
    | stopped => stopped

def setIn (s : Schema π) (ID : String) (inNum : Nat) (state : Int) : Schema π × Outcome :=
  match s.emap ID with
  | none => (s, .returned)
  | some el =>
    match s.heap.setIn (Fintype.card π) ⟨el, inNum, state⟩ with
    | none => (s, .looped)
    | some heap => ({ s with heap }, .returned)

def step (s : Schema π) : SchemaOp π → Schema π × Outcome
  | .manage el => (s.manage el, .returned)
  | .remove el => (s.remove el, .returned)
  | .link rootID childID numIn => s.link rootID childID numIn
  | .unlink rootID childID => s.unlink rootID childID
  | .extlink name childID numIn => s.extlink name childID numIn
  | .addChildOut el child num => s.addChildOut el child num
  | .delChildOut el child => ({ s with heap := s.heap.delChildOut el child }, .returned)
  | .setIn ID inNum state => s.setIn ID inNum state

def next (s : Schema π) (op : SchemaOp π) : Schema π := (s.step op).1

end Schema

end Uniset.LogicProcessor
