import Uniset.Core
import Mathlib.Logic.Function.Basic
import Mathlib.Logic.Relation
import Mathlib.Data.List.Sort

/-! Aggregators of logs.  Each connects to the logs below it, not to the aggregators between. -/

namespace Uniset.Log

abbrev Name := List Char

def sep : Char := '/'

/-- A stream is a log of its own or an aggregator. -/
inductive Stream
  | log (l : Nat)
  | agregator (a : Nat)
  deriving DecidableEq

structure ILog where
  log : Nat
  name : Name
  deriving DecidableEq

/-- The logs and the aggregators that there are, numbered.  `slots` has what is connected to the
signal of a log, and `heard` what an aggregator has passed on to its listener. -/
structure Logs where
  logs : Nat
  logName : Nat → Name
  agregators : Nat
  agName : Nat → Name
  lmap : Nat → List (Name × Stream)
  conmap : Nat → List Nat
  slots : Nat → List Nat
  heard : Nat → List Name

inductive LogStep
  | newLog (name : Name)
  | newAgregator (name : Name)
  | create (a : Nat) (logname : Name)
  | add (a : Nat) (stream : Stream) (lname : Name)
  | write (l : Nat) (text : Name)

/-- The parts before and after the first separator. -/
def splitFirst (lname : Name) : Name × Name :=
  if sep ∈ lname then (lname.takeWhile (· ≠ sep), (lname.dropWhile (· ≠ sep)).tail) else (lname, [])

namespace Logs

def init : Logs where
  logs := 0
  logName := fun _ => []
  agregators := 0
  agName := fun _ => []
  lmap := fun _ => []
  conmap := fun _ => []
  slots := fun _ => []
  heard := fun _ => []

variable (s : Logs)

def Exists : Stream → Prop
  | .log l => l < s.logs
  | .agregator a => a < s.agregators

instance : (stream : Stream) → Decidable (s.Exists stream)
  | .log _ => inferInstanceAs (Decidable (_ < _))
  | .agregator _ => inferInstanceAs (Decidable (_ < _))

def getLogName : Stream → Name
  | .log l => s.logName l
  | .agregator a => s.agName a

/-- A stream that is added without a name has its own. -/
def nameOf (stream : Stream) (lname : Name) : Name :=
  if lname = [] then s.getLogName stream else lname

def find (a : Nat) (lname : Name) : Option Stream := (s.lmap a).lookup lname

/-- Every call is for a shorter name. -/
def findLog : Nat → Nat → Name → Option Stream
  | 0, _, _ => none
  | fuel + 1, a, lname =>
    let v := splitFirst lname
    if v.2 = [] then s.find a lname
    else
      match s.find a v.1 with
      | some (.agregator b) => findLog fuel b v.2
      | found => found

def getLog (a : Nat) (logname : Name) : Option Stream :=
  if logname = [] then none else s.findLog (logname.length + 1) a logname

/-- Aggregators that are nested deeper than there are any are not looked at. -/
def makeLogNameList : Nat → Nat → Name → List ILog
  | 0, _, _ => []
  | fuel + 1, a, pref =>
    let p2 := pref ++ s.agName a ++ [sep]
    (s.lmap a).flatMap fun l =>
      match l.2 with
      | .agregator b => makeLogNameList fuel b p2
      | .log l => [⟨l, p2 ++ s.logName l⟩]

def getLogList (a : Nat) : List ILog :=
  (s.makeLogNameList s.agregators a []).insertionSort fun x y => ¬y.name < x.name

def setEntry (a : Nat) (lname : Name) (stream : Stream) : Logs :=
  let entries := (s.lmap a).filter (fun l => l.1 ≠ lname) ++ [(lname, stream)]
  { s with lmap := Function.update s.lmap a entries }

def connect (a l : Nat) : Logs :=
  { s with
    conmap := Function.update s.conmap a (s.conmap a ++ [l])
    slots := Function.update s.slots l (s.slots l ++ [a]) }

/-- An aggregator that is connected to the log does not connect again. -/
def connectOnce (a l : Nat) : Logs := if l ∈ s.conmap a then s else s.connect a l

def newLog (name : Name) : Logs :=
  { s with logs := s.logs + 1, logName := Function.update s.logName s.logs name }

def newAgregator (name : Name) : Logs :=
  { s with agregators := s.agregators + 1, agName := Function.update s.agName s.agregators name }

def create (a : Nat) (logname : Name) : Logs :=
  match s.getLog a logname with
  | some _ => s
  | none => ((s.newLog logname).connect a s.logs).setEntry a logname (.log s.logs)

def addLog (a l : Nat) (lname : Name) : Logs :=
  match s.find a lname with
  | some _ => s
  | none => (s.connectOnce a l).setEntry a lname (.log l)

def addLogAgregator (a b : Nat) (lname : Name) : Logs :=
  match s.find a lname with
  | some _ => s
  | none => ((s.getLogList b).foldl (fun s l => s.connectOnce a l.log) s).setEntry a lname
      (.agregator b)

def add (a : Nat) (stream : Stream) (lname : Name) : Logs :=
  match stream with
  | .log l => s.addLog a l (s.nameOf stream lname)
  | .agregator b => s.addLogAgregator a b (s.nameOf stream lname)

/-- Whoever is connected to the log passes the text on. -/
def logOnEvent (a : Nat) (text : Name) : Logs :=
  { s with heard := Function.update s.heard a (s.heard a ++ [text]) }

def write (l : Nat) (text : Name) : Logs :=
  (s.slots l).foldl (fun s a => s.logOnEvent a text) s

/-- What is not there is not used. -/
def step (s : Logs) : LogStep → Logs
  | .newLog name => s.newLog name
  | .newAgregator name => s.newAgregator name
  | .create a logname => if a < s.agregators then s.create a logname else s
  | .add a stream lname => if a < s.agregators ∧ s.Exists stream then s.add a stream lname else s
  | .write l text => s.write l text

end Logs

end Uniset.Log
