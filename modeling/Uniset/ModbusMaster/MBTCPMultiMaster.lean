import Mathlib.Data.Fin.Basic
import Mathlib.Data.List.FinRange
import Mathlib.Data.List.Sort
import Uniset.Lib.GuardedRun

/-! The choice of a channel, of those that lead to the same devices. -/

namespace Uniset.ModbusMaster

open Uniset.Lib

structure MBSlaveInfo where
  priority : Int
  respond : Bool
  use : Bool
  initOK : Bool
  ignore : Bool
  deriving DecidableEq

/-- A channel as it is configured, and where the object for it is in memory. -/
structure Gate where
  address : Nat
  priority : Int
  deriving DecidableEq

/-- The channels in the order of their list, and the one in use. -/
structure MBTCPMultiMaster (n : Nat) where
  mblist : Fin n → MBSlaveInfo
  mbi : Option (Fin n)

/-- How the timers and the channels answer during one call: `connect` has an answer for each of the
places where a connection is tried. -/
structure Answers (n : Nat) where
  checkTime : Fin n → Bool
  check : Fin n → Bool
  isConnection : Fin n → Bool
  connect : Nat → Fin n → Bool

namespace MBSlaveInfo

def check (m : MBSlaveInfo) (answer : Bool) : Bool := m.use || answer

/-- The first time the connection is not looked at. -/
def init (m : MBSlaveInfo) (connected : Bool) : Bool × MBSlaveInfo :=
  if m.initOK then (connected, m) else (true, { m with initOK := true })

end MBSlaveInfo

/-- The list is one of pointers, and these are what is compared. -/
def sortGates (gates : List Gate) : List Gate :=
  gates.insertionSort fun a b => a.address ≤ b.address

namespace MBTCPMultiMaster

variable {n : Nat}

def set (s : MBTCPMultiMaster n) (i : Fin n) (m : MBSlaveInfo) : MBTCPMultiMaster n :=
  { s with mblist := Function.update s.mblist i m }

/-- A channel becomes the one in use. -/
def select (s : MBTCPMultiMaster n) (i : Fin n) : MBTCPMultiMaster n :=
  { s.set i { s.mblist i with use := true } with mbi := some i }

/-- From the last channel of the list to the first. -/
def order (n : Nat) : List (Fin n) := (List.finRange n).reverse

/-- The first of the channels that are wanted and can be initialised. -/
def pass (wanted : MBSlaveInfo → Fin n → Bool) (connect : Fin n → Bool) :
    List (Fin n) → MBTCPMultiMaster n → Option (Fin n) × MBTCPMultiMaster n
  | [], s => (none, s)
  | i :: is, s =>
    if wanted (s.mblist i) i then
      let (ok, m) := (s.mblist i).init (connect i)
      if ok then (some i, s.set i m) else pass wanted connect is (s.set i m)
    else pass wanted connect is s

/-- Whether the channel in use goes on to be used. -/
def current (a : Answers n) (s : MBTCPMultiMaster n) : Bool × MBTCPMultiMaster n :=
  match s.mbi with
  | none => (false, s)
  | some c =>
    let m := s.mblist c
    if !m.ignore && m.respond then
      let m := { m with respond := m.check (a.check c) }
      if m.respond && a.isConnection c then (true, s.set c { m with use := true })
      else if m.respond then
        let (ok, m) := m.init (a.connect 0 c)
        (ok, s.set c { m with use := ok })
      else (false, s.set c { m with use := false })
    else (false, s)

/-- The timers of the channels are asked, and a channel in use that is to be reopened is ignored. -/
def refresh (reopen : Bool) (a : Answers n) (s : MBTCPMultiMaster n) : MBTCPMultiMaster n :=
  let s := { s with mblist := fun i => { s.mblist i with ignore := !a.checkTime i } }
  match s.mbi with
  | some c => if reopen then s.set c { s.mblist c with use := false, ignore := true } else s
  | none => s

def initMB (reopen : Bool) (a : Answers n) (s : MBTCPMultiMaster n) :
    Option (Fin n) × MBTCPMultiMaster n :=
  let (kept, s) := current a (refresh reopen a s)
  if kept then (s.mbi, s)
  else
    match pass (fun m _ => m.respond && !m.ignore) (a.connect 1) (order n) s with
    | (some i, s) => (some i, s.select i)
    | (none, s) =>
      match pass (fun m i => m.respond && m.check (a.check i)) (a.connect 2) (order n) s with
      | (some i, s) => (some i, (s.set i { s.mblist i with ignore := false }).select i)
      | (none, s) => (none, { s with mbi := none })

/-- What the thread that checks the connections does about a channel, `r` being its answer after the
delay: a channel in use counts as one that responds. -/
def check_thread (i : Fin n) (timer r : Bool) (s : MBTCPMultiMaster n) : MBTCPMultiMaster n :=
  let m := s.mblist i
  s.set i { m with ignore := !timer, respond := m.use || r }

end MBTCPMultiMaster

open MBTCPMultiMaster

/-- The last channel of the list is the one that is used first. -/
def initGateList (gates : List Gate) : MBTCPMultiMaster (sortGates gates).length :=
  let s : MBTCPMultiMaster (sortGates gates).length :=
    ⟨fun i => ⟨((sortGates gates).get i).priority, false, false, false, false⟩, none⟩
  match (order (sortGates gates).length) with
  | [] => s
  | i :: _ => s.select i

inductive GateStep (n : Nat)
  | initMB (reopen : Bool) (a : Answers n)
  | check (i : Fin n) (timer r : Bool)

def gateStep {n : Nat} (s : MBTCPMultiMaster n) : GateStep n → MBTCPMultiMaster n
  | .initMB reopen a => (s.initMB reopen a).2
  | .check i timer r => s.check_thread i timer r

end Uniset.ModbusMaster
