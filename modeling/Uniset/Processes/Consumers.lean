import Uniset.Processes.IONotifyController
import Uniset.Lib.ListCursor

/-! The consumers of a sensor: how they come into its list, what they are sent and how those that
have been lost leave it. -/

namespace Uniset.Processes

open Uniset.Lib

def getPIntField (i : Int) (default : Nat) : Nat := if i ≤ 0 then default else i.toNat

/-- How often a consumer is tried. -/
structure NotifyConf where
  maxAttemtps : Nat
  sendAttemtps : Nat
  max_pos : 0 < maxAttemtps
  send_pos : 0 < sendAttemtps

theorem getPIntField_pos (i : Int) {default : Nat} (h : 0 < default) :
    0 < getPIntField i default := by
  unfold getPIntField
  split_ifs <;> omega

def NotifyConf.ofFields (ConsumerMaxAttempts ConsumerSendAttempts : Int) : NotifyConf where
  maxAttemtps := getPIntField ConsumerMaxAttempts 10
  sendAttemtps := getPIntField ConsumerSendAttempts 3
  max_pos := getPIntField_pos _ (by decide)
  send_pos := getPIntField_pos _ (by decide)

/-- A consumer in a list.  `ref` says whether there is a reference to its object.  `attempt` is
unsigned and not 0. -/
structure ConsumerInfoExt extends ConsumerInfo where
  ref : Bool
  attempt : Nat
  lostEvents : Nat
  smCount : Nat
  deriving DecidableEq

structure LostConsumerInfo where
  count : Nat
  lost : Bool
  deriving DecidableEq

/-- What happens to the list of a sensor. -/
inductive ConsumerEvent
  | ordered (ci : ConsumerInfo)
  | cancelled (ci : ConsumerInfo)
  | pushed (ci : ConsumerInfo) (ok : Bool)
  | erased (ci : ConsumerInfo)
  deriving DecidableEq

/-- The consumers that have been lost, and all that has happened, the latest first. -/
structure ConsumerLog where
  lostConsumers : ObjectId → Option LostConsumerInfo
  events : List ConsumerEvent

namespace ConsumerLog

def record (log : ConsumerLog) (e : ConsumerEvent) : ConsumerLog :=
  { log with events := e :: log.events }

/-- The consumer is on the line again. -/
def found (log : ConsumerLog) (id : ObjectId) : ConsumerLog :=
  let c := (log.lostConsumers id).map fun c => { c with lost := false }
  { log with lostConsumers := Function.update log.lostConsumers id c }

def lose (log : ConsumerLog) (id : ObjectId) : ConsumerLog :=
  let c := (log.lostConsumers id).getD ⟨0, false⟩
  let c := if c.lost then c else ⟨c.count + 1, true⟩
  { log with lostConsumers := Function.update log.lostConsumers id (some c) }

end ConsumerLog

/-- `clst` of a `ConsumerListInfo` with what has happened to it. -/
structure Consumers where
  clst : List ConsumerInfoExt
  log : ConsumerLog

namespace Consumers

variable (conf : NotifyConf)

/-- The list of a sensor that nobody has ordered. -/
def new : Consumers := ⟨[], fun _ => none, []⟩

/-- The loop of `addConsumer` over the list: the attempts of the consumer start anew. -/
def reorder (ci : ConsumerInfo) : List ConsumerInfoExt → Option (List ConsumerInfoExt)
  | [] => none
  | it :: clst =>
    if it.id = ci.id ∧ it.node = ci.node then
      some ({ it with attempt := conf.maxAttemtps } :: clst)
    else (reorder ci clst).map (it :: ·)

/-- `resolved` says whether the reference could be resolved. -/
def addConsumer (lst : Consumers) (ci : ConsumerInfo) (resolved : Bool) : Consumers :=
  let clst := (reorder conf ci lst.clst).getD
    ({ ci with ref := resolved, attempt := conf.maxAttemtps, lostEvents := 0, smCount := 0 } ::
      lst.clst)
  ⟨clst, (lst.log.found ci.id).record (.ordered ci)⟩

def removeConsumer (lst : Consumers) (cons : ConsumerInfo) : Consumers :=
  if lst.clst.any fun li => li.id = cons.id ∧ li.node = cons.node then
    ⟨lst.clst.eraseP fun li => li.id = cons.id ∧ li.node = cons.node,
      lst.log.record (.cancelled cons)⟩
  else lst

def ask (lst : Consumers) (cons : ConsumerInfo) (cmd : UIOCommand) (resolved : Bool) :
    Consumers :=
  match cmd with
  | .UIONotify => lst.addConsumer conf cons resolved
  | .UIONotifyChange => lst.addConsumer conf cons resolved
  | .UIONotifyFirstNotNull => lst.addConsumer conf cons resolved
  | .UIODontNotify => lst.removeConsumer cons

/-- The outcome of the next push to a consumer, after what has happened: the reference is resolved
where there is none, and the message is taken. -/
abbrev Pushes := List ConsumerEvent → ConsumerInfo → Bool

/-- The attempts of one `send` for one consumer.  It gives `none` when the consumer is erased. -/
def attempts (push : Pushes) :
    Nat → Nat → ConsumerInfoExt → ConsumerLog → Option ConsumerInfoExt × ConsumerLog
  | 0, _, li, log => (some li, log)
  | left + 1, i, li, log =>
    if push log.events li.toConsumerInfo then
      (some { li with ref := true, smCount := li.smCount + 1, attempt := conf.maxAttemtps },
        log.record (.pushed li.toConsumerInfo true))
    else
      let log := log.record (.pushed li.toConsumerInfo false)
      let lostEvents := if 0 < i then li.lostEvents + 1 else li.lostEvents
      if 0 < conf.maxAttemtps ∧ li.attempt = 1 then
        (none, (log.lose li.id).record (.erased li.toConsumerInfo))
      else
        attempts push left (i + 1) { li with
          ref := false
          lostEvents := lostEvents
          attempt := if 0 < conf.maxAttemtps then li.attempt - 1 else li.attempt } log

/-- Whom a `send` is for: all, or the one given. -/
def addressed (ci : Option ConsumerInfo) (li : ConsumerInfoExt) : Bool :=
  ci.all fun ci => ci.id = li.id ∧ ci.node = li.node

/-- The turn of the loop for one consumer. -/
def sendTurn (push : Pushes) (ci : Option ConsumerInfo) (li : ConsumerInfoExt)
    (log : ConsumerLog) : Option ConsumerInfoExt × ConsumerLog :=
  if addressed ci li then attempts conf push conf.sendAttemtps 0 li log else (some li, log)

/-- `none` when the loop has not ended within the fuel. -/
def send (lst : Consumers) (push : Pushes) (ci : Option ConsumerInfo) (fuel : Nat) :
    Option Consumers :=
  ((ListCursor.start lst.clst).sweep (sendTurn conf push ci) fuel lst.log).map fun r => ⟨r.1, r.2⟩

/-- An order of the sensor.  The exception for an undefined value is caught. -/
def askSensor (ic : IOController) (usi : USensorInfo) (lst : Consumers) (ci : ConsumerInfo)
    (cmd : UIOCommand) (resolved : Bool) (push : Pushes) (fuel : Nat) :
    Option (Except Exception Consumers) :=
  match IONotifyController.orderValue ic usi ci.id with
  | .error e => some (.error e)
  | .ok _ =>
    let lst := lst.ask conf ci cmd resolved
    if cmd = .UIONotify ∨ (cmd = .UIONotifyFirstNotNull ∧ usi.value ≠ 0) then
      (lst.send conf push (some ci) fuel).map .ok
    else some (.ok lst)

end Consumers

inductive ConsumersOp
  | ask (ci : ConsumerInfo) (cmd : UIOCommand) (resolved : Bool)
  | askSensor (ic : IOController) (usi : USensorInfo) (ci : ConsumerInfo) (cmd : UIOCommand)
      (resolved : Bool) (push : Consumers.Pushes)
  | send (push : Consumers.Pushes) (ci : Option ConsumerInfo)

namespace Consumers

variable (conf : NotifyConf)

def step (lst : Consumers) (fuel : Nat) : ConsumersOp → Option Consumers
  | .ask ci cmd resolved => some (lst.ask conf ci cmd resolved)
  | .askSensor ic usi ci cmd resolved push =>
    (askSensor conf ic usi lst ci cmd resolved push fuel).map fun
      | .ok lst => lst
      | .error _ => lst
  | .send push ci => lst.send conf push ci fuel

/-- An operation adds one consumer at most, and its loop takes one turn for each and one more to
see the end. -/
def next (lst : Consumers) (op : ConsumersOp) : Consumers :=
  (lst.step conf (lst.clst.length + 2) op).getD lst

end Consumers

end Uniset.Processes
