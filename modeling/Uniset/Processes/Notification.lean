import Uniset.Processes.Consumers
import Uniset.Lib.GuardedRun

/-! A sensor, its consumers, and the threads that change the one and notify the others. -/

namespace Uniset.Processes

open Uniset.Lib

structure SensorMessage where
  id : ObjectId
  sensor_type : IOType
  value : Int
  undefined : Bool
  supplier : ObjectId
  deriving DecidableEq

def USensorInfo.makeSensorMessage (usi : USensorInfo) : SensorMessage :=
  ⟨usi.id, usi.type, usi.value, usi.undefined, usi.supplier⟩

/-- What the threads share.  `udataConsumerList` says whether the sensor knows its list. -/
structure NotifiedSensor where
  usi : USensorInfo
  lst : Consumers
  udataConsumerList : Bool
  /-- what the consumers have taken, the latest first -/
  received : List (ConsumerInfo × SensorMessage)
  /-- what the sensor has shown, the latest first -/
  taken : List (Int × Bool)

inductive SensorCall
  | localSetValue (value : Int) (sup_id : ObjectId)
  | localSetUndefinedState (undefined : Bool)
  | localFreezeValue (set : Bool) (value : Int) (sup_id : ObjectId)
  | askSensor (ci : ConsumerInfo) (cmd : UIOCommand)

/-- What a thread does next. -/
inductive CallState
  | idle
  | localSetValue (value : Int) (sup_id : ObjectId)
  | checks (value : Int) (sup_id : ObjectId) (prevValue : Int)
  | changes (value : Int) (sup_id : ObjectId) (prevValue retValue : Int)
  | notifies
  | localSetUndefinedState (undefined : Bool)
  | localFreezeValue (set : Bool) (value : Int) (sup_id : ObjectId)
  | askSensor (ci : ConsumerInfo) (cmd : UIOCommand)
  | asks (ci : ConsumerInfo) (cmd : UIOCommand)
  | setsUserData (ci : ConsumerInfo) (cmd : UIOCommand)
  | decides (ci : ConsumerInfo) (cmd : UIOCommand)
  | sendsFirst (ci : ConsumerInfo)
  deriving DecidableEq

def SensorCall.start : SensorCall → CallState
  | .localSetValue value sup_id => .localSetValue value sup_id
  | .localSetUndefinedState undefined => .localSetUndefinedState undefined
  | .localFreezeValue set value sup_id => .localFreezeValue set value sup_id
  | .askSensor ci cmd => .askSensor ci cmd

/-- A thread begins an operation or takes a step in it.  The reference to the object and the
outcomes of the pushes are looked at by the steps that need them. -/
inductive CallStep
  | call (c : SensorCall)
  | run (resolved : Bool) (push : Consumers.Pushes)

namespace NotifiedSensor

variable (conf : NotifyConf) (ic : IOController)

def new (usi : USensorInfo) : NotifiedSensor :=
  ⟨usi, Consumers.new, false, [], [(usi.value, usi.undefined)]⟩

def write (s : NotifiedSensor) (usi : USensorInfo) : NotifiedSensor :=
  { s with usi, taken := (usi.value, usi.undefined) :: s.taken }

/-- Who has taken the message, by what has happened to the list. -/
def takers (events : List ConsumerEvent) : List ConsumerInfo :=
  events.filterMap fun
    | .pushed ci true => some ci
    | _ => none

/-- The message is made and sent under the lock of the value. -/
def send (s : NotifiedSensor) (push : Consumers.Pushes) (ci : Option ConsumerInfo) :
    NotifiedSensor :=
  if s.udataConsumerList then
    match s.lst.send conf push ci (s.lst.clst.length + 1) with
    | none => s
    | some lst =>
      let added := lst.log.events.take (lst.log.events.length - s.lst.log.events.length)
      { s with
        lst
        received := (takers added).map (·, s.usi.makeSensorMessage) ++ s.received }
  else s

/-- One step of an operation.  `localSetValue` reads the value before it is changed under a lock
of its own, and once more without one. -/
def run (resolved : Bool) (push : Consumers.Pushes) (s : NotifiedSensor) :
    CallState → Option (NotifiedSensor × CallState)
  | .idle => none
  | .localSetValue value sup_id => some (s, .checks value sup_id s.usi.value)
  | .checks value sup_id prevValue =>
    match ic.conf.checkWrite s.usi "localSetValue" sup_id with
    | .error _ => some (s, .idle)
    | .ok _ => some (s, .changes value sup_id prevValue s.usi.value)
  | .changes value sup_id prevValue retValue =>
    let (usi, changed) := s.usi.assign value sup_id
    let curValue := if changed then usi.value else retValue
    some (s.write usi, if prevValue = curValue then .idle else .notifies)
  | .notifies => some (s.send conf push none, .idle)
  | .localSetUndefinedState undefined =>
    match ic.conf.localSetUndefinedState s.usi undefined with
    | .error _ => some (s, .idle)
    | .ok (usi, changed) => some (s.write usi, if changed then .notifies else .idle)
  | .localFreezeValue set value sup_id =>
    match ic.conf.checkWrite s.usi "localFreezeValue" sup_id with
    | .error _ => some (s, .idle)
    | .ok _ => some (s.write (s.usi.assignFrozen set value), .localSetValue s.usi.real_value sup_id)
  | .askSensor ci cmd =>
    match IONotifyController.orderValue ic s.usi ci.id with
    | .error _ => some (s, .idle)
    | .ok _ => some (s, .asks ci cmd)
  | .asks ci cmd => some ({ s with lst := s.lst.ask conf ci cmd resolved }, .setsUserData ci cmd)
  | .setsUserData ci cmd =>
    some ({ s with udataConsumerList := s.udataConsumerList || cmd ≠ .UIODontNotify },
      .decides ci cmd)
  | .decides ci cmd =>
    if cmd = .UIONotify ∨ (cmd = .UIONotifyFirstNotNull ∧ s.usi.value ≠ 0) then
      some (s, .sendsFirst ci)
    else some (s, .idle)
  | .sendsFirst ci => some (s.send conf push (some ci), .idle)

def act : CallStep → NotifiedSensor → CallState → Option (NotifiedSensor × CallState)
  | .call c, s, k => if k = .idle then some (s, c.start) else none
  | .run resolved push, s, k => s.run conf ic resolved push k

end NotifiedSensor

/-- A sensor and any number of threads. -/
abbrev Notification (τ : Type) := Threads τ NotifiedSensor CallState

namespace Notification

variable {τ : Type}

def new (usi : USensorInfo) : Notification τ := ⟨.new usi, fun _ => .idle⟩

def step [DecidableEq τ] (conf : NotifyConf) (ic : IOController) :
    Notification τ → τ × CallStep → Option (Notification τ) :=
  Threads.step (NotifiedSensor.act conf ic)

end Notification

end Uniset.Processes
