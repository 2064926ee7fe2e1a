import Uniset.Processes.IOController

/-! The controller that watches thresholds, as one of its sensors meets it.  Of the other
sensors a check reads whether they can be set, and sets those that show a threshold. -/

namespace Uniset.Processes

/-- A threshold of the configuration, its names resolved. -/
structure ThresholdConf where
  id : Int
  lowlimit : Int
  hilimit : Int
  invert : Bool
  sid : Option ObjectId

def getThresholdInfo (it : ThresholdConf) : UThresholdInfo where
  id := it.id
  lowlimit := it.lowlimit
  hilimit := it.hilimit
  invert := it.invert
  sid := it.sid.getD DefaultObjectId
  state := .NormalThreshold
  clst := []

def init_thresholds (usi : USensorInfo) (its : List ThresholdConf) : USensorInfo :=
  { usi with thresholds := its.map getThresholdInfo }

inductive UIOCommand
  | UIONotify
  | UIODontNotify
  | UIONotifyChange
  | UIONotifyFirstNotNull
  deriving DecidableEq

/-- What a consumer of a threshold is sent. -/
structure ThresholdMessage where
  consumer : ConsumerInfo
  tid : Int
  value : Int
  threshold : Bool

/-- The state for a value.  Between the limits it stays. -/
def UThresholdInfo.nextState (it : UThresholdInfo) (value : Int) : ThresholdState :=
  if !it.invert then
    if value ≤ it.lowlimit then .NormalThreshold
    else if it.hilimit ≤ value then .HiThreshold
    else it.state
  else
    if it.hilimit ≤ value then .NormalThreshold
    else if value ≤ it.lowlimit then .LowThreshold
    else it.state

inductive NotifyOp
  | sensor (op : SensorOp)
  | askThreshold (ci : ConsumerInfo) (tid lowLimit hiLimit : Int) (invert : Bool)
      (cmd : UIOCommand)

namespace IONotifyController

variable (ic : IOController)

/-- The loop of `checkThreshold`.  The exceptions of `localSetValueIt` are not those that the
loop catches, so they end it. -/
def checkThresholds (value : Int) (supplier : ObjectId) (send_msg : Bool) :
    List UThresholdInfo → IOStateList →
      List UThresholdInfo × IOStateList × List ThresholdMessage × Option Exception
  | [], io => ([], io, [], none)
  | it :: ti, io =>
    let state := it.nextState value
    if it.state = state then
      let (ti, io, msgs, ex) := checkThresholds value supplier send_msg ti io
      (it :: ti, io, msgs, ex)
    else
      let threshold := decide (state ≠ .NormalThreshold)
      let (io, res) :=
        if it.sid ≠ DefaultObjectId then
          ic.setValue io it.sid (if threshold then 1 else 0) supplier
        else (io, .ok 0)
      match res with
      | .error e => ({ it with state } :: ti, io, [], some e)
      | .ok _ =>
        let sent := if send_msg then it.clst.map fun ci => ⟨ci, it.id, value, threshold⟩ else []
        let (ti, io, msgs, ex) := checkThresholds value supplier send_msg ti io
        ({ it with state } :: ti, io, sent ++ msgs, ex)

def checkThreshold (usi : USensorInfo) (send_msg : Bool) (io : IOStateList) :
    USensorInfo × IOStateList × List ThresholdMessage × Option Exception :=
  let (ti, io, msgs, ex) :=
    checkThresholds ic usi.value usi.supplier send_msg usi.thresholds io
  ({ usi with thresholds := ti }, io, msgs, ex)

/-- What follows a change of the value.  The exception of the check is caught here. -/
def notify (prevValue : Int) (usi : USensorInfo) (io : IOStateList) :
    USensorInfo × IOStateList × List ThresholdMessage :=
  if prevValue = usi.value then (usi, io, [])
  else
    let (usi, io, msgs, _) := checkThreshold ic usi true io
    (usi, io, msgs)

def localSetValue (usi : USensorInfo) (value : Int) (sup_id : ObjectId) (io : IOStateList) :
    Except Exception (USensorInfo × IOStateList × List ThresholdMessage) := do
  let (usi', _) ← ic.conf.localSetValue usi value sup_id
  return notify ic usi.value usi' io

/-- The function of the base, which calls the `localSetValue` of this controller. -/
def localFreezeValue (usi : USensorInfo) (set : Bool) (value : Int) (sup_id : ObjectId)
    (io : IOStateList) : Except Exception (USensorInfo × IOStateList × List ThresholdMessage) := do
  ic.conf.checkWrite usi "localFreezeValue" sup_id
  localSetValue ic (usi.assignFrozen set value) usi.real_value sup_id io

/-- The function of the base, which calls the `localSetValue` of this controller. -/
def checkDepend (usi : USensorInfo) (d_it_value : Int) (d_it_supplier : ObjectId)
    (io : IOStateList) :
    USensorInfo × Except Exception (IOStateList × List ThresholdMessage) :=
  let (usi, changed) := usi.assignBlocked d_it_value
  if changed then
    match localSetValue ic usi usi.real_value d_it_supplier io with
    | .error e => (usi, .error e)
    | .ok (usi, io, msgs) => (usi, .ok (io, msgs))
  else (usi, .ok (io, []))

def initItem (usi : USensorInfo) (io : IOStateList) :
    USensorInfo × IOStateList × List ThresholdMessage × Option Exception :=
  if usi.type = .AI ∨ usi.type = .AO then checkThreshold ic usi false io else (usi, io, [], none)

/-- The part of `activateInit` that is about the sensor, with the value and the supplier of
its parent. -/
def activateItem (usi : USensorInfo) (parent : Option (Int × ObjectId)) (io : IOStateList) :
    Except Exception USensorInfo := do
  let (usi, io) ←
    match parent with
    | none => pure (usi, io)
    | some (d_it_value, d_it_supplier) =>
      match checkDepend ic usi d_it_value d_it_supplier io with
      | (_, .error e) => .error e
      | (usi, .ok (io, _)) => pure (usi, io)
  match initItem ic usi io with
  | (usi, _, _, none) => return usi
  | (_, _, _, some e) => .error e

def localGetValue (usi : USensorInfo) (consumer_id : ObjectId) : Except Exception Int :=
  if consumer_id ≠ ic.conf.id ∧
      !(usi.checkMask ic.conf.acls consumer_id ic.conf.defaultAccessMask).canRead then
    .error (.AccessDenied (ic.conf.myname ++ "(localGetValue): Access denied"))
  else if usi.undefined then .error (.Undefined usi.value)
  else .ok usi.value

/-- Changes the threshold that `findThreshold` finds. -/
def onThreshold (tid : Int) (f : UThresholdInfo → UThresholdInfo) :
    List UThresholdInfo → List UThresholdInfo
  | [] => []
  | it :: ti => if it.id = tid then f it :: ti else it :: onThreshold tid f ti

def addConsumer (ci : ConsumerInfo) (it : UThresholdInfo) : UThresholdInfo :=
  { it with clst := if ci ∈ it.clst then it.clst else ci :: it.clst }

def removeConsumer (ci : ConsumerInfo) (it : UThresholdInfo) : UThresholdInfo :=
  { it with clst := it.clst.erase ci }

def newThreshold (tid lowLimit hiLimit : Int) (invert : Bool) : UThresholdInfo :=
  ⟨tid, lowLimit, hiLimit, invert, DefaultObjectId, .NormalThreshold, []⟩

def addThresholdIfNotExist (ti : List UThresholdInfo) (it : UThresholdInfo) :
    List UThresholdInfo :=
  if ∃ t ∈ ti, t.id = it.id then ti else ti ++ [it]

/-- The value that an order looks at.  That of an undefined sensor is not looked at. -/
def orderValue (usi : USensorInfo) (consumer_id : ObjectId) : Except Exception Int :=
  match localGetValue ic usi consumer_id with
  | .error (.Undefined _) => .ok 0
  | res => res

def askThreshold (usi : USensorInfo) (ci : ConsumerInfo) (tid lowLimit hiLimit : Int)
    (invert : Bool) (cmd : UIOCommand) : Except Exception (USensorInfo × List ThresholdMessage) := do
  if hiLimit < lowLimit then throw .BadRange
  let val ← orderValue ic usi ci.id
  let ordered :=
    onThreshold tid (addConsumer ci)
      (addThresholdIfNotExist usi.thresholds (newThreshold tid lowLimit hiLimit invert))
  match cmd with
  | .UIONotify =>
    let threshold := !decide (val ≤ lowLimit) && decide (hiLimit ≤ val)
    return ({ usi with thresholds := ordered }, [⟨ci, tid, usi.value, threshold⟩])
  | .UIONotifyChange => return ({ usi with thresholds := ordered }, [])
  | .UIODontNotify =>
    return ({ usi with thresholds := onThreshold tid (removeConsumer ci) usi.thresholds }, [])
  | .UIONotifyFirstNotNull => return (usi, [])

/-- The sensor after an operation, the records of the others being `io`. -/
def step (usi : USensorInfo) : IOStateList × NotifyOp → USensorInfo
  | (io, .sensor (.localSetValue value sup_id)) =>
    match localSetValue ic usi value sup_id io with
    | .ok (usi, _) => usi
    | .error _ => usi
  | (_, .sensor (.localSetUndefinedState undefined)) =>
    match ic.conf.localSetUndefinedState usi undefined with
    | .ok (usi, _) => usi
    | .error _ => usi
  | (io, .sensor (.localFreezeValue set value sup_id)) =>
    match localFreezeValue ic usi set value sup_id io with
    | .ok (usi, _) => usi
    | .error _ => usi
  | (io, .sensor (.checkDepend d_it_value d_it_supplier)) =>
    (checkDepend ic usi d_it_value d_it_supplier io).1
  | (_, .askThreshold ci tid lowLimit hiLimit invert cmd) =>
    match askThreshold ic usi ci tid lowLimit hiLimit invert cmd with
    | .ok (usi, _) => usi
    | .error _ => usi

end IONotifyController

end Uniset.Processes
