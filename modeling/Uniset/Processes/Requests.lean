import Uniset.Processes.IONotifyController

/-! The requests to a controller: those of the interface, and those that come by HTTP. -/

namespace Uniset.Processes

structure CalibrateInfo where
  minRaw : Int
  maxRaw : Int
  minCal : Int
  maxCal : Int
  precision : Int
  deriving DecidableEq

/-- The records of the sensors, and how they are calibrated. -/
structure ControllerState where
  io : IOStateList
  ci : ObjectId → CalibrateInfo

structure SensorIOInfo where
  id : ObjectId
  value : Int
  undefined : Bool
  blocked : Bool
  frozen : Bool
  real_value : Int
  type : IOType
  ci : CalibrateInfo
  supplier : ObjectId
  depend_sid : ObjectId

structure ShortMap where
  id : ObjectId
  value : Int
  type : IOType

structure ThresholdInfo where
  id : Int
  hilimit : Int
  lowlimit : Int
  state : ThresholdState

structure ThresholdList where
  id : ObjectId
  value : Int
  type : IOType
  tlist : List ThresholdInfo

/-- A request by HTTP can fail by an exception of the interface or by one of the system. -/
inductive RequestError
  | io (e : Exception)
  | SystemError (err : String)

structure HttpConf where
  disabledHttpSetApi : Bool
  disabledHttpFreezeApi : Bool
  disableHttpAccessControl : Bool
  /-- the text of an exception that is caught as one of the standard library -/
  what : Exception → Option String

/-- A parameter of a request, with what the parsers make of its two texts. -/
structure HttpParam where
  first : String
  second : String
  parseSInfo : ObjectId × String
  firstList : List (ObjectId × String)
  secondList : List (ObjectId × String)
  uni_atoi : Int
  getAnyObjectID : ObjectId
  getIOType : Option IOType
  containedIn : ObjectId → Bool

/-- What is shown of a sensor that is asked for in full. -/
structure SensorDetails where
  type : IOType
  undefined : Bool
  frozen : Bool
  blocked : Bool
  readonly : Bool
  depend : Option (ObjectId × Int × Int)
  calibration : CalibrateInfo

inductive JsonEntry
  | empty
  | sensor (value real_value : Int) (id supplier : ObjectId) (details : Option SensorDetails)
  | error (name err : String)

namespace IOController

variable (ic : IOController) (http : HttpConf)

def notFound (function : String) (sid : ObjectId) : Exception :=
  .NameNotFound (ic.conf.myname ++ "(" ++ function ++ "): Not found sensor (" ++ toString sid ++
    ") " ++ ic.conf.getNameById sid)

def denied (function : String) : Exception :=
  .AccessDenied (ic.conf.myname ++ "(" ++ function ++ "): Access denied")

/-- It gives the sensors that were not found.  An exception ends it. -/
def setOutputSeq (sup_id : ObjectId) : List (ObjectId × Int) → IOStateList →
    IOStateList × Except Exception (List ObjectId)
  | [], io => (io, .ok [])
  | (sid, value) :: lst, io =>
    if sid ∈ ic.slots.nodes then
      match ic.conclude io sid (ic.conf.localSetValue (io sid) value (ic.supplierOf sup_id)) with
      | (io, .error e) => (io, .error e)
      | (io, .ok _) => setOutputSeq sup_id lst io
    else
      let (io, badlist) := setOutputSeq sup_id lst io
      (io, badlist.map (sid :: ·))

/-- Here a supplier that is not given stays as it is. -/
def calibrate (st : ControllerState) (sid : ObjectId) (ci : CalibrateInfo) (sup_id : ObjectId) :
    ControllerState × Except Exception Unit :=
  if sid ∈ ic.slots.nodes then
    if sup_id ≠ ic.conf.id ∧
        !((st.io sid).checkMask ic.conf.acls sup_id ic.conf.defaultAccessMask).canWrite then
      (st, .error (ic.denied "calibrate"))
    else ({ st with ci := Function.update st.ci sid ci }, .ok ())
  else
    (st, .error (.NameNotFound (ic.conf.myname ++ "(calibrate): Unknown analog sensor (" ++
      toString sid ++ ")" ++ ic.conf.getNameById sid)))

def getValue (io : IOStateList) (sid : ObjectId) (sup_id : ObjectId) : Except Exception Int :=
  if sid ≠ DefaultObjectId ∧ sid ∈ ic.slots.nodes then
    IONotifyController.localGetValue ic (io sid) sup_id
  else .error (ic.notFound "localGetValue" sid)

def makeSensorIOInfo (st : ControllerState) (sid : ObjectId) : SensorIOInfo :=
  let usi := st.io sid
  ⟨usi.id, usi.value, usi.undefined, usi.blocked, usi.frozen, usi.real_value, usi.type, st.ci sid,
    usi.supplier, usi.depend_sid⟩

/-- `none` is an element that was not found. -/
def getSensorSeq (st : ControllerState) (lst : List ObjectId) (_consumer_id : ObjectId) :
    List (Option SensorIOInfo) :=
  lst.map fun sid => if sid ∈ ic.slots.nodes then some (makeSensorIOInfo st sid) else none

def getSensorsMap (st : ControllerState) (_consumer_id : ObjectId) : List SensorIOInfo :=
  ic.slots.nodes.map (makeSensorIOInfo st)

def getSensors (io : IOStateList) (_consumer_id : ObjectId) : List ShortMap :=
  ic.slots.nodes.map fun sid => ⟨(io sid).id, (io sid).value, (io sid).type⟩

/-- The exceptions of the interface are not those that are caught. -/
def getThresholds (io : IOStateList) (sid : ObjectId) (consumer_id : ObjectId) :
    Except Exception ThresholdList :=
  if sid ∈ ic.slots.nodes then do
    let value ← IONotifyController.localGetValue ic (io sid) consumer_id
    return ⟨(io sid).id, value, (io sid).type,
      (io sid).thresholds.map fun it => ⟨it.id, it.hilimit, it.lowlimit, it.state⟩⟩
  else .error (ic.notFound "getThresholds" sid)

/-- The supplier is looked for in the first parameter. -/
def firstSupplier : List HttpParam → ObjectId × List HttpParam
  | [] => (DefaultObjectId, [])
  | p :: ps => if p.first = "supplier" then (p.getAnyObjectID, ps) else (DefaultObjectId, p :: ps)

/-- The supplier with which a request goes on.  `request` and `command` are as the text has
them. -/
def requestSupplier (request command : String) (sup_id : ObjectId) :
    Except RequestError ObjectId :=
  if sup_id = DefaultObjectId then
    if http.disableHttpAccessControl then .ok ic.conf.id
    else .error (.SystemError (ic.conf.myname ++ "(" ++ request ++ "): " ++ command))
  else .ok sup_id

/-- The loop over the parameters.  It gives the errors of those that failed. -/
def requestLoop (write : ObjectId → Int → IOStateList → IOStateList × Except Exception Int) :
    List HttpParam → IOStateList → IOStateList × Except RequestError (List JsonEntry)
  | [], io => (io, .ok [])
  | p :: ps, io =>
    if p.parseSInfo.1 ≠ DefaultObjectId then
      match write p.parseSInfo.1 p.uni_atoi io with
      | (io, .ok _) => requestLoop write ps io
      | (io, .error e) =>
        match e, http.what e with
        | .NameNotFound err, _ =>
          let (io, errs) := requestLoop write ps io
          (io, errs.map (.error p.parseSInfo.2 err :: ·))
        | _, some what =>
          let (io, errs) := requestLoop write ps io
          (io, errs.map (.error p.parseSInfo.2 what :: ·))
        | e, none => (io, .error (.io e))
    else
      let (io, errs) := requestLoop write ps io
      (io, errs.map (.error p.first "not found" :: ·))

/-- What `request_set` and `request_freeze` have in common. -/
def requestWrite (req usage supplierUsage : String) (disabled : Bool)
    (write : ObjectId → ObjectId → Int → IOStateList → IOStateList × Except Exception Int)
    (request : String) (p : List HttpParam) (io : IOStateList) :
    IOStateList × Except RequestError (List JsonEntry) :=
  if disabled then (io, .error (.SystemError ("(IHttpRequest::Request): " ++ req ++ " disabled")))
  else if p = [] then
    (io, .error (.SystemError (ic.conf.myname ++ "(" ++ request ++ "): " ++ usage)))
  else
    match ic.requestSupplier http request supplierUsage (firstSupplier p).1 with
    | .error e => (io, .error e)
    | .ok sup_id => requestLoop http (write sup_id) (firstSupplier p).2 io

def request_set : List HttpParam → IOStateList →
    IOStateList × Except RequestError (List JsonEntry) :=
  ic.requestWrite http "set"
    "'set'. Unknown ID or Name. Use parameters: set?ID1=val1&name2=val2&ID3=val3&..."
    "'set' requires 'supplier' parameter. Example: /set?supplier=Name&..."
    http.disabledHttpSetApi (fun sup_id sid value io => ic.setValue io sid value sup_id)
    "request_set"

/-- `freeze` and `unfreeze`, by `set`. -/
def request_freeze (set : Bool) : List HttpParam → IOStateList →
    IOStateList × Except RequestError (List JsonEntry) :=
  ic.requestWrite http (if set then "freeze" else "unfreeze")
    "'freeze/unfreeze'. Unknown ID or Name. Use parameters: freeze?ID1=val1&name2=val2&ID3=val3&..."
    "'freeze/unfreeze' requires 'supplier' parameter. Example: /set?supplier=Name&..."
    http.disabledHttpFreezeApi (fun sup_id sid value io => ic.freezeValue io sid set value sup_id)
    "request_freeze"

/-- The entries that are added before it returns or throws. -/
def getSensorInfo (st : ControllerState) (sid : ObjectId) (consumer_id : ObjectId)
    (shortInfo : Bool) : List JsonEntry × Except Exception Unit :=
  let usi := st.io sid
  if consumer_id ≠ ic.conf.id ∧
      !(usi.checkMask ic.conf.acls consumer_id ic.conf.defaultAccessMask).canRead then
    ([.empty], .error (ic.denied "getSensorInfo"))
  else
    let details : SensorDetails :=
      ⟨usi.type, usi.undefined, usi.frozen, usi.blocked, usi.readonly,
        if usi.depend_sid ≠ DefaultObjectId then
          some (usi.depend_sid, usi.d_value, usi.d_off_value)
        else none,
        st.ci sid⟩
    ([.sensor usi.value usi.real_value usi.id usi.supplier
        (if shortInfo then none else some details)], .ok ())

/-- What the loop over the parameters of `get` finds: the supplier given last, the filter and
whether the answer is to be short. -/
structure GetParams where
  sup_id : ObjectId
  filterParam : String
  slist : List (ObjectId × String)
  shortInfo : Bool

def GetParams.read (g : GetParams) (p : HttpParam) : GetParams :=
  if p.first = "supplier" then { g with sup_id := p.getAnyObjectID }
  else if p.first = "filter" ∧ p.second ≠ "" then
    { g with filterParam := p.second, slist := p.secondList }
  else if p.first = "shortInfo" then { g with shortInfo := true }
  else if g.filterParam = "" then { g with filterParam := p.first, slist := p.firstList }
  else g

def getParams (p : List HttpParam) : GetParams :=
  let g := p.foldl GetParams.read ⟨DefaultObjectId, "", [], false⟩
  if g.filterParam = "" then
    match p.find? fun p => p.first ≠ "supplier" with
    | some p => { g with filterParam := p.first, slist := p.firstList }
    | none => g
  else g

def getUsage : String :=
  "'get'. Unknown ID or Name. Use parameters: get?filter=ID1,name2,ID3,..."

/-- The turn of the loop of `get` for one sensor.  `getSensorInfo` throws nothing else. -/
def getEntries (st : ControllerState) (sup_id : ObjectId) (shortInfo : Bool)
    (s : ObjectId × String) : List JsonEntry :=
  if s.1 ∈ ic.slots.nodes then
    match ic.getSensorInfo st s.1 sup_id shortInfo with
    | (entries, .ok _) => entries
    | (entries, .error (.AccessDenied err)) => entries ++ [.error s.2 err]
    | (entries, .error _) => entries
  else [.error s.2 "not found"]

def request_get (st : ControllerState) (p : List HttpParam) :
    Except RequestError (List JsonEntry) :=
  if p = [] then .error (.SystemError (ic.conf.myname ++ "(request): " ++ getUsage))
  else do
    let g := getParams p
    let sup_id ← ic.requestSupplier http "request_get"
      "'get' requires 'supplier' parameter. Example: /get?supplier=Name&..." g.sup_id
    if g.slist = [] then throw (.SystemError (ic.conf.myname ++ "(request): " ++ getUsage))
    return g.slist.flatMap (ic.getEntries st sup_id g.shortInfo)

/-- An `int` as a `size_t`. -/
def toSize (v : Int) : Nat := (v % 18446744073709551616).toNat

/-- What the loop over the parameters of `sensors` finds. -/
structure SensorsParams where
  offset : Nat
  limit : Nat
  search : Option HttpParam
  filterIds : List ObjectId
  iotype : Option IOType

def SensorsParams.read (q : SensorsParams) (p : HttpParam) : SensorsParams :=
  if p.first = "offset" then { q with offset := toSize p.uni_atoi }
  else if p.first = "limit" then { q with limit := toSize p.uni_atoi }
  else if p.first = "search" ∧ p.second ≠ "" then { q with search := some p }
  else if p.first = "filter" ∧ p.second ≠ "" then
    { q with filterIds := p.secondList.map Prod.fst }
  else if p.first = "iotype" ∧ p.second ≠ "" then { q with iotype := p.getIOType }
  else q

/-- A search for a type is taken as that. -/
def sensorsParams (p : List HttpParam) : SensorsParams :=
  let q := p.foldl SensorsParams.read ⟨0, 0, none, [], none⟩
  if q.iotype = none then
    match q.search with
    | some p => if p.getIOType ≠ none then { q with iotype := p.getIOType, search := none } else q
    | none => q
  else q

def SensorsParams.selects (q : SensorsParams) (usi : USensorInfo) : Bool :=
  (q.filterIds = [] ∨ usi.id ∈ q.filterIds) ∧ (q.iotype.all fun t => usi.type = t) ∧
    (q.search.all fun p => p.containedIn usi.id)

/-- The answer: the entries of the page with `count`, `total` and `size`. -/
def request_sensors (st : ControllerState) (p : List HttpParam) :
    List JsonEntry × Nat × Nat × Nat :=
  let q := sensorsParams p
  let found := ic.slots.nodes.filter fun sid => q.selects (st.io sid)
  let rest := found.drop q.offset
  let page := if 0 < q.limit then rest.take q.limit else rest
  (page.flatMap fun sid => (ic.getSensorInfo st sid ic.conf.id false).1, page.length, found.length,
    ic.slots.nodes.length)

end IOController

inductive WriteRequest
  | setValue (sid : ObjectId) (value : Int)
  | setOutputSeq (lst : List (ObjectId × Int))
  | freezeValue (sid : ObjectId) (set : Bool) (value : Int)
  | setUndefinedState (sid : ObjectId) (undefined : Bool)
  | calibrate (sid : ObjectId) (ci : CalibrateInfo)
  | request_set (p : List HttpParam)
  | request_freeze (set : Bool) (p : List HttpParam)

inductive ReadRequest
  | getValue (sid : ObjectId)
  | getSensorSeq (lst : List ObjectId)
  | getSensorsMap
  | getSensors
  | getThresholds (sid : ObjectId)
  | request_get (p : List HttpParam)
  | request_sensors (p : List HttpParam)

inductive ReadReply
  | getValue (res : Except Exception Int)
  | getSensorSeq (res : List (Option SensorIOInfo))
  | getSensorsMap (res : List SensorIOInfo)
  | getSensors (res : List ShortMap)
  | getThresholds (res : Except Exception ThresholdList)
  | request_get (res : Except RequestError (List JsonEntry))
  | request_sensors (res : List JsonEntry × Nat × Nat × Nat)

namespace IOController

variable (ic : IOController) (http : HttpConf)

/-- The state after a request.  A request by HTTP says itself who sends it. -/
def handleWrite (st : ControllerState) (sup_id : ObjectId) : WriteRequest → ControllerState
  | .setValue sid value => { st with io := (ic.setValue st.io sid value sup_id).1 }
  | .setOutputSeq lst => { st with io := (ic.setOutputSeq sup_id lst st.io).1 }
  | .freezeValue sid set value => { st with io := (ic.freezeValue st.io sid set value sup_id).1 }
  | .setUndefinedState sid undefined =>
    { st with io := (ic.setUndefinedState st.io sid undefined sup_id).1 }
  | .calibrate sid ci => (ic.calibrate st sid ci sup_id).1
  | .request_set p => { st with io := (ic.request_set http p st.io).1 }
  | .request_freeze set p => { st with io := (ic.request_freeze http set p st.io).1 }

def handleRead (st : ControllerState) (consumer_id : ObjectId) : ReadRequest → ReadReply
  | .getValue sid => .getValue (ic.getValue st.io sid consumer_id)
  | .getSensorSeq lst => .getSensorSeq (ic.getSensorSeq st lst consumer_id)
  | .getSensorsMap => .getSensorsMap (ic.getSensorsMap st consumer_id)
  | .getSensors => .getSensors (ic.getSensors st.io consumer_id)
  | .getThresholds sid => .getThresholds (ic.getThresholds st.io sid consumer_id)
  | .request_get p => .request_get (ic.request_get http st p)
  | .request_sensors p => .request_sensors (ic.request_sensors st p)

end IOController

end Uniset.Processes
