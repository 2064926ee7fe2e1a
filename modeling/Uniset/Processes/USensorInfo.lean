import Uniset.Core
import Mathlib.Tactic.Common

/-! The record of one sensor, and what the operations of the controller do to it under
its lock.  What the signals carry to other sensors is not seen here. -/

namespace Uniset.Processes

structure AccessMask where
  mask : UInt8
  deriving DecidableEq

namespace AccessMask

def UNKNOWN : UInt8 := 0
def NONE : UInt8 := 1
def READ : UInt8 := 2
def WRITE : UInt8 := 4

def canRead (m : AccessMask) : Bool := m.mask &&& READ != 0

def canWrite (m : AccessMask) : Bool := m.mask &&& WRITE != 0

end AccessMask

def AccessUnknown : AccessMask := ⟨AccessMask.UNKNOWN⟩
def AccessNone : AccessMask := ⟨AccessMask.NONE⟩
def AccessRO : AccessMask := ⟨AccessMask.READ⟩
def AccessRW : AccessMask := ⟨AccessMask.READ ||| AccessMask.WRITE⟩

structure ACL where
  defaultPermissions : AccessMask
  permissions : List (ObjectId × AccessMask)
  deriving DecidableEq

inductive Exception
  | NameNotFound (err : String)
  | AccessDenied (err : String)
  | IOBadParam (err : String)
  | Undefined (value : Int)
  | BadRange

/-- What the operations read of the controller itself.  Sensors share the lists of `acls`
and hold their names. -/
structure ControllerConf where
  id : ObjectId
  myname : String
  getNameById : ObjectId → String
  defaultAccessMask : AccessMask
  acls : List (String × ACL)

/-- A controller with the usual rights, and no lists. -/
def ControllerConf.unrestricted (id : ObjectId) : ControllerConf :=
  ⟨id, "SharedMemory", fun _ => "Sensor", AccessRW, []⟩

inductive IOType
  | DI
  | DO
  | AI
  | AO
  deriving DecidableEq

inductive ThresholdState
  | LowThreshold
  | NormalThreshold
  | HiThreshold
  deriving DecidableEq

structure ConsumerInfo where
  id : ObjectId
  node : ObjectId
  deriving DecidableEq

structure UThresholdInfo where
  id : Int
  lowlimit : Int
  hilimit : Int
  invert : Bool
  /-- the discrete sensor that shows the threshold -/
  sid : ObjectId
  state : ThresholdState
  /-- the consumers that `askTMap` has for the threshold -/
  clst : List ConsumerInfo
  deriving DecidableEq

def not_specified_value : Int := 0x7FFFFFFFFFFFFFFF

structure USensorInfo where
  id : ObjectId
  type : IOType
  value : Int
  undefined : Bool
  blocked : Bool
  frozen : Bool
  /-- the value before blocking or freezing -/
  real_value : Int
  supplier : ObjectId
  depend_sid : ObjectId
  d_value : Int
  d_off_value : Int
  undef_value : Int
  frozen_value : Int
  readonly : Bool
  acl : Option String
  thresholds : List UThresholdInfo
  deriving DecidableEq

structure DependConf where
  depend_sid : ObjectId
  depend_value : Option Int
  depend_off_value : Option Int

/-- A sensor of the configuration, its names resolved. -/
structure SensorConf where
  id : ObjectId
  iotype : IOType
  default_val : Int
  readonly : Bool
  frozen_value : Option Int
  undefined_value : Option Int
  acl : Option String
  depend : Option DependConf

def getSensorInfo (it : SensorConf) : USensorInfo where
  id := it.id
  type := it.iotype
  value := it.frozen_value.getD it.default_val
  undefined := false
  blocked := false
  frozen := it.frozen_value.isSome
  real_value := it.default_val
  supplier := DefaultObjectId
  depend_sid := (it.depend.map DependConf.depend_sid).getD DefaultObjectId
  d_value := (it.depend.bind DependConf.depend_value).getD 1
  d_off_value := (it.depend.bind DependConf.depend_off_value).getD 0
  undef_value := it.undefined_value.getD not_specified_value
  frozen_value := it.frozen_value.getD 0
  readonly := it.readonly
  acl := it.acl
  thresholds := []

namespace USensorInfo

/-- The rights of `sup`: its own entry, else the default of the list, else `defaultMask`. -/
def checkMask (usi : USensorInfo) (acls : List (String × ACL)) (sup : ObjectId)
    (defaultMask : AccessMask) : AccessMask :=
  let result :=
    match usi.acl.bind fun name => acls.lookup name with
    | none => AccessUnknown
    | some a =>
      let result := (a.permissions.lookup sup).getD AccessUnknown
      if result = AccessUnknown ∧ a.defaultPermissions ≠ AccessUnknown then a.defaultPermissions
      else result
  if result = AccessUnknown then defaultMask else result

def HasUndefValue (usi : USensorInfo) : Prop := usi.undef_value ≠ not_specified_value

instance (usi : USensorInfo) : Decidable usi.HasUndefValue := inferInstanceAs (Decidable (_ ≠ _))

/-- A new value under the lock.  The flag says that the change is signalled. -/
def assign (usi : USensorInfo) (value : Int) (sup_id : ObjectId) : USensorInfo × Bool :=
  let usi := { usi with supplier := sup_id }
  let blocked := usi.blocked || usi.undefined
  let changed := decide (usi.real_value ≠ value)
  let blockChanged := blocked != decide (usi.value = usi.d_off_value)
  let freezeChanged := usi.frozen != decide (usi.value = usi.frozen_value)
  if changed || blockChanged || freezeChanged then
    ({ usi with
        real_value := value
        value :=
          if usi.frozen then usi.frozen_value
          else if blocked then usi.d_off_value else value }, true)
  else (usi, false)

/-- A new undefined flag under the lock. -/
def assignUndefined (usi : USensorInfo) (undefined : Bool) : USensorInfo × Bool :=
  let changed := usi.undefined != undefined
  let usi := { usi with undefined }
  if usi.undef_value ≠ not_specified_value then
    ({ usi with value := if undefined then usi.undef_value else usi.real_value }, changed)
  else (usi, changed)

def assignFrozen (usi : USensorInfo) (set : Bool) (value : Int) : USensorInfo :=
  { usi with frozen := set, frozen_value := if set then value else usi.value }

/-- The flag of a dependent sensor under the lock, by the value of its parent. -/
def assignBlocked (usi : USensorInfo) (d_it_value : Int) : USensorInfo × Bool :=
  let blocked := decide (d_it_value ≠ usi.d_value)
  ({ usi with blocked }, usi.blocked != blocked)

end USensorInfo

/-- An operation of the controller on one sensor.  `checkDepend` comes with the value and
the supplier that the parent has at that moment. -/
inductive SensorOp
  | localSetValue (value : Int) (sup_id : ObjectId)
  | localSetUndefinedState (undefined : Bool)
  | localFreezeValue (set : Bool) (value : Int) (sup_id : ObjectId)
  | checkDepend (d_it_value : Int) (d_it_supplier : ObjectId)

namespace ControllerConf

variable (ic : ControllerConf) (usi : USensorInfo)

/-- The two checks that open `localSetValue` and `localFreezeValue`. -/
def checkWrite (function : String) (sup_id : ObjectId) : Except Exception Unit :=
  if sup_id ≠ ic.id ∧ !(usi.checkMask ic.acls sup_id ic.defaultAccessMask).canWrite then
    .error (.AccessDenied (ic.myname ++ "(" ++ function ++ "): Access denied"))
  else if usi.readonly then
    .error (.IOBadParam (ic.myname ++ "(" ++ function ++ "): Readonly sensor (" ++
      toString usi.id ++ ")name: " ++ ic.getNameById usi.id))
  else .ok ()

/-- Returns the sensor, whose `value` is what the function returns, and whether `sigChange`
is emitted. -/
def localSetValue (value : Int) (sup_id : ObjectId) : Except Exception (USensorInfo × Bool) := do
  ic.checkWrite usi "localSetValue" sup_id
  return usi.assign value sup_id

def localSetUndefinedState (undefined : Bool) : Except Exception (USensorInfo × Bool) :=
  if usi.readonly then
    .error (.IOBadParam (ic.myname ++ "(localSetUndefined): Readonly sensor (" ++
      toString usi.id ++ ")name: " ++ ic.getNameById usi.id))
  else .ok (usi.assignUndefined undefined)

def localFreezeValue (set : Bool) (value : Int) (sup_id : ObjectId) :
    Except Exception (USensorInfo × Bool) := do
  ic.checkWrite usi "localFreezeValue" sup_id
  ic.localSetValue (usi.assignFrozen set value) usi.real_value sup_id

/-- `checkDepend` with the value and the supplier of the parent.  The flag stays set when
`localSetValue` throws. -/
def checkDepend (d_it_value : Int) (d_it_supplier : ObjectId) :
    USensorInfo × Except Exception Bool :=
  let (usi, changed) := usi.assignBlocked d_it_value
  if changed then
    match ic.localSetValue usi usi.real_value d_it_supplier with
    | .error e => (usi, .error e)
    | .ok (usi, emitted) => (usi, .ok emitted)
  else (usi, .ok false)

/-- The sensor after the operation.  A refused one leaves it, a refused `checkDepend` leaves
it with the new flag. -/
def step : SensorOp → USensorInfo
  | .localSetValue value sup_id =>
    match ic.localSetValue usi value sup_id with
    | .ok (usi, _) => usi
    | .error _ => usi
  | .localSetUndefinedState undefined =>
    match ic.localSetUndefinedState usi undefined with
    | .ok (usi, _) => usi
    | .error _ => usi
  | .localFreezeValue set value sup_id =>
    match ic.localFreezeValue usi set value sup_id with
    | .ok (usi, _) => usi
    | .error _ => usi
  | .checkDepend d_it_value d_it_supplier => (ic.checkDepend usi d_it_value d_it_supplier).1

/-- The checks of `localSetValue` pass. -/
def Accepts (sup_id : ObjectId) : Prop :=
  (sup_id = ic.id ∨ (usi.checkMask ic.acls sup_id ic.defaultAccessMask).canWrite = true) ∧
    usi.readonly = false

instance (sup_id : ObjectId) : Decidable (ic.Accepts usi sup_id) :=
  inferInstanceAs (Decidable (_ ∧ _))

end ControllerConf

end Uniset.Processes
