import Uniset.Processes.USensorInfoLaws
import Uniset.Lib.Forest
import Mathlib.Data.List.Dedup
import Mathlib.Logic.Function.Basic

/-! The controller of all sensors.  A change of a sensor is signalled to the sensors that
depend on it, and their changes to those that depend on them. -/

namespace Uniset.Processes

open Uniset.Lib

/-- The records of the sensors.  Only those of the sensors that the controller has are read. -/
abbrev IOStateList := ObjectId → USensorInfo

/-- A controller without the records.  The nodes of `slots` are its sensors in the order of
`ioList`, the children of a sensor are what is connected to its `sigChange`. -/
structure IOController where
  conf : ControllerConf
  slots : Forest ObjectId

/-- Where several items have one identifier the first of them stands. -/
def readList (its : List SensorConf) : IOStateList := fun sid =>
  getSensorInfo ((its.find? fun it => it.id = sid).getD
    ⟨sid, .DI, 0, false, none, none, none, none⟩)

def readIds (its : List SensorConf) : List ObjectId := (its.map SensorConf.id).dedup

/-- The sensors in an order in which a hash map of them may be gone through. -/
def MapOrder (its : List SensorConf) : Type := { ids : List ObjectId // ids.Perm (readIds its) }

def MapOrder.configured (its : List SensorConf) : MapOrder its := ⟨readIds its, .refl _⟩

theorem MapOrder.nodup {its : List SensorConf} (order : MapOrder its) : order.1.Nodup :=
  order.2.nodup_iff.mpr (List.nodup_dedup _)

/-- The sensor of the list on which `sid` depends. -/
def dependOf (its : List SensorConf) (sid : ObjectId) : Option ObjectId :=
  let depend_sid := (readList its sid).depend_sid
  if depend_sid ≠ DefaultObjectId ∧ depend_sid ∈ readIds its then some depend_sid else none

/-- No sensor depends on itself, be it through others. -/
def DependsAcyclic (its : List SensorConf) : Prop :=
  ∀ x, ¬Relation.TransGen (fun p c => c ∈ Forest.childrenOf (dependOf its) (readIds its) p) x x

theorem dependsAcyclic_nil : DependsAcyclic [] := by
  intro x hcycle
  obtain ⟨c, hc, -⟩ := Relation.TransGen.head'_iff.mp hcycle
  cases hc

/-- The slots of a signal are called in the order in which they were connected. -/
def init_depends_signals (its : List SensorConf) (hacyclic : DependsAcyclic its)
    (lst : MapOrder its) : Forest ObjectId :=
  Forest.ofParent (dependOf its) lst.nodup (Forest.acyclic_perm lst.2 hacyclic)

inductive ControllerOp
  | setValue (sid : ObjectId) (value : Int) (sup_id : ObjectId)
  | setUndefinedState (sid : ObjectId) (undefined : Bool) (sup_id : ObjectId)
  | freezeValue (sid : ObjectId) (set : Bool) (value : Int) (sup_id : ObjectId)

namespace IOController

/-- `ioList` is made of `lst`, and need not have its order. -/
def initIOList (conf : ControllerConf) (its : List SensorConf) (hacyclic : DependsAcyclic its)
    (lst ioList : MapOrder its) : IOController :=
  ⟨conf, (init_depends_signals its hacyclic lst).reorder (ioList.2.trans lst.2.symm)⟩

/-- Both orders are that of the configuration. -/
def read (conf : ControllerConf) (its : List SensorConf) (hacyclic : DependsAcyclic its) :
    IOController :=
  initIOList conf its hacyclic (.configured its) (.configured its)

variable (ic : IOController)

/-- The slot of the sensor `c` on the signal of `p`.  It tells whether `c` is to signal in
turn. -/
def slot (p c : ObjectId) (io : IOStateList) : IOStateList × Except Exception Bool :=
  let (usi, res) := ic.conf.checkDepend (io c) (io p).value (io p).supplier
  (Function.update io c usi, res)

/-- `sigChange.emit` with all that follows from it.  An exception of a slot ends the emission
that has called it and is caught there. -/
def emit (sid : ObjectId) (io : IOStateList) : IOStateList := ic.slots.visit ic.slot sid io

/-- The new record of a sensor, then its signal. -/
def commit (io : IOStateList) (sid : ObjectId) (out : USensorInfo × Bool) : IOStateList :=
  let io := Function.update io sid out.1
  if out.2 then ic.emit sid io else io

def conclude (io : IOStateList) (sid : ObjectId) :
    Except Exception (USensorInfo × Bool) → IOStateList × Except Exception Int
  | .error e => (io, .error e)
  | .ok out => (ic.commit io sid out, .ok out.1.value)

def unknownSensor (function : String) (sid : ObjectId) : Exception :=
  .NameNotFound (ic.conf.myname ++ "(" ++ function ++ "): Unknown sensor (" ++ toString sid ++
    ")name: " ++ ic.conf.getNameById sid)

def supplierOf (sup_id : ObjectId) : ObjectId :=
  if sup_id = DefaultObjectId then ic.conf.id else sup_id

def setValue (io : IOStateList) (sid : ObjectId) (value : Int) (sup_id : ObjectId) :
    IOStateList × Except Exception Int :=
  if sid ≠ DefaultObjectId ∧ sid ∈ ic.slots.nodes then
    ic.conclude io sid (ic.conf.localSetValue (io sid) value (ic.supplierOf sup_id))
  else (io, .error (ic.unknownSensor "localSetValue" sid))

def freezeValue (io : IOStateList) (sid : ObjectId) (set : Bool) (value : Int)
    (sup_id : ObjectId) : IOStateList × Except Exception Int :=
  if sid ≠ DefaultObjectId ∧ sid ∈ ic.slots.nodes then
    ic.conclude io sid (ic.conf.localFreezeValue (io sid) set value (ic.supplierOf sup_id))
  else (io, .error (ic.unknownSensor "localFreezeValue" sid))

/-- The supplier is not looked at. -/
def setUndefinedState (io : IOStateList) (sid : ObjectId) (undefined : Bool) (_sup_id : ObjectId) :
    IOStateList × Except Exception Int :=
  if sid ∈ ic.slots.nodes then
    ic.conclude io sid (ic.conf.localSetUndefinedState (io sid) undefined)
  else (io, .error (ic.unknownSensor "localSetUndefined" sid))

def step (io : IOStateList) : ControllerOp → IOStateList
  | .setValue sid value sup_id => (ic.setValue io sid value sup_id).1
  | .setUndefinedState sid undefined sup_id => (ic.setUndefinedState io sid undefined sup_id).1
  | .freezeValue sid set value sup_id => (ic.freezeValue io sid set value sup_id).1

/-- `checkDepend` as the activation calls it: here the exception is not caught. -/
def checkDepend (p c : ObjectId) (io : IOStateList) : Except Exception IOStateList :=
  match ic.slot p c io with
  | (_, .error e) => .error e
  | (io, .ok emitted) => .ok (if emitted then ic.emit c io else io)

/-- An access list that denies everything by default gets the rights of the controller. -/
def activateAcl (usi : USensorInfo) : IOController :=
  match usi.acl with
  | none => ic
  | some name =>
    { ic with
      conf :=
        { ic.conf with
          acls := ic.conf.acls.map fun (n, a) =>
            if n = name ∧ a.defaultPermissions = AccessNone then
              (n, { a with defaultPermissions := ic.conf.defaultAccessMask })
            else (n, a) } }

def activateSensor : IOController × IOStateList → ObjectId →
    Except Exception (IOController × IOStateList)
  | (ic, io), sid => do
    let ic := ic.activateAcl (io sid)
    let depend_sid := (io sid).depend_sid
    if depend_sid ≠ DefaultObjectId ∧ depend_sid ∈ ic.slots.nodes then
      return (ic, ← ic.checkDepend depend_sid sid io)
    else return (ic, io)

def activateInit (io : IOStateList) : Except Exception (IOController × IOStateList) :=
  ic.slots.nodes.foldlM activateSensor (ic, io)

end IOController

end Uniset.Processes
