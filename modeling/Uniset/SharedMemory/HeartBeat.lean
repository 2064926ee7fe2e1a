import Uniset.Processes.Requests
import Uniset.Processes.Dependencies

/-! The heartbeat counters that processes renew and the check counts down. -/

namespace Uniset.SharedMemory

open Uniset.Lib Uniset.Processes

structure HeartBeatInfo where
  a_sid : ObjectId
  d_sid : ObjectId
  reboot_msec : Nat
  timer_running : Bool
  ptReboot : PassiveTimer
  deriving DecidableEq

/-- A sensor of the configuration, as far as heartbeats go by it; an absent number is 0. -/
structure HeartBeatItem where
  name : String
  id : Int
  iotype : String
  heartbeat : Option Int
  heartbeat_node : String
  heartbeat_ds_name : String
  heartbeat_reboot_msec : Int

/-- What ends the process. -/
structure SystemError where
  err : String

/-- An entry, if the sensor is a counter of this node.  A negative time to a reboot is over at once,
as 0 is. -/
def readItem (heartbeat_node : String) (getSensorID : String → ObjectId) (now : Nat)
    (it : HeartBeatItem) : Except SystemError (Option HeartBeatInfo) :=
  if heartbeat_node = "" ∨ it.heartbeat = none then .ok none
  else if heartbeat_node ≠ it.heartbeat_node then .ok none
  else if it.heartbeat.getD 0 ≤ 0 then .ok none
  else if it.iotype ≠ "AI" then
    .error ⟨"(SharedMemory::readItem): тип для 'heartbeat' датчика (" ++ it.name ++
      ") указан неверно (" ++ it.iotype ++ ") должен быть 'AI'"⟩
  else
    let d_sid := if it.heartbeat_ds_name = "" then DefaultObjectId
      else getSensorID it.heartbeat_ds_name
    if it.heartbeat_ds_name ≠ "" ∧ d_sid = DefaultObjectId then
      .error ⟨"(SharedMemory::readItem): Не найден ID для дискретного датчика " ++
        "(heartbeat_ds_name) связанного с " ++ it.name⟩
    else if it.id ≤ 0 then
      .error ⟨"(SharedMemory::readItem): НЕ УКАЗАН id для " ++ it.name⟩
    else .ok (some ⟨it.id, d_sid, it.heartbeat_reboot_msec.toNat, false, .setTiming WaitUpTime now⟩)

/-- The entries of all sensors. -/
def readItems (heartbeat_node : String) (getSensorID : String → ObjectId) (now : Nat)
    (its : List HeartBeatItem) : Except SystemError (List HeartBeatInfo) := do
  let his ← its.mapM (readItem heartbeat_node getSensorID now)
  return his.filterMap id

namespace HeartBeatInfo

variable (ic : IOController) (it : HeartBeatInfo)

/-- The counter, counted down. -/
def countdown (val : Int) : Int := if val - 1 < -1 then -1 else val - 1

def readCounter (io : IOStateList) : Except Exception Int :=
  (ic.getValue io it.a_sid ic.conf.id).map countdown

def writeCounter (io : IOStateList) (val : Int) : IOStateList × Except Exception Int :=
  ic.setValue io it.a_sid val ic.conf.id

def writeAlive (io : IOStateList) (val : Int) : IOStateList × Except Exception Int :=
  ic.setValue io it.d_sid (if 0 ≤ val then 1 else 0) ic.conf.id

end HeartBeatInfo

/-! ## Sensors that only show what is set -/

/-- A sensor of the controller with nothing that hides its value, nor that keeps it from being set by
the controller itself. -/
structure Plain (ic : IOController) (io : IOStateList) (sid : ObjectId) : Prop where
  known : sid ≠ DefaultObjectId ∧ sid ∈ ic.slots.nodes
  open' : (io sid).Open
  writable : (io sid).readonly = false
  shown : (io sid).value = (io sid).real_value
  independent : ∀ p, sid ∉ ic.slots.children p

variable {ic : IOController} {io : IOStateList} {sid y : ObjectId}

/-- What is set elsewhere does not come to such a sensor. -/
theorem commit_other (hy : Plain ic io y) (hne : y ≠ sid) (out : USensorInfo × Bool) :
    ic.commit io sid out y = io y := by
  refine IOController.commit_frame (fun hwithin => ?_) out
  rcases Relation.ReflTransGen.cases_tail hwithin with heq | ⟨p, -, hchild⟩
  · exact hne heq
  · exact hy.independent p hchild

theorem Plain.of_eq {io' : IOStateList} (h : Plain ic io y) (heq : io' y = io y) :
    Plain ic io' y := by
  obtain ⟨hknown, hopen, hwritable, hshown, hindep⟩ := h
  exact ⟨hknown, heq ▸ hopen, heq ▸ hwritable, heq ▸ hshown, hindep⟩

theorem Plain.assign (h : Plain ic io sid) (value : Int) (sup_id : ObjectId) :
    Plain ic (ic.commit io sid ((io sid).assign value sup_id)) sid ∧
      (ic.commit io sid ((io sid).assign value sup_id) sid).value = value := by
  have hvalue : ((io sid).assign value sup_id).1.value = value := by
    rw [USensorInfo.assign_value _ _ _ fun _ => .inl h.shown, USensorInfo.shown_of_open h.open']
  rw [IOController.commit_self]
  refine ⟨⟨h.known, ?_, ?_, ?_, h.independent⟩, hvalue⟩
  · rw [IOController.commit_self, USensorInfo.assign_eq]
    exact h.open'
  · rw [IOController.commit_self, USensorInfo.assign_eq]
    exact h.writable
  · rw [IOController.commit_self, hvalue, USensorInfo.assign_eq]

/-- Setting any sensor leaves the plain ones plain, with their values or with the one that is set. -/
theorem setValue_plain (sid : ObjectId) (value : Int) (sup_id : ObjectId) (hy : Plain ic io y) :
    Plain ic (ic.setValue io sid value sup_id).1 y ∧
      (y ≠ sid → (ic.setValue io sid value sup_id).1 y = io y) ∧
      ((ic.setValue io sid value sup_id).2.isOk = true → y = sid →
        ((ic.setValue io sid value sup_id).1 y).value = value) ∧
      ((ic.setValue io sid value sup_id).2.isOk = false →
        (ic.setValue io sid value sup_id).1 = io) := by
  unfold IOController.setValue
  split_ifs with hknown
  · by_cases ha : ic.conf.Accepts (io sid) (ic.supplierOf sup_id)
    · rw [ControllerConf.localSetValue_accepts ha value]
      change Plain ic (ic.commit io sid ((io sid).assign value (ic.supplierOf sup_id))) y ∧ _
      by_cases hne : y = sid
      · subst hne
        exact ⟨(hy.assign value _).1, fun h => absurd rfl h, fun _ _ => (hy.assign value _).2, nofun⟩
      · have hsame := commit_other hy hne ((io sid).assign value (ic.supplierOf sup_id))
        exact ⟨hy.of_eq hsame, fun _ => hsame, fun _ heq => absurd heq hne, nofun⟩
    · obtain ⟨e, he⟩ := ControllerConf.localSetValue_refuses ha value
      rw [he]
      exact ⟨hy, fun _ => rfl, nofun, fun _ => rfl⟩
  · exact ⟨hy, fun _ => rfl, nofun, fun _ => rfl⟩

/-- The controller itself may set a plain sensor. -/
theorem setValue_own (value : Int) (h : Plain ic io sid) :
    (ic.setValue io sid value ic.conf.id).2.isOk = true := by
  have hown : ic.supplierOf ic.conf.id = ic.conf.id := by
    unfold IOController.supplierOf
    split_ifs with hid <;> rfl
  have ha : ic.conf.Accepts (io sid) ic.conf.id := ⟨.inl rfl, h.writable⟩
  unfold IOController.setValue
  rw [if_pos h.known, hown, ControllerConf.localSetValue_accepts ha value]
  rfl

theorem getValue_own (h : Plain ic io sid) :
    ic.getValue io sid ic.conf.id = .ok (io sid).value := by
  unfold IOController.getValue IONotifyController.localGetValue
  rw [if_pos h.known, if_neg (by simp), if_neg (by simp [h.open'.2.2])]

/-! A counter of a process, and its alive sensor. -/

def counterInfo : HeartBeatInfo := ⟨5, 6, 1000, false, ⟨WaitUpTime, 0⟩⟩

def counterConf : List SensorConf :=
  [⟨5, .AI, 0, false, none, none, none, none⟩, ⟨6, .DI, 0, false, none, none, none, none⟩]

theorem dependOf_counter (c : ObjectId) : dependOf counterConf c = none := by
  have hdepend : (readList counterConf c).depend_sid = DefaultObjectId := by
    unfold readList
    cases hfind : counterConf.find? fun it => it.id = c with
    | none => rfl
    | some it =>
      have hmem := List.mem_of_find?_eq_some hfind
      simp only [counterConf, List.mem_cons, List.not_mem_nil, or_false] at hmem
      rcases hmem with rfl | rfl <;> rfl
  unfold dependOf
  rw [if_neg]
  rw [hdepend]
  exact fun h => h.1 rfl

theorem counter_acyclic : DependsAcyclic counterConf :=
  Forest.acyclic_of_rank (fun _ => 0) fun c _ p hp => by
    rw [dependOf_counter c] at hp
    cases hp

def counterController : IOController := .read (.unrestricted 1) counterConf counter_acyclic

theorem plain_counter (hsid : sid = 5 ∨ sid = 6) :
    Plain counterController (readList counterConf) sid := by
  refine ⟨?_, ?_, ?_, ?_, fun p hp => ?_⟩
  · rcases hsid with rfl | rfl <;> decide
  · rcases hsid with rfl | rfl <;> exact ⟨rfl, rfl, rfl⟩
  · rcases hsid with rfl | rfl <;> rfl
  · rcases hsid with rfl | rfl <;> rfl
  · cases (dependOf_counter sid).symm.trans (Forest.mem_childrenOf.mp hp).2

end Uniset.SharedMemory
