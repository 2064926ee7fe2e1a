import Uniset.Processes.CascadeLaws
import Uniset.Processes.Requests

/-! The start of the shared memory with the values of a reserve. -/

namespace Uniset.SharedMemory.Reserv

open Uniset.Lib Uniset.Processes Uniset.Processes.Cascade

/-- An item of the list of reserves, with what its controller answers: nothing where the request
ends in an exception. -/
structure ReservItem where
  name : String
  node : String
  received : Option (List SensorIOInfo)

/-- What the names of an item are looked up in. -/
structure ReservConf where
  getControllerID : String → ObjectId
  getNodeID : String → ObjectId
  localNode : ObjectId

structure State where
  io : IOStateList
  activated : Bool
  terminated : Bool

variable (ic : IOController) (conf : ReservConf) (fuel : Nat)

/-- The loop over the entries.  It catches two of the exceptions of `setValue`. -/
def initSensors : List SensorIOInfo → IOStateList → Option (IOStateList × Except Exception Unit)
  | [], io => some (io, .ok ())
  | ii :: amap, io =>
    match setValue ic fuel ii.id ii.value ic.conf.id io with
    | none => none
    | some (io, .ok _) => initSensors amap io
    | some (io, .error (.NameNotFound _)) => initSensors amap io
    | some (io, .error (.AccessDenied _)) => initSensors amap io
    | some (io, .error e) => some (io, .error e)

/-- Whether the state of the reserve was got. -/
def initFromSM (received : Option (List SensorIOInfo)) (io : IOStateList) :
    Option (IOStateList × Except Exception Bool) :=
  match received with
  | none => some (io, .ok false)
  | some amap => (initSensors ic fuel amap io).map fun (io, res) => (io, res.map fun _ => true)

/-- An item without a name is about the controllers of this name. -/
def smId (it : ReservItem) : ObjectId :=
  if it.name ≠ "" then conf.getControllerID it.name else ic.conf.id

def smNode (it : ReservItem) : ObjectId :=
  if it.node ≠ "" then conf.getNodeID it.node else conf.localNode

/-- The items in turn, until one of them gives its state.  A name that is not known ends the
process, and the controller does not take its own state. -/
def initFromReserv : List ReservItem → State → Option (State × Except Exception Unit)
  | [], st => some (st, .ok ())
  | it :: its, st =>
    if smId ic conf it = DefaultObjectId ∨ smNode conf it = DefaultObjectId then
      some ({ st with terminated := true }, .ok ())
    else if smId ic conf it = ic.conf.id ∧ smNode conf it = conf.localNode then
      initFromReserv its st
    else
      match initFromSM ic fuel it.received st.io with
      | none => none
      | some (io, .error e) => some ({ st with io }, .error e)
      | some (io, .ok true) => some ({ st with io }, .ok ())
      | some (io, .ok false) => initFromReserv its { st with io }

/-- `res` is what the activation of the base has returned, with the records `io`. -/
def activateObject (its : List ReservItem) (io : IOStateList) (res : Bool) :
    Option (State × Except Exception Bool) :=
  match initFromReserv ic conf fuel its ⟨io, false, false⟩ with
  | none => none
  | some (st, .error e) => some (st, .error e)
  | some (st, .ok ()) => some ({ st with activated := true }, .ok res)

/-- The value that the last entry for the sensor gives. -/
def lastGiven (sid : ObjectId) : List SensorIOInfo → Option Int
  | [] => none
  | ii :: amap => (lastGiven sid amap).or (if ii.id = sid then some ii.value else none)

/-- A sensor that the controller finds. -/
def Known (sid : ObjectId) : Prop := sid ≠ DefaultObjectId ∧ sid ∈ ic.slots.nodes

instance (sid : ObjectId) : Decidable (Known ic sid) := inferInstanceAs (Decidable (_ ∧ _))

/-- No entry is about a readonly sensor of the controller. -/
def Writable (io : IOStateList) (amap : List SensorIOInfo) : Prop :=
  ∀ ii ∈ amap, Known ic ii.id → (io ii.id).readonly = false

/-! ## The records before -/

/-- The records as the configuration has them. -/
def configured (its : List SensorConf) (ti : ObjectId → List ThresholdConf) : IOStateList :=
  fun sid => init_thresholds (readList its sid) (ti sid)

/-- A record goes through operations on it, under whatever rights, and through changes of its
thresholds. -/
def RecordRun : USensorInfo → USensorInfo → Prop :=
  Relation.ReflTransGen fun usi usi' =>
    (∃ (conf : ControllerConf) (op : SensorOp), usi' = conf.step usi op) ∨
      ∃ thresholds, usi' = { usi with thresholds }

theorem recordRun_of_sensorRun {usi usi' : USensorInfo} (h : SensorRun usi usi') :
    RecordRun usi usi' :=
  Relation.ReflTransGen.mono (fun _ _ hstep => .inl hstep) _ _ h

theorem RecordRun.plain {usi usi' : USensorInfo} (h : RecordRun usi usi') (hplain : usi.Plain) :
    usi'.Plain := by
  induction h with
  | refl => exact hplain
  | tail _ hstep ih =>
    rcases hstep with ⟨conf, op, rfl⟩ | ⟨thresholds, rfl⟩
    · exact ControllerConf.step_plain op ih
    · exact ih

theorem plain_configured (its : List SensorConf) (ti : ObjectId → List ThresholdConf)
    (sid : ObjectId) : (configured its ti sid).Plain := by
  intro hfrozen _
  have hnone : ∀ it : SensorConf, (getSensorInfo it).frozen = false →
      (getSensorInfo it).value = (getSensorInfo it).real_value := by
    intro it h
    have : it.frozen_value = none := by simpa [getSensorInfo] using h
    simp [getSensorInfo, this]
  exact .inl (hnone _ hfrozen)

/-! ## The entries -/

variable {ic conf fuel} {io io' io'' : IOStateList} {amap : List SensorIOInfo}

theorem exists_of_lastGiven {sid : ObjectId} {v : Int} (h : lastGiven sid amap = some v) :
    ∃ ii ∈ amap, ii.id = sid := by
  induction amap with
  | nil => cases h
  | cons ii amap ih =>
    by_cases hid : ii.id = sid
    · exact ⟨ii, List.mem_cons_self, hid⟩
    · have hrest : lastGiven sid amap = some v := by simpa [lastGiven, hid] using h
      obtain ⟨jj, hjj, hsid⟩ := ih hrest
      exact ⟨jj, List.mem_cons_of_mem _ hjj, hsid⟩

/-- What the entries have done to the records.  The sensors that show thresholds are set by what
they show. -/
structure Applied (ic : IOController) (amap : List SensorIOInfo) (io io' : IOStateList) : Prop where
  plain : ∀ y, (io' y).Plain
  kept : ∀ y, Kept (io y) (io' y)
  real_value : ∀ {sid : ObjectId}, Known ic sid → ¬Shows ic io sid →
    (io' sid).real_value = (lastGiven sid amap).getD (io sid).real_value
  recomputed : ∀ {sid : ObjectId}, Known ic sid → (io sid).readonly = false →
    (lastGiven sid amap).isSome = true ∨ (io sid).Recomputed → (io' sid).Recomputed

theorem Applied.nil (hplain : ∀ y, (io y).Plain) : Applied ic [] io io :=
  ⟨hplain, fun y => .refl (io y), fun _ _ => rfl, fun _ _ h => h.resolve_left (by simp [lastGiven])⟩

/-- The first entry, then the others. -/
theorem Applied.cons {ii : SensorIOInfo} (h : Applied ic [ii] io io')
    (h' : Applied ic amap io' io'') : Applied ic (ii :: amap) io io'' where
  plain := h'.plain
  kept y := (h.kept y).trans (h'.kept y)
  real_value {sid} hknown hno := by
    rw [h'.real_value hknown fun hshows => hno ((Shows.iff_of_kept h.kept).mp hshows),
      h.real_value hknown hno]
    cases hlast : lastGiven sid amap <;> simp [lastGiven, hlast]
  recomputed {sid} hknown hw hgiven := by
    refine h'.recomputed hknown ((h.kept sid).readonly.trans hw) ?_
    cases hlast : lastGiven sid amap with
    | some v => exact .inl rfl
    | none =>
      refine .inr (h.recomputed hknown hw ?_)
      simpa [lastGiven, hlast] using hgiven

/-- An entry about a sensor that is not there does nothing. -/
theorem applied_unknown (hplain : ∀ y, (io y).Plain) {ii : SensorIOInfo} (hii : ¬Known ic ii.id) :
    Applied ic [ii] io io := by
  have hnone : ∀ {sid : ObjectId}, Known ic sid → lastGiven sid [ii] = none := by
    intro sid hknown
    have hne : ii.id ≠ sid := fun heq => hii (heq ▸ hknown)
    simp [lastGiven, hne]
  refine ⟨hplain, fun y => .refl (io y), fun hknown _ => ?_, fun hknown _ h => ?_⟩
  · rw [hnone hknown]
    rfl
  · exact h.resolve_left (by simp [hnone hknown])

/-- An entry about a sensor that takes the value. -/
theorem applied_known (hplain : ∀ y, (io y).Plain) {ii : SensorIOInfo}
    (h : Spreads ic (Function.update io ii.id ((io ii.id).assign ii.value ic.conf.id).1) io') :
    Applied ic [ii] io io' := by
  have hshown := (hplain ii.id).assign_value ii.value ic.conf.id
  have hkept := kept_update (kept_assign (io ii.id) ii.value ic.conf.id)
  refine ⟨h.plain, fun y => (hkept y).trans (h.kept y), fun {sid} _ hno => ?_,
    fun {sid} _ hw hgiven => h.recomputed sid ((hkept sid).readonly.trans hw) ?_⟩
  · rw [h.real_value sid fun hshows => hno ((Shows.iff_of_kept hkept).mp hshows)]
    by_cases hsid : sid = ii.id
    · subst hsid
      rw [Function.update_self, USensorInfo.assign_eq]
      simp [lastGiven]
    · rw [Function.update_of_ne hsid]
      simp [lastGiven, Ne.symm hsid]
  · by_cases hsid : sid = ii.id
    · subst hsid
      rw [Function.update_self]
      exact USensorInfo.recomputed_of_shown hshown
    · rw [Function.update_of_ne hsid]
      exact hgiven.resolve_left (by simp [lastGiven, Ne.symm hsid])

/-- `setValue` of one entry: it is applied, or its sensor is readonly. -/
theorem setValue_entry {ii : SensorIOInfo} {res : Except Exception Int}
    (hplain : ∀ y, (io y).Plain)
    (h : setValue ic fuel ii.id ii.value ic.conf.id io = some (io', res)) :
    (Known ic ii.id ∧ (io ii.id).readonly = true ∧ io' = io ∧
        ∃ err, res = .error (.IOBadParam err)) ∨
      ((Known ic ii.id → (io ii.id).readonly = false) ∧ Applied ic [ii] io io' ∧
        ((∃ v, res = .ok v) ∨ ∃ err, res = .error (.NameNotFound err))) := by
  unfold setValue setValueIt at h
  split_ifs at h with hknown
  · rw [supplierOf_own] at h
    rcases sets_localSetValue fuel hknown.2 hplain h with ⟨hro, hio, herr⟩ | ⟨hw, hok, hspreads⟩
    · exact .inl ⟨hknown, hro, hio, herr⟩
    · exact .inr ⟨fun _ => hw, applied_known hplain hspreads, .inl hok⟩
  · cases h
    exact .inr ⟨fun h => absurd h hknown, applied_unknown hplain hknown, .inr ⟨_, rfl⟩⟩

theorem Writable.of_kept (h : Writable ic io amap) (hkept : ∀ y, Kept (io y) (io' y)) :
    Writable ic io' amap := fun ii hii hknown => (hkept ii.id).readonly.trans (h ii hii hknown)

theorem initSensors_applied {res : Except Exception Unit} (hplain : ∀ y, (io y).Plain)
    (hw : Writable ic io amap) (h : initSensors ic fuel amap io = some (io', res)) :
    res = .ok () ∧ Applied ic amap io io' := by
  induction amap generalizing io with
  | nil =>
    cases h
    exact ⟨rfl, .nil hplain⟩
  | cons ii amap ih =>
    have hrest : ∀ {io₁}, Applied ic [ii] io io₁ → initSensors ic fuel amap io₁ = some (io', res) →
        res = .ok () ∧ Applied ic (ii :: amap) io io' := by
      intro io₁ happlied hrun
      have hw' : Writable ic io amap := fun jj hjj => hw jj (List.mem_cons_of_mem _ hjj)
      obtain ⟨hres, happlied'⟩ := ih happlied.plain (hw'.of_kept happlied.kept) hrun
      exact ⟨hres, happlied.cons happlied'⟩
    unfold initSensors at h
    cases hset : setValue ic fuel ii.id ii.value ic.conf.id io with
    | none =>
      rw [hset] at h
      cases h
    | some out =>
      obtain ⟨io₁, res₁⟩ := out
      rw [hset] at h
      rcases setValue_entry hplain hset with ⟨hknown, hro, -, -⟩ | ⟨-, happlied, hres⟩
      · exact absurd (hw ii List.mem_cons_self hknown) (by simp [hro])
      · rcases hres with ⟨v, rfl⟩ | ⟨err, rfl⟩
        · exact hrest happlied h
        · exact hrest happlied h

/-! ## The start -/

/-- No reserve answers with an entry about a readonly sensor of the controller. -/
def AllWritable (ic : IOController) (io : IOStateList) (its : List ReservItem) : Prop :=
  ∀ it ∈ its, ∀ amap, it.received = some amap → Writable ic io amap

theorem initFromSM_applied {res : Except Exception Bool} (hplain : ∀ y, (io y).Plain)
    (hw : Writable ic io amap) (h : initFromSM ic fuel (some amap) io = some (io', res)) :
    res = .ok true ∧ Applied ic amap io io' := by
  obtain ⟨⟨io₁, res₁⟩, hrun, hout⟩ := Option.map_eq_some_iff.mp h
  cases hout
  obtain ⟨rfl, happlied⟩ := initSensors_applied hplain hw hrun
  exact ⟨rfl, happlied⟩

theorem initFromReserv_ok {its : List ReservItem} {st st' : State} {res : Except Exception Unit}
    (hplain : ∀ y, (st.io y).Plain) (hw : AllWritable ic st.io its)
    (h : initFromReserv ic conf fuel its st = some (st', res)) : res = .ok () := by
  induction its generalizing st with
  | nil =>
    cases h
    rfl
  | cons it its ih =>
    have hw' : AllWritable ic st.io its := fun jt hjt => hw jt (List.mem_cons_of_mem _ hjt)
    unfold initFromReserv at h
    split_ifs at h
    · cases h
      rfl
    · exact ih hplain hw' h
    · cases hreceived : it.received with
      | none =>
        rw [hreceived] at h
        exact ih hplain hw' h
      | some amap =>
        rw [hreceived] at h
        cases hsm : initFromSM ic fuel (some amap) st.io with
        | none =>
          rw [hsm] at h
          cases h
        | some out =>
          obtain ⟨io₁, res₁⟩ := out
          rw [hsm] at h
          obtain ⟨rfl, -⟩ := initFromSM_applied hplain (hw it List.mem_cons_self amap hreceived) hsm
          cases h
          rfl

theorem activateObject_ok {its : List ReservItem} {base : Bool} {st : State}
    {res : Except Exception Bool} (hplain : ∀ y, (io y).Plain) (hw : AllWritable ic io its)
    (h : activateObject ic conf fuel its io base = some (st, res)) :
    res = .ok base ∧ st.activated = true := by
  unfold activateObject at h
  cases hreserv : initFromReserv ic conf fuel its ⟨io, false, false⟩ with
  | none =>
    rw [hreserv] at h
    cases h
  | some out =>
    obtain ⟨st₁, res₁⟩ := out
    rw [hreserv] at h
    cases initFromReserv_ok hplain hw hreserv
    cases h
    exact ⟨rfl, rfl⟩

variable {rank : ObjectId → Nat}

theorem initSensors_returns (amap : List SensorIOInfo)
    (hfuel : ∀ sid ∈ ic.slots.nodes, rank sid < fuel) (hplain : ∀ y, (io y).Plain)
    (hranked : Ranked ic io rank) :
    ∃ out, initSensors ic fuel amap io = some out := by
  induction amap generalizing io with
  | nil => exact ⟨_, rfl⟩
  | cons ii amap ih =>
    obtain ⟨⟨io₁, res⟩, hset⟩ :=
      setValueIt_returns (localSetValue_returns fuel) ii.value (hfuel ii.id) hplain hranked
    unfold initSensors
    rw [setValue, hset]
    rcases setValue_entry hplain hset with ⟨-, -, -, err, rfl⟩ | ⟨-, happlied, hres⟩
    · exact ⟨_, rfl⟩
    · have hrest := ih happlied.plain (hranked.of_kept happlied.kept)
      rcases hres with ⟨v, rfl⟩ | ⟨err, rfl⟩
      · exact hrest
      · exact hrest

theorem initFromReserv_returns (its : List ReservItem) {st : State}
    (hfuel : ∀ sid ∈ ic.slots.nodes, rank sid < fuel) (hplain : ∀ y, (st.io y).Plain)
    (hranked : Ranked ic st.io rank) : ∃ out, initFromReserv ic conf fuel its st = some out := by
  induction its generalizing st with
  | nil => exact ⟨_, rfl⟩
  | cons it its ih =>
    unfold initFromReserv
    split_ifs
    · exact ⟨_, rfl⟩
    · exact ih hplain hranked
    · cases hreceived : it.received with
      | none => exact ih hplain hranked
      | some amap =>
        obtain ⟨⟨io₁, res⟩, hrun⟩ := initSensors_returns amap hfuel hplain hranked
        simp only [initFromSM, hrun, Option.map_some]
        cases res with
        | error e => exact ⟨_, rfl⟩
        | ok _ => exact ⟨_, rfl⟩

theorem activateObject_returns (its : List ReservItem) (base : Bool)
    (hfuel : ∀ sid ∈ ic.slots.nodes, rank sid < fuel) (hplain : ∀ y, (io y).Plain)
    (hranked : Ranked ic io rank) : ∃ out, activateObject ic conf fuel its io base = some out := by
  have hst : ∀ y, ((⟨io, false, false⟩ : State).io y).Plain := hplain
  obtain ⟨⟨st, res⟩, hreserv⟩ := initFromReserv_returns its hfuel hst hranked
  unfold activateObject
  rw [hreserv]
  cases res with
  | error e => exact ⟨_, rfl⟩
  | ok _ => exact ⟨_, rfl⟩

/-- After a start with entries about writable sensors alone every sensor that nothing hides, and
that shows no threshold, has the value that the last entry for it gives, and the activation does
not fail. -/
theorem takes_over (its : List SensorConf) (ti : ObjectId → List ThresholdConf)
    (hrun : ∀ sid, RecordRun (configured its ti sid) (io sid)) :
    (∀ amap, Writable ic io amap → ∀ fuel io' res,
      initFromSM ic fuel (some amap) io = some (io', res) →
        res = .ok true ∧
          ∀ sid v, Known ic sid → lastGiven sid amap = some v → ¬Shows ic io sid →
            (io' sid).Open → (io' sid).value = v) ∧
      (∀ reserv, AllWritable ic io reserv → ∀ conf fuel base st res,
        activateObject ic conf fuel reserv io base = some (st, res) →
          res = .ok base ∧ st.activated = true) ∧
      ∀ rank, Ranked ic io rank → ∀ fuel, (∀ sid ∈ ic.slots.nodes, rank sid < fuel) →
        (∀ amap, ∃ out, initFromSM ic fuel (some amap) io = some out) ∧
          ∀ conf reserv base, ∃ out, activateObject ic conf fuel reserv io base = some out := by
  have hplain : ∀ y, (io y).Plain := fun y => (hrun y).plain (plain_configured its ti y)
  refine ⟨fun amap hw fuel io' res h => ?_,
    fun reserv hw conf fuel base st res h => activateObject_ok hplain hw h,
    fun rank hranked fuel hfuel => ⟨fun amap => ?_,
      fun conf reserv base => activateObject_returns reserv base hfuel hplain hranked⟩⟩
  · obtain ⟨hres, happlied⟩ := initFromSM_applied hplain hw h
    refine ⟨hres, fun sid v hknown hgiven hno hopen => ?_⟩
    obtain ⟨ii, hii, rfl⟩ := exists_of_lastGiven hgiven
    obtain ⟨hfrozen, hblocked, hundefined⟩ := hopen
    have hrecomputed := happlied.recomputed hknown (hw ii hii hknown) (.inl (by simp [hgiven]))
    calc
      (io' ii.id).value = (io' ii.id).real_value := by
        simpa [hblocked] using hrecomputed hfrozen hundefined
      _ = v := by rw [happlied.real_value hknown hno, hgiven, Option.getD_some]
  · obtain ⟨⟨io₁, res⟩, hrun'⟩ := initSensors_returns amap hfuel hplain hranked
    exact ⟨_, by rw [initFromSM, hrun', Option.map_some]⟩

/-! A sensor whose threshold is shown by another one, and one that is undefined. -/

def showConf : List SensorConf :=
  [⟨1, .AI, 0, false, none, none, none, none⟩, ⟨2, .DI, 0, false, none, none, none, none⟩,
    ⟨3, .AI, 0, false, none, none, none, none⟩]

def showThresholds (sid : ObjectId) : List ThresholdConf :=
  if sid = 1 then [⟨1, 40, 50, false, some 2⟩] else []

theorem dependOf_show (c : ObjectId) : dependOf showConf c = none := by
  have hdepend : (readList showConf c).depend_sid = DefaultObjectId := by
    unfold readList
    cases hfind : showConf.find? fun it => it.id = c with
    | none => rfl
    | some it =>
      have hmem := List.mem_of_find?_eq_some hfind
      simp only [showConf, List.mem_cons, List.not_mem_nil, or_false] at hmem
      rcases hmem with rfl | rfl | rfl <;> rfl
  unfold dependOf
  rw [if_neg]
  rw [hdepend]
  exact fun h => h.1 rfl

theorem show_acyclic : DependsAcyclic showConf :=
  Forest.acyclic_of_rank (fun _ => 0) fun c _ p hp => by
    rw [dependOf_show c] at hp
    cases hp

def showController : IOController := .read (.unrestricted 4) showConf show_acyclic

/-- The third sensor has been made undefined. -/
def showRecords : IOStateList :=
  showController.step (configured showConf showThresholds) (.setUndefinedState 3 true 4)

def entry (id : ObjectId) (value : Int) : SensorIOInfo :=
  ⟨id, value, false, false, false, value, .AI, ⟨0, 0, 0, 0, 0⟩, DefaultObjectId, DefaultObjectId⟩

def showMap : List SensorIOInfo := [entry 2 0, entry 1 100, entry 3 7]

/-- The second sensor shows the threshold of the first one, and the third one what it shows while
undefined. -/
theorem not_given :
    ∃ io', initFromSM showController 2 (some showMap) showRecords = some (io', .ok true) ∧
      (Known showController 2 ∧ (io' 2).readonly = false ∧ (io' 2).blocked = false ∧
        (io' 2).frozen = false ∧ lastGiven 2 showMap = some 0 ∧ (io' 2).value = 1) ∧
      (Known showController 3 ∧ (io' 3).readonly = false ∧ (io' 3).blocked = false ∧
        (io' 3).frozen = false ∧ lastGiven 3 showMap = some 7 ∧ (io' 3).value = 0) := by
  refine ⟨_, rfl, ?_, ?_⟩ <;> decide

theorem recordRun_show (sid : ObjectId) :
    RecordRun (configured showConf showThresholds sid) (showRecords sid) :=
  recordRun_of_sensorRun (IOController.step_sensorRuns _ _ sid)

theorem ranked_show : Ranked showController showRecords fun sid => if sid = 1 then 1 else 0 where
  child {p c} hc := by
    have hnone := (dependOf_show c).symm.trans (Forest.mem_childrenOf.mp hc).2
    cases hnone
  threshold {x y} hx hy _ := by
    have hall : ∀ x ∈ showController.slots.nodes,
        ∀ y ∈ (showRecords x).thresholds.map UThresholdInfo.sid, x = 1 ∧ y = 2 := by
      decide
    obtain ⟨rfl, rfl⟩ := hall x hx y hy
    decide

/-- The first sensor has the value that it is given, and the start does not fail. -/
theorem takes_over_show :
    (∃ io', initFromSM showController 2 (some showMap) showRecords = some (io', .ok true) ∧
      (io' 1).value = 100) ∧
      ∃ st, activateObject showController ⟨fun _ => 9, fun _ => 8, 7⟩ 2
        [⟨"SharedMemory2", "Node2", some showMap⟩] showRecords true = some (st, .ok true) ∧
          st.activated = true := by
  have hw : Writable showController showRecords showMap := by
    unfold Writable
    decide
  have hall : AllWritable showController showRecords
      [⟨"SharedMemory2", "Node2", some showMap⟩] := by
    intro it hit amap hamap
    cases List.mem_singleton.mp hit
    cases hamap
    exact hw
  have hno : ¬Shows showController showRecords 1 := by
    unfold Shows
    decide
  obtain ⟨hgiven, hactivate, hreturns⟩ :=
    @takes_over showController showRecords showConf showThresholds recordRun_show
  refine ⟨⟨_, rfl, ?_⟩, ?_⟩
  · exact (hgiven showMap hw 2 _ _ rfl).2 1 100 (by decide) (by decide) hno ⟨rfl, rfl, rfl⟩
  · obtain ⟨⟨st, res⟩, hrun⟩ := (hreturns _ ranked_show 2 (by decide)).2
      ⟨fun _ => 9, fun _ => 8, 7⟩ [⟨"SharedMemory2", "Node2", some showMap⟩] true
    obtain ⟨rfl, hactivated⟩ := hactivate _ hall _ _ _ _ _ hrun
    exact ⟨st, hrun, hactivated⟩

end Uniset.SharedMemory.Reserv
