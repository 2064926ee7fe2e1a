import Uniset.Processes.WriteAccess

/-! Which requests tell nothing of a sensor to a process that may not read it.  With the requests
that set sensors: what is checked of both, after the activation and any requests. -/

namespace Uniset.Processes

open Uniset.Lib

inductive ReadKind
  | getValue
  | getSensorSeq
  | getSensorsMap
  | getSensors
  | getThresholds
  | request_get
  | request_sensors

namespace ReadRequest

def kind : ReadRequest → ReadKind
  | .getValue _ => .getValue
  | .getSensorSeq _ => .getSensorSeq
  | .getSensorsMap => .getSensorsMap
  | .getSensors => .getSensors
  | .getThresholds _ => .getThresholds
  | .request_get _ => .request_get
  | .request_sensors _ => .request_sensors

def SentBy (s : ObjectId) : ReadRequest → Prop
  | .request_get p => (IOController.getParams p).sup_id = s
  | _ => True

end ReadRequest

namespace IOController

/-- The answers to requests of the kind from `s` do not depend on the record of the sensor. -/
def KeepsSecret (ic : IOController) (http : HttpConf) (st : ControllerState) (sid s : ObjectId)
    (kind : ReadKind) : Prop :=
  ∀ r : ReadRequest, r.kind = kind → r.SentBy s → ∀ usi, SameRights (st.io sid) usi →
    ic.handleRead http { st with io := Function.update st.io sid usi } s r =
      ic.handleRead http st s r

def OpenedToRead (ic : IOController) (usi : USensorInfo) (s : ObjectId) : Prop :=
  ic.DeniesByDefault usi s ∧ ic.conf.defaultAccessMask.canRead = true

/-- Where requests of the kind are checked, for a sensor that `s` may not read. -/
def CheckedRead (ic : IOController) (http : HttpConf) (usi : USensorInfo) (s : ObjectId) :
    ReadKind → Prop
  | .getValue | .getThresholds => ¬ic.OpenedToRead usi s
  | .getSensorSeq | .getSensorsMap | .getSensors | .request_sensors => False
  | .request_get =>
    if s = DefaultObjectId then http.disableHttpAccessControl = false
    else ¬ic.OpenedToRead usi s

variable {ic ic' : IOController} {io : IOStateList} {sid s : ObjectId} {usi : USensorInfo}
  {http : HttpConf}

theorem Outsider.canRead_iff (h : Outsider ic usi sid s ic')
    (hdenied : (ic.maskOf usi s).canRead = false) {usi' : USensorInfo}
    (hrights : SameRights usi usi') :
    (ic'.maskOf usi' s).canRead = true ↔ ic.OpenedToRead usi s := by
  obtain ⟨used, hopened, hused⟩ := h.opened
  rw [ic'.maskOf_congr hrights.1 s]
  exact canRead_opened_iff hopened hused hdenied

theorem localGetValue_denied (hs : s ≠ ic.conf.id) (hmask : (ic.maskOf usi s).canRead = false) :
    IONotifyController.localGetValue ic usi s =
      .error (.AccessDenied (ic.conf.myname ++ "(localGetValue): Access denied")) := by
  unfold IONotifyController.localGetValue
  unfold maskOf at hmask
  rw [if_pos ⟨hs, by rw [hmask]; rfl⟩]

theorem getSensorInfo_denied {st : ControllerState} (hs : s ≠ ic.conf.id)
    (hmask : (ic.maskOf (st.io sid) s).canRead = false) (shortInfo : Bool) :
    ic.getSensorInfo st sid s shortInfo = ([.empty], .error (ic.denied "getSensorInfo")) := by
  unfold getSensorInfo
  unfold maskOf at hmask
  simp only
  rw [if_pos ⟨hs, by rw [hmask]; rfl⟩]

theorem keepsSecret_of_checked (h : Outsider ic usi sid s ic')
    (hdenied : (ic.maskOf usi s).canRead = false) {st : ControllerState}
    (hrights : SameRights usi (st.io sid)) {kind : ReadKind}
    (hchecked : ic.CheckedRead http usi s kind) : ic'.KeepsSecret http st sid s kind := by
  intro r hkind hsent usi' hsameRights
  let st' : ControllerState := { st with io := Function.update st.io sid usi' }
  change ic'.handleRead http st' s r = ic'.handleRead http st s r
  have hrights' : SameRights usi (st'.io sid) := by
    rw [show st'.io sid = usi' from Function.update_self ..]
    exact ⟨hsameRights.1.trans hrights.1, hsameRights.2.trans hrights.2⟩
  have hsame (y : ObjectId) (hy : y ≠ sid) : st'.io y = st.io y := Function.update_of_ne hy ..
  have hmask (hclosed : ¬ic.OpenedToRead usi s) {usi' : USensorInfo}
      (hrights : SameRights usi usi') : (ic'.maskOf usi' s).canRead = false := by
    rw [Bool.eq_false_iff, Ne, h.canRead_iff hdenied hrights]
    exact hclosed
  have hgetDenied (hclosed : ¬ic.OpenedToRead usi s) {usi' : USensorInfo}
      (hrights : SameRights usi usi') := localGetValue_denied h.other' (hmask hclosed hrights)
  have hget (hclosed : ¬ic.OpenedToRead usi s) (q : ObjectId) :
      IONotifyController.localGetValue ic' (st'.io q) s =
        IONotifyController.localGetValue ic' (st.io q) s := by
    by_cases hq : q = sid
    · subst hq
      rw [hgetDenied hclosed hrights', hgetDenied hclosed hrights]
    · rw [hsame q hq]
  cases r with
  | getValue q =>
    cases hkind
    simp only [handleRead, getValue, hget hchecked q]
  | getThresholds q =>
    cases hkind
    simp only [handleRead, getThresholds, hget hchecked q]
    by_cases hq : q = sid
    · rw [hq, hgetDenied hchecked hrights]
      rfl
    · rw [hsame q hq]
  | request_get p =>
    cases hkind
    change if s = DefaultObjectId then _ else _ at hchecked
    simp only [handleRead, request_get]
    cases hsupplier : ic'.requestSupplier http "request_get"
        "'get' requires 'supplier' parameter. Example: /get?supplier=Name&..."
        (getParams p).sup_id with
    | error e => rfl
    | ok sup_id =>
      have hentries : ic'.getEntries st' sup_id (getParams p).shortInfo =
          ic'.getEntries st sup_id (getParams p).shortInfo := by
        rcases requestSupplier_ok hsupplier with ⟨hdefault, hdisable, -⟩ | ⟨hgiven, rfl⟩
        · rw [hsent] at hdefault
          rw [if_pos hdefault, hdisable] at hchecked
          cases hchecked
        · rw [hsent] at hgiven ⊢
          rw [if_neg hgiven] at hchecked
          funext q
          have hinfo : ic'.getSensorInfo st' q.1 s (getParams p).shortInfo =
              ic'.getSensorInfo st q.1 s (getParams p).shortInfo := by
            by_cases hq : q.1 = sid
            · rw [hq, getSensorInfo_denied h.other' (hmask hchecked hrights'),
                getSensorInfo_denied h.other' (hmask hchecked hrights)]
            · unfold getSensorInfo
              rw [hsame q.1 hq]
          unfold getEntries
          rw [hinfo]
      simp only [Bind.bind, Except.bind, hentries]
  | getSensorSeq _ | getSensorsMap | getSensors | request_sensors _ =>
    cases hkind
    exact hchecked.elim

/-- To one that may read, the value is told also where it is undefined. -/
theorem localGetValue_allowed (hmask : (ic.maskOf usi s).canRead = true) :
    IONotifyController.localGetValue ic usi s =
      if usi.undefined then .error (.Undefined usi.value) else .ok usi.value := by
  unfold IONotifyController.localGetValue
  unfold maskOf at hmask
  rw [if_neg (by rw [hmask]; simp)]

theorem localGetValue_differs (hmask : (ic.maskOf usi s).canRead = true) {usi' : USensorInfo}
    (hmask' : (ic.maskOf usi' s).canRead = true) (hvalue : usi'.value ≠ usi.value) :
    IONotifyController.localGetValue ic usi' s ≠ IONotifyController.localGetValue ic usi s := by
  rw [localGetValue_allowed hmask, localGetValue_allowed hmask']
  split_ifs <;> simp [hvalue]

theorem getSensorInfo_allowed {st : ControllerState}
    (hmask : s = ic.conf.id ∨ (ic.maskOf (st.io sid) s).canRead = true) (shortInfo : Bool) :
    ∃ details, ic.getSensorInfo st sid s shortInfo =
      ([.sensor (st.io sid).value (st.io sid).real_value (st.io sid).id (st.io sid).supplier
        details], .ok ()) := by
  unfold getSensorInfo
  unfold maskOf at hmask
  rw [if_neg]
  · exact ⟨_, rfl⟩
  · rintro ⟨hs, hdenied⟩
    rw [hmask.resolve_left hs] at hdenied
    cases hdenied

theorem getEntries_allowed {st : ControllerState} (hfound : sid ∈ ic.slots.nodes)
    (hmask : s = ic.conf.id ∨ (ic.maskOf (st.io sid) s).canRead = true) (shortInfo : Bool)
    (name : String) :
    ∃ details, ic.getEntries st s shortInfo (sid, name) =
      [.sensor (st.io sid).value (st.io sid).real_value (st.io sid).id (st.io sid).supplier
        details] := by
  obtain ⟨details, hinfo⟩ := getSensorInfo_allowed hmask shortInfo
  unfold getEntries
  rw [if_pos hfound, hinfo]
  exact ⟨details, rfl⟩

/-- A parameter that asks for the sensor. -/
def filterParam (sid : ObjectId) : HttpParam :=
  ⟨"filter", "id", (DefaultObjectId, ""), [], [(sid, "")], 0, DefaultObjectId, none, fun _ => false⟩

/-- Where `get` is not checked, it goes on with a consumer that may read. -/
theorem Outsider.exists_consumer (h : Outsider ic usi sid s ic')
    (hdenied : (ic.maskOf usi s).canRead = false)
    (hopen : ¬if s = DefaultObjectId then http.disableHttpAccessControl = false
      else ¬ic.OpenedToRead usi s) (request command : String) :
    ∃ sup_id, ic'.requestSupplier http request command s = .ok sup_id ∧
      ∀ usi', SameRights usi usi' →
        sup_id = ic'.conf.id ∨ (ic'.maskOf usi' sup_id).canRead = true := by
  unfold requestSupplier
  split_ifs at hopen ⊢ with hdefault hdisable
  · exact ⟨ic'.conf.id, rfl, fun _ _ => .inl rfl⟩
  · exact absurd (by simpa using hdisable) hopen
  · exact ⟨s, rfl, fun _ hrights => .inr ((h.canRead_iff hdenied hrights).mpr (not_not.mp hopen))⟩

theorem request_get_filter {st : ControllerState} {sup_id : ObjectId}
    (hfound : sid ∈ ic.slots.nodes)
    (hsup : ic.requestSupplier http "request_get"
      "'get' requires 'supplier' parameter. Example: /get?supplier=Name&..." s = .ok sup_id)
    (hmask : sup_id = ic.conf.id ∨ (ic.maskOf (st.io sid) sup_id).canRead = true) :
    ∃ details, ic.request_get http st [supplierParam s, filterParam sid] =
      .ok [.sensor (st.io sid).value (st.io sid).real_value (st.io sid).id (st.io sid).supplier
        details] := by
  have hparams : getParams [supplierParam s, filterParam sid] = ⟨s, "id", [(sid, "")], false⟩ :=
    rfl
  obtain ⟨details, hentries⟩ := getEntries_allowed hfound hmask false ""
  refine ⟨details, ?_⟩
  unfold request_get
  rw [if_neg (by simp), hparams]
  simp only [hsup, Bind.bind, Except.bind]
  rw [if_neg (by simp), List.flatMap_singleton, hentries]
  rfl

/-- Without parameters `sensors` shows them all. -/
theorem request_sensors_all (ic : IOController) (st : ControllerState) :
    ∃ details : ObjectId → Option SensorDetails,
      (ic.request_sensors st []).1 = ic.slots.nodes.map fun sid =>
        .sensor (st.io sid).value (st.io sid).real_value (st.io sid).id (st.io sid).supplier
          (details sid) := by
  have hall (q : ObjectId) := @getSensorInfo_allowed ic q ic.conf.id st (.inl rfl) false
  choose details hinfo using hall
  have hpage : (ic.request_sensors st []).1 =
      ic.slots.nodes.flatMap fun sid => (ic.getSensorInfo st sid ic.conf.id false).1 := by
    have hselects : (fun sid => (sensorsParams []).selects (st.io sid)) = fun _ => true := by
      funext q
      rfl
    unfold request_sensors
    simp only [hselects, List.filter_true]
    rfl
  refine ⟨details, hpage.trans ?_⟩
  simp only [hinfo]
  exact List.map_eq_flatMap.symm

theorem checkedRead_of_keepsSecret (h : Outsider ic usi sid s ic')
    (hdenied : (ic.maskOf usi s).canRead = false) {st : ControllerState}
    (hrights : SameRights usi (st.io sid)) {kind : ReadKind}
    (hkeeps : ic'.KeepsSecret http st sid s kind) : ic.CheckedRead http usi s kind := by
  -- the same state with another value of the sensor
  let usi' : USensorInfo := { st.io sid with value := (st.io sid).value + 1 }
  let st' : ControllerState := { st with io := Function.update st.io sid usi' }
  have hst' : st'.io sid = usi' := Function.update_self ..
  have hrights' : SameRights usi (st'.io sid) := by
    rw [hst']
    exact hrights
  have hvalue : (st'.io sid).value ≠ (st.io sid).value := by
    have hnew : (st'.io sid).value = (st.io sid).value + 1 := by rw [hst']
    omega
  have hreply (r : ReadRequest) (hkind : r.kind = kind) (hsent : r.SentBy s) :
      ic'.handleRead http st' s r = ic'.handleRead http st s r :=
    hkeeps r hkind hsent usi' ⟨rfl, rfl⟩
  have hdiffers (hopen : ic.OpenedToRead usi s) :=
    localGetValue_differs ((h.canRead_iff hdenied hrights).mpr hopen)
      ((h.canRead_iff hdenied hrights').mpr hopen) hvalue
  cases kind with
  | getValue =>
    intro hopen
    apply hdiffers hopen
    simpa only [handleRead, getValue, if_pos h.found, ReadReply.getValue.injEq]
      using hreply (.getValue sid) rfl trivial
  | getThresholds =>
    intro hopen
    apply hdiffers hopen
    have hsame := hreply (.getThresholds sid) rfl trivial
    simp only [handleRead, getThresholds, if_pos h.found.2, ReadReply.getThresholds.injEq] at hsame
    cases hnew : IONotifyController.localGetValue ic' (st'.io sid) s with
    | error e =>
      cases hold : IONotifyController.localGetValue ic' (st.io sid) s with
      | error e' => simpa [hnew, hold, Bind.bind, Except.bind] using hsame
      | ok value => simp [hnew, hold, Bind.bind, Except.bind, pure, Except.pure] at hsame
    | ok value' =>
      cases hold : IONotifyController.localGetValue ic' (st.io sid) s with
      | error e => simp [hnew, hold, Bind.bind, Except.bind, pure, Except.pure] at hsame
      | ok value =>
        simp only [hnew, hold, Bind.bind, Except.bind, pure, Except.pure, Except.ok.injEq,
          ThresholdList.mk.injEq] at hsame
        exact congrArg Except.ok hsame.2.1
  | getSensorSeq =>
    have hsame := hreply (.getSensorSeq [sid]) rfl trivial
    simp only [handleRead, getSensorSeq, List.map_singleton, if_pos h.found.2,
      makeSensorIOInfo] at hsame
    apply hvalue
    simp at hsame
    exact hsame.2.1
  | getSensorsMap =>
    have hsame := hreply .getSensorsMap rfl trivial
    simp only [handleRead, getSensorsMap, ReadReply.getSensorsMap.injEq, List.map_inj_left] at hsame
    exact hvalue (congrArg SensorIOInfo.value (hsame sid h.found.2))
  | getSensors =>
    have hsame := hreply .getSensors rfl trivial
    simp only [handleRead, getSensors, ReadReply.getSensors.injEq, List.map_inj_left] at hsame
    exact hvalue (congrArg ShortMap.value (hsame sid h.found.2))
  | request_sensors =>
    have hsame := hreply (.request_sensors []) rfl trivial
    obtain ⟨details, hres⟩ := request_sensors_all ic' st
    obtain ⟨details', hres'⟩ := request_sensors_all ic' st'
    rw [handleRead, handleRead, ReadReply.request_sensors.injEq, Prod.ext_iff, hres, hres',
      List.map_inj_left] at hsame
    exact hvalue (JsonEntry.sensor.inj (hsame.1 sid h.found.2)).1
  | request_get =>
    by_contra hopen
    obtain ⟨sup_id, hsup, hmask⟩ := h.exists_consumer hdenied hopen "request_get"
      "'get' requires 'supplier' parameter. Example: /get?supplier=Name&..."
    have hsame := hreply (.request_get [supplierParam s, filterParam sid]) rfl rfl
    obtain ⟨details, hres⟩ := request_get_filter h.found.2 hsup (hmask _ hrights)
    obtain ⟨details', hres'⟩ := request_get_filter h.found.2 hsup (hmask _ hrights')
    rw [handleRead, handleRead, ReadReply.request_get.injEq, hres, hres'] at hsame
    simp at hsame
    exact hvalue hsame.1

/-! ## From the activation on -/

def handleWrites (ic : IOController) (http : HttpConf) (st : ControllerState)
    (requests : List (ObjectId × WriteRequest)) : ControllerState :=
  requests.foldl (fun st r => ic.handleWrite http st r.1 r.2) st

theorem sensorRuns_setOutputSeq (sup_id : ObjectId) (lst : List (ObjectId × Int))
    (io : IOStateList) : SensorRuns io (ic.setOutputSeq sup_id lst io).1 := by
  induction lst generalizing io with
  | nil => exact fun _ => Relation.ReflTransGen.refl
  | cons item lst ih =>
    obtain ⟨q, value⟩ := item
    have hitem : SensorRuns io
        (ic.conclude io q (ic.conf.localSetValue (io q) value (ic.supplierOf sup_id))).1 := by
      rw [conclude_fst (fun h => ControllerConf.localSetValue_accepts h value)
        (fun h => ControllerConf.localSetValue_refuses h value)]
      split_ifs with haccepts
      · apply sensorRuns_commit (.localSetValue value (ic.supplierOf sup_id))
        rw [ControllerConf.step_localSetValue, if_pos haccepts]
      · exact fun _ => Relation.ReflTransGen.refl
    unfold setOutputSeq
    split_ifs
    · cases hout : ic.conclude io q
          (ic.conf.localSetValue (io q) value (ic.supplierOf sup_id)) with
      | mk io' res =>
        rw [hout] at hitem
        cases res with
        | error e => exact hitem
        | ok _ => exact SensorRuns.trans hitem (ih io')
    · exact ih io

theorem sensorRuns_requestLoop {write : ObjectId → Int → IOStateList →
      IOStateList × Except Exception Int}
    (hwrite : ∀ q value io, SensorRuns io (write q value io).1) (p : List HttpParam)
    (io : IOStateList) : SensorRuns io (requestLoop http write p io).1 := by
  induction p generalizing io with
  | nil => exact fun _ => Relation.ReflTransGen.refl
  | cons p ps ih =>
    unfold requestLoop
    split_ifs
    · have hitem := hwrite p.parseSInfo.1 p.uni_atoi io
      cases hout : write p.parseSInfo.1 p.uni_atoi io with
      | mk io' res =>
        rw [hout] at hitem
        cases res with
        | ok _ => exact SensorRuns.trans hitem (ih io')
        | error e =>
          simp only
          split
          · exact SensorRuns.trans hitem (ih io')
          · exact SensorRuns.trans hitem (ih io')
          · exact hitem
    · exact ih io

theorem sensorRuns_requestWrite {req usage supplierUsage request : String} {disabled : Bool}
    {write : ObjectId → ObjectId → Int → IOStateList → IOStateList × Except Exception Int}
    (hwrite : ∀ sup_id q value io, SensorRuns io (write sup_id q value io).1) (p : List HttpParam)
    (io : IOStateList) :
    SensorRuns io (ic.requestWrite http req usage supplierUsage disabled write request p io).1 := by
  unfold requestWrite
  split_ifs
  · exact fun _ => Relation.ReflTransGen.refl
  · exact fun _ => Relation.ReflTransGen.refl
  · cases ic.requestSupplier http request supplierUsage (firstSupplier p).1 with
    | error e => exact fun _ => Relation.ReflTransGen.refl
    | ok sup_id => exact sensorRuns_requestLoop (hwrite sup_id) _ io

theorem sensorRuns_handleWrite (st : ControllerState) (sup_id : ObjectId) (r : WriteRequest) :
    SensorRuns st.io (ic.handleWrite http st sup_id r).io := by
  cases r with
  | setValue sid value => exact step_sensorRuns st.io (.setValue sid value sup_id)
  | setOutputSeq lst => exact sensorRuns_setOutputSeq sup_id lst st.io
  | freezeValue sid set value => exact step_sensorRuns st.io (.freezeValue sid set value sup_id)
  | setUndefinedState sid undefined =>
    exact step_sensorRuns st.io (.setUndefinedState sid undefined sup_id)
  | calibrate sid ci =>
    have hsame : (ic.calibrate st sid ci sup_id).1.io = st.io := by
      unfold calibrate
      split_ifs <;> rfl
    rw [handleWrite, hsame]
    exact fun _ => Relation.ReflTransGen.refl
  | request_set p =>
    exact sensorRuns_requestWrite
      (fun sup_id q value io => step_sensorRuns io (.setValue q value sup_id)) p st.io
  | request_freeze set p =>
    exact sensorRuns_requestWrite
      (fun sup_id q value io => step_sensorRuns io (.freezeValue q set value sup_id)) p st.io

theorem sensorRuns_handleWrites (st : ControllerState) (requests : List (ObjectId × WriteRequest)) :
    SensorRuns st.io (ic.handleWrites http st requests).io := by
  induction requests generalizing st with
  | nil => exact fun _ => Relation.ReflTransGen.refl
  | cons r requests ih => exact SensorRuns.trans (sensorRuns_handleWrite st r.1 r.2) (ih _)

theorem outsider_of_activateInit {io₀ io₁ : IOStateList}
    (hinit : ic.activateInit io₀ = .ok (ic', io₁))
    (hfound : sid ≠ DefaultObjectId ∧ sid ∈ ic.slots.nodes) (hother : s ≠ ic.conf.id) :
    Outsider ic (io₀ sid) sid s ic' ∧ SensorRuns io₀ io₁ := by
  obtain ⟨used, hopened, hruns, -, hused⟩ := foldlM_opened (Opened.refl ic) hinit
  have hfound' : sid ≠ DefaultObjectId ∧ sid ∈ ic'.slots.nodes := by
    rw [hopened.slots]
    exact hfound
  exact ⟨⟨⟨used, hopened, hused sid hfound.2⟩, hfound', hother⟩, hruns⟩

/-- Whatever the access lists, after every activation and any requests: a process that may not
set a sensor as configured is kept from it by the requests that are checked, and by no others,
and so for one that may not read it. -/
theorem access_controlled {io₀ io₁ : IOStateList} (hinit : ic.activateInit io₀ = .ok (ic', io₁))
    (hfound : sid ≠ DefaultObjectId ∧ sid ∈ ic.slots.nodes) (hother : s ≠ ic.conf.id)
    (http : HttpConf) (ci : ObjectId → CalibrateInfo) (requests : List (ObjectId × WriteRequest)) :
    ((ic.maskOf (io₀ sid) s).canWrite = false → ∀ kind,
      ic'.KeepsOut http (ic'.handleWrites http ⟨io₁, ci⟩ requests) sid s kind ↔
        ic.Checked http (io₀ sid) s kind) ∧
    ((ic.maskOf (io₀ sid) s).canRead = false → ∀ kind,
      ic'.KeepsSecret http (ic'.handleWrites http ⟨io₁, ci⟩ requests) sid s kind ↔
        ic.CheckedRead http (io₀ sid) s kind) := by
  obtain ⟨houtsider, hruns⟩ := outsider_of_activateInit hinit hfound hother
  have hrights : SameRights (io₀ sid) ((ic'.handleWrites http ⟨io₁, ci⟩ requests).io sid) :=
    SensorRuns.sameRights (SensorRuns.trans hruns (sensorRuns_handleWrites ⟨io₁, ci⟩ requests)) sid
  constructor
  · intro hdenied kind
    exact ⟨checked_of_keepsOut houtsider hdenied hrights,
      keepsOut_of_checked houtsider hdenied hrights⟩
  · intro hdenied kind
    exact ⟨checkedRead_of_keepsSecret houtsider hdenied hrights,
      keepsSecret_of_checked houtsider hdenied hrights⟩

/-- A lamp with an access list. -/
def lampOf (acl : String) : List SensorConf := [⟨2, .DI, 0, false, none, none, some acl, none⟩]

theorem lampOf_acyclic (acl : String) : DependsAcyclic (lampOf acl) := by
  refine Forest.acyclic_of_rank (fun _ => 0) fun c hc p hp => ?_
  cases List.mem_singleton.mp hc
  have hnone : dependOf (lampOf acl) 2 = none := rfl
  rw [hnone] at hp
  cases hp

/-- The first list is closed to those that it does not name, the second one to the process 6. -/
def lampConf : ControllerConf :=
  { ControllerConf.unrestricted 1 with
    acls := [("closed", ⟨AccessNone, []⟩), ("guarded", ⟨AccessRO, [(6, AccessNone)]⟩)] }

def lampHttp : HttpConf := ⟨false, false, false, fun _ => none⟩

def uncalibrated : ObjectId → CalibrateInfo := fun _ => ⟨0, 0, 0, 0, 0⟩

theorem access_controlled_guarded :
    ∃ ic io, (read lampConf (lampOf "guarded") (lampOf_acyclic "guarded")).activateInit
        (readList (lampOf "guarded")) = .ok (ic, io) ∧
      ic.KeepsOut lampHttp (ic.handleWrites lampHttp ⟨io, uncalibrated⟩ [(6, .setValue 2 1)]) 2 6
        .setValue := by
  refine ⟨_, _, rfl, ?_⟩
  have hcontrolled :=
    @access_controlled (read lampConf (lampOf "guarded") (lampOf_acyclic "guarded")) _ 2 6
      (readList (lampOf "guarded")) _ rfl (by decide) (by decide) lampHttp uncalibrated
      [(6, .setValue 2 1)]
  refine (hcontrolled.1 (by decide) .setValue).mpr (.inr ⟨by decide, ?_⟩)
  rintro ⟨⟨name, a, hname, hlist, hentry, -⟩, -⟩
  cases hname
  cases hlist
  revert hentry
  decide

/-- The activation opens the closed list, the undefined state is set by anyone, and the map is
given to anyone. -/
theorem access_not_controlled :
    ∃ ic io, (read lampConf (lampOf "closed") (lampOf_acyclic "closed")).activateInit
        (readList (lampOf "closed")) = .ok (ic, io) ∧
      (read lampConf (lampOf "closed") (lampOf_acyclic "closed")).maskOf
        (readList (lampOf "closed") 2) 6 = AccessNone ∧
      ¬ic.KeepsOut lampHttp ⟨io, uncalibrated⟩ 2 6 .setValue ∧
      ¬ic.KeepsOut lampHttp ⟨io, uncalibrated⟩ 2 6 .setUndefinedState ∧
      ¬ic.KeepsSecret lampHttp ⟨io, uncalibrated⟩ 2 6 .getSensorsMap := by
  refine ⟨_, _, rfl, by decide, fun hkeeps => ?_, fun hkeeps => ?_, fun hkeeps => ?_⟩
  · have hio := (hkeeps (.setValue 2 1) rfl trivial (by simp [WriteRequest.sids])).1
    exact absurd (congrArg USensorInfo.value hio) (by decide)
  · have hio :=
      (hkeeps (.setUndefinedState 2 true) rfl trivial (by simp [WriteRequest.sids])).1
    exact absurd (congrArg USensorInfo.undefined hio) (by decide)
  · have hreply := hkeeps .getSensorsMap rfl trivial
      { readList (lampOf "closed") 2 with value := 1 } ⟨rfl, rfl⟩
    have hvalues := congrArg (List.map SensorIOInfo.value) (ReadReply.getSensorsMap.inj hreply)
    exact absurd hvalues (by decide)

end IOController

end Uniset.Processes
