import Uniset.Processes.Requests
import Uniset.Processes.Rights

/-! Which requests leave a sensor as it is when they come from a process that may not set it. -/

namespace Uniset.Processes

open Uniset.Lib

namespace IOController

variable {ic ic' : IOController} {io io' : IOStateList} {sid s : ObjectId}

/-- Whom the activated controller lets set a sensor. -/
theorem accepts_iff {usi : USensorInfo} (hs : s ≠ ic.conf.id) :
    ic.conf.Accepts usi (ic.supplierOf s) ↔
      (s = DefaultObjectId ∨ (ic.maskOf usi s).canWrite = true) ∧ usi.readonly = false := by
  unfold ControllerConf.Accepts supplierOf maskOf
  by_cases hdefault : s = DefaultObjectId
  · simp [hdefault]
  · simp [hdefault, hs]

/-- An item for `q` that the controller refuses when `q` is the sensor, and that does not reach the
sensor from above. -/
def Misses (ic : IOController) (usi : USensorInfo) (sid s q : ObjectId) : Prop :=
  if q = sid then ¬ic.conf.Accepts usi (ic.supplierOf s) else ¬ic.slots.Within q sid

theorem commit_of_accepted {q : ObjectId} (hmisses : ic.Misses (io sid) sid s q)
    (haccepts : ic.conf.Accepts (io q) (ic.supplierOf s)) (out : USensorInfo × Bool) :
    ic.commit io q out sid = io sid := by
  unfold Misses at hmisses
  split_ifs at hmisses with hq
  · subst hq
    exact absurd haccepts hmisses
  · exact commit_frame hmisses out

theorem conclude_misses {q : ObjectId} (hmisses : ic.Misses (io sid) sid s q) (value : Int) :
    (ic.conclude io q (ic.conf.localSetValue (io q) value (ic.supplierOf s))).1 sid = io sid := by
  rw [conclude_fst (fun h => ControllerConf.localSetValue_accepts h value)
    (fun h => ControllerConf.localSetValue_refuses h value)]
  split_ifs with haccepts
  · exact commit_of_accepted hmisses haccepts _
  · rfl

theorem setValue_misses {q : ObjectId} (hmisses : ic.Misses (io sid) sid s q) (value : Int) :
    (ic.setValue io q value s).1 sid = io sid := by
  unfold setValue
  split_ifs
  · exact conclude_misses hmisses value
  · rfl

theorem freezeValue_misses {q : ObjectId} (hmisses : ic.Misses (io sid) sid s q) (set : Bool)
    (value : Int) : (ic.freezeValue io q set value s).1 sid = io sid := by
  unfold freezeValue
  split_ifs
  · rw [conclude_fst (fun h => ControllerConf.localFreezeValue_accepts h set value)
      (fun h => ControllerConf.localFreezeValue_refuses h set value)]
    split_ifs with haccepts
    · exact commit_of_accepted hmisses haccepts _
    · rfl
  · rfl

theorem setOutputSeq_misses {lst : List (ObjectId × Int)}
    (hmisses : ∀ item ∈ lst, ic.Misses (io sid) sid s item.1) :
    (ic.setOutputSeq s lst io).1 sid = io sid := by
  induction lst generalizing io with
  | nil => rfl
  | cons item lst ih =>
    obtain ⟨q, value⟩ := item
    rw [List.forall_mem_cons] at hmisses
    unfold setOutputSeq
    split_ifs
    · have hitem := conclude_misses hmisses.1 value
      cases hout : ic.conclude io q (ic.conf.localSetValue (io q) value (ic.supplierOf s)) with
      | mk io' res =>
        rw [hout] at hitem
        cases res with
        | error e => exact hitem
        | ok _ =>
          simp only at hitem
          rw [← hitem] at hmisses
          exact (ih hmisses.2).trans hitem
    · exact ih hmisses.2

theorem requestLoop_misses {http : HttpConf} {p : List HttpParam} {usi : USensorInfo}
    {write : ObjectId → Int → IOStateList → IOStateList × Except Exception Int}
    (hwrite : ∀ q ∈ p.map (·.parseSInfo.1), ∀ value io, io sid = usi →
      (write q value io).1 sid = usi) (hio : io sid = usi) :
    (requestLoop http write p io).1 sid = usi := by
  induction p generalizing io with
  | nil => exact hio
  | cons p ps ih =>
    rw [List.map_cons, List.forall_mem_cons] at hwrite
    have hrest : ∀ {io}, io sid = usi → (requestLoop http write ps io).1 sid = usi :=
      fun hio => ih hwrite.2 hio
    unfold requestLoop
    split_ifs
    · have hitem := hwrite.1 p.uni_atoi io hio
      cases hout : write p.parseSInfo.1 p.uni_atoi io with
      | mk io' res =>
        rw [hout] at hitem
        cases res with
        | ok _ => exact hrest hitem
        | error e =>
          simp only
          split
          · exact hrest hitem
          · exact hrest hitem
          · exact hitem
    · exact hrest hio

end IOController

inductive WriteKind
  | setValue
  | setOutputSeq
  | freezeValue
  | setUndefinedState
  | calibrate
  | request_set
  | request_freeze

namespace WriteRequest

def kind : WriteRequest → WriteKind
  | .setValue _ _ => .setValue
  | .setOutputSeq _ => .setOutputSeq
  | .freezeValue _ _ _ => .freezeValue
  | .setUndefinedState _ _ => .setUndefinedState
  | .calibrate _ _ => .calibrate
  | .request_set _ => .request_set
  | .request_freeze _ _ => .request_freeze

/-- Whether the request comes from `s`.  That by the interface may come from anyone. -/
def SentBy (s : ObjectId) : WriteRequest → Prop
  | .request_set p => (IOController.firstSupplier p).1 = s
  | .request_freeze _ p => (IOController.firstSupplier p).1 = s
  | _ => True

/-- The sensors that the request names. -/
def sids : WriteRequest → List ObjectId
  | .setValue sid _ => [sid]
  | .setOutputSeq lst => lst.map Prod.fst
  | .freezeValue sid _ _ => [sid]
  | .setUndefinedState sid _ => [sid]
  | .calibrate sid _ => [sid]
  | .request_set p => (IOController.firstSupplier p).2.map (·.parseSInfo.1)
  | .request_freeze _ p => (IOController.firstSupplier p).2.map (·.parseSInfo.1)

end WriteRequest

namespace IOController

/-- No request of the kind from `s` changes the sensor, unless it names another one on which the
sensor depends. -/
def KeepsOut (ic : IOController) (http : HttpConf) (st : ControllerState) (sid s : ObjectId)
    (kind : WriteKind) : Prop :=
  ∀ r : WriteRequest, r.kind = kind → r.SentBy s →
    (∀ q ∈ r.sids, q ≠ sid → ¬ic.slots.Within q sid) →
      (ic.handleWrite http st s r).io sid = st.io sid ∧
        (ic.handleWrite http st s r).ci sid = st.ci sid

/-- The list of the sensor denies `s` by its default, which the activation has replaced by rights
that let it write. -/
def OpenedToWrite (ic : IOController) (usi : USensorInfo) (s : ObjectId) : Prop :=
  ic.DeniesByDefault usi s ∧ ic.conf.defaultAccessMask.canWrite = true

/-- Where requests of the kind are checked, for a sensor that `s` may not write. -/
def Checked (ic : IOController) (http : HttpConf) (usi : USensorInfo) (s : ObjectId) :
    WriteKind → Prop
  | .setValue | .setOutputSeq | .freezeValue =>
    usi.readonly = true ∨ (s ≠ DefaultObjectId ∧ ¬ic.OpenedToWrite usi s)
  | .setUndefinedState => usi.readonly = true
  | .calibrate => ¬ic.OpenedToWrite usi s
  | .request_set =>
    http.disabledHttpSetApi = true ∨ usi.readonly = true ∨
      if s = DefaultObjectId then http.disableHttpAccessControl = false
      else ¬ic.OpenedToWrite usi s
  | .request_freeze =>
    http.disabledHttpFreezeApi = true ∨ usi.readonly = true ∨
      if s = DefaultObjectId then http.disableHttpAccessControl = false
      else ¬ic.OpenedToWrite usi s

/-- The activated controller with the sensor and one that may not write it as configured. -/
structure Outsider (ic : IOController) (usi : USensorInfo) (sid s : ObjectId)
    (ic' : IOController) : Prop where
  opened : ∃ used, Opened ic used ic' ∧ ∀ name, usi.acl = some name → name ∈ used
  found : sid ≠ DefaultObjectId ∧ sid ∈ ic'.slots.nodes
  other : s ≠ ic.conf.id

variable {ic ic' : IOController} {io : IOStateList} {sid s : ObjectId} {usi : USensorInfo}
  {http : HttpConf}

theorem Outsider.other' (h : Outsider ic usi sid s ic') : s ≠ ic'.conf.id := by
  obtain ⟨used, hopened, -⟩ := h.opened
  rw [hopened.id]
  exact h.other

theorem Outsider.canWrite_iff (h : Outsider ic usi sid s ic')
    (hdenied : (ic.maskOf usi s).canWrite = false) {usi' : USensorInfo}
    (hrights : SameRights usi usi') :
    (ic'.maskOf usi' s).canWrite = true ↔ ic.OpenedToWrite usi s := by
  obtain ⟨used, hopened, hused⟩ := h.opened
  rw [ic'.maskOf_congr hrights.1 s]
  exact canWrite_opened_iff hopened hused hdenied

theorem Outsider.accepts_iff (h : Outsider ic usi sid s ic')
    (hdenied : (ic.maskOf usi s).canWrite = false) {usi' : USensorInfo}
    (hrights : SameRights usi usi') :
    ic'.conf.Accepts usi' (ic'.supplierOf s) ↔
      (s = DefaultObjectId ∨ ic.OpenedToWrite usi s) ∧ usi.readonly = false := by
  rw [IOController.accepts_iff h.other', h.canWrite_iff hdenied hrights, hrights.2]

theorem misses_of_not_accepts {q : ObjectId}
    (hrefused : ¬ic'.conf.Accepts (io sid) (ic'.supplierOf s))
    (hother : q ≠ sid → ¬ic'.slots.Within q sid) : ic'.Misses (io sid) sid s q := by
  unfold Misses
  split_ifs with hq
  · exact hrefused
  · exact hother hq

theorem setUndefinedState_misses {q : ObjectId} (hreadonly : (io sid).readonly = true)
    (hother : q ≠ sid → ¬ic'.slots.Within q sid) (undefined : Bool) :
    (ic'.setUndefinedState io q undefined s).1 sid = io sid := by
  have hstep := @step_setUndefinedState ic' io q undefined s
  change (ic'.setUndefinedState io q undefined s).1 = _ at hstep
  rw [hstep]
  split_ifs with _ hwritable
  · by_cases hq : q = sid
    · subst hq
      rw [hreadonly] at hwritable
      cases hwritable
    · exact commit_frame (hother hq) _
  · rfl
  · rfl

theorem calibrate_misses {st : ControllerState} {q : ObjectId} (ci : CalibrateInfo)
    (hrefused : s ≠ ic'.conf.id ∧ (ic'.maskOf (st.io sid) s).canWrite = false) :
    (ic'.calibrate st q ci s).1.io = st.io ∧ (ic'.calibrate st q ci s).1.ci sid = st.ci sid := by
  unfold calibrate
  split_ifs with _ hdenied
  · exact ⟨rfl, rfl⟩
  · refine ⟨rfl, Function.update_of_ne ?_ _ _⟩
    rintro rfl
    apply hdenied
    exact ⟨hrefused.1, by simpa [maskOf] using hrefused.2⟩
  · exact ⟨rfl, rfl⟩

theorem requestSupplier_ok {request command : String} {sup_id : ObjectId}
    (h : ic'.requestSupplier http request command s = .ok sup_id) :
    (s = DefaultObjectId ∧ http.disableHttpAccessControl = true ∧ sup_id = ic'.conf.id) ∨
      (s ≠ DefaultObjectId ∧ sup_id = s) := by
  unfold requestSupplier at h
  split_ifs at h with hdefault hdisable
  · cases h
    exact .inl ⟨hdefault, hdisable, rfl⟩
  · cases h
    exact .inr ⟨hdefault, rfl⟩

/-- What `request_set` and `request_freeze` leave of the sensor. -/
theorem requestWrite_misses {req usage supplierUsage request : String} {disabled : Bool}
    {write : ObjectId → ObjectId → Int → IOStateList → IOStateList × Except Exception Int}
    {p : List HttpParam} (hsent : (firstSupplier p).1 = s)
    (hwrite : disabled = false → ∀ sup_id,
      (s = DefaultObjectId ∧ http.disableHttpAccessControl = true ∧ sup_id = ic'.conf.id) ∨
        (s ≠ DefaultObjectId ∧ sup_id = s) →
      ∀ q ∈ (firstSupplier p).2.map (·.parseSInfo.1), ∀ value io', io' sid = io sid →
        (write sup_id q value io').1 sid = io sid) :
    (ic'.requestWrite http req usage supplierUsage disabled write request p io).1 sid = io sid := by
  unfold requestWrite
  split_ifs with hdisabled
  · rfl
  · rfl
  · rw [hsent]
    cases hsupplier : ic'.requestSupplier http request supplierUsage s with
    | error e => rfl
    | ok sup_id =>
      exact requestLoop_misses (hwrite (by simpa using hdisabled) sup_id
        (requestSupplier_ok hsupplier)) rfl

/-- A request by HTTP that goes on with a supplier goes on with one that is refused. -/
theorem refused_of_request {usi' : USensorInfo} {sup_id : ObjectId}
    (hrefused : usi.readonly = true ∨ (s ≠ DefaultObjectId ∧ ¬ic.OpenedToWrite usi s) →
      ¬ic'.conf.Accepts usi' (ic'.supplierOf s))
    (hreadonly : usi'.readonly = usi.readonly)
    (hwhy : usi.readonly = true ∨
      if s = DefaultObjectId then http.disableHttpAccessControl = false
      else ¬ic.OpenedToWrite usi s)
    (hsup : (s = DefaultObjectId ∧ http.disableHttpAccessControl = true ∧ sup_id = ic'.conf.id) ∨
      (s ≠ DefaultObjectId ∧ sup_id = s)) : ¬ic'.conf.Accepts usi' (ic'.supplierOf sup_id) := by
  rcases hsup with ⟨hdefault, hdisable, -⟩ | ⟨hgiven, rfl⟩
  · rw [if_pos hdefault, hdisable] at hwhy
    have hwritable : usi.readonly = true := hwhy.resolve_right (by simp)
    rintro ⟨-, haccepts⟩
    rw [hreadonly, hwritable] at haccepts
    cases haccepts
  · rw [if_neg hgiven] at hwhy
    exact hrefused (hwhy.imp_right fun hclosed => ⟨hgiven, hclosed⟩)

theorem keepsOut_of_checked (h : Outsider ic usi sid s ic')
    (hdenied : (ic.maskOf usi s).canWrite = false) {st : ControllerState}
    (hrights : SameRights usi (st.io sid)) {kind : WriteKind}
    (hchecked : ic.Checked http usi s kind) : ic'.KeepsOut http st sid s kind := by
  intro r hkind hsent hothers
  have hrefused (hwhy : usi.readonly = true ∨ (s ≠ DefaultObjectId ∧ ¬ic.OpenedToWrite usi s)) :
      ¬ic'.conf.Accepts (st.io sid) (ic'.supplierOf s) := by
    rw [h.accepts_iff hdenied hrights]
    rintro ⟨hopen, hwritable⟩
    rcases hwhy with hreadonly | ⟨hgiven, hclosed⟩
    · rw [hwritable] at hreadonly
      cases hreadonly
    · exact hopen.elim hgiven hclosed
  cases r with
  | setValue q value =>
    cases hkind
    have hother := hothers q List.mem_cons_self
    exact ⟨setValue_misses (misses_of_not_accepts (hrefused hchecked) hother) value, rfl⟩
  | setOutputSeq lst =>
    cases hkind
    refine ⟨setOutputSeq_misses fun item hitem => ?_, rfl⟩
    exact misses_of_not_accepts (hrefused hchecked) (hothers _ (List.mem_map_of_mem hitem))
  | freezeValue q set value =>
    cases hkind
    have hother := hothers q List.mem_cons_self
    exact ⟨freezeValue_misses (misses_of_not_accepts (hrefused hchecked) hother) set value, rfl⟩
  | setUndefinedState q undefined =>
    cases hkind
    have hreadonly : (st.io sid).readonly = true := hrights.2.trans hchecked
    exact ⟨setUndefinedState_misses hreadonly (hothers q List.mem_cons_self) undefined, rfl⟩
  | calibrate q ci =>
    cases hkind
    have hmask : (ic'.maskOf (st.io sid) s).canWrite = false := by
      rw [Bool.eq_false_iff, Ne, h.canWrite_iff hdenied hrights]
      exact hchecked
    obtain ⟨hio, hci⟩ := calibrate_misses (q := q) ci ⟨h.other', hmask⟩
    exact ⟨congrFun hio sid, hci⟩
  | request_set p =>
    cases hkind
    refine ⟨requestWrite_misses hsent fun hdisabled sup_id hsup q hq value io hio => ?_, rfl⟩
    have hwhy := hchecked.resolve_left (by simp [hdisabled])
    rw [← hio] at hrefused hrights ⊢
    have hrefusal := refused_of_request hrefused hrights.2 hwhy hsup
    exact setValue_misses (misses_of_not_accepts hrefusal (hothers q hq)) value
  | request_freeze set p =>
    cases hkind
    refine ⟨requestWrite_misses hsent fun hdisabled sup_id hsup q hq value io hio => ?_, rfl⟩
    have hwhy := hchecked.resolve_left (by simp [hdisabled])
    rw [← hio] at hrefused hrights ⊢
    have hrefusal := refused_of_request hrefused hrights.2 hwhy hsup
    exact freezeValue_misses (misses_of_not_accepts hrefusal (hothers q hq)) set value

theorem setValue_accepted (hfound : sid ≠ DefaultObjectId ∧ sid ∈ ic'.slots.nodes)
    (haccepts : ic'.conf.Accepts (io sid) (ic'.supplierOf s)) (value : Int) :
    ((ic'.setValue io sid value s).1 sid).real_value = value := by
  unfold setValue
  rw [if_pos hfound, conclude_fst (fun h => ControllerConf.localSetValue_accepts h value)
    (fun h => ControllerConf.localSetValue_refuses h value), if_pos haccepts, commit_self,
    USensorInfo.assign_eq]

theorem freezeValue_accepted (hfound : sid ≠ DefaultObjectId ∧ sid ∈ ic'.slots.nodes)
    (haccepts : ic'.conf.Accepts (io sid) (ic'.supplierOf s)) (value : Int) :
    ((ic'.freezeValue io sid true value s).1 sid).frozen_value = value := by
  unfold freezeValue
  rw [if_pos hfound, conclude_fst (fun h => ControllerConf.localFreezeValue_accepts h true value)
    (fun h => ControllerConf.localFreezeValue_refuses h true value), if_pos haccepts, commit_self,
    USensorInfo.assign_eq]
  rfl

theorem setOutputSeq_accepted (hfound : sid ∈ ic'.slots.nodes)
    (haccepts : ic'.conf.Accepts (io sid) (ic'.supplierOf s)) (value : Int) :
    ((ic'.setOutputSeq s [(sid, value)] io).1 sid).real_value = value := by
  unfold setOutputSeq
  rw [if_pos hfound, ControllerConf.localSetValue_accepts haccepts value]
  simp only [conclude, setOutputSeq]
  rw [commit_self, USensorInfo.assign_eq]

theorem setUndefinedState_accepted (hfound : sid ∈ ic'.slots.nodes)
    (hwritable : (io sid).readonly = false) (undefined : Bool) :
    ((ic'.setUndefinedState io sid undefined s).1 sid).undefined = undefined := by
  have hstep := @step_setUndefinedState ic' io sid undefined s
  change (ic'.setUndefinedState io sid undefined s).1 = _ at hstep
  rw [hstep, if_pos hfound, if_pos hwritable, commit_self, USensorInfo.assignUndefined_eq]

/-- A parameter that names the supplier, and one with a value for the sensor. -/
def supplierParam (s : ObjectId) : HttpParam :=
  ⟨"supplier", "", (DefaultObjectId, ""), [], [], 0, s, none, fun _ => false⟩

def valueParam (sid : ObjectId) (value : Int) : HttpParam :=
  ⟨"", "", (sid, ""), [], [], value, DefaultObjectId, none, fun _ => false⟩

theorem requestWrite_value {req usage supplierUsage request : String}
    {write : ObjectId → ObjectId → Int → IOStateList → IOStateList × Except Exception Int}
    {value : Int} {sup_id : ObjectId} (hne : sid ≠ DefaultObjectId)
    (hsup : ic'.requestSupplier http request supplierUsage s = .ok sup_id) :
    (ic'.requestWrite http req usage supplierUsage false write request
      [supplierParam s, valueParam sid value] io).1 = (write sup_id sid value io).1 := by
  have hfirst : firstSupplier [supplierParam s, valueParam sid value] =
      (s, [valueParam sid value]) := rfl
  unfold requestWrite
  rw [if_neg (by simp), if_neg (by simp), hfirst]
  simp only [hsup]
  have hvalue : (valueParam sid value).parseSInfo.1 ≠ DefaultObjectId := hne
  rw [requestLoop, if_pos hvalue]
  cases hout : write sup_id (valueParam sid value).parseSInfo.1 (valueParam sid value).uni_atoi
    io with
  | mk io' res =>
    have hsame : write sup_id sid value io = (io', res) := hout
    rw [hsame]
    cases res with
    | ok _ => rfl
    | error e =>
      simp only
      split <;> rfl

/-- Where a request by HTTP is not checked, it goes on with a supplier that is accepted. -/
theorem Outsider.exists_supplier (h : Outsider ic usi sid s ic')
    (hdenied : (ic.maskOf usi s).canWrite = false) {usi' : USensorInfo}
    (hrights : SameRights usi usi') (hwritable : usi.readonly = false)
    (hopen : ¬if s = DefaultObjectId then http.disableHttpAccessControl = false
      else ¬ic.OpenedToWrite usi s) (request command : String) :
    ∃ sup_id, ic'.requestSupplier http request command s = .ok sup_id ∧
      ic'.conf.Accepts usi' (ic'.supplierOf sup_id) := by
  unfold requestSupplier
  split_ifs at hopen ⊢ with hdefault hdisable
  · refine ⟨ic'.conf.id, rfl, .inl ?_, hrights.2.trans hwritable⟩
    unfold supplierOf
    split_ifs <;> rfl
  · exact absurd (by simpa using hdisable) hopen
  · exact ⟨s, rfl, (h.accepts_iff hdenied hrights).mpr ⟨.inr (not_not.mp hopen), hwritable⟩⟩

theorem checked_of_keepsOut (h : Outsider ic usi sid s ic')
    (hdenied : (ic.maskOf usi s).canWrite = false) {st : ControllerState}
    (hrights : SameRights usi (st.io sid)) {kind : WriteKind}
    (hkeeps : ic'.KeepsOut http st sid s kind) : ic.Checked http usi s kind := by
  have hself : ∀ q ∈ [sid], q ≠ sid → ¬ic'.slots.Within q sid := by simp
  -- what is not checked is accepted
  have haccepts (hopen : s = DefaultObjectId ∨ ic.OpenedToWrite usi s)
      (hwritable : usi.readonly = false) : ic'.conf.Accepts (st.io sid) (ic'.supplierOf s) :=
    (h.accepts_iff hdenied hrights).mpr ⟨hopen, hwritable⟩
  have hsplit (hnot : ¬(usi.readonly = true ∨ (s ≠ DefaultObjectId ∧ ¬ic.OpenedToWrite usi s))) :
      ic'.conf.Accepts (st.io sid) (ic'.supplierOf s) := by
    rw [not_or, not_and_or, not_not, not_not] at hnot
    exact haccepts hnot.2 (by simpa using hnot.1)
  cases kind with
  | setValue =>
    by_contra hnot
    have hio := (hkeeps (.setValue sid ((st.io sid).real_value + 1)) rfl trivial hself).1
    have hnew := setValue_accepted h.found (hsplit hnot) ((st.io sid).real_value + 1)
    simp only [handleWrite] at hio
    rw [hio] at hnew
    omega
  | setOutputSeq =>
    by_contra hnot
    have hio := (hkeeps (.setOutputSeq [(sid, (st.io sid).real_value + 1)]) rfl trivial hself).1
    have hnew := setOutputSeq_accepted h.found.2 (hsplit hnot) ((st.io sid).real_value + 1)
    simp only [handleWrite] at hio
    rw [hio] at hnew
    omega
  | freezeValue =>
    by_contra hnot
    have hio :=
      (hkeeps (.freezeValue sid true ((st.io sid).frozen_value + 1)) rfl trivial hself).1
    have hnew := freezeValue_accepted h.found (hsplit hnot) ((st.io sid).frozen_value + 1)
    simp only [handleWrite] at hio
    rw [hio] at hnew
    omega
  | setUndefinedState =>
    by_contra hnot
    have hio := (hkeeps (.setUndefinedState sid (!(st.io sid).undefined)) rfl trivial hself).1
    have hwritable : (st.io sid).readonly = false :=
      hrights.2.trans (Bool.eq_false_iff.mpr hnot)
    have hnew := @setUndefinedState_accepted ic' st.io sid s h.found.2 hwritable
      (!(st.io sid).undefined)
    simp only [handleWrite] at hio
    rw [hio] at hnew
    simp at hnew
  | calibrate =>
    intro hopen
    have hci := (hkeeps (.calibrate sid { st.ci sid with precision := (st.ci sid).precision + 1 })
      rfl trivial hself).2
    have hcan := (h.canWrite_iff hdenied hrights).mpr hopen
    unfold maskOf at hcan
    simp only [handleWrite, calibrate, if_pos h.found.2, hcan] at hci
    have hprecision : (st.ci sid).precision + 1 = (st.ci sid).precision := by
      simpa using congrArg CalibrateInfo.precision hci
    omega
  | request_set =>
    by_contra hnot
    rw [Checked, not_or, not_or] at hnot
    obtain ⟨hdisabled, hwritable, hopen⟩ := hnot
    obtain ⟨sup_id, hsup, haccepted⟩ := h.exists_supplier hdenied hrights
      (by simpa using hwritable) hopen "request_set"
      "'set' requires 'supplier' parameter. Example: /set?supplier=Name&..."
    have hio := (hkeeps (.request_set
      [supplierParam s, valueParam sid ((st.io sid).real_value + 1)]) rfl rfl hself).1
    have hnew := setValue_accepted h.found haccepted ((st.io sid).real_value + 1)
    simp only [handleWrite, request_set, Bool.eq_false_iff.mpr hdisabled] at hio
    rw [requestWrite_value h.found.1 hsup] at hio
    rw [hio] at hnew
    omega
  | request_freeze =>
    by_contra hnot
    rw [Checked, not_or, not_or] at hnot
    obtain ⟨hdisabled, hwritable, hopen⟩ := hnot
    obtain ⟨sup_id, hsup, haccepted⟩ := h.exists_supplier hdenied hrights
      (by simpa using hwritable) hopen "request_freeze"
      "'freeze/unfreeze' requires 'supplier' parameter. Example: /set?supplier=Name&..."
    have hio := (hkeeps (.request_freeze true
      [supplierParam s, valueParam sid ((st.io sid).frozen_value + 1)]) rfl rfl hself).1
    have hnew := freezeValue_accepted h.found haccepted ((st.io sid).frozen_value + 1)
    simp only [handleWrite, request_freeze, Bool.eq_false_iff.mpr hdisabled] at hio
    rw [requestWrite_value h.found.1 hsup] at hio
    rw [hio] at hnew
    omega

end IOController

end Uniset.Processes
