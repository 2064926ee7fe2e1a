import Uniset.Processes.Dependencies

/-! The rights that a process has on a sensor by its access list as configured, and what the
activation makes of them. -/

namespace Uniset.Processes

open Uniset.Lib

namespace IOController

variable {ic ic' : IOController} {io io' : IOStateList} {sid s : ObjectId}

/-- What the activation makes of an access list. -/
def openAcl (mask : AccessMask) (a : ACL) : ACL :=
  if a.defaultPermissions = AccessNone then { a with defaultPermissions := mask } else a

theorem openAcl_openAcl (mask : AccessMask) (a : ACL) :
    openAcl mask (openAcl mask a) = openAcl mask a := by
  unfold openAcl
  split_ifs <;> simp_all

theorem lookup_map_snd {f : String → ACL → ACL} (acls : List (String × ACL)) (name : String) :
    (acls.map fun (n, a) => (n, f n a)).lookup name = (acls.lookup name).map (f name) := by
  induction acls with
  | nil => rfl
  | cons entry acls ih =>
    obtain ⟨n, a⟩ := entry
    rw [List.map_cons, List.lookup_cons, List.lookup_cons, ih]
    cases hn : name == n with
    | true =>
      rw [eq_of_beq hn]
      rfl
    | false => rfl

theorem lookup_activateAcl (ic : IOController) (usi : USensorInfo) (name : String) :
    (ic.activateAcl usi).conf.acls.lookup name =
      (ic.conf.acls.lookup name).map fun a =>
        if usi.acl = some name then openAcl ic.conf.defaultAccessMask a else a := by
  unfold IOController.activateAcl
  cases hacl : usi.acl with
  | none => simp
  | some n =>
    have hentry (entry : String × ACL) :
        (if entry.1 = n ∧ entry.2.defaultPermissions = AccessNone then
          (entry.1, { entry.2 with defaultPermissions := ic.conf.defaultAccessMask })
        else (entry.1, entry.2)) =
        (entry.1, if n = entry.1 then openAcl ic.conf.defaultAccessMask entry.2 else entry.2) := by
      obtain ⟨n', a⟩ := entry
      unfold openAcl
      by_cases hn : n' = n
      · subst hn
        by_cases hnone : a.defaultPermissions = AccessNone <;> simp [hnone]
      · simp [hn, Ne.symm hn]
    simp only [Option.some.injEq]
    rw [← lookup_map_snd (f := fun n' a =>
      if n = n' then openAcl ic.conf.defaultAccessMask a else a)]
    exact congrArg (List.lookup name) (List.map_congr_left fun entry _ => hentry entry)

/-- The lists named in `used` have been opened, and nothing else has changed. -/
structure Opened (ic : IOController) (used : List String) (ic' : IOController) : Prop where
  id : ic'.conf.id = ic.conf.id
  mask : ic'.conf.defaultAccessMask = ic.conf.defaultAccessMask
  slots : ic'.slots = ic.slots
  acls : ∀ name, ic'.conf.acls.lookup name =
    (ic.conf.acls.lookup name).map fun a =>
      if name ∈ used then openAcl ic.conf.defaultAccessMask a else a

theorem Opened.refl (ic : IOController) : Opened ic [] ic :=
  ⟨rfl, rfl, rfl, fun name => by simp⟩

theorem Opened.activateAcl {used : List String} (h : Opened ic used ic') (usi : USensorInfo) :
    Opened ic (usi.acl.toList ++ used) (ic'.activateAcl usi) where
  id := by
    rw [← h.id]
    unfold IOController.activateAcl
    cases usi.acl <;> rfl
  mask := by
    rw [← h.mask]
    unfold IOController.activateAcl
    cases usi.acl <;> rfl
  slots := (activateAcl_slots usi).trans h.slots
  acls := by
    intro name
    rw [lookup_activateAcl, h.acls, h.mask, Option.map_map]
    congr 1
    funext a
    simp only [Function.comp_apply, List.mem_append, Option.mem_toList]
    by_cases hname : usi.acl = some name
    · by_cases hused : name ∈ used
      · rw [if_pos hname, if_pos hused, if_pos (.inl hname), openAcl_openAcl]
      · rw [if_pos hname, if_neg hused, if_pos (.inl hname)]
    · by_cases hused : name ∈ used
      · rw [if_neg hname, if_pos hused, if_pos (.inr hused)]
      · rw [if_neg hname, if_neg hused, if_neg (not_or.mpr ⟨hname, hused⟩)]

theorem activateSensor_opened {used : List String} (h : Opened ic used ic')
    {ic₂ : IOController} (hok : activateSensor (ic', io) sid = .ok (ic₂, io')) :
    Opened ic ((io sid).acl.toList ++ used) ic₂ ∧ SensorRuns io io' := by
  have hopened := h.activateAcl (io sid)
  simp only [activateSensor] at hok
  split_ifs at hok with hdepend
  · cases hcheck : (ic'.activateAcl (io sid)).checkDepend (io sid).depend_sid sid io with
    | error e =>
      rw [hcheck] at hok
      cases hok
    | ok io₂ =>
      rw [hcheck] at hok
      cases hok
      exact ⟨hopened, sensorRuns_checkDepend hcheck⟩
  · cases hok
    exact ⟨hopened, fun _ => Relation.ReflTransGen.refl⟩

/-- The record of a sensor with the rights that it has been configured with. -/
def SameRights (usi usi' : USensorInfo) : Prop :=
  usi'.acl = usi.acl ∧ usi'.readonly = usi.readonly

theorem SensorRuns.sameRights {io' : IOStateList} (h : SensorRuns io io') (sid : ObjectId) :
    SameRights (io sid) (io' sid) := by
  obtain ⟨_, _, _, _, _, _, _, hrun⟩ := (h sid).configured
  rw [hrun]
  exact ⟨rfl, rfl⟩

/-- Every list that a sensor uses is opened. -/
theorem foldlM_opened {sids : List ObjectId} {used : List String} {ic₂ : IOController}
    (h : Opened ic used ic') (hok : sids.foldlM activateSensor (ic', io) = .ok (ic₂, io')) :
    ∃ used', Opened ic used' ic₂ ∧ SensorRuns io io' ∧ used ⊆ used' ∧
      ∀ sid ∈ sids, ∀ name, (io sid).acl = some name → name ∈ used' := by
  induction sids generalizing ic' io used with
  | nil =>
    cases hok
    exact ⟨used, h, fun _ => Relation.ReflTransGen.refl, List.Subset.refl _, by simp⟩
  | cons sid sids ih =>
    rw [List.foldlM_cons] at hok
    cases hnext : activateSensor (ic', io) sid with
    | error e =>
      rw [hnext] at hok
      cases hok
    | ok next =>
      obtain ⟨ic₁, io₁⟩ := next
      rw [hnext] at hok
      obtain ⟨hopened, hruns⟩ := activateSensor_opened h hnext
      obtain ⟨used', hopened', hruns', hsub, hnames⟩ := ih hopened hok
      have hsub' : used ⊆ used' := fun name hmem => hsub (List.mem_append_right _ hmem)
      refine ⟨used', hopened', SensorRuns.trans hruns hruns', hsub',
        List.forall_mem_cons.mpr ⟨fun name hname => ?_, fun y hy name hname => ?_⟩⟩
      · exact hsub (List.mem_append_left _ (Option.mem_toList.mpr hname))
      · exact hnames y hy name ((SensorRuns.sameRights hruns y).1.trans hname)

/-- The rights of `s` on the sensor as they are configured. -/
def maskOf (ic : IOController) (usi : USensorInfo) (s : ObjectId) : AccessMask :=
  usi.checkMask ic.conf.acls s ic.conf.defaultAccessMask

/-- The list of the sensor has no entry for `s`, and its default is `None`. -/
def DeniesByDefault (ic : IOController) (usi : USensorInfo) (s : ObjectId) : Prop :=
  ∃ name a, usi.acl = some name ∧ ic.conf.acls.lookup name = some a ∧
    (a.permissions.lookup s).getD AccessUnknown = AccessUnknown ∧
      a.defaultPermissions = AccessNone

theorem maskOf_congr (ic : IOController) {usi usi' : USensorInfo} (h : usi.acl = usi'.acl)
    (s : ObjectId) : ic.maskOf usi s = ic.maskOf usi' s := by
  unfold maskOf USensorInfo.checkMask
  rw [h]

theorem DeniesByDefault.congr {usi usi' : USensorInfo} (h : ic.DeniesByDefault usi s)
    (hacl : usi.acl = usi'.acl) : ic.DeniesByDefault usi' s := by
  obtain ⟨name, a, hname, hrest⟩ := h
  exact ⟨name, a, hacl ▸ hname, hrest⟩

theorem maskOf_opened {used : List String} (h : Opened ic used ic') {usi : USensorInfo}
    (hused : ∀ name, usi.acl = some name → name ∈ used) (s : ObjectId) :
    (ic.DeniesByDefault usi s → ic'.maskOf usi s = ic.conf.defaultAccessMask) ∧
      (¬ic.DeniesByDefault usi s → ic'.maskOf usi s = ic.maskOf usi s) := by
  unfold maskOf USensorInfo.checkMask
  cases hacl : usi.acl with
  | none =>
    constructor
    · rintro ⟨name, a, hname, -⟩
      rw [hacl] at hname
      cases hname
    · intro _
      simp only [Option.bind_none, h.mask]
  | some name =>
    simp only [Option.bind_some, h.acls, if_pos (hused name hacl), h.mask]
    cases hlookup : ic.conf.acls.lookup name with
    | none =>
      constructor
      · rintro ⟨n, a, hname, hsome, -⟩
        cases hacl.symm.trans hname
        cases hlookup.symm.trans hsome
      · exact fun _ => rfl
    | some a =>
      simp only [Option.map_some]
      constructor
      · rintro ⟨n, a', hname, hsome, hentry, hnone⟩
        cases hacl.symm.trans hname
        cases hlookup.symm.trans hsome
        simp only [openAcl, if_pos hnone, hentry]
        by_cases hunknown : ic.conf.defaultAccessMask = AccessUnknown <;> simp [hunknown]
      · intro hdenies
        by_cases hnone : a.defaultPermissions = AccessNone
        · have hentry : (a.permissions.lookup s).getD AccessUnknown ≠ AccessUnknown :=
            fun hentry => hdenies ⟨name, a, hacl, hlookup, hentry, hnone⟩
          simp only [openAcl, if_pos hnone]
          simp [hentry]
        · simp only [openAcl, if_neg hnone]

/-- Who may not write as configured may do so after the activation where it has opened the list
to all, and the controller lets all write. -/
theorem canWrite_opened_iff {used : List String} (h : Opened ic used ic') {usi : USensorInfo}
    (hused : ∀ name, usi.acl = some name → name ∈ used)
    (hdenied : (ic.maskOf usi s).canWrite = false) :
    (ic'.maskOf usi s).canWrite = true ↔
      ic.DeniesByDefault usi s ∧ ic.conf.defaultAccessMask.canWrite = true := by
  obtain ⟨hopen, hsame⟩ := maskOf_opened h hused s
  by_cases hdenies : ic.DeniesByDefault usi s
  · rw [hopen hdenies, and_iff_right hdenies]
  · rw [hsame hdenies, hdenied]
    simp [hdenies]

theorem canRead_opened_iff {used : List String} (h : Opened ic used ic') {usi : USensorInfo}
    (hused : ∀ name, usi.acl = some name → name ∈ used)
    (hdenied : (ic.maskOf usi s).canRead = false) :
    (ic'.maskOf usi s).canRead = true ↔
      ic.DeniesByDefault usi s ∧ ic.conf.defaultAccessMask.canRead = true := by
  obtain ⟨hopen, hsame⟩ := maskOf_opened h hused s
  by_cases hdenies : ic.DeniesByDefault usi s
  · rw [hopen hdenies, and_iff_right hdenies]
  · rw [hsame hdenies, hdenied]
    simp [hdenies]

end IOController

end Uniset.Processes
