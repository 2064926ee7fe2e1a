import Mathlib.Data.List.Chain
import Uniset.Processes.IOControllerLaws
import Uniset.Processes.VisibleValue

/-! The sensors of other nodes, whose values are set in the local controller.  Each place of the list
that a node sends keeps the iterator of its sensor. -/

namespace Uniset.UniNetwork

open Uniset.Lib Uniset.Processes

/-- An entry of the list of a node. -/
structure ShortMap where
  id : ObjectId
  value : Int
  type : IOType
  deriving DecidableEq

/-- What is kept for a place of the list; `ioit` is `none` where it is `ioEnd`. -/
structure SInfo where
  ioit : Option ObjectId
  val : Int
  id : ObjectId
  type : Option IOType
  deriving DecidableEq

namespace SInfo

def new : SInfo := ⟨none, 0, DefaultObjectId, none⟩

/-- An entry is noted at its place. -/
def note (reinit : Bool) (m : ShortMap) (s : SInfo) : SInfo :=
  if reinit then ⟨none, m.value, m.id, some m.type⟩ else { s with val := m.value }

end SInfo

variable (ic : IOController) (sup_id : ObjectId)

def Known (sid : ObjectId) : Prop := sid ≠ DefaultObjectId ∧ sid ∈ ic.slots.nodes

instance (sid : ObjectId) : Decidable (Known ic sid) := inferInstanceAs (Decidable (_ ∧ _))

/-- `localSetValueIt`: the sensor is looked for only where the iterator has none. -/
def localSetValueIt (li : Option ObjectId) (sid : ObjectId) (value : Int) (io : IOStateList) :
    Option ObjectId × IOStateList × Except Exception Int :=
  let li := if li = none then if Known ic sid then some sid else none else li
  match li with
  | none => (none, io, .error (ic.unknownSensor "localSetValue" sid))
  | some p =>
    (some p, ic.conclude io p (ic.conf.localSetValue (io p) value (ic.supplierOf sup_id)))

/-- The places after the entries are set, the records, and the exceptions that are caught. -/
def setEntries (reinit : Bool) :
    List SInfo → List ShortMap → IOStateList → List SInfo × IOStateList × List Exception
  | s :: smap, m :: map, io =>
    let s := s.note reinit m
    let (ioit, io, res) := localSetValueIt ic sup_id s.ioit m.id m.value io
    let (smap, io, failed) := setEntries reinit smap map io
    ({ s with ioit } :: smap, io,
      match res with
      | .ok _ => failed
      | .error e => e :: failed)
  | smap, _, io => (smap, io, [])

/-- `NetNodeInfo::update`. The iterators are let go when the number of entries is another. -/
def update (smap : List SInfo) (map : List ShortMap) (io : IOStateList) :
    List SInfo × IOStateList × List Exception :=
  let reinit := decide (smap.length ≠ map.length)
  let smap := if reinit then smap.take map.length ++
    List.replicate (map.length - smap.length) SInfo.new else smap
  setEntries ic sup_id reinit smap map io

/-- The places after some lists.  Between them the records may change in any way. -/
def run (hs : List (List ShortMap × IOStateList)) : List SInfo :=
  hs.foldl (fun smap h => (update ic sup_id smap h.1 h.2).1) []

/-- The sensors of the list have been set to what the list gives last for them, and no other sensor has
been set; one that does not depend on a sensor of the list is as it was. -/
structure Applied (map : List ShortMap) (io io' : IOStateList) : Prop where
  named : ∀ before m after, map = before ++ m :: after → (∀ m' ∈ after, m'.id ≠ m.id) →
    (io' m.id).real_value = m.value
  others : ∀ sid, (∀ m ∈ map, m.id ≠ sid) → (io' sid).real_value = (io sid).real_value
  frame : ∀ sid, (∀ m ∈ map, ¬ic.slots.Within m.id sid) → io' sid = io sid

/-- Each list of a history is applied, unless an exception has been caught. -/
def AppliesAll (hs : List (List ShortMap × IOStateList)) : Prop :=
  ∀ before map io after, hs = before ++ (map, io) :: after →
    ∀ smap' io', update ic sup_id (run ic sup_id before) map io = (smap', io', []) →
      Applied ic map io io'

/-- A list as long as the one before it has the known sensors of that at their places. -/
def Keeps (map map' : List ShortMap) : Prop :=
  map.length = map'.length → List.Forall₂ (fun m m' => Known ic m.id → m'.id = m.id) map map'

variable {ic sup_id} {io io' : IOStateList} {p sid : ObjectId} {value v : Int} {smap : List SInfo}
  {map map' : List ShortMap}

/-! ## One set -/

theorem checkDepend_real_value (usi : USensorInfo) (d_it_value : Int) (d_it_supplier : ObjectId) :
    (ic.conf.checkDepend usi d_it_value d_it_supplier).1.real_value = usi.real_value := by
  by_cases h : usi.blocked = decide (d_it_value ≠ usi.d_value)
  · rw [ControllerConf.checkDepend_same h]
  · by_cases ha : ic.conf.Accepts usi d_it_supplier
    · rw [ControllerConf.checkDepend_accepts h ha, USensorInfo.assign_eq]
    · obtain ⟨e, he⟩ := ControllerConf.checkDepend_refuses h ha
      rw [he]
      rfl

theorem slot_real_value (p c : ObjectId) (io : IOStateList) (sid : ObjectId) :
    ((ic.slot p c io).1 sid).real_value = (io sid).real_value := by
  rw [IOController.slot_fst]
  by_cases h : sid = c
  · rw [h, Function.update_self]
    exact checkDepend_real_value _ _ _
  · rw [Function.update_of_ne h]

/-- What follows a change sets no sensor anew. -/
theorem emit_real_value (p : ObjectId) (io : IOStateList) (sid : ObjectId) :
    (ic.emit p io sid).real_value = (io sid).real_value := by
  refine Forest.visit_rel (R := fun io io' => (io' sid).real_value = (io sid).real_value)
    (fun _ => rfl) ?_ (fun p c io => slot_real_value p c io sid) p io
  exact fun h h' => Eq.trans h' h

theorem emit_frame (h : ¬ic.slots.Within p sid) (io : IOStateList) : ic.emit p io sid = io sid :=
  Forest.visit_frame (fun _ _ _ _ hne => Function.update_of_ne hne _ _) p
    (fun _ hc hsid => h (hsid.head hc)) io

/-- A sensor is set; the others keep what they have been set to, and those that do not depend on it are
as they were. -/
structure Sets (ic : IOController) (p : ObjectId) (value : Int) (io io' : IOStateList) : Prop where
  real : (io' p).real_value = value
  others : ∀ sid, sid ≠ p → (io' sid).real_value = (io sid).real_value
  frame : ∀ sid, ¬ic.slots.Within p sid → io' sid = io sid

theorem sets_conclude
    (h : ic.conclude io p (ic.conf.localSetValue (io p) value sup_id) = (io', .ok v)) :
    Sets ic p value io io' := by
  cases hout : ic.conf.localSetValue (io p) value sup_id with
  | error e =>
    rw [hout] at h
    cases h
  | ok out =>
    rw [hout] at h
    cases h
    have hreal := ControllerConf.localSetValue_real_value hout
    have hcommit : ∀ sid, (ic.commit io p out sid).real_value =
        (Function.update io p out.1 sid).real_value := by
      intro sid
      unfold IOController.commit
      split_ifs
      · exact emit_real_value p _ sid
      · rfl
    refine ⟨?_, fun sid hsid => ?_, fun sid hsid => ?_⟩
    · rw [hcommit, Function.update_self, hreal]
    · rw [hcommit, Function.update_of_ne hsid]
    · have hne : sid ≠ p := fun heq => hsid (heq ▸ Forest.Within.refl _)
      unfold IOController.commit
      split_ifs
      · rw [emit_frame hsid, Function.update_of_ne hne]
      · rw [Function.update_of_ne hne]

/-- The iterator is of the sensor, or of none. -/
def Fits (ic : IOController) (sid : ObjectId) (li : Option ObjectId) : Prop :=
  ∀ p ∈ li, p = sid ∧ Known ic sid

theorem fits_localSetValueIt {li : Option ObjectId} (h : Fits ic sid li) (value : Int)
    (io : IOStateList) : Fits ic sid (localSetValueIt ic sup_id li sid value io).1 := by
  unfold localSetValueIt
  cases li with
  | some p => exact h
  | none =>
    by_cases hknown : Known ic sid
    · rw [if_pos rfl, if_pos hknown]
      rintro p ⟨⟩
      exact ⟨rfl, hknown⟩
    · rw [if_pos rfl, if_neg hknown]
      exact nofun

theorem sets_localSetValueIt {li li' : Option ObjectId} (hfits : Fits ic sid li)
    (h : localSetValueIt ic sup_id li sid value io = (li', io', .ok v)) :
    Sets ic sid value io io' := by
  unfold localSetValueIt at h
  cases li with
  | some p =>
    obtain ⟨rfl, -⟩ := hfits p rfl
    exact sets_conclude (Prod.mk.inj h).2
  | none =>
    by_cases hknown : Known ic sid
    · rw [if_pos rfl, if_pos hknown] at h
      exact sets_conclude (Prod.mk.inj h).2
    · rw [if_pos rfl, if_neg hknown] at h
      cases h

/-! ## One list -/

theorem applied_nil : Applied ic [] io io where
  named _ _ _ h := absurd h.symm (by simp)
  others _ _ := rfl
  frame _ _ := rfl

theorem Applied.cons {m : ShortMap} {io₁ : IOStateList} (hset : Sets ic m.id m.value io io₁)
    (h : Applied ic map io₁ io') : Applied ic (m :: map) io io' where
  named before m' after heq hlast := by
    cases before with
    | nil =>
      obtain ⟨rfl, rfl⟩ := List.cons_eq_cons.mp heq
      rw [h.others _ hlast, hset.real]
    | cons b before =>
      obtain ⟨rfl, hmap⟩ := List.cons_eq_cons.mp heq
      exact h.named before m' after hmap hlast
  others sid hsid := by
    obtain ⟨hm, hmap⟩ := List.forall_mem_cons.mp hsid
    rw [h.others sid hmap, hset.others sid hm.symm]
  frame sid hsid := by
    obtain ⟨hm, hmap⟩ := List.forall_mem_cons.mp hsid
    rw [h.frame sid hmap, hset.frame sid hm]

/-- Each place has the iterator of its entry, or none. -/
def Tracks (ic : IOController) (smap : List SInfo) (map : List ShortMap) : Prop :=
  List.Forall₂ (fun s m => Fits ic m.id s.ioit) smap map

theorem setEntries_spec {reinit : Bool}
    (h : List.Forall₂ (fun s m => Fits ic m.id (s.note reinit m).ioit) smap map) (io : IOStateList) :
    Tracks ic (setEntries ic sup_id reinit smap map io).1 map ∧
      ((setEntries ic sup_id reinit smap map io).2.2 = [] →
        Applied ic map io (setEntries ic sup_id reinit smap map io).2.1) := by
  induction h generalizing io with
  | nil => exact ⟨.nil, fun _ => applied_nil⟩
  | @cons s m smap map hs hrest ih =>
    have hfits : Fits ic m.id (localSetValueIt ic sup_id (s.note reinit m).ioit m.id m.value io).1 :=
      fits_localSetValueIt hs m.value io
    unfold setEntries
    dsimp only
    cases hset : localSetValueIt ic sup_id (s.note reinit m).ioit m.id m.value io with
    | mk li rest =>
      obtain ⟨io₁, res⟩ := rest
      rw [hset] at hfits
      obtain ⟨htracks, happlied⟩ := ih io₁
      refine ⟨.cons hfits htracks, fun hfailed => ?_⟩
      cases res with
      | error e => cases hfailed
      | ok v => exact .cons (sets_localSetValueIt hs hset) (happlied hfailed)

theorem fits_next {m m' : ShortMap} {li : Option ObjectId} (h : Fits ic m.id li)
    (hkept : Known ic m.id → m'.id = m.id) : Fits ic m'.id li := by
  rintro p hp
  obtain ⟨rfl, hknown⟩ := h p hp
  rw [hkept hknown]
  exact ⟨rfl, hknown⟩

theorem Tracks.next (h : Tracks ic smap map)
    (hkept : List.Forall₂ (fun m m' => Known ic m.id → m'.id = m.id) map map') :
    Tracks ic smap map' := by
  induction h generalizing map' with
  | nil =>
    cases hkept
    exact .nil
  | cons hs _ ih =>
    cases hkept with
    | cons hm hrest => exact .cons (fits_next hs hm) (ih hrest)

/-- A list finds at each place the iterator of its entry, or none: the places are let go, or they have
kept the sensors. -/
theorem update_spec {prev : List ShortMap} (htracks : Tracks ic smap prev) (hkeeps : Keeps ic prev map)
    (io : IOStateList) : Tracks ic (update ic sup_id smap map io).1 map ∧
      ((update ic sup_id smap map io).2.2 = [] →
        Applied ic map io (update ic sup_id smap map io).2.1) := by
  unfold update
  apply setEntries_spec
  by_cases hsame : smap.length = map.length
  · have hreinit : decide (smap.length ≠ map.length) = false := by simpa using hsame
    rw [hreinit]
    exact htracks.next (hkeeps (htracks.length_eq.symm.trans hsame))
  · have hreinit : decide (smap.length ≠ map.length) = true := by simpa using hsame
    rw [hreinit]
    refine List.forall₂_of_length_eq_of_get ?_ fun _ _ _ => nofun
    simp
    omega

theorem run_append (before : List (List ShortMap × IOStateList)) (h : List ShortMap × IOStateList) :
    run ic sup_id (before ++ [h]) = (update ic sup_id (run ic sup_id before) h.1 h.2).1 := by
  unfold run
  rw [List.foldl_append]
  rfl

/-- After any lists the places track one whose known sensors the next list keeps. -/
theorem exists_tracks {before : List (List ShortMap × IOStateList)}
    (h : (before.map Prod.fst ++ [map]).IsChain (Keeps ic)) :
    ∃ prev, Tracks ic (run ic sup_id before) prev ∧ Keeps ic prev map := by
  induction before using List.reverseRecOn generalizing map with
  | nil =>
    refine ⟨[], .nil, fun hlength => ?_⟩
    rw [List.length_eq_zero_iff.mp hlength.symm]
    exact .nil
  | append_singleton before last ih =>
    rw [List.map_append, List.map_cons, List.map_nil, List.append_assoc, List.singleton_append,
      List.isChain_append_cons_cons] at h
    obtain ⟨hbefore, hlast, -⟩ := h
    obtain ⟨prev, htracks, hkeeps⟩ := ih hbefore
    rw [run_append]
    exact ⟨last.1, (update_spec htracks hkeeps last.2).1, hlast⟩

/-- Lists of which each keeps the known sensors of the one before it are applied. -/
theorem appliesAll_of_keeps (ic : IOController) (sup_id : ObjectId)
    (hs : List (List ShortMap × IOStateList)) (hkeeps : (hs.map Prod.fst).IsChain (Keeps ic)) :
    AppliesAll ic sup_id hs := by
  intro before map io after heq smap' io' hupdate
  have hchain : (before.map Prod.fst ++ [map]).IsChain (Keeps ic) := by
    rw [heq, List.map_append, List.map_cons, List.append_cons] at hkeeps
    exact hkeeps.left_of_append
  obtain ⟨prev, htracks, hnext⟩ := @exists_tracks ic sup_id map before hchain
  have happlied := (@update_spec ic sup_id _ _ prev htracks hnext io).2
  rw [hupdate] at happlied
  exact happlied rfl

/-! A controller with two sensors. -/

def pairConf : List SensorConf :=
  [⟨1, .AI, 0, false, none, none, none, none⟩, ⟨2, .AI, 0, false, none, none, none, none⟩]

theorem dependOf_pairConf (c : ObjectId) : dependOf pairConf c = none := by
  have hdepend : (readList pairConf c).depend_sid = DefaultObjectId := by
    unfold readList
    cases hfind : pairConf.find? fun it => it.id = c with
    | none => rfl
    | some it =>
      have hmem := List.mem_of_find?_eq_some hfind
      simp only [pairConf, List.mem_cons, List.not_mem_nil, or_false] at hmem
      rcases hmem with rfl | rfl <;> rfl
  unfold dependOf
  rw [if_neg]
  rw [hdepend]
  exact fun h => h.1 rfl

theorem pairConf_acyclic : DependsAcyclic pairConf :=
  Forest.acyclic_of_rank (fun _ => 0) fun c _ p hp => by
    rw [dependOf_pairConf c] at hp
    cases hp

def pairController : IOController := .read (.unrestricted 9) pairConf pairConf_acyclic

/-- The same sensors in the same order, then one of them. -/
theorem appliesAll_pair : AppliesAll pairController 9
    [([⟨1, 5, .AI⟩, ⟨2, 6, .AI⟩], readList pairConf), ([⟨1, 7, .AI⟩, ⟨2, 6, .AI⟩], readList pairConf),
      ([⟨2, 8, .AI⟩], readList pairConf)] := by
  refine appliesAll_of_keeps pairController 9 _ ?_
  refine .cons_cons ?_ (.cons_cons ?_ (.singleton _))
  · exact fun _ => .cons (fun _ => rfl) (.cons (fun _ => rfl) .nil)
  · exact nofun

/-- The node sends another sensor in the same place: the first one is set. -/
theorem not_appliesAll_restarted : ¬AppliesAll pairController 9
    [([⟨1, 5, .AI⟩], readList pairConf), ([⟨2, 7, .AI⟩], readList pairConf)] := by
  intro h
  have happlied := h [_] _ _ [] rfl _ _ rfl
  have hfirst := happlied.others 1 (by decide)
  exact absurd hfirst (by decide)

end Uniset.UniNetwork
