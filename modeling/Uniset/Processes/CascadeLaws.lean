import Uniset.Processes.IOControllerLaws
import Uniset.Processes.IONotifyController

/-! All that follows a change of a sensor: the blocks of the sensors that depend on it, the
sensors that show its thresholds, and what follows the changes of those.  Sensors that lie in a
circle of such links lock themselves; here the change does not return. -/

namespace Uniset.Processes.Cascade

open Uniset.Lib

/-- Sets a sensor, with the records after it and the value that is returned. -/
abbrev Setter :=
  ObjectId → Int → ObjectId → IOStateList → Option (IOStateList × Except Exception Int)

variable (ic : IOController) (set : Setter)

/-- The slot of the sensor `c` on the signal of `p`. -/
def slot (p c : ObjectId) (io : IOStateList) : Option (IOStateList × Except Exception Int) :=
  let (usi, changed) := (io c).assignBlocked (io p).value
  if changed then set c usi.real_value (io p).supplier (Function.update io c usi)
  else some (io, .ok (io c).value)

/-- The slots of `cs`.  The exception of one of them ends the emission. -/
def emitTo (p : ObjectId) : List ObjectId → IOStateList → Option IOStateList
  | [], io => some io
  | c :: cs, io =>
    match slot set p c io with
    | none => none
    | some (io, .error _) => some io
    | some (io, .ok _) => emitTo p cs io

/-- The signal of the sensor, if its change is signalled. -/
def emit (sid : ObjectId) (emitted : Bool) (io : IOStateList) : Option IOStateList :=
  if emitted then emitTo set sid (ic.slots.children sid) io else some io

def setValueIt (sid : ObjectId) (value : Int) (sup_id : ObjectId) (io : IOStateList) :
    Option (IOStateList × Except Exception Int) :=
  if sid ≠ DefaultObjectId ∧ sid ∈ ic.slots.nodes then set sid value (ic.supplierOf sup_id) io
  else some (io, .error (ic.unknownSensor "localSetValue" sid))

def setState (sid : ObjectId) (i : Nat) (it : UThresholdInfo) (io : IOStateList) : IOStateList :=
  Function.update io sid { io sid with thresholds := (io sid).thresholds.set i it }

/-- The thresholds at the places `is` of the sensor, for the value `value` of it.  An exception
ends the loop, and is caught by the caller. -/
def checkThresholds (sid : ObjectId) (value : Int) : List Nat → IOStateList → Option IOStateList
  | [], io => some io
  | i :: is, io =>
    match (io sid).thresholds[i]? with
    | none => some io
    | some it =>
      let state := it.nextState value
      if it.state = state then checkThresholds sid value is io
      else
        let io := setState sid i { it with state } io
        if it.sid = DefaultObjectId then checkThresholds sid value is io
        else
          match setValueIt ic set it.sid (if state ≠ .NormalThreshold then 1 else 0)
            (io sid).supplier io with
          | none => none
          | some (io, .error _) => some io
          | some (io, .ok _) => checkThresholds sid value is io

def checkThreshold (sid : ObjectId) (io : IOStateList) : Option IOStateList :=
  checkThresholds ic set sid (io sid).value (List.range (io sid).thresholds.length) io

/-- What follows the new record of a sensor that showed `prevValue`. -/
def follow (sid : ObjectId) (prevValue : Int) (out : USensorInfo × Bool) (io : IOStateList) :
    Option IOStateList :=
  match emit ic set sid out.2 (Function.update io sid out.1) with
  | none => none
  | some io => if prevValue = out.1.value then some io else checkThreshold ic set sid io

/-- `fuel` bounds how far the change goes. -/
def localSetValue : Nat → Setter
  | 0, _, _, _, _ => none
  | fuel + 1, sid, value, sup_id, io =>
    match ic.conf.localSetValue (io sid) value sup_id with
    | .error e => some (io, .error e)
    | .ok out =>
      (follow ic (localSetValue fuel) sid (io sid).value out io).map fun io =>
        (io, .ok out.1.value)

def setValue (fuel : Nat) (sid : ObjectId) (value : Int) (sup_id : ObjectId) (io : IOStateList) :
    Option (IOStateList × Except Exception Int) :=
  setValueIt ic (localSetValue ic fuel) sid value sup_id io

end Uniset.Processes.Cascade

/-! What a change spreads to other sensors when the controller itself makes it: their blocks, the
values that follow from those, and the values of the sensors that show thresholds. -/

namespace Uniset.Processes.Cascade

open Uniset.Lib

/-- What a record has from its configuration and keeps, with what others may set but a change of a
value does not. -/
structure Kept (usi usi' : USensorInfo) : Prop where
  readonly : usi'.readonly = usi.readonly
  frozen : usi'.frozen = usi.frozen
  undefined : usi'.undefined = usi.undefined
  sids : usi'.thresholds.map UThresholdInfo.sid = usi.thresholds.map UThresholdInfo.sid

theorem Kept.refl (usi : USensorInfo) : Kept usi usi := ⟨rfl, rfl, rfl, rfl⟩

theorem Kept.trans {usi usi' usi'' : USensorInfo} (h : Kept usi usi') (h' : Kept usi' usi'') :
    Kept usi usi'' :=
  ⟨h'.readonly.trans h.readonly, h'.frozen.trans h.frozen, h'.undefined.trans h.undefined,
    h'.sids.trans h.sids⟩

theorem kept_assign (usi : USensorInfo) (value : Int) (sup_id : ObjectId) :
    Kept usi (usi.assign value sup_id).1 := by
  rw [USensorInfo.assign_eq]
  exact ⟨rfl, rfl, rfl, rfl⟩

variable (ic : IOController)

/-- `sid` shows a threshold of some sensor of the controller. -/
def Shows (io : IOStateList) (sid : ObjectId) : Prop :=
  ∃ x ∈ ic.slots.nodes, sid ∈ (io x).thresholds.map UThresholdInfo.sid

/-- All that spreads from a change that the controller makes itself. -/
structure Spreads (io io' : IOStateList) : Prop where
  plain : ∀ y, (io' y).Plain
  kept : ∀ y, Kept (io y) (io' y)
  supplier : ∀ y, (io' y).supplier = (io y).supplier ∨ (io' y).supplier = ic.conf.id
  real_value : ∀ y, ¬Shows ic io y → (io' y).real_value = (io y).real_value
  recomputed : ∀ y, (io y).readonly = false → (io y).Recomputed → (io' y).Recomputed

variable {ic} {io io' io'' : IOStateList} {sid : ObjectId}

theorem Shows.iff_of_kept (h : ∀ y, Kept (io y) (io' y)) : Shows ic io' sid ↔ Shows ic io sid := by
  unfold Shows
  simp only [(h _).sids]

theorem Spreads.refl (hplain : ∀ y, (io y).Plain) : Spreads ic io io :=
  ⟨hplain, fun y => .refl (io y), fun _ => .inl rfl, fun _ _ => rfl, fun _ _ h => h⟩

theorem Spreads.trans (h : Spreads ic io io') (h' : Spreads ic io' io'') : Spreads ic io io'' where
  plain := h'.plain
  kept y := (h.kept y).trans (h'.kept y)
  supplier y := by
    rcases h'.supplier y with hsame | hown
    · exact hsame ▸ h.supplier y
    · exact .inr hown
  real_value y hy :=
    (h'.real_value y fun hshows => hy ((Shows.iff_of_kept h.kept).mp hshows)).trans (h.real_value y hy)
  recomputed y hw hy := h'.recomputed y ((h.kept y).readonly.trans hw) (h.recomputed y hw hy)

theorem Spreads.supplier_own (h : Spreads ic io io') (hown : (io sid).supplier = ic.conf.id) :
    (io' sid).supplier = ic.conf.id := by
  rcases h.supplier sid with hsame | h
  · exact hsame.trans hown
  · exact h

theorem plain_update (hplain : ∀ y, (io y).Plain) {usi : USensorInfo} (hp : usi.Plain) :
    ∀ y, (Function.update io sid usi y).Plain :=
  (Function.forall_update_iff io fun _ usi => usi.Plain).mpr ⟨hp, fun y _ => hplain y⟩

theorem kept_update {usi : USensorInfo} (hkept : Kept (io sid) usi) :
    ∀ y, Kept (io y) (Function.update io sid usi y) :=
  (Function.forall_update_iff io fun y usi => Kept (io y) usi).mpr ⟨hkept, fun y _ => .refl (io y)⟩

/-- A change of one record. -/
theorem spreads_update (hplain : ∀ y, (io y).Plain) {usi : USensorInfo} (hp : usi.Plain)
    (hkept : Kept (io sid) usi)
    (hsupplier : usi.supplier = (io sid).supplier ∨ usi.supplier = ic.conf.id)
    (hreal : ¬Shows ic io sid → usi.real_value = (io sid).real_value)
    (hrecomputed : (io sid).readonly = false → (io sid).Recomputed → usi.Recomputed) :
    Spreads ic io (Function.update io sid usi) where
  plain := plain_update hplain hp
  kept := kept_update hkept
  supplier :=
    (Function.forall_update_iff io fun y usi =>
      usi.supplier = (io y).supplier ∨ usi.supplier = ic.conf.id).mpr ⟨hsupplier, fun _ _ => .inl rfl⟩
  real_value :=
    (Function.forall_update_iff io fun y usi =>
      ¬Shows ic io y → usi.real_value = (io y).real_value).mpr ⟨hreal, fun _ _ _ => rfl⟩
  recomputed :=
    (Function.forall_update_iff io fun y usi =>
      (io y).readonly = false → (io y).Recomputed → usi.Recomputed).mpr
      ⟨hrecomputed, fun _ _ _ h => h⟩

/-- A value that the controller sets, where it is the old one or shows a threshold. -/
theorem spreads_assign (hplain : ∀ y, (io y).Plain) {value : Int}
    (hreal : ¬Shows ic io sid → value = (io sid).real_value) :
    Spreads ic io (Function.update io sid ((io sid).assign value ic.conf.id).1) := by
  have hshown := (hplain sid).assign_value value ic.conf.id
  refine spreads_update hplain (USensorInfo.plain_of_shown hshown) (kept_assign _ _ _) ?_ ?_
    fun _ _ => USensorInfo.recomputed_of_shown hshown
  · rw [USensorInfo.assign_eq]
    exact .inr rfl
  · rw [USensorInfo.assign_eq]
    exact hreal

variable (ic) in
/-- What a setter does for the controller itself: a sensor that is readonly it refuses, to others
it gives the value, with what spreads from that. -/
def Sets (set : Setter) : Prop :=
  ∀ {sid : ObjectId} {value : Int} {io io' : IOStateList} {res : Except Exception Int},
    sid ∈ ic.slots.nodes → (∀ y, (io y).Plain) → set sid value ic.conf.id io = some (io', res) →
      ((io sid).readonly = true ∧ io' = io ∧ ∃ err, res = .error (.IOBadParam err)) ∨
        ((io sid).readonly = false ∧ (∃ v, res = .ok v) ∧
          Spreads ic (Function.update io sid ((io sid).assign value ic.conf.id).1) io')

variable {set : Setter}

/-- The flag of a child turns, and its value follows. -/
theorem spreads_turn (hplain : ∀ y, (io y).Plain) :
    Spreads ic io
      (Function.update io sid ((io sid).turn.assign (io sid).real_value ic.conf.id).1) := by
  have hshown := (hplain sid).turn_assign_value ic.conf.id
  have hkept : Kept (io sid) (io sid).turn := ⟨rfl, rfl, rfl, rfl⟩
  refine spreads_update hplain (USensorInfo.plain_of_shown hshown) (hkept.trans (kept_assign _ _ _))
    ?_ ?_ fun _ _ => USensorInfo.recomputed_of_shown hshown
  · rw [USensorInfo.assign_eq]
    exact .inr rfl
  · rw [USensorInfo.assign_eq]
    exact fun _ => rfl

theorem spreads_slot (hset : Sets ic set) {p c : ObjectId} {res : Except Exception Int}
    (hc : c ∈ ic.slots.nodes) (hplain : ∀ y, (io y).Plain) (hown : (io p).supplier = ic.conf.id)
    (h : slot set p c io = some (io', res)) : Spreads ic io io' := by
  by_cases hsame : (io c).blocked = decide ((io p).value ≠ (io c).d_value)
  · have hslot : slot set p c io = some (io, .ok (io c).value) := by
      simp [slot, USensorInfo.assignBlocked, ← hsame]
    cases hslot.symm.trans h
    exact .refl hplain
  · have hturn : (io c).turn.Plain := hplain c
    have hslot : slot set p c io =
        set c (io c).real_value ic.conf.id (Function.update io c (io c).turn) := by
      simp only [slot, USensorInfo.assignBlocked_turns hsame, if_true, hown]
      rfl
    rcases hset hc (plain_update hplain hturn) (hslot.symm.trans h) with
      ⟨hreadonly, rfl, -⟩ | ⟨-, -, hspreads⟩
    · rw [Function.update_self] at hreadonly
      have hro : (io c).readonly = true := hreadonly
      exact spreads_update hplain hturn ⟨rfl, rfl, rfl, rfl⟩ (.inl rfl) (fun _ => rfl)
        fun hw => absurd hro (by simp [hw])
    · rw [Function.update_self, Function.update_idem] at hspreads
      exact (spreads_turn hplain).trans hspreads

theorem spreads_emitTo (hset : Sets ic set) {p : ObjectId} {cs : List ObjectId}
    (hcs : ∀ c ∈ cs, c ∈ ic.slots.nodes) (hplain : ∀ y, (io y).Plain)
    (hown : (io p).supplier = ic.conf.id) (h : emitTo set p cs io = some io') : Spreads ic io io' := by
  induction cs generalizing io with
  | nil =>
    cases h
    exact .refl hplain
  | cons c cs ih =>
    unfold emitTo at h
    split at h
    · cases h
    · next hslot =>
      cases h
      exact spreads_slot hset (hcs c List.mem_cons_self) hplain hown hslot
    · next hslot =>
      have hc := spreads_slot hset (hcs c List.mem_cons_self) hplain hown hslot
      exact hc.trans (ih (fun d hd => hcs d (List.mem_cons_of_mem _ hd)) hc.plain
        (hc.supplier_own hown) h)

theorem spreads_emit (hset : Sets ic set) {emitted : Bool} (hplain : ∀ y, (io y).Plain)
    (hown : (io sid).supplier = ic.conf.id) (h : emit ic set sid emitted io = some io') :
    Spreads ic io io' := by
  unfold emit at h
  split_ifs at h
  · exact spreads_emitTo hset (fun c hc => ic.slots.children_subset sid hc) hplain hown h
  · cases h
    exact .refl hplain

theorem supplierOf_own : ic.supplierOf ic.conf.id = ic.conf.id := by
  unfold IOController.supplierOf
  split_ifs <;> rfl

/-- The sensor of a threshold is set, or it is refused and nothing changes. -/
theorem spreads_setValueIt (hset : Sets ic set) {value : Int} {res : Except Exception Int}
    (hshows : Shows ic io sid) (hplain : ∀ y, (io y).Plain)
    (h : setValueIt ic set sid value ic.conf.id io = some (io', res)) : Spreads ic io io' := by
  unfold setValueIt at h
  split_ifs at h with hknown
  · rw [supplierOf_own] at h
    rcases hset hknown.2 hplain h with ⟨-, rfl, -⟩ | ⟨-, -, hspreads⟩
    · exact .refl hplain
    · exact (spreads_assign hplain fun hno => absurd hshows hno).trans hspreads
  · cases h
    exact .refl hplain

/-- The state of a threshold is not part of what the value follows from. -/
theorem spreads_setState (hplain : ∀ y, (io y).Plain) {i : Nat} {it : UThresholdInfo}
    (hit : (io sid).thresholds[i]? = some it) (state : ThresholdState) :
    Spreads ic io (setState sid i { it with state } io) := by
  refine spreads_update hplain (hplain sid) ⟨rfl, rfl, rfl, ?_⟩ (.inl rfl) (fun _ => rfl)
    fun _ hr => hr
  obtain ⟨hi, rfl⟩ := List.getElem?_eq_some_iff.mp hit
  simp only [List.map_set]
  have hmap : i < ((io sid).thresholds.map UThresholdInfo.sid).length := by
    rwa [List.length_map]
  rw [← List.getElem_map UThresholdInfo.sid (h := hmap), List.set_getElem_self]

theorem spreads_checkThresholds (hset : Sets ic set) {value : Int} {is : List Nat}
    (hsid : sid ∈ ic.slots.nodes) (hplain : ∀ y, (io y).Plain)
    (hown : (io sid).supplier = ic.conf.id)
    (h : checkThresholds ic set sid value is io = some io') : Spreads ic io io' := by
  induction is generalizing io with
  | nil =>
    cases h
    exact .refl hplain
  | cons i is ih =>
    unfold checkThresholds at h
    split at h
    · cases h
      exact .refl hplain
    · next it hit =>
      have hs : Spreads ic io (setState sid i { it with state := it.nextState value } io) :=
        spreads_setState hplain hit _
      by_cases hstate : it.state = it.nextState value
      · rw [if_pos hstate] at h
        exact ih hplain hown h
      rw [if_neg hstate] at h
      by_cases hnone : it.sid = DefaultObjectId
      · rw [if_pos hnone] at h
        exact hs.trans (ih hs.plain (hs.supplier_own hown) h)
      · rw [if_neg hnone, hs.supplier_own hown] at h
        have hshows : Shows ic (setState sid i { it with state := it.nextState value } io) it.sid :=
          (Shows.iff_of_kept hs.kept).mpr
            ⟨sid, hsid, List.mem_map_of_mem (List.mem_of_getElem? hit)⟩
        split at h
        · cases h
        · next hset' =>
          cases h
          exact hs.trans (spreads_setValueIt hset hshows hs.plain hset')
        · next hset' =>
          have hs' := hs.trans (spreads_setValueIt hset hshows hs.plain hset')
          exact hs'.trans (ih hs'.plain (hs'.supplier_own hown) h)

theorem spreads_follow (hset : Sets ic set) {prevValue : Int} {out : USensorInfo × Bool}
    (hsid : sid ∈ ic.slots.nodes) (hplain : ∀ y, (Function.update io sid out.1 y).Plain)
    (hown : out.1.supplier = ic.conf.id) (h : follow ic set sid prevValue out io = some io') :
    Spreads ic (Function.update io sid out.1) io' := by
  have hown' : (Function.update io sid out.1 sid).supplier = ic.conf.id := by
    rwa [Function.update_self]
  unfold follow at h
  split at h
  · cases h
  · next hemit =>
    have hs := spreads_emit hset hplain hown' hemit
    split_ifs at h
    · cases h
      exact hs
    · exact hs.trans (spreads_checkThresholds hset hsid hs.plain (hs.supplier_own hown') h)

/-- What the controller sets itself it gives to every sensor that is not readonly. -/
theorem sets_localSetValue (fuel : Nat) : Sets ic (localSetValue ic fuel) := by
  induction fuel with
  | zero =>
    intro _ _ _ _ _ _ _ h
    cases h
  | succ fuel ih =>
    intro sid value io io' res hsid hplain h
    unfold localSetValue at h
    cases hreadonly : (io sid).readonly with
    | true =>
      have hrefused : ∃ err, ic.conf.localSetValue (io sid) value ic.conf.id =
          .error (.IOBadParam err) := by
        simp only [ControllerConf.localSetValue, ControllerConf.checkWrite, ne_eq, not_true,
          false_and, if_false, hreadonly, if_true]
        exact ⟨_, rfl⟩
      obtain ⟨err, herr⟩ := hrefused
      simp only [herr] at h
      cases h
      exact .inl ⟨rfl, rfl, err, rfl⟩
    | false =>
      have ha : ic.conf.Accepts (io sid) ic.conf.id := ⟨.inl rfl, hreadonly⟩
      simp only [ControllerConf.localSetValue_accepts ha] at h
      obtain ⟨io₁, hfollow, hout⟩ := Option.map_eq_some_iff.mp h
      cases hout
      have hupdated :
          ∀ y, (Function.update io sid ((io sid).assign value ic.conf.id).1 y).Plain :=
        plain_update hplain
          (USensorInfo.plain_of_shown ((hplain sid).assign_value value ic.conf.id))
      refine .inr ⟨rfl, ⟨_, rfl⟩, spreads_follow ih hsid hupdated ?_ hfollow⟩
      rw [USensorInfo.assign_eq]

/-! ## Changes that come to an end -/

variable (ic) in
/-- The links from a sensor to those that depend on it and to those that show its thresholds lead
down the rank, so none of them lead in a circle. -/
structure Ranked (io : IOStateList) (rank : ObjectId → Nat) : Prop where
  child : ∀ {p c : ObjectId}, c ∈ ic.slots.children p → rank c < rank p
  threshold : ∀ {x y : ObjectId}, x ∈ ic.slots.nodes →
    y ∈ (io x).thresholds.map UThresholdInfo.sid → y ≠ DefaultObjectId → rank y < rank x

variable {rank : ObjectId → Nat} {n : Nat}

theorem Ranked.of_kept (h : Ranked ic io rank) (hkept : ∀ y, Kept (io y) (io' y)) :
    Ranked ic io' rank where
  child := h.child
  threshold hx hy := by
    rw [(hkept _).sids] at hy
    exact h.threshold hx hy

theorem Ranked.spread (h : Ranked ic io rank) (hs : Spreads ic io io') : Ranked ic io' rank :=
  h.of_kept hs.kept

variable (ic rank) in
/-- The setter comes back from the sensors of a rank below `n`. -/
def Returns (n : Nat) (set : Setter) : Prop :=
  ∀ {sid : ObjectId} (value : Int) {io : IOStateList}, sid ∈ ic.slots.nodes → rank sid < n →
    (∀ y, (io y).Plain) → Ranked ic io rank → ∃ out, set sid value ic.conf.id io = some out

theorem slot_returns (hret : Returns ic rank n set) {p c : ObjectId} (hc : c ∈ ic.slots.nodes)
    (hn : rank c < n) (hplain : ∀ y, (io y).Plain) (hranked : Ranked ic io rank)
    (hown : (io p).supplier = ic.conf.id) : ∃ out, slot set p c io = some out := by
  have hkept : Kept (io c) (io c).turn := ⟨rfl, rfl, rfl, rfl⟩
  have hturn : (io c).turn.Plain := hplain c
  by_cases hsame : (io c).blocked = decide ((io p).value ≠ (io c).d_value)
  · simp [slot, USensorInfo.assignBlocked, ← hsame]
  · simp only [slot, USensorInfo.assignBlocked_turns hsame, if_true, hown]
    exact hret _ hc hn (plain_update hplain hturn) (hranked.of_kept (kept_update hkept))

theorem emitTo_returns (hset : Sets ic set) (hret : Returns ic rank n set) {p : ObjectId}
    {cs : List ObjectId} (hcs : ∀ c ∈ cs, c ∈ ic.slots.nodes ∧ rank c < n)
    (hplain : ∀ y, (io y).Plain) (hranked : Ranked ic io rank)
    (hown : (io p).supplier = ic.conf.id) : ∃ io', emitTo set p cs io = some io' := by
  induction cs generalizing io with
  | nil => exact ⟨io, rfl⟩
  | cons c cs ih =>
    obtain ⟨hc, hn⟩ := hcs c List.mem_cons_self
    obtain ⟨⟨io₁, res⟩, hslot⟩ := slot_returns hret hc hn hplain hranked hown
    have hs := spreads_slot hset hc hplain hown hslot
    unfold emitTo
    rw [hslot]
    cases res with
    | error e => exact ⟨io₁, rfl⟩
    | ok v =>
      exact ih (fun d hd => hcs d (List.mem_cons_of_mem _ hd)) hs.plain (hranked.spread hs)
        (hs.supplier_own hown)

theorem setValueIt_returns (hret : Returns ic rank n set) (value : Int)
    (hn : sid ∈ ic.slots.nodes → rank sid < n) (hplain : ∀ y, (io y).Plain)
    (hranked : Ranked ic io rank) :
    ∃ out, setValueIt ic set sid value ic.conf.id io = some out := by
  unfold setValueIt
  split_ifs with hknown
  · rw [supplierOf_own]
    exact hret _ hknown.2 (hn hknown.2) hplain hranked
  · exact ⟨_, rfl⟩

theorem checkThresholds_returns (hset : Sets ic set) (hret : Returns ic rank n set) {value : Int}
    {is : List Nat} (hsid : sid ∈ ic.slots.nodes) (hn : rank sid ≤ n) (hplain : ∀ y, (io y).Plain)
    (hranked : Ranked ic io rank) (hown : (io sid).supplier = ic.conf.id) :
    ∃ io', checkThresholds ic set sid value is io = some io' := by
  induction is generalizing io with
  | nil => exact ⟨io, rfl⟩
  | cons i is ih =>
    unfold checkThresholds
    split
    · exact ⟨_, rfl⟩
    · next it hit =>
      have hs : Spreads ic io (setState sid i { it with state := it.nextState value } io) :=
        spreads_setState hplain hit _
      by_cases hstate : it.state = it.nextState value
      · rw [if_pos hstate]
        exact ih hplain hranked hown
      rw [if_neg hstate]
      by_cases hnone : it.sid = DefaultObjectId
      · rw [if_pos hnone]
        exact ih hs.plain (hranked.spread hs) (hs.supplier_own hown)
      rw [if_neg hnone, hs.supplier_own hown]
      have hmem : it.sid ∈ (io sid).thresholds.map UThresholdInfo.sid :=
        List.mem_map_of_mem (List.mem_of_getElem? hit)
      have hshows : Shows ic (setState sid i { it with state := it.nextState value } io) it.sid :=
        (Shows.iff_of_kept hs.kept).mpr ⟨sid, hsid, hmem⟩
      obtain ⟨⟨io₁, res⟩, hset'⟩ := setValueIt_returns hret _
        (fun _ => Nat.lt_of_lt_of_le (hranked.threshold hsid hmem hnone) hn) hs.plain
        (hranked.spread hs)
      rw [hset']
      have hs' := hs.trans (spreads_setValueIt hset hshows hs.plain hset')
      cases res with
      | error e => exact ⟨io₁, rfl⟩
      | ok v => exact ih hs'.plain (hranked.spread hs') (hs'.supplier_own hown)

theorem emit_returns (hset : Sets ic set) (hret : Returns ic rank n set) (emitted : Bool)
    (hn : rank sid ≤ n) (hplain : ∀ y, (io y).Plain) (hranked : Ranked ic io rank)
    (hown : (io sid).supplier = ic.conf.id) : ∃ io', emit ic set sid emitted io = some io' := by
  unfold emit
  split_ifs
  · exact emitTo_returns hset hret
      (fun c hc => ⟨ic.slots.children_subset sid hc, Nat.lt_of_lt_of_le (hranked.child hc) hn⟩)
      hplain hranked hown
  · exact ⟨io, rfl⟩

theorem follow_returns (hset : Sets ic set) (hret : Returns ic rank n set) (prevValue : Int)
    {out : USensorInfo × Bool} (hsid : sid ∈ ic.slots.nodes) (hn : rank sid ≤ n)
    (hplain : ∀ y, (Function.update io sid out.1 y).Plain)
    (hranked : Ranked ic (Function.update io sid out.1) rank)
    (hown : out.1.supplier = ic.conf.id) : ∃ io', follow ic set sid prevValue out io = some io' := by
  have hown' : (Function.update io sid out.1 sid).supplier = ic.conf.id := by
    rwa [Function.update_self]
  obtain ⟨io₁, hemit⟩ := emit_returns hset hret out.2 hn hplain hranked hown'
  have hs := spreads_emit hset hplain hown' hemit
  unfold follow
  rw [hemit]
  simp only
  split_ifs
  · exact ⟨io₁, rfl⟩
  · exact checkThresholds_returns hset hret hsid hn hs.plain (hranked.spread hs)
      (hs.supplier_own hown')

/-- The rank falls with each link, so it bounds how far a change goes. -/
theorem localSetValue_returns (fuel : Nat) : Returns ic rank fuel (localSetValue ic fuel) := by
  induction fuel with
  | zero => exact fun _ _ _ hn => absurd hn (Nat.not_lt_zero _)
  | succ fuel ih =>
    intro sid value io hsid hn hplain hranked
    unfold localSetValue
    split
    · exact ⟨_, rfl⟩
    · next out hout =>
      have ha : ic.conf.Accepts (io sid) ic.conf.id := by
        by_contra hno
        obtain ⟨e, he⟩ := ControllerConf.localSetValue_refuses hno value
        cases he.symm.trans hout
      cases (ControllerConf.localSetValue_accepts ha value).symm.trans hout
      have hshown := (hplain sid).assign_value value ic.conf.id
      have hplain' :
          ∀ y, (Function.update io sid ((io sid).assign value ic.conf.id).1 y).Plain :=
        plain_update hplain (USensorInfo.plain_of_shown hshown)
      have hranked' := hranked.of_kept (kept_update (kept_assign (io sid) value ic.conf.id))
      have hown : ((io sid).assign value ic.conf.id).1.supplier = ic.conf.id := by
        rw [USensorInfo.assign_eq]
      obtain ⟨io', hfollow⟩ := follow_returns (sets_localSetValue fuel) ih (io sid).value
        hsid (Nat.le_of_lt_succ hn) hplain' hranked' hown
      exact ⟨_, by rw [hfollow, Option.map_some]⟩

end Uniset.Processes.Cascade
