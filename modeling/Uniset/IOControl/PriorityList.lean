import Mathlib.Data.List.Count
import Uniset.Processes.USensorInfo
import Uniset.Core

/-! The items of the exchange with the cards, and the list of those that are polled more often. -/

namespace Uniset.IOControl.Priority

open Uniset.Processes (IOType)

def DefaultSubdev : Int := -1
def DefaultChannel : Int := -1

/-- What `IOBase::initItem` makes of a sensor that it accepts. -/
structure IOBase where
  stype : IOType
  t_ai : ObjectId
  ignore : Bool

/-- A sensor in the configuration. -/
structure Description where
  card : String
  subdev : Int
  jack : String
  initItem : Option IOBase
  iopriority : Int
  channel : Int
  range : Int
  aref : Int
  adelay : Int

/-- The last field is not in the code: the priority in the description of the item. -/
structure IOInfo where
  stype : IOType
  t_ai : ObjectId
  ignore : Bool
  ncard : Int
  subdev : Int
  channel : Int
  range : Int
  aref : Int
  adelay : Int
  iopriority : Int

structure IOPriority where
  priority : Int
  index : Nat
  deriving DecidableEq

/-- The slots that are not filled yet hold no item. -/
structure Items where
  iomap : List (Option IOInfo)
  maxItem : Nat
  pmap : List IOPriority

structure Cards where
  size : Nat
  defCardNum : Int

variable (cards : Cards)

def cardOf (d : Description) : Int :=
  let ncard := uni_atoi d.card
  if d.card = "" ∨ ncard < 0 ∨ ncard ≥ cards.size then cards.defCardNum else ncard

def subdevOf (d : Description) : Int :=
  if d.jack = "" then if d.subdev < 0 then DefaultSubdev else d.subdev
  else if d.jack = "J1" then 0
  else if d.jack = "J2" then 1
  else if d.jack = "J3" then 2
  else if d.jack = "J4" then 3
  else if d.jack = "J5" then 4
  else DefaultSubdev

/-- The item before the parameters of its channel are read. -/
def start (d : Description) (b : IOBase) : IOInfo :=
  ⟨b.stype, b.t_ai, b.ignore, cardOf cards d, subdevOf d, DefaultChannel, 0, 0, 0, d.iopriority⟩

/-- The parameters of the channel, if they are allowed. -/
def setChannel (d : Description) (inf : IOInfo) : Option IOInfo :=
  if d.channel < 0 ∨ d.channel > 32 then none
  else
    let inf := { inf with channel := d.channel, aref := 0, range := 0, adelay := 10000 }
    if inf.stype = .AI ∨ inf.stype = .AO then
      if d.range < 0 ∨ d.range > 3 then none
      else if d.aref < 0 ∨ d.aref > 3 then none
      else some { inf with range := d.range, aref := d.aref, adelay := d.adelay }
    else some inf

def resize (n : Nat) (iomap : List (Option IOInfo)) : List (Option IOInfo) :=
  iomap.take n ++ List.replicate (n - iomap.length) none

namespace Items

def empty : Items := ⟨[], 0, []⟩

def store (s : Items) (inf : IOInfo) : Items :=
  { s with iomap := s.iomap.set s.maxItem (some inf), maxItem := s.maxItem + 1 }

/-- Room for the item, and its place in the list of priorities if it has one.  The parameters of the
channel have not been looked at yet. -/
def prepare (s : Items) (d : Description) : Items :=
  { s with
    iomap := if s.maxItem ≥ s.iomap.length then resize (s.maxItem + 30) s.iomap else s.iomap
    pmap := if d.iopriority > 0 then s.pmap ++ [⟨d.iopriority, s.maxItem⟩] else s.pmap }

def initIOItem (s : Items) (d : Description) : Bool × Items :=
  match d.initItem with
  | none => (false, s)
  | some b =>
    let inf := start cards d b
    let s := s.prepare d
    if inf.t_ai ≠ DefaultObjectId then (true, s.store inf)
    else match setChannel d inf with
    | none => (false, s)
    | some inf => (true, s.store inf)

/-- All sensors, and the slots that are left over given back. -/
def readConfiguration (ds : List Description) : Items :=
  let s := ds.foldl (fun s d => (s.initIOItem cards d).2) empty
  { s with iomap := resize s.maxItem s.iomap }

variable (s : Items)

/-- A call of `ioread` by the place; there is no result if there is no item. -/
def ioread (i : Nat) : Option (List Nat) := if (s.iomap[i]?.join).isSome then some [i] else none

/-- The calls for the entries with a priority above `n`. -/
def pollPriority (n : Int) : List IOPriority → Option (List Nat)
  | [] => some []
  | e :: rest => do
    let polled ← if e.priority > n then s.ioread e.index else some []
    return polled ++ (← pollPriority n rest)

def maxHalf : Nat := s.maxItem / 2

/-- The pass over the items from a place on; half way there it polls those of the list again. -/
def pollAll : Bool → Nat → List (Option IOInfo) → Option (List Nat)
  | _, _, [] => some []
  | _, _, none :: _ => none
  | prior, i, some io :: rest =>
    if io.ignore then pollAll prior (i + 1) rest
    else if !prior && decide (i > s.maxHalf) then do
      let again ← s.pollPriority 1 s.pmap
      return i :: again ++ (← pollAll true (i + 1) rest)
    else do return i :: (← pollAll prior (i + 1) rest)

/-- The calls of `ioread`, by the places of the items. -/
def iopoll : Option (List Nat) := do
  let first ← s.pollPriority 0 s.pmap
  let all ← s.pollAll false 0 s.iomap
  let last ← s.pollPriority 2 s.pmap
  return first ++ all ++ last

end Items

/-- Whether a description is accepted, and as what. -/
def accepted (d : Description) : Option IOInfo :=
  d.initItem.bind fun b =>
    let inf := start cards d b
    if inf.t_ai ≠ DefaultObjectId then some inf else setChannel d inf

/-- How often an item is to be polled. -/
def prescribed (priority : Int) : Nat :=
  1 + (if priority > 0 then 1 else 0) + (if priority > 1 then 1 else 0) + if priority > 2 then 1 else 0

/-- Every slot is filled, every entry of the list has the priority of the item at its place, an item
with a priority has one entry, and the polling goes through and polls each item as prescribed. -/
structure Right (s : Items) : Prop where
  filled : ∀ i < s.maxItem, ∃ io, s.iomap[i]? = some (some io)
  length : s.iomap.length = s.maxItem
  entry : ∀ e ∈ s.pmap, e.index < s.maxItem ∧
    ∃ io, s.iomap[e.index]? = some (some io) ∧ io.iopriority = e.priority
  once : ∀ i io, s.iomap[i]? = some (some io) → io.iopriority > 0 →
    (s.pmap.countP fun e => e.index = i) = 1
  polls : ∃ polled, s.iopoll = some polled ∧
    ∀ i io, s.iomap[i]? = some (some io) → polled.count i = prescribed io.iopriority

/-- No item with a priority is rejected for its channel, no item is ignored, and if there is a priority
above one then there are at least three items. -/
structure Orderly (ds : List Description) : Prop where
  late : ∀ d ∈ ds, d.initItem.isSome → d.iopriority > 0 → (accepted cards d).isSome
  polled : ∀ d ∈ ds, ∀ io, accepted cards d = some io → io.ignore = false
  half : (∃ d ∈ ds, (accepted cards d).isSome ∧ d.iopriority > 1) → 3 ≤ (ds.filterMap (accepted cards)).length

variable {cards}

theorem setChannel_iopriority {d : Description} {inf io : IOInfo} (h : setChannel d inf = some io) :
    io.iopriority = inf.iopriority := by
  unfold setChannel at h
  dsimp only at h
  split_ifs at h <;> cases h <;> rfl

theorem accepted_iopriority {d : Description} {io : IOInfo} (h : accepted cards d = some io) :
    d.initItem.isSome ∧ io.iopriority = d.iopriority := by
  unfold accepted at h
  obtain ⟨b, hb, h⟩ := Option.bind_eq_some_iff.mp h
  refine ⟨by rw [hb]; rfl, ?_⟩
  dsimp only at h
  split_ifs at h
  · cases h
    rfl
  · exact setChannel_iopriority h

/-! ## What is read -/

/-- The slots so far hold the items, in order. -/
def Filled (s : Items) (infos : List IOInfo) : Prop :=
  s.maxItem = infos.length ∧ s.iomap.take s.maxItem = infos.map some

theorem Filled.le_length {s : Items} {infos : List IOInfo} (h : Filled s infos) :
    s.maxItem ≤ s.iomap.length := by
  have hlength := congrArg List.length h.2
  rw [List.length_take, List.length_map, ← h.1] at hlength
  omega

theorem filled_store {s : Items} {infos : List IOInfo} (h : Filled s infos)
    (hlt : s.maxItem < s.iomap.length) (inf : IOInfo) : Filled (s.store inf) (infos ++ [inf]) := by
  refine ⟨by rw [List.length_append, ← h.1]; rfl, ?_⟩
  change (s.iomap.set s.maxItem (some inf)).take (s.maxItem + 1) = _
  rw [List.take_add_one, List.take_set_of_le (Nat.le_refl _), h.2, List.getElem?_set_self hlt, List.map_append]
  rfl

theorem take_resize {n k : Nat} {iomap : List (Option IOInfo)} (h : k ≤ iomap.length) (hk : k ≤ n) :
    (resize n iomap).take k = iomap.take k := by
  rw [resize, List.take_append_of_le_length (by rw [List.length_take]; omega), List.take_take,
    Nat.min_eq_left hk]

/-- The entry that is made for a description at a place. -/
def entryOf (d : Description) (k : Nat) : List IOPriority :=
  if d.initItem.isSome ∧ d.iopriority > 0 then [⟨d.iopriority, k⟩] else []

theorem filled_prepare {s : Items} {infos : List IOInfo} (h : Filled s infos) (d : Description) :
    Filled (s.prepare d) infos ∧ (s.prepare d).maxItem < (s.prepare d).iomap.length := by
  have hle := h.le_length
  unfold Items.prepare Filled
  dsimp only
  split_ifs with hfull
  · refine ⟨⟨h.1, by rw [take_resize hle (Nat.le_add_right _ _), h.2]⟩, ?_⟩
    rw [resize, List.length_append, List.length_take, List.length_replicate]
    omega
  · exact ⟨h, Nat.lt_of_not_le hfull⟩

theorem initIOItem_eq (cards : Cards) {s : Items} {infos : List IOInfo} (h : Filled s infos)
    (d : Description) :
    Filled (s.initIOItem cards d).2 (infos ++ (accepted cards d).toList) ∧
      (s.initIOItem cards d).2.pmap = s.pmap ++ entryOf d infos.length := by
  obtain ⟨hprepared, hroom⟩ := filled_prepare h d
  unfold Items.initIOItem accepted
  cases hb : d.initItem with
  | none => simp [h, entryOf, hb]
  | some b =>
    have hpmap : (s.prepare d).pmap = s.pmap ++ entryOf d infos.length := by
      unfold Items.prepare entryOf
      rw [hb, ← h.1]
      by_cases hprior : d.iopriority > 0 <;> simp [hprior]
    dsimp only [Option.bind_some]
    split_ifs
    · exact ⟨filled_store hprepared hroom _, hpmap⟩
    · cases setChannel d (start cards d b) with
      | none => exact ⟨by simpa using hprepared, hpmap⟩
      | some inf => exact ⟨filled_store hprepared hroom inf, hpmap⟩

/-- The entries for the descriptions from a place on. -/
def entries (cards : Cards) : Nat → List Description → List IOPriority
  | _, [] => []
  | k, d :: ds => entryOf d k ++ entries cards (k + (accepted cards d).toList.length) ds

theorem foldl_initIOItem (cards : Cards) {s : Items} {infos : List IOInfo} (h : Filled s infos)
    (ds : List Description) :
    Filled (ds.foldl (fun s d => (s.initIOItem cards d).2) s) (infos ++ ds.filterMap (accepted cards)) ∧
      (ds.foldl (fun s d => (s.initIOItem cards d).2) s).pmap = s.pmap ++ entries cards infos.length ds := by
  induction ds generalizing s infos with
  | nil => simpa [entries] using h
  | cons d ds ih =>
    obtain ⟨hfilled, hpmap⟩ := initIOItem_eq cards h d
    obtain ⟨hrest, hentries⟩ := ih hfilled
    rw [List.foldl_cons]
    refine ⟨?_, ?_⟩
    · rw [List.append_assoc] at hrest
      have hcons : (accepted cards d).toList ++ ds.filterMap (accepted cards) =
          (d :: ds).filterMap (accepted cards) := by
        cases hd : accepted cards d <;> simp [hd]
      rwa [hcons] at hrest
    · rw [hentries, hpmap, entries, List.append_assoc, List.length_append]

theorem readConfiguration_eq (ds : List Description) : Items.readConfiguration cards ds =
    ⟨(ds.filterMap (accepted cards)).map some, (ds.filterMap (accepted cards)).length, entries cards 0 ds⟩ := by
  have hempty : Filled Items.empty [] := ⟨rfl, rfl⟩
  obtain ⟨hfilled, hpmap⟩ := foldl_initIOItem cards hempty ds
  have hle := hfilled.le_length
  rw [List.nil_append] at hfilled
  unfold Items.readConfiguration
  dsimp only
  rw [hpmap, resize, hfilled.2, Nat.sub_eq_zero_of_le hle, hfilled.1, List.replicate_zero, List.append_nil]
  rfl

/-! ## The list of priorities -/

/-- The entries of accepted items from a place on, each with its own place. -/
def ownEntries : Nat → List IOInfo → List IOPriority
  | _, [] => []
  | k, io :: infos => (if io.iopriority > 0 then [⟨io.iopriority, k⟩] else []) ++ ownEntries (k + 1) infos

theorem entries_eq_ownEntries {k : Nat} {ds : List Description}
    (h : ∀ d ∈ ds, d.initItem.isSome → d.iopriority > 0 → (accepted cards d).isSome) :
    entries cards k ds = ownEntries k (ds.filterMap (accepted cards)) := by
  induction ds generalizing k with
  | nil => rfl
  | cons d ds ih =>
    obtain ⟨hd, hrest⟩ := List.forall_mem_cons.mp h
    unfold entries entryOf
    rw [ih hrest]
    cases hacc : accepted cards d with
    | none =>
      rw [List.filterMap_cons_none hacc, if_neg fun hentry => by simpa [hacc] using hd hentry.1 hentry.2]
      rfl
    | some io =>
      obtain ⟨hsome, hprior⟩ := accepted_iopriority hacc
      rw [List.filterMap_cons_some hacc, ownEntries, hprior]
      simp [hsome]

theorem mem_ownEntries {k : Nat} {infos : List IOInfo} {e : IOPriority} (h : e ∈ ownEntries k infos) :
    e.priority > 0 ∧ ∃ j io, infos[j]? = some io ∧ k + j = e.index ∧ io.iopriority = e.priority := by
  induction infos generalizing k with
  | nil => cases h
  | cons io infos ih =>
    unfold ownEntries at h
    rcases List.mem_append.mp h with h | h
    · split_ifs at h with hpos
      · cases List.mem_singleton.mp h
        exact ⟨hpos, 0, io, rfl, rfl, rfl⟩
      · cases h
    · obtain ⟨hpos, j, b, hb, hj, hprior⟩ := ih h
      exact ⟨hpos, j + 1, b, hb, by omega, hprior⟩

/-- An item has one entry above `n` if its priority is. -/
theorem countP_ownEntries {n : Int} (hn : 0 ≤ n) {k j : Nat} {infos : List IOInfo} {io : IOInfo}
    (h : infos[j]? = some io) :
    ((ownEntries k infos).countP fun e => decide (e.index = k + j) && decide (e.priority > n)) =
      if io.iopriority > n then 1 else 0 := by
  induction infos generalizing k j with
  | nil => cases h
  | cons b infos ih =>
    unfold ownEntries
    rw [List.countP_append]
    cases j with
    | zero =>
      cases h
      have hrest : ((ownEntries (k + 1) infos).countP fun e =>
          decide (e.index = k + 0) && decide (e.priority > n)) = 0 := by
        rw [List.countP_eq_zero]
        intro e he
        obtain ⟨-, j, -, -, hj, -⟩ := mem_ownEntries he
        simp only [Bool.and_eq_true, decide_eq_true_eq]
        omega
      rw [hrest]
      by_cases hpos : io.iopriority > 0
      · simp [hpos, List.countP_cons]
      · have hnot : ¬io.iopriority > n := by omega
        simp [hpos, hnot]
    | succ j =>
      have hfirst : ((if b.iopriority > 0 then [(⟨b.iopriority, k⟩ : IOPriority)] else []).countP fun e =>
          decide (e.index = k + (j + 1)) && decide (e.priority > n)) = 0 := by
        split_ifs <;> simp
      rw [hfirst, Nat.zero_add, ← Nat.add_assoc, Nat.add_right_comm]
      exact ih h

/-! ## The polling -/

variable {s : Items}

theorem pollPriority_eq (n : Int) {l : List IOPriority}
    (h : ∀ e ∈ l, ∃ io, s.iomap[e.index]? = some (some io)) :
    s.pollPriority n l = some ((l.filter fun e => e.priority > n).map IOPriority.index) := by
  induction l with
  | nil => rfl
  | cons e l ih =>
    obtain ⟨⟨io, hio⟩, hrest⟩ := List.forall_mem_cons.mp h
    unfold Items.pollPriority
    rw [ih hrest]
    by_cases hprior : e.priority > n
    · simp [hprior, Items.ioread, hio]
    · simp [hprior]

theorem count_pollPriority (n : Int) (l : List IOPriority) (x : Nat) :
    ((l.filter fun e => e.priority > n).map IOPriority.index).count x =
      l.countP fun e => decide (e.index = x) && decide (e.priority > n) := by
  rw [List.count, List.countP_map, List.countP_filter]
  refine List.countP_congr fun e _ => ?_
  simp

/-- The pass meets an item that is not ignored in the second half. -/
def crosses (half : Nat) : Nat → List IOInfo → Bool
  | _, [] => false
  | i, io :: infos => !io.ignore && decide (i > half) || crosses half (i + 1) infos

/-- The places of the items that are not ignored. -/
def places : Nat → List IOInfo → List Nat
  | _, [] => []
  | i, io :: infos => if io.ignore then places (i + 1) infos else i :: places (i + 1) infos

/-- The pass goes through, and it polls the items and, half way, those of the list. -/
theorem pollAll_perm {again : List Nat} (hagain : s.pollPriority 1 s.pmap = some again) (prior : Bool)
    (i : Nat) (infos : List IOInfo) : ∃ polled, s.pollAll prior i (infos.map some) = some polled ∧
      polled.Perm (places i infos ++ if !prior && crosses s.maxHalf i infos then again else []) := by
  induction infos generalizing prior i with
  | nil => exact ⟨[], rfl, by simp [places, crosses]⟩
  | cons io infos ih =>
    rw [List.map_cons]
    unfold Items.pollAll places crosses
    cases hignore : io.ignore with
    | true => simpa using ih prior (i + 1)
    | false =>
      by_cases hhalf : (!prior && decide (i > s.maxHalf)) = true
      · obtain ⟨rest, hrest, hperm⟩ := ih true (i + 1)
        rw [Bool.not_true, Bool.false_and, if_neg Bool.false_ne_true, List.append_nil] at hperm
        obtain ⟨hprior, hi⟩ := Bool.and_eq_true _ _ ▸ hhalf
        refine ⟨i :: again ++ rest, by simp [hhalf, hagain, hrest], ?_⟩
        simp only [hi, hprior, Bool.not_false, Bool.and_self, Bool.true_or, if_true,
          Bool.false_eq_true, if_false, List.cons_append]
        exact (List.perm_append_comm.trans (hperm.append_right again)).cons i
      · obtain ⟨rest, hrest, hperm⟩ := ih prior (i + 1)
        refine ⟨i :: rest, by simp [hhalf, hrest], ?_⟩
        have hsame : (!prior && (!false && decide (i > s.maxHalf) || crosses s.maxHalf (i + 1) infos)) =
            (!prior && crosses s.maxHalf (i + 1) infos) := by
          revert hhalf
          cases prior <;> cases decide (i > s.maxHalf) <;> simp
        rw [hsame]
        exact hperm.cons i

theorem le_of_mem_places {i x : Nat} {infos : List IOInfo} (h : x ∈ places i infos) : i ≤ x := by
  induction infos generalizing i with
  | nil => cases h
  | cons io infos ih =>
    unfold places at h
    split_ifs at h
    · exact Nat.le_of_succ_le (ih h)
    · rcases List.mem_cons.mp h with rfl | h
      · exact Nat.le_refl _
      · exact Nat.le_of_succ_le (ih h)

theorem count_places {i j : Nat} {infos : List IOInfo} {io : IOInfo} (h : infos[j]? = some io) :
    (places i infos).count (i + j) = if io.ignore then 0 else 1 := by
  induction infos generalizing i j with
  | nil => cases h
  | cons b infos ih =>
    unfold places
    cases j with
    | zero =>
      cases h
      have hrest : (places (i + 1) infos).count (i + 0) = 0 :=
        List.count_eq_zero_of_not_mem fun hmem => absurd (le_of_mem_places hmem) (Nat.not_succ_le_self i)
      split_ifs
      · exact hrest
      · rw [Nat.add_zero] at hrest ⊢
        rw [List.count_cons_self, hrest]
    | succ j =>
      have hnext := ih (i := i + 1) h
      rw [Nat.add_right_comm, Nat.add_assoc] at hnext
      by_cases hb : b.ignore = true
      · rw [if_pos hb, hnext]
      · rw [if_neg hb, List.count_cons_of_ne (by omega), hnext]

theorem crosses_iff {half i : Nat} {infos : List IOInfo} (h : ∀ io ∈ infos, io.ignore = false) :
    crosses half i infos = true ↔ ∃ j < infos.length, half < i + j := by
  induction infos generalizing i with
  | nil => simp [crosses]
  | cons io infos ih =>
    obtain ⟨hfirst, hrest⟩ := List.forall_mem_cons.mp h
    unfold crosses
    rw [hfirst, Bool.or_eq_true, ih hrest]
    constructor
    · rintro (hi | ⟨j, hj, hhalf⟩)
      · exact ⟨0, Nat.zero_lt_succ _, by simpa using hi⟩
      · exact ⟨j + 1, Nat.succ_lt_succ hj, by omega⟩
    · rintro ⟨j, hj, hhalf⟩
      cases j with
      | zero => exact .inl (by simpa using hhalf)
      | succ j => exact .inr ⟨j, Nat.lt_of_succ_lt_succ hj, by omega⟩

/-! ## All together -/

/-- The items and their own entries, with nothing left over from those that were rejected. -/
def itemsOf (infos : List IOInfo) : Items := ⟨infos.map some, infos.length, ownEntries 0 infos⟩

theorem slot_iff {infos : List IOInfo} {i : Nat} {io : IOInfo} :
    (infos.map some)[i]? = some (some io) ↔ infos[i]? = some io := by
  simp

theorem entry_itemsOf {infos : List IOInfo} {e : IOPriority} (h : e ∈ ownEntries 0 infos) :
    e.index < infos.length ∧
      ∃ io, (itemsOf infos).iomap[e.index]? = some (some io) ∧ io.iopriority = e.priority := by
  obtain ⟨-, j, io, hio, hj, hprior⟩ := mem_ownEntries h
  rw [Nat.zero_add] at hj
  subst hj
  exact ⟨(List.getElem?_eq_some_iff.mp hio).1, io, slot_iff.mpr hio, hprior⟩

/-- What a pass over the list polls. -/
def passOf (n : Int) (infos : List IOInfo) : List Nat :=
  ((ownEntries 0 infos).filter fun e => e.priority > n).map IOPriority.index

theorem pollPriority_itemsOf (n : Int) (infos : List IOInfo) :
    (itemsOf infos).pollPriority n (itemsOf infos).pmap = some (passOf n infos) :=
  pollPriority_eq n fun _ he =>
    have ⟨_, io, hio, _⟩ := entry_itemsOf he
    ⟨io, hio⟩

theorem count_passOf {n : Int} (hn : 0 ≤ n) {infos : List IOInfo} {i : Nat} {io : IOInfo}
    (h : infos[i]? = some io) : (passOf n infos).count i = if io.iopriority > n then 1 else 0 := by
  have hcount := countP_ownEntries (k := 0) hn h
  rw [Nat.zero_add] at hcount
  rw [passOf, count_pollPriority, hcount]

/-- How often an item is polled. -/
theorem count_iopoll (infos : List IOInfo) : ∃ polled, (itemsOf infos).iopoll = some polled ∧
    ∀ i io, infos[i]? = some io → polled.count i =
      (if io.iopriority > 0 then 1 else 0) + ((if io.ignore then 0 else 1) +
        if crosses (infos.length / 2) 0 infos ∧ io.iopriority > 1 then 1 else 0) +
      if io.iopriority > 2 then 1 else 0 := by
  obtain ⟨all, hall, hperm⟩ := pollAll_perm (pollPriority_itemsOf 1 infos) false 0 infos
  refine ⟨passOf 0 infos ++ all ++ passOf 2 infos, ?_, fun i io hio => ?_⟩
  · have hmap : (itemsOf infos).iomap = infos.map some := rfl
    unfold Items.iopoll
    rw [pollPriority_itemsOf, pollPriority_itemsOf, hmap, hall]
    rfl
  · have hplaces : (places 0 infos).count i = if io.ignore then 0 else 1 := by
      simpa only [Nat.zero_add] using count_places (i := 0) hio
    rw [List.count_append, List.count_append, count_passOf (by decide) hio, count_passOf (by decide) hio,
      hperm.count_eq, List.count_append, hplaces]
    congr 3
    have hhalf : (itemsOf infos).maxHalf = infos.length / 2 := rfl
    rw [Bool.not_false, Bool.true_and, hhalf]
    by_cases hcross : crosses (infos.length / 2) 0 infos = true
    · rw [if_pos hcross, count_passOf (by decide) hio]
      simp [hcross]
    · rw [if_neg hcross, if_neg fun h => hcross h.1]
      rfl

/-- The number of calls is as prescribed exactly for an item that is not ignored, and if its priority is
above one then only if the pass over the items meets the second half. -/
theorem count_eq_prescribed_iff {io : IOInfo} {cross : Prop} [Decidable cross] :
    (if io.iopriority > 0 then 1 else 0) + ((if io.ignore then 0 else 1) +
        if cross ∧ io.iopriority > 1 then 1 else 0) + (if io.iopriority > 2 then 1 else 0) =
      prescribed io.iopriority ↔ io.ignore = false ∧ (io.iopriority > 1 → cross) := by
  unfold prescribed
  by_cases hcross : cross
  · cases io.ignore
    · simp [hcross]
      omega
    · simp [hcross]
  · cases io.ignore <;> simp [hcross] <;> split_ifs <;> omega

/-- Without items rejected for their channels the rest decides. -/
theorem right_itemsOf_iff (infos : List IOInfo) : Right (itemsOf infos) ↔
    (∀ io ∈ infos, io.ignore = false) ∧ ((∃ io ∈ infos, io.iopriority > 1) → 3 ≤ infos.length) := by
  obtain ⟨polled, hpolled, hcount⟩ := count_iopoll infos
  have hpolls : (∃ polled, (itemsOf infos).iopoll = some polled ∧
      ∀ i io, (itemsOf infos).iomap[i]? = some (some io) → polled.count i = prescribed io.iopriority) ↔
      ∀ io ∈ infos, io.ignore = false ∧ (io.iopriority > 1 → crosses (infos.length / 2) 0 infos = true) := by
    constructor
    · rintro ⟨polled', hpolled', hall⟩ io hio
      cases hpolled.symm.trans hpolled'
      obtain ⟨i, hi⟩ := List.mem_iff_getElem?.mp hio
      rw [← count_eq_prescribed_iff, ← hcount i io hi]
      exact hall i io (slot_iff.mpr hi)
    · intro hall
      refine ⟨polled, hpolled, fun i io hi => ?_⟩
      rw [hcount i io (slot_iff.mp hi), count_eq_prescribed_iff]
      exact hall io (List.mem_of_getElem? (slot_iff.mp hi))
  have hcross (h : ∀ io ∈ infos, io.ignore = false) :
      crosses (infos.length / 2) 0 infos = true ↔ 3 ≤ infos.length := by
    rw [crosses_iff h]
    constructor
    · rintro ⟨j, hj, hhalf⟩
      omega
    · intro hlength
      exact ⟨infos.length - 1, by omega, by omega⟩
  constructor
  · intro hright
    have hall := hpolls.mp hright.polls
    refine ⟨fun io hio => (hall io hio).1, fun ⟨io, hio, hprior⟩ => ?_⟩
    exact (hcross fun io hio => (hall io hio).1).mp ((hall io hio).2 hprior)
  · rintro ⟨hignore, hhalf⟩
    refine ⟨fun i hi => ?_, List.length_map _, fun e he => entry_itemsOf he, fun i io hi hprior => ?_,
      hpolls.mpr fun io hio => ⟨hignore io hio, fun hprior => (hcross hignore).mpr (hhalf ⟨io, hio, hprior⟩)⟩⟩
    · exact ⟨_, slot_iff.mpr (List.getElem?_eq_getElem hi)⟩
    · have hcount := countP_ownEntries (k := 0) (Int.le_refl 0) (slot_iff.mp hi)
      rw [Nat.zero_add, if_pos hprior] at hcount
      refine Eq.trans (List.countP_congr fun e he => ?_) hcount
      simp [(mem_ownEntries he).1]

theorem entries_append (k : Nat) (pre post : List Description) : entries cards k (pre ++ post) =
    entries cards k pre ++ entries cards (k + (pre.filterMap (accepted cards)).length) post := by
  induction pre generalizing k with
  | nil => rfl
  | cons d pre ih =>
    rw [List.cons_append, entries, ih, entries, List.append_assoc]
    cases hd : accepted cards d with
    | none => simp [hd]
    | some io => simp [hd, Nat.add_assoc, Nat.add_comm]

/-- The item that takes a place enters it into the list if it has a priority. -/
theorem entry_of_first {k : Nat} {ds : List Description} {io : IOInfo}
    (h : (ds.filterMap (accepted cards))[0]? = some io) (hprior : io.iopriority > 0) :
    ∃ e ∈ entries cards k ds, e.index = k := by
  induction ds with
  | nil => cases h
  | cons d ds ih =>
    unfold entries
    cases hd : accepted cards d with
    | none =>
      rw [List.filterMap_cons_none hd] at h
      obtain ⟨e, he, hindex⟩ := ih h
      exact ⟨e, List.mem_append_right _ he, hindex⟩
    | some b =>
      rw [List.filterMap_cons_some hd] at h
      cases h
      obtain ⟨hsome, heq⟩ := accepted_iopriority hd
      refine ⟨⟨d.iopriority, k⟩, List.mem_append_left _ ?_, rfl⟩
      rw [entryOf, if_pos ⟨hsome, heq ▸ hprior⟩]
      exact List.mem_singleton_self _

/-- The entry of a rejected item is that of the next one, or of none. -/
theorem not_right_of_late {ds : List Description} {d : Description} (hd : d ∈ ds)
    (hsome : d.initItem.isSome) (hprior : d.iopriority > 0) (hlate : accepted cards d = none) :
    ¬Right (Items.readConfiguration cards ds) := by
  obtain ⟨pre, post, rfl⟩ := List.append_of_mem hd
  rw [readConfiguration_eq, entries_append, entries, entryOf, if_pos ⟨hsome, hprior⟩, hlate,
    List.filterMap_append, List.filterMap_cons_none hlate, Nat.zero_add]
  intro h
  obtain ⟨-, io, hio, heq⟩ := h.entry ⟨d.iopriority, (pre.filterMap (accepted cards)).length⟩
    (by simp)
  have hfirst : (post.filterMap (accepted cards))[0]? = some io := by
    rw [slot_iff, List.getElem?_append_right (Nat.le_refl _), Nat.sub_self] at hio
    exact hio
  have hpos : io.iopriority > 0 := heq ▸ hprior
  obtain ⟨e, he, hindex⟩ := entry_of_first (k := (pre.filterMap (accepted cards)).length) hfirst hpos
  have honce := h.once _ io hio hpos
  have hsecond : 0 < (entries cards (pre.filterMap (accepted cards)).length post).countP
      fun e => e.index = (pre.filterMap (accepted cards)).length :=
    List.countP_pos_iff.mpr ⟨e, he, by simpa using hindex⟩
  simp only [List.countP_append, List.countP_cons, List.countP_nil, Option.toList_none, List.length_nil,
    Nat.add_zero, decide_true, if_true] at honce
  omega

/-- The configuration is read right, and is polled as prescribed, exactly when it is orderly. -/
theorem right_readConfiguration_iff (cards : Cards) (ds : List Description) :
    Right (Items.readConfiguration cards ds) ↔ Orderly cards ds := by
  by_cases hlate : ∀ d ∈ ds, d.initItem.isSome → d.iopriority > 0 → (accepted cards d).isSome
  · have hitems : Items.readConfiguration cards ds = itemsOf (ds.filterMap (accepted cards)) := by
      rw [readConfiguration_eq, entries_eq_ownEntries hlate]
      rfl
    have hpriority : (∃ d ∈ ds, (accepted cards d).isSome ∧ d.iopriority > 1) ↔
        ∃ io ∈ ds.filterMap (accepted cards), io.iopriority > 1 := by
      constructor
      · rintro ⟨d, hd, hacc, hprior⟩
        obtain ⟨io, hio⟩ := Option.isSome_iff_exists.mp hacc
        exact ⟨io, List.mem_filterMap.mpr ⟨d, hd, hio⟩, (accepted_iopriority hio).2 ▸ hprior⟩
      · rintro ⟨io, hio, hprior⟩
        obtain ⟨d, hd, hacc⟩ := List.mem_filterMap.mp hio
        exact ⟨d, hd, by rw [hacc]; rfl, (accepted_iopriority hacc).2 ▸ hprior⟩
    rw [hitems, right_itemsOf_iff, ← hpriority]
    constructor
    · rintro ⟨hignore, hhalf⟩
      exact ⟨hlate, fun d hd io hio => hignore io (List.mem_filterMap.mpr ⟨d, hd, hio⟩), hhalf⟩
    · rintro ⟨-, hpolled, hhalf⟩
      refine ⟨fun io hio => ?_, hhalf⟩
      obtain ⟨d, hd, hacc⟩ := List.mem_filterMap.mp hio
      exact hpolled d hd io hacc
  · refine iff_of_false ?_ fun h => hlate h.late
    push Not at hlate
    obtain ⟨d, hd, hsome, hprior, hnone⟩ := hlate
    exact not_right_of_late hd hsome hprior (Option.not_isSome_iff_eq_none.mp (by simpa using hnone))

/-- A discrete output with a priority, in a channel that there is or is not. -/
def output (iopriority channel : Int) : Description :=
  ⟨"1", 0, "", some ⟨.DO, DefaultObjectId, false⟩, iopriority, channel, 0, 0, 0⟩

/-- The last output is rejected, and its place is polled. -/
theorem not_right_rejected : ¬Right (Items.readConfiguration ⟨2, -1⟩ [output 0 0, output 1 33]) :=
  not_right_of_late (d := output 1 33) (List.mem_cons_of_mem _ List.mem_cons_self) rfl (by decide) rfl

end Uniset.IOControl.Priority
