import Mathlib.Data.List.TakeWhile
import Uniset.Processes.USensorInfo

/-! The test modes: the outputs that are not polled any more, and their safe states. -/

namespace Uniset.IOControl.TestMode

open Uniset.Processes (IOType)

def tmNone : Int := 0
def tmOffPoll : Int := 1
def tmConfigEnable : Int := 2
def tmConfigDisable : Int := 3
def tmOnlyInputs : Int := 4
def tmOnlyOutputs : Int := 5

def DefaultSubdev : Int := -1
def DefaultChannel : Int := -1

structure IOInfo where
  id : ObjectId
  stype : IOType
  ncard : Int
  subdev : Int
  channel : Int
  range : Int
  aref : Int
  ignore : Bool
  invert : Bool
  lamp : Bool
  safeval : Int
  safevalDefined : Bool
  enable_testmode : Bool
  disable_testmode : Bool

/-- `cards` tells which cards are there. -/
structure Config where
  iomap : List IOInfo
  cards : List Bool
  defCardNum : Int
  testMode_as : ObjectId
  force_out : Bool

structure Modes where
  testmode : Int
  prev_testmode : Int
  deriving DecidableEq

/-- What is sent to a card. -/
inductive CardWrite
  | setDigitalChannel (subdev channel : Int) (set : Bool)
  | setAnalogChannel (subdev channel value range aref : Int)
  deriving DecidableEq

/-- The first card has the number one. -/
def getCard (cards : List Bool) (ncard : Int) : Bool :=
  0 < ncard && cards.getD ncard.toNat false

/-- The channels that are shut out of a mode. -/
def IOInfo.excluded (it : IOInfo) (testmode : Int) : Bool :=
  testmode = tmConfigEnable && !it.enable_testmode || testmode = tmConfigDisable && it.disable_testmode

def IOInfo.isOutput (it : IOInfo) : Bool := it.stype = .AO || it.stype = .DO

def IOInfo.isInput (it : IOInfo) : Bool := it.stype = .AI || it.stype = .DI

variable (c : Config)

/-- `ioread` gets as far as the card. -/
def ioread (testmode : Int) (it : IOInfo) : Bool :=
  !(it.ignore || it.ncard = c.defCardNum) &&
    !(testmode ≠ tmNone && (it.excluded testmode || testmode = tmOnlyInputs && !it.isInput ||
      testmode = tmOnlyOutputs && !it.isOutput)) &&
    !(!getCard c.cards it.ncard || it.subdev = DefaultSubdev || it.channel = DefaultChannel) &&
    it.id ≠ DefaultObjectId

/-- The polling drives the output. -/
def drives (testmode : Int) (it : IOInfo) : Bool :=
  it.isOutput && testmode ≠ tmOffPoll && ioread c testmode it

/-- The safe state of an output. -/
def safeWrite (it : IOInfo) : Option CardWrite :=
  if it.stype = .DO ∨ it.lamp then
    some (.setDigitalChannel it.subdev it.channel (if it.invert then !(it.safeval != 0) else it.safeval != 0))
  else if it.stype = .AO then
    some (.setAnalogChannel it.subdev it.channel it.safeval it.range it.aref)
  else none

def present (it : IOInfo) : Bool := !it.ignore && getCard c.cards it.ncard

/-- The loop over the items from a place on.  It ends at the first that is there and is shut out. -/
def safeStates (testmode : Int) : Nat → List IOInfo → List (Nat × CardWrite)
  | _, [] => []
  | i, it :: rest =>
    if !present c it then safeStates testmode (i + 1) rest
    else if it.excluded testmode then []
    else if it.subdev = DefaultSubdev ∨ !it.safevalDefined then safeStates testmode (i + 1) rest
    else (safeWrite it).toList.map (i, ·) ++ safeStates testmode (i + 1) rest

/-- The mode that is to be handled; `value` is what `SharedMemory` answers. -/
def requested (s : Modes) (value : Option Int) : Option Int :=
  if c.testMode_as = DefaultObjectId then none
  else if c.force_out then value
  else some s.testmode

/-- What is written is listed with the places of the items. -/
def check_testmode (s : Modes) (value : Option Int) : Modes × List (Nat × CardWrite) :=
  match requested c s value with
  | none => (s, [])
  | some m =>
    if s.prev_testmode = m then ({ s with testmode := m }, [])
    else (⟨m, m⟩,
      if m = tmOffPoll ∨ m = tmConfigEnable ∨ m = tmConfigDisable then safeStates c m 0 c.iomap else [])

/-- The outputs that are not driven any more are in their safe states, and those that are driven have
not been touched. -/
structure Safe (m : Int) (writes : List (Nat × CardWrite)) : Prop where
  left : ∀ i it, c.iomap[i]? = some it → drives c tmNone it = true → drives c m it = false →
    it.safevalDefined = true → ∃ w, safeWrite it = some w ∧ (i, w) ∈ writes
  stays : ∀ i it, c.iomap[i]? = some it → drives c m it = true → ∀ w, (i, w) ∉ writes

/-- All polling is off; or no output that leaves the polling has a safe value, and none that stays and
has one comes before the first item that leaves it. -/
def Clear (m : Int) : Prop :=
  m = tmOffPoll ∨
    (∀ it ∈ c.iomap, drives c tmNone it = true → it.excluded m = true → it.safevalDefined = false) ∧
    ∀ it ∈ c.iomap.takeWhile fun it => !(present c it && it.excluded m),
      drives c m it = true → it.safevalDefined = false

variable {c} {m : Int} {it : IOInfo}

theorem drives_none_iff : drives c tmNone it = true ↔
    it.isOutput = true ∧ (it.ignore = false ∧ it.ncard ≠ c.defCardNum) ∧
      (getCard c.cards it.ncard = true ∧ it.subdev ≠ DefaultSubdev ∧ it.channel ≠ DefaultChannel) ∧
      it.id ≠ DefaultObjectId := by
  simp [drives, ioread, tmNone, tmOffPoll, and_assoc]

/-- In a configured mode the excluded outputs are not driven, and the others as without a mode. -/
theorem drives_iff (hm : m = tmConfigEnable ∨ m = tmConfigDisable) :
    drives c m it = true ↔ drives c tmNone it = true ∧ it.excluded m = false := by
  have hmode : m ≠ tmOffPoll ∧ m ≠ tmNone ∧ m ≠ tmOnlyInputs ∧ m ≠ tmOnlyOutputs := by
    rcases hm with rfl | rfl <;> decide
  obtain ⟨hoff, hnone, hin, hout⟩ := hmode
  rw [drives_none_iff]
  simp [drives, ioread, hoff, hnone, hin, hout]
  tauto

theorem present_of_drives (h : drives c tmNone it = true) : present c it = true := by
  obtain ⟨-, ⟨hignore, -⟩, ⟨hcard, -⟩, -⟩ := drives_none_iff.mp h
  simp [present, hignore, hcard]

theorem safeWrite_of_drives (h : drives c tmNone it = true) : ∃ w, safeWrite it = some w := by
  obtain ⟨hout, -⟩ := drives_none_iff.mp h
  rw [IOInfo.isOutput, Bool.or_eq_true, decide_eq_true_eq, decide_eq_true_eq] at hout
  unfold safeWrite
  by_cases hdigital : it.stype = .DO ∨ it.lamp
  · exact ⟨_, if_pos hdigital⟩
  · have hanalog : it.stype = .AO := hout.resolve_right fun hDO => hdigital (.inl hDO)
    rw [if_neg hdigital, if_pos hanalog]
    exact ⟨_, rfl⟩

/-- The item gets its safe state when the loop comes to it. -/
def Settable (c : Config) (it : IOInfo) : Prop :=
  present c it = true ∧ it.subdev ≠ DefaultSubdev ∧ it.safevalDefined = true

theorem settable_of_drives (h : drives c tmNone it = true) (hsafe : it.safevalDefined = true) :
    Settable c it := by
  obtain ⟨-, -, ⟨-, hsubdev, -⟩, -⟩ := drives_none_iff.mp h
  exact ⟨present_of_drives h, hsubdev, hsafe⟩

/-- The loop sets the items up to the first at which it ends. -/
theorem mem_safeStates {i k : Nat} {w : CardWrite} {items : List IOInfo} :
    (i, w) ∈ safeStates c m k items ↔ ∃ j it, i = k + j ∧
      (items.takeWhile fun it => !(present c it && it.excluded m))[j]? = some it ∧
      Settable c it ∧ safeWrite it = some w := by
  induction items generalizing k with
  | nil => simp [safeStates]
  | cons it items ih =>
    have hhead (rest : List IOInfo) :
        (∃ j b, i = k + j ∧ (it :: rest)[j]? = some b ∧ Settable c b ∧ safeWrite b = some w) ↔
          (i = k ∧ Settable c it ∧ safeWrite it = some w) ∨
            ∃ j b, i = k + 1 + j ∧ rest[j]? = some b ∧ Settable c b ∧ safeWrite b = some w := by
      constructor
      · rintro ⟨j, b, rfl, hb, hset⟩
        cases j with
        | zero =>
          cases hb
          exact .inl ⟨rfl, hset⟩
        | succ j => exact .inr ⟨j, b, by omega, hb, hset⟩
      · rintro (⟨rfl, hset⟩ | ⟨j, b, rfl, hb⟩)
        · exact ⟨0, it, rfl, rfl, hset⟩
        · exact ⟨j + 1, b, by omega, hb⟩
    unfold safeStates
    by_cases hpresent : present c it = true
    · rw [if_neg (by simp [hpresent])]
      by_cases hstop : it.excluded m = true
      · rw [if_pos hstop, List.takeWhile_cons_of_neg (by simp [hpresent, hstop])]
        simp
      · rw [if_neg hstop, List.takeWhile_cons_of_pos (by simp [hstop]), hhead]
        by_cases hskip : it.subdev = DefaultSubdev ∨ !it.safevalDefined
        · have hunset : ¬Settable c it := fun h =>
            hskip.elim h.2.1 fun hnot => absurd h.2.2 (by simpa using hnot)
          rw [if_pos hskip, ih, or_iff_right fun h => hunset h.2.1]
        · have hset : Settable c it := by
            rw [not_or] at hskip
            exact ⟨hpresent, hskip.1, by simpa using hskip.2⟩
          rw [if_neg hskip, List.mem_append, ih]
          refine or_congr_left ?_
          simp [hset, eq_comm, and_comm]
    · rw [if_pos (by simpa using hpresent), List.takeWhile_cons_of_pos (by simp [hpresent]), hhead, ih,
        or_iff_right fun h => hpresent h.2.1.1]

theorem getElem?_of_takeWhile {p : IOInfo → Bool} {l : List IOInfo} {j : Nat}
    (h : (l.takeWhile p)[j]? = some it) : l[j]? = some it := by
  obtain ⟨rest, hrest⟩ := List.takeWhile_prefix (l := l) p
  obtain ⟨hj, -⟩ := List.getElem?_eq_some_iff.mp h
  rw [← hrest, List.getElem?_append_left hj, h]

theorem safe_safeStates_off : Safe c tmOffPoll (safeStates c tmOffPoll 0 c.iomap) := by
  refine ⟨fun i it hit hdrives _ hsafe => ?_, fun i it _ hdrives => ?_⟩
  · obtain ⟨w, hw⟩ := safeWrite_of_drives hdrives
    refine ⟨w, hw, mem_safeStates.mpr ⟨i, it, (Nat.zero_add i).symm, ?_, settable_of_drives hdrives hsafe, hw⟩⟩
    rwa [List.takeWhile_eq_self_iff.mpr fun b _ => by simp [IOInfo.excluded, tmOffPoll, tmConfigEnable, tmConfigDisable]]
  · simp [drives] at hdrives

/-- In a configured mode what the loop does is safe exactly when the items allow it. -/
theorem safe_safeStates_iff (hm : m = tmConfigEnable ∨ m = tmConfigDisable) :
    Safe c m (safeStates c m 0 c.iomap) ↔ Clear c m := by
  have hoff : m ≠ tmOffPoll := by rcases hm with rfl | rfl <;> decide
  rw [Clear, or_iff_right hoff]
  constructor
  · rintro ⟨hleft, hstays⟩
    refine ⟨fun it hit hdrives hexcluded => ?_, fun it hit hdrives => ?_⟩
    · by_contra hsafe
      rw [Bool.not_eq_false] at hsafe
      obtain ⟨i, hi⟩ := List.mem_iff_getElem?.mp hit
      have hnot : drives c m it = false := by
        rw [← Bool.not_eq_true, drives_iff hm, hexcluded]
        exact fun h => Bool.noConfusion h.2
      obtain ⟨w, -, hw⟩ := hleft i it hi hdrives hnot hsafe
      obtain ⟨j, b, hj, hb, -, -⟩ := mem_safeStates.mp hw
      rw [Nat.zero_add] at hj
      subst hj
      cases hi.symm.trans (getElem?_of_takeWhile hb)
      have hgo := List.mem_takeWhile_imp (List.mem_of_getElem? hb)
      simp [present_of_drives hdrives, hexcluded] at hgo
    · by_contra hsafe
      rw [Bool.not_eq_false] at hsafe
      obtain ⟨j, hj⟩ := List.mem_iff_getElem?.mp hit
      have hnone := ((drives_iff hm).mp hdrives).1
      obtain ⟨w, hw⟩ := safeWrite_of_drives hnone
      exact hstays j it (getElem?_of_takeWhile hj) hdrives w
        (mem_safeStates.mpr ⟨j, it, (Nat.zero_add j).symm, hj, settable_of_drives hnone hsafe, hw⟩)
  · rintro ⟨hleaving, hstaying⟩
    refine ⟨fun i it hi hdrives hnot hsafe => ?_, fun i it hi hdrives w hw => ?_⟩
    · have hexcluded : it.excluded m = true := by
        by_contra hno
        exact absurd ((drives_iff hm).mpr ⟨hdrives, Bool.not_eq_true _ ▸ hno⟩) (by simp [hnot])
      rw [hleaving it (List.mem_of_getElem? hi) hdrives hexcluded] at hsafe
      cases hsafe
    · obtain ⟨j, b, hj, hb, hset, -⟩ := mem_safeStates.mp hw
      rw [Nat.zero_add] at hj
      subst hj
      cases hi.symm.trans (getElem?_of_takeWhile hb)
      exact absurd hset.2.2 (by simp [hstaying it (List.mem_of_getElem? hb) hdrives])

/-- When a change of the mode is handled, the outputs are made safe exactly when the items allow it. -/
theorem safe_check_testmode_iff (c : Config) (s : Modes) (value : Option Int) (m : Int)
    (hm : m = tmOffPoll ∨ m = tmConfigEnable ∨ m = tmConfigDisable)
    (hrequest : requested c s value = some m) (hchange : s.prev_testmode ≠ m) :
    Safe c m (check_testmode c s value).2 ↔ Clear c m := by
  have hwrites : (check_testmode c s value).2 = safeStates c m 0 c.iomap := by
    unfold check_testmode
    rw [hrequest]
    dsimp only
    rw [if_neg hchange, if_pos hm]
  rw [hwrites]
  rcases hm with rfl | hm
  · exact iff_of_true safe_safeStates_off (.inl rfl)
  · exact safe_safeStates_iff hm

def lampOf (id : ObjectId) (channel : Int) (enable : Bool) : IOInfo :=
  ⟨id, .DO, 1, 0, channel, 0, 0, false, false, false, 0, true, enable, false⟩

/-- A card with two outputs, of which the first is to go on working in the configured mode. -/
def twoOutputs : Config := ⟨[lampOf 10 0 true, lampOf 11 1 false], [false, true], -1, 5, true⟩

theorem safe_twoOutputs_off : Safe twoOutputs tmOffPoll (check_testmode twoOutputs ⟨0, 0⟩ (some 1)).2 :=
  (safe_check_testmode_iff twoOutputs ⟨0, 0⟩ (some 1) tmOffPoll (.inl rfl) rfl (by decide)).mpr (.inl rfl)

/-- The output that goes on working is switched off, and the other one is left as it is. -/
theorem not_safe_twoOutputs_enable :
    ¬Safe twoOutputs tmConfigEnable (check_testmode twoOutputs ⟨0, 0⟩ (some 2)).2 := by
  intro h
  have hwrites : (check_testmode twoOutputs ⟨0, 0⟩ (some 2)).2 = [(0, .setDigitalChannel 0 0 false)] := by
    decide
  rw [hwrites] at h
  exact h.stays 0 (lampOf 10 0 true) rfl (by decide) _ List.mem_cons_self

end Uniset.IOControl.TestMode
