import Uniset.Lib.GuardedRun
import Uniset.Processes.USensorInfo
import Mathlib.Data.List.Nodup
import Mathlib.Logic.Function.Basic

/-! Lamps, and the lists of those that blink. -/

namespace Uniset.IOControl

open Uniset.Lib

open Uniset.Processes (IOType)

/-! ## Blink lists -/

/-- The places in the map of inputs and outputs of the lamps that blink together. -/
structure BlinkList where
  places : List Nat
  nodup : places.Nodup

namespace BlinkList

instance : Membership Nat BlinkList := ⟨fun l i => i ∈ l.places⟩

instance (i : Nat) (l : BlinkList) : Decidable (i ∈ l) :=
  inferInstanceAs (Decidable (i ∈ l.places))

def empty : BlinkList := ⟨[], List.nodup_nil⟩

def add (l : BlinkList) (i : Nat) : BlinkList :=
  if h : i ∈ l.places then l
  else ⟨l.places ++ [i], List.nodup_append.mpr ⟨l.nodup, List.nodup_singleton i,
    fun _ ha _ hb heq => h (List.mem_singleton.mp hb ▸ heq ▸ ha)⟩⟩

def del (l : BlinkList) (i : Nat) : BlinkList := ⟨l.places.erase i, l.nodup.erase i⟩

@[simp] theorem not_mem_empty (i : Nat) : i ∉ empty := List.not_mem_nil

@[simp] theorem mem_add {l : BlinkList} {i j : Nat} : j ∈ l.add i ↔ j ∈ l ∨ j = i := by
  unfold add
  split_ifs with h
  · refine ⟨.inl, fun hor => hor.elim id ?_⟩
    rintro rfl
    exact h
  · change j ∈ l.places ++ [i] ↔ j ∈ l.places ∨ j = i
    rw [List.mem_append, List.mem_singleton]

@[simp] theorem mem_del {l : BlinkList} {i j : Nat} : j ∈ l.del i ↔ j ∈ l ∧ j ≠ i := by
  change j ∈ l.places.erase i ↔ j ∈ l.places ∧ j ≠ i
  rw [l.nodup.mem_erase_iff, and_comm]

end BlinkList

inductive Period
  | blink
  | blink2
  | blink3
  deriving DecidableEq

/-- The three lists. -/
abbrev BlinkLists := Period → BlinkList

def addBlink (ls : BlinkLists) (i : Nat) (b : Period) : BlinkLists :=
  Function.update ls b ((ls b).add i)

def delBlink (ls : BlinkLists) (i : Nat) (b : Period) : BlinkLists :=
  Function.update ls b ((ls b).del i)

@[simp] theorem mem_addBlink {ls : BlinkLists} {i j : Nat} {b b' : Period} :
    j ∈ addBlink ls i b b' ↔ j ∈ ls b' ∨ j = i ∧ b' = b := by
  unfold addBlink
  by_cases hb : b' = b
  · subst hb
    simp
  · simp [hb]

@[simp] theorem mem_delBlink {ls : BlinkLists} {i j : Nat} {b b' : Period} :
    j ∈ delBlink ls i b b' ↔ j ∈ ls b' ∧ ¬(j = i ∧ b' = b) := by
  unfold delBlink
  by_cases hb : b' = b
  · subst hb
    simp
  · simp [hb]

def delAll (ls : BlinkLists) (i : Nat) : BlinkLists :=
  delBlink (delBlink (delBlink ls i .blink) i .blink2) i .blink3

@[simp] theorem mem_delAll {ls : BlinkLists} {i j : Nat} {b : Period} :
    j ∈ delAll ls i b ↔ j ∈ ls b ∧ j ≠ i := by
  unfold delAll
  cases b <;> simp

/-! ## The lamps -/

def lmpOFF : Int := 0
def lmpON : Int := 1
def lmpBLINK : Int := 2
def lmpBLINK2 : Int := 3
def lmpBLINK3 : Int := 4

structure IOInfo where
  id : ObjectId
  stype : IOType
  defval : Int
  lamp : Bool
  no_testlamp : Bool
  deriving DecidableEq

structure Config where
  iomap : List IOInfo
  testLamp_s : ObjectId
  force_out : Bool

structure LampControl where
  value : Nat → Int
  lists : BlinkLists
  trTestLamp : Trigger
  isTestLamp : Bool

inductive LampStep
  | sensorInfo (sid : ObjectId) (value : Int)
  | ioread (i : Nat) (input : Option Int)
  | check_testlamp (input : Option Int)

/-- The lists for a new value of a lamp.  Where it is polled, and not where it is told, a value that
does not blink is looked at only after one that does. -/
def switchLamp (polled : Bool) (ls : BlinkLists) (i : Nat) (prev_val cur_val : Int) : BlinkLists :=
  if cur_val = lmpOFF ∨ cur_val = lmpON then
    if !polled ∨ prev_val = lmpBLINK ∨ prev_val = lmpBLINK2 ∨ prev_val = lmpBLINK3 then delAll ls i
    else ls
  else if cur_val = lmpBLINK then
    if prev_val ≠ lmpBLINK then addBlink (delBlink (delBlink ls i .blink2) i .blink3) i .blink
    else ls
  else if cur_val = lmpBLINK2 then
    if prev_val ≠ lmpBLINK2 then addBlink (delBlink (delBlink ls i .blink) i .blink3) i .blink2
    else ls
  else if cur_val = lmpBLINK3 then
    if prev_val ≠ lmpBLINK3 then addBlink (delBlink (delBlink ls i .blink) i .blink2) i .blink3
    else ls
  else ls

/-- One round of the loop when the test has been switched. -/
def testLamp (isTestLamp : Bool) (io : IOInfo) (value : Int) (ls : BlinkLists) (i : Nat) :
    BlinkLists :=
  if !io.lamp ∨ io.no_testlamp then ls
  else match io.stype with
    | .AO =>
      if isTestLamp then delBlink (delBlink (addBlink ls i .blink) i .blink2) i .blink3
      else if value = lmpBLINK then addBlink ls i .blink
      else if value = lmpBLINK2 then addBlink ls i .blink2
      else if value = lmpBLINK3 then addBlink ls i .blink3
      else delAll ls i
    | .DO => if isTestLamp then addBlink ls i .blink else delBlink ls i .blink
    | _ => ls

namespace LampControl

variable (c : Config)

def init : LampControl :=
  ⟨fun i => (c.iomap[i]?.map IOInfo.defval).getD 0, fun _ => .empty, ⟨false⟩, false⟩

variable (s : LampControl)

def setValue (i : Nat) (value : Int) : LampControl :=
  { s with value := Function.update s.value i value }

/-- An analog lamp gets a value. -/
def setLamp (polled : Bool) (i : Nat) (value : Int) : LampControl :=
  { s.setValue i value with lists := switchLamp polled s.lists i (s.value i) value }

/-- The first output with the identifier gets the value. -/
def setOutput (sid : ObjectId) (value : Int) : LampControl :=
  match c.iomap.findIdx? fun io => io.id = sid with
  | none => s
  | some i =>
    match c.iomap[i]? with
    | none => s
    | some io =>
      match io.stype with
      | .AO => if io.lamp then s.setLamp false i value else s.setValue i value
      | .DO => s.setValue i (if value ≠ 0 then 1 else 0)
      | _ => s

def sensorInfo (sid : ObjectId) (value : Int) : LampControl :=
  if c.force_out then s
  else if sid = c.testLamp_s then { s with isTestLamp := decide (value ≠ 0) }.setOutput c sid value
  else s.setOutput c sid value

/-- What is read of the card or, for an output, of `SharedMemory`; `none` if that throws. -/
def ioread (i : Nat) (input : Option Int) : LampControl :=
  match c.iomap[i]?, input with
  | some io, some value =>
    if io.id = DefaultObjectId then s
    else match io.stype with
      | .AO => if io.lamp ∧ c.force_out then s.setLamp true i value else s
      | .DI => if io.id = c.testLamp_s then { s with isTestLamp := decide (value ≠ 0) } else s
      | _ => s
  | _, _ => s

/-- All lamps, when the test has been switched. -/
def switchTest (isTestLamp : Bool) : BlinkLists :=
  (List.range c.iomap.length).foldl (fun ls i =>
    match c.iomap[i]? with
    | some io => testLamp isTestLamp io (s.value i) ls i
    | none => ls) s.lists

/-- Whether the check comes to its end goes with the state. -/
def check_testlamp (input : Option Int) : LampControl × Bool :=
  if c.testLamp_s = DefaultObjectId then (s, true)
  else
    match if c.force_out then input.map fun value => decide (value ≠ 0) else some s.isTestLamp with
    | none => (s, false)
    | some isTestLamp =>
      let (changed, trTestLamp) := s.trTestLamp.change isTestLamp
      ({ s with
          isTestLamp
          trTestLamp
          lists := if changed then s.switchTest c isTestLamp else s.lists }, true)

def step : LampStep → LampControl
  | .sensorInfo sid value => s.sensorInfo c sid value
  | .ioread i input => s.ioread c i input
  | .check_testlamp input => (s.check_testlamp c input).1

end LampControl

/-- The list of a value. -/
def periodOf (value : Int) : Option Period :=
  if value = lmpBLINK then some .blink
  else if value = lmpBLINK2 then some .blink2
  else if value = lmpBLINK3 then some .blink3
  else none

namespace IOInfo

/-- A lamp that the test of all lamps is for. -/
def tested (io : IOInfo) : Bool :=
  io.lamp && !io.no_testlamp && (io.stype = .AO || io.stype = .DO)

/-- The list in which an output should be. -/
def period (io : IOInfo) (isTestLamp : Bool) (value : Int) : Option Period :=
  if io.tested && isTestLamp then some .blink
  else if io.lamp && io.stype = .AO then periodOf value
  else none

end IOInfo

/-- Every output is in the list in which it should be, and in no other. -/
def Right (c : Config) (isTestLamp : Bool) (s : LampControl) : Prop :=
  ∀ i io, c.iomap[i]? = some io → ∀ b, i ∈ s.lists b ↔ io.period isTestLamp (s.value i) = some b

/-- What holds after a check that comes to its end. -/
def Checked (c : Config) (s : LampControl) : LampStep → Prop
  | .check_testlamp input => (s.check_testlamp c input).2 = true →
      Right c (s.check_testlamp c input).1.isTestLamp (s.check_testlamp c input).1
  | _ => True

/-- A new value of an analog lamp.  During the test it is one for which the lists stay as they are,
and otherwise one that has a list or none, unless the last one had none. -/
def Fits (testing polled : Bool) (prev_val cur_val : Int) : Prop :=
  if testing then
    (cur_val = lmpOFF ∨ cur_val = lmpON → polled = true ∧ periodOf prev_val = none) ∧
      (cur_val = lmpBLINK2 ∨ cur_val = lmpBLINK3 → prev_val = cur_val)
  else
    cur_val ≠ lmpOFF → cur_val ≠ lmpON → periodOf cur_val = none → periodOf prev_val = none

/-- Analog lamps get such values; and when the test ends none that was tested blinks with another
period than the first. -/
def Steady (c : Config) (s : LampControl) : LampStep → Prop
  | .sensorInfo sid value => sid ≠ DefaultObjectId ∧ (c.force_out = false →
      ∀ i io, (c.iomap.findIdx? fun io => io.id = sid) = some i → c.iomap[i]? = some io →
        io.stype = .AO → io.lamp = true →
          Fits (io.tested && s.trTestLamp.oldstate) false (s.value i) value)
  | .ioread i input => c.force_out = true → ∀ io value, c.iomap[i]? = some io → input = some value →
      io.stype = .AO → io.lamp = true →
        Fits (io.tested && s.trTestLamp.oldstate) true (s.value i) value
  | .check_testlamp input => s.trTestLamp.oldstate = true →
      (if c.force_out then input = some 0 else s.isTestLamp = false) →
        ∀ i io, c.iomap[i]? = some io → io.stype = .AO → io.tested = true →
          s.value i ≠ lmpBLINK2 ∧ s.value i ≠ lmpBLINK3

/-- The lists are right as the last check has left the test. -/
structure Kept (c : Config) (s : LampControl) : Prop where
  right : Right c s.trTestLamp.oldstate s
  untested : c.testLamp_s = DefaultObjectId →
    s.isTestLamp = false ∧ s.trTestLamp.oldstate = false

/-! ## A new value -/

theorem switchLamp_other {polled : Bool} {ls : BlinkLists} {i j : Nat} {p v : Int} {b : Period}
    (hne : j ≠ i) : j ∈ switchLamp polled ls i p v b ↔ j ∈ ls b := by
  unfold switchLamp
  split_ifs <;> simp [hne]

theorem periodOf_none_iff {v : Int} :
    periodOf v = none ↔ ¬(v = lmpBLINK ∨ v = lmpBLINK2 ∨ v = lmpBLINK3) := by
  unfold periodOf
  split_ifs <;> simp_all

/-- Outside the test the lamp goes to the list of its value. -/
theorem switchLamp_self {polled : Bool} {ls : BlinkLists} {i : Nat} {p v : Int}
    (hfits : Fits false polled p v) (h : ∀ b, i ∈ ls b ↔ periodOf p = some b) (b : Period) :
    i ∈ switchLamp polled ls i p v b ↔ periodOf v = some b := by
  have hsame : p = v → (i ∈ ls b ↔ periodOf v = some b) := fun heq => heq ▸ h b
  have hnone : periodOf p = none → periodOf v = none → (i ∈ ls b ↔ periodOf v = some b) :=
    fun hp hv => by rw [h b, hp, hv]
  unfold switchLamp
  split_ifs with hoff hdel hblink hne hblink2 hne hblink3 hne
  · have hv : periodOf v = none := periodOf_none_iff.mpr (by rcases hoff with rfl | rfl <;> decide)
    simp [hv]
  · simp only [Bool.not_eq_eq_eq_not, Bool.not_true, not_or] at hdel
    exact hnone (periodOf_none_iff.mpr (by simpa using hdel.2))
      (periodOf_none_iff.mpr (by rcases hoff with rfl | rfl <;> decide))
  · subst hblink
    have hv : periodOf lmpBLINK = some .blink := rfl
    cases b <;> simp [hv]
  · exact hsame (by rw [hblink]; exact not_not.mp hne)
  · subst hblink2
    have hv : periodOf lmpBLINK2 = some .blink2 := rfl
    cases b <;> simp [hv]
  · exact hsame (by rw [hblink2]; exact not_not.mp hne)
  · subst hblink3
    have hv : periodOf lmpBLINK3 = some .blink3 := rfl
    cases b <;> simp [hv]
  · exact hsame (by rw [hblink3]; exact not_not.mp hne)
  · have hv : periodOf v = none := periodOf_none_iff.mpr (by simp [hblink, hblink2, hblink3])
    exact hnone (hfits (fun h => hoff (.inl h)) (fun h => hoff (.inr h)) hv) hv

/-- During the test it stays in the first. -/
theorem switchLamp_tested {polled : Bool} {ls : BlinkLists} {i : Nat} {p v : Int}
    (hfits : Fits true polled p v) (h : ∀ b, i ∈ ls b ↔ some Period.blink = some b) (b : Period) :
    i ∈ switchLamp polled ls i p v b ↔ some Period.blink = some b := by
  obtain ⟨hdark, hother⟩ : (v = lmpOFF ∨ v = lmpON → polled = true ∧ periodOf p = none) ∧
    (v = lmpBLINK2 ∨ v = lmpBLINK3 → p = v) := hfits
  unfold switchLamp
  split_ifs with hoff hdel hblink hne hblink2 hne hblink3 hne
  · obtain ⟨hpolled, hp⟩ := hdark hoff
    rw [periodOf_none_iff] at hp
    exact absurd hdel (by simpa [hpolled] using hp)
  · exact h b
  · cases b <;> simp
  · exact h b
  · exact absurd (hother (.inl hblink2)) (fun heq => hne (heq.trans hblink2))
  · exact h b
  · exact absurd (hother (.inr hblink3)) (fun heq => hne (heq.trans hblink3))
  · exact h b
  · exact h b

theorem period_lamp {io : IOInfo} (hstype : io.stype = .AO) (hlamp : io.lamp = true)
    (isTestLamp : Bool) (value : Int) : io.period isTestLamp value =
      if io.tested && isTestLamp then some .blink else periodOf value := by
  unfold IOInfo.period
  simp [hstype, hlamp]

/-- The value of an output that is no analog lamp is not looked at. -/
theorem period_other {io : IOInfo} (h : ¬(io.stype = .AO ∧ io.lamp = true)) (isTestLamp : Bool)
    (value value' : Int) : io.period isTestLamp value = io.period isTestLamp value' := by
  have hnot : (io.lamp && decide (io.stype = .AO)) = false := by
    rw [Bool.and_eq_false_iff, decide_eq_false_iff_not]
    by_cases hlamp : io.lamp = true
    · exact .inr fun hstype => h ⟨hstype, hlamp⟩
    · exact .inl (by simpa using hlamp)
  unfold IOInfo.period
  simp [hnot]

variable {c : Config} {s : LampControl}

theorem right_setLamp {t polled : Bool} (h : Right c t s) {i : Nat} {io : IOInfo}
    (hio : c.iomap[i]? = some io) (hstype : io.stype = .AO) (hlamp : io.lamp = true) {value : Int}
    (hfits : Fits (io.tested && t) polled (s.value i) value) :
    Right c t (s.setLamp polled i value) := by
  intro j io' hio' b
  unfold LampControl.setLamp LampControl.setValue
  dsimp only
  by_cases hj : j = i
  · subst hj
    obtain rfl := Option.some.inj (hio.symm.trans hio')
    rw [Function.update_self, period_lamp hstype hlamp]
    have hold := h j io hio
    simp only [period_lamp hstype hlamp] at hold
    cases htest : io.tested && t with
    | true =>
      rw [htest] at hfits hold
      exact switchLamp_tested hfits hold b
    | false =>
      rw [htest] at hfits hold
      exact switchLamp_self hfits hold b
  · rw [Function.update_of_ne hj, switchLamp_other hj]
    exact h j io' hio' b

theorem right_setValue {t : Bool} (h : Right c t s) {i : Nat} {io : IOInfo}
    (hio : c.iomap[i]? = some io) (hnot : ¬(io.stype = .AO ∧ io.lamp = true)) (value : Int) :
    Right c t (s.setValue i value) := by
  intro j io' hio' b
  unfold LampControl.setValue
  dsimp only
  by_cases hj : j = i
  · subst hj
    obtain rfl := Option.some.inj (hio.symm.trans hio')
    rw [period_other hnot t _ (s.value j)]
    exact h j io hio b
  · rw [Function.update_of_ne hj]
    exact h j io' hio' b

/-! ## The test -/

theorem testLamp_other {t : Bool} {io : IOInfo} {v : Int} {ls : BlinkLists} {i j : Nat} {b : Period}
    (hne : j ≠ i) : j ∈ testLamp t io v ls i b ↔ j ∈ ls b := by
  unfold testLamp
  by_cases hskip : !io.lamp ∨ io.no_testlamp
  · rw [if_pos hskip]
  · rw [if_neg hskip]
    cases io.stype with
    | DI => rfl
    | DO => dsimp only; split_ifs <;> simp [hne]
    | AI => rfl
    | AO => dsimp only; split_ifs <;> simp [hne]

theorem tested_of_not_skip {io : IOInfo} (hskip : ¬(!io.lamp ∨ io.no_testlamp))
    (hstype : io.stype = .AO ∨ io.stype = .DO) : io.lamp = true ∧ io.tested = true := by
  simp only [Bool.not_eq_eq_eq_not, Bool.not_true, not_or, Bool.not_eq_false, Bool.not_eq_true]
    at hskip
  refine ⟨hskip.1, ?_⟩
  unfold IOInfo.tested
  rw [hskip.1, hskip.2]
  rcases hstype with hstype | hstype <;> simp [hstype]

/-- The test is nothing to an output that is not tested. -/
theorem period_untested {io : IOInfo} (h : io.tested = false) (t t' : Bool) (v : Int) :
    io.period t v = io.period t' v := by
  unfold IOInfo.period
  simp [h]

/-- When the test is switched the lamp goes to its list. -/
theorem testLamp_self {t : Bool} {io : IOInfo} {v : Int} {ls : BlinkLists} {i : Nat}
    (h : ∀ b, i ∈ ls b ↔ io.period (!t) v = some b)
    (hend : t = false → io.stype = .AO → io.tested = true → v ≠ lmpBLINK2 ∧ v ≠ lmpBLINK3)
    (b : Period) : i ∈ testLamp t io v ls i b ↔ io.period t v = some b := by
  have huntested : io.tested = false → (i ∈ ls b ↔ io.period t v = some b) := fun hnot => by
    rw [h b, period_untested hnot]
  unfold testLamp
  by_cases hskip : !io.lamp ∨ io.no_testlamp
  · rw [if_pos hskip]
    refine huntested ?_
    unfold IOInfo.tested
    rcases hskip with hlamp | hno
    · rw [(Bool.not_eq_true' _).mp hlamp]
      rfl
    · rw [hno, Bool.not_true, Bool.and_false]
      rfl
  · rw [if_neg hskip]
    cases hstype : io.stype with
    | DI => exact huntested (by simp [IOInfo.tested, hstype])
    | AI => exact huntested (by simp [IOInfo.tested, hstype])
    | DO =>
      obtain ⟨hlamp, htested⟩ := tested_of_not_skip hskip (.inr hstype)
      have hold := h b
      unfold IOInfo.period at hold ⊢
      cases t <;> cases b <;> simp_all
    | AO =>
      obtain ⟨hlamp, htested⟩ := tested_of_not_skip hskip (.inl hstype)
      have hold := h b
      rw [period_lamp hstype hlamp, htested] at hold ⊢
      cases t with
      | true => cases b <;> simp
      | false =>
        obtain ⟨hne2, hne3⟩ := hend rfl hstype htested
        simp only [Bool.true_and, Bool.not_false, if_true, Bool.false_eq_true, if_false] at hold ⊢
        by_cases hblink : v = lmpBLINK
        · subst hblink
          have hv : periodOf lmpBLINK = some .blink := rfl
          rw [if_pos rfl, mem_addBlink, hold, hv]
          cases b <;> simp
        · have hv : periodOf v = none := periodOf_none_iff.mpr (by simp [hblink, hne2, hne3])
          simp [hblink, hne2, hne3, hv]

/-- One round of the loop over the places. -/
def testPlace (c : Config) (s : LampControl) (t : Bool) (ls : BlinkLists) (i : Nat) : BlinkLists :=
  match c.iomap[i]? with
  | some io => testLamp t io (s.value i) ls i
  | none => ls

theorem testPlace_other {t : Bool} {ls : BlinkLists} {i j : Nat} {b : Period} (hne : j ≠ i) :
    j ∈ testPlace c s t ls i b ↔ j ∈ ls b := by
  unfold testPlace
  cases c.iomap[i]? with
  | none => rfl
  | some io => exact testLamp_other hne

theorem foldl_testPlace_other {t : Bool} {places : List Nat} {ls : BlinkLists} {j : Nat}
    {b : Period} (h : j ∉ places) : j ∈ places.foldl (testPlace c s t) ls b ↔ j ∈ ls b := by
  induction places generalizing ls with
  | nil => rfl
  | cons i places ih =>
    simp only [List.mem_cons, not_or] at h
    rw [List.foldl_cons, ih h.2, testPlace_other h.1]

/-- The loop comes to every place once. -/
theorem foldl_testPlace_self {t : Bool} {j : Nat} {io : IOInfo} (hio : c.iomap[j]? = some io)
    (hend : t = false → io.stype = .AO → io.tested = true →
      s.value j ≠ lmpBLINK2 ∧ s.value j ≠ lmpBLINK3)
    {places : List Nat} (hnodup : places.Nodup) (hmem : j ∈ places) {ls : BlinkLists}
    (h : ∀ b, j ∈ ls b ↔ io.period (!t) (s.value j) = some b) (b : Period) :
    j ∈ places.foldl (testPlace c s t) ls b ↔ io.period t (s.value j) = some b := by
  induction places generalizing ls with
  | nil => exact absurd hmem List.not_mem_nil
  | cons i places ih =>
    rw [List.nodup_cons] at hnodup
    rw [List.foldl_cons]
    rcases List.mem_cons.mp hmem with rfl | hmem
    · rw [foldl_testPlace_other hnodup.1]
      unfold testPlace
      rw [hio]
      exact testLamp_self h hend b
    · have hne : j ≠ i := fun heq => hnodup.1 (heq ▸ hmem)
      exact ih hnodup.2 hmem fun b => (testPlace_other hne).trans (h b)

/-- All lamps go to their lists when the test is switched. -/
theorem right_switchTest {t : Bool} (h : Right c (!t) s)
    (hend : t = false → ∀ i io, c.iomap[i]? = some io → io.stype = .AO → io.tested = true →
      s.value i ≠ lmpBLINK2 ∧ s.value i ≠ lmpBLINK3) :
    Right c t { s with lists := s.switchTest c t } := by
  intro i io hio b
  have hmem : i ∈ List.range c.iomap.length :=
    List.mem_range.mpr (List.getElem?_eq_some_iff.mp hio).1
  exact foldl_testPlace_self hio (fun ht => hend ht i io hio) List.nodup_range hmem (h i io hio) b

/-! ## Runs -/

theorem Right.congr {t : Bool} {s' : LampControl} (h : Right c t s) (hvalue : s'.value = s.value)
    (hlists : s'.lists = s.lists) : Right c t s' := by
  intro i io hio b
  rw [hvalue, hlists]
  exact h i io hio b

theorem right_setOutput {t : Bool} (h : Right c t s) {sid : ObjectId} {value : Int}
    (hfits : ∀ i io, (c.iomap.findIdx? fun io => io.id = sid) = some i → c.iomap[i]? = some io →
      io.stype = .AO → io.lamp = true → Fits (io.tested && t) false (s.value i) value) :
    Right c t (s.setOutput c sid value) := by
  unfold LampControl.setOutput
  split
  · exact h
  · next i hi =>
    split
    · exact h
    · next io hio =>
      cases hstype : io.stype with
      | DI => exact h
      | AI => exact h
      | DO => exact right_setValue h hio (fun hand => by simp [hstype] at hand) _
      | AO =>
        dsimp only
        by_cases hlamp : io.lamp = true
        · rw [if_pos hlamp]
          exact right_setLamp h hio hstype hlamp (hfits i io hi hio hstype hlamp)
        · rw [if_neg hlamp]
          exact right_setValue h hio (fun hand => hlamp hand.2) _

@[simp] theorem setOutput_trTestLamp (sid : ObjectId) (value : Int) :
    (s.setOutput c sid value).trTestLamp = s.trTestLamp := by
  unfold LampControl.setOutput
  split
  · rfl
  · split
    · rfl
    · split
      · split_ifs <;> rfl
      · rfl
      · rfl

@[simp] theorem setOutput_isTestLamp (sid : ObjectId) (value : Int) :
    (s.setOutput c sid value).isTestLamp = s.isTestLamp := by
  unfold LampControl.setOutput
  split
  · rfl
  · split
    · rfl
    · split
      · split_ifs <;> rfl
      · rfl
      · rfl

theorem kept_init (hdefval : ∀ io ∈ c.iomap, io.stype = .AO → io.lamp = true →
    periodOf io.defval = none) : Kept c (.init c) where
  right i io hio b := by
    have hvalue : (LampControl.init c).value i = io.defval := by
      unfold LampControl.init
      dsimp only
      rw [hio]
      rfl
    rw [hvalue]
    have hnone : io.period false io.defval = none := by
      unfold IOInfo.period
      split_ifs with htest hlamp
      · simp at htest
      · simp only [Bool.and_eq_true, decide_eq_true_eq] at hlamp
        exact hdefval io (List.mem_of_getElem? hio) hlamp.2 hlamp.1
      · rfl
    rw [show (LampControl.init c).trTestLamp.oldstate = false from rfl, hnone]
    exact iff_of_false (BlinkList.not_mem_empty i) (by simp)
  untested _ := ⟨rfl, rfl⟩

theorem kept_sensorInfo (h : Kept c s) {sid : ObjectId} {value : Int}
    (hsteady : Steady c s (.sensorInfo sid value)) : Kept c (s.sensorInfo c sid value) := by
  obtain ⟨hsid, hfits⟩ := hsteady
  unfold LampControl.sensorInfo
  by_cases hforce : c.force_out = true
  · rw [if_pos hforce]
    exact h
  · rw [if_neg hforce]
    have hfits := hfits (Bool.eq_false_iff.mpr hforce)
    by_cases htest : sid = c.testLamp_s
    · rw [if_pos htest]
      have hset : Right c s.trTestLamp.oldstate { s with isTestLamp := decide (value ≠ 0) } :=
        h.right.congr rfl rfl
      refine ⟨?_, fun hdefault => absurd (htest.trans hdefault) hsid⟩
      rw [setOutput_trTestLamp]
      exact right_setOutput hset hfits
    · rw [if_neg htest]
      refine ⟨?_, fun hdefault => ?_⟩
      · rw [setOutput_trTestLamp]
        exact right_setOutput h.right hfits
      · rw [setOutput_trTestLamp, setOutput_isTestLamp]
        exact h.untested hdefault

theorem kept_ioread (h : Kept c s) {i : Nat} {input : Option Int}
    (hsteady : Steady c s (.ioread i input)) : Kept c (s.ioread c i input) := by
  unfold LampControl.ioread
  split
  · next io value hio =>
    by_cases hid : io.id = DefaultObjectId
    · rw [if_pos hid]
      exact h
    · rw [if_neg hid]
      cases hstype : io.stype with
      | DO => exact h
      | AI => exact h
      | AO =>
        dsimp only
        by_cases hlamp : io.lamp = true ∧ c.force_out = true
        · rw [if_pos hlamp]
          exact ⟨right_setLamp h.right hio hstype hlamp.1
            (hsteady hlamp.2 io value hio rfl hstype hlamp.1), h.untested⟩
        · rw [if_neg hlamp]
          exact h
      | DI =>
        dsimp only
        by_cases htest : io.id = c.testLamp_s
        · rw [if_pos htest]
          exact ⟨h.right.congr rfl rfl, fun hdefault => absurd (htest.trans hdefault) hid⟩
        · rw [if_neg htest]
          exact h
  · exact h

/-- The check looks at the test as it is now, in `SharedMemory` or as it was told. -/
theorem check_testlamp_eq {input : Option Int} {t : Bool} (hdefault : c.testLamp_s ≠ DefaultObjectId)
    (ht : (if c.force_out then input.map fun value => decide (value ≠ 0) else some s.isTestLamp) =
      some t) :
    s.check_testlamp c input =
      ({ s with
          isTestLamp := t
          trTestLamp := ⟨t⟩
          lists := if s.trTestLamp.oldstate = t then s.lists else s.switchTest c t }, true) := by
  unfold LampControl.check_testlamp Trigger.change
  rw [if_neg hdefault, ht]
  by_cases hsame : s.trTestLamp.oldstate = t
  · subst hsame
    simp
  · simp [hsame]

/-- A check that comes to its end leaves the lists right. -/
theorem kept_check_testlamp (h : Kept c s) {input : Option Int}
    (hsteady : Steady c s (.check_testlamp input)) :
    Checked c s (.check_testlamp input) ∧ Kept c (s.check_testlamp c input).1 := by
  unfold Checked
  dsimp only
  by_cases hdefault : c.testLamp_s = DefaultObjectId
  · have hsame : s.check_testlamp c input = (s, true) := if_pos hdefault
    obtain ⟨hnow, hlast⟩ := h.untested hdefault
    rw [hsame]
    refine ⟨fun _ => ?_, h⟩
    have hright := h.right
    rw [hlast] at hright
    rw [hnow]
    exact hright
  · cases ht : if c.force_out then input.map fun value => decide (value ≠ 0)
        else some s.isTestLamp with
    | none =>
      have hfail : s.check_testlamp c input = (s, false) := by
        unfold LampControl.check_testlamp
        rw [if_neg hdefault, ht]
      rw [hfail]
      exact ⟨fun hend => absurd hend Bool.false_ne_true, h⟩
    | some t =>
      rw [check_testlamp_eq hdefault ht]
      suffices hright : Right c t
          { s with lists := if s.trTestLamp.oldstate = t then s.lists else s.switchTest c t } from
        ⟨fun _ => hright.congr rfl rfl, hright.congr rfl rfl, fun heq => absurd heq hdefault⟩
      by_cases hsame : s.trTestLamp.oldstate = t
      · rw [if_pos hsame]
        exact hsame ▸ h.right
      · rw [if_neg hsame]
        have hwas : s.trTestLamp.oldstate = !t := by
          cases hold : s.trTestLamp.oldstate <;> cases t <;> simp_all
        refine right_switchTest (hwas ▸ h.right) fun hoff => hsteady ?_ ?_
        · rw [hwas, hoff]
          rfl
        · subst hoff
          split_ifs at ht ⊢ with hforce
          · obtain ⟨value, hvalue, hzero⟩ := Option.map_eq_some_iff.mp ht
            rw [hvalue, not_not.mp (of_decide_eq_false hzero)]
          · exact Option.some.inj ht

theorem kept_step (h : Kept c s) {step : LampStep} (hsteady : Steady c s step) :
    Checked c s step ∧ Kept c (s.step c step) := by
  cases step with
  | sensorInfo sid value => exact ⟨trivial, kept_sensorInfo h hsteady⟩
  | ioread i input => exact ⟨trivial, kept_ioread h hsteady⟩
  | check_testlamp input => exact kept_check_testlamp h hsteady

/-- After every check the lamps blink as they should. -/
theorem checked_of_steady (c : Config)
    (hdefval : ∀ io ∈ c.iomap, io.stype = .AO → io.lamp = true → periodOf io.defval = none)
    (steps : List LampStep) (h : Guarded (LampControl.step c) (Steady c) (.init c) steps) :
    Guarded (LampControl.step c) (Checked c) (.init c) steps :=
  Guarded.of_invariant (I := Kept c) (fun _ _ hkept hsteady => kept_step hkept hsteady)
    (kept_init hdefval) h

/-- A panel with one lamp, and a test of all lamps. -/
def panel : Config where
  iomap := [⟨1, .AO, lmpOFF, true, false⟩]
  testLamp_s := 2
  force_out := false

/-- The lamp blinks with the second period; the test is switched on and off again. -/
def shortTest (blink : Int) : List LampStep :=
  [.sensorInfo 1 blink, .sensorInfo 2 1, .check_testlamp none, .sensorInfo 2 0,
    .check_testlamp none]

theorem panel_at {i : Nat} {io : IOInfo} (hio : panel.iomap[i]? = some io) :
    i = 0 ∧ io = ⟨1, .AO, lmpOFF, true, false⟩ := by
  obtain ⟨hlt, rfl⟩ := List.getElem?_eq_some_iff.mp hio
  have hzero : i = 0 := Nat.lt_one_iff.mp hlt
  subst hzero
  exact ⟨rfl, rfl⟩

theorem checked_panel :
    Guarded (LampControl.step panel) (Checked panel) (.init panel) (shortTest lmpBLINK) := by
  have hnone : (panel.iomap.findIdx? fun io => io.id = (2 : ObjectId)) = none := by decide
  refine checked_of_steady panel (by decide) _ ⟨⟨by decide, ?_⟩, ⟨by decide, ?_⟩, ?_,
    ⟨by decide, ?_⟩, ?_, trivial⟩
  · rintro - i io - hio - -
    obtain ⟨rfl, rfl⟩ := panel_at hio
    intro _ _ hblink
    exact absurd hblink (by decide)
  · intro _ i io hi
    exact absurd (hi.symm.trans hnone) (by simp)
  · intro hold
    exact absurd hold (by decide)
  · intro _ i io hi
    exact absurd (hi.symm.trans hnone) (by simp)
  · rintro - - i io hio - -
    obtain ⟨rfl, rfl⟩ := panel_at hio
    decide

/-- The end of the test leaves the lamp in the first list, and adds it to the second. -/
theorem not_checked_secondPeriod :
    ¬Guarded (LampControl.step panel) (Checked panel) (.init panel) (shortTest lmpBLINK2) := by
  rintro ⟨-, -, -, -, hlast, -⟩
  have hfirst := (hlast rfl 0 ⟨1, .AO, lmpOFF, true, false⟩ rfl .blink).mp (by decide)
  exact absurd hfirst (by decide)

end Uniset.IOControl
