import Uniset.ModbusMaster.MBExchange

/-! What is written, and which registers have been initialised before. -/

namespace Uniset.ModbusMaster

open Uniset.Lib Uniset.Modbus ExchangeMode MBExchange

/-- A step, and whether the values have been asked for at the start. -/
def start (w : MBExchange × Bool) (step : ExchangeStep) : MBExchange × Bool :=
  (w.1.step step, match step with
    | .initValues => true
    | _ => w.2)

def PreInit.Has (e : PreInit) (d k : Nat) : Prop := e.dev = d ∧ e.ri ≤ k ∧ k < e.ri + e.rnum

/-- A register is in the query of another one that comes before it, and is written. -/
def Inner (s : MBExchange) (d k : Nat) : Prop :=
  ∃ it, it < k ∧ k < it + (s.regs d it).q_count ∧ isWriteFunction (s.regs d it).mbfunc = true

/-- When all has been read, it has. -/
def AllRead (s : MBExchange) : Prop :=
  s.initPos = none → s.allInitOK = true → ∀ e ∈ s.initRegList, e.initOK = true

/-- The registers that are written have been initialised, and what is to be read is read until all
has been. -/
structure Initialised (w : MBExchange × Bool) (step : ExchangeStep) : Prop where
  read : ∀ d pollfactor it size reply, step = .poll d pollfactor it size reply →
    ∀ d' mbfunc mbreg data, w.1.sent step = some (d', .write mbfunc mbreg data) →
      ∀ k, it ≤ k → k < it + (w.1.regs d it).q_count →
        (w.1.regs d k).sm_initOK = true ∧ ∀ e ∈ w.1.initRegList, e.Has d k → e.initOK = true
  repeated : AllRead (w.1.step step)

/-- While not all has been read, no register with `preinit` comes up to be written; a query of
several comes up after the values have been asked for; `SharedMemory` can be reached for the registers
that are in the queries of others; and a register that could not be read is not followed in the list
by one that can be or has been. -/
def InOrder (w : MBExchange × Bool) : ExchangeStep → Prop
  | .poll d pollfactor it _ _ => w.1.polls d pollfactor it = true →
      isWriteFunction (w.1.regs d it).mbfunc = true →
      (w.1.allInitOK = false → ∀ k, it ≤ k → k < it + (w.1.regs d it).q_count →
        ∀ e ∈ w.1.initRegList, ¬e.Has d k) ∧
      ((w.1.regs d it).q_count = 1 ∨ w.2 = true)
  | .sensorInfo d k _ ok => Inner w.1 d k → ok = true
  | .updateSM d k _ ok => Inner w.1 d k → ok = true
  | .preInitRead reply _ ok => w.1.allInitOK = false →
      ∀ e, w.1.initPos.bind (w.1.initRegList[·]?) = some e →
        e.initOK = false ∧ (isRead e.mbfunc && accepted e.mbfunc e.rnum reply && ok) = false
  | _ => True

/-- What the loop over the list has found so far, and the registers that are written with others. -/
structure Readable (w : MBExchange × Bool) : Prop where
  inner : w.2 = true → ∀ d k, Inner w.1 d k → (w.1.regs d k).sm_initOK = true
  place : ∀ i, w.1.initPos = some i → i < w.1.initRegList.length
  before : ∀ i, w.1.initPos = some i → w.1.allInitOK = true →
    ∀ j e, j < i → w.1.initRegList[j]? = some e → e.initOK = true
  all : AllRead w.1

variable {s s' t : MBExchange} {b : Bool}

/-- Registers that have been initialised stay so, and queries stay as they are; the list and the loop
over it are not touched. -/
structure Keeps (s s' : MBExchange) : Prop where
  q_count : ∀ d k, (s'.regs d k).q_count = (s.regs d k).q_count
  mbfunc : ∀ d k, (s'.regs d k).mbfunc = (s.regs d k).mbfunc
  sm_initOK : ∀ d k, (s.regs d k).sm_initOK = true → Inner s d k → (s'.regs d k).sm_initOK = true

theorem Keeps.refl (s : MBExchange) : Keeps s s := ⟨fun _ _ => rfl, fun _ _ => rfl, fun _ _ h _ => h⟩

theorem Keeps.inner (h : Keeps s s') {d k : Nat} : Inner s' d k ↔ Inner s d k := by
  unfold Inner
  simp only [h.q_count, h.mbfunc]

theorem Keeps.trans (h : Keeps s s') (h' : Keeps s' t) : Keeps s t :=
  ⟨fun d k => (h'.q_count d k).trans (h.q_count d k), fun d k => (h'.mbfunc d k).trans (h.mbfunc d k),
    fun d k hk hin => h'.sm_initOK d k (h.sm_initOK d k hk hin) (h.inner.mpr hin)⟩

theorem keeps_setRegs {d : Nat} {regs : Nat → RegInfo}
    (h : ∀ k, (regs k).q_count = (s.regs d k).q_count ∧ (regs k).mbfunc = (s.regs d k).mbfunc ∧
      ((s.regs d k).sm_initOK = true → Inner s d k → (regs k).sm_initOK = true)) :
    Keeps s (s.setRegs d regs) := by
  have hsame : (s.setRegs d regs).regs d = regs := by simp [setRegs]
  have hother : ∀ d', d' ≠ d → (s.setRegs d regs).regs d' = s.regs d' := fun d' hd => by
    simp [setRegs, hd]
  refine ⟨fun d' k => ?_, fun d' k => ?_, fun d' k hk hin => ?_⟩
  · by_cases hd : d' = d
    · rw [hd, hsame]
      exact (h k).1
    · rw [hother d' hd]
  · by_cases hd : d' = d
    · rw [hd, hsame]
      exact (h k).2.1
    · rw [hother d' hd]
  · by_cases hd : d' = d
    · rw [hd] at hk hin
      rw [hd, hsame]
      exact (h k).2.2 hk hin
    · rwa [hother d' hd]

theorem keeps_updateRSProperty (s : MBExchange) {d k n : Nat} {force ok : Bool}
    (hok : Inner s d k → ok = true) : Keeps s (s.updateRSProperty d k n force ok) := by
  have hwords : ∀ vs, Keeps s (s.setRegs d (setWords (s.regs d) k vs)) := fun vs =>
    keeps_setRegs fun j => by
      obtain ⟨hcount, hfunc, hinit⟩ := setWords_flags (s.regs d) k vs j
      exact ⟨hcount, hfunc, fun h _ => hinit h⟩
  unfold updateRSProperty
  split_ifs with hupdates hfail hwrite hforce
  · exact .refl s
  · refine keeps_setRegs fun j => ?_
    by_cases hj : j = k
    · subst hj
      refine ⟨by simp, by simp, fun _ hin => ?_⟩
      rw [hok hin] at hfail
      cases hfail
    · rw [Function.update_of_ne hj]
      exact ⟨rfl, rfl, fun h _ => h⟩
  · obtain ⟨hcount, hfunc, hinit⟩ := hwords (words ((s.setCached d k _).cached d) k n)
    exact ⟨hcount, hfunc, hinit⟩
  · exact hwords _
  · exact .refl s

theorem keeps_sensorInfo (s : MBExchange) {d k : Nat} (vs : List ModbusData) {ok : Bool}
    (hok : Inner s d k → ok = true) : Keeps s (s.sensorInfo d k vs ok) := by
  unfold MBExchange.sensorInfo
  dsimp only
  split_ifs
  · exact ⟨fun _ _ => rfl, fun _ _ => rfl, fun _ _ h _ => h⟩
  · obtain ⟨hcount, hfunc, hinit⟩ := keeps_updateRSProperty ((s.setValue d k vs).setCached d k vs)
      (k := k) (n := vs.length) hok
    exact ⟨hcount, hfunc, hinit⟩

theorem keeps_setRead (s : MBExchange) (i : Nat) (e : PreInit) (vs : List ModbusData) :
    Keeps s (s.setRead i e vs) := by
  have hinit : Keeps s (s.setRegs e.dev
      (Function.update (s.regs e.dev) e.ri { s.regs e.dev e.ri with mb_initOK := true })) :=
    keeps_setRegs fun k => by
      by_cases hk : k = e.ri
      · subst hk
        rw [Function.update_self]
        exact ⟨rfl, rfl, fun h _ => h⟩
      · rw [Function.update_of_ne hk]
        exact ⟨rfl, rfl, fun h _ => h⟩
  have hread : Keeps s (MBExchange.setRegs ({ s with
      initRegList := s.initRegList.set i { e with initOK := true } }.setValue e.dev e.ri vs) e.dev
      (Function.update (s.regs e.dev) e.ri { s.regs e.dev e.ri with mb_initOK := true })) :=
    ⟨hinit.q_count, hinit.mbfunc, hinit.sm_initOK⟩
  exact hread.trans (keeps_updateRSProperty _ fun _ => rfl)

theorem exchange_flags {size it : Nat} {regs : Nat → RegInfo} {reply : Reply} {polled : Polled}
    (hpos : 0 < (regs it).q_count) (h : exchange size regs it reply = some polled) (k : Nat) :
    (polled.regs k).q_count = (regs k).q_count ∧ (polled.regs k).mbfunc = (regs k).mbfunc ∧
      (polled.regs k).sm_initOK = (regs k).sm_initOK := by
  by_cases hread : isRead (regs it).mbfunc = true
  · cases hvalues : values (regs it) reply with
    | error err =>
      rw [exchange_failed hread hvalues] at h
      obtain rfl := Option.some.inj h
      exact ⟨rfl, rfl, rfl⟩
    | ok vs =>
      rw [exchange_read hread hvalues] at h
      split_ifs at h
      obtain rfl := Option.some.inj h
      unfold store
      dsimp only
      split_ifs <;> exact ⟨rfl, rfl, rfl⟩
  · obtain ⟨hnone, hsome⟩ := exchange_write hread hpos
    by_cases hfits : it + (regs it).q_count ≤ size
    · obtain ⟨polled', hpolled, -, hsame, -⟩ := hsome hfits
      obtain rfl := Option.some.inj (hpolled.symm.trans h)
      rw [hsame k]
      exact ⟨rfl, rfl, rfl⟩
    · cases (hnone hfits).symm.trans h

theorem keeps_poll (s : MBExchange) (d pollfactor it size : Nat) (reply : Reply) :
    Keeps s (s.poll d pollfactor it size reply) := by
  unfold MBExchange.poll
  split_ifs with hpolls
  · cases hexchange : exchange size (s.regs d) it reply with
    | none => exact .refl s
    | some polled =>
      have hpos := q_count_pos_of_asks ((Bool.and_eq_true _ _).mp hpolls).2
      refine keeps_setRegs fun k => ?_
      obtain ⟨hcount, hfunc, hinit⟩ := exchange_flags hpos hexchange k
      exact ⟨hcount, hfunc, fun h _ => hinit.trans h⟩
  · exact .refl s

/-! ## The loop over the list -/

/-- A step that is not about the list. -/
def SameList (s s' : MBExchange) : Prop :=
  s'.initRegList = s.initRegList ∧ s'.allInitOK = s.allInitOK ∧ s'.initPos = s.initPos

theorem sameList_updateRSProperty (s : MBExchange) (d k n : Nat) (force ok : Bool) :
    SameList s (s.updateRSProperty d k n force ok) := by
  unfold updateRSProperty
  split_ifs <;> exact ⟨rfl, rfl, rfl⟩

theorem sameList_sensorInfo (s : MBExchange) (d k : Nat) (vs : List ModbusData) (ok : Bool) :
    SameList s (s.sensorInfo d k vs ok) := by
  unfold MBExchange.sensorInfo
  dsimp only
  split_ifs
  · exact ⟨rfl, rfl, rfl⟩
  · exact sameList_updateRSProperty _ d k vs.length false ok

theorem sameList_poll (s : MBExchange) (d pollfactor it size : Nat) (reply : Reply) :
    SameList s (s.poll d pollfactor it size reply) := by
  unfold MBExchange.poll
  split_ifs
  · cases exchange size (s.regs d) it reply <;> exact ⟨rfl, rfl, rfl⟩
  · exact ⟨rfl, rfl, rfl⟩

theorem Readable.of_keeps (h : Readable (s, b)) (hkeeps : Keeps s s') (hlist : SameList s s') :
    Readable (s', b) := by
  obtain ⟨hregs, hall, hpos⟩ := hlist
  refine ⟨fun hb d k hin => ?_, ?_, ?_, ?_⟩
  · have hin' := hkeeps.inner.mp hin
    exact hkeeps.sm_initOK d k (h.inner hb d k hin') hin'
  · dsimp only
    rw [hregs, hpos]
    exact h.place
  · dsimp only
    rw [hregs, hall, hpos]
    exact h.before
  · unfold AllRead
    dsimp only
    rw [hregs, hall, hpos]
    exact h.all

/-- The loop goes on, all the registers so far having been read. -/
theorem readable_next (h : Readable (s, b)) (hkeeps : Keeps s s') {i : Nat}
    (hlength : s'.initRegList.length = s.initRegList.length)
    (hread : ∀ j e, j ≤ i → s'.initRegList[j]? = some e → e.initOK = true)
    (hpos' : s'.initPos = none ∧ i + 1 = s.initRegList.length ∨
      s'.initPos = some (i + 1) ∧ i + 1 < s.initRegList.length) :
    Readable (s', b) := by
  refine ⟨fun hb d k hin => ?_, fun j hj => ?_, fun j hj _ k e hk he => ?_, fun hnone _ e he => ?_⟩
  · have hin' := hkeeps.inner.mp hin
    exact hkeeps.sm_initOK d k (h.inner hb d k hin') hin'
  · rcases hpos' with ⟨hnone, -⟩ | ⟨hsome, hlt⟩
    · cases hnone.symm.trans hj
    · obtain rfl := Option.some.inj (hsome.symm.trans hj)
      rw [hlength]
      exact hlt
  · rcases hpos' with ⟨hnone, -⟩ | ⟨hsome, hlt⟩
    · cases hnone.symm.trans hj
    · obtain rfl := Option.some.inj (hsome.symm.trans hj)
      exact hread k e (Nat.le_of_lt_succ hk) he
  · rcases hpos' with ⟨-, hend⟩ | ⟨hsome, -⟩
    · obtain ⟨j, hj⟩ := List.mem_iff_getElem?.mp he
      have hlt : j < s'.initRegList.length := (List.getElem?_eq_some_iff.mp hj).1
      exact hread j e (by omega) hj
    · cases hnone.symm.trans hsome

theorem nextInit_pos (s : MBExchange) {i : Nat} (hi : i < s.initRegList.length) :
    (s.nextInit i).initPos = none ∧ i + 1 = s.initRegList.length ∨
      (s.nextInit i).initPos = some (i + 1) ∧ i + 1 < s.initRegList.length := by
  unfold nextInit
  dsimp only
  split_ifs with hnext
  · exact .inr ⟨rfl, hnext⟩
  · exact .inl ⟨rfl, by omega⟩

theorem readable_preInitRead (h : Readable (s, b)) {reply : Reply} {vs : List ModbusData} {ok : Bool}
    (horder : InOrder (s, b) (.preInitRead reply vs ok)) :
    Readable (s.preInitRead reply vs ok, b) := by
  rcases preInitRead_cases s reply vs ok with ⟨hnone, hstep⟩ | ⟨i, e, hpos, he, hinit, hstep⟩ |
    ⟨i, e, pos, hpos, he, -, hpos', hstep⟩ | ⟨i, e, hpos, he, hreading, haccepted, hstep⟩
  · have hpos : s.initPos = none := by
      cases hpos : s.initPos with
      | none => rfl
      | some i =>
        have hlt := h.place i hpos
        rw [hpos] at hnone
        exact absurd (List.getElem?_eq_none_iff.mp hnone) (Nat.not_le_of_lt hlt)
    rw [hstep]
    exact h.of_keeps ⟨fun _ _ => rfl, fun _ _ => rfl, fun _ _ h _ => h⟩ ⟨rfl, rfl, hpos.symm⟩
  · have hall : s.allInitOK = true := by
      by_contra hnot
      have hunread := (horder (by simpa using hnot) e (by rw [hpos]; exact he)).1
      rw [hinit] at hunread
      cases hunread
    have hnext := nextInit_pos s (h.place i hpos)
    rw [hstep]
    refine readable_next h ⟨fun _ _ => rfl, fun _ _ => rfl, fun _ _ h _ => h⟩ rfl
      (fun j e' hj he' => ?_) hnext
    rcases hj.lt_or_eq with hlt | rfl
    · exact h.before i hpos hall j e' hlt he'
    · obtain rfl := Option.some.inj (he.symm.trans he')
      exact hinit
  · rw [hstep]
    refine ⟨h.inner, fun j hj => ?_, nofun, nofun⟩
    rcases hpos' with rfl | rfl
    · cases hj
    · rcases nextInit_pos s (h.place i hpos) with ⟨hnone, -⟩ | ⟨hsome, hlt⟩
      · cases hnone.symm.trans hj
      · obtain rfl := Option.some.inj (hsome.symm.trans hj)
        exact hlt
  · have hall : s.allInitOK = true := by
      by_contra hnot
      have hunread := (horder (by simpa using hnot) e (by rw [hpos]; exact he)).2
      have hread : isRead e.mbfunc = true := by
        unfold reading at hreading
        rw [hpos] at hreading
        simp only [Option.bind_some, he] at hreading
        split_ifs at hreading with hread
        exact ((Bool.and_eq_true _ _).mp hread).2
      rw [hread, Bool.true_and, haccepted] at hunread
      cases hunread
    have hnext := nextInit_pos s (h.place i hpos)
    have hlist : ((({ s with allInitOK := true } : MBExchange).setRead i e vs).nextInit i).initRegList =
        s.initRegList.set i { e with initOK := true } :=
      (sameList_updateRSProperty _ e.dev e.ri e.rnum true true).1
    rw [hstep]
    have hkeeps := keeps_setRead { s with allInitOK := true } i e vs
    refine readable_next (i := i) h ⟨hkeeps.q_count, hkeeps.mbfunc, hkeeps.sm_initOK⟩ ?_
      (fun j e' hj he' => ?_) ?_
    · rw [hlist, List.length_set]
    · rw [hlist] at he'
      rcases hj.lt_or_eq with hlt | rfl
      · rw [List.getElem?_set_ne hlt.ne'] at he'
        exact h.before i hpos hall j e' hlt he'
      · rw [List.getElem?_set_self (h.place j hpos)] at he'
        cases he'
        rfl
    · have hlength : (({ s with allInitOK := true } : MBExchange).setRead i e vs).initRegList.length =
          s.initRegList.length := by
        have hset := @List.length_set _ s.initRegList i { e with initOK := true }
        rw [← hset, ← hlist]
        rfl
      have hnext := nextInit_pos (({ s with allInitOK := true } : MBExchange).setRead i e vs)
        (hlength ▸ h.place i hpos)
      rwa [hlength] at hnext

/-! ## Whole runs -/

theorem initialised_step {step : ExchangeStep} (h : Readable (s, b)) (horder : InOrder (s, b) step) :
    Initialised (s, b) step ∧ Readable (start (s, b) step) := by
  have hnext : Readable (start (s, b) step) := by
    cases step with
    | poll d pollfactor it size reply =>
      exact h.of_keeps (keeps_poll s d pollfactor it size reply)
        (sameList_poll s d pollfactor it size reply)
    | preInitRead reply vs ok => exact readable_preInitRead h horder
    | updateSM d k n ok =>
      exact h.of_keeps (keeps_updateRSProperty s horder)
        (sameList_updateRSProperty s d k n s.force_out ok)
    | sensorInfo d k vs ok =>
      exact h.of_keeps (keeps_sensorInfo s vs horder) (sameList_sensorInfo s d k vs ok)
    | initValues => exact ⟨fun _ _ _ _ => rfl, h.place, h.before, h.all⟩
    | setExchangeMode m => exact ⟨h.inner, h.place, h.before, h.all⟩
    | setMode d m => exact ⟨h.inner, h.place, h.before, h.all⟩
    | newChannel =>
      change Readable ((if s.initPos = none then { s with allInitOK := false } else s), b)
      split_ifs
      · exact ⟨h.inner, h.place, nofun, nofun⟩
      · exact h
    | firstInitRegisters =>
      change Readable (s.firstInitRegisters, b)
      unfold MBExchange.firstInitRegisters
      split_ifs with hbegin hempty
      · exact ⟨h.inner, nofun, nofun, fun _ _ e he => by rw [hempty] at he; cases he⟩
      · refine ⟨h.inner, fun i hi => ?_, fun i hi _ j e hj => ?_, nofun⟩
        · obtain rfl := Option.some.inj hi
          exact List.length_pos_of_ne_nil hempty
        · obtain rfl := Option.some.inj hi
          cases hj
      · exact h
  refine ⟨⟨fun d pollfactor it size reply hstep d' mbfunc mbreg data hsent k hk hlt => ?_, ?_⟩, hnext⟩
  · subst hstep
    obtain ⟨-, hpolls, hask⟩ := sent_poll hsent
    obtain ⟨-, -, ⟨-, hquery⟩ | ⟨hwrite, hinit, -⟩⟩ := ask_eq_inr hask
    · cases hquery
    · obtain ⟨hunread, halone⟩ := horder hpolls hwrite
      have hpos : s.initPos = none := of_decide_eq_true ((Bool.and_eq_true _ _).mp hpolls).1
      dsimp only at hlt hunread halone
      refine ⟨?_, fun e he hhas => ?_⟩
      · rcases hk.eq_or_lt with rfl | hinner
        · exact hinit
        · exact h.inner (halone.resolve_left (by omega)) d k ⟨it, hinner, hlt, hwrite⟩
      · cases hall : s.allInitOK with
        | false => exact absurd hhas (hunread hall k hk hlt e he)
        | true => exact h.all hpos hall e he
  · exact hnext.all

/-- In every run of steps in that order registers are initialised before they are written. -/
theorem initialised_of_inOrder {s : MBExchange} (hpos : s.initPos = none)
    (hall : s.allInitOK = false) {steps : List ExchangeStep}
    (h : Guarded start InOrder (s, false) steps) : Guarded start Initialised (s, false) steps := by
  have hs : Readable (s, false) := by
    refine ⟨nofun, fun i hi => ?_, fun i hi => ?_, fun _ h => ?_⟩
    · cases hpos.symm.trans hi
    · cases hpos.symm.trans hi
    · cases hall.symm.trans h
  exact h.of_invariant (I := Readable) (fun w step hw hstep => initialised_step hw hstep) hs

/-- Devices with registers for one function, the first of which is to be read before. -/
def preinitRegister : MBExchange :=
  ⟨false, fun _ => true, emNone, fun _ => emNone,
    fun _ k => ⟨0, UInt16.ofNat k, 6, [], k, 0, 1, false, false, true⟩, fun _ _ => 0,
    fun _ _ => 0, [⟨0, 0, 1, 0, 3, false⟩], false, none⟩

/-- The register is read, and then it is written. -/
theorem initialised_preinit :
    Guarded start Initialised (preinitRegister, false)
      [.initValues, .firstInitRegisters, .preInitRead (.ok [0, 7]) [7] true, .poll 0 1 0 1 (.ok [])] :=
  initialised_of_inOrder rfl rfl ⟨trivial, trivial, fun h => (by cases h), fun _ _ =>
    ⟨fun h => (by cases h), .inl rfl⟩, trivial⟩

/-- The register could not be read, and is written all the same. -/
theorem not_initialised_failed :
    ¬Guarded start Initialised (preinitRegister, false)
      [.initValues, .firstInitRegisters, .preInitRead (.error erTimeOut) [] true,
        .poll 0 1 0 1 (.ok [])] := by
  rintro ⟨-, -, -, h, -⟩
  have hread := (h.read 0 1 0 1 (.ok []) rfl 0 6 0 [0] (by decide) 0 le_rfl (by decide)).2
    ⟨0, 0, 1, 0, 3, false⟩ (by decide) ⟨rfl, le_rfl, by decide⟩
  cases hread

end Uniset.ModbusMaster
