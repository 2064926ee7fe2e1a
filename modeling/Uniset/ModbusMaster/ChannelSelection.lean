import Uniset.ModbusMaster.MBTCPMultiMaster

/-! Which channel is chosen. -/

namespace Uniset.ModbusMaster

open Uniset.Lib MBTCPMultiMaster

variable {n : Nat} (reopen : Bool) (a : Answers n) (s : MBTCPMultiMaster n)

/-- The channel in use is kept: it is not to be reopened, it responds, and there is a connection. -/
def Kept : Prop :=
  reopen = false ∧ ∃ c, s.mbi = some c ∧ a.checkTime c = true ∧ (s.mblist c).respond = true ∧
    (s.mblist c).check (a.check c) = true ∧
    (a.isConnection c = true ∨ (s.mblist c).initOK = false ∨ a.connect 0 c = true)

/-- A channel responds, is not ignored, and connects. -/
def Free (i : Fin n) : Prop :=
  (s.mblist i).respond = true ∧ a.checkTime i = true ∧ ¬(reopen = true ∧ s.mbi = some i) ∧
    a.connect 1 i = true

/-- A channel responds when it is checked once more, and connects. -/
def Connects (i : Fin n) : Prop :=
  (s.mblist i).respond = true ∧ a.check i = true ∧ a.connect 2 i = true

/-- No channel with the property has a higher priority. -/
def Maximal (P : Fin n → Prop) (i : Fin n) : Prop :=
  P i ∧ ∀ j, P j → (s.mblist j).priority ≤ (s.mblist i).priority

/-- What a call is to do. -/
structure Selects : Prop where
  best : ¬Kept reopen a s → ∀ i, (s.initMB reopen a).1 = some i →
    Maximal s (Free reopen a s) i ∨ (∀ j, ¬Free reopen a s j) ∧ Maximal s (Connects a s) i
  null : (s.initMB reopen a).1 = none → ∀ i, (s.mblist i).respond = false
  use : ∀ i, ((s.initMB reopen a).2.mblist i).use = true → (s.initMB reopen a).1 = some i

/-- What a call needs for that: channels that respond are listed in the order of their priorities, and
connect when they are initialised; one of them can be chosen; and a channel in use that is to be left
is one that is reopened. -/
structure Selectable : Prop where
  ordered : ∀ i j, i ≤ j → (s.mblist i).respond = true → (s.mblist j).respond = true →
    (s.mblist i).priority ≤ (s.mblist j).priority
  initialised : ∀ i, (s.mblist i).respond = true → (s.mblist i).initOK = false →
    a.connect 1 i = true ∧ a.connect 2 i = true
  found : (∃ i, (s.mblist i).respond = true) → ∃ i, Free reopen a s i ∨ Connects a s i
  released : reopen = true ∨ ∀ c, s.mbi = some c →
    a.checkTime c = true ∧ (s.mblist c).respond = true

/-- A step of a run, if it is a call, does what it is to do. -/
def StepSelects (s : MBTCPMultiMaster n) : GateStep n → Prop
  | .initMB reopen a => Selects reopen a s
  | .check _ _ _ => True

def StepSelectable (s : MBTCPMultiMaster n) : GateStep n → Prop
  | .initMB reopen a => Kept reopen a s ∨ Selectable reopen a s
  | .check _ _ _ => True

/-- The channel in use is the only one with the flag. -/
def UsesCurrent (s : MBTCPMultiMaster n) : Prop :=
  ∀ i, (s.mblist i).use = true ↔ s.mbi = some i

variable {reopen a s}

/-! ## One pass over the channels -/

/-- A channel can be had in a pass. -/
def Eligible (wanted : MBSlaveInfo → Fin n → Bool) (connect : Fin n → Bool)
    (s : MBTCPMultiMaster n) (i : Fin n) : Prop :=
  wanted (s.mblist i) i = true ∧ ((s.mblist i).initOK = false ∨ connect i = true)

theorem pass_cases (wanted : MBSlaveInfo → Fin n → Bool) (connect : Fin n → Bool)
    (is : List (Fin n)) (s : MBTCPMultiMaster n) :
    (MBTCPMultiMaster.pass wanted connect is s = (none, s) ∧
      ∀ i ∈ is, ¬Eligible wanted connect s i) ∨
      ∃ i before after, is = before ++ i :: after ∧ Eligible wanted connect s i ∧
        (∀ j ∈ before, ¬Eligible wanted connect s j) ∧
        MBTCPMultiMaster.pass wanted connect is s =
          (some i, s.set i { s.mblist i with initOK := true }) := by
  induction is with
  | nil => exact .inl ⟨rfl, by simp⟩
  | cons i is ih =>
    by_cases hel : Eligible wanted connect s i
    · refine .inr ⟨i, [], is, rfl, hel, by simp, ?_⟩
      rw [MBTCPMultiMaster.pass, if_pos hel.1, MBSlaveInfo.init]
      cases hinit : (s.mblist i).initOK with
      | false => simp
      | true =>
        have hconnect : connect i = true := hel.2.resolve_left (by simp [hinit])
        have hsame : { s.mblist i with initOK := true } = s.mblist i := by rw [← hinit]
        simp [hconnect, hsame]
    · have hskip : MBTCPMultiMaster.pass wanted connect (i :: is) s =
          MBTCPMultiMaster.pass wanted connect is s := by
        rw [MBTCPMultiMaster.pass]
        split_ifs with hwanted
        · obtain ⟨hinit, hconnect⟩ := not_or.mp fun h => hel ⟨hwanted, h⟩
          have hset : s.set i (s.mblist i) = s := by
            rw [MBTCPMultiMaster.set, Function.update_eq_self]
          simp [MBSlaveInfo.init, hinit, hconnect, hset]
        · rfl
      rw [hskip]
      rcases ih with ⟨hpass, hnone⟩ | ⟨j, before, after, rfl, hj, hbefore, hpass⟩
      · exact .inl ⟨hpass, List.forall_mem_cons.mpr ⟨hel, hnone⟩⟩
      · exact .inr ⟨j, i :: before, after, rfl, hj, List.forall_mem_cons.mpr ⟨hel, hbefore⟩, hpass⟩

/-- A pass goes from the last channel to the first. -/
theorem pass_order (wanted : MBSlaveInfo → Fin n → Bool) (connect : Fin n → Bool)
    (s : MBTCPMultiMaster n) :
    (MBTCPMultiMaster.pass wanted connect (order n) s = (none, s) ∧
      ∀ i, ¬Eligible wanted connect s i) ∨
      ∃ i, Eligible wanted connect s i ∧ (∀ j, i < j → ¬Eligible wanted connect s j) ∧
        MBTCPMultiMaster.pass wanted connect (order n) s =
          (some i, s.set i { s.mblist i with initOK := true }) := by
  have hmem : ∀ i, i ∈ order n := fun i => List.mem_reverse.mpr (List.mem_finRange i)
  rcases pass_cases wanted connect (order n) s with ⟨hpass, hnone⟩ | ⟨i, before, after, hsplit, h⟩
  · exact .inl ⟨hpass, fun i => hnone i (hmem i)⟩
  · refine .inr ⟨i, h.1, fun j hj => ?_, h.2.2⟩
    have hsorted : (order n).Pairwise fun i j => j < i := by
      rw [order, List.pairwise_reverse]
      exact List.pairwise_lt_finRange n
    rw [hsplit] at hsorted
    have hj' := hmem j
    rw [hsplit] at hj'
    refine h.2.1 j ((List.mem_append.mp hj').resolve_right fun hafter => ?_)
    rcases List.mem_cons.mp hafter with rfl | hafter
    · exact absurd hj (lt_irrefl j)
    · have hlt := (List.pairwise_cons.mp (List.pairwise_append.mp hsorted).2.1).1 j hafter
      exact absurd hj (not_lt_of_gt hlt)

/-! ## One call -/

theorem current_kept (hkept : Kept reopen a s) : ∃ c m, s.mbi = some c ∧ m.use = true ∧
    current a (refresh reopen a s) = (true, (refresh reopen a s).set c m) := by
  obtain ⟨rfl, c, hc, htimer, hrespond, hcheck, hconnect⟩ := hkept
  unfold current refresh
  simp only [hc, htimer, hrespond, Bool.not_true, Bool.not_false, Bool.and_self, if_true,
    MBSlaveInfo.check, MBSlaveInfo.init, Bool.false_eq_true, if_false] at hcheck ⊢
  cases hconn : a.isConnection c with
  | true => exact ⟨c, _, rfl, rfl, by simp only [hcheck, Bool.and_self, if_true]; rfl⟩
  | false =>
    cases hinit : (s.mblist c).initOK with
    | false => exact ⟨c, _, rfl, rfl, by simp [hcheck]; rfl⟩
    | true =>
      have hconnect : a.connect 0 c = true := by simpa [hconn, hinit] using hconnect
      exact ⟨c, _, rfl, rfl, by simp [hcheck, hconnect]; rfl⟩

theorem initMB_kept (hkept : Kept reopen a s) :
    (s.initMB reopen a).1 = s.mbi ∧ (s.initMB reopen a).2.mbi = s.mbi ∧
      ∀ i, ((s.initMB reopen a).2.mblist i).use = true ↔
        (s.mblist i).use = true ∨ s.mbi = some i := by
  obtain ⟨c, m, hc, hm, hcurrent⟩ := current_kept hkept
  have hreopen := hkept.1
  subst hreopen
  have hmbi : (refresh false a s).mbi = s.mbi := by
    unfold refresh
    rw [hc]
    rfl
  unfold MBTCPMultiMaster.initMB
  rw [hcurrent]
  refine ⟨hmbi, hmbi, fun i => ?_⟩
  by_cases hi : i = c
  · subst hi
    simp [MBTCPMultiMaster.set, hm, hc]
  · have hne : ¬c = i := fun h => hi h.symm
    simp [MBTCPMultiMaster.set, Function.update_of_ne hi, refresh, hc, hne]

/-- A channel when the others are looked at, and the one in use has been left. -/
def left (reopen : Bool) (a : Answers n) (s : MBTCPMultiMaster n) (i : Fin n) : MBSlaveInfo :=
  ⟨(s.mblist i).priority, (s.mblist i).respond, false, (s.mblist i).initOK,
    !a.checkTime i || (reopen && decide (s.mbi = some i))⟩

theorem current_left (huses : UsesCurrent s) (hkept : ¬Kept reopen a s)
    (hreleased : reopen = true ∨ ∀ c, s.mbi = some c →
      a.checkTime c = true ∧ (s.mblist c).respond = true) :
    ∃ s', current a (refresh reopen a s) = (false, s') ∧ s'.mblist = left reopen a s := by
  have hunused : ∀ i, s.mbi ≠ some i → (s.mblist i).use = false := fun i hi =>
    Bool.eq_false_iff.mpr (mt (huses i).mp hi)
  cases hmbi : s.mbi with
  | none =>
    refine ⟨refresh reopen a s, by simp [current, refresh, hmbi], funext fun i => ?_⟩
    have huse := hunused i (by simp [hmbi])
    simp [refresh, hmbi, left, huse]
  | some c =>
    have hother : ∀ i, i ≠ c → (s.mblist i).use = false ∧ ¬c = i :=
      fun i hi => ⟨hunused i (by simp [hmbi, hi.symm]), hi.symm⟩
    cases reopen with
    | true =>
      refine ⟨refresh true a s, ?_, funext fun i => ?_⟩
      · simp [current, refresh, hmbi, MBTCPMultiMaster.set]
      · by_cases hi : i = c
        · subst hi
          simp [refresh, hmbi, left, MBTCPMultiMaster.set]
        · obtain ⟨huse, hne⟩ := hother i hi
          simp [refresh, hmbi, left, MBTCPMultiMaster.set, Function.update_of_ne hi, huse, hne]
    | false =>
      obtain ⟨htimer, hrespond⟩ := (hreleased.resolve_left (by simp)) c hmbi
      have huse := (huses c).mpr hmbi
      have hfailed : a.isConnection c = false ∧ (s.mblist c).initOK = true ∧
          a.connect 0 c = false := by
        by_contra hsome
        refine hkept ⟨rfl, c, hmbi, htimer, hrespond, by simp [MBSlaveInfo.check, huse], ?_⟩
        grind
      obtain ⟨hconn, hinit, hconnect⟩ := hfailed
      refine ⟨(refresh false a s).set c { (refresh false a s).mblist c with use := false }, ?_,
        funext fun i => ?_⟩
      · simp [current, refresh, hmbi, htimer, hrespond, MBSlaveInfo.check, MBSlaveInfo.init, huse,
          hconn, hinit, hconnect]
      · by_cases hi : i = c
        · subst hi
          simp [refresh, hmbi, left, MBTCPMultiMaster.set, htimer]
        · obtain ⟨huse, hne⟩ := hother i hi
          simp [refresh, hmbi, left, MBTCPMultiMaster.set, Function.update_of_ne hi, huse, hne]

theorem eligible_first {s' : MBTCPMultiMaster n} (hselect : Selectable reopen a s)
    (hs' : s'.mblist = left reopen a s) (i : Fin n) :
    Eligible (fun m _ => m.respond && !m.ignore) (a.connect 1) s' i ↔ Free reopen a s i := by
  have hinit := hselect.initialised i
  unfold Eligible Free
  rw [hs', left]
  cases hrespond : (s.mblist i).respond with
  | false => simp
  | true =>
    cases hok : (s.mblist i).initOK with
    | false =>
      have hconnect := (hinit hrespond hok).1
      cases reopen <;> simp [hconnect]
    | true => cases reopen <;> simp [and_assoc]

theorem eligible_second {s' : MBTCPMultiMaster n} (hselect : Selectable reopen a s)
    (hs' : s'.mblist = left reopen a s) (i : Fin n) :
    Eligible (fun m i => m.respond && m.check (a.check i)) (a.connect 2) s' i ↔
      Connects a s i := by
  have hinit := hselect.initialised i
  unfold Eligible Connects MBSlaveInfo.check
  rw [hs', left]
  cases hrespond : (s.mblist i).respond with
  | false => simp
  | true =>
    cases hok : (s.mblist i).initOK with
    | false =>
      have hconnect := (hinit hrespond hok).2
      simp [hconnect]
    | true => simp

theorem maximal_of_last {P : Fin n → Prop} {i : Fin n}
    (hordered : ∀ i j, i ≤ j → (s.mblist i).respond = true → (s.mblist j).respond = true →
      (s.mblist i).priority ≤ (s.mblist j).priority)
    (hrespond : ∀ j, P j → (s.mblist j).respond = true) (hi : P i) (hlast : ∀ j, i < j → ¬P j) :
    Maximal s P i :=
  ⟨hi, fun j hj => hordered j i (not_lt.mp fun hlt => hlast j hlt hj) (hrespond j hj)
    (hrespond i hi)⟩

/-- The channel that is selected is the only one in use. -/
theorem use_select {s' : MBTCPMultiMaster n} (hs' : ∀ j, (s'.mblist j).use = false) (i j : Fin n)
    (m : MBSlaveInfo) : (((s'.set i m).select i).mblist j).use = true ↔ j = i := by
  by_cases hj : j = i
  · subst hj
    simp [select, MBTCPMultiMaster.set]
  · simp [select, MBTCPMultiMaster.set, hs', hj]

theorem initMB_selectable (huses : UsesCurrent s) (hkept : ¬Kept reopen a s)
    (hselect : Selectable reopen a s) :
    Selects reopen a s ∧ UsesCurrent (s.initMB reopen a).2 := by
  obtain ⟨s', hcurrent, hleft⟩ := current_left huses hkept hselect.released
  have hunused : ∀ j, (s'.mblist j).use = false := fun j => by rw [hleft]; rfl
  have hfirst := eligible_first hselect hleft
  have hsecond := eligible_second hselect hleft
  -- in either pass the last channel that can be had is taken
  rcases pass_order (fun m _ => m.respond && !m.ignore) (a.connect 1) s' with
    ⟨hpass, hnone⟩ | ⟨i, hi, hlast, hpass⟩
  · have hfree : ∀ j, ¬Free reopen a s j := fun j hj => hnone j ((hfirst j).mpr hj)
    rcases pass_order (fun m i => m.respond && m.check (a.check i)) (a.connect 2) s' with
      ⟨hpass₂, hnone₂⟩ | ⟨i, hi, hlast, hpass₂⟩
    · have hresult : s.initMB reopen a = (none, { s' with mbi := none }) := by
        simp only [MBTCPMultiMaster.initMB, hcurrent, hpass, hpass₂, Bool.false_eq_true, if_false]
      have hconnects : ∀ j, ¬Connects a s j := fun j hj => hnone₂ j ((hsecond j).mpr hj)
      rw [UsesCurrent, hresult]
      refine ⟨⟨fun _ j hj => ?_, fun _ j => ?_, fun j hj => ?_⟩, fun j => ?_⟩
      · rw [hresult] at hj
        cases hj
      · by_contra hrespond
        obtain ⟨k, hk⟩ := hselect.found ⟨j, Bool.not_eq_false _ ▸ hrespond⟩
        exact hk.elim (hfree k) (hconnects k)
      · rw [hresult] at hj
        rw [hunused j] at hj
        cases hj
      · rw [hunused j]
        simp
    · have hresult : s.initMB reopen a =
          (some i, ((s'.set i { s'.mblist i with initOK := true }).set i
            { (s'.set i { s'.mblist i with initOK := true }).mblist i with ignore := false }).select
              i) := by
        simp only [MBTCPMultiMaster.initMB, hcurrent, hpass, hpass₂, Bool.false_eq_true, if_false]
      have hset : ∀ m m', (s'.set i m).set i m' = s'.set i m' := fun m m' => by
        simp [MBTCPMultiMaster.set]
      rw [UsesCurrent, hresult, hset]
      refine ⟨⟨fun _ j hj => ?_, fun h => ?_, fun j hj => ?_⟩, fun j => ?_⟩
      · rw [hresult] at hj
        obtain rfl := Option.some.inj hj
        exact .inr ⟨hfree, maximal_of_last hselect.ordered (fun j hj => hj.1) ((hsecond _).mp hi)
          fun j hlt hj => hlast j hlt ((hsecond j).mpr hj)⟩
      · rw [hresult] at h
        cases h
      · rw [hresult, hset] at hj
        rw [hresult, (use_select hunused i j _).mp hj]
      · rw [use_select hunused]
        exact ⟨fun h => congrArg some h.symm, fun h => (Option.some.inj h).symm⟩
  · have hresult : s.initMB reopen a =
        (some i, (s'.set i { s'.mblist i with initOK := true }).select i) := by
      simp only [MBTCPMultiMaster.initMB, hcurrent, hpass, Bool.false_eq_true, if_false]
    rw [UsesCurrent, hresult]
    refine ⟨⟨fun _ j hj => ?_, fun h => ?_, fun j hj => ?_⟩, fun j => ?_⟩
    · rw [hresult] at hj
      obtain rfl := Option.some.inj hj
      exact .inl (maximal_of_last hselect.ordered (fun j hj => hj.1) ((hfirst _).mp hi)
        fun j hlt hj => hlast j hlt ((hfirst j).mpr hj))
    · rw [hresult] at h
      cases h
    · rw [hresult] at hj
      rw [hresult, (use_select hunused i j _).mp hj]
    · rw [use_select hunused]
      exact ⟨fun h => congrArg some h.symm, fun h => (Option.some.inj h).symm⟩

/-! ## Whole histories -/

theorem usesCurrent_initGateList (gates : List Gate) : UsesCurrent (initGateList gates) := by
  intro i
  unfold initGateList
  cases horder : order (sortGates gates).length with
  | nil =>
    have hi : i ∈ order (sortGates gates).length := List.mem_reverse.mpr (List.mem_finRange i)
    rw [horder] at hi
    cases hi
  | cons j js =>
    by_cases hi : i = j
    · subst hi
      simp [select, MBTCPMultiMaster.set]
    · have hne : ¬j = i := fun h => hi h.symm
      simp [select, MBTCPMultiMaster.set, Function.update_of_ne hi, hne]

theorem gateStep_selects {step : GateStep n} (huses : UsesCurrent s) (h : StepSelectable s step) :
    StepSelects s step ∧ UsesCurrent (gateStep s step) := by
  cases step with
  | check i timer r =>
    refine ⟨trivial, fun j => ?_⟩
    have hj := huses j
    by_cases hi : j = i
    · subst hi
      simpa [gateStep, check_thread, MBTCPMultiMaster.set] using hj
    · simpa [gateStep, check_thread, MBTCPMultiMaster.set, Function.update_of_ne hi] using hj
  | initMB reopen a =>
    by_cases hkept : Kept reopen a s
    · obtain ⟨hresult, hmbi, huse⟩ := initMB_kept hkept
      have huse' : ∀ i, ((s.initMB reopen a).2.mblist i).use = true ↔ s.mbi = some i := fun i => by
        rw [huse, huses i, or_self]
      refine ⟨⟨fun hnot => absurd hkept hnot, fun hnone => ?_, fun i hi => ?_⟩, fun i => ?_⟩
      · obtain ⟨-, c, hc, -⟩ := hkept
        rw [hresult, hc] at hnone
        cases hnone
      · rw [hresult]
        exact (huse' i).mp hi
      · rw [gateStep, hmbi]
        exact huse' i
    · exact initMB_selectable huses hkept (h.resolve_left hkept)

/-- Each call of a history selects the channel it is to select. -/
theorem initMB_selects {gates : List Gate} {steps : List (GateStep (sortGates gates).length)}
    (h : Guarded gateStep StepSelectable (initGateList gates) steps) :
    Guarded gateStep StepSelects (initGateList gates) steps :=
  h.of_invariant (fun _ _ => gateStep_selects) (usesCurrent_initGateList gates)

/-- Everything answers. -/
def Answers.all (n : Nat) : Answers n :=
  ⟨fun _ => true, fun _ => true, fun _ => true, fun _ _ => true⟩

theorem selectable_iff : Selectable reopen a s ↔
    (∀ i j, i ≤ j → (s.mblist i).respond = true → (s.mblist j).respond = true →
      (s.mblist i).priority ≤ (s.mblist j).priority) ∧
      (∀ i, (s.mblist i).respond = true → (s.mblist i).initOK = false →
        a.connect 1 i = true ∧ a.connect 2 i = true) ∧
      ((∃ i, (s.mblist i).respond = true) → ∃ i, Free reopen a s i ∨ Connects a s i) ∧
      (reopen = true ∨ ∀ c, s.mbi = some c →
        a.checkTime c = true ∧ (s.mblist c).respond = true) :=
  ⟨fun h => ⟨h.ordered, h.initialised, h.found, h.released⟩, fun h => ⟨h.1, h.2.1, h.2.2.1, h.2.2.2⟩⟩

instance (i : Fin n) : Decidable (Free reopen a s i) :=
  inferInstanceAs (Decidable (_ ∧ _))

instance (i : Fin n) : Decidable (Connects a s i) :=
  inferInstanceAs (Decidable (_ ∧ _))

instance : Decidable (Kept reopen a s) :=
  inferInstanceAs (Decidable (_ ∧ ∃ _, _))

instance : Decidable (Selectable reopen a s) :=
  decidable_of_iff _ selectable_iff.symm

instance : (s : MBTCPMultiMaster n) → (step : GateStep n) → Decidable (StepSelectable s step)
  | _, .initMB _ _ => inferInstanceAs (Decidable (_ ∨ _))
  | _, .check _ _ _ => inferInstanceAs (Decidable True)

/-- Nothing responds at first; then the channel in use is left for the other one, it comes back when
every channel is ignored, and it is kept. -/
def twoChannels : List (GateStep (sortGates [⟨100, 1⟩, ⟨200, 2⟩]).length) :=
  [.initMB true (.all _), .check ⟨0, by decide⟩ true true, .check ⟨1, by decide⟩ true true,
    .initMB true (.all _), .initMB true (.all _),
    .initMB true { Answers.all _ with checkTime := fun _ => false }, .initMB false (.all _)]

theorem initMB_selects_two :
    ((List.range 8).map fun k =>
        ((twoChannels.take k).foldl gateStep (initGateList _)).mbi.map (·.val)) =
      [some 1, none, none, none, some 1, some 0, some 1, some 1] ∧
      Guarded gateStep StepSelects (initGateList [⟨100, 1⟩, ⟨200, 2⟩]) twoChannels :=
  ⟨by decide, initMB_selects (by decide)⟩

/-- The channel that is chosen has the priority 1, but one with the priority 5 responds. -/
theorem not_selects_highest :
    ¬Guarded gateStep StepSelects (initGateList [⟨100, 5⟩, ⟨200, 1⟩, ⟨300, 3⟩])
      [.check ⟨0, by decide⟩ true true, .check ⟨1, by decide⟩ true true, .initMB true (.all _)] := by
  intro h
  have hbest := h.2.2.1.best (fun hkept => absurd hkept.1 (by decide)) ⟨1, by decide⟩ (by decide)
  rcases hbest with hmax | ⟨hnone, -⟩
  · exact absurd (hmax.2 ⟨0, by decide⟩ ⟨by decide, rfl, by decide, rfl⟩) (by decide)
  · exact hnone ⟨0, by decide⟩ ⟨by decide, rfl, by decide, rfl⟩

end Uniset.ModbusMaster
