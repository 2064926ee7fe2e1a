import Uniset.SharedMemory.HeartBeat

/-! The watchdog is to be left alone when a process has not renewed its counter for too long. -/

namespace Uniset

namespace SharedMemory

open Uniset.Lib Uniset.Processes

/-- `exhaustedSince` is not in the code: when the check has been that found a counter exhausted first,
if it has been found so by every check since. -/
structure Memory where
  now : Nat
  io : IOStateList
  hblist : List HeartBeatInfo
  wdt : Bool
  workready : Bool
  exhaustedSince : ObjectId → Option Nat

inductive MemoryStep
  | tick (ns : Nat)
  | setValue (sid : ObjectId) (value : Int) (sup_id : ObjectId)
  | setWorkready (b : Bool)
  | checkHeartBeat

/-- The entry, and whether the watchdog may be pinged as far as it goes. -/
def HeartBeatInfo.checkReboot (it : HeartBeatInfo) (now : Nat) (wdt : Bool) (val : Int) :
    HeartBeatInfo × Bool :=
  if wdt ∧ it.ptReboot.getInterval ≠ 0 then
    if 0 < val then ({ it with timer_running := false }, true)
    else if !it.timer_running then
      ({ it with timer_running := true, ptReboot := .setTiming it.reboot_msec now }, true)
    else (it, !it.ptReboot.checkTime now)
  else (it, true)

variable (ic : IOController)

/-- One round of the loop.  Whatever is thrown ends it. -/
def checkEntry (now : Nat) (wdt : Bool) (io : IOStateList) (it : HeartBeatInfo) :
    IOStateList × HeartBeatInfo × Bool :=
  match it.readCounter ic io with
  | .error _ => (io, it, true)
  | .ok val =>
    match it.writeCounter ic io val with
    | (io, .error _) => (io, it, true)
    | (io, .ok _) =>
      match it.writeAlive ic io val with
      | (io, .error _) => (io, it, true)
      | (io, .ok _) => (io, it.checkReboot now wdt val)

def checkEntries (now : Nat) (wdt : Bool) :
    List HeartBeatInfo → IOStateList → IOStateList × List HeartBeatInfo × Bool
  | [], io => (io, [], true)
  | it :: its, io =>
    let (io, it, ok) := checkEntry ic now wdt io it
    let (io, its, oks) := checkEntries now wdt its io
    (io, it :: its, ok && oks)

namespace Memory

/-- A counter is found exhausted, for the first time or once more. -/
def found (now : Nat) (io : IOStateList) (since : ObjectId → Option Nat) (sid : ObjectId) :
    Option Nat :=
  if (io sid).value ≤ 0 then some ((since sid).getD now) else none

/-- Returns whether the watchdog is pinged. -/
def checkHeartBeat (s : Memory) : Memory × Bool :=
  if s.hblist = [] then (s, s.wdt && s.workready)
  else
    let (io, hblist, wdtpingOK) := checkEntries ic s.now s.wdt s.hblist s.io
    ({ s with io, hblist, exhaustedSince := found s.now io s.exhaustedSince },
      s.wdt && wdtpingOK && s.workready)

def step (s : Memory) : MemoryStep → Memory
  | .tick ns => { s with now := s.now + ns }
  | .setValue sid value sup_id => { s with io := (ic.setValue s.io sid value sup_id).1 }
  | .setWorkready b => { s with workready := b }
  | .checkHeartBeat => (s.checkHeartBeat ic).1

/-- The counter of an entry has been exhausted at every check for as long as the process has to
renew it. -/
def Stuck (s : Memory) (it : HeartBeatInfo) : Prop :=
  0 < it.reboot_msec ∧
    ∃ t, s.exhaustedSince it.a_sid = some t ∧ t + it.reboot_msec * 1000000 ≤ s.now

/-- What a check is to do. -/
structure Watched (s : Memory) (step : MemoryStep) : Prop where
  ping : step = .checkHeartBeat → s.wdt = true → s.workready = true →
    ((s.checkHeartBeat ic).2 = true ↔
      ∀ it ∈ s.hblist, ¬(s.checkHeartBeat ic).1.Stuck it)
  alive : step = .checkHeartBeat → ∀ it ∈ s.hblist, it.d_sid ≠ DefaultObjectId →
    (((s.checkHeartBeat ic).1.io it.d_sid).value ≠ 0 ↔
      0 ≤ ((s.checkHeartBeat ic).1.io it.a_sid).value)

/-- At a check that can ping the watchdog, a counter for which the process has a time either has
been renewed or has not been exhausted for that time. -/
def InTime (s : Memory) : MemoryStep → Prop
  | .checkHeartBeat => s.wdt = true → s.workready = true → ∀ it ∈ s.hblist, 0 < it.reboot_msec →
      1 < (s.io it.a_sid).value ∨
        ∀ t, s.exhaustedSince it.a_sid = some t → s.now < t + it.reboot_msec * 1000000
  | _ => True

end Memory

/-- The sensors of an entry; the alive sensor need not be given. -/
structure Entry (io : IOStateList) (it : HeartBeatInfo) : Prop where
  counter : Plain ic io it.a_sid
  alive : it.d_sid ≠ DefaultObjectId → Plain ic io it.d_sid
  differ : it.a_sid ≠ it.d_sid

/-- Two entries have no sensor in common. -/
structure Apart (it it' : HeartBeatInfo) : Prop where
  counters : it.a_sid ≠ it'.a_sid
  alive : it.d_sid ≠ DefaultObjectId → it.d_sid ≠ it'.d_sid
  left : it.a_sid ≠ it'.d_sid
  right : it.d_sid ≠ it'.a_sid

/-- The entries are for sensors of their own, and are as `readItem` makes them. -/
structure Separate (io : IOStateList) (its : List HeartBeatInfo) : Prop where
  entry : ∀ it ∈ its, Entry ic io it
  apart : its.Pairwise Apart
  idle : ∀ it ∈ its, it.ptReboot.getInterval = 0

variable {ic} {io : IOStateList} {it : HeartBeatInfo} {its : List HeartBeatInfo} {y : ObjectId}

open HeartBeatInfo

theorem readItem_idle {heartbeat_node : String} {getSensorID : String → ObjectId} {now : Nat}
    {item : HeartBeatItem} {it : HeartBeatInfo}
    (h : readItem heartbeat_node getSensorID now item = .ok (some it)) :
    it.ptReboot.getInterval = 0 := by
  unfold readItem at h
  dsimp only at h
  split_ifs at h <;> cases h <;> rfl

/-- No entry that is read has a timer with an interval. -/
theorem readItems_idle {heartbeat_node : String} {getSensorID : String → ObjectId} {now : Nat}
    {items : List HeartBeatItem} {hblist : List HeartBeatInfo}
    (h : readItems heartbeat_node getSensorID now items = .ok hblist) :
    ∀ it ∈ hblist, it.ptReboot.getInterval = 0 := by
  have hall : ∀ his, items.mapM (readItem heartbeat_node getSensorID now) = .ok his →
      ∀ it, some it ∈ his → it.ptReboot.getInterval = 0 := by
    clear h
    induction items with
    | nil =>
      intro his hhis it hit
      obtain rfl : [] = his := Except.ok.inj hhis
      cases hit
    | cons item items ih =>
      intro his hhis it hit
      rw [List.mapM_cons] at hhis
      cases hitem : readItem heartbeat_node getSensorID now item with
      | error e => rw [hitem] at hhis; cases hhis
      | ok hi =>
        cases hrest : items.mapM (readItem heartbeat_node getSensorID now) with
        | error e => rw [hitem, hrest] at hhis; cases hhis
        | ok rest =>
          rw [hitem, hrest] at hhis
          obtain rfl : hi :: rest = his := Except.ok.inj hhis
          rcases List.mem_cons.mp hit with rfl | hrestmem
          · exact readItem_idle hitem
          · exact ih rest hrest it hrestmem
  unfold readItems at h
  cases hmap : items.mapM (readItem heartbeat_node getSensorID now) with
  | error e => rw [hmap] at h; cases h
  | ok his =>
    rw [hmap] at h
    obtain rfl : his.filterMap id = hblist := Except.ok.inj h
    intro it hit
    obtain ⟨hi, hhi, hsome⟩ := List.mem_filterMap.mp hit
    obtain rfl : hi = some it := hsome
    exact hall his hmap it hhi

/-! ## One check -/

/-- What the check does to the sensors of an entry. -/
structure Checked (io io' : IOStateList) (it : HeartBeatInfo) : Prop where
  counter : (io' it.a_sid).value = countdown (io it.a_sid).value
  alive : it.d_sid ≠ DefaultObjectId →
    (io' it.d_sid).value = if 0 ≤ countdown (io it.a_sid).value then 1 else 0

theorem checkEntry_spec (now : Nat) (wdt : Bool) (h : Entry ic io it) (hidle : it.ptReboot.getInterval = 0) :
    (checkEntry ic now wdt io it).2 = (it, true) ∧ Checked io (checkEntry ic now wdt io it).1 it ∧
      ∀ y, Plain ic io y → Plain ic (checkEntry ic now wdt io it).1 y ∧
        (y ≠ it.a_sid → y ≠ it.d_sid → (checkEntry ic now wdt io it).1 y = io y) := by
  obtain ⟨hcounter, halive, hdiffer⟩ := h
  have hread : it.readCounter ic io = .ok (countdown (io it.a_sid).value) := by
    unfold readCounter
    rw [getValue_own hcounter]
    rfl
  generalize hval : countdown (io it.a_sid).value = val at hread
  -- the counter is written
  have hplain := fun y (hy : Plain ic io y) => setValue_plain it.a_sid val ic.conf.id hy
  have hok := setValue_own val hcounter
  cases hwrite : ic.setValue io it.a_sid val ic.conf.id with
  | mk io₁ res =>
    rw [hwrite] at hok
    simp only [hwrite] at hplain
    cases res with
    | error e => cases hok
    | ok v =>
      have hvalue : (io₁ it.a_sid).value = val := (hplain _ hcounter).2.2.1 rfl rfl
      -- the alive sensor is written, if there is one
      have hplain₁ := fun y (hy : Plain ic io y) => setValue_plain it.d_sid
        (if 0 ≤ val then 1 else 0) ic.conf.id (hplain y hy).1
      have hok₁ : it.d_sid ≠ DefaultObjectId →
          (ic.setValue io₁ it.d_sid (if 0 ≤ val then 1 else 0) ic.conf.id).2.isOk = true :=
        fun hd => setValue_own _ (hplain _ (halive hd)).1
      cases hwrite₁ : ic.setValue io₁ it.d_sid (if 0 ≤ val then 1 else 0) ic.conf.id with
      | mk io₂ res =>
        rw [hwrite₁] at hok₁
        simp only [hwrite₁] at hplain₁
        have hcheck : checkEntry ic now wdt io it = (io₂, it, true) := by
          unfold checkEntry writeCounter writeAlive checkReboot
          rw [hread]
          dsimp only
          rw [hwrite]
          dsimp only
          rw [hwrite₁]
          cases res with
          | error e => rfl
          | ok w => simp [hidle]
        rw [hcheck]
        dsimp only
        refine ⟨rfl, ⟨?_, fun hd => ?_⟩, fun y hy => ⟨(hplain₁ y hy).1, fun ha hd => ?_⟩⟩
        · rw [(hplain₁ _ hcounter).2.1 hdiffer, hvalue, hval]
        · rw [hval]
          exact (hplain₁ _ (halive hd)).2.2.1 (hok₁ hd) rfl
        · exact ((hplain₁ y hy).2.1 hd).trans ((hplain y hy).2.1 ha)

theorem Separate.of_same {io' : IOStateList} (h : Separate ic io its)
    (hplain : ∀ y, Plain ic io y → Plain ic io' y) : Separate ic io' its :=
  ⟨fun it hit => ⟨hplain _ (h.entry it hit).counter, fun hd => hplain _ ((h.entry it hit).alive hd),
    (h.entry it hit).differ⟩, h.apart, h.idle⟩

theorem checkEntries_spec (now : Nat) (wdt : Bool) (h : Separate ic io its) :
    (checkEntries ic now wdt its io).2 = (its, true) ∧
      (∀ it ∈ its, Checked io (checkEntries ic now wdt its io).1 it) ∧
      ∀ y, Plain ic io y → Plain ic (checkEntries ic now wdt its io).1 y ∧
        ((∀ it ∈ its, y ≠ it.a_sid ∧ y ≠ it.d_sid) →
          (checkEntries ic now wdt its io).1 y = io y) := by
  induction its generalizing io with
  | nil => exact ⟨rfl, nofun, fun y hy => ⟨hy, fun _ => rfl⟩⟩
  | cons it its ih =>
    obtain ⟨hentry, hapart, hidle⟩ := h
    obtain ⟨hfirst, hrest⟩ := List.pairwise_cons.mp hapart
    obtain ⟨heq, hchecked, hplain⟩ := checkEntry_spec now wdt
      (hentry it List.mem_cons_self) (hidle it List.mem_cons_self)
    cases hcheck : checkEntry ic now wdt io it with
    | mk io₁ out =>
      rw [hcheck] at heq hchecked
      simp only [hcheck] at hplain
      obtain rfl : out = (it, true) := heq
      have hsep : Separate ic io₁ its :=
        Separate.of_same ⟨fun e he => hentry e (List.mem_cons_of_mem _ he), hrest,
          fun e he => hidle e (List.mem_cons_of_mem _ he)⟩ fun y hy => (hplain y hy).1
      obtain ⟨heqs, hchecks, hplains⟩ := ih hsep
      have hstep : checkEntries ic now wdt (it :: its) io =
          ((checkEntries ic now wdt its io₁).1, it :: its, true) := by
        rw [checkEntries, hcheck]
        exact congrArg (fun out : List HeartBeatInfo × Bool =>
          ((checkEntries ic now wdt its io₁).1, it :: out.1, true && out.2)) heqs
      rw [hstep]
      refine ⟨rfl, List.forall_mem_cons.mpr ⟨?_, fun e he => ?_⟩, fun y hy =>
        ⟨(hplains y (hplain y hy).1).1, fun hne => ?_⟩⟩
      · -- the entries that follow leave the sensors of this one
        have hent := hentry it List.mem_cons_self
        have ha := (hplains _ (hplain _ hent.counter).1).2 fun e he =>
          ⟨(hfirst e he).counters, (hfirst e he).left⟩
        refine ⟨by rw [ha]; exact hchecked.counter, fun hd => ?_⟩
        rw [(hplains _ (hplain _ (hent.alive hd)).1).2 fun e he =>
          ⟨(hfirst e he).right, (hfirst e he).alive hd⟩]
        exact hchecked.alive hd
      · -- and this one leaves theirs
        have hent := hentry e (List.mem_cons_of_mem _ he)
        have ha := (hplain _ hent.counter).2 (hfirst e he).counters.symm (hfirst e he).right.symm
        have hcounter := (hchecks e he).counter
        have halive := (hchecks e he).alive
        rw [ha] at hcounter halive
        exact ⟨hcounter, halive⟩
      · obtain ⟨ha, hd⟩ := hne it List.mem_cons_self
        rw [(hplains y (hplain y hy).1).2 fun e he => hne e (List.mem_cons_of_mem _ he)]
        exact (hplain y hy).2 ha hd

/-! ## Whole runs -/

namespace Memory

variable {s : Memory}

theorem checkHeartBeat_spec (h : Separate ic s.io s.hblist) :
    (s.checkHeartBeat ic).2 = (s.wdt && s.workready) ∧
      (s.checkHeartBeat ic).1.hblist = s.hblist ∧ (s.checkHeartBeat ic).1.now = s.now ∧
      (∀ it ∈ s.hblist, Checked s.io (s.checkHeartBeat ic).1.io it ∧
        (s.checkHeartBeat ic).1.exhaustedSince it.a_sid =
          found s.now (s.checkHeartBeat ic).1.io s.exhaustedSince it.a_sid) ∧
      ∀ y, Plain ic s.io y → Plain ic (s.checkHeartBeat ic).1.io y := by
  unfold checkHeartBeat
  split_ifs with hempty
  · rw [hempty]
    exact ⟨rfl, rfl, rfl, nofun, fun _ hy => hy⟩
  · obtain ⟨heq, hchecked, hplain⟩ := checkEntries_spec s.now s.wdt h
    cases hcheck : checkEntries ic s.now s.wdt s.hblist s.io with
    | mk io' out =>
      rw [hcheck] at heq hchecked
      simp only [hcheck] at hplain
      obtain rfl : out = (s.hblist, true) := heq
      exact ⟨by simp, rfl, rfl, fun it hit => ⟨hchecked it hit, rfl⟩, fun y hy => (hplain y hy).1⟩

theorem countdown_nonpos_iff {v : Int} : countdown v ≤ 0 ↔ ¬1 < v := by
  unfold countdown
  split_ifs <;> omega

/-- A check finds the counter of the entry exhausted for too long, or it has been renewed in time. -/
theorem stuck_iff (h : Separate ic s.io s.hblist) {it : HeartBeatInfo} (hit : it ∈ s.hblist) :
    ¬(s.checkHeartBeat ic).1.Stuck it ↔ (0 < it.reboot_msec → 1 < (s.io it.a_sid).value ∨
      ∀ t, s.exhaustedSince it.a_sid = some t → s.now < t + it.reboot_msec * 1000000) := by
  obtain ⟨-, -, hnow, hchecked, -⟩ := checkHeartBeat_spec h
  obtain ⟨⟨hcounter, -⟩, hsince⟩ := hchecked it hit
  unfold Stuck
  rw [hnow, hsince, found, hcounter, not_and]
  refine forall_congr' fun hpos => ?_
  by_cases hrenewed : 1 < (s.io it.a_sid).value
  · rw [if_neg (by rw [countdown_nonpos_iff]; exact not_not_intro hrenewed)]
    exact ⟨fun _ => .inl hrenewed, fun _ ⟨t, ht, _⟩ => by cases ht⟩
  · rw [if_pos (countdown_nonpos_iff.mpr hrenewed)]
    cases hsome : s.exhaustedSince it.a_sid with
    | none =>
      refine ⟨fun _ => .inr nofun, fun _ ⟨t, ht, hle⟩ => ?_⟩
      obtain rfl : s.now = t := Option.some.inj ht
      omega
    | some t =>
      refine ⟨fun hnot => .inr fun u hu => ?_, fun hor ⟨u, hu, hle⟩ => ?_⟩
      · obtain rfl := Option.some.inj hu
        exact Nat.lt_of_not_le fun hle => hnot ⟨t, rfl, hle⟩
      · obtain rfl : t = u := Option.some.inj hu
        exact absurd hle (Nat.not_le_of_lt ((hor.resolve_left hrenewed) t rfl))

theorem watched_iff (h : Separate ic s.io s.hblist) (step : MemoryStep) :
    Watched ic s step ↔ InTime s step := by
  have hcheck : Watched ic s .checkHeartBeat ↔ InTime s .checkHeartBeat := by
    obtain ⟨hping, -, -, hchecked, -⟩ := checkHeartBeat_spec h
    constructor
    · intro hwatched hwdt hready it hit
      have hall := (hwatched.ping rfl hwdt hready).mp (by rw [hping, hwdt, hready]; rfl)
      exact (stuck_iff h hit).mp (hall it hit)
    · intro hintime
      refine ⟨fun _ hwdt hready => ⟨fun _ it hit => (stuck_iff h hit).mpr (hintime hwdt hready it hit),
        fun _ => by rw [hping, hwdt, hready]; rfl⟩, fun _ it hit hd => ?_⟩
      obtain ⟨⟨hcounter, halive⟩, -⟩ := hchecked it hit
      rw [halive hd, hcounter]
      split_ifs with hle <;> simp [hle]
  cases step with
  | checkHeartBeat => exact hcheck
  | tick ns => exact ⟨fun _ => trivial, fun _ => ⟨nofun, nofun⟩⟩
  | setValue sid value sup_id => exact ⟨fun _ => trivial, fun _ => ⟨nofun, nofun⟩⟩
  | setWorkready b => exact ⟨fun _ => trivial, fun _ => ⟨nofun, nofun⟩⟩

theorem separate_step (h : Separate ic s.io s.hblist) (step : MemoryStep) :
    Separate ic (s.step ic step).io (s.step ic step).hblist := by
  cases step with
  | checkHeartBeat =>
    obtain ⟨-, hblist, -, -, hplain⟩ := checkHeartBeat_spec h
    change Separate ic (s.checkHeartBeat ic).1.io (s.checkHeartBeat ic).1.hblist
    rw [hblist]
    exact h.of_same hplain
  | setValue sid value sup_id =>
    exact h.of_same fun y hy => (setValue_plain sid value sup_id hy).1
  | tick ns => exact h
  | setWorkready b => exact h

/-- At the start nothing is ready and no check has been. -/
def init (now : Nat) (io : IOStateList) (hblist : List HeartBeatInfo) (wdt : Bool) : Memory :=
  ⟨now, io, hblist, wdt, false, fun _ => none⟩

/-- In a run with entries whose sensors are their own every check does as it should if and only if
every counter is renewed in time. -/
theorem watched_iff_inTime {heartbeat_node : String} {getSensorID : String → ObjectId} {now : Nat}
    {items : List HeartBeatItem} {hblist : List HeartBeatInfo}
    (hread : readItems heartbeat_node getSensorID now items = .ok hblist) {io : IOStateList}
    (hentry : ∀ it ∈ hblist, Entry ic io it) (hapart : hblist.Pairwise Apart) (wdt : Bool)
    (steps : List MemoryStep) :
    Guarded (step ic) (Watched ic) (init now io hblist wdt) steps ↔
      Guarded (step ic) InTime (init now io hblist wdt) steps := by
  have h : Separate ic (init now io hblist wdt).io (init now io hblist wdt).hblist :=
    ⟨hentry, hapart, fun it hit => readItems_idle hread it hit⟩
  constructor
  · intro hrun
    exact hrun.of_invariant (I := fun s => Separate ic s.io s.hblist)
      (fun _ step hs hstep => ⟨(watched_iff hs step).mp hstep, separate_step hs step⟩) h
  · intro hrun
    exact hrun.of_invariant (I := fun s => Separate ic s.io s.hblist)
      (fun _ step hs hstep => ⟨(watched_iff hs step).mpr hstep, separate_step hs step⟩) h

/-! A process that is to renew its counter within a second. -/

def counterItems : List HeartBeatItem :=
  [⟨"Heartbeat", 5, "AI", some 1, "localhost", "Alive", 1000⟩]

theorem readItems_counter :
    readItems "localhost" (fun _ => 6) 0 counterItems = .ok [counterInfo] := by
  simp [readItems, counterItems, readItem, counterInfo, DefaultObjectId, PassiveTimer.setTiming]

theorem entry_counter : Entry counterController (readList counterConf) counterInfo :=
  ⟨plain_counter (.inl rfl), fun _ => plain_counter (.inr rfl), by decide⟩

theorem separate_counter : Separate counterController (readList counterConf) [counterInfo] :=
  ⟨List.forall_mem_singleton.mpr entry_counter, List.pairwise_singleton _ _,
    List.forall_mem_singleton.mpr rfl⟩

/-- The state after the first check. -/
def counterChecked : Memory :=
  ((init 0 (readList counterConf) [counterInfo] true).step counterController
    (.setWorkready true)).step counterController .checkHeartBeat

theorem counterChecked_spec : Separate counterController counterChecked.io counterChecked.hblist ∧
    counterChecked.hblist = [counterInfo] ∧ counterChecked.now = 0 ∧
    (counterChecked.io 5).value = -1 ∧ counterChecked.exhaustedSince 5 = some 0 ∧
    counterChecked.wdt = true ∧ counterChecked.workready = true := by
  obtain ⟨-, hblist, hnow, hchecked, -⟩ := @checkHeartBeat_spec counterController
    ((init 0 (readList counterConf) [counterInfo] true).step counterController
      (.setWorkready true)) separate_counter
  obtain ⟨⟨hcounter, -⟩, hsince⟩ := hchecked counterInfo (List.mem_singleton.mpr rfl)
  have hvalue : (counterChecked.io 5).value = -1 := hcounter
  refine ⟨separate_step separate_counter .checkHeartBeat, hblist, hnow, hvalue, ?_, rfl, rfl⟩
  refine hsince.trans ?_
  unfold found
  rw [if_pos]
  · rfl
  · change (counterChecked.io 5).value ≤ 0
    rw [hvalue]
    decide

/-- The checks do as they should as long as a second is not over. -/
theorem watched_renewed :
    Guarded (step counterController) (Watched counterController)
      (init 0 (readList counterConf) [counterInfo] true)
      [.setWorkready true, .checkHeartBeat, .tick 999999999, .checkHeartBeat] :=
  (watched_iff_inTime readItems_counter (List.forall_mem_singleton.mpr entry_counter)
    (List.pairwise_singleton _ _) true _).mpr (by
      obtain ⟨-, hblist, hnow, -, hsince, -⟩ := counterChecked_spec
      refine ⟨trivial, fun _ _ it _ _ => .inr nofun, trivial, fun _ _ it hit _ => .inr fun t ht => ?_,
        trivial⟩
      change it ∈ counterChecked.hblist at hit
      change counterChecked.exhaustedSince it.a_sid = some t at ht
      change counterChecked.now + 999999999 < _
      rw [hblist] at hit
      obtain rfl := List.mem_singleton.mp hit
      obtain rfl := Option.some.inj (ht.symm.trans hsince)
      rw [hnow]
      decide)

/-- The counter has not been renewed for two seconds, and the watchdog is pinged. -/
theorem not_watched_stuck :
    ¬Guarded (step counterController) (Watched counterController)
      (init 0 (readList counterConf) [counterInfo] true)
      [.setWorkready true, .checkHeartBeat, .tick 2000000000, .checkHeartBeat] := by
  rintro ⟨-, -, -, h, -⟩
  obtain ⟨hsep, hblist, hnow, hvalue, hsince, hwdt, hready⟩ := counterChecked_spec
  have hintime := (watched_iff (s := counterChecked.step counterController (.tick 2000000000)) hsep
    .checkHeartBeat).mp h hwdt hready counterInfo
    (hblist ▸ List.mem_singleton.mpr rfl) (by decide)
  rcases hintime with hrenewed | htime
  · have hrenewed : 1 < (counterChecked.io 5).value := hrenewed
    rw [hvalue] at hrenewed
    exact absurd hrenewed (by decide)
  · have hlt : counterChecked.now + 2000000000 < 0 + 1000 * 1000000 := htime 0 hsince
    rw [hnow] at hlt
    exact absurd hlt (by decide)

end Memory

end SharedMemory

end Uniset
