import Uniset.SharedMemory.HeartBeat

/-! Counters that are renewed while the check is on its way. -/

namespace Uniset.SharedMemory

open Uniset.Lib Uniset.Processes

/-- Where the check is: before the next of the entries that are left, or between two locks.  With an
entry goes whether its counter had been renewed when it was read. -/
inductive CheckPlace
  | idle
  | loop (its : List HeartBeatInfo)
  | write (it : HeartBeatInfo) (val : Int) (renewed : Bool) (its : List HeartBeatInfo)
  | alive (it : HeartBeatInfo) (val : Int) (renewed : Bool) (its : List HeartBeatInfo)

/-- The last fields are not in the code: the last renewal of a counter with the number of checks that
have begun since or were under way, and whether it has been renewed since it was read. -/
structure Renewing where
  io : IOStateList
  place : CheckPlace
  renewal : ObjectId → Option (Int × Nat)
  renewed : ObjectId → Bool

inductive RenewingStep
  | setValue (sid : ObjectId) (value : Int) (sup_id : ObjectId)
  | checkHeartBeat

namespace Renewing

variable (ic : IOController) (hblist : List HeartBeatInfo)

/-- Any process sets any sensor. -/
def setValue (s : Renewing) (sid : ObjectId) (value : Int) (sup_id : ObjectId) : Renewing :=
  match ic.setValue s.io sid value sup_id with
  | (_, .error _) => s
  | (io, .ok _) =>
    let overlapped := match s.place with
      | .idle => 0
      | _ => 1
    { s with
      io
      renewal := Function.update s.renewal sid (if 1 ≤ value then some (value, overlapped) else none)
      renewed := Function.update s.renewed sid (1 ≤ value) }

/-- The check goes on by one step under a lock. -/
def checkHeartBeat (s : Renewing) : Renewing :=
  match s.place with
  | .idle =>
    { s with
      place := .loop hblist
      renewal := fun sid => (s.renewal sid).map fun (value, checks) => (value, checks + 1) }
  | .loop [] => { s with place := .idle }
  | .loop (it :: its) =>
    match it.readCounter ic s.io with
    | .error _ => { s with place := .loop its }
    | .ok val =>
      { s with
        place := .write it val (s.renewed it.a_sid) its
        renewed := Function.update s.renewed it.a_sid false }
  | .write it val renewed its =>
    match it.writeCounter ic s.io val with
    | (_, .error _) => { s with place := .loop its }
    | (io, .ok _) => { s with io, place := .alive it val renewed its }
  | .alive it val _ its => { s with io := (it.writeAlive ic s.io val).1, place := .loop its }

def step (s : Renewing) : RenewingStep → Renewing
  | .setValue sid value sup_id => s.setValue ic sid value sup_id
  | .checkHeartBeat => s.checkHeartBeat ic hblist

def init (io : IOStateList) : Renewing := ⟨io, .idle, fun _ => none, fun _ => false⟩

/-- Renewals are not lost: checks take one each from a counter, and false does not come to be written
to the alive sensor of a process that has renewed its counter before it was read. -/
structure Kept (s : Renewing) : Prop where
  counter : ∀ it ∈ hblist, ∀ value checks, s.renewal it.a_sid = some (value, checks) →
    value - checks ≤ (s.io it.a_sid).value
  alive : ∀ it val its, s.place = .alive it val true its → 0 ≤ val

/-- Between the locks under which a counter is read and written it is not renewed, or with no more
than is written and one. -/
def Undisturbed (s : Renewing) : RenewingStep → Prop
  | .setValue sid value _ => ∀ it val renewed its, s.place = .write it val renewed its →
      it.a_sid = sid → 1 ≤ value → 1 ≤ val ∧ value ≤ val + 1
  | .checkHeartBeat => True

/-- The entries have sensors of their own. -/
structure Counters (io : IOStateList) : Prop where
  plain : ∀ it ∈ hblist, Plain ic io it.a_sid
  differ : hblist.Pairwise fun it it' => it.a_sid ≠ it'.a_sid
  apart : ∀ it ∈ hblist, ∀ it' ∈ hblist, it'.a_sid ≠ it.d_sid

/-- The entries that the check has yet to come to, and the one whose counter it has read. -/
def left : CheckPlace → List HeartBeatInfo
  | .idle => []
  | .loop its => its
  | .write _ _ _ its => its
  | .alive _ _ _ its => its

def current : CheckPlace → List HeartBeatInfo
  | .write it _ _ _ => [it]
  | .alive it _ _ _ => [it]
  | _ => []

/-- The check has yet to take one from the counters of the entries that are left. -/
structure Tracks (s : Renewing) : Prop where
  counters : Counters ic hblist s.io
  suffix : current s.place ++ left s.place <:+ hblist
  passed : ∀ it ∈ hblist, ∀ value checks, s.renewal it.a_sid = some (value, checks) →
    value - checks ≤ (s.io it.a_sid).value
  ahead : ∀ it ∈ left s.place, ∀ value checks, s.renewal it.a_sid = some (value, checks) →
    value - checks + 1 ≤ (s.io it.a_sid).value
  read : ∀ it val renewed its, s.place = .write it val renewed its →
    (∀ value checks, s.renewal it.a_sid = some (value, checks) → value - checks ≤ val) ∧
      (s.renewed it.a_sid = true → 1 ≤ val) ∧ (renewed = true → 0 ≤ val)
  renewed : ∀ it ∈ hblist, s.renewed it.a_sid = true → 1 ≤ (s.io it.a_sid).value
  alive : ∀ it val its, s.place = .alive it val true its → 0 ≤ val

variable {ic hblist} {s : Renewing}

theorem Tracks.kept (h : Tracks ic hblist s) : Kept hblist s := ⟨h.passed, h.alive⟩

theorem Counters.setValue {io : IOStateList} (h : Counters ic hblist io) (sid : ObjectId) (value : Int)
    (sup_id : ObjectId) : Counters ic hblist (ic.setValue io sid value sup_id).1 :=
  ⟨fun it hit => (setValue_plain sid value sup_id (h.plain it hit)).1, h.differ, h.apart⟩

theorem tracks_init {io : IOStateList} (h : Counters ic hblist io) : Tracks ic hblist (init io) :=
  ⟨h, List.nil_suffix, nofun, nofun, nofun, nofun, nofun⟩

/-- What is known of a counter and of its renewals, after one of the counters has been set. -/
theorem renewed_cases {sid : ObjectId} {value : Int} {checks : Nat}
    {it : HeartBeatInfo} {P : Int → Prop}
    (hset : it.a_sid = sid → 1 ≤ value → P (value - checks))
    (hkept : it.a_sid ≠ sid → ∀ v n, s.renewal it.a_sid = some (v, n) → P (v - n)) (v : Int) (n : Nat)
    (h : Function.update s.renewal sid (if 1 ≤ value then some (value, checks) else none) it.a_sid =
      some (v, n)) : P (v - n) := by
  by_cases hsid : it.a_sid = sid
  · rw [hsid, Function.update_self] at h
    split_ifs at h with hpos
    cases h
    exact hset hsid hpos
  · rw [Function.update_of_ne hsid] at h
    exact hkept hsid v n h

theorem tracks_setValue (h : Tracks ic hblist s) {sid : ObjectId} {value : Int} {sup_id : ObjectId}
    (hstep : Undisturbed s (.setValue sid value sup_id)) :
    Tracks ic hblist (s.setValue ic sid value sup_id) := by
  unfold setValue
  have hcounters := h.counters.setValue sid value sup_id
  have hplain := fun it hit => setValue_plain sid value sup_id (h.counters.plain it hit)
  cases hset : ic.setValue s.io sid value sup_id with
  | mk io res =>
    cases res with
    | error e => exact h
    | ok v =>
      rw [hset] at hcounters
      simp only [hset] at hplain
      have hvalue : ∀ it ∈ hblist, it.a_sid = sid → (io it.a_sid).value = value := fun it hit =>
        (hplain it hit).2.2.1 rfl
      have hsame : ∀ it ∈ hblist, it.a_sid ≠ sid → io it.a_sid = s.io it.a_sid := fun it hit =>
        (hplain it hit).2.1
      have hrenewed : ∀ it : HeartBeatInfo, Function.update s.renewed sid (decide (1 ≤ value)) it.a_sid =
          true → it.a_sid = sid ∧ 1 ≤ value ∨ it.a_sid ≠ sid ∧ s.renewed it.a_sid = true :=
        fun it ht => by
          by_cases hsid : it.a_sid = sid
          · rw [hsid, Function.update_self] at ht
            exact .inl ⟨hsid, of_decide_eq_true ht⟩
          · rw [Function.update_of_ne hsid] at ht
            exact .inr ⟨hsid, ht⟩
      refine ⟨hcounters, h.suffix, fun it hit => ?_, fun it hit => ?_, fun it val b its hplace => ?_,
        fun it hit ht => ?_, h.alive⟩
      · refine renewed_cases (P := fun i => i ≤ (io it.a_sid).value) (fun hsid _ => ?_) fun hne => ?_
        · rw [hvalue it hit hsid]
          omega
        · rw [hsame it hit hne]
          exact h.passed it hit
      · have hmem : it ∈ hblist := h.suffix.subset (List.mem_append_right _ hit)
        refine renewed_cases (P := fun i => i + 1 ≤ (io it.a_sid).value) (fun hsid _ => ?_)
          fun hne => ?_
        · rw [hvalue it hmem hsid]
          -- the check is under way, and will take one
          cases hplace : s.place with
          | idle => rw [hplace] at hit; cases hit
          | loop its => simp
          | write it val b its => simp
          | alive it val b its => simp
        · rw [hsame it hmem hne]
          exact h.ahead it hit
      · have hplace : s.place = .write it val b its := hplace
        obtain ⟨hread, hfresh, hb⟩ := h.read it val b its hplace
        refine ⟨?_, fun ht => ?_, hb⟩
        · rw [hplace]
          refine renewed_cases (P := fun i => i ≤ val) (fun hsid hpos => ?_) fun _ => hread
          have hle := (hstep it val b its hplace hsid hpos).2
          dsimp only
          omega
        · rcases hrenewed it ht with ⟨hsid, hpos⟩ | ⟨-, ht⟩
          · exact (hstep it val b its hplace hsid hpos).1
          · exact hfresh ht
      · dsimp only
        rcases hrenewed it ht with ⟨hsid, hpos⟩ | ⟨hne, ht⟩
        · rwa [hvalue it hit hsid]
        · rw [hsame it hit hne]
          exact h.renewed it hit ht

theorem le_countdown (v : Int) : v - 1 ≤ HeartBeatInfo.countdown v := by
  unfold HeartBeatInfo.countdown
  split_ifs <;> omega

theorem tracks_checkHeartBeat (h : Tracks ic hblist s) :
    Tracks ic hblist (s.checkHeartBeat ic hblist) := by
  unfold checkHeartBeat
  cases hplace : s.place with
  | idle =>
    have hmap : ∀ sid v n, ((s.renewal sid).map fun (value, checks) => (value, checks + 1)) =
        some (v, n) → ∃ m, s.renewal sid = some (v, m) ∧ n = m + 1 := fun sid v n hsome => by
      obtain ⟨⟨w, m⟩, hw, heq⟩ := Option.map_eq_some_iff.mp hsome
      cases heq
      exact ⟨m, hw, rfl⟩
    refine ⟨h.counters, List.suffix_refl _, fun it hit v n hv => ?_, fun it hit v n hv => ?_, nofun,
      h.renewed, nofun⟩
    · obtain ⟨m, hm, rfl⟩ := hmap _ v n hv
      have := h.passed it hit v m hm
      dsimp only
      omega
    · obtain ⟨m, hm, rfl⟩ := hmap _ v n hv
      have := h.passed it hit v m hm
      dsimp only
      omega
  | loop its =>
    have hsuffix : its <:+ hblist := by
      have := h.suffix
      rwa [hplace] at this
    cases its with
    | nil =>
      exact ⟨h.counters, List.nil_suffix, h.passed, nofun, nofun, h.renewed, nofun⟩
    | cons it its =>
      have hmem : it ∈ hblist := hsuffix.subset List.mem_cons_self
      have hahead := h.ahead
      rw [hplace] at hahead
      have hread : it.readCounter ic s.io = .ok (HeartBeatInfo.countdown (s.io it.a_sid).value) := by
        unfold HeartBeatInfo.readCounter
        rw [getValue_own (h.counters.plain it hmem)]
        rfl
      dsimp only
      rw [hread]
      dsimp only
      have hcount := le_countdown (s.io it.a_sid).value
      refine ⟨h.counters, hsuffix, h.passed, fun e he => hahead e (List.mem_cons_of_mem _ he), ?_, ?_,
        nofun⟩
      · rintro it' val b its' heq
        cases heq
        refine ⟨fun v n hv => ?_, fun ht => ?_, fun ht => ?_⟩
        · have := hahead it List.mem_cons_self v n hv
          omega
        · dsimp only at ht
          rw [Function.update_self] at ht
          cases ht
        · have := h.renewed it hmem ht
          omega
      · intro e he ht
        dsimp only at ht
        by_cases hsid : e.a_sid = it.a_sid
        · rw [hsid, Function.update_self] at ht
          cases ht
        · rw [Function.update_of_ne hsid] at ht
          exact h.renewed e he ht
  | write it val b its =>
    have hsuffix : it :: its <:+ hblist := by
      have := h.suffix
      rwa [hplace] at this
    have hmem : it ∈ hblist := hsuffix.subset List.mem_cons_self
    have hahead := h.ahead
    rw [hplace] at hahead
    obtain ⟨hread, hfresh, hb⟩ := h.read it val b its hplace
    have hok := setValue_own val (h.counters.plain it hmem)
    have hcounters := h.counters.setValue it.a_sid val ic.conf.id
    have hplain := fun e he => setValue_plain it.a_sid val ic.conf.id (h.counters.plain e he)
    dsimp only
    unfold HeartBeatInfo.writeCounter
    cases hset : ic.setValue s.io it.a_sid val ic.conf.id with
    | mk io res =>
      rw [hset] at hok hcounters
      simp only [hset] at hplain
      cases res with
      | error e => cases hok
      | ok v =>
        have hvalue : (io it.a_sid).value = val := (hplain it hmem).2.2.1 rfl rfl
        -- the entries that are left have other counters
        have hother : ∀ e ∈ its, e.a_sid ≠ it.a_sid := fun e he => by
          have hpairs := h.counters.differ.sublist hsuffix.sublist
          exact ((List.pairwise_cons.mp hpairs).1 e he).symm
        dsimp only
        refine ⟨hcounters, hsuffix, fun e he v n hv => ?_, fun e he v n hv => ?_, nofun,
          fun e he ht => ?_, fun it' val' its' heq => ?_⟩
        · dsimp only
          by_cases hsid : e.a_sid = it.a_sid
          · rw [hsid] at hv ⊢
            rw [hvalue]
            exact hread v n hv
          · rw [(hplain e he).2.1 hsid]
            exact h.passed e he v n hv
        · dsimp only
          rw [(hplain e (hsuffix.subset (List.mem_cons_of_mem _ he))).2.1 (hother e he)]
          exact hahead e he v n hv
        · dsimp only
          by_cases hsid : e.a_sid = it.a_sid
          · rw [hsid] at ht ⊢
            rw [hvalue]
            exact hfresh ht
          · rw [(hplain e he).2.1 hsid]
            exact h.renewed e he ht
        · cases heq
          exact hb rfl
  | alive it val b its =>
    have hsuffix : it :: its <:+ hblist := by
      have := h.suffix
      rwa [hplace] at this
    have hmem : it ∈ hblist := hsuffix.subset List.mem_cons_self
    have hahead := h.ahead
    rw [hplace] at hahead
    have hsame : ∀ e ∈ hblist, (it.writeAlive ic s.io val).1 e.a_sid = s.io e.a_sid := fun e he =>
      (setValue_plain it.d_sid _ ic.conf.id (h.counters.plain e he)).2.1
        (h.counters.apart it hmem e he)
    refine ⟨h.counters.setValue it.d_sid _ ic.conf.id, (List.suffix_cons _ _).trans hsuffix,
      fun e he => ?_, fun e he => ?_, nofun, fun e he => ?_, nofun⟩
    · dsimp only
      rw [hsame e he]
      exact h.passed e he
    · dsimp only
      rw [hsame e (hsuffix.subset (List.mem_cons_of_mem _ he))]
      exact hahead e he
    · dsimp only
      rw [hsame e he]
      exact h.renewed e he

/-- In every run in which the counters are not renewed between the two locks no renewal is lost. -/
theorem kept_of_undisturbed {io : IOStateList} (h : Counters ic hblist io)
    {steps : List RenewingStep} (hrun : Guarded (step ic hblist) Undisturbed (init io) steps) :
    ∀ t ∈ List.scanl (step ic hblist) (init io) steps, Kept hblist t := by
  intro t ht
  refine (hrun.forall_visited (I := Tracks ic hblist) (fun s step hs hstep => ?_) (tracks_init h) t
    ht).kept
  cases step with
  | setValue sid value sup_id => exact tracks_setValue hs hstep
  | checkHeartBeat => exact tracks_checkHeartBeat hs

theorem counters_counter : Counters counterController [counterInfo] (readList counterConf) :=
  ⟨List.forall_mem_singleton.mpr (plain_counter (.inl rfl)), List.pairwise_singleton _ _,
    List.forall_mem_singleton.mpr (List.forall_mem_singleton.mpr (by decide))⟩

/-- The counter is renewed, and a check counts it down. -/
theorem kept_renewed :
    Kept [counterInfo] (List.foldl (step counterController [counterInfo])
      (init (readList counterConf))
      [.setValue 5 3 1, .checkHeartBeat, .checkHeartBeat, .checkHeartBeat, .checkHeartBeat]) := by
  refine kept_of_undisturbed counters_counter ?_ _ (foldl_mem_scanl ..)
  exact ⟨nofun, trivial, trivial, trivial, trivial, trivial⟩

/-- The counter is renewed after it has been read, and what had been read is written. -/
theorem not_kept_between :
    ¬∀ t ∈ List.scanl (step counterController [counterInfo]) (init (readList counterConf))
      [.checkHeartBeat, .checkHeartBeat, .setValue 5 10 1, .checkHeartBeat],
      Kept [counterInfo] t := by
  intro h
  have hlast := (h _ (foldl_mem_scanl _ _ _)).counter counterInfo (List.mem_singleton.mpr rfl) 10 1
    (by decide)
  exact absurd hlast (by decide)

end Renewing

end Uniset.SharedMemory
