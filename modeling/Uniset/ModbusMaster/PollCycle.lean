import Uniset.Lib.GuardedRun
import Uniset.ModbusMaster.PollRTU

/-! One pass over the registers of a map. -/

namespace Uniset.ModbusMaster

open Uniset.Lib Uniset.Modbus ExchangeMode

/-- What a pass goes by. -/
structure PassMode where
  exchangeMode : ExchangeMode
  mode : ExchangeMode
  ask_every_reg : Bool
  pollfactor : Nat

/-- A query that has been sent for the registers from `it` on, the first of which was `p`. -/
structure Exchanged where
  it : Nat
  p : RegInfo
  query : Query
  reply : Reply

/-- The registers, the iterator, and the queries that have been sent, the last of them first. -/
structure Pass where
  regs : Nat → RegInfo
  it : Nat
  asked : List Exchanged

/-- Registers that are passed by. -/
def skips (c : PassMode) (p : RegInfo) : Bool :=
  c.exchangeMode = emSkipExchange ∨ (c.pollfactor = changeOnlyWrite ∧ !p.mbval_changed)

/-- Only a query that has timed out ends the pass. -/
def breaks (c : PassMode) : Except mbErrCode Bool → Bool
  | .error err => err = erTimeOut ∧ !c.ask_every_reg
  | .ok _ => false

/-- One round of the loop; `replies` has the answers to the queries in their order. -/
def pollRegister (c : PassMode) (size : Nat) (replies : Nat → Reply) (s : Pass) : Option Pass :=
  if skips c (s.regs s.it) then some { s with it := s.it + 1 }
  else
    let reply := replies s.asked.length
    let asked := match ask c.exchangeMode c.mode s.regs s.it with
      | .inl _ => s.asked
      | .inr query => ⟨s.it, s.regs s.it, query, reply⟩ :: s.asked
    (pollRTU c.exchangeMode c.mode size s.regs s.it reply).map fun polled =>
      ⟨polled.regs, if breaks c polled.result then size else polled.it + 1, asked⟩

/-- The loop, for so many rounds at most. -/
def pollMap (c : PassMode) (size : Nat) (replies : Nat → Reply) : Nat → Pass → Option Pass
  | 0, s => if size ≤ s.it then some s else none
  | n + 1, s =>
    if size ≤ s.it then some s
    else (pollRegister c size replies s).bind (pollMap c size replies n)

/-- The bytes of a reply; an error has none. -/
def bytesOf : Reply → List ModbusByte
  | .error _ => []
  | .ok bs => bs

namespace Exchanged

/-- A register is one of those the query is for. -/
def Covers (e : Exchanged) (k : Nat) : Prop := e.it ≤ k ∧ k < e.it + e.p.q_count

def Answered (e : Exchanged) : Prop :=
  isRead e.p.mbfunc = true ∧ ∃ vs, values e.p e.reply = .ok vs

/-- The value in the reply for a register, by its place in the query. -/
def carries (e : Exchanged) (i : Nat) : Option ModbusData :=
  (carried e.p.mbfunc (bytesOf e.reply))[i]?

end Exchanged

/-- What a pass over `regs` is to have done. -/
structure Polls (regs : Nat → RegInfo) (t : Pass) : Prop where
  once : t.asked.Pairwise fun a b => ∀ k, a.Covers k → ¬b.Covers k
  read : ∀ e ∈ t.asked, e.Answered → ∀ k, e.Covers k →
    (regs k).mbreg.toNat = e.p.mbreg.toNat + (k - e.it) ∧
      e.carries (k - e.it) = some (t.regs k).mbval ∧ (t.regs k).mb_initOK = true
  kept : ∀ k, (∀ e ∈ t.asked, e.Answered → ¬e.Covers k) →
    (t.regs k).mbval = (regs k).mbval ∧ (t.regs k).mb_initOK = (regs k).mb_initOK

/-- A query would be sent for the register at `k`. -/
def asks (c : PassMode) (regs : Nat → RegInfo) (k : Nat) : Bool :=
  !skips c (regs k) && (ask c.exchangeMode c.mode regs k).isRight

/-- A query is for registers of the map, an answered one for registers that follow each other, with
a value for each; and after one that fails no register is asked for once more. -/
def Handled (c : PassMode) (size : Nat) (replies : Nat → Reply) (s : Pass) : Prop :=
  let p := s.regs s.it
  let reply := replies s.asked.length
  asks c s.regs s.it = true →
    if isRead p.mbfunc then
      match values p reply with
      | .ok _ => s.it + p.q_count ≤ size ∧
          p.q_count ≤ (carried p.mbfunc (bytesOf reply)).length ∧
          ∀ i < p.q_count, (s.regs (s.it + i)).mbreg.toNat = p.mbreg.toNat + i
      | .error err => breaks c (.error err) = true ∨
          ∀ k, s.it < k → k < s.it + p.q_count → k < size → asks c s.regs k = false
    else s.it + p.q_count ≤ size

/-- The states the loop goes through. -/
def Passes (c : PassMode) (size : Nat) (replies : Nat → Reply) : Pass → Pass → Prop :=
  Reaches (fun s (_ : Unit) => pollRegister c size replies s) fun s _ => s.it < size

variable {c : PassMode} {size : Nat} {replies : Nat → Reply} {regs : Nat → RegInfo} {s t : Pass}

/-! ## One round -/

theorem asks_congr {regs regs' : Nat → RegInfo} {k : Nat} (h : regs k = regs' k) :
    asks c regs k = asks c regs' k := by
  unfold asks ask
  rw [h]
  dsimp only
  split_ifs <;> rfl

theorem asks_eq_false_iff {k : Nat} : asks c regs k = false ↔
    skips c (regs k) = true ∨ ∃ b, ask c.exchangeMode c.mode regs k = .inl b := by
  unfold asks
  cases skips c (regs k) <;> cases ask c.exchangeMode c.mode regs k <;> simp

theorem asks_eq_true_iff {k : Nat} : asks c regs k = true ↔
    skips c (regs k) = false ∧ ∃ q, ask c.exchangeMode c.mode regs k = .inr q := by
  unfold asks
  cases skips c (regs k) <;> cases ask c.exchangeMode c.mode regs k <;> simp

theorem q_count_pos_of_asks {k : Nat} (h : asks c regs k = true) : 0 < (regs k).q_count := by
  obtain ⟨-, q, hq⟩ := asks_eq_true_iff.mp h
  unfold ask at hq
  dsimp only at hq
  split_ifs at hq <;> omega

theorem pollRegister_silent (h : asks c s.regs s.it = false) :
    pollRegister c size replies s = some { s with it := s.it + 1 } := by
  unfold pollRegister
  split_ifs with hskip
  · rfl
  · obtain ⟨b, hb⟩ := (asks_eq_false_iff.mp h).resolve_left hskip
    simp [pollRTU, hb, breaks]

/-- The query for the registers at the iterator. -/
def Pass.sent (s : Pass) (query : Query) (replies : Nat → Reply) : Exchanged :=
  ⟨s.it, s.regs s.it, query, replies s.asked.length⟩

theorem pollRegister_asks (h : asks c s.regs s.it = true) : ∃ query,
    pollRegister c size replies s =
      (exchange size s.regs s.it (replies s.asked.length)).map fun polled =>
        ⟨polled.regs, if breaks c polled.result then size else polled.it + 1,
          s.sent query replies :: s.asked⟩ := by
  obtain ⟨hskip, query, hquery⟩ := asks_eq_true_iff.mp h
  refine ⟨query, ?_⟩
  rw [pollRegister, if_neg (by simp [hskip])]
  simp only [pollRTU, hquery]
  rfl

theorem values_spec {p : RegInfo} {reply : Reply} {vs : List ModbusData}
    (h : values p reply = .ok vs) : vs.length ≤ p.q_count ∧
      (p.q_count ≤ (carried p.mbfunc (bytesOf reply)).length → vs.length = p.q_count ∧
        ∀ i < p.q_count, (carried p.mbfunc (bytesOf reply))[i]? = some (vs.getD i 0)) := by
  cases reply with
  | error err => cases h
  | ok bs =>
    simp only [values] at h
    split_ifs at h
    · obtain rfl := Except.ok.inj h
      refine ⟨List.length_take_le _ _, fun hlen => ⟨List.length_take_of_le hlen, fun i hi => ?_⟩⟩
      have hi' : i < (carried p.mbfunc bs).length := Nat.lt_of_lt_of_le hi hlen
      simp [bytesOf, List.getD_eq_getElem?_getD, hi, hi']
    · obtain rfl := Except.ok.inj h
      refine ⟨by simp, fun hlen => ⟨by simp, fun i hi => ?_⟩⟩
      have hi' : i < (carried p.mbfunc bs).length := Nat.lt_of_lt_of_le hi hlen
      simp [bytesOf, List.getD_eq_getElem?_getD, hi, hi']

variable {it : Nat} {reply : Reply} {polled : Polled}

theorem exchange_read {vs : List ModbusData} (hread : isRead (regs it).mbfunc = true)
    (h : values (regs it) reply = .ok vs) :
    exchange size regs it reply = if it + vs.length ≤ size ∧ 0 < it + vs.length then
      some ⟨store regs it vs, it + vs.length - 1, .ok true⟩ else none := by
  rw [exchange, if_pos hread, h]

theorem exchange_failed {err : mbErrCode} (hread : isRead (regs it).mbfunc = true)
    (h : values (regs it) reply = .error err) :
    exchange size regs it reply = some ⟨regs, it, .error err⟩ := by
  rw [exchange, if_pos hread, h]

/-- A query that writes leaves what is known of the device as it is. -/
theorem exchange_write (hwrite : ¬isRead (regs it).mbfunc = true) (hpos : 0 < (regs it).q_count) :
    (¬it + (regs it).q_count ≤ size → exchange size regs it reply = none) ∧
    (it + (regs it).q_count ≤ size → ∃ polled, exchange size regs it reply = some polled ∧
      polled.it = it + (regs it).q_count - 1 ∧
      (∀ k, polled.regs k = { regs k with mbval_changed := (polled.regs k).mbval_changed }) ∧
      ∀ k, ¬(it ≤ k ∧ k < it + (regs it).q_count) → polled.regs k = regs k) := by
  rw [exchange, if_neg hwrite]
  refine ⟨fun h => if_neg h, fun h => ?_⟩
  dsimp only
  rw [if_pos h]
  cases reply with
  | error err =>
    refine ⟨_, rfl, rfl, fun k => ?_, fun k hk => ?_⟩
    · dsimp only [clearRest]
      split_ifs <;> rfl
    · exact if_neg fun hin => hk ⟨hin.2.1.le, hin.2.2⟩
  | ok bs =>
    have hrest : ∀ k, ¬(it ≤ k ∧ k < it + (regs it).q_count) → clearRest regs it k = regs k :=
      fun k hk => if_neg fun hin => hk ⟨hin.2.1.le, hin.2.2⟩
    refine ⟨_, rfl, rfl, fun k => ?_, fun k hk => ?_⟩
    · dsimp only [clearFirst, clearRest]
      split_ifs <;> rfl
    · rw [← hrest k hk]
      refine if_neg fun hin => hk ?_
      omega

theorem pollRegister_failed {err : mbErrCode} (hasks : asks c s.regs s.it = true)
    (hread : isRead (s.regs s.it).mbfunc = true)
    (h : values (s.regs s.it) (replies s.asked.length) = .error err) : ∃ query,
    pollRegister c size replies s = some ⟨s.regs,
      if breaks c (.error err) then size else s.it + 1, s.sent query replies :: s.asked⟩ := by
  obtain ⟨query, hstep⟩ := pollRegister_asks hasks
  exact ⟨query, by rw [hstep, exchange_failed hread h]; rfl⟩

theorem pollRegister_read {vs : List ModbusData} (hasks : asks c s.regs s.it = true)
    (hread : isRead (s.regs s.it).mbfunc = true)
    (h : values (s.regs s.it) (replies s.asked.length) = .ok vs) : ∃ query,
    pollRegister c size replies s = if s.it + vs.length ≤ size ∧ 0 < s.it + vs.length then
      some ⟨store s.regs s.it vs, s.it + vs.length, s.sent query replies :: s.asked⟩ else none := by
  obtain ⟨query, hstep⟩ := pollRegister_asks hasks
  refine ⟨query, ?_⟩
  rw [hstep, exchange_read hread h]
  split_ifs with hfits
  · simp [breaks, Nat.sub_add_cancel hfits.2]
  · rfl

theorem pollRegister_write (hasks : asks c s.regs s.it = true)
    (hwrite : ¬isRead (s.regs s.it).mbfunc = true) :
    (¬s.it + (s.regs s.it).q_count ≤ size → pollRegister c size replies s = none) ∧
    (s.it + (s.regs s.it).q_count ≤ size → ∃ t query, pollRegister c size replies s = some t ∧
      s.it + (s.regs s.it).q_count ≤ t.it ∧ t.asked = s.sent query replies :: s.asked ∧
      (∀ k, t.regs k = { s.regs k with mbval_changed := (t.regs k).mbval_changed }) ∧
      ∀ k, ¬(s.it ≤ k ∧ k < s.it + (s.regs s.it).q_count) → t.regs k = s.regs k) := by
  obtain ⟨query, hstep⟩ := pollRegister_asks hasks
  have hpos := q_count_pos_of_asks hasks
  obtain ⟨hnone, hsome⟩ := exchange_write
    hwrite hpos
  refine ⟨fun h => by rw [hstep, hnone h]; rfl, fun h => ?_⟩
  obtain ⟨polled, hpolled, hit, hsame, houtside⟩ := hsome h
  refine ⟨_, query, by rw [hstep, hpolled]; rfl, ?_, rfl, hsame, houtside⟩
  dsimp only
  split_ifs <;> omega

/-! ## The states of a pass -/

/-- What holds while queries are handled as they are to be. -/
structure PassInv (c : PassMode) (size : Nat) (regs : Nat → RegInfo) (s : Pass) : Prop where
  later : ∀ k, s.it ≤ k → s.regs k = regs k
  before : ∀ e ∈ s.asked, e.it < s.it
  silent : ∀ e ∈ s.asked, ∀ k, e.Covers k → k < s.it ∨ size ≤ k ∨ asks c regs k = false
  polls : Polls regs s

/-- A query goes to the ones that have been sent. -/
theorem PassInv.ask {e : Exchanged} (hs : PassInv c size regs s) (hit : s.it < size)
    (he : e.it = s.it) (hasks : asks c regs s.it = true)
    (hnext : s.it < t.it) (hasked : t.asked = e :: s.asked)
    (hlater : ∀ k, t.it ≤ k → t.regs k = s.regs k)
    (hsilent : ∀ k, e.Covers k → k < t.it ∨ size ≤ k ∨ asks c regs k = false)
    (houtside : ∀ k, ¬e.Covers k → t.regs k = s.regs k)
    (hfailed : ¬e.Answered → ∀ k,
      (t.regs k).mbval = (s.regs k).mbval ∧ (t.regs k).mb_initOK = (s.regs k).mb_initOK)
    (hread : e.Answered → ∀ k, e.Covers k →
      (regs k).mbreg.toNat = e.p.mbreg.toNat + (k - e.it) ∧
        e.carries (k - e.it) = some (t.regs k).mbval ∧ (t.regs k).mb_initOK = true) :
    PassInv c size regs t := by
  -- a query sent before that is for a register here is for the one at the iterator
  have honce : ∀ b ∈ s.asked, ∀ k, e.Covers k → ¬b.Covers k := fun b hb k hk hbk => by
    have hbefore := hs.before b hb
    have hcovers : b.Covers s.it := ⟨hbefore.le, Nat.lt_of_le_of_lt (he ▸ hk.1) hbk.2⟩
    rcases hs.silent b hb s.it hcovers with h | h | h
    · exact lt_irrefl _ h
    · exact Nat.not_lt_of_le h hit
    · rw [hasks] at h
      cases h
  refine ⟨fun k hk => ?_, ?_, ?_, ⟨?_, ?_, fun k hk => ?_⟩⟩
  · rw [hlater k hk, hs.later k (hnext.le.trans hk)]
  · rw [hasked, List.forall_mem_cons]
    exact ⟨he ▸ hnext, fun b hb => (hs.before b hb).trans hnext⟩
  · rw [hasked, List.forall_mem_cons]
    exact ⟨hsilent, fun b hb k hk => (hs.silent b hb k hk).imp_left (·.trans hnext)⟩
  · rw [hasked, List.pairwise_cons]
    exact ⟨honce, hs.polls.once⟩
  · rw [hasked, List.forall_mem_cons]
    refine ⟨hread, fun b hb hanswered k hk => ?_⟩
    rw [houtside k fun hek => honce b hb k hek hk]
    exact hs.polls.read b hb hanswered k hk
  · rw [hasked, List.forall_mem_cons] at hk
    obtain ⟨hval, hinit⟩ := hs.polls.kept k hk.2
    by_cases hanswered : e.Answered
    · rw [houtside k (hk.1 hanswered)]
      exact ⟨hval, hinit⟩
    · obtain ⟨hval', hinit'⟩ := hfailed hanswered k
      exact ⟨hval'.trans hval, hinit'.trans hinit⟩

theorem PassInv.step (hs : PassInv c size regs s) (hit : s.it < size)
    (hhandled : Handled c size replies s) :
    ∃ t, pollRegister c size replies s = some t ∧ PassInv c size regs t ∧ s.it < t.it := by
  have hhere : s.regs s.it = regs s.it := hs.later _ le_rfl
  cases hasks : asks c s.regs s.it with
  | false =>
    refine ⟨_, pollRegister_silent hasks, ⟨fun k hk => ?_, fun e he => ?_, fun e he k hk => ?_, ?_⟩,
      Nat.lt_succ_self _⟩
    · exact hs.later k (Nat.le_of_succ_le hk)
    · exact (hs.before e he).trans (Nat.lt_succ_self _)
    · exact (hs.silent e he k hk).imp_left (·.trans (Nat.lt_succ_self _))
    · exact ⟨hs.polls.once, hs.polls.read, hs.polls.kept⟩
  | true =>
    have hpos := q_count_pos_of_asks hasks
    have hasks' : asks c regs s.it = true := asks_congr hhere ▸ hasks
    have hgood := hhandled hasks
    by_cases hread : isRead (s.regs s.it).mbfunc = true
    · simp only [hread, if_true] at hgood
      cases hvalues : values (s.regs s.it) (replies s.asked.length) with
      | error err =>
        rw [hvalues] at hgood
        obtain ⟨query, hstep⟩ := pollRegister_failed hasks hread hvalues
        have hnot : ¬(s.sent query replies).Answered := fun h => by
          obtain ⟨-, vs, hvs⟩ := h
          cases hvalues.symm.trans hvs
        have hnext : s.it < if breaks c (.error err) then size else s.it + 1 := by
          split_ifs <;> omega
        refine ⟨_, hstep, hs.ask hit rfl hasks' hnext rfl (fun _ _ => rfl) (fun k hk => ?_)
          (fun _ _ => rfl) (fun _ _ => ⟨rfl, rfl⟩) (fun h => absurd h hnot), hnext⟩
        rcases hgood with hbreak | hquiet
        · dsimp only
          rw [if_pos hbreak]
          exact (Nat.lt_or_ge k size).imp_right .inl
        · rcases Nat.lt_or_ge k size with hk' | hk'
          · rcases hk.1.lt_or_eq with hlt | heq
            · have hquiet' := hquiet k hlt hk.2 hk'
              rw [asks_congr (hs.later k hk.1)] at hquiet'
              exact .inr (.inr hquiet')
            · exact .inl (heq ▸ hnext)
          · exact .inr (.inl hk')
      | ok vs =>
        rw [hvalues] at hgood
        obtain ⟨hfits, hcarried, hnumbers⟩ := hgood
        obtain ⟨hlength, hgets⟩ := (values_spec hvalues).2 hcarried
        obtain ⟨query, hstep⟩ := @pollRegister_read c size replies s vs hasks hread hvalues
        rw [if_pos (by omega), hlength] at hstep
        refine ⟨_, hstep, hs.ask hit rfl hasks' (Nat.lt_add_of_pos_right hpos) rfl (fun k hk => ?_)
          (fun k hk => .inl hk.2) (fun k hk => ?_) (fun h => absurd ⟨hread, vs, hvalues⟩ h)
          (fun _ k hk => ?_), Nat.lt_add_of_pos_right hpos⟩
        · exact if_neg fun hin => Nat.not_lt_of_le hk (hlength ▸ hin.2)
        · exact if_neg fun hin => hk ⟨hin.1, hlength ▸ hin.2⟩
        · obtain ⟨hle, hlt⟩ : s.it ≤ k ∧ k < s.it + (s.regs s.it).q_count := hk
          have hplace : k - s.it < (s.regs s.it).q_count := by omega
          have hnumber := hnumbers (k - s.it) hplace
          rw [Nat.add_sub_cancel' hle, hs.later k hle] at hnumber
          have hstore : store s.regs s.it vs k =
              { s.regs k with mbval := vs.getD (k - s.it) 0, mb_initOK := true } :=
            if_pos ⟨hle, hlength ▸ hlt⟩
          dsimp only
          rw [hstore]
          exact ⟨hnumber, hgets _ hplace, rfl⟩
    · simp only [hread, Bool.false_eq_true, if_false] at hgood
      obtain ⟨t, query, hstep, hnext, hasked, hsame, houtside⟩ :=
        (pollRegister_write hasks hread).2 hgood
      refine ⟨t, hstep, hs.ask hit rfl hasks' (by omega) hasked (fun k hk => houtside k (by omega))
        (fun k hk => .inl (Nat.lt_of_lt_of_le hk.2 hnext)) houtside (fun _ k => ?_)
        (fun h => absurd h.1 hread), by omega⟩
      rw [hsame k]
      exact ⟨rfl, rfl⟩

/-- The rounds of a pass that is handled well bring it to its end. -/
theorem PassInv.pollMap (hs : PassInv c size regs s)
    (h : ∀ t, Passes c size replies s t → t.it < size → Handled c size replies t) (n : Nat)
    (hn : size ≤ s.it + n) : ∃ t, pollMap c size replies n s = some t ∧ Polls regs t := by
  induction n generalizing s with
  | zero => exact ⟨s, by rw [ModbusMaster.pollMap, if_pos (by omega)], hs.polls⟩
  | succ n ih =>
    rw [ModbusMaster.pollMap]
    split_ifs with hend
    · exact ⟨s, rfl, hs.polls⟩
    · have hit : s.it < size := Nat.lt_of_not_le hend
      obtain ⟨t, hstep, ht, hnext⟩ := hs.step hit (h s (.refl s) hit)
      rw [hstep]
      exact ih ht (fun u hu => h u (.head (i := ()) hit hstep hu)) (by omega)

theorem pollMap_passes {fuel : Nat} {u : Pass} (hpass : Passes c size replies s t)
    (h : pollMap c size replies fuel s = some u) : ∃ fuel, pollMap c size replies fuel t = some u := by
  induction hpass with
  | refl => exact ⟨fuel, h⟩
  | tail _ hlast ih =>
    obtain ⟨n, hn⟩ := ih
    obtain ⟨_, hit, hstep⟩ := hlast
    cases n with
    | zero =>
      rw [pollMap, if_neg (Nat.not_le_of_lt hit)] at hn
      cases hn
    | succ n =>
      rw [pollMap, if_neg (Nat.not_le_of_lt hit)] at hn
      dsimp only at hstep
      rw [hstep] at hn
      exact ⟨n, hn⟩

theorem asked_suffix {fuel : Nat} (h : pollMap c size replies fuel s = some t) :
    s.asked <:+ t.asked := by
  induction fuel generalizing s with
  | zero =>
    rw [pollMap] at h
    split_ifs at h
    obtain rfl := Option.some.inj h
    exact List.suffix_refl _
  | succ n ih =>
    rw [pollMap] at h
    split_ifs at h with hend
    · obtain rfl := Option.some.inj h
      exact List.suffix_refl _
    · obtain ⟨u, hstep, hrest⟩ := Option.bind_eq_some_iff.mp h
      have hgrows : s.asked <:+ u.asked := by
        unfold pollRegister at hstep
        split_ifs at hstep
        · obtain rfl := Option.some.inj hstep
          exact List.suffix_refl _
        · obtain ⟨polled, -, rfl⟩ := Option.map_eq_some_iff.mp hstep
          cases ask c.exchangeMode c.mode s.regs s.it with
          | inl b => exact List.suffix_refl _
          | inr query => exact List.suffix_cons _ _
      exact hgrows.trans (ih hrest)

/-- The registers from the iterator on are as they were. -/
theorem later_passes (hs : ∀ k, s.it ≤ k → s.regs k = regs k) (hpass : Passes c size replies s t) :
    ∀ k, t.it ≤ k → t.regs k = regs k := by
  refine hpass.invariant (I := fun s => ∀ k, s.it ≤ k → s.regs k = regs k)
    (fun {s _ t} hs hit hstep k hk => ?_) hs
  cases hasks : asks c s.regs s.it with
  | false =>
    obtain rfl := Option.some.inj ((pollRegister_silent hasks).symm.trans hstep)
    exact hs k (Nat.le_of_succ_le hk)
  | true =>
    have hpos := q_count_pos_of_asks hasks
    by_cases hread : isRead (s.regs s.it).mbfunc = true
    · cases hvalues : values (s.regs s.it) (replies s.asked.length) with
      | error err =>
        obtain ⟨query, hstep'⟩ := pollRegister_failed hasks hread hvalues
        obtain rfl := Option.some.inj (hstep'.symm.trans hstep)
        refine hs k (le_trans ?_ hk)
        dsimp only
        split_ifs <;> omega
      | ok vs =>
        obtain ⟨query, hstep'⟩ := pollRegister_read hasks hread hvalues
        rw [hstep'] at hstep
        split_ifs at hstep
        obtain rfl := Option.some.inj hstep
        have hstore : store s.regs s.it vs k = s.regs k :=
          if_neg fun hin => Nat.not_lt_of_le hk hin.2
        dsimp only
        rw [hstore]
        exact hs k (Nat.le_of_add_right_le hk)
    · obtain ⟨hnone, hsome⟩ := pollRegister_write hasks hread
      by_cases hfits : s.it + (s.regs s.it).q_count ≤ size
      · obtain ⟨t', query, hstep', hnext, -, -, houtside⟩ := hsome hfits
        obtain rfl := Option.some.inj (hstep'.symm.trans hstep)
        rw [houtside k (by omega)]
        exact hs k (by omega)
      · cases (hnone hfits).symm.trans hstep

/-- Over registers that are not asked for a pass goes on. -/
theorem passes_silent (j : Nat) (hquiet : ∀ k, s.it ≤ k → k < s.it + j → asks c s.regs k = false)
    (hsize : s.it + j ≤ size) : Passes c size replies s { s with it := s.it + j } := by
  induction j with
  | zero => exact .refl _
  | succ j ih =>
    refine (ih (fun k hk hlt => hquiet k hk (by omega)) (by omega)).tail (i := ()) (by
      dsimp only
      omega) ?_
    rw [pollRegister_silent]
    · rfl
    · exact hquiet (s.it + j) (by omega) (by omega)

theorem next_of_passes {fuel : Nat} {u : Pass} (h : pollMap c size replies fuel s = some u)
    (hpass : Passes c size replies s t) (hit : t.it < size) :
    ∃ v, pollRegister c size replies t = some v ∧ v.asked <:+ u.asked := by
  obtain ⟨n, hn⟩ := pollMap_passes hpass h
  cases n with
  | zero =>
    rw [pollMap, if_neg (Nat.not_le_of_lt hit)] at hn
    cases hn
  | succ n =>
    rw [pollMap, if_neg (Nat.not_le_of_lt hit)] at hn
    obtain ⟨v, hstep, hrest⟩ := Option.bind_eq_some_iff.mp hn
    exact ⟨v, hstep, asked_suffix hrest⟩

theorem asked_of_asks (hasks : asks c s.regs s.it = true)
    (h : pollRegister c size replies s = some t) :
    ∃ query, t.asked = s.sent query replies :: s.asked := by
  obtain ⟨query, hstep⟩ := pollRegister_asks hasks
  rw [hstep] at h
  obtain ⟨polled, -, rfl⟩ := Option.map_eq_some_iff.mp h
  exact ⟨query, rfl⟩

/-- Each round of a pass that has done what it is to do was handled well. -/
theorem handled_of_polls {fuel : Nat} {u : Pass}
    (h : pollMap c size replies fuel ⟨regs, 0, []⟩ = some u) (hu : Polls regs u)
    (hpass : Passes c size replies ⟨regs, 0, []⟩ s) (hit : s.it < size) :
    Handled c size replies s := by
  intro hasks
  have hlater := later_passes (fun _ _ => rfl) hpass
  obtain ⟨t, hstep, hasked⟩ := next_of_passes h hpass hit
  by_cases hread : isRead (s.regs s.it).mbfunc = true
  · rw [if_pos hread]
    cases hvalues : values (s.regs s.it) (replies s.asked.length) with
    | ok vs =>
      obtain ⟨query, hstep'⟩ := pollRegister_read hasks hread hvalues
      rw [hstep'] at hstep
      split_ifs at hstep with hfits
      obtain rfl := Option.some.inj hstep
      have hreads := hu.read (s.sent query replies) (hasked.subset List.mem_cons_self)
        ⟨hread, vs, hvalues⟩
      have hpos := q_count_pos_of_asks hasks
      have hcarried : (s.regs s.it).q_count ≤
          (carried (s.regs s.it).mbfunc (bytesOf (replies s.asked.length))).length := by
        have hlast := (hreads (s.it + ((s.regs s.it).q_count - 1))
          ⟨Nat.le_add_right _ _, Nat.add_lt_add_left (Nat.sub_lt hpos one_pos) _⟩).2.1
        obtain ⟨hlt, -⟩ := List.getElem?_eq_some_iff.mp hlast
        simp only [Pass.sent] at hlt
        omega
      obtain ⟨hlength, -⟩ := (values_spec hvalues).2 hcarried
      refine ⟨hlength ▸ hfits.1, hcarried, fun i hi => ?_⟩
      have hnumber := (hreads (s.it + i) ⟨Nat.le_add_right _ _, Nat.add_lt_add_left hi _⟩).1
      rw [hlater _ (Nat.le_add_right _ _)]
      simpa [Pass.sent] using hnumber
    | error err =>
      by_contra hbad
      obtain ⟨hbreak, hagain⟩ := not_or.mp hbad
      push Not at hagain
      -- the first register that is asked for once more
      have hfirst := Nat.find_spec hagain
      have hbefore := fun k => Nat.find_min hagain (m := k)
      generalize Nat.find hagain = k at hfirst hbefore
      obtain ⟨hk, hkq, hksize, hkasks⟩ := hfirst
      rw [Bool.ne_false_iff] at hkasks
      obtain ⟨query, hstep'⟩ := pollRegister_failed hasks hread hvalues
      rw [if_neg hbreak] at hstep'
      obtain rfl := Option.some.inj (hstep'.symm.trans hstep)
      have hagain' := (hpass.tail (i := ()) hit hstep).trans (passes_silent (k - (s.it + 1))
        (fun j hj hjk => by
          by_contra hasked
          dsimp only at hjk
          exact hbefore j (by omega) ⟨hj, by omega, by omega, hasked⟩)
        (by dsimp only; omega))
      have hplace : s.it + 1 + (k - (s.it + 1)) = k := by omega
      obtain ⟨v, hstep₂, hasked₂⟩ := next_of_passes h hagain' (by dsimp only; omega)
      dsimp only at hstep₂
      rw [hplace] at hstep₂
      obtain ⟨query₂, hv⟩ := asked_of_asks (s := ⟨s.regs, k, _⟩) hkasks hstep₂
      rw [hv] at hasked₂
      have honce := (hu.once.sublist hasked₂.sublist)
      rw [List.pairwise_cons] at honce
      exact honce.1 _ List.mem_cons_self k ⟨le_rfl, Nat.lt_add_of_pos_right
        (q_count_pos_of_asks hkasks)⟩ ⟨hk.le, hkq⟩
  · rw [if_neg hread]
    by_contra hfits
    rw [(pollRegister_write hasks hread).1 hfits] at hstep
    cases hstep

/-- One pass over a map. -/
theorem pollMap_polls_iff (c : PassMode) (size : Nat) (replies : Nat → Reply)
    (regs : Nat → RegInfo) :
    (∃ fuel t, pollMap c size replies fuel ⟨regs, 0, []⟩ = some t ∧ Polls regs t) ↔
      ∀ s, Passes c size replies ⟨regs, 0, []⟩ s → s.it < size → Handled c size replies s := by
  constructor
  · rintro ⟨fuel, u, h, hu⟩ s hpass hit
    exact handled_of_polls h hu hpass hit
  · intro h
    have hstart : PassInv c size regs ⟨regs, 0, []⟩ :=
      ⟨fun _ _ => rfl, by simp, by simp, ⟨.nil, by simp, fun _ _ => ⟨rfl, rfl⟩⟩⟩
    exact ⟨size, hstart.pollMap h size (Nat.zero_add size).ge⟩

/-- A register with a coil that is read. -/
def coilRegister (mbreg : ModbusData) : RegInfo :=
  ⟨0, mbreg, SlaveFunctionCode.fnReadCoilStatus.code, [], 0, 0, 1, false, false, true⟩

/-- A reply without bytes: the iterator goes back from the first register. -/
theorem not_polls_empty_reply :
    ¬∃ fuel t, pollMap ⟨emNone, emNone, false, 1⟩ 1 (fun _ => .ok []) fuel
      ⟨fun _ => coilRegister 10, 0, []⟩ = some t ∧ Polls (fun _ => coilRegister 10) t := by
  rintro ⟨fuel, t, h, -⟩
  cases fuel with
  | zero => cases h
  | succ n =>
    have hfault : pollRegister ⟨emNone, emNone, false, 1⟩ 1 (fun _ => .ok [])
        ⟨fun _ => coilRegister 10, 0, []⟩ = none := rfl
    rw [pollMap, if_neg (by decide), hfault] at h
    cases h

end Uniset.ModbusMaster
