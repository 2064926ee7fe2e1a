import Uniset.UNetUDP.LostPackets

/-! Where the reader begins: at the first packet that is accepted, when that is the packet which the
receiver expects, or the one after it. -/

namespace Uniset.UNetUDP

open Uniset.Lib

variable {b : BufferSize} {HostIsBigEndian : Bool}

namespace UNetReceiver

variable {r : UNetReceiver b} {sm : SharedMemory} {clock : Nat → Nat}

/-- An update looks at no number before the reading position. -/
theorem Visits.le {m : UInt64} {k : Nat} {t : PassiveTimer} (h : r.Visits clock m k t) :
    r.rnum ≤ m := by
  induction h with
  | start => exact le_rfl
  | packet _ hlt _ ih => exact ih.trans (lt_succ hlt).le
  | hole _ hlt _ _ ih => exact ih.trans (rnext_spec hlt).1.le

theorem update_of_not_lt (h : ¬r.rnum < r.wnum) : r.update clock sm = some (r, sm, []) := by
  unfold update
  split
  · rfl
  · cases (r.wnum - r.rnum).toNat with
    | zero => rfl
    | succ fuel => exact if_neg h

theorem receivePack_frame (r : UNetReceiver b) (pack : UDPMessage) :
    (r.receivePack pack).2.lockUpdate = r.lockUpdate ∧ (r.receivePack pack).2.mode = r.mode := by
  unfold receivePack
  dsimp only
  split
  · exact ⟨rfl, rfl⟩
  · split
    · exact ⟨rfl, rfl⟩
    · exact ⟨rfl, rfl⟩

end UNetReceiver

namespace Session

variable {s : Session b} {n : UInt64}

/-- Nothing before `n` is applied, `n` is applied first, and no update that may come counts a number
before `n` as lost. -/
structure StartsAt (n : UInt64) (s : Session b) : Prop where
  applied : ∀ p ∈ s.applied, n ≤ p.header.num
  first : ∀ p, s.applied.head? = some p → p.header.num = n
  counted : ∀ clock m k t, s.rcv.Visits clock m k t → m < s.rcv.wnum →
    (s.rcv.cbuf (b.slot m)).header.num ≠ m → t.checkTime (clock k) = true → n ≤ m

/-- The packet is the expected one; or the next, which reinitialises, is not put where it has been
read to. -/
def StartsWith (s : Session b) (num : UInt64) : Prop :=
  (num = s.rcv.wnum ∧ ¬s.rcv.Disagree num) ∨
    (s.rcv.Disagree num ∧ num = s.rcv.wnum + 1 ∧ b.slot num ≠ b.slot s.rcv.wnum)

/-- No reinitialisation, and nothing is written over packet `n` before it is applied. -/
def Undisturbed (HostIsBigEndian : Bool) (n : UInt64) (s : Session b) :
    Event HostIsBigEndian → Prop
  | .receive m => ∀ pack, m.msg.ntoh HostIsBigEndian = some pack →
      ¬s.rcv.Disagree pack.header.num ∧ (s.applied = [] →
        b.slot n ≠ b.slot s.rcv.wnum ∧ (b.slot n = b.slot pack.header.num → pack.header.num = n))
  | .update _ => True

/-- Packet `n` waits at the reading position, or has been applied. -/
structure Started (n : UInt64) (s : Session b) : Prop where
  ne : n ≠ 0
  le : n ≤ s.rcv.rnum
  applied : ∀ p ∈ s.applied, n ≤ p.header.num
  first : ∀ p, s.applied.head? = some p → p.header.num = n
  waits : s.applied = [] → s.rcv.lockUpdate = false → s.rcv.mode ≠ .mDisabled →
    s.rcv.rnum = n ∧ (s.rcv.cbuf (b.slot n)).header.num = n

theorem Started.startsAt (h : s.Started n) : s.StartsAt n :=
  ⟨h.applied, h.first, fun _ _ _ _ hvisits _ _ _ => h.le.trans hvisits.le⟩

theorem Started.accept {pack : UDPMessage} (h : s.Started n) (hok : pack.isOk = true)
    (hd : ¬s.rcv.Disagree pack.header.num)
    (hwaits : s.applied = [] → b.slot n ≠ b.slot s.rcv.wnum ∧
      (b.slot n = b.slot pack.header.num → pack.header.num = n)) : (s.accept pack).Started n := by
  have hrnum : (s.accept pack).rcv.rnum = s.rcv.rnum := by
    refine (UNetReceiver.receivePack_rnum hok hd).resolve_right fun hzero => h.ne ?_
    have hle := h.le
    rw [hzero] at hle
    grind
  have happlied : (s.accept pack).applied = s.applied := if_neg hd
  refine ⟨h.ne, by rw [hrnum]; exact h.le, by rw [happlied]; exact h.applied,
    by rw [happlied]; exact h.first, ?_⟩
  obtain ⟨hlock, hmode⟩ := UNetReceiver.receivePack_frame s.rcv pack
  intro hnone hunlocked henabled
  rw [happlied] at hnone
  obtain ⟨hread, hnum⟩ := h.waits hnone (hlock ▸ hunlocked) (hmode ▸ henabled)
  obtain ⟨hw, hown⟩ := hwaits hnone
  refine ⟨hrnum.trans hread, ?_⟩
  change ((s.rcv.receivePack pack).2.cbuf (b.slot n)).header.num = n
  by_cases hslot : b.slot n = b.slot pack.header.num
  · have hpack := hown hslot
    rw [hslot, UNetReceiver.receivePack_slot_num hok (hslot ▸ hw), hpack]
  · rw [UNetReceiver.receivePack_other hw hslot, hnum]

/-- The first of increasing numbers that has none before it. -/
theorem head_eq_of_mem {ps : List UDPMessage} {p q : UDPMessage}
    (hincreasing : (ps.map fun p => p.header.num).Pairwise (· < ·)) (hle : n ≤ p.header.num)
    (hq : q ∈ ps) (hnum : q.header.num = n) (hhead : ps.head? = some p) : p.header.num = n := by
  cases ps with
  | nil => cases hhead
  | cons a ps =>
    cases hhead
    rcases List.mem_cons.mp hq with rfl | hq
    · exact hnum
    · have hlt := List.rel_of_pairwise_cons hincreasing (List.mem_map_of_mem hq)
      rw [hnum] at hlt
      exact absurd hle (not_le.mpr hlt)

theorem Started.applyAll {clock : Nat → Nat} {r : UNetReceiver b} {sm : SharedMemory}
    {ps : List UDPMessage} (h : s.Started n) (hup : s.rcv.update clock s.sm = some (r, sm, ps)) :
    (s.applyAll r sm ps).Started n := by
  have hU := UNetReceiver.update_spec hup
  have hps : ∀ p ∈ ps, n ≤ p.header.num := fun p hp => h.le.trans (hU.mem p hp).2.1
  -- what an update of the receiver applies first, when nothing has been applied
  have hfirst : s.applied = [] → s.rcv.lockUpdate = false → s.rcv.mode ≠ .mDisabled →
      (∃ q ∈ ps, q.header.num = n) ∨ (ps = [] ∧ r = s.rcv) := by
    intro hnone hunlocked henabled
    obtain ⟨hread, hnum⟩ := h.waits hnone hunlocked henabled
    by_cases hlt : s.rcv.rnum < s.rcv.wnum
    · have hstarted : ¬(s.rcv.wnum = 1 ∧ s.rcv.rnum = 0) := fun hzero => h.ne (hread ▸ hzero.2)
      rw [← hread] at hnum
      exact .inl ⟨_, UNetReceiver.update_first hlt hstarted hnum hunlocked henabled hup,
        hnum.trans hread⟩
    · rw [UNetReceiver.update_of_not_lt hlt] at hup
      cases hup
      exact .inr ⟨rfl, rfl⟩
  refine ⟨h.ne, h.le.trans hU.rnum_le, ?_, ?_, ?_⟩
  · intro p hp
    rcases List.mem_append.mp hp with hp | hp
    · exact h.applied p hp
    · exact hps p hp
  · intro p hp
    change (s.applied ++ ps).head? = some p at hp
    cases happlied : s.applied with
    | cons a as =>
      rw [happlied] at hp
      exact h.first p (by rw [happlied]; exact hp)
    | nil =>
      rw [happlied, List.nil_append] at hp
      have hmem : p ∈ ps := List.mem_of_mem_head? hp
      obtain ⟨-, -, -, -, hunlocked, henabled⟩ := hU.mem p hmem
      obtain ⟨q, hq, hnum⟩ | ⟨rfl, -⟩ := hfirst happlied hunlocked henabled
      · exact head_eq_of_mem hU.increasing (hps p hmem) hq hnum hp
      · cases hmem
  · intro hnone hunlocked henabled
    obtain ⟨hbefore, rfl⟩ := List.append_eq_nil_iff.mp hnone
    have hunlocked' : s.rcv.lockUpdate = false := hU.lockUpdate ▸ hunlocked
    have henabled' : s.rcv.mode ≠ .mDisabled := hU.mode ▸ henabled
    obtain ⟨q, hq, -⟩ | ⟨-, rfl⟩ := hfirst hbefore hunlocked' henabled'
    · cases hq
    · exact h.waits hbefore hunlocked' henabled'

theorem started_first {conf : ReceiverConf} {now : Nat} {sm : SharedMemory} {first : UDPMessage}
    (hok : first.isOk = true)
    (h : (new HostIsBigEndian b conf now sm).StartsWith first.header.num) :
    ((new HostIsBigEndian b conf now sm).accept first).rcv.lostPackets = 0 ∧
      ((new HostIsBigEndian b conf now sm).accept first).Started first.header.num := by
  have happlied : ((new HostIsBigEndian b conf now sm).accept first).applied = [] := by
    simp only [Session.accept]
    split
    · rfl
    · rfl
  have hnone : ∀ p ∈ ((new HostIsBigEndian b conf now sm).accept first).applied,
      first.header.num ≤ p.header.num := by
    intro p hp
    rw [happlied] at hp
    cases hp
  have hhead : ∀ p, ((new HostIsBigEndian b conf now sm).accept first).applied.head? = some p →
      p.header.num = first.header.num := by
    intro p hp
    rw [happlied] at hp
    cases hp
  obtain ⟨hexp, hd⟩ | ⟨hd, hnext, hslot⟩ := h
  · have hwnum : first.header.num = 1 := hexp
    have hrcv : ((new HostIsBigEndian b conf now sm).accept first).rcv = _ :=
      congrArg Prod.snd (UNetReceiver.receivePack_of_expected hok hd hexp)
    refine ⟨by rw [hrcv]; rfl, by rw [hwnum]; decide, ?_, hnone, hhead, fun _ _ _ => ⟨?_, ?_⟩⟩
    · rw [hrcv, hwnum]
      exact le_rfl
    · rw [hrcv, hwnum]
      rfl
    · rw [hrcv, hexp]
      dsimp only
      rw [Function.update_self, hexp]
  · have hwnum : first.header.num = 2 := hnext
    have hrcv : ((new HostIsBigEndian b conf now sm).accept first).rcv = _ :=
      congrArg Prod.snd (UNetReceiver.receivePack_of_disagree hok hd)
    refine ⟨?_, by rw [hwnum]; decide, ?_, hnone, hhead, fun _ _ _ => ⟨?_, ?_⟩⟩
    · rw [hrcv, hwnum]
      change (0 : UInt64) + (if (2 : UInt64) > 1 then 2 - 1 - 1 else 1) = 0
      decide
    · rw [hrcv]
    · rw [hrcv]
    · exact congrArg (fun p => p.header.num) (UNetReceiver.receivePack_slot_num hok hslot)

/-- The reader starts at the first packet when that is the expected one, or the next after a
reinitialisation, in every run that neither reinitialises again nor writes over that packet before it
is applied. -/
theorem startsAt_first {conf : ReceiverConf} {now : Nat} {sm : SharedMemory} {first : UDPMessage}
    (hok : first.isOk = true)
    (hfirst : (new HostIsBigEndian b conf now sm).StartsWith first.header.num)
    (h : Reaches step (Undisturbed HostIsBigEndian first.header.num)
      ((new HostIsBigEndian b conf now sm).accept first) s) :
    ((new HostIsBigEndian b conf now sm).accept first).rcv.lostPackets = 0 ∧
      s.StartsAt first.header.num := by
  obtain ⟨hlost, hstarted⟩ := started_first hok hfirst
  refine ⟨hlost, Started.startsAt (h.invariant (fun hI hG hs => ?_) hstarted)⟩
  rcases step_cases hs with ⟨m, pack, rfl, hpack, hok, rfl⟩ | ⟨clock, r, sm, ps, rfl, hup, rfl⟩
  · obtain ⟨hd, hwaits⟩ := hG pack hpack
    exact hI.accept hok hd hwaits
  · exact hI.applyAll hup

/-- The packet 1, and an update. -/
theorem startsAt_first_one : ∃ s : Session .default,
    s.applied.map (fun p => p.header.num) = [1] ∧ s.StartsAt 1 := by
  let first : UDPMessage := (ValidMessage.single 1 5 7).msg
  let s₀ : Session .default := (new false .default .default 0 .initial).accept first
  let e : Event false := .update fun k => k * 10 ^ 9
  obtain ⟨s, hs, happlied⟩ : ∃ s : Session .default, s₀.step e = some s ∧
      s.applied.map (fun p => p.header.num) = [1] := by
    refine ⟨(s₀.step e).get (by decide +kernel), by simp, ?_⟩
    decide +kernel
  have hfirst : (new false .default .default 0 .initial : Session .default).StartsWith
      first.header.num := .inl ⟨rfl, by decide +kernel⟩
  have hG : Undisturbed false first.header.num s₀ e := trivial
  have hstarts := startsAt_first rfl hfirst ((Reaches.refl s₀).tail hG hs)
  exact ⟨s, happlied, hstarts.2⟩

/-- After the packet 2, which is near enough, an update begins with an empty slot. -/
theorem not_startsAt_two : ¬∀ s : Session .default,
    Reaches step (Undisturbed false 2)
      ((new false .default .default 0 .initial).accept (ValidMessage.single 2 5 7).msg) s →
      s.StartsAt 2 := by
  intro hall
  let s₀ : Session .default :=
    (new false .default .default 0 .initial).accept (ValidMessage.single 2 5 7).msg
  let e : Event false := .update fun k => k * 10 ^ 9
  obtain ⟨s, hs, happlied⟩ : ∃ s : Session .default, s₀.step e = some s ∧
      s.applied.map (fun p => p.header.num) = [0, 2] := by
    refine ⟨(s₀.step e).get (by decide +kernel), by simp, ?_⟩
    decide +kernel
  obtain ⟨p, hp, hnum⟩ : ∃ p ∈ s.applied, p.header.num = 0 := by
    have hzero : (0 : UInt64) ∈ s.applied.map fun p => p.header.num := by
      rw [happlied]
      exact List.mem_cons_self
    obtain ⟨p, hp, hnum⟩ := List.mem_map.mp hzero
    exact ⟨p, hp, hnum⟩
  have hG : Undisturbed false 2 s₀ e := trivial
  have hle := (hall s ((Reaches.refl s₀).tail hG hs)).applied p hp
  rw [hnum] at hle
  exact absurd hle (by decide)

end Session

end Uniset.UNetUDP
