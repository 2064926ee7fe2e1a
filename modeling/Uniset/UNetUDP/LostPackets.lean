import Mathlib.Order.Interval.Finset.Nat
import Uniset.UNetUDP.Session

/-! The counter of lost packets: when it agrees with the numbers that were never applied. -/

namespace Uniset.UNetUDP

open Uniset.Lib

variable {b : BufferSize} {HostIsBigEndian : Bool}

namespace UNetReceiver

variable {r r' : UNetReceiver b} {sm sm' : SharedMemory} {clock : Nat → Nat}
  {ps : List UDPMessage}

/-- The reader stands at `n` before turn `k` of an update that begins in `r`, with the timer
as it is then. -/
inductive Visits (r : UNetReceiver b) (clock : Nat → Nat) : UInt64 → Nat → PassiveTimer → Prop
  | start : Visits r clock r.rnum 0 r.ptLostTimeout
  | packet {n k t} : Visits r clock n k t → n < r.wnum → (r.cbuf (b.slot n)).header.num = n →
      Visits r clock (n + 1) (k + 1) (t.reset (clock k))
  | hole {n k t} : Visits r clock n k t → n < r.wnum → (r.cbuf (b.slot n)).header.num ≠ n →
      t.checkTime (clock k) = true → Visits r clock (r.rnext n) (k + 1) t

/-- The hole at `n` is as wide as `update` takes it to be: up to the number in slot `n` when
that is a later one, else one packet. -/
def HoleCounted (r : UNetReceiver b) (n : UInt64) : Prop :=
  let p := (r.cbuf (b.slot n)).header.num
  if n < p then
    p ≤ r.wnum ∧ (∀ j, n < j → j < p → (r.cbuf (b.slot j)).header.num ≤ n) ∧
      (p < r.wnum → n < (r.cbuf (b.slot p)).header.num)
  else n + 1 < r.wnum → n < (r.cbuf (b.slot (n + 1))).header.num

def HolesCounted (r : UNetReceiver b) (clock : Nat → Nat) : Prop :=
  ∀ n k t, r.Visits clock n k t → n < r.wnum → (r.cbuf (b.slot n)).header.num ≠ n →
    t.checkTime (clock k) = true → r.HoleCounted n

/-- `rnext` is the first position past `num` with a later number, or the write position. -/
theorem rnext_unique {num m : UInt64} (hlt : num < m) (hle : m ≤ r.wnum)
    (hskip : ∀ j, num < j → j < m → (r.cbuf (b.slot j)).header.num ≤ num)
    (hstop : m < r.wnum → num < (r.cbuf (b.slot m)).header.num) : r.rnext num = m := by
  obtain ⟨hgt, hub, hskip', hstop'⟩ := rnext_spec (hlt.trans_le hle)
  rcases lt_trichotomy (r.rnext num) m with h | h | h
  · exact absurd (hstop' (h.trans_le hle)) (not_lt.mpr (hskip _ hgt h))
  · exact h
  · exact absurd (hstop (h.trans_le hub)) (not_lt.mpr (hskip' _ hlt h))

/-- A counted hole costs as many packets as the reader passes over. -/
theorem holeSub_of_counted (hlt : r.rnum < r.wnum) (h : r.HoleCounted r.rnum) :
    r.rnext r.rnum = r.rnum + r.holeSub := by
  unfold HoleCounted at h
  unfold holeSub
  by_cases hp : r.rnum < (r.cbuf (b.slot r.rnum)).header.num
  · rw [if_pos hp] at h
    rw [if_pos hp, rnext_unique hp h.1 h.2.1 h.2.2]
    grind
  · rw [if_neg hp] at h
    rw [if_neg hp]
    refine rnext_unique (lt_succ hlt) (succ_le hlt) (fun j hj hj' => ?_) h
    exact absurd (succ_le hj) (not_le.mpr hj')

/-- During an update that begins in `r₀` and has applied `ps`, the numbers passed so far are
those applied and those counted. -/
structure Accounted (clock : Nat → Nat) (r₀ : UNetReceiver b) (k : Nat) (r : UNetReceiver b)
    (ps : List UDPMessage) : Prop where
  updated : Updated r₀ r ps
  visits : r₀.Visits clock r.rnum k r.ptLostTimeout
  count : (r.lostPackets - r₀.lostPackets).toNat + ps.length = r.rnum.toNat - r₀.rnum.toNat

theorem Accounted.turn {r₀ : UNetReceiver b} {k : Nat} {applied : Option UDPMessage}
    (hlock : r₀.lockUpdate = false) (hmode : r₀.mode ≠ .mDisabled)
    (hholes : r₀.HolesCounted clock) (hI : Accounted clock r₀ k r ps) (hlt : r.rnum < r.wnum)
    (h : r.turn (clock k) sm = some (.again r' sm' applied)) :
    Accounted clock r₀ (k + 1) r' (ps ++ applied.toList) := by
  have hcbuf := hI.updated.cbuf
  have hwnum := hI.updated.wnum
  have hlt₀ : r.rnum < r₀.wnum := by rw [← hwnum]; exact hlt
  have hle := UInt64.le_iff_toNat_le.mp hI.updated.rnum_le
  have hgt := UInt64.lt_iff_toNat_lt.mp (turn_rnum hlt h).1
  have hcount := hI.count
  rcases turn_counters h with ⟨hnum, htime, rfl, hrnum, hlost, htimer⟩ |
    ⟨hnum, happ, hrnum, hlost, htimer⟩
  · rw [hcbuf] at hnum
    refine ⟨hI.updated.turn hlt h, ?_, ?_⟩
    · rw [hrnum, htimer, rnext_congr hcbuf hwnum]
      exact hI.visits.hole hlt₀ hnum htime
    · have hcounted := hholes _ _ _ hI.visits hlt₀ hnum htime
      have hcounted' : r.HoleCounted r.rnum := by
        simpa only [HoleCounted, hcbuf, hwnum] using hcounted
      have hsub : r'.rnum = r.rnum + r.holeSub := by rw [hrnum, holeSub_of_counted hlt hcounted']
      have hsub' : r'.rnum.toNat = (r.rnum.toNat + r.holeSub.toNat) % 2 ^ 64 := by
        rw [hsub, UInt64.toNat_add]
      have hlost' : r'.lostPackets - r₀.lostPackets =
          r.lostPackets - r₀.lostPackets + r.holeSub := by grind
      have := r'.rnum.toNat_lt
      have := r.holeSub.toNat_lt
      rw [hlost', UInt64.toNat_add]
      simp only [Option.toList_none, List.append_nil]
      omega
  · have hnum₀ : (r₀.cbuf (b.slot r.rnum)).header.num = r.rnum := by rw [← hcbuf]; exact hnum
    have hon : ¬ (r.lockUpdate = true ∨ r.mode = .mDisabled) := by
      rw [hI.updated.lockUpdate, hI.updated.mode]
      simp [hlock, hmode]
    rw [if_neg hon] at happ
    refine ⟨hI.updated.turn hlt h, ?_, ?_⟩
    · rw [hrnum, htimer]
      exact hI.visits.packet hlt₀ hnum₀
    · have hsucc := toNat_succ hlt
      rw [hrnum, hlost, happ, hsucc]
      simp only [Option.toList_some, List.length_append, List.length_singleton]
      omega

theorem update_accounted (hlock : r.lockUpdate = false) (hmode : r.mode ≠ .mDisabled)
    (hholes : r.HolesCounted clock) (h : r.update clock sm = some (r', sm', ps)) :
    (r'.lostPackets - r.lostPackets).toNat + ps.length = r'.rnum.toNat - r.rnum.toNat := by
  have hstart : Accounted clock r 0 r [] := ⟨.refl r, .start, by simp⟩
  obtain ⟨k, hI⟩ := update_rule (I := fun k r₁ _ qs => Accounted clock r k r₁ qs)
    (fun hI hlt h => hI.turn hlock hmode hholes hlt h) hstart h
  exact hI.count

end UNetReceiver

namespace Session

variable {s : Session b}

/-- Of the numbers from `start` to the reading position some were applied, and the counter has
grown by the number of the others. -/
def LossAccounted (start lost₀ : UInt64) (s : Session b) : Prop :=
  (∀ p ∈ s.applied, start ≤ p.header.num ∧ p.header.num < s.rcv.rnum) ∧
    (s.rcv.lostPackets - lost₀).toNat =
      ((Finset.Ico start.toNat s.rcv.rnum.toNat).filter
        fun n => n ∉ s.applied.map fun p => p.header.num.toNat).card

structure LossInv (start lost₀ : UInt64) (s : Session b) : Prop where
  start_ne : start ≠ 0
  start_le : start ≤ s.rcv.rnum
  inside : ∀ p ∈ s.applied, start ≤ p.header.num ∧ p.header.num < s.rcv.rnum
  increasing : (s.applied.map fun p => p.header.num).Pairwise (· < ·)
  count : (s.rcv.lostPackets - lost₀).toNat + s.applied.length =
    s.rcv.rnum.toNat - start.toNat

variable {start lost₀ : UInt64}

theorem lossInv_accept {pack : UDPMessage} (hok : pack.isOk = true)
    (hd : ¬ s.rcv.Disagree pack.header.num) (hI : s.LossInv start lost₀) :
    (s.accept pack).LossInv start lost₀ := by
  have hrnum : (s.accept pack).rcv.rnum = s.rcv.rnum := by
    refine (UNetReceiver.receivePack_rnum hok hd).resolve_right fun hzero => ?_
    have hle := hI.start_le
    have hne := hI.start_ne
    grind
  have hlost : (s.accept pack).rcv.lostPackets = s.rcv.lostPackets :=
    UNetReceiver.receivePack_lostPackets hok hd
  have happlied : (s.accept pack).applied = s.applied := if_neg hd
  exact
    { start_ne := hI.start_ne
      start_le := by rw [hrnum]; exact hI.start_le
      inside := by rw [hrnum, happlied]; exact hI.inside
      increasing := by rw [happlied]; exact hI.increasing
      count := by rw [hrnum, hlost, happlied]; exact hI.count }

theorem lossInv_applyAll {clock : Nat → Nat} {r : UNetReceiver b} {sm : SharedMemory}
    {ps : List UDPMessage} (hlock : s.rcv.lockUpdate = false) (hmode : s.rcv.mode ≠ .mDisabled)
    (hholes : s.rcv.HolesCounted clock) (hI : s.LossInv start lost₀)
    (h : s.rcv.update clock s.sm = some (r, sm, ps)) :
    (s.applyAll r sm ps).LossInv start lost₀ := by
  have hU := UNetReceiver.update_spec h
  have hcount := UNetReceiver.update_accounted hlock hmode hholes h
  refine ⟨hI.start_ne, hI.start_le.trans hU.rnum_le, ?_, ?_, ?_⟩
  · intro p hp
    rcases List.mem_append.mp hp with hp | hp
    · exact ⟨(hI.inside p hp).1, (hI.inside p hp).2.trans_le hU.rnum_le⟩
    · exact ⟨hI.start_le.trans (hU.mem p hp).2.1, (hU.mem p hp).2.2.1⟩
  · simp only [applyAll, List.map_append, List.pairwise_append]
    refine ⟨hI.increasing, hU.increasing, ?_⟩
    intro m hm n hn
    obtain ⟨p, hp, rfl⟩ := List.mem_map.mp hm
    obtain ⟨q, hq, rfl⟩ := List.mem_map.mp hn
    exact (hI.inside p hp).2.trans_le (hU.mem q hq).2.1
  · have hcount₀ := hI.count
    have hle₀ := UInt64.le_iff_toNat_le.mp hI.start_le
    have hle := UInt64.le_iff_toNat_le.mp hU.rnum_le
    have hsplit : r.lostPackets - lost₀ =
        (r.lostPackets - s.rcv.lostPackets) + (s.rcv.lostPackets - lost₀) := by grind
    have := r.rnum.toNat_lt
    simp only [applyAll, List.length_append]
    rw [hsplit, UInt64.toNat_add]
    omega

theorem LossInv.accounted (hI : s.LossInv start lost₀) : s.LossAccounted start lost₀ := by
  refine ⟨hI.inside, ?_⟩
  let nums := s.applied.map fun p => p.header.num.toNat
  have hnodup : nums.Nodup := by
    have hmap : nums = (s.applied.map fun p => p.header.num).map UInt64.toNat := by
      simp only [nums, List.map_map, Function.comp_def]
    rw [hmap]
    exact (hI.increasing.imp fun h => h.ne).map UInt64.toNat
      fun _ _ hne heq => hne (UInt64.toNat.inj heq)
  have hmem : (Finset.Ico start.toNat s.rcv.rnum.toNat).filter (· ∈ nums) = nums.toFinset := by
    ext n
    simp only [Finset.mem_filter, Finset.mem_Ico, List.mem_toFinset, and_iff_right_iff_imp]
    intro hn
    obtain ⟨p, hp, rfl⟩ := List.mem_map.mp hn
    obtain ⟨hge, hlt⟩ := hI.inside p hp
    exact ⟨UInt64.le_iff_toNat_le.mp hge, UInt64.lt_iff_toNat_lt.mp hlt⟩
  have hsplit := Finset.card_filter_add_card_filter_not
    (s := Finset.Ico start.toNat s.rcv.rnum.toNat) (p := (· ∈ nums))
  rw [hmem, List.toFinset_card_of_nodup hnodup, Nat.card_Ico, List.length_map] at hsplit
  have hcount := hI.count
  simp only [nums] at hsplit
  omega

/-- The first packet sets the reading position when it is the expected one or reinitialises. -/
def FirstSetsReader (s : Session b) (num : UInt64) : Prop :=
  num ≠ 0 ∧ (num = s.rcv.wnum ∨ s.rcv.Disagree num)

def NoReinit (HostIsBigEndian : Bool) (s : Session b) : Event HostIsBigEndian → Prop
  | .receive m => ∀ pack, m.msg.ntoh HostIsBigEndian = some pack →
      ¬ s.rcv.Disagree pack.header.num
  | .update _ => True

/-- No reinitialisation, and no update with a hole that is not counted right. -/
def HolesSingle (HostIsBigEndian : Bool) (s : Session b) (e : Event HostIsBigEndian) : Prop :=
  s.NoReinit HostIsBigEndian e ∧
    match e with
    | .receive _ => True
    | .update clock =>
        s.rcv.lockUpdate = false ∧ s.rcv.mode ≠ .mDisabled ∧ s.rcv.HolesCounted clock

theorem lossInv_first {conf : ReceiverConf} {now : Nat} {sm : SharedMemory} {first : UDPMessage}
    (hok : first.isOk = true)
    (h : (new HostIsBigEndian b conf now sm).FirstSetsReader first.header.num) :
    let s := (new HostIsBigEndian b conf now sm).accept first
    s.LossInv first.header.num s.rcv.lostPackets := by
  obtain ⟨hne, hset⟩ := h
  have hrnum : ((new HostIsBigEndian b conf now sm).accept first).rcv.rnum = first.header.num := by
    by_cases hd : (new HostIsBigEndian b conf now sm).rcv.Disagree first.header.num
    · simp only [accept, UNetReceiver.receivePack_of_disagree hok hd]
    · have hexp := hset.resolve_right hd
      simp only [accept, UNetReceiver.receivePack_of_expected hok hd hexp]
      rw [hexp]
      exact if_pos rfl
  have happlied : ((new HostIsBigEndian b conf now sm).accept first).applied = [] := by
    simp only [accept]
    split <;> rfl
  exact
    { start_ne := hne
      start_le := hrnum.ge
      inside := by simp [happlied]
      increasing := by simp [happlied]
      count := by simp [happlied, hrnum] }

theorem lostPackets_accounted {conf : ReceiverConf} {now : Nat} {sm : SharedMemory}
    {first : UDPMessage} (hok : first.isOk = true)
    (hfirst : (new HostIsBigEndian b conf now sm).FirstSetsReader first.header.num)
    (h : Reaches step (HolesSingle HostIsBigEndian)
      ((new HostIsBigEndian b conf now sm).accept first) s) :
    s.LossAccounted first.header.num
      ((new HostIsBigEndian b conf now sm).accept first).rcv.lostPackets := by
  refine LossInv.accounted (h.invariant (fun hI hG hs => ?_) (lossInv_first hok hfirst))
  rcases step_cases hs with ⟨m, pack, rfl, hpack, hok, rfl⟩ | ⟨clock, r, sm, ps, rfl, hup, rfl⟩
  · exact lossInv_accept hok (hG.1 pack hpack) hI
  · exact lossInv_applyAll hG.2.1 hG.2.2.1 hG.2.2.2 hI hup

theorem lostPackets_accounted_single :
    ∃ s : Session .default, s.rcv.lostPackets = 1 ∧
      s.applied.map (fun p => p.header.num) = [1, 3] ∧ s.LossAccounted 1 0 := by
  let first : UDPMessage := (ValidMessage.single 1 5 7).msg
  let s₀ : Session .default := (new false .default .default 0 .initial).accept first
  let e₁ : Event false := .receive (.single 3 6 8)
  let e₂ : Event false := .update fun k => k * 10 ^ 9
  let t := (s₀.step e₁).get (by decide +kernel)
  obtain ⟨s₁, s₂, h₁, h₂, hlock, hmode, hwnum, hslots, hlost, happlied⟩ :
      ∃ s₁ s₂ : Session .default, s₀.step e₁ = some s₁ ∧ s₁.step e₂ = some s₂ ∧
        s₁.rcv.lockUpdate = false ∧ s₁.rcv.mode ≠ .mDisabled ∧ s₁.rcv.wnum = 4 ∧
        ([0, 1, 2, 3].map fun n => (s₁.rcv.cbuf (BufferSize.slot .default n)).header.num) =
          [0, 1, 0, 3] ∧
        s₂.rcv.lostPackets = 1 ∧ s₂.applied.map (fun p => p.header.num) = [1, 3] := by
    refine ⟨t, (t.step e₂).get (by decide +kernel), by simp [t], by simp, ?_⟩
    decide +kernel
  simp only [List.map_cons, List.map_nil, List.cons.injEq, and_true] at hslots
  obtain ⟨hzero, hone, htwo, hthree⟩ := hslots
  have hG₁ : HolesSingle false s₀ e₁ := by
    refine ⟨fun pack hpack => ?_, trivial⟩
    cases (ValidMessage.ntoh_single 3 6 8).symm.trans hpack
    decide +kernel
  have hG₂ : HolesSingle false s₁ e₂ := by
    refine ⟨trivial, hlock, hmode, fun n k t _ hlt hnum _ => ?_⟩
    rw [hwnum] at hlt
    have hcases : n = 0 ∨ n = 1 ∨ n = 2 ∨ n = 3 := by grind
    rcases hcases with rfl | rfl | rfl | rfl
    · exact absurd hzero hnum
    · exact absurd hone hnum
    · simp only [UNetReceiver.HoleCounted, htwo]
      rw [if_neg (by decide)]
      intro _
      rw [show (2 : UInt64) + 1 = 3 from rfl, hthree]
      decide
    · exact absurd hthree hnum
  have hrun : Reaches step (HolesSingle false) s₀ s₂ :=
    ((Reaches.refl s₀).tail hG₁ h₁).tail hG₂ h₂
  have hfirst : (new false .default .default 0 .initial : Session .default).FirstSetsReader
      first.header.num := ⟨by decide, .inl rfl⟩
  have haccounted : s₂.LossAccounted first.header.num s₀.rcv.lostPackets :=
    lostPackets_accounted rfl hfirst hrun
  have hstart : first.header.num = 1 ∧ s₀.rcv.lostPackets = 0 := by decide +kernel
  rw [hstart.1, hstart.2] at haccounted
  exact ⟨s₂, hlost, happlied, haccounted⟩

/-- Of the packets 1, 2, 3, 4 the packets 2 and 3 are lost, and one is counted. -/
theorem lostPackets_not_accounted :
    ¬ ∀ (first : UDPMessage) (s : Session .default), first.isOk = true →
      Reaches step (NoReinit false) ((new false .default .default 0 .initial).accept first) s →
      s.LossAccounted first.header.num
        ((new false .default .default 0 .initial : Session .default).accept first).rcv.lostPackets := by
  intro hall
  let first : UDPMessage := (ValidMessage.single 1 5 7).msg
  let s₀ : Session .default := (new false .default .default 0 .initial).accept first
  let e₁ : Event false := .receive (.single 4 6 8)
  let e₂ : Event false := .update fun k => k * 10 ^ 9
  let s₁ := (s₀.step e₁).get (by decide +kernel)
  let s₂ := (s₁.step e₂).get (by decide +kernel)
  have h₁ : s₀.step e₁ = some s₁ := by simp [s₁]
  have h₂ : s₁.step e₂ = some s₂ := by simp [s₂]
  have hG₁ : NoReinit false s₀ e₁ := by
    intro pack hpack
    cases (ValidMessage.ntoh_single 4 6 8).symm.trans hpack
    decide +kernel
  have hG₂ : NoReinit false s₁ e₂ := trivial
  have hcount := (hall first s₂ rfl (((Reaches.refl s₀).tail hG₁ h₁).tail hG₂ h₂)).2
  exact absurd hcount (by decide +kernel)

end Session

end Uniset.UNetUDP
