import Uniset.UNetUDP.Session

/-! Delivery in order and at most once, and what a restart of the sender does to it. -/

namespace Uniset.UNetUDP

open Uniset.Lib

variable {b : BufferSize} {HostIsBigEndian : Bool}

namespace Session

/-! ### In order, at most once -/

/-- Since the last reinitialisation the numbers applied increase, and what was applied
under a number was received under it. -/
def InOrder (s : Session b) : Prop :=
  (s.applied.map fun p => p.header.num).Pairwise (· < ·) ∧ ∀ p ∈ s.applied, p ∈ s.received

/-- The reading position is still 0 although packets have come, and slot 0 holds the number 0
of a freed or empty slot: `update` takes it for packet 0. -/
def EmptySlotDue (s : Session b) : Prop :=
  s.rcv.rnum = 0 ∧ 1 < s.rcv.wnum ∧ (s.rcv.cbuf (b.slot 0)).header.num = 0 ∧
    s.rcv.cbuf (b.slot 0) ∉ s.received ∧ s.rcv.lockUpdate = false ∧ s.rcv.mode ≠ .mDisabled

/-- Every number in the buffer came with its packet, and the reader is past all it applied. -/
structure DeliveryInv (s : Session b) : Prop where
  slots : ∀ j, (s.rcv.cbuf j).header.num ≠ 0 → s.rcv.cbuf j ∈ s.received
  below : ∀ p ∈ s.applied, p.header.num < s.rcv.rnum
  inOrder : s.InOrder

variable {s : Session b}

theorem deliveryInv_new (HostIsBigEndian : Bool) (b : BufferSize) (conf : ReceiverConf) (now : Nat)
    (sm : SharedMemory) :
    (new HostIsBigEndian b conf now sm).DeliveryInv where
  slots := by simp [new, UNetReceiver.new]
  below := by simp [new]
  inOrder := by simp [new, InOrder]

theorem deliveryInv_accept {pack : UDPMessage} (hok : pack.isOk = true) (hI : s.DeliveryInv) :
    (s.accept pack).DeliveryInv where
  slots j hj := by
    simp only [accept] at hj ⊢
    rcases s.rcv.receivePack_slot pack j with h | h | h
    · rw [h] at hj ⊢
      exact List.mem_cons_of_mem _ (hI.slots j hj)
    · simp [h]
    · simp [h] at hj
  below p hp := by
    simp only [accept] at hp ⊢
    split at hp
    · cases hp
    · rename_i hd
      have hlt := hI.below p hp
      rcases UNetReceiver.receivePack_rnum hok hd with h | h
      · rw [h]
        exact hlt
      · rw [h] at hlt
        simp at hlt
  inOrder := by
    simp only [InOrder, accept]
    split
    · simp
    · exact ⟨hI.inOrder.1, fun p hp => List.mem_cons_of_mem _ (hI.inOrder.2 p hp)⟩

theorem deliveryInv_applyAll {clock : Nat → Nat} {r : UNetReceiver b} {sm : SharedMemory}
    {ps : List UDPMessage} (hI : s.DeliveryInv) (hdue : ¬ s.EmptySlotDue)
    (h : s.rcv.update clock s.sm = some (r, sm, ps)) : (s.applyAll r sm ps).DeliveryInv := by
  have hU := UNetReceiver.update_spec h
  refine ⟨?_, ?_, ?_, ?_⟩
  · simp only [applyAll, hU.cbuf]
    exact hI.slots
  · intro p hp
    rcases List.mem_append.mp hp with hp | hp
    · exact (hI.below p hp).trans_le hU.rnum_le
    · exact (hU.mem p hp).2.2.1
  · simp only [applyAll, List.map_append, List.pairwise_append]
    refine ⟨hI.inOrder.1, hU.increasing, ?_⟩
    intro m hm n hn
    obtain ⟨p, hp, rfl⟩ := List.mem_map.mp hm
    obtain ⟨q, hq, rfl⟩ := List.mem_map.mp hn
    exact (hI.below p hp).trans_le (hU.mem q hq).2.1
  · intro p hp
    rcases List.mem_append.mp hp with hp | hp
    · exact hI.inOrder.2 p hp
    · obtain ⟨hslot, hge, hlt, hle, hlock, hmode⟩ := hU.mem p hp
      by_cases hzero : p.header.num = 0
      · -- only a reader that stands at 0 takes a packet with the number 0
        rw [hzero] at hslot hge hlt
        have hrnum : s.rcv.rnum = 0 := by grind
        have hstarted := UNetReceiver.update_started h hp
        have hwnum : 1 < s.rcv.wnum := by grind
        by_contra hnew
        exact hdue ⟨hrnum, hwnum, by rw [← hslot, hzero], by rwa [← hslot], hlock, hmode⟩
      · rw [hslot] at hzero ⊢
        exact hI.slots _ hzero

/-- An update that takes the empty slot for packet 0 ends the order. -/
theorem not_inOrder_of_emptySlotDue {t : Session b} {clock : Nat → Nat} (hdue : s.EmptySlotDue)
    (h : s.step (.update clock : Event HostIsBigEndian) = some t) : ¬ t.InOrder := by
  obtain ⟨hrnum, hwnum, hnum, hnew, hlock, hmode⟩ := hdue
  rcases step_cases h with ⟨m, -, he, -⟩ | ⟨clock, r, sm, ps, he, hupdate, rfl⟩
  · cases he
  · intro hin
    have hlt : s.rcv.rnum < s.rcv.wnum := by grind
    have hfirst := UNetReceiver.update_first hlt (by grind) (by rw [hrnum, hnum]) hlock hmode
      hupdate
    rw [hrnum] at hfirst
    exact hnew (hin.2 _ (List.mem_append_right _ hfirst))

/-- No update starts while an empty slot is due. -/
def NoEmptySlotDue (HostIsBigEndian : Bool) (s : Session b) : Event HostIsBigEndian → Prop
  | .receive _ => True
  | .update _ => ¬ s.EmptySlotDue

/-- Packets are applied in the order of their numbers and at most once, as long as no empty
slot is taken for packet 0. -/
theorem delivery_inOrder (h : Run (NoEmptySlotDue HostIsBigEndian) s) : s.InOrder :=
  (h.invariant (deliveryInv_new HostIsBigEndian b)
    (fun _ hI _ _ hok => deliveryInv_accept hok hI)
    (fun hI hdue hupdate => deliveryInv_applyAll hI hdue hupdate)).inOrder

/-- Every update finds the reading position set. -/
def ReaderSet (s : Session b) : Event HostIsBigEndian → Prop
  | .receive _ => True
  | .update _ => s.rcv.rnum ≠ 0

instance (s : Session b) (e : Event HostIsBigEndian) : Decidable (s.ReaderSet e) :=
  match e with
  | .receive _ => instDecidableTrue
  | .update _ => inferInstanceAs (Decidable (s.rcv.rnum ≠ 0))

theorem ReaderSet.noEmptySlotDue {e : Event HostIsBigEndian} (h : s.ReaderSet e) :
    NoEmptySlotDue HostIsBigEndian s e := by
  cases e with
  | receive m => trivial
  | update clock => exact fun hdue => h hdue.1

/-- Packet 3 comes before packet 2, which comes twice; 4 and 5 are lost, and 1 comes again late. -/
theorem delivery_inOrder_hole :
    ∃ s : Session .default, s.applied.map (fun p => p.header.num) = [1, 2, 3, 6] ∧ s.InOrder := by
  let s₀ : Session .default := new false .default .default 0 .initial
  let es : List (Event false) :=
    [.receive (.single 1 5 7), .update fun _ => 0, .receive (.single 3 6 8), .update fun _ => 0,
      .receive (.single 2 7 9), .receive (.single 2 7 9), .update fun _ => 0,
      .receive (.single 6 8 10), .update fun _ => 0, .receive (.single 1 5 7),
      .update fun _ => 300000000]
  obtain ⟨t, ht, happlied⟩ : ∃ t, es.foldlM (checkedStep step ReaderSet) s₀ = some t ∧
      t.applied.map (fun p => p.header.num) = [1, 2, 3, 6] :=
    ⟨(es.foldlM (checkedStep step ReaderSet) s₀).get (by decide +kernel), by simp, by decide +kernel⟩
  have hrun : Run (NoEmptySlotDue false) t :=
    ⟨.default, 0, .initial, (Reaches.of_checked ht).mono fun _ _ h => h.noEmptySlotDue⟩
  exact ⟨t, happlied, delivery_inOrder hrun⟩

/-- A packet 2⁶⁴ - 1 wraps the write position to 0.  The next one frees slot 0, where the reader
still stands: it is applied as packet 0, and once more as packet 1. -/
theorem delivery_not_inOrder :
    ¬ ∀ s : Session .default, Run (fun _ (_ : Event false) => True) s → s.InOrder := by
  intro hall
  let s₀ : Session .default := new false .default .default 0 .initial
  let es : List (Event false) :=
    [.receive (.single (2 ^ 64 - 1) 5 7), .receive (.single 1 6 8), .update fun _ => 0]
  obtain ⟨t, ht, hreceived, happlied⟩ : ∃ t, es.foldlM step s₀ = some t ∧
      t.received.map (fun p => p.header.num) = [1, 2 ^ 64 - 1] ∧
      t.applied.map (fun p => p.header.num) = [0, 1] :=
    ⟨(es.foldlM step s₀).get (by decide +kernel), by simp, by decide +kernel, by decide +kernel⟩
  have hin := hall t ⟨.default, 0, .initial, .of_foldlM (fun _ _ _ => trivial) ht⟩
  have hzero : 0 ∈ t.applied.map fun p => p.header.num := by simp [happlied]
  obtain ⟨p, hp, hnum⟩ := List.mem_map.mp hzero
  have hmem : 0 ∈ t.received.map fun p => p.header.num :=
    List.mem_map.mpr ⟨p, hin.2 p hp, hnum⟩
  rw [hreceived] at hmem
  exact absurd hmem (by decide +kernel)

/-! ### A restart of the sender -/

/-- A packet from before the last reinitialisation stands under its number where the reader is
going to look for it. -/
def StaleDue (s : Session b) : Prop :=
  s.rcv.lockUpdate = false ∧ s.rcv.mode ≠ .mDisabled ∧
    ∃ n, s.rcv.rnum ≤ n ∧ n < s.rcv.wnum ∧ (s.rcv.cbuf (b.slot n)).header.num = n ∧
      s.fresh (b.slot n) = false

theorem applyAll_stale {clock : Nat → Nat} {r : UNetReceiver b} {sm : SharedMemory}
    {ps : List UDPMessage} (hdue : ¬ s.StaleDue)
    (h : s.rcv.update clock s.sm = some (r, sm, ps)) : (s.applyAll r sm ps).stale = s.stale := by
  have hfresh : ∀ p ∈ ps, s.fresh (b.slot p.header.num) = true := by
    intro p hp
    obtain ⟨hslot, hge, hlt, hle, hlock, hmode⟩ := (UNetReceiver.update_spec h).mem p hp
    by_contra hold
    exact hdue ⟨hlock, hmode, p.header.num, hge, hlt.trans_le hle, by rw [← hslot],
      Bool.eq_false_of_not_eq_true hold⟩
  have hnone : ps.filter (fun p => !s.fresh (b.slot p.header.num)) = [] := by
    rw [List.filter_eq_nil_iff]
    intro p hp
    simp [hfresh p hp]
  simp [applyAll, hnone]

/-- No update starts while a packet from before the restart is due. -/
def NoStaleDue (HostIsBigEndian : Bool) (s : Session b) : Event HostIsBigEndian → Prop
  | .receive _ => True
  | .update _ => ¬ s.StaleDue

theorem restart_stale_nil (h : Run (NoStaleDue HostIsBigEndian) s) : s.stale = [] :=
  h.invariant (fun _ _ _ => rfl) (fun _ hI _ _ _ => hI)
    (fun hI hdue hupdate => (applyAll_stale hdue hupdate).trans hI)

theorem restart_stale_nil_single :
    ∃ s : Session .default, s.applied.map (fun p => p.header.num) = [1] ∧ s.stale = [] := by
  let s₀ : Session .default := new false .default .default 0 .initial
  let e₁ : Event false := .receive (.single 150 5 7)
  let e₂ : Event false := .receive (.single 1 6 8)
  let e₃ : Event false := .update fun _ => 0
  let s₁ := (s₀.step e₁).get (by decide +kernel)
  let s₂ := (s₁.step e₂).get (by decide +kernel)
  let s₃ := (s₂.step e₃).get (by decide +kernel)
  have h₁ : s₀.step e₁ = some s₁ := by simp [s₁]
  have h₂ : s₁.step e₂ = some s₂ := by simp [s₂]
  have h₃ : s₂.step e₃ = some s₃ := by simp [s₃]
  have hdue : NoStaleDue false s₂ e₃ := by
    rintro ⟨-, -, n, hge, hlt, -, hold⟩
    have hrnum : s₂.rcv.rnum = 1 := by decide +kernel
    have hwnum : s₂.rcv.wnum = 2 := by decide +kernel
    have hn : n = 1 := by
      rw [hrnum] at hge
      rw [hwnum] at hlt
      grind
    rw [hn] at hold
    exact absurd hold (by decide +kernel)
  have hrun : Run (NoStaleDue false) s₃ :=
    ⟨.default, 0, .initial, (((Reaches.refl s₀).tail trivial h₁).tail trivial h₂).tail hdue h₃⟩
  exact ⟨s₃, by decide +kernel, restart_stale_nil hrun⟩

/-- The sender starts again from 1 and its packets 2 and 3 are lost: the reader finds the old
packet 3. -/
theorem restart_stale_ne_nil :
    ¬ ∀ s : Session .default, Run (fun _ (_ : Event false) => True) s → s.stale = [] := by
  intro hall
  let s₀ : Session .default := new false .default .default 0 .initial
  let es : List (Event false) :=
    [.receive (.single 1 5 7), .receive (.single 2 5 7), .receive (.single 3 5 7),
      .update fun k => k, .receive (.single 150 5 7), .receive (.single 1 6 8),
      .receive (.single 4 6 8), .update fun k => k * 10 ^ 9]
  obtain ⟨t, ht, hstale⟩ : ∃ t, es.foldlM step s₀ = some t ∧
      t.stale.map (fun p => p.header.num) = [3] :=
    ⟨(es.foldlM step s₀).get (by decide +kernel), by simp, by decide +kernel⟩
  rw [hall t ⟨.default, 0, .initial, .of_foldlM (fun _ _ _ => trivial) ht⟩] at hstale
  cases hstale

end Session

end Uniset.UNetUDP
