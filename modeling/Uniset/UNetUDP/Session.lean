import Uniset.UNetUDP.UNetReceiverLaws
import Uniset.Lib.GuardedRun

/-! A receiver at work: valid packets arrive and updates happen in any order.  Beside the
receiver the session keeps the history that statements about delivery speak of. -/

namespace Uniset.UNetUDP

open Uniset.Lib

/-- A message whose magic is right and whose counts stay inside its arrays. -/
structure ValidMessage (HostIsBigEndian : Bool) where
  msg : UDPMessage
  isOk : msg.isOk = true
  fits : UDPMessage.CountsFit (msg.header.toHost HostIsBigEndian)

/-- A packet with one analog value, of the sensor 1. -/
def ValidMessage.single (num : UInt64) (val : Int64) (acrc : UInt16) : ValidMessage false where
  msg :=
    { UDPMessage.new false with
      header := { UDPHeader.new false with num, acount := 1, acrc }
      a_dat := fun _ => ⟨1, val⟩ }
  isOk := rfl
  fits := by simp [UDPMessage.CountsFit, UDPHeader.toHost, UDPHeader.new, MaxACount, MaxDCount]

theorem ValidMessage.ntoh_single (num : UInt64) (val : Int64) (acrc : UInt16) :
    (ValidMessage.single num val acrc).msg.ntoh false = some (ValidMessage.single num val acrc).msg :=
  if_pos rfl

structure Session (b : BufferSize) where
  rcv : UNetReceiver b
  sm : SharedMemory
  /-- the packets accepted, in host order -/
  received : List UDPMessage
  /-- the packets applied since the last reinitialisation, in their order -/
  applied : List UDPMessage
  /-- the slots written since the last reinitialisation -/
  fresh : Fin b.val.toNat → Bool
  /-- the packets applied that stood in the buffer before the last reinitialisation -/
  stale : List UDPMessage

inductive Event (HostIsBigEndian : Bool)
  | receive (m : ValidMessage HostIsBigEndian)
  | update (clock : Nat → Nat)

namespace Session

variable {b : BufferSize} {HostIsBigEndian : Bool}

def new (HostIsBigEndian : Bool) (b : BufferSize) (conf : ReceiverConf) (now : Nat)
    (sm : SharedMemory) : Session b where
  rcv := .new HostIsBigEndian b conf now
  sm := sm
  received := []
  applied := []
  fresh := fun _ => true
  stale := []

/-- The reinitialisation forgets what was applied and leaves fresh only the slots it writes. -/
def accept (s : Session b) (pack : UDPMessage) : Session b where
  rcv := (s.rcv.receivePack pack).2
  sm := s.sm
  received := pack :: s.received
  applied := if s.rcv.Disagree pack.header.num then [] else s.applied
  fresh := fun j =>
    decide (j = b.slot s.rcv.wnum) || decide (j = b.slot pack.header.num) ||
      (!decide (s.rcv.Disagree pack.header.num) && s.fresh j)
  stale := s.stale

def applyAll (s : Session b) (r : UNetReceiver b) (sm : SharedMemory) (ps : List UDPMessage) :
    Session b :=
  { s with
    rcv := r
    sm
    applied := s.applied ++ ps
    stale := s.stale ++ ps.filter fun p => !s.fresh (b.slot p.header.num) }

def step (s : Session b) : Event HostIsBigEndian → Option (Session b)
  | .receive m => (m.msg.ntoh HostIsBigEndian).map s.accept
  | .update clock => (s.rcv.update clock s.sm).map fun (r, sm, ps) => s.applyAll r sm ps

variable {s t : Session b} {e : Event HostIsBigEndian}

theorem step_cases (h : s.step e = some t) :
    (∃ m pack, e = .receive m ∧ m.msg.ntoh HostIsBigEndian = some pack ∧ pack.isOk = true ∧
      t = s.accept pack) ∨
    (∃ clock r sm ps, e = .update clock ∧ s.rcv.update clock s.sm = some (r, sm, ps) ∧
      t = s.applyAll r sm ps) := by
  cases e with
  | receive m =>
    simp only [step, Option.map_eq_some_iff] at h
    obtain ⟨pack, hpack, rfl⟩ := h
    exact .inl ⟨m, pack, rfl, hpack, by rw [UDPMessage.ntoh_isOk hpack, m.isOk], rfl⟩
  | update clock =>
    simp only [step, Option.map_eq_some_iff] at h
    obtain ⟨⟨r, sm, ps⟩, hupdate, rfl⟩ := h
    exact .inr ⟨clock, r, sm, ps, rfl, hupdate, rfl⟩

/-- The sessions that begin with a new receiver and meet the guard in every step. -/
def Run (G : Session b → Event HostIsBigEndian → Prop) (s : Session b) : Prop :=
  ∃ conf now sm, Reaches step G (new HostIsBigEndian b conf now sm) s

theorem Run.invariant {G : Session b → Event HostIsBigEndian → Prop} {I : Session b → Prop}
    (hnew : ∀ conf now sm, I (new HostIsBigEndian b conf now sm))
    (hreceive : ∀ {s pack} (m : ValidMessage HostIsBigEndian), I s → G s (.receive m) →
      m.msg.ntoh HostIsBigEndian = some pack → pack.isOk = true → I (s.accept pack))
    (hupdate : ∀ {s clock r sm ps}, I s → G s (.update clock) →
      s.rcv.update clock s.sm = some (r, sm, ps) → I (s.applyAll r sm ps))
    (h : Run G s) : I s := by
  obtain ⟨conf, now, sm, hrun⟩ := h
  refine hrun.invariant (fun hI hG hs => ?_) (hnew conf now sm)
  rcases step_cases hs with ⟨m, pack, rfl, hpack, hok, rfl⟩ | ⟨clock, r, sm, ps, rfl, hup, rfl⟩
  · exact hreceive m hI hG hpack hok
  · exact hupdate hI hG hup

end Session

end Uniset.UNetUDP

/-! When the circular buffer keeps what `receive` accepts, and what it already held. -/

namespace Uniset.UNetUDP

open Uniset.Lib

variable {b : BufferSize} {HostIsBigEndian : Bool}

namespace UNetReceiver

/-- Packet `n` waits in its slot.  The number 0 marks a free slot. -/
def Stored (r : UNetReceiver b) (n : UInt64) : Prop :=
  n ≠ 0 ∧ (r.cbuf (b.slot n)).header.num = n

/-- After `pack` was accepted it stands in its slot under its number, and all other packets
that wait in the reading window stand where they stood. -/
def KeepsPackets (r r' : UNetReceiver b) (pack : UDPMessage) : Prop :=
  r'.cbuf (b.slot pack.header.num) = pack ∧
    ∀ n, r.rnum ≤ n → n < r.wnum → r.Stored n → n ≠ pack.header.num →
      r'.cbuf (b.slot n) = r.cbuf (b.slot n)

/-- The slot of the number and the slot of the write position, where the datagram is read to,
are different ones and hold no packet that waits, the expected packet apart. -/
def SlotsApart (r : UNetReceiver b) (num : UInt64) : Prop :=
  (b.slot num ≠ b.slot r.wnum ∨ (num = r.wnum ∧ ¬ r.Disagree num) ∨ num = 0) ∧
    ∀ n, r.rnum ≤ n → n < r.wnum → r.Stored n → n ≠ num →
      b.slot n ≠ b.slot num ∧ b.slot n ≠ b.slot r.wnum

variable {r : UNetReceiver b} {pack : UDPMessage}

theorem receivePack_own_iff (hok : pack.isOk = true) :
    (r.receivePack pack).2.cbuf (b.slot pack.header.num) = pack ↔
      b.slot pack.header.num ≠ b.slot r.wnum ∨
        (pack.header.num = r.wnum ∧ ¬ r.Disagree pack.header.num) ∨ pack.header.num = 0 := by
  by_cases hslot : b.slot pack.header.num = b.slot r.wnum
  · rw [hslot, receivePack_slot_wnum hok]
    by_cases hexp : pack.header.num = r.wnum ∧ ¬ r.Disagree pack.header.num
    · rw [if_pos hexp]
      exact ⟨fun _ => .inr (.inl hexp), fun _ => rfl⟩
    · rw [if_neg hexp]
      constructor
      · intro h
        exact .inr (.inr (by rw [← h, UDPMessage.setNum_num]))
      · rintro (h | h | h)
        · exact absurd rfl h
        · exact absurd h hexp
        · rw [← h, UDPMessage.setNum_self]
  · simp [receivePack_slot_num hok hslot, hslot]

theorem receivePack_other_iff (hok : pack.isOk = true) {n : UInt64} (hn : r.Stored n)
    (hne : n ≠ pack.header.num) :
    (r.receivePack pack).2.cbuf (b.slot n) = r.cbuf (b.slot n) ↔
      b.slot n ≠ b.slot pack.header.num ∧ b.slot n ≠ b.slot r.wnum := by
  obtain ⟨hzero, hnum⟩ := hn
  constructor
  · intro h
    have hkeep : ((r.receivePack pack).2.cbuf (b.slot n)).header.num = n := by rw [h, hnum]
    have hw : b.slot n ≠ b.slot r.wnum := by
      intro hw
      rw [hw, receivePack_slot_wnum hok] at hkeep
      split at hkeep
      · exact hne hkeep.symm
      · exact hzero hkeep.symm
    refine ⟨?_, hw⟩
    intro hs
    rw [hs] at hw
    rw [hs, receivePack_slot_num hok hw] at hkeep
    exact hne hkeep.symm
  · rintro ⟨hs, hw⟩
    exact receivePack_other hw hs

/-- A receive that answers `retOK` keeps the packets if and only if their slots are apart. -/
theorem receive_keepsPackets_iff {msg : UDPMessage} {r' : UNetReceiver b}
    (hpack : msg.ntoh HostIsBigEndian = some pack)
    (h : r.receiveMessage HostIsBigEndian msg = some (.retOK, r')) :
    r.KeepsPackets r' pack ↔ r.SlotsApart pack.header.num := by
  rw [receiveMessage, hpack, Option.map_some, Option.some.injEq] at h
  have hok : pack.isOk = true := (receivePack_code r pack).mp (by rw [h])
  have hr' : r' = (r.receivePack pack).2 := by rw [h]
  rw [KeepsPackets, SlotsApart, hr', receivePack_own_iff hok]
  refine and_congr_right fun _ => ?_
  constructor
  · exact fun hall n hge hlt hn hne => (receivePack_other_iff hok hn hne).mp (hall n hge hlt hn hne)
  · exact fun hall n hge hlt hn hne => (receivePack_other_iff hok hn hne).mpr (hall n hge hlt hn hne)

theorem receive_keepsPackets_second :
    ∃ r r' : UNetReceiver .default, r.Stored 1 ∧ r.rnum ≤ 1 ∧ 1 < r.wnum ∧
      r.KeepsPackets r' (ValidMessage.single 2 6 8).msg := by
  obtain ⟨r, hrnum, hwnum, hstored, hd⟩ : ∃ r : UNetReceiver .default,
      r.rnum = 1 ∧ r.wnum = 2 ∧ r.Stored 1 ∧ ¬ r.Disagree 2 := by
    refine ⟨((UNetReceiver.new false .default .default 0).receivePack
      (ValidMessage.single 1 5 7).msg).2, ?_, ?_, ⟨?_, ?_⟩, ?_⟩ <;> decide +kernel
  have happart : r.SlotsApart 2 := by
    refine ⟨.inr (.inl ⟨hwnum.symm, hd⟩), fun n hge hlt _ hne => ?_⟩
    rw [hrnum] at hge
    rw [hwnum] at hlt
    obtain rfl : n = 1 := by grind
    rw [hwnum]
    decide +kernel
  have hreceive := receiveMessage_of_isOk (r := r) (ValidMessage.ntoh_single 2 6 8) rfl
  exact ⟨r, _, hstored, hrnum.le, by rw [hwnum]; decide,
    (receive_keepsPackets_iff (ValidMessage.ntoh_single 2 6 8) hreceive).mpr happart⟩

/-- The first packet has the number 101: its slot is the slot it was read to, which is freed
after the move. -/
theorem receive_destroys_packet :
    ¬ ∀ (s : Session .default) (msg pack : UDPMessage) (r' : UNetReceiver .default),
      Session.Run (fun _ (_ : UNetUDP.Event false) => True) s → msg.ntoh false = some pack →
      s.rcv.receiveMessage false msg = some (.retOK, r') → s.rcv.rnum ≤ pack.header.num →
      s.rcv.KeepsPackets r' pack := by
  intro hall
  let s : Session .default := .new false .default .default 0 .initial
  let m := ValidMessage.single 101 5 7
  have hrun : Session.Run (fun _ (_ : UNetUDP.Event false) => True) s :=
    ⟨.default, 0, .initial, .refl s⟩
  have hkeep := (hall s m.msg m.msg _ hrun (ValidMessage.ntoh_single 101 5 7)
    (receiveMessage_of_isOk (ValidMessage.ntoh_single 101 5 7) rfl) (by decide +kernel)).1
  have hfreed : ((s.rcv.receivePack m.msg).2.cbuf (BufferSize.slot .default 101)).header.num = 0 := by
    decide +kernel
  have hnum : m.msg.header.num = 0 :=
    (congrArg (fun p : UDPMessage => p.header.num) hkeep).symm.trans hfreed
  exact absurd hnum (by decide)

end UNetReceiver

end Uniset.UNetUDP
