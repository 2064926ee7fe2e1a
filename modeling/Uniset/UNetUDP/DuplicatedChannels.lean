import Uniset.UNetUDP.CrcShortcut
import Uniset.UNetUDP.Session

/-! Two channels of a node write the same SharedMemory in turns.  A run that compares the crc is
set against the run of the same events with `ignoreCRC`. -/

namespace Uniset.UNetUDP

open Uniset.Lib

namespace UNetReceiver

variable {b : BufferSize} {r r' : UNetReceiver b} {sm : SharedMemory}

/-- The receiver that does not look at the crc, with caches of its own. -/
def plain (dmap amap : CacheMap) (r : UNetReceiver b) : UNetReceiver b :=
  { r with ignoreCRC := true, d_icache_map := dmap, a_icache_map := amap }

theorem receivePack_plain (dmap amap : CacheMap) (r : UNetReceiver b) (pack : UDPMessage) :
    ((r.plain dmap amap).receivePack pack).2 = (r.receivePack pack).2.plain dmap amap := by
  cases hok : pack.isOk with
  | false => rw [receivePack_of_bad hok, receivePack_of_bad hok]; rfl
  | true =>
    by_cases hd : r.Disagree pack.header.num
    · have hd' : (r.plain dmap amap).Disagree pack.header.num := hd
      rw [receivePack_of_disagree hok hd, receivePack_of_disagree hok hd']; rfl
    · have hd' : ¬ (r.plain dmap amap).Disagree pack.header.num := hd
      by_cases hnum : pack.header.num = r.wnum
      · rw [receivePack_of_expected hok hd hnum, receivePack_of_expected hok hd' hnum]; rfl
      · rw [receivePack_of_unexpected hok hd hnum, receivePack_of_unexpected hok hd' hnum]; rfl

/-- A packet is due and is going to be processed. -/
def Due (r : UNetReceiver b) (p : UDPMessage) : Prop :=
  p = r.cbuf (b.slot r.rnum) ∧ p.header.num = r.rnum ∧ r.lockUpdate = false ∧
    r.mode ≠ .mDisabled

/-- The turns of the two receivers, side by side. -/
theorem turn_plain {now : Nat} {dmap amap : CacheMap} {t t' : Turn b}
    (h : r.turn now sm = some t) (h' : (r.plain dmap amap).turn now sm = some t') :
    (t = .wait ∧ t' = .wait) ∨
    (∃ r₁, t = .again r₁ sm none ∧ t' = .again (r₁.plain dmap amap) sm none ∧
      r₁.cbuf = r.cbuf) ∨
    (∃ r₁ sm₁ dmap' amap' sm₁' p, t = .again r₁ sm₁ (some p) ∧
      t' = .again (r₁.plain dmap' amap') sm₁' (some p) ∧ r₁.cbuf = r.cbuf ∧ r.Due p ∧
      sm₁ = r.kindEffect p .analog (r.kindEffect p .digital sm) ∧
      sm₁' = (sm.writeAll (p.items .digital)).writeAll (p.items .analog)) := by
  by_cases hnum : (r.cbuf (b.slot r.rnum)).header.num = r.rnum
  · by_cases hoff : r.lockUpdate = true ∨ r.mode = .mDisabled
    · rw [turn_of_off hnum hoff] at h
      rw [turn_of_off (r := r.plain dmap amap) hnum hoff] at h'
      cases h
      cases h'
      exact .inr (.inl ⟨_, rfl, rfl, rfl⟩)
    · rw [turn_of_on hnum hoff, Option.map_eq_some_iff] at h
      rw [turn_of_on (r := r.plain dmap amap) hnum hoff, Option.map_eq_some_iff] at h'
      obtain ⟨⟨r₁, sm₁⟩, happly, rfl⟩ := h
      obtain ⟨⟨r₂, sm₂⟩, happly', rfl⟩ := h'
      obtain ⟨dmap₁, amap₁, rfl⟩ := applyPacket_frame happly
      obtain ⟨dmap₂, amap₂, rfl⟩ := applyPacket_frame happly'
      rw [not_or] at hoff
      have heffect : sm₁ = (r.advance now).kindEffect (r.cbuf (b.slot r.rnum)) .analog
          ((r.advance now).kindEffect (r.cbuf (b.slot r.rnum)) .digital sm) :=
        applyPacket_sm happly
      have heffect' := applyPacket_sm happly'
      rw [kindEffect_of_ignoreCRC rfl, kindEffect_of_ignoreCRC rfl] at heffect'
      exact .inr (.inr ⟨_, sm₁, dmap₂, amap₂, sm₂, _, rfl, rfl, rfl,
        ⟨rfl, hnum, Bool.eq_false_of_not_eq_true hoff.1, hoff.2⟩, heffect, heffect'⟩)
  · cases htime : r.ptLostTimeout.checkTime now with
    | true =>
      rw [turn_of_hole hnum htime] at h
      rw [turn_of_hole (r := r.plain dmap amap) hnum htime] at h'
      cases h
      cases h'
      have hrnext : (r.plain dmap amap).rnext (r.plain dmap amap).rnum = r.rnext r.rnum :=
        @rnext_congr b r (r.plain dmap amap) rfl rfl r.rnum
      refine .inr (.inl ⟨_, rfl, ?_, rfl⟩)
      rw [hrnext]
      rfl
    | false =>
      rw [turn_of_waiting hnum htime] at h
      rw [turn_of_waiting (r := r.plain dmap amap) hnum htime] at h'
      cases h
      cases h'
      exact .inl ⟨rfl, rfl⟩

end UNetReceiver

/-! ### The packets of a sender -/

/-- What is assumed of the packets a sender sends on both channels: different data has different
crc, and each sensor belongs to one kind of data of one type of packet. -/
structure Consistent (P : UDPMessage → Prop) : Prop where
  sameCrc : ∀ p q, P p → P q → ∀ k, p.crc k = q.crc k → p.crc k ≠ 0 → p.items k = q.items k
  kinds : ∀ p q, P p → P q → DisjointWrites (p.items .digital) (q.items .analog)
  types : ∀ p q, P p → P q → p.getDataID ≠ q.getDataID → ∀ k,
    DisjointWrites (p.items k) (q.items k)

/-- What a slot holds: a packet, its number perhaps lost, or nothing yet. -/
def Known (P : UDPMessage → Prop) (p : UDPMessage) : Prop :=
  (∃ q, P q ∧ (∀ k, p.items k = q.items k ∧ p.crc k = q.crc k) ∧
    (p.getDataID = q.getDataID ∨ ∀ k, p.items k = [])) ∨
  ∀ k, p.items k = [] ∧ p.crc k = 0

variable {P : UDPMessage → Prop}

theorem Known.of_mem {p : UDPMessage} (h : P p) : Known P p :=
  .inl ⟨p, h, fun _ => ⟨rfl, rfl⟩, .inl rfl⟩

theorem known_new (host : Bool) : Known P (.new host) :=
  .inr fun k => ⟨UDPMessage.new_items host k, UDPMessage.new_crc host k⟩

theorem Known.setNum {p : UDPMessage} (h : P p) (n : UInt64) : Known P (p.setNum n) := by
  refine .inl ⟨p, h, fun k => ⟨p.setNum_items n k, p.setNum_crc n k⟩, ?_⟩
  refine (p.setNum_getDataID n).imp_right fun hempty k => ?_
  rw [p.setNum_items n k, hempty k]

theorem disjointWrites_nil_left (l : List (ObjectId × Int32)) : DisjointWrites [] l :=
  fun _ h => by cases h

theorem Consistent.known (hP : Consistent P) : Consistent (Known P) where
  sameCrc p q hp hq k hcrc hne := by
    rcases hp with ⟨p', hp', hp, -⟩ | hp
    · rcases hq with ⟨q', hq', hq, -⟩ | hq
      · rw [(hp k).1, (hq k).1]
        rw [(hp k).2, (hq k).2] at hcrc
        rw [(hp k).2] at hne
        exact hP.sameCrc p' q' hp' hq' k hcrc hne
      · exact absurd (hcrc.trans (hq k).2) hne
    · exact absurd (hp k).2 hne
  kinds p q hp hq := by
    rcases hp with ⟨p', hp', hp, -⟩ | hp
    · rcases hq with ⟨q', hq', hq, -⟩ | hq
      · rw [(hp .digital).1, (hq .analog).1]
        exact hP.kinds p' q' hp' hq'
      · rw [(hq .analog).1]
        exact (disjointWrites_nil_left _).symm
    · rw [(hp .digital).1]
      exact disjointWrites_nil_left _
  types p q hp hq hne k := by
    rcases hp with ⟨p', hp', hp, hpid⟩ | hp
    · rcases hq with ⟨q', hq', hq, hqid⟩ | hq
      · rcases hpid with hpid | hpid
        · rcases hqid with hqid | hqid
          · rw [(hp k).1, (hq k).1]
            exact hP.types p' q' hp' hq' (by rwa [← hpid, ← hqid]) k
          · rw [hqid k]
            exact (disjointWrites_nil_left _).symm
        · rw [hpid k]
          exact disjointWrites_nil_left _
      · rw [(hq k).1]
        exact (disjointWrites_nil_left _).symm
    · rw [(hp k).1]
      exact disjointWrites_nil_left _

theorem Consistent.disjoint (hP : Consistent P) {p q : UDPMessage} (hp : P p) (hq : P q)
    (hne : p.getDataID ≠ q.getDataID) (k k' : Kind) :
    DisjointWrites (p.items k) (q.items k') := by
  cases k with
  | digital =>
    cases k' with
    | digital => exact hP.types p q hp hq hne .digital
    | analog => exact hP.kinds p q hp hq
  | analog =>
    cases k' with
    | digital => exact (hP.kinds q p hq hp).symm
    | analog => exact hP.types p q hp hq hne .analog

/-! ### Two receivers and their memory -/

structure Channels (b : BufferSize) where
  /-- the receivers of the first (`false`) and the second channel -/
  rcv : Bool → UNetReceiver b
  sm : SharedMemory
  /-- the last packet of each type that an unlocked receiver processed -/
  last : Int → Option UDPMessage

inductive ChannelEvent (HostIsBigEndian : Bool)
  | receive (ch : Bool) (m : ValidMessage HostIsBigEndian)
  /-- one turn of the loop of `update` -/
  | turn (ch : Bool) (now : Nat)
  /-- the switch `receiverEvent` makes -/
  | switchTo (ch : Bool)

namespace Channels

variable {b : BufferSize} {HostIsBigEndian : Bool}

def new (HostIsBigEndian : Bool) (b : BufferSize) (conf : ReceiverConf) (now : Nat)
    (sm : SharedMemory) : Channels b where
  rcv := fun ch => .new HostIsBigEndian b { conf with lockUpdate := ch } now
  sm := sm
  last := fun _ => none

def setReceiver (s : Channels b) (ch : Bool) (r : UNetReceiver b) : Channels b :=
  { s with rcv := Function.update s.rcv ch r }

def afterTurn (s : Channels b) (ch : Bool) : Turn b → Channels b
  | .wait => s
  | .again r sm applied =>
    { rcv := Function.update s.rcv ch r
      sm
      last := match applied with
        | none => s.last
        | some p => Function.update s.last p.getDataID (some p) }

/-- Whether `update` of the receiver makes a turn at all. -/
def Turns (r : UNetReceiver b) : Prop := ¬ (r.wnum = 1 ∧ r.rnum = 0) ∧ r.rnum < r.wnum

instance (r : UNetReceiver b) : Decidable (Turns r) := inferInstanceAs (Decidable (_ ∧ _))

def step (s : Channels b) : ChannelEvent HostIsBigEndian → Option (Channels b)
  | .receive ch m => (m.msg.ntoh HostIsBigEndian).map fun pack =>
      s.setReceiver ch ((s.rcv ch).receivePack pack).2
  | .turn ch now =>
    if Turns (s.rcv ch) then ((s.rcv ch).turn now s.sm).map (s.afterTurn ch) else some s
  | .switchTo ch => some { s with rcv := fun c => (s.rcv c).setLockUpdate (c != ch) }

def OfTurns (HostIsBigEndian : Bool) (ch : Bool) (_ : Channels b)
    (e : ChannelEvent HostIsBigEndian) : Prop := ∃ now, e = .turn ch now

/-- A whole `update` of a receiver is a run of its turns. -/
theorem update_reaches {s : Channels b} {ch : Bool} {clock : Nat → Nat} {r' : UNetReceiver b}
    {sm' : SharedMemory} {ps : List UDPMessage}
    (h : (s.rcv ch).update clock s.sm = some (r', sm', ps)) :
    ∃ t, Reaches step (OfTurns HostIsBigEndian ch) s t ∧
      t.rcv = Function.update s.rcv ch r' ∧ t.sm = sm' := by
  by_cases hnone : (s.rcv ch).wnum = 1 ∧ (s.rcv ch).rnum = 0
  · rw [UNetReceiver.update, if_pos hnone] at h
    cases h
    exact ⟨s, .refl s, (Function.update_eq_self ch s.rcv).symm, rfl⟩
  · have hrun := UNetReceiver.update_rule (I := fun _ r sm _ => ¬ (r.wnum = 1 ∧ r.rnum = 0) ∧
      ∃ t, Reaches step (OfTurns HostIsBigEndian ch) s t ∧
        t.rcv = Function.update s.rcv ch r ∧ t.sm = sm) ?_
      ⟨hnone, s, .refl s, (Function.update_eq_self ch s.rcv).symm, rfl⟩ h
    · obtain ⟨-, -, hrun⟩ := hrun
      exact hrun
    · rintro k r r₁ sm sm₁ applied qs ⟨hsome, t, ht, hrcv, rfl⟩ hlt hturn
      have hr : t.rcv ch = r := by rw [hrcv, Function.update_self]
      have hgt := (UNetReceiver.turn_rnum hlt hturn).1
      refine ⟨fun hzero => ?_, t.afterTurn ch (.again r₁ sm₁ applied), ?_, ?_, rfl⟩
      · rw [hzero.2] at hgt
        simp at hgt
      · refine ht.tail ⟨clock k, rfl⟩ ?_
        have hturns : Turns (t.rcv ch) := by rw [hr]; exact ⟨hsome, hlt⟩
        rw [step, if_pos hturns, hr, hturn, Option.map_some]
      · simp only [afterTurn, hrcv, Function.update_idem]

/-! ### The run with the comparison beside the run without -/

/-- The same event in both runs. -/
def twinStep (t : Channels b × Channels b) (e : ChannelEvent HostIsBigEndian) :
    Option (Channels b × Channels b) :=
  (t.1.step e).bind fun s => (t.2.step e).map fun s' => (s, s')

/-- Packets come from the sender. -/
def FromSender (HostIsBigEndian : Bool) (P : UDPMessage → Prop) (_ : Channels b × Channels b) :
    ChannelEvent HostIsBigEndian → Prop
  | .receive _ m => ∀ pack, m.msg.ntoh HostIsBigEndian = some pack → P pack
  | .turn _ _ => True
  | .switchTo _ => True

/-- Data is passed over only when the last packet of its type that either receiver processed had
the same crc. -/
def NoStaleCrc (s : Channels b) (ch : Bool) : Prop :=
  ∀ p, Turns (s.rcv ch) → (s.rcv ch).Due p → ∀ k, (s.rcv ch).PassesOver p k →
    ∃ q, s.last p.getDataID = some q ∧ q.crc k = p.crc k

/-- The packet that is due is the only one. -/
theorem noStaleCrc_iff {s : Channels b} {ch : Bool} : s.NoStaleCrc ch ↔
    let r := s.rcv ch
    let p := r.cbuf (b.slot r.rnum)
    Turns r → p.header.num = r.rnum → r.lockUpdate = false → r.mode ≠ .mDisabled →
      ∀ k ∈ [.digital, .analog], r.PassesOver p k →
        (s.last p.getDataID).map (fun q => q.crc k) = some (p.crc k) := by
  constructor
  · intro h r p hturns hnum hlock hmode k _ hpass
    exact Option.map_eq_some_iff.mpr (h p hturns ⟨rfl, hnum, hlock, hmode⟩ k hpass)
  · rintro h p hturns ⟨rfl, hnum, hlock, hmode⟩ k hpass
    exact Option.map_eq_some_iff.mp (h hturns hnum hlock hmode k (by cases k <;> simp) hpass)

instance (s : Channels b) (ch : Bool) : Decidable (s.NoStaleCrc ch) :=
  decidable_of_iff' _ noStaleCrc_iff

/-- A turn passes over fresh data only. -/
def TurnFresh (HostIsBigEndian : Bool) (t : Channels b × Channels b) :
    ChannelEvent HostIsBigEndian → Prop
  | .receive _ _ => True
  | .turn ch _ => t.1.NoStaleCrc ch
  | .switchTo _ => True

instance (t : Channels b × Channels b) (e : ChannelEvent HostIsBigEndian) :
    Decidable (TurnFresh HostIsBigEndian t e) := by
  cases e <;> unfold TurnFresh <;> infer_instance

def CrcFresh (HostIsBigEndian : Bool) (P : UDPMessage → Prop) (t : Channels b × Channels b)
    (e : ChannelEvent HostIsBigEndian) : Prop :=
  FromSender HostIsBigEndian P t e ∧ TurnFresh HostIsBigEndian t e

/-- The last packet of each type stands in the memory, as it came from the sender. -/
def LastHolds (P : UDPMessage → Prop) (sm : SharedMemory) (last : Int → Option UDPMessage) : Prop :=
  ∀ d p, last d = some p → Known P p ∧ p.getDataID = d ∧ ∀ k, sm.Holds (p.items k)

structure TwinInv (P : UDPMessage → Prop) (t : Channels b × Channels b) : Prop where
  sim : ∀ ch, ∃ dmap amap, t.2.rcv ch = (t.1.rcv ch).plain dmap amap
  sm : t.2.sm = t.1.sm
  slots : ∀ ch j, Known P ((t.1.rcv ch).cbuf j)
  last : LastHolds P t.1.sm t.1.last

theorem twinInv_new (HostIsBigEndian : Bool) (b : BufferSize) (conf : ReceiverConf) (now : Nat)
    (sm : SharedMemory) :
    TwinInv P (new HostIsBigEndian b conf now sm,
      new HostIsBigEndian b { conf with ignoreCRC := true } now sm) where
  sim _ := ⟨fun _ => none, fun _ => none, rfl⟩
  sm := rfl
  slots _ _ := known_new HostIsBigEndian
  last _ _ h := by cases h

variable {s : Channels b} {sm : SharedMemory} {p : UDPMessage}

/-- What passing over leaves out stands in the memory already. -/
theorem packet_effect (hP : Consistent P) {r : UNetReceiver b} {last : Int → Option UDPMessage}
    (hlast : LastHolds P sm last) (hp : Known P p)
    (hfresh : ∀ k, r.PassesOver p k → ∃ q, last p.getDataID = some q ∧ q.crc k = p.crc k) :
    r.kindEffect p .analog (r.kindEffect p .digital sm) =
      (sm.writeAll (p.items .digital)).writeAll (p.items .analog) := by
  have hholds : ∀ k, r.PassesOver p k → sm.Holds (p.items k) := by
    intro k hpass
    obtain ⟨q, hq, hcrc⟩ := hfresh k hpass
    obtain ⟨hknown, -, hold⟩ := hlast _ q hq
    have hzero : q.crc k ≠ 0 := by rw [hcrc]; exact hpass.2.1
    rw [← hP.known.sameCrc q p hknown hp k hcrc hzero]
    exact hold k
  rw [UNetReceiver.kindEffect_of_holds (hholds .digital)]
  refine UNetReceiver.kindEffect_of_holds fun hpass => ?_
  exact (hholds .analog hpass).writeAll (hP.known.kinds p p hp hp).symm

theorem lastHolds_packet (hP : Consistent P) {last : Int → Option UDPMessage}
    (hlast : LastHolds P sm last) (hp : Known P p) :
    LastHolds P ((sm.writeAll (p.items .digital)).writeAll (p.items .analog))
      (Function.update last p.getDataID (some p)) := by
  intro d q hq
  by_cases hd : d = p.getDataID
  · subst hd
    rw [Function.update_self] at hq
    cases hq
    refine ⟨hp, rfl, fun k => ?_⟩
    cases k with
    | digital => exact (SharedMemory.holds_writeAll _ _).writeAll (hP.known.kinds p p hp hp)
    | analog => exact SharedMemory.holds_writeAll _ _
  · rw [Function.update_of_ne hd] at hq
    obtain ⟨hknown, hid, hold⟩ := hlast d q hq
    have hne : q.getDataID ≠ p.getDataID := by rw [hid]; exact hd
    have hdisj := hP.known.disjoint hknown hp hne
    exact ⟨hknown, hid, fun k => ((hold k).writeAll (hdisj k .digital)).writeAll (hdisj k .analog)⟩

variable {t t' : Channels b × Channels b}

theorem twinInv_receive {ch : Bool} {pack : UDPMessage} (hpack : P pack) (hI : TwinInv P t) :
    TwinInv P (t.1.setReceiver ch ((t.1.rcv ch).receivePack pack).2,
      t.2.setReceiver ch ((t.2.rcv ch).receivePack pack).2) := by
  refine ⟨fun c => ?_, hI.sm, fun c j => ?_, hI.last⟩
  · by_cases hc : c = ch
    · subst hc
      obtain ⟨dmap, amap, heq⟩ := hI.sim c
      refine ⟨dmap, amap, ?_⟩
      simp only [setReceiver, Function.update_self]
      rw [heq, UNetReceiver.receivePack_plain]
    · simp only [setReceiver, Function.update_of_ne hc]
      exact hI.sim c
  · by_cases hc : c = ch
    · subst hc
      simp only [setReceiver, Function.update_self]
      rcases (t.1.rcv c).receivePack_slot pack j with h | h | h
      · rw [h]
        exact hI.slots c j
      · rw [h]
        exact .of_mem hpack
      · rw [h]
        exact .setNum hpack 0
    · simp only [setReceiver, Function.update_of_ne hc]
      exact hI.slots c j

theorem twinInv_afterTurn (hP : Consistent P) {ch : Bool} {now : Nat} {u u' : Turn b}
    (hI : TwinInv P t) (hturns : Turns (t.1.rcv ch))
    (hG : t.1.NoStaleCrc ch)
    (hu : (t.1.rcv ch).turn now t.1.sm = some u) (hu' : (t.2.rcv ch).turn now t.2.sm = some u') :
    TwinInv P (t.1.afterTurn ch u, t.2.afterTurn ch u') := by
  obtain ⟨dmap, amap, heq⟩ := hI.sim ch
  rw [heq, hI.sm] at hu'
  -- both receivers go on with the same buffer
  have hsim : ∀ (r₁ : UNetReceiver b) (dmap amap : CacheMap) (c : Bool),
      ∃ dmap' amap', Function.update t.2.rcv ch (r₁.plain dmap amap) c =
        (Function.update t.1.rcv ch r₁ c).plain dmap' amap' := by
    intro r₁ dmap amap c
    by_cases hc : c = ch
    · subst hc
      exact ⟨dmap, amap, by rw [Function.update_self, Function.update_self]⟩
    · rw [Function.update_of_ne hc, Function.update_of_ne hc]
      exact hI.sim c
  have hslots : ∀ r₁ : UNetReceiver b, r₁.cbuf = (t.1.rcv ch).cbuf → ∀ c j,
      Known P ((Function.update t.1.rcv ch r₁ c).cbuf j) := by
    intro r₁ hcbuf c j
    by_cases hc : c = ch
    · subst hc
      rw [Function.update_self, hcbuf]
      exact hI.slots c j
    · rw [Function.update_of_ne hc]
      exact hI.slots c j
  rcases UNetReceiver.turn_plain hu hu' with ⟨rfl, rfl⟩ | ⟨r₁, rfl, rfl, hcbuf⟩ |
    ⟨r₁, sm₁, dmap', amap', sm₁', p, rfl, rfl, hcbuf, hdue, rfl, rfl⟩
  · exact hI
  · exact ⟨hsim r₁ dmap amap, rfl, hslots r₁ hcbuf, hI.last⟩
  · have hp : Known P p := by
      rw [hdue.1]
      exact hI.slots ch _
    have heffect := packet_effect hP hI.last hp (hG p hturns hdue)
    refine ⟨hsim r₁ dmap' amap', heffect.symm, hslots r₁ hcbuf, ?_⟩
    simp only [afterTurn, heffect]
    exact lastHolds_packet hP hI.last hp

theorem twinInv_step (hP : Consistent P) {e : ChannelEvent HostIsBigEndian} (hI : TwinInv P t)
    (hG : CrcFresh HostIsBigEndian P t e) (h : twinStep t e = some t') : TwinInv P t' := by
  simp only [twinStep, Option.bind_eq_some_iff, Option.map_eq_some_iff] at h
  obtain ⟨s, hs, s', hs', rfl⟩ := h
  cases e with
  | receive ch m =>
    simp only [step, Option.map_eq_some_iff] at hs hs'
    obtain ⟨pack, hpack, rfl⟩ := hs
    obtain ⟨pack', hpack', rfl⟩ := hs'
    rw [hpack] at hpack'
    cases hpack'
    exact twinInv_receive (hG.1 pack hpack) hI
  | turn ch now =>
    have hturns : Turns (t.2.rcv ch) ↔ Turns (t.1.rcv ch) := by
      obtain ⟨dmap, amap, heq⟩ := hI.sim ch
      rw [heq]
      exact Iff.rfl
    by_cases hon : Turns (t.1.rcv ch)
    · rw [step, if_pos hon, Option.map_eq_some_iff] at hs
      rw [step, if_pos (hturns.mpr hon), Option.map_eq_some_iff] at hs'
      obtain ⟨u, hu, rfl⟩ := hs
      obtain ⟨u', hu', rfl⟩ := hs'
      exact twinInv_afterTurn hP hI hon hG.2 hu hu'
    · rw [step, if_neg hon] at hs
      rw [step, if_neg (fun h => hon (hturns.mp h))] at hs'
      cases hs
      cases hs'
      exact hI
  | switchTo ch =>
    cases hs
    cases hs'
    refine ⟨fun c => ?_, hI.sm, hI.slots, hI.last⟩
    obtain ⟨dmap, amap, heq⟩ := hI.sim c
    exact ⟨dmap, amap, by simp only [heq]; rfl⟩

/-- The comparison of the crc changes nothing in SharedMemory, which holds the last packet of every
type, as long as no receiver relies on a crc from before a packet of the other one. -/
theorem crc_shortcut_agrees (hP : Consistent P) {conf : ReceiverConf} {now : Nat}
    (h : Reaches twinStep (CrcFresh HostIsBigEndian P)
      (new HostIsBigEndian b conf now sm,
        new HostIsBigEndian b { conf with ignoreCRC := true } now sm) t) :
    t.1.sm = t.2.sm ∧ ∀ d p, t.1.last d = some p → ∀ k, t.1.sm.Holds (p.items k) := by
  have hI := h.invariant (fun hI hG hs => twinInv_step hP hI hG hs)
    (twinInv_new HostIsBigEndian b conf now sm)
  exact ⟨hI.sm.symm, fun d p hp => (hI.last d p hp).2.2⟩

/-- Packets with one of two values of the sensor 1, the crc 7 or 8. -/
def TwoValues (p : UDPMessage) : Prop :=
  ∃ num, p = (ValidMessage.single num 5 7).msg ∨ p = (ValidMessage.single num 6 8).msg

theorem single_items (num : UInt64) (val : Int64) (acrc : UInt16) (k : Kind) :
    (ValidMessage.single num val acrc).msg.items k =
      match k with
      | .digital => []
      | .analog => [(1, val.toInt32)] := by
  cases k <;> rfl

theorem single_crc (num : UInt64) (val : Int64) (acrc : UInt16) (k : Kind) :
    (ValidMessage.single num val acrc).msg.crc k =
      match k with
      | .digital => 0
      | .analog => acrc := by
  cases k <;> rfl

theorem single_getDataID (num : UInt64) (val : Int64) (acrc : UInt16) :
    (ValidMessage.single num val acrc).msg.getDataID = 1 := rfl

theorem consistent_twoValues : Consistent TwoValues where
  sameCrc p q hp hq k hcrc hne := by
    cases k with
    | digital =>
      obtain ⟨m, rfl | rfl⟩ := hp <;> simp [single_crc] at hne
    | analog =>
      obtain ⟨m, rfl | rfl⟩ := hp <;> obtain ⟨n, rfl | rfl⟩ := hq <;>
        simp [single_crc, single_items] at hcrc ⊢
  kinds p q hp hq := by
    obtain ⟨m, rfl | rfl⟩ := hp <;> exact disjointWrites_nil_left _
  types p q hp hq hne := by
    obtain ⟨m, rfl | rfl⟩ := hp <;> obtain ⟨n, rfl | rfl⟩ := hq <;>
      simp [single_getDataID] at hne

theorem fromSender_twoValues {es : List (ChannelEvent false)}
    (h : ∀ ch m, .receive ch m ∈ es → TwoValues m.msg ∧ m.msg.ntoh false = some m.msg) :
    ∀ e ∈ es, ∀ t : Channels b × Channels b, FromSender false TwoValues t e := by
  intro e he t
  cases e with
  | receive ch m =>
    intro pack hpack
    obtain ⟨hm, hntoh⟩ := h ch m he
    rw [hntoh] at hpack
    cases hpack
    exact hm
  | turn ch now => trivial
  | switchTo ch => trivial

/-- The same data comes twice and is passed over the second time.  After the switch the other
channel goes on with new data. -/
def twice : List (ChannelEvent false) :=
  [.receive false (.single 1 5 7), .turn false 0, .receive true (.single 1 5 7), .turn true 0,
    .receive false (.single 2 5 7), .turn false 0, .switchTo true,
    .receive true (.single 2 6 8), .turn true 0]

theorem crc_shortcut_agrees_twice :
    ∃ t : Channels .default × Channels .default, t.1.sm.value 1 = 6 ∧ t.1.sm = t.2.sm := by
  let t₀ : Channels .default × Channels .default :=
    (new false .default .default 0 .initial,
      new false .default { ReceiverConf.default with ignoreCRC := true } 0 .initial)
  obtain ⟨t, ht, hvalue⟩ : ∃ t, twice.foldlM (checkedStep twinStep (TurnFresh false)) t₀ = some t ∧
      t.1.sm.value 1 = 6 :=
    ⟨(twice.foldlM (checkedStep twinStep (TurnFresh false)) t₀).get (by decide +kernel), by simp,
      by decide +kernel⟩
  have hsender : ∀ e ∈ twice, ∀ t : Channels .default × Channels .default,
      FromSender false TwoValues t e := by
    refine fromSender_twoValues fun ch m hm => ?_
    simp only [twice, List.mem_cons, ChannelEvent.receive.injEq, List.not_mem_nil, reduceCtorEq,
      or_false, false_or] at hm
    rcases hm with ⟨-, rfl⟩ | ⟨-, rfl⟩ | ⟨-, rfl⟩ | ⟨-, rfl⟩
    · exact ⟨⟨1, .inl rfl⟩, ValidMessage.ntoh_single _ _ _⟩
    · exact ⟨⟨1, .inl rfl⟩, ValidMessage.ntoh_single _ _ _⟩
    · exact ⟨⟨2, .inl rfl⟩, ValidMessage.ntoh_single _ _ _⟩
    · exact ⟨⟨2, .inr rfl⟩, ValidMessage.ntoh_single _ _ _⟩
  have hrun : Reaches twinStep (CrcFresh false TwoValues) t₀ t :=
    .of_checked_imp (fun e he t hfresh => ⟨hsender e he t, hfresh⟩) ht
  exact ⟨t, hvalue, (crc_shortcut_agrees consistent_twoValues hrun).1⟩

/-- The first channel applies 5, the second one 6, and the first one passes over the 5 that
comes next: it remembers having applied it. -/
theorem crc_shortcut_differs :
    ¬ ∀ (P : UDPMessage → Prop) (t : Channels .default × Channels .default), Consistent P →
      Reaches twinStep (FromSender false P)
        (new false .default .default 0 .initial,
          new false .default { ReceiverConf.default with ignoreCRC := true } 0 .initial) t →
      t.1.sm = t.2.sm := by
  intro hall
  let t₀ : Channels .default × Channels .default :=
    (new false .default .default 0 .initial,
      new false .default { ReceiverConf.default with ignoreCRC := true } 0 .initial)
  let es : List (ChannelEvent false) :=
    [.receive false (.single 1 5 7), .turn false 0, .receive true (.single 1 5 7), .turn true 0,
      .switchTo true,
      .receive false (.single 2 6 8), .turn false 0, .receive true (.single 2 6 8), .turn true 0,
      .switchTo false,
      .receive false (.single 3 5 7), .turn false 0]
  obtain ⟨t, ht, hvalue, hplain⟩ : ∃ t, es.foldlM twinStep t₀ = some t ∧
      t.1.sm.value 1 = 6 ∧ t.2.sm.value 1 = 5 :=
    ⟨(es.foldlM twinStep t₀).get (by decide +kernel), by simp, by decide +kernel,
      by decide +kernel⟩
  have hG : ∀ e ∈ es, ∀ t : Channels .default × Channels .default,
      FromSender false TwoValues t e := by
    refine fromSender_twoValues fun ch m hm => ?_
    simp only [es, List.mem_cons, ChannelEvent.receive.injEq, List.not_mem_nil, reduceCtorEq,
      or_false, false_or] at hm
    rcases hm with ⟨-, rfl⟩ | ⟨-, rfl⟩ | ⟨-, rfl⟩ | ⟨-, rfl⟩ | ⟨-, rfl⟩
    · exact ⟨⟨1, .inl rfl⟩, ValidMessage.ntoh_single _ _ _⟩
    · exact ⟨⟨1, .inl rfl⟩, ValidMessage.ntoh_single _ _ _⟩
    · exact ⟨⟨2, .inr rfl⟩, ValidMessage.ntoh_single _ _ _⟩
    · exact ⟨⟨2, .inr rfl⟩, ValidMessage.ntoh_single _ _ _⟩
    · exact ⟨⟨3, .inl rfl⟩, ValidMessage.ntoh_single _ _ _⟩
  have hsame := hall TwoValues t consistent_twoValues (.of_foldlM hG ht)
  rw [hsame, hplain] at hvalue
  exact absurd hvalue (by decide)

end Channels

end Uniset.UNetUDP
