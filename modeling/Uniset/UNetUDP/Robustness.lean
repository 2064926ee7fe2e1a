import Uniset.UNetUDP.MessageImage
import Uniset.UNetUDP.Session

/-! Arbitrary datagrams: when the receiver stays inside its arrays, and when a datagram that is
not accepted leaves it as it was. -/

namespace Uniset.UNetUDP

open Uniset.Lib

/-! ### Applying a packet whose counts fit -/

theorem mapM_isSome {α β : Type} {f : α → Option β} {l : List α}
    (h : ∀ a ∈ l, (f a).isSome = true) : ∃ l', l.mapM f = some l' ∧ l'.length = l.length := by
  induction l with
  | nil => exact ⟨[], rfl, rfl⟩
  | cons a l ih =>
    obtain ⟨a', ha⟩ := Option.isSome_iff_exists.mp (h a List.mem_cons_self)
    obtain ⟨l', hl, hlen⟩ := ih fun a ha => h a (List.mem_cons_of_mem _ ha)
    exact ⟨a' :: l', by simp [ha, hl], by simp [hlen]⟩

theorem cacheMap_get_isSome (c : CacheMap) (dID : Int) {count : Nat}
    {idAt : Nat → Option ObjectId} (h : ∀ i < count, (idAt i).isSome = true) :
    ∃ info, c.get dID count idAt = some info ∧ info.items.length = count := by
  unfold CacheMap.get
  by_cases hcount : count = ((c dID).getD ⟨0, []⟩).items.length
  · exact ⟨_, if_pos hcount, hcount.symm⟩
  · obtain ⟨items, hitems, hlen⟩ := mapM_isSome (l := List.range count) (f := idAt)
      fun i hi => h i (List.mem_range.mp hi)
    refine ⟨⟨0, items⟩, ?_, by simpa using hlen⟩
    simp only [if_neg hcount, hitems, Option.map_some]

theorem setItem_isSome {i : Nat} {st : CacheInfo × SharedMemory} (h : i < st.1.items.length)
    (sid : ObjectId) (val : Int32) :
    ∃ st', setItem i sid val st = some st' ∧ st'.1.items.length = st.1.items.length := by
  unfold setItem
  rw [dif_pos h]
  split <;> split <;> simp

theorem setItems_isSome {item : Nat → Option (ObjectId × Int32)} {n : Nat}
    (st : CacheInfo × SharedMemory) (hitem : ∀ i < n, (item i).isSome = true)
    (h : n ≤ st.1.items.length) :
    ∃ st', setItems item n st = some st' ∧ st'.1.items.length = st.1.items.length := by
  induction n with
  | zero => exact ⟨st, rfl, rfl⟩
  | succ n ih =>
    obtain ⟨st₁, hst₁, hlen₁⟩ := ih (fun i hi => hitem i (by omega)) (by omega)
    obtain ⟨⟨sid, val⟩, hval⟩ := Option.isSome_iff_exists.mp (hitem n (Nat.lt_succ_self n))
    obtain ⟨st₂, hst₂, hlen₂⟩ := setItem_isSome (by omega : n < st₁.1.items.length) sid val
    exact ⟨st₂, by simp [setItems, hst₁, hval, hst₂], hlen₂.trans hlen₁⟩

theorem applyItems_isSome {ignoreCRC : Bool} {c : CacheMap} {sm : SharedMemory} {dID : Int}
    {crc : UInt16} {count : Nat} {idAt : Nat → Option ObjectId}
    {item : Nat → Option (ObjectId × Int32)} (hid : ∀ i < count, (idAt i).isSome = true)
    (hitem : ∀ i < count, (item i).isSome = true) :
    (applyItems ignoreCRC c sm dID crc count idAt item).isSome = true := by
  obtain ⟨info, hinfo, hlen⟩ := cacheMap_get_isSome c dID hid
  obtain ⟨⟨info', sm'⟩, hset, -⟩ := setItems_isSome ({ info with crc }, sm) hitem hlen.ge
  simp only [applyItems, hinfo, Option.bind_eq_bind, Option.bind_some]
  split
  · simp [hset]
  · rfl

namespace UNetReceiver

variable {b : BufferSize} {HostIsBigEndian : Bool} {r r' : UNetReceiver b}

theorem applyPacket_isSome (r : UNetReceiver b) (sm : SharedMemory) {p : UDPMessage}
    (h : UDPMessage.CountsFit p.header) :
    ∃ out, r.applyPacket sm p = some out := by
  obtain ⟨ha, hd⟩ := h
  have hdigital : ∀ c sm, (applyDigital r.ignoreCRC c sm p).isSome = true := fun c sm =>
    applyItems_isSome
      (fun i hi => by simp [UDPMessage.dItemId, UDPMessage.dIdAt, hi.trans_le hd]) (fun _ _ => rfl)
  have hanalog : ∀ c sm, (applyAnalog r.ignoreCRC c sm p).isSome = true := fun c sm =>
    applyItems_isSome
      (fun i hi => by simp [UDPMessage.aItemId, UDPMessage.aDat, hi.trans_le ha])
      (fun i hi => by simp [UDPMessage.aItem, UDPMessage.aDat, hi.trans_le ha])
  obtain ⟨⟨dmap, sm₁⟩, h₁⟩ := Option.isSome_iff_exists.mp (hdigital r.d_icache_map sm)
  obtain ⟨⟨amap, sm₂⟩, h₂⟩ := Option.isSome_iff_exists.mp (hanalog r.a_icache_map sm₁)
  simp only [applyPacket, h₁, h₂, Option.bind_eq_bind, Option.bind_some]
  exact ⟨_, rfl⟩

/-! ### Updates -/

/-- `update` has not looked at the slot yet. -/
def Unprocessed (r : UNetReceiver b) (j : Fin b.val.toNat) : Prop :=
  ∃ n, r.rnum ≤ n ∧ n < r.wnum ∧ b.slot n = j

/-- All counts in the buffer fit the arrays.  What a refused datagram left in the slot of the
write position need not, if `update` is not going to look there. -/
structure SlotsFit (r : UNetReceiver b) : Prop where
  fits : ∀ j, j ≠ b.slot r.wnum → UDPMessage.CountsFit (r.cbuf j).header
  atWnum : UDPMessage.CountsFit (r.cbuf (b.slot r.wnum)).header ∨ ¬ r.Unprocessed (b.slot r.wnum)

theorem SlotsFit.of_unprocessed {j : Fin b.val.toNat} (hI : r.SlotsFit) (hj : r.Unprocessed j) :
    UDPMessage.CountsFit (r.cbuf j).header := by
  by_cases hw : j = b.slot r.wnum
  · subst hw
    exact hI.atWnum.resolve_right (not_not_intro hj)
  · exact hI.fits j hw

theorem SlotsFit.forward (hI : r.SlotsFit) (hcbuf : r'.cbuf = r.cbuf) (hwnum : r'.wnum = r.wnum)
    (hle : r.rnum ≤ r'.rnum) : r'.SlotsFit := by
  refine ⟨by rw [hcbuf, hwnum]; exact hI.fits, ?_⟩
  rw [hcbuf, hwnum]
  refine hI.atWnum.imp_right fun hnot => ?_
  rintro ⟨n, hge, hlt, hslot⟩
  rw [hwnum] at hlt
  exact hnot ⟨n, hle.trans hge, hlt, hslot⟩

theorem turn_isSome (now : Nat) (sm : SharedMemory) (hI : r.SlotsFit) (hlt : r.rnum < r.wnum) :
    ∃ t, r.turn now sm = some t := by
  have hfits := hI.of_unprocessed ⟨r.rnum, le_rfl, hlt, rfl⟩
  obtain ⟨out, hout⟩ := applyPacket_isSome (r.advance now) sm hfits
  by_cases hnum : (r.cbuf (b.slot r.rnum)).header.num = r.rnum
  · simp only [turn, hnum, ne_eq, not_true_eq_false, if_false, hout, Option.map_some]
    split_ifs <;> exact ⟨_, rfl⟩
  · simp only [turn, hnum, ne_eq, not_false_eq_true, if_true]
    split_ifs <;> exact ⟨_, rfl⟩

theorem update_isSome (hI : r.SlotsFit) (clock : Nat → Nat) (sm : SharedMemory) :
    ∃ out, r.update clock sm = some out := by
  unfold update
  split
  · exact ⟨_, rfl⟩
  · refine updateLoop_isSome (I := fun r _ => r.SlotsFit) (fun now r sm hI hlt => ?_) _ 0 hI
    obtain ⟨t, ht⟩ := turn_isSome now sm hI hlt
    refine ⟨t, ht, fun r' sm' applied h => ?_⟩
    subst h
    obtain ⟨hcbuf, hwnum, -⟩ := turn_frame ht
    exact hI.forward hcbuf hwnum (turn_rnum hlt ht).1.le

/-! ### Datagrams -/

/-- What stands in the slot of the write position after a datagram was read there. -/
def landed (HostIsBigEndian : Bool) (bytes : List UInt8) (r : UNetReceiver b) : UDPMessage :=
  (r.cbuf (b.slot r.wnum)).overlay HostIsBigEndian bytes

/-- The datagram is too short for a message, or has a wrong magic, or is no datagram at all. -/
def Refused (HostIsBigEndian : Bool) (r : UNetReceiver b) : Received → Prop
  | .failed => True
  | .datagram bytes =>
      bytes.length < UDPMessage.sizeof ∨ (r.landed HostIsBigEndian bytes).isOk = false

/-- The positions, the counter of lost packets and all unprocessed slots are as they were. -/
def Untouched (r r' : UNetReceiver b) : Prop :=
  r'.wnum = r.wnum ∧ r'.rnum = r.rnum ∧ r'.lostPackets = r.lostPackets ∧
    ∀ j, r.Unprocessed j → r'.cbuf j = r.cbuf j

/-- A number behind the write position, and far from everything that waits. -/
def Late (r : UNetReceiver b) (num : UInt64) : Prop :=
  ¬ r.Disagree num ∧ num < r.wnum ∧ ¬ r.Unprocessed (b.slot num) ∧
    ¬ r.Unprocessed (b.slot r.wnum)

/-- The counts fit as far as they are used; a wrong magic does not land in a slot that waits;
and a short datagram that passes for a message passes for one that comes too late. -/
def Harmless (HostIsBigEndian : Bool) (r : UNetReceiver b) : Received → Prop
  | .failed => True
  | .datagram bytes =>
      let msg := r.landed HostIsBigEndian bytes
      let header := msg.header.toHost HostIsBigEndian
      bytes ≠ [] →
        (msg.header.be_order ≠ HostIsBigEndian ∨ msg.isOk = true → UDPMessage.CountsFit header) ∧
        (msg.isOk = false → ¬ r.Unprocessed (b.slot r.wnum)) ∧
        (msg.isOk = true → bytes.length < UDPMessage.sizeof → r.Late header.num)

theorem slotsFit_new (HostIsBigEndian : Bool) (b : BufferSize) (conf : ReceiverConf) (now : Nat) :
    (UNetReceiver.new HostIsBigEndian b conf now).SlotsFit := by
  have hfits : UDPMessage.CountsFit (UDPMessage.new HostIsBigEndian).header := by
    constructor <;> simp [UDPMessage.new, UDPHeader.new]
  exact ⟨fun _ _ => hfits, .inl hfits⟩

variable {pack : UDPMessage}

/-- A refused message changes nothing but the slot it was read to. -/
theorem receivePack_untouched (h : pack.isOk = false) (hw : ¬ r.Unprocessed (b.slot r.wnum)) :
    r.Untouched (r.receivePack pack).2 := by
  rw [receivePack_of_bad h]
  refine ⟨rfl, rfl, rfl, fun j hj => Function.update_of_ne ?_ _ _⟩
  rintro rfl
  exact hw hj

theorem receivePack_late (hok : pack.isOk = true) (h : r.Late pack.header.num) :
    r.Untouched (r.receivePack pack).2 := by
  obtain ⟨hd, hlt, hnum, hw⟩ := h
  have hcbuf : ∀ j, r.Unprocessed j → (r.receivePack pack).2.cbuf j = r.cbuf j := by
    intro j hj
    refine receivePack_other ?_ ?_ <;> rintro rfl
    · exact hw hj
    · exact hnum hj
  refine ⟨?_, ?_, ?_, hcbuf⟩
  · rw [receivePack_of_unexpected hok hd hlt.ne]
    exact if_neg (not_le.mpr hlt)
  · rw [receivePack_of_unexpected hok hd hlt.ne]
  · rw [receivePack_of_unexpected hok hd hlt.ne]

theorem slotsFit_receivePack (hfits : pack.isOk = true → UDPMessage.CountsFit pack.header)
    (hw : pack.isOk = false → ¬ r.Unprocessed (b.slot r.wnum)) (hI : r.SlotsFit) :
    (r.receivePack pack).2.SlotsFit := by
  cases hok : pack.isOk with
  | false =>
    rw [receivePack_of_bad hok]
    refine ⟨fun j hj => ?_, .inr (hw hok)⟩
    simp only [Function.update_of_ne hj]
    exact hI.fits j hj
  | true =>
    have hall : ∀ j, UDPMessage.CountsFit ((r.receivePack pack).2.cbuf j).header := by
      intro j
      by_cases hj : j = b.slot r.wnum
      · subst hj
        rw [receivePack_slot_wnum hok]
        split <;> exact hfits hok
      · rcases r.receivePack_slot pack j with h | h | h
        · rw [h]
          exact hI.fits j hj
        · rw [h]
          exact hfits hok
        · rw [h]
          exact hfits hok
    exact ⟨fun j _ => hall j, .inl (hall _)⟩

theorem receive_harmless {ret : Received} (hI : r.SlotsFit)
    (h : r.Harmless HostIsBigEndian ret) :
    ∃ code r', r.receive HostIsBigEndian ret = some (code, r') ∧ r'.SlotsFit ∧
      (r.Refused HostIsBigEndian ret → r.Untouched r') := by
  have hsame : r.Untouched r := ⟨rfl, rfl, rfl, fun _ _ => rfl⟩
  match ret, h with
  | .failed, _ => exact ⟨_, r, rfl, hI, fun _ => hsame⟩
  | .datagram bytes, h =>
    by_cases hne : bytes = []
    · exact ⟨.retNoData, r, if_pos hne, hI, fun _ => hsame⟩
    obtain ⟨hfits, hwrong, hshort⟩ := h hne
    obtain ⟨pack, hpack⟩ := Option.isSome_iff_exists.mp
      (UDPMessage.ntoh_isSome_iff.mpr fun hne => hfits (.inl hne))
    have hheader := UDPMessage.ntoh_header hpack
    have hok := UDPMessage.ntoh_isOk hpack
    refine ⟨(r.receivePack pack).1, (r.receivePack pack).2, ?_, ?_, ?_⟩
    · simp only [landed] at hpack
      simp only [receive, if_neg hne, receiveMessage, hpack, Option.map_some]
    · refine slotsFit_receivePack (fun h => ?_) (fun h => hwrong (hok.symm.trans h)) hI
      rw [hheader]
      exact hfits (.inr (hok.symm.trans h))
    · intro hrefused
      cases h : pack.isOk with
      | false => exact receivePack_untouched h (hwrong (hok.symm.trans h))
      | true =>
        have hlen := hrefused.resolve_right (by simp [← hok, h])
        refine receivePack_late h ?_
        rw [hheader]
        exact hshort (hok.symm.trans h) hlen

/-! ### Runs -/

/-- What the receiver is given: the result of a call of the transport, or time to update. -/
inductive Input
  | datagram (ret : Received)
  | update (clock : Nat → Nat)

def inputStep (HostIsBigEndian : Bool) (s : UNetReceiver b × SharedMemory) :
    Input → Option (UNetReceiver b × SharedMemory)
  | .datagram ret => (s.1.receive HostIsBigEndian ret).map fun out => (out.2, s.2)
  | .update clock => (s.1.update clock s.2).map fun out => (out.1, out.2.1)

def HarmlessInput (HostIsBigEndian : Bool) (s : UNetReceiver b × SharedMemory) : Input → Prop
  | .datagram ret => s.1.Harmless HostIsBigEndian ret
  | .update _ => True

/-- The step stays inside all arrays, and a datagram that is refused leaves the receiver as it
was. -/
def RobustStep (HostIsBigEndian : Bool) (s : UNetReceiver b × SharedMemory) (i : Input) : Prop :=
  ∃ t, inputStep HostIsBigEndian s i = some t ∧
    ∀ ret, i = .datagram ret → s.1.Refused HostIsBigEndian ret → s.1.Untouched t.1

theorem inputStep_slotsFit {s t : UNetReceiver b × SharedMemory} {i : Input} (hI : s.1.SlotsFit)
    (hG : HarmlessInput HostIsBigEndian s i) (h : inputStep HostIsBigEndian s i = some t) :
    t.1.SlotsFit := by
  cases i with
  | datagram ret =>
    obtain ⟨code, r', hr', hfits, -⟩ := receive_harmless hI hG
    simp only [inputStep, hr', Option.map_some, Option.some.injEq] at h
    exact h ▸ hfits
  | update clock =>
    simp only [inputStep, Option.map_eq_some_iff] at h
    obtain ⟨⟨r', sm', ps⟩, hup, rfl⟩ := h
    have hU := update_spec hup
    exact hI.forward hU.cbuf hU.wnum hU.rnum_le

/-- As long as every datagram is harmless, every step is robust. -/
theorem receiver_robust {conf : ReceiverConf} {now : Nat} {sm : SharedMemory}
    {s : UNetReceiver b × SharedMemory} {i : Input}
    (h : Reaches (inputStep HostIsBigEndian) (HarmlessInput HostIsBigEndian)
      (UNetReceiver.new HostIsBigEndian b conf now, sm) s)
    (hG : HarmlessInput HostIsBigEndian s i) : RobustStep HostIsBigEndian s i := by
  have hI : s.1.SlotsFit := h.invariant (I := fun s => s.1.SlotsFit)
    (fun hI hG hs => inputStep_slotsFit hI hG hs) (slotsFit_new HostIsBigEndian b conf now)
  cases i with
  | datagram ret =>
    obtain ⟨code, r', hr', -, hkeep⟩ := receive_harmless hI hG
    refine ⟨(r', s.2), by simp only [inputStep, hr', Option.map_some], ?_⟩
    rintro ret' heq hrefused
    cases heq
    exact hkeep hrefused
  | update clock =>
    obtain ⟨out, hout⟩ := update_isSome hI clock s.2
    exact ⟨(out.1, out.2.1), by simp only [inputStep, hout, Option.map_some], fun _ h => by cases h⟩

/-- A packet is applied; two bytes that pass for an old packet and a packet with a wrong magic come
after it. -/
theorem receiver_robust_update :
    ∃ (s s' s'' : UNetReceiver .default × SharedMemory) (short bad : List UInt8),
      s.1.rnum = 2 ∧ s.1.wnum = 2 ∧ short.length = 2 ∧
      inputStep false s (.datagram (.datagram short)) = some s' ∧ s.1.Untouched s'.1 ∧
      (s'.1.landed false bad).isOk = false ∧
      inputStep false s' (.datagram (.datagram bad)) = some s'' ∧ s'.1.Untouched s''.1 ∧
      RobustStep false s'' (.update fun _ => 0) := by
  let m := ValidMessage.single 1 5 7
  let wrong : UDPMessage := { m.msg with header := { m.msg.header with version := 0 } }
  let bad := wrong.image false
  let s₀ : UNetReceiver .default × SharedMemory := (.new false .default .default 0, .initial)
  let s₁ : UNetReceiver .default × SharedMemory := ((s₀.1.receivePack m.msg).2, .initial)
  let i : Input := .datagram (.datagram (m.msg.image false))
  have hlanded : s₀.1.landed false (m.msg.image false) = m.msg := UDPMessage.overlay_image _ _
  have hG : HarmlessInput false s₀ i := by
    intro _
    rw [hlanded]
    refine ⟨fun _ => m.fits, fun h => absurd h (by decide), fun _ hlen => ?_⟩
    exact absurd hlen (by rw [UDPMessage.length_image]; exact lt_irrefl _)
  have h₁ : inputStep false s₀ i = some s₁ := by
    simp only [i, inputStep, receive_image]
    rfl
  let s₂ := (inputStep false s₁ (.update fun _ => 0)).get (by decide +kernel)
  have h₂ : inputStep false s₁ (.update fun _ => 0) = some s₂ := (Option.some_get _).symm
  have hrun := ((Reaches.refl s₀).tail hG h₁).tail (by trivial) h₂
  have hrnum : s₂.1.rnum = 2 := by decide +kernel
  have hwnum : s₂.1.wnum = 2 := by decide +kernel
  have hnone {r : UNetReceiver .default} (h : r.rnum = 2 ∧ r.wnum = 2) (j) :
      ¬r.Unprocessed j := by
    rintro ⟨n, hge, hlt, -⟩
    rw [h.1] at hge
    rw [h.2] at hlt
    exact absurd hge (not_le.mpr hlt)
  have hlate : s₂.1.Late 1 :=
    ⟨by decide +kernel, by decide +kernel, hnone ⟨hrnum, hwnum⟩ _, hnone ⟨hrnum, hwnum⟩ _⟩
  have hshort : HarmlessInput false s₂ (.datagram (.datagram [6, 1])) := by
    intro _
    refine ⟨fun _ => ⟨by decide +kernel, by decide +kernel⟩, fun _ => hnone ⟨hrnum, hwnum⟩ _, ?_⟩
    intro _ _
    have hnum : ((s₂.1.landed false [6, 1]).header.toHost false).num = 1 := by decide +kernel
    rw [hnum]
    exact hlate
  obtain ⟨s₃, h₃, hkept₃⟩ := receiver_robust hrun hshort
  have hsame₃ := hkept₃ _ rfl (.inl (by decide))
  have hwrong : s₃.1.landed false bad = wrong := UDPMessage.overlay_image _ _
  have hbad : HarmlessInput false s₃ (.datagram (.datagram bad)) := by
    intro _
    rw [hwrong]
    refine ⟨fun _ => m.fits, fun _ => hnone ⟨hsame₃.2.1.trans hrnum, hsame₃.1.trans hwnum⟩ _,
      fun h => absurd h (by decide)⟩
  obtain ⟨s₄, h₄, hkept₄⟩ := receiver_robust (hrun.tail hshort h₃) hbad
  have hrefused : (s₃.1.landed false bad).isOk = false := by
    rw [hwrong]
    rfl
  exact ⟨s₂, s₃, s₄, [6, 1], bad, hrnum, hwnum, rfl, h₃, hsame₃, hrefused, h₄,
    hkept₄ _ rfl (.inr hrefused), receiver_robust ((hrun.tail hshort h₃).tail hbad h₄) trivial⟩

/-- A header alone, in the other byte order, that announces 65535 analog values. -/
theorem receiver_not_robust :
    ¬ ∀ (s : UNetReceiver .default × SharedMemory) (i : Input),
      Reaches (inputStep false) (fun _ _ => True)
        (UNetReceiver.new false .default .default 0, SharedMemory.initial) s →
      RobustStep false s i := by
  intro hall
  let r : UNetReceiver .default := .new false .default .default 0
  let bytes : List UInt8 :=
    [7, 0, 0, 0, 0, 0, 0, 0, 1] ++ List.replicate 18 0 ++ [255, 255] ++ List.replicate 4 0
  obtain ⟨t, ht, -⟩ := hall (r, .initial) (.datagram (.datagram bytes)) (.refl _)
  have hleaves : ¬ ((r.landed false bytes).ntoh false).isSome := by
    intro hsome
    have hfit := UDPMessage.ntoh_isSome_iff.mp hsome (by decide +kernel)
    exact absurd hfit.1 (by decide +kernel)
  simp only [inputStep, Option.map_eq_some_iff] at ht
  obtain ⟨out, hout, -⟩ := ht
  have hreceive : r.receiveMessage false (r.landed false bytes) = some out := hout
  rw [receiveMessage, Option.map_eq_some_iff] at hreceive
  obtain ⟨pack, hpack, -⟩ := hreceive
  exact hleaves (by rw [hpack]; rfl)

end UNetReceiver

namespace Session

variable {b : BufferSize} {HostIsBigEndian : Bool} {s : Session b}

/-- Valid messages never lead outside the arrays: a session can always go on. -/
theorem Run.step_isSome {G : Session b → Event HostIsBigEndian → Prop} (h : Run G s)
    (e : Event HostIsBigEndian) : ∃ t, s.step e = some t := by
  have hI : s.rcv.SlotsFit := by
    refine h.invariant (I := fun s => s.rcv.SlotsFit) ?_ ?_ ?_
    · exact fun conf now _ => UNetReceiver.slotsFit_new HostIsBigEndian b conf now
    · intro s pack m hI _ hpack hok
      refine UNetReceiver.slotsFit_receivePack (fun _ => ?_) (fun h => by simp [hok] at h) hI
      rw [UDPMessage.ntoh_header hpack]
      exact m.fits
    · intro s clock r sm ps hI _ hup
      have hU := UNetReceiver.update_spec hup
      exact hI.forward hU.cbuf hU.wnum hU.rnum_le
  cases e with
  | receive m =>
    obtain ⟨pack, hpack⟩ := Option.isSome_iff_exists.mp
      (UDPMessage.ntoh_isSome_iff.mpr fun _ => m.fits)
    exact ⟨s.accept pack, by rw [step, hpack, Option.map_some]⟩
  | update clock =>
    obtain ⟨out, hout⟩ := UNetReceiver.update_isSome hI clock s.sm
    exact ⟨s.applyAll out.1 out.2.1 out.2.2, by rw [step, hout, Option.map_some]⟩

end Session

end Uniset.UNetUDP
