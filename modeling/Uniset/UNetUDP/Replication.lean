import Mathlib.Data.List.Sort
import Uniset.UNetUDP.Delivery
import Uniset.UNetUDP.PacketCrc

/-! From one SharedMemory to the other: a sender that is told values and sends its packets, a network
that loses them, doubles them and changes their order, and a receiver. -/

namespace Uniset.UNetUDP

open Uniset.Lib

namespace UDPMessage

/-- `setDData` or `setAData` with a value of SharedMemory. -/
def setData (m : UDPMessage) (k : DataKind) (index : Nat) (value : Int) : UDPMessage :=
  match k with
  | .D => (m.setDData index (decide (value ≠ 0))).2
  | .A => (m.setAData index (Int64.ofInt value)).2

/-- What a host of 64 bits makes of the bytes of the message. -/
def arrive (HostIsBigEndian : Bool) (m : UDPMessage) : Option UDPMessage :=
  if m.header.be_order = HostIsBigEndian then m.ntoh HostIsBigEndian
  else ((Host.mk HostIsBigEndian true).opposite m).ntoh HostIsBigEndian

end UDPMessage

/-- The value that a sensor gets for one that the sender was told. -/
def DataKind.shown : DataKind → Int → Int32
  | .A, value => (Int64.ofInt value).toInt32
  | .D, value => if value ≠ 0 then 1 else 0

namespace UNetSender

def modifyPack (s : UNetSender) (sendfactor : Int) (i : Nat) (f : UDPMessage → UDPMessage) :
    UNetSender :=
  { s with mypacks := Function.update s.mypacks sendfactor ((s.mypacks sendfactor).modify i f) }

def updateItem (s : UNetSender) (it : UItem) (value : Int) : UNetSender :=
  s.modifyPack it.pack_sendfactor it.pack_num fun m => m.setData (.of it.iotype) it.pack_ind value

end UNetSender

/-- What the sender is told of an item. -/
abbrev Told := UItem × Int

structure Replication (b : BufferSize) where
  sender : UNetSender
  packetnum : UInt64
  /-- the packets sent, each with what the sender had been told, the latest first -/
  wire : List (UDPMessage × List Told)
  /-- what the sender was told, the latest first -/
  told : List Told
  session : Session b

namespace Replication

variable {b : BufferSize}

/-- A packet arrives any number of times, and at any time, or never. -/
inductive Event
  | updateSensor (id : Int32) (value : Int)
  | real_send (sendfactor : Int) (i : Nat)
  | receive (i : Nat)
  | update (clock : Nat → Nat)

def updateSensor (l : Replication b) (id : Int32) (value : Int) : Replication b :=
  match l.sender.items.find? (·.id = id) with
  | none => l
  | some it => { l with sender := l.sender.updateItem it value, told := (it, value) :: l.told }

variable (conf : UNetSenderConf) (HostIsBigEndian : Bool)

def real_send (l : Replication b) (sendfactor : Int) (i : Nat) : Replication b :=
  match (l.sender.mypacks sendfactor)[i]? with
  | none => l
  | some m =>
    let packetnum := if l.packetnum + 1 = 0 then 1 else l.packetnum + 1
    { l with
      sender := l.sender.modifyPack sendfactor i (UDPMessage.stamp conf.HostIsBigEndian · packetnum)
      packetnum
      wire := (UDPMessage.stamp conf.HostIsBigEndian m packetnum, l.told) :: l.wire }

def step (l : Replication b) : Event → Option (Replication b)
  | .updateSensor id value => some (l.updateSensor id value)
  | .real_send sendfactor i => some (l.real_send conf sendfactor i)
  | .receive i =>
    match l.wire[i]? with
    | none => some l
    | some w => (w.1.arrive HostIsBigEndian).map fun pack => { l with session := l.session.accept pack }
  | .update clock => (l.session.rcv.update clock l.session.sm).map fun (r, sm, ps) =>
      { l with session := l.session.applyAll r sm ps }

/-- A sender and a receiver that have just been set up. -/
def start (s : UNetSender) (rconf : ReceiverConf) (now : Nat) (sm : SharedMemory) : Replication b :=
  ⟨s, 0, [], [], .new HostIsBigEndian b rconf now sm⟩

end Replication

/-! ## What a message carries -/

/-- Every value of the message is one that is right for its sensor. -/
def Carries (P : ObjectId → Int32 → Prop) (m : UDPMessage) : Prop :=
  ∃ p, Shows m p ∧ (∀ d ∈ p.analog, P d.id.toInt d.val.toInt32) ∧
    ∀ d ∈ p.digital, P d.1.toInt (if d.2 then 1 else 0)

theorem Shows.idAt_A {m : UDPMessage} {p : Payload} (h : Shows m p) {i : Nat} {d : UDPAData}
    (hd : p.analog[i]? = some d) : m.idAt .A i = some d.id := by
  have hlt : i < m.header.acount.toNat := by
    rw [h.acount]
    exact (List.getElem?_eq_some_iff.mp hd).1
  change (if i < m.header.acount.toNat then (m.aDat i).map UDPAData.id else none) = _
  rw [if_pos hlt, h.a_dat i d hd, Option.map_some]

theorem Shows.idAt_D {m : UDPMessage} {p : Payload} (h : Shows m p) {i : Nat} {d : Int32 × Bool}
    (hd : p.digital[i]? = some d) : m.idAt .D i = some d.1 := by
  have hlt := (List.getElem?_eq_some_iff.mp hd).1
  have hmax : i < MaxDCount := hlt.trans_le h.dcount_le
  rw [UDPMessage.idAt_D, if_pos (h.dcount ▸ hlt), dif_pos hmax, Option.some.injEq]
  rw [← Int32.toInt_inj, ← UDPMessage.dID_eq hmax]
  exact (h.digital i d hd).1

theorem mem_modify {α : Type} {l : List α} {index : Nat} {f : α → α} {a : α} (h : a ∈ l.modify index f) :
    ∃ i a', l[i]? = some a' ∧ (i = index ∧ a = f a' ∨ i ≠ index ∧ a = a') := by
  obtain ⟨i, hi⟩ := List.getElem?_of_mem h
  rw [List.getElem?_modify] at hi
  obtain ⟨a', ha', hi⟩ := Option.map_eq_some_iff.mp hi
  refine ⟨i, a', ha', ?_⟩
  split at hi
  next heq => exact .inl ⟨heq.symm, hi.symm⟩
  next hne => exact .inr ⟨Ne.symm hne, hi.symm⟩

namespace Carries

variable {P P' : ObjectId → Int32 → Prop} {m m' : UDPMessage} {k : DataKind}

/-- Only the sensors of the message matter. -/
theorem imp (h : Carries P m)
    (hP : ∀ k i id, m.idAt k i = some id → ∀ val, P id.toInt val → P' id.toInt val) : Carries P' m := by
  obtain ⟨p, hs, hanalog, hdigital⟩ := h
  refine ⟨p, hs, fun d hd => ?_, fun d hd => ?_⟩
  · obtain ⟨i, hi⟩ := List.getElem?_of_mem hd
    exact hP .A i d.id (hs.idAt_A hi) _ (hanalog d hd)
  · obtain ⟨i, hi⟩ := List.getElem?_of_mem hd
    exact hP .D i d.1 (hs.idAt_D hi) _ (hdigital d hd)

theorem mono (hle : ∀ sid val, P sid val → P' sid val) (h : Carries P m) : Carries P' m :=
  h.imp fun _ _ _ _ val => hle _ val

theorem new (HostIsBigEndian : Bool) : Carries P (.new HostIsBigEndian) :=
  ⟨.empty, (fresh_new ⟨HostIsBigEndian, true⟩).shows, fun _ hd => absurd hd List.not_mem_nil,
    fun _ hd => absurd hd List.not_mem_nil⟩

/-- The counts and the data are what a message carries. -/
theorem congr (h : Carries P m) (hacount : m'.header.acount = m.header.acount)
    (hdcount : m'.header.dcount = m.header.dcount) (ha_dat : m'.a_dat = m.a_dat)
    (hd_id : m'.d_id = m.d_id) (hd_dat : m'.d_dat = m.d_dat) : Carries P m' := by
  obtain ⟨p, hs, hP⟩ := h
  have haDat : m'.aDat = m.aDat := by
    funext i
    unfold UDPMessage.aDat
    rw [ha_dat]
  have hdID : m'.dID = m.dID := by
    funext i
    unfold UDPMessage.dID
    rw [hd_id]
  have hdValue : m'.dValue = m.dValue := by
    funext i
    unfold UDPMessage.dValue
    rw [hd_dat]
  exact ⟨p, ⟨by rw [hacount, hs.acount], hs.acount_le, by rw [hdcount, hs.dcount], hs.dcount_le,
    haDat ▸ hs.a_dat, by rw [hdID, hdValue]; exact hs.digital⟩, hP⟩

theorem setNum (h : Carries P m) (n : UInt64) : Carries P (m.setNum n) := h.congr rfl rfl rfl rfl rfl

theorem setIds (h : Carries P m) (nodeID procID : Int64) : Carries P (m.setIds nodeID procID) :=
  h.congr rfl rfl rfl rfl rfl

theorem stamp (h : Carries P m) (big : Bool) (num : UInt64) :
    Carries P (UDPMessage.stamp big m num) := by
  refine h.congr ?_ ?_ ?_ ?_ ?_ <;>
    simp only [UDPMessage.stamp, UDPMessage.updatePacketCrc, UDPMessage.setNum]

theorem inOrder (h : Carries P m) (HostIsBigEndian : Bool) : Carries P (m.inOrder HostIsBigEndian) :=
  h.congr rfl rfl rfl rfl rfl

theorem countsFit (h : Carries P m) : UDPMessage.CountsFit m.header := by
  obtain ⟨p, hs, -⟩ := h
  exact hs.countsFit

theorem add {id : Int32} {value : Int} (h : Carries P m) (hP : P id.toInt (k.shown value)) :
    Carries P (m.add id value k).2 := by
  obtain ⟨p, hs, hanalog, hdigital⟩ := h
  cases k with
  | A =>
    refine ⟨_, hs.put (.addAData ⟨id, Int64.ofInt value⟩), ?_⟩
    unfold Payload.put
    dsimp only
    split_ifs
    · refine ⟨fun d hd => ?_, hdigital⟩
      rcases List.mem_append.mp hd with hd | hd
      · exact hanalog d hd
      · rw [List.mem_singleton.mp hd]
        exact hP
    · exact ⟨hanalog, hdigital⟩
  | D =>
    refine ⟨_, hs.put (.addDData id (decide (value ≠ 0))), ?_⟩
    unfold Payload.put
    dsimp only
    split_ifs
    · refine ⟨hanalog, fun d hd => ?_⟩
      rcases List.mem_append.mp hd with hd | hd
      · exact hdigital d hd
      · rw [List.mem_singleton.mp hd]
        simpa [DataKind.shown] using hP
    · exact ⟨hanalog, hdigital⟩

/-- A value is set at the place of its own sensor. -/
theorem setData {id : Int32} {index : Nat} {value : Int} (h : Carries P m)
    (hid : m.idAt k index = some id) (hself : P' id.toInt (k.shown value))
    (hother : ∀ k' i id', ¬ (k' = k ∧ i = index) → m.idAt k' i = some id' →
      ∀ val, P id'.toInt val → P' id'.toInt val) :
    Carries P' (m.setData k index value) := by
  obtain ⟨p, hs, hanalog, hdigital⟩ := h
  have hA : k ≠ .A → ∀ d ∈ p.analog, P' d.id.toInt d.val.toInt32 := fun hk d hd => by
    obtain ⟨i, hi⟩ := List.getElem?_of_mem hd
    exact hother .A i d.id (fun heq => hk heq.1.symm) (hs.idAt_A hi) _ (hanalog d hd)
  have hD : k ≠ .D → ∀ d ∈ p.digital, P' d.1.toInt (if d.2 then 1 else 0) := fun hk d hd => by
    obtain ⟨i, hi⟩ := List.getElem?_of_mem hd
    exact hother .D i d.1 (fun heq => hk heq.1.symm) (hs.idAt_D hi) _ (hdigital d hd)
  cases k with
  | A =>
    refine ⟨_, hs.put (.setAData index (Int64.ofInt value)), fun d hd => ?_, hD (by decide)⟩
    obtain ⟨i, d', hi, hcase⟩ := mem_modify hd
    rcases hcase with ⟨rfl, rfl⟩ | ⟨hne, rfl⟩
    · rw [hs.idAt_A hi] at hid
      obtain rfl : d'.id = id := Option.some.inj hid
      exact hself
    · exact hother .A i d.id (fun heq => hne heq.2) (hs.idAt_A hi) _
        (hanalog d (List.mem_of_getElem? hi))
  | D =>
    refine ⟨_, hs.put (.setDData index (decide (value ≠ 0))), hA (by decide), fun d hd => ?_⟩
    obtain ⟨i, d', hi, hcase⟩ := mem_modify hd
    rcases hcase with ⟨rfl, rfl⟩ | ⟨hne, rfl⟩
    · rw [hs.idAt_D hi] at hid
      obtain rfl : d'.1 = id := Option.some.inj hid
      simpa [DataKind.shown] using hself
    · exact hother .D i d.1 (fun heq => hne heq.2) (hs.idAt_D hi) _
        (hdigital d (List.mem_of_getElem? hi))

theorem items (h : Carries P m) (k : Kind) : ∀ w ∈ m.items k, P w.1 w.2 := by
  obtain ⟨p, hs, hanalog, hdigital⟩ := h
  intro w hw
  obtain ⟨i, hi, hw⟩ := List.mem_filterMap.mp hw
  have hi := List.mem_range.mp hi
  cases k with
  | analog =>
    have hlt : i < p.analog.length := hs.acount ▸ hi
    change (m.aDat i).map _ = some w at hw
    rw [hs.a_dat i _ (List.getElem?_eq_getElem hlt)] at hw
    rw [← Option.some.inj hw]
    exact hanalog _ (List.getElem_mem hlt)
  | digital =>
    have hlt : i < p.digital.length := hs.dcount ▸ hi
    obtain ⟨hid, hval⟩ := hs.digital i _ (List.getElem?_eq_getElem hlt)
    change some (m.dID i, if m.dValue i then 1 else 0) = some w at hw
    rw [hid, hval] at hw
    rw [← Option.some.inj hw]
    exact hdigital _ (List.getElem_mem hlt)

end Carries

theorem UDPMessage.arrive_eq {m : UDPMessage} (h : CountsFit m.header) (HostIsBigEndian : Bool) :
    m.arrive HostIsBigEndian = some (m.inOrder HostIsBigEndian) := by
  unfold arrive
  split_ifs with horder
  · rw [ntoh, if_pos horder, inOrder, ← horder]
  · rw [← Host.ntoh_wide, Host.ntoh_opposite h fun hnarrow => Bool.noConfusion hnarrow]
    simp only [Host.turned_wide, ite_self]
    rfl

/-! ## The packets that are laid out -/

namespace UDPMessage

variable {m : UDPMessage} {k k' : DataKind} {i : Nat}

theorem idAt_add_of_some {id : Int32} (h : m.idAt k' i = some id) (id' : Int32) (val : Int)
    (k : DataKind) :     (m.add id' val k).2.idAt k' i = some id := by
  rcases Nat.lt_or_ge (m.dataSize k) k.MaxCount with hroom | hfull
  · rw [(added_add hroom id' val).2.idAt, if_neg]
    · exact h
    · rintro ⟨rfl, rfl⟩
      rw [idAt_of_le (Nat.le_refl _)] at h
      cases h
  · rw [add_of_full hfull]
    exact h

theorem idAt_setData (m : UDPMessage) (k : DataKind) (index : Nat) (value : Int) (k' : DataKind)
    (i : Nat) :     (m.setData k index value).idAt k' i = m.idAt k' i := by
  cases k with
  | D =>
    change (m.setDData index (decide (value ≠ 0))).2.idAt k' i = _
    cases k' with
    | A => rw [idAt_A, idAt_A, header_setDData, a_dat_setDData]
    | D => rw [idAt_D, idAt_D, header_setDData, d_id_setDData]
  | A =>
    change (m.setAData index (Int64.ofInt value)).2.idAt k' i = _
    by_cases hindex : index < MaxACount
    · have hheader : (m.setAData index (Int64.ofInt value)).2.header = m.header := by
        rw [setAData, dif_pos hindex]
      cases k' with
      | D =>
        rw [idAt_D, idAt_D, hheader, setAData, dif_pos hindex]
      | A =>
        rw [idAt_A, idAt_A, hheader]
        refine if_congr Iff.rfl ?_ rfl
        split
        · rw [a_dat_setAData hindex]
          split_ifs <;> rfl
        · rfl
    · rw [setAData, dif_neg hindex]

theorem idAt_stamp (big : Bool) (m : UDPMessage) (num : UInt64) (k : DataKind) (i : Nat) :
    (stamp big m num).idAt k i = m.idAt k i := by
  have hacount : (stamp big m num).header.acount = m.header.acount := by
    simp only [stamp, updatePacketCrc, setNum]
  have hdcount : (stamp big m num).header.dcount = m.header.dcount := by
    simp only [stamp, updatePacketCrc, setNum]
  have ha_dat : (stamp big m num).a_dat = m.a_dat := by simp only [stamp, updatePacketCrc, setNum]
  have hd_id : (stamp big m num).d_id = m.d_id := by simp only [stamp, updatePacketCrc, setNum]
  cases k with
  | A => rw [idAt_A, idAt_A, hacount, ha_dat]
  | D => rw [idAt_D, idAt_D, hdcount, hd_id]

theorem isOk_put (m : UDPMessage) (op : PayloadOp) : (m.put op).isOk = m.isOk := by
  obtain ⟨dcount, acount, hheader⟩ := m.header_put op
  rw [isOk, hheader, isOk]

theorem isOk_add (m : UDPMessage) (id : Int32) (val : Int) (k : DataKind) :
    (m.add id val k).2.isOk = m.isOk := by
  cases k with
  | A => exact m.isOk_put (.addAData _)
  | D => exact m.isOk_put (.addDData _ _)

theorem isOk_setData (m : UDPMessage) (k : DataKind) (index : Nat) (value : Int) :
    (m.setData k index value).isOk = m.isOk := by
  cases k with
  | A => exact m.isOk_put (.setAData _ _)
  | D => exact m.isOk_put (.setDData _ _)

theorem isOk_stamp (big : Bool) (m : UDPMessage) (num : UInt64) : (stamp big m num).isOk = m.isOk := by
  simp only [isOk, stamp, updatePacketCrc, setNum]

theorem num_stamp (big : Bool) (m : UDPMessage) (num : UInt64) : (stamp big m num).header.num = num := by
  simp only [stamp, updatePacketCrc, setNum]

end UDPMessage

namespace UNetSender

variable {conf : UNetSenderConf} {s s' : UNetSender} {pk : List UDPMessage} {k : DataKind} {num : Nat}
  {sid : Int32} {defval : Int} {items : List UItemConf}

section Forall

variable {Q : UDPMessage → Prop} (hnew : Q (.new conf.HostIsBigEndian))
  (hids : ∀ m, Q m → Q (m.setIds conf.nodeID conf.procID))

include hnew

theorem grow_forall (h : ∀ m ∈ pk, Q m) (n : Nat) : ∀ m ∈ grow conf pk n, Q m := by
  intro m hm
  unfold grow at hm
  split at hm
  · rcases List.mem_append.mp hm with hm | hm
    · exact h m hm
    · rw [List.eq_of_mem_replicate hm]
      exact hnew
  · exact h m hm

theorem packet_forall (h : ∀ m ∈ pk, Q m) (n : Nat) : Q (packet conf pk n) := by
  unfold packet
  cases hm : pk[n]? with
  | none => exact hnew
  | some m => exact h m (List.mem_of_getElem? hm)

theorem set_grow_forall (h : ∀ m ∈ pk, Q m) (n : Nat) {m' : UDPMessage} (hm' : Q m') :
    ∀ m ∈ (grow conf pk n).set n m', Q m := fun m hm =>
  (List.mem_or_eq_of_mem_set hm).elim (grow_forall hnew h n m) fun heq => heq ▸ hm'

include hids

theorem packItem_forall (hadd : ∀ m, Q m → Q (m.add sid defval k).2) (h : ∀ m ∈ pk, Q m) (num : Nat) :
    ∀ m ∈ (packItem conf k pk num sid defval).1, Q m := by
  have hfirst := set_grow_forall hnew h num (hadd _ (packet_forall hnew (grow_forall hnew h num) num))
  unfold packItem
  dsimp only
  split
  · exact set_grow_forall hnew hfirst _
      (hids _ (hadd _ (packet_forall hnew (grow_forall hnew hfirst _) _)))
  · exact hfirst

/-- What a new message has, and what it keeps when an item is added, all packets have. -/
theorem initItems_forall (hadd : ∀ it ∈ items, ∀ iotype, it.iotype = some iotype → ∀ m, Q m →
      Q (m.add it.id it.default_val (.of iotype)).2)
    (h : initItems conf items = some s) : ∀ f, ∀ m ∈ s.mypacks f, Q m := by
  have hrun : Reaches (initItem conf) (fun _ it => it ∈ items) (UNetSender.new conf) s :=
    .of_foldlM (fun it hit _ => hit) h
  refine hrun.invariant (I := fun s => ∀ f, ∀ m ∈ s.mypacks f, Q m) (fun {s it t} hI hit hstep => ?_) ?_
  · rcases initItem_cases hstep with ⟨-, rfl⟩ | ⟨iotype, pk, num, ind, undefined, hiotype, -, -, hpack,
      hmypacks, -, -⟩
    · exact hI
    · intro f
      rw [hmypacks]
      by_cases hf : f = it.sendfactor
      · have hpk := packItem_forall hnew hids (hadd it hit iotype hiotype) (hI it.sendfactor)
          (s.packs_num (.of iotype) it.sendfactor)
        rw [hpack] at hpk
        rw [hf, Function.update_self]
        exact hpk
      · rw [Function.update_of_ne hf]
        exact hI f
  · intro f m hm
    unfold UNetSender.new at hm
    dsimp only at hm
    split at hm
    · rw [List.mem_singleton.mp hm]
      exact hids _ hnew
    · cases hm

end Forall

/-! ### The place of an item -/

theorem idAt_set_grow {n j : Nat} {m' : UDPMessage} {k' : DataKind} {i : Nat} {id : Int32}
    (h : (packet conf pk j).idAt k' i = some id)
    (hm' : (packet conf pk n).idAt k' i = some id → m'.idAt k' i = some id) :
    (packet conf ((grow conf pk n).set n m') j).idAt k' i = some id := by
  rw [packet_set_grow]
  split
  next heq => exact hm' (heq ▸ h)
  next => exact h

/-- An item that stands somewhere is not moved. -/
theorem idAt_packItem {j : Nat} {k' : DataKind} {i : Nat} {id : Int32}
    (h : (packet conf pk j).idAt k' i = some id) (k : DataKind) (num : Nat) (sid : Int32)
    (defval : Int) :
    (packet conf (packItem conf k pk num sid defval).1 j).idAt k' i = some id := by
  have hfirst : (packet conf ((grow conf pk num).set num
      ((packet conf (grow conf pk num) num).add sid defval k).2) j).idAt k' i = some id := by
    refine idAt_set_grow h fun h => ?_
    rw [packet_grow]
    exact UDPMessage.idAt_add_of_some h sid defval k
  unfold packItem
  dsimp only
  split
  · refine idAt_set_grow hfirst fun h => ?_
    rw [packet_grow, UDPMessage.idAt_setIds]
    exact UDPMessage.idAt_add_of_some h sid defval k
  · exact hfirst

theorem add_placed {m : UDPMessage} (h : (m.add sid defval k).1 < k.MaxCount) :
    (m.add sid defval k).2.idAt k (m.add sid defval k).1 = some sid := by
  rcases Nat.lt_or_ge (m.dataSize k) k.MaxCount with hroom | hfull
  · obtain ⟨hind, hadded⟩ := UDPMessage.added_add hroom sid defval
    rw [hadded.idAt, hind, if_pos ⟨rfl, rfl⟩]
  · rw [UDPMessage.add_of_full hfull] at h
    exact absurd h (Nat.lt_irrefl _)

/-- The place that is noted for an item is one where it stands. -/
theorem packItem_placed {pk' : List UDPMessage} {num' ind : Nat}
    (h : packItem conf k pk num sid defval = (pk', num', ind)) (hind : ind < k.MaxCount) :
    (packet conf pk' num').idAt k ind = some sid := by
  unfold packItem at h
  dsimp only at h
  split at h
  · cases h
    rw [packet_set_grow, if_pos rfl, UDPMessage.idAt_setIds]
    exact add_placed hind
  · cases h
    rw [packet_set_grow, if_pos rfl]
    exact add_placed hind

/-- Every item stands at its place. -/
def AtPlace (conf : UNetSenderConf) (s : UNetSender) : Prop :=
  ∀ it ∈ s.items, idAt conf s (slotOf it) = some it.id

theorem AtPlace.put {pk' : List UDPMessage} (hI : AtPlace conf s) (new : UItem)
    (hkeep : ∀ j k i id, (packet conf (s.mypacks new.pack_sendfactor) j).idAt k i = some id →
      (packet conf pk' j).idAt k i = some id)
    (hnew : (packet conf pk' new.pack_num).idAt (.of new.iotype) new.pack_ind = some new.id)
    (hmypacks : s'.mypacks = Function.update s.mypacks new.pack_sendfactor pk')
    (hitems : s'.items = s.items ++ [new]) : AtPlace conf s' := by
  intro it hit
  unfold idAt
  rw [hmypacks]
  rw [hitems] at hit
  rcases List.mem_append.mp hit with hit | hit
  · have hold := hI it hit
    unfold idAt at hold
    by_cases hf : (slotOf it).sendfactor = new.pack_sendfactor
    · rw [hf, Function.update_self]
      rw [hf] at hold
      exact hkeep _ _ _ _ hold
    · rw [Function.update_of_ne hf]
      exact hold
  · rw [List.mem_singleton.mp hit]
    unfold slotOf
    dsimp only
    rw [Function.update_self]
    exact hnew

theorem initItem_atPlace {it : UItemConf} (h : initItem conf s it = some s') (hI : AtPlace conf s) :
    AtPlace conf s' := by
  unfold initItem at h
  split at h
  · cases h
    exact hI
  · cases hiotype : it.iotype with
    | none =>
      rw [hiotype] at h
      cases h
      exact hI
    | some iotype =>
      rw [hiotype] at h
      dsimp only at h
      split at h
      · cases h
      next hind =>
        split at h
        · cases h
        · cases h
          exact hI.put ⟨iotype, it.id, _, _, it.sendfactor, _⟩
            (fun _ _ _ _ hold => idAt_packItem hold _ _ _ _)
            (packItem_placed rfl (Nat.lt_of_not_le hind)) rfl rfl

theorem initItems_atPlace (h : initItems conf items = some s) : AtPlace conf s := by
  have hrun : Reaches (initItem conf) (fun _ _ => True) (UNetSender.new conf) s :=
    .of_foldlM (fun _ _ _ => trivial) h
  exact hrun.invariant (fun hI _ hstep => initItem_atPlace hstep hI)
    fun it hit => absurd hit List.not_mem_nil

/-! ### A packet that is written -/

theorem mem_modifyPack {f f' : Int} {n : Nat} {g : UDPMessage → UDPMessage} {m : UDPMessage}
    (h : m ∈ (s.modifyPack f n g).mypacks f') :
    ∃ i m', (s.mypacks f')[i]? = some m' ∧
      (f' = f ∧ i = n ∧ m = g m' ∨ ¬ (f' = f ∧ i = n) ∧ m = m') := by
  unfold modifyPack at h
  dsimp only at h
  by_cases hf : f' = f
  · subst hf
    rw [Function.update_self] at h
    obtain ⟨i, m', hm', hcase⟩ := mem_modify h
    exact ⟨i, m', hm', hcase.imp (fun h => ⟨rfl, h⟩) fun h => ⟨fun hboth => h.1 hboth.2, h.2⟩⟩
  · rw [Function.update_of_ne hf] at h
    obtain ⟨i, hi⟩ := List.getElem?_of_mem h
    exact ⟨i, m, hi, .inr ⟨fun hboth => hf hboth.1, rfl⟩⟩

theorem idAt_modifyPack {f : Int} {n : Nat} {g : UDPMessage → UDPMessage}
    (hg : ∀ m k i, (g m).idAt k i = m.idAt k i) (slot : Slot) :
    idAt conf (s.modifyPack f n g) slot = idAt conf s slot := by
  unfold idAt packet modifyPack
  dsimp only
  by_cases hf : slot.sendfactor = f
  · rw [← hf, Function.update_self, List.getElem?_modify]
    cases (s.mypacks slot.sendfactor)[slot.num]? with
    | none => rfl
    | some m =>
      change UDPMessage.idAt (if n = slot.num then g m else m) _ _ = _
      split_ifs
      · exact hg m _ _
      · rfl
  · rw [Function.update_of_ne hf]

end UNetSender

/-! ## What is sent -/

/-- The item has the value that the configuration gives to the sensor. -/
def IsDefault (items : List UItemConf) (sid : ObjectId) (val : Int32) : Prop :=
  ∃ it ∈ items, ∃ iotype, it.iotype = some iotype ∧ it.id.toInt = sid ∧
    val = (DataKind.of iotype).shown it.default_val

def IsTold (w : Told) (sid : ObjectId) (val : Int32) : Prop :=
  w.1.id.toInt = sid ∧ val = (DataKind.of w.1.iotype).shown w.2

/-- The value has been told some time, or never another. -/
def ToldOnce (items : List UItemConf) (told : List Told) (sid : ObjectId) (val : Int32) : Prop :=
  IsDefault items sid val ∨ ∃ w ∈ told, IsTold w sid val

theorem ToldOnce.mono {items : List UItemConf} {told told' : List Told} {sid : ObjectId} {val : Int32}
    (h : ToldOnce items told sid val) (hle : told <:+ told') : ToldOnce items told' sid val :=
  h.imp_right fun ⟨w, hw, htold⟩ => ⟨w, hle.subset hw, htold⟩

/-- The value is the one told last. -/
def ToldLast (items : List UItemConf) (told : List Told) (sid : ObjectId) (val : Int32) : Prop :=
  match told.find? fun w => w.1.id.toInt = sid with
  | some w => IsTold w sid val
  | none => IsDefault items sid val

namespace Replication

variable {b : BufferSize} {conf : UNetSenderConf} {HostIsBigEndian : Bool} {l l' : Replication b}
  {e : Event}

theorem step_cases (h : l.step conf HostIsBigEndian e = some l') :
    l' = l ∨
    (∃ it value, it ∈ l.sender.items ∧
      l' = { l with sender := l.sender.updateItem it value, told := (it, value) :: l.told }) ∨
    (∃ f i m packetnum, (l.sender.mypacks f)[i]? = some m ∧
      packetnum = (if l.packetnum + 1 = 0 then 1 else l.packetnum + 1) ∧
      l' = { l with
        sender := l.sender.modifyPack f i (UDPMessage.stamp conf.HostIsBigEndian · packetnum)
        packetnum
        wire := (UDPMessage.stamp conf.HostIsBigEndian m packetnum, l.told) :: l.wire }) ∨
    (∃ w pack, w ∈ l.wire ∧ w.1.arrive HostIsBigEndian = some pack ∧
      l' = { l with session := l.session.accept pack }) ∨
    ∃ clock r sm ps, l.session.rcv.update clock l.session.sm = some (r, sm, ps) ∧
      l' = { l with session := l.session.applyAll r sm ps } := by
  cases e with
  | updateSensor id value =>
    cases h
    unfold updateSensor
    cases hit : l.sender.items.find? (·.id = id) with
    | none => exact .inl rfl
    | some it => exact .inr (.inl ⟨it, value, List.mem_of_find?_eq_some hit, rfl⟩)
  | real_send f i =>
    cases h
    unfold real_send
    cases hm : (l.sender.mypacks f)[i]? with
    | none => exact .inl rfl
    | some m => exact .inr (.inr (.inl ⟨f, i, m, _, hm, rfl, rfl⟩))
  | receive i =>
    simp only [step] at h
    cases hw : l.wire[i]? with
    | none =>
      rw [hw] at h
      cases h
      exact .inl rfl
    | some w =>
      rw [hw] at h
      obtain ⟨pack, hpack, rfl⟩ := Option.map_eq_some_iff.mp h
      exact .inr (.inr (.inr (.inl ⟨w, pack, List.mem_of_getElem? hw, hpack, rfl⟩)))
  | update clock =>
    obtain ⟨⟨r, sm, ps⟩, hupdate, rfl⟩ := Option.map_eq_some_iff.mp h
    exact .inr (.inr (.inr (.inr ⟨clock, r, sm, ps, hupdate, rfl⟩)))

/-- What is told of an item makes the value right for it, and leaves the others that the packets have
at other places. -/
def Kept (conf : UNetSenderConf) (s : UNetSender) (P : List Told → ObjectId → Int32 → Prop) : Prop :=
  ∀ it ∈ s.items, ∀ value told,
    P ((it, value) :: told) it.id.toInt ((DataKind.of it.iotype).shown value) ∧
    ∀ slot id, slot ≠ UNetSender.slotOf it → UNetSender.idAt conf s slot = some id →
      ∀ val, P told id.toInt val → P ((it, value) :: told) id.toInt val

/-- Every packet carries what is right by what the sender had been told, now or when it was sent. -/
structure SentRight (conf : UNetSenderConf) (s : UNetSender) (P : List Told → ObjectId → Int32 → Prop)
    (l : Replication b) : Prop where
  items : l.sender.items = s.items
  idAt : ∀ slot, UNetSender.idAt conf l.sender slot = UNetSender.idAt conf s slot
  packs : ∀ f, ∀ m ∈ l.sender.mypacks f, Carries (P l.told) m
  wire : ∀ w ∈ l.wire, Carries (P w.2) w.1
  earlier : (l.told :: l.wire.map Prod.snd).Pairwise fun t t' => t' <:+ t

variable {s : UNetSender} {P : List Told → ObjectId → Int32 → Prop}

theorem idAt_of_getElem? {f : Int} {n : Nat} {m : UDPMessage} (h : (l.sender.mypacks f)[n]? = some m)
    (k : DataKind) (i : Nat) : m.idAt k i = UNetSender.idAt conf l.sender ⟨k, f, n, i⟩ := by
  unfold UNetSender.idAt UNetSender.packet
  dsimp only
  rw [h, Option.getD_some]

theorem SentRight.step (hat : UNetSender.AtPlace conf s) (hkept : Kept conf s P)
    (hI : SentRight conf s P l) (h : l.step conf HostIsBigEndian e = some l') :
    SentRight conf s P l' := by
  rcases step_cases h with rfl | ⟨it, value, hit, rfl⟩ | ⟨f, i, m, packetnum, hm, -, rfl⟩ |
    ⟨w, pack, -, -, rfl⟩ | ⟨clock, r, sm, ps, -, rfl⟩
  · exact hI
  · rw [hI.items] at hit
    obtain ⟨hself, hother⟩ := hkept it hit value l.told
    refine ⟨hI.items, fun slot => ?_, fun f m hm => ?_, hI.wire, ?_⟩
    · rw [← hI.idAt]
      exact UNetSender.idAt_modifyPack (fun m => UDPMessage.idAt_setData m _ _ _) slot
    · obtain ⟨n, m', hm', hcase⟩ := UNetSender.mem_modifyPack hm
      have hold := hI.packs f m' (List.mem_of_getElem? hm')
      have hids : ∀ k i, m'.idAt k i = UNetSender.idAt conf s ⟨k, f, n, i⟩ := fun k i => by
        rw [← hI.idAt]
        exact idAt_of_getElem? hm' k i
      rcases hcase with ⟨rfl, rfl, rfl⟩ | ⟨hne, rfl⟩
      · refine hold.setData ((hids _ _).trans (hat it hit)) hself fun k i id hplace hid => ?_
        refine hother ⟨k, _, _, i⟩ id (fun heq => hplace ?_) ((hids k i).symm.trans hid)
        exact ⟨congrArg UNetSender.Slot.kind heq, congrArg UNetSender.Slot.ind heq⟩
      · refine hold.imp fun k i id hid => hother ⟨k, f, n, i⟩ id (fun heq => hne ?_)
          ((hids k i).symm.trans hid)
        exact ⟨congrArg UNetSender.Slot.sendfactor heq, congrArg UNetSender.Slot.num heq⟩
    · refine List.pairwise_cons.mpr ⟨fun t ht => ?_, (List.pairwise_cons.mp hI.earlier).2⟩
      exact ((List.pairwise_cons.mp hI.earlier).1 t ht).trans (List.suffix_cons _ _)
  · have hcarries := hI.packs f m (List.mem_of_getElem? hm)
    refine ⟨hI.items, fun slot => ?_, fun f m hm => ?_, fun w hw => ?_, ?_⟩
    · rw [← hI.idAt]
      exact UNetSender.idAt_modifyPack (fun m => UDPMessage.idAt_stamp _ m _) slot
    · obtain ⟨n, m', hm', hcase⟩ := UNetSender.mem_modifyPack hm
      have hold := hI.packs f m' (List.mem_of_getElem? hm')
      rcases hcase with ⟨-, -, rfl⟩ | ⟨-, rfl⟩
      · exact hold.stamp _ _
      · exact hold
    · rcases List.mem_cons.mp hw with rfl | hw
      · exact hcarries.stamp _ _
      · exact hI.wire w hw
    · refine List.pairwise_cons.mpr ⟨fun t ht => ?_, hI.earlier⟩
      rcases List.mem_cons.mp ht with rfl | ht
      · exact List.suffix_refl _
      · exact (List.pairwise_cons.mp hI.earlier).1 t ht
  · exact { hI with }
  · exact { hI with }

/-! ### Runs -/

variable {items : List UItemConf} {rconf : ReceiverConf} {now : Nat} {sm : SharedMemory}

/-- The states that a sender of the items, the network and a receiver come to. -/
def Run (conf : UNetSenderConf) (items : List UItemConf) (HostIsBigEndian : Bool) (rconf : ReceiverConf)
    (now : Nat) (sm : SharedMemory) (l : Replication b) : Prop :=
  ∃ s, UNetSender.initItems conf items = some s ∧
    Reaches (step conf HostIsBigEndian) (fun _ _ => True) (start HostIsBigEndian s rconf now sm) l

theorem sentRight_start (h : UNetSender.initItems conf items = some s)
    (hP : ∀ sid val, IsDefault items sid val → P [] sid val) :
    SentRight conf s P (start HostIsBigEndian s rconf now sm : Replication b) where
  items := rfl
  idAt _ := rfl
  packs := UNetSender.initItems_forall (.new _) (fun _ hm => hm.setIds _ _)
    (fun it hit iotype hiotype _ hm => hm.add (hP _ _ ⟨it, hit, iotype, hiotype, rfl, rfl⟩)) h
  wire _ hw := absurd hw List.not_mem_nil
  earlier := List.pairwise_singleton ..

theorem SentRight.run (hat : UNetSender.AtPlace conf s) (hkept : Kept conf s P)
    (hI : SentRight conf s P l)
    (h : Reaches (Replication.step conf HostIsBigEndian) (fun _ _ => True) l l') :
    SentRight conf s P l' :=
  h.invariant (fun hI _ hstep => hI.step hat hkept hstep) hI

theorem kept_toldOnce (conf : UNetSenderConf) (s : UNetSender) (items : List UItemConf) :
    Kept conf s (ToldOnce items) := fun it _ value _ =>
  ⟨.inr ⟨(it, value), List.mem_cons_self, rfl, rfl⟩, fun _ _ _ _ _ h =>
    h.imp_right fun ⟨w, hw, htold⟩ => ⟨w, List.mem_cons_of_mem _ hw, htold⟩⟩

/-! ### What comes into the memory -/

/-- A sensor keeps its value or gets one that the packet has for it. -/
theorem applyPacket_value {r r' : UNetReceiver b} {sm sm' : SharedMemory} {p : UDPMessage}
    (h : r.applyPacket sm p = some (r', sm')) (sid : ObjectId) :
    sm'.value sid = sm.value sid ∨ ∃ k, (sid, sm'.value sid) ∈ p.items k := by
  have hkind : ∀ (k : Kind) (sm : SharedMemory), (r.kindEffect p k sm).value sid = sm.value sid ∨
      (sid, (r.kindEffect p k sm).value sid) ∈ p.items k := by
    intro k sm
    unfold UNetReceiver.kindEffect
    split
    · exact .inl rfl
    · rw [SharedMemory.writeAll_value]
      split
      · cases hlast : lastWrite (p.items k) sid with
        | none => exact .inl rfl
        | some val => exact .inr (lastWrite_mem hlast)
      · exact .inl rfl
  rw [UNetReceiver.applyPacket_sm h]
  rcases hkind .analog (r.kindEffect p .digital sm) with hsame | hnew
  · rw [hsame]
    exact (hkind .digital sm).imp_right fun hnew => ⟨.digital, hnew⟩
  · exact .inr ⟨.analog, hnew⟩

theorem turn_value {now : Nat} {r r' : UNetReceiver b} {sm sm' : SharedMemory}
    {applied : Option UDPMessage} (h : r.turn now sm = some (.again r' sm' applied)) (sid : ObjectId) :
    sm'.value sid = sm.value sid ∨ ∃ j k, (sid, sm'.value sid) ∈ (r.cbuf j).items k := by
  rcases UNetReceiver.turn_cases h with ⟨-, -, -, rfl, -⟩ | ⟨-, -, rfl, -, -⟩ | ⟨-, -, -, -, happly⟩
  · exact .inl rfl
  · exact .inl rfl
  · exact (applyPacket_value happly sid).imp_right fun ⟨k, hnew⟩ => ⟨_, k, hnew⟩

theorem update_value {clock : Nat → Nat} {r r' : UNetReceiver b} {sm sm' : SharedMemory}
    {ps : List UDPMessage} (h : r.update clock sm = some (r', sm', ps)) (sid : ObjectId) :
    sm'.value sid = sm.value sid ∨ ∃ j k, (sid, sm'.value sid) ∈ (r.cbuf j).items k := by
  obtain ⟨-, -, hvalue⟩ := UNetReceiver.update_rule (I := fun _ r₁ sm₁ _ => r₁.cbuf = r.cbuf ∧
      (sm₁.value sid = sm.value sid ∨ ∃ j k, (sid, sm₁.value sid) ∈ (r.cbuf j).items k))
    (fun hI _ hturn => ⟨(UNetReceiver.turn_frame hturn).1.trans hI.1,
      (turn_value hturn sid).elim (fun hsame => hsame ▸ hI.2) fun hnew => .inr (hI.1 ▸ hnew)⟩)
    ⟨rfl, .inl rfl⟩ h
  exact hvalue

/-- What waits at the receiver was right once, and so is all that came into the memory from it. -/
structure ReceivedRight (items : List UItemConf) (sm : SharedMemory) (l : Replication b) : Prop where
  slots : ∀ j k, ∀ w ∈ (l.session.rcv.cbuf j).items k, ToldOnce items l.told w.1 w.2
  memory : ∀ sid, l.session.sm.value sid = sm.value sid ∨
    ToldOnce items l.told sid (l.session.sm.value sid)

theorem SentRight.arrives {w : UDPMessage × List Told} {pack : UDPMessage} (hI : SentRight conf s P l)
    (hw : w ∈ l.wire) (h : w.1.arrive HostIsBigEndian = some pack) :
    pack = w.1.inOrder HostIsBigEndian := by
  rw [UDPMessage.arrive_eq (hI.wire w hw).countsFit] at h
  exact (Option.some.inj h).symm

theorem SentRight.told_suffix {w : UDPMessage × List Told} (hI : SentRight conf s P l)
    (hw : w ∈ l.wire) : w.2 <:+ l.told :=
  (List.pairwise_cons.mp hI.earlier).1 w.2 (List.mem_map_of_mem hw)

theorem ReceivedRight.step (hS : SentRight conf s (ToldOnce items) l) (hI : ReceivedRight items sm l)
    (h : l.step conf HostIsBigEndian e = some l') : ReceivedRight items sm l' := by
  rcases step_cases h with rfl | ⟨it, value, -, rfl⟩ | ⟨f, i, m, packetnum, -, -, rfl⟩ |
    ⟨w, pack, hw, harrive, rfl⟩ | ⟨clock, r, sm', ps, hupdate, rfl⟩
  · exact hI
  · have htold := List.suffix_cons (it, value) l.told
    exact ⟨fun j k w hw => (hI.slots j k w hw).mono htold,
      fun sid => (hI.memory sid).imp_right (·.mono htold)⟩
  · exact ⟨hI.slots, hI.memory⟩
  · refine ⟨fun j k v hv => ?_, hI.memory⟩
    have hpack : ∀ v ∈ pack.items k, ToldOnce items l.told v.1 v.2 := by
      rw [hS.arrives hw harrive]
      exact ((hS.wire w hw).mono fun _ _ hval => hval.mono (hS.told_suffix hw)).inOrder _ |>.items k
    change v ∈ ((l.session.rcv.receivePack pack).2.cbuf j).items k at hv
    rcases l.session.rcv.receivePack_slot pack j with hslot | hslot | hslot
    · rw [hslot] at hv
      exact hI.slots j k v hv
    · rw [hslot] at hv
      exact hpack v hv
    · rw [hslot, UDPMessage.setNum_items] at hv
      exact hpack v hv
  · refine ⟨fun j k v hv => ?_, fun sid => ?_⟩
    · change v ∈ (r.cbuf j).items k at hv
      rw [(UNetReceiver.update_spec hupdate).cbuf] at hv
      exact hI.slots j k v hv
    · change sm'.value sid = _ ∨ ToldOnce items l.told sid (sm'.value sid)
      rcases update_value hupdate sid with hsame | ⟨j, k, hnew⟩
      · rw [hsame]
        exact hI.memory sid
      · exact .inr (hI.slots j k _ hnew)

theorem initial_toldOnce (h : UNetSender.initItems conf items = some s) :
    SentRight conf s (ToldOnce items) (start HostIsBigEndian s rconf now sm : Replication b) :=
  sentRight_start h fun _ _ => .inl

/-- All that waits at the receiver fits its arrays. -/
theorem countsFit_step (hS : SentRight conf s P l)
    (hI : ∀ j, UDPMessage.CountsFit (l.session.rcv.cbuf j).header)
    (h : l.step conf HostIsBigEndian e = some l') (j : Fin b.val.toNat) :
    UDPMessage.CountsFit (l'.session.rcv.cbuf j).header := by
  rcases step_cases h with rfl | ⟨it, value, -, rfl⟩ | ⟨f, i, m, packetnum, -, -, rfl⟩ |
    ⟨w, pack, hw, harrive, rfl⟩ | ⟨clock, r, sm', ps, hupdate, rfl⟩
  · exact hI j
  · exact hI j
  · exact hI j
  · have hpack : UDPMessage.CountsFit pack.header := by
      rw [hS.arrives hw harrive]
      exact (hS.wire w hw).countsFit
    change UDPMessage.CountsFit ((l.session.rcv.receivePack pack).2.cbuf j).header
    rcases l.session.rcv.receivePack_slot pack j with hslot | hslot | hslot
    · rw [hslot]
      exact hI j
    · rw [hslot]
      exact hpack
    · rw [hslot]
      exact hpack
  · change UDPMessage.CountsFit (r.cbuf j).header
    rw [(UNetReceiver.update_spec hupdate).cbuf]
    exact hI j

/-- Nothing that can happen in a run leaves an array. -/
theorem Run.step_isSome (h : Run conf items HostIsBigEndian rconf now sm l) (e : Event) :
    (l.step conf HostIsBigEndian e).isSome = true := by
  obtain ⟨s, hs, hrun⟩ := h
  obtain ⟨hS, hfits⟩ := hrun.invariant (I := fun l => SentRight conf s (ToldOnce items) l ∧
      ∀ j, UDPMessage.CountsFit (l.session.rcv.cbuf j).header)
    (fun hI _ hstep => ⟨hI.1.step (UNetSender.initItems_atPlace hs) (kept_toldOnce conf s items) hstep,
      countsFit_step hI.1 hI.2 hstep⟩)
    ⟨initial_toldOnce hs, fun _ => (Carries.new (P := fun _ _ => True) HostIsBigEndian).countsFit⟩
  cases e with
  | updateSensor id value => rfl
  | real_send f i => rfl
  | receive i =>
    simp only [step]
    cases hw : l.wire[i]? with
    | none => rfl
    | some w =>
      dsimp only
      rw [UDPMessage.arrive_eq (hS.wire w (List.mem_of_getElem? hw)).countsFit]
      rfl
  | update clock =>
    obtain ⟨out, hout⟩ :=
      UNetReceiver.update_isSome ⟨fun j _ => hfits j, .inl (hfits _)⟩ clock l.session.sm
    simp only [step]
    rw [hout]
    rfl

/-- A sensor of the receiver has the value it had in the beginning, or one that the configuration of
the sender gives to the sensor of the same identifier, or one that the sender was told of it. -/
theorem values_told (h : Run conf items HostIsBigEndian rconf now sm l) (sid : ObjectId) :
    l.session.sm.value sid = sm.value sid ∨ ToldOnce items l.told sid (l.session.sm.value sid) := by
  obtain ⟨s, hs, hrun⟩ := h
  have hstart :
      SentRight conf s (ToldOnce items) (start HostIsBigEndian s rconf now sm : Replication b) ∧
        ReceivedRight items sm (start HostIsBigEndian s rconf now sm : Replication b) := by
    refine ⟨initial_toldOnce hs, fun j k w hw => ?_, fun sid => .inl rfl⟩
    change w ∈ (UDPMessage.new HostIsBigEndian).items k at hw
    rw [UDPMessage.new_items] at hw
    cases hw
  refine (hrun.invariant (I := fun l => SentRight conf s (ToldOnce items) l ∧ ReceivedRight items sm l)
    (fun hI _ hstep => ⟨hI.1.step (UNetSender.initItems_atPlace hs) (kept_toldOnce conf s items) hstep,
      hI.2.step hI.1 hstep⟩) hstart).2.memory sid

theorem Run.step (h : Run conf items HostIsBigEndian rconf now sm l)
    (hstep : l.step conf HostIsBigEndian e = some l') :
    Run conf items HostIsBigEndian rconf now sm l' := by
  obtain ⟨s, hs, hrun⟩ := h
  exact ⟨s, hs, hrun.tail trivial hstep⟩

/-- A sensor of another packet. -/
def second : UItemConf := { UNetSender.discrete 2 with sendfactor := 1 }

/-- The sensors of two packets are set, one of them again, and the packets that are sent arrive in
another order and twice. -/
def traffic : List Event :=
  [.updateSensor 1 1, .real_send 0 0, .receive 0, .updateSensor 2 1, .real_send 1 0,
    .updateSensor 1 0, .real_send 0 0, .receive 0, .receive 1, .receive 2, .receive 0]

def afterTraffic : Option (Replication .default) :=
  (UNetSender.initItems UNetSender.onePerPacket [UNetSender.discrete 1, second]).bind fun s =>
    traffic.foldlM (step UNetSender.onePerPacket false) (start false s .default 0 .initial)

/-- And then the sensors are updated. -/
theorem exists_run_updated : ∃ l : Replication .default,
    Run UNetSender.onePerPacket [UNetSender.discrete 1, second] false .default 0 .initial l ∧
      l.wire.length = 3 ∧ l.session.applied.map (fun p => p.header.num) = [1, 2, 3] := by
  obtain ⟨l, hl⟩ : ∃ l, afterTraffic = some l := Option.isSome_iff_exists.mp (by decide +kernel)
  obtain ⟨s, hs, htraffic⟩ := Option.bind_eq_some_iff.mp hl
  have hrun : Run UNetSender.onePerPacket [UNetSender.discrete 1, second] false .default 0 .initial
      l := ⟨s, hs, .of_foldlM (fun _ _ _ => trivial) htraffic⟩
  have hview : afterTraffic.map (fun l => (l.wire.length, l.session.applied.length,
      l.session.rcv.rnum, l.session.rcv.wnum, l.session.rcv.lockUpdate, l.session.rcv.mode)) =
        some (3, 0, 1, 4, false, .mEnabled) := by decide +kernel
  have hnums : afterTraffic.map (fun l => (List.range 3).map fun i =>
      (l.session.rcv.cbuf (BufferSize.slot .default (1 + UInt64.ofNat i))).header.num) =
        some ((List.range 3).map fun i => 1 + UInt64.ofNat i) := by decide +kernel
  rw [hl, Option.map_some, Option.some.injEq] at hview hnums
  simp only [Prod.mk.injEq] at hview
  obtain ⟨hwire, happlied, hrnum, hwnum, hlock, hmode⟩ := hview
  obtain ⟨l', hstep⟩ := Option.isSome_iff_exists.mp (hrun.step_isSome (.update fun _ => 0))
  have hupdate := hstep
  obtain ⟨⟨r, sm, ps⟩, hps, rfl⟩ := Option.map_eq_some_iff.mp hupdate
  have hfull := UNetReceiver.update_full (by rw [hrnum, hwnum]; decide)
    (by rw [hrnum, hwnum]; decide) (fun i hi => ?_) hlock (by rw [hmode]; decide) hps
  · refine ⟨_, hrun.step hstep, hwire, ?_⟩
    change (l.session.applied ++ ps).map _ = _
    rw [List.length_eq_zero_iff.mp happlied, List.nil_append, hfull, hrnum, hwnum, List.map_map]
    exact hnums.trans (by decide)
  · rw [hrnum, hwnum] at hi
    rw [hrnum]
    exact List.map_inj_left.mp hnums i (List.mem_range.mpr hi)

theorem values_told_updated : ∃ l : Replication .default, l.wire.length = 3 ∧
    ∀ sid, l.session.sm.value sid = 0 ∨
      ToldOnce [UNetSender.discrete 1, second] l.told sid (l.session.sm.value sid) := by
  obtain ⟨l, hrun, hwire, -⟩ := exists_run_updated
  exact ⟨l, hwire, values_told hrun⟩

/-! ### What the packets are applied in -/

/-- Only the item whose place it is has the identifier, and what is told of another is not of it. -/
theorem kept_toldLast (hright : s.Right conf) (items : List UItemConf) :
    Kept conf s (ToldLast items) := by
  intro it hit value told
  refine ⟨?_, fun slot id hslot hid val hval => ?_⟩
  · unfold ToldLast
    rw [List.find?_cons_of_pos (by simp)]
    exact ⟨rfl, rfl⟩
  · have hne : ¬ it.id.toInt = id.toInt := fun heq =>
      hslot ((hright.placed it hit).2 slot (by rw [hid, Int32.toInt_inj.mp heq]))
    unfold ToldLast
    rw [List.find?_cons_of_neg (by simpa using hne)]
    exact hval

/-- A reader that has not begun takes slot 0 for packet 0 only as long as nothing has been in it. -/
def Pristine (HostIsBigEndian : Bool) (r : UNetReceiver b) : Prop :=
  r.rnum = 0 → r.cbuf (b.slot 0) = .new HostIsBigEndian ∨ (r.cbuf (b.slot 0)).header.num ≠ 0

theorem pristine_receivePack {r : UNetReceiver b} {pack : UDPMessage} (hok : pack.isOk = true)
    (hb : 1 < b.val) (hI : Pristine HostIsBigEndian r) (hnum : pack.header.num ≠ 0)
    (hpos : 0 < r.wnum.toNat) (hlt : r.wnum.toNat < 2 ^ 63) :
    Pristine HostIsBigEndian (r.receivePack pack).2 := by
  by_cases hd : r.Disagree pack.header.num
  · rw [UNetReceiver.receivePack_of_disagree hok hd]
    exact fun h => absurd h hnum
  · by_cases hexp : pack.header.num = r.wnum
    · rw [UNetReceiver.receivePack_of_expected hok hd hexp]
      intro h
      dsimp only at h
      split at h
      · exact absurd (hexp.trans h) hnum
      next hne => exact absurd h hne
    · intro hzero
      have hrnum : r.rnum = 0 := by
        rw [UNetReceiver.receivePack_of_unexpected hok hd hexp] at hzero
        exact hzero
      -- the write position has not come to the end of the buffer, else the reader is too far behind
      have hclose : r.wnum.toNat < b.val.toNat := by
        by_contra hge
        refine hd (.inr ?_)
        have hb' := UInt64.lt_iff_toNat_lt.mp hb
        have hb1 : (1 : UInt64).toNat = 1 := rfl
        have hb2 : (2 : UInt64).toNat = 2 := rfl
        have hle : (2 : UInt64) ≤ b.val := UInt64.le_iff_toNat_le.mpr (by omega)
        rw [hrnum, absDiff, if_pos (by rw [UInt64.sub_zero]; exact hlt), UInt64.sub_zero, ge_iff_le,
          UInt64.le_iff_toNat_le, UInt64.toNat_sub_of_le _ _ hle]
        omega
      have hslot : b.slot 0 ≠ b.slot r.wnum := by
        intro heq
        rw [b.slot_eq_iff, Nat.mod_eq_of_lt hclose] at heq
        exact absurd (heq.symm.trans (Nat.zero_mod _)) hpos.ne'
      by_cases hown : b.slot 0 = b.slot pack.header.num
      · right
        rw [hown, UNetReceiver.receivePack_slot_num hok (hown ▸ hslot)]
        exact hnum
      · rw [UNetReceiver.receivePack_other hslot hown]
        exact hI hrnum

/-- The session as if it had received the message that its slots are filled with in the beginning. -/
def padded (HostIsBigEndian : Bool) (s : Session b) : Session b :=
  { s with received := s.received ++ [.new HostIsBigEndian] }

/-- The packets on the wire are numbered from 1 on, and what the receiver has are such packets. -/
structure Ordered (HostIsBigEndian : Bool) (l : Replication b) : Prop where
  packs : ∀ f, ∀ m ∈ l.sender.mypacks f, m.isOk = true
  wire : ∀ w ∈ l.wire, w.1.isOk = true ∧ w.1.header.num.toNat ∈ Set.Icc 1 l.wire.length
  packetnum : l.packetnum.toNat = l.wire.length
  falling : (l.wire.map fun w => w.1.header.num).Pairwise (· > ·)
  received : ∀ p ∈ l.session.received, ∃ w ∈ l.wire, p = w.1.inOrder HostIsBigEndian
  wnum : l.session.rcv.wnum.toNat ∈ Set.Icc 1 (l.wire.length + 1)
  pristine : Pristine HostIsBigEndian l.session.rcv
  delivery : (padded HostIsBigEndian l.session).DeliveryInv

theorem ordered_start (h : UNetSender.initItems conf items = some s) :
    Ordered HostIsBigEndian (start HostIsBigEndian s rconf now sm : Replication b) where
  packs := UNetSender.initItems_forall (Q := fun m => m.isOk = true) rfl (fun _ hm => hm)
    (fun _ _ _ _ m hm => (m.isOk_add _ _ _).trans hm) h
  wire _ hw := absurd hw List.not_mem_nil
  packetnum := rfl
  falling := .nil
  received _ hp := absurd hp List.not_mem_nil
  wnum := ⟨Nat.le_refl 1, Nat.le_refl 1⟩
  pristine _ := .inl rfl
  delivery :=
    { slots := fun _ hj => absurd rfl hj
      below := fun _ hp => absurd hp List.not_mem_nil
      inOrder := ⟨.nil, fun _ hp => absurd hp List.not_mem_nil⟩ }

theorem Ordered.real_send {f : Int} {i : Nat} {m : UDPMessage} {packetnum : UInt64}
    (hI : Ordered HostIsBigEndian l) (hm : (l.sender.mypacks f)[i]? = some m)
    (hnum : packetnum.toNat = l.wire.length + 1) (big : Bool) :
    Ordered HostIsBigEndian { l with
      sender := l.sender.modifyPack f i (UDPMessage.stamp big · packetnum)
      packetnum
      wire := (UDPMessage.stamp big m packetnum, l.told) :: l.wire } := by
  refine ⟨fun f' m' hm' => ?_, fun w hw => ?_, hnum, ?_, fun p hp => ?_,
    ⟨hI.wnum.1, hI.wnum.2.trans (Nat.le_succ _)⟩, hI.pristine, hI.delivery⟩
  · obtain ⟨n, m₀, hm₀, hcase⟩ := UNetSender.mem_modifyPack hm'
    have hok := hI.packs f' m₀ (List.mem_of_getElem? hm₀)
    rcases hcase with ⟨-, -, rfl⟩ | ⟨-, rfl⟩
    · rw [UDPMessage.isOk_stamp, hok]
    · exact hok
  · rcases List.mem_cons.mp hw with rfl | hw
    · rw [UDPMessage.isOk_stamp, UDPMessage.num_stamp, hnum]
      exact ⟨hI.packs f m (List.mem_of_getElem? hm), Nat.le_add_left 1 _, Nat.le_refl _⟩
    · obtain ⟨hok, hge, hle⟩ := hI.wire w hw
      exact ⟨hok, hge, hle.trans (Nat.le_succ _)⟩
  · rw [List.map_cons, List.pairwise_cons]
    refine ⟨fun n hn => ?_, hI.falling⟩
    obtain ⟨w, hw, rfl⟩ := List.mem_map.mp hn
    rw [UDPMessage.num_stamp, gt_iff_lt, UInt64.lt_iff_toNat_lt, hnum]
    exact Nat.lt_succ_of_le (hI.wire w hw).2.2
  · obtain ⟨w, hw, hpw⟩ := hI.received p hp
    exact ⟨w, List.mem_cons_of_mem _ hw, hpw⟩

theorem Ordered.receive {w : UDPMessage × List Told} (hI : Ordered HostIsBigEndian l) (hw : w ∈ l.wire)
    (hb : 1 < b.val) (hlt : l.wire.length + 1 < 2 ^ 63) :
    Ordered HostIsBigEndian { l with session := l.session.accept (w.1.inOrder HostIsBigEndian) } := by
  obtain ⟨hok, hge, hle⟩ := hI.wire w hw
  have hok' : (w.1.inOrder HostIsBigEndian).isOk = true := hok
  have hne : (w.1.inOrder HostIsBigEndian).header.num ≠ 0 := by
    intro hzero
    have hnum : w.1.header.num = 0 := hzero
    rw [hnum] at hge
    exact absurd hge (by decide)
  refine ⟨hI.packs, hI.wire, hI.packetnum, hI.falling, fun p hp => ?_, ?_,
    pristine_receivePack hok' hb hI.pristine hne hI.wnum.1 (hI.wnum.2.trans_lt hlt),
    Session.deliveryInv_accept hok' hI.delivery⟩
  · rcases List.mem_cons.mp hp with rfl | hp
    · exact ⟨w, hw, rfl⟩
    · exact hI.received p hp
  · have hsucc : ((w.1.inOrder HostIsBigEndian).header.num + 1).toNat = w.1.header.num.toNat + 1 := by
      rw [UInt64.toNat_add]
      exact Nat.mod_eq_of_lt (by
        change w.1.header.num.toNat + 1 < 2 ^ 64
        omega)
    have hnext :
        ((w.1.inOrder HostIsBigEndian).header.num + 1).toNat ∈ Set.Icc 1 (l.wire.length + 1) := by
      rw [hsucc]
      exact ⟨Nat.le_add_left 1 _, Nat.succ_le_succ hle⟩
    change (l.session.rcv.receivePack (w.1.inOrder HostIsBigEndian)).2.wnum.toNat ∈ _
    by_cases hd : l.session.rcv.Disagree (w.1.inOrder HostIsBigEndian).header.num
    · rw [UNetReceiver.receivePack_of_disagree hok' hd]
      exact hnext
    · by_cases hexp : (w.1.inOrder HostIsBigEndian).header.num = l.session.rcv.wnum
      · rw [UNetReceiver.receivePack_of_expected hok' hd hexp]
        dsimp only
        rw [← hexp]
        exact hnext
      · rw [UNetReceiver.receivePack_of_unexpected hok' hd hexp]
        dsimp only
        split
        · exact hnext
        · exact hI.wnum

theorem Ordered.update {clock : Nat → Nat} {r : UNetReceiver b} {sm' : SharedMemory}
    {ps : List UDPMessage} (hI : Ordered HostIsBigEndian l)
    (h : l.session.rcv.update clock l.session.sm = some (r, sm', ps)) :
    Ordered HostIsBigEndian { l with session := l.session.applyAll r sm' ps } := by
  have hU := UNetReceiver.update_spec h
  have hdue : ¬ (padded HostIsBigEndian l.session).EmptySlotDue := by
    rintro ⟨hrnum, -, hnum, hnew, -⟩
    rcases hI.pristine hrnum with hslot | hslot
    · exact hnew (List.mem_append_right _ (List.mem_singleton.mpr hslot))
    · exact hslot hnum
  refine ⟨hI.packs, hI.wire, hI.packetnum, hI.falling, hI.received, ?_, fun hzero => ?_,
    Session.deliveryInv_applyAll hI.delivery hdue h⟩
  · change r.wnum.toNat ∈ _
    rw [hU.wnum]
    exact hI.wnum
  · have hle := hU.rnum_le
    rw [show r.rnum = 0 from hzero] at hle
    change r.cbuf (b.slot 0) = _ ∨ (r.cbuf (b.slot 0)).header.num ≠ 0
    rw [hU.cbuf]
    exact hI.pristine (by grind)

theorem Ordered.step (hS : SentRight conf s P l) (hI : Ordered HostIsBigEndian l) (hb : 1 < b.val)
    (h : l.step conf HostIsBigEndian e = some l') (hlt : l'.wire.length + 1 < 2 ^ 63) :
    Ordered HostIsBigEndian l' := by
  rcases step_cases h with rfl | ⟨it, value, hit, rfl⟩ | ⟨f, i, m, packetnum, hm, hnum, rfl⟩ |
    ⟨w, pack, hw, harrive, rfl⟩ | ⟨clock, r, sm', ps, hupdate, rfl⟩
  · exact hI
  · refine { hI with packs := fun f m hm => ?_ }
    obtain ⟨n, m', hm', hcase⟩ := UNetSender.mem_modifyPack hm
    have hok := hI.packs f m' (List.mem_of_getElem? hm')
    rcases hcase with ⟨-, -, rfl⟩ | ⟨-, rfl⟩
    · rw [UDPMessage.isOk_setData, hok]
    · exact hok
  · refine hI.real_send hm ?_ _
    have hlen : l.wire.length + 1 < 2 ^ 63 := Nat.lt_of_succ_lt hlt
    have hsucc : (l.packetnum + 1).toNat = l.wire.length + 1 := by
      rw [UInt64.toNat_add, hI.packetnum]
      exact Nat.mod_eq_of_lt (by
        change l.wire.length + 1 < 2 ^ 64
        omega)
    rw [hnum, if_neg, hsucc]
    intro hzero
    rw [hzero] at hsucc
    exact absurd hsucc.symm (Nat.succ_ne_zero _)
  · rw [hS.arrives hw harrive]
    exact hI.receive hw hb hlt
  · exact hI.update hupdate

theorem wire_length_le (h : l.step conf HostIsBigEndian e = some l') :
    l.wire.length ≤ l'.wire.length := by
  rcases step_cases h with rfl | ⟨it, value, -, rfl⟩ | ⟨f, i, m, packetnum, -, -, rfl⟩ |
    ⟨w, pack, -, -, rfl⟩ | ⟨clock, r, sm', ps, -, rfl⟩
  · exact Nat.le_refl _
  · exact Nat.le_refl _
  · exact Nat.le_succ _
  · exact Nat.le_refl _
  · exact Nat.le_refl _

/-- Packets that were received, and whose numbers increase, were sent in this order. -/
theorem Ordered.sublist (hI : Ordered HostIsBigEndian l) {ps : List UDPMessage}
    (hincreasing : (ps.map fun p => p.header.num).Pairwise (· < ·))
    (hreceived : ∀ p ∈ ps, p ∈ l.session.received) :
    ∃ sub, List.Sublist sub l.wire.reverse ∧ ps = sub.map fun w => w.1.inOrder HostIsBigEndian := by
  let before : UDPMessage → UDPMessage → Prop := fun p q => p.header.num < q.header.num
  have hanti : Std.Antisymm before := ⟨fun _ _ h h' => absurd (h.trans h') (lt_irrefl _)⟩
  have hps : ps.Pairwise before := List.pairwise_map.mp hincreasing
  have hwire : (l.wire.reverse.map fun w => w.1.inOrder HostIsBigEndian).Pairwise before :=
    List.pairwise_map.mpr (List.pairwise_reverse.mpr (List.pairwise_map.mp hI.falling))
  have hnodup : ps.Nodup := hps.imp fun h heq => absurd (heq ▸ h) (lt_irrefl _)
  refine List.sublist_map_iff.mp (List.sublist_of_subperm_of_pairwise (r := before)
    (List.subperm_of_subset hnodup fun p hp => ?_) hps hwire)
  obtain ⟨w, hw, rfl⟩ := hI.received p (hreceived p hp)
  exact List.mem_map_of_mem (List.mem_reverse.mpr hw)

/-- A packet that is no packet is the empty slot, and comes before all others. -/
theorem Ordered.applied (hI : Ordered HostIsBigEndian l) :
    ∃ sub, List.Sublist sub l.wire.reverse ∧
      (l.session.applied = sub.map (fun w => w.1.inOrder HostIsBigEndian) ∨
        l.session.applied =
          .new HostIsBigEndian :: sub.map fun w => w.1.inOrder HostIsBigEndian) := by
  obtain ⟨hincreasing, hmem⟩ := hI.delivery.inOrder
  change (l.session.applied.map _).Pairwise _ at hincreasing
  change ∀ p ∈ l.session.applied, p ∈ l.session.received ++ [.new HostIsBigEndian] at hmem
  have hnew : ∀ p ∈ l.session.applied, p.header.num ≠ 0 → p ∈ l.session.received := by
    intro p hp hnum
    rcases List.mem_append.mp (hmem p hp) with h | h
    · exact h
    · rw [List.mem_singleton.mp h] at hnum
      exact absurd rfl hnum
  by_cases hzero : ∃ p ∈ l.session.applied, p.header.num = 0
  · cases happlied : l.session.applied with
    | nil =>
      obtain ⟨p, hp, -⟩ := hzero
      rw [happlied] at hp
      cases hp
    | cons q ps =>
      rw [happlied] at hincreasing hmem hzero hnew
      rw [List.map_cons, List.pairwise_cons] at hincreasing
      have hpos : ∀ p ∈ ps, p.header.num ≠ 0 := fun p hp hnum => by
        have hlt := hincreasing.1 _ (List.mem_map_of_mem hp)
        rw [hnum] at hlt
        exact absurd hlt (by grind)
      have hq : q = .new HostIsBigEndian := by
        obtain ⟨p, hp, hnum⟩ := hzero
        rcases List.mem_cons.mp hp with rfl | hp
        · rcases List.mem_append.mp (hmem p List.mem_cons_self) with h | h
          · obtain ⟨w, hw, rfl⟩ := hI.received p h
            have hge := (hI.wire w hw).2.1
            rw [show w.1.header.num = 0 from hnum] at hge
            exact absurd hge (by decide)
          · exact List.mem_singleton.mp h
        · exact absurd hnum (hpos p hp)
      obtain ⟨sub, hsub, rfl⟩ := hI.sublist hincreasing.2 fun p hp =>
        hnew p (List.mem_cons_of_mem _ hp) (hpos p hp)
      exact ⟨sub, hsub, .inr (by rw [hq])⟩
  · obtain ⟨sub, hsub, heq⟩ := hI.sublist hincreasing fun p hp =>
      hnew p hp fun hnum => hzero ⟨p, hp, hnum⟩
    exact ⟨sub, hsub, .inl heq⟩

/-- What the receiver has applied since it last began anew is some of the packets, in the order in which
they were sent and each once; before them it may have taken an empty slot.  Every packet has for each of
its sensors the value that the sender was told last before it sent the packet. -/
theorem applied_in_order (hfits : UNetSender.Fits conf items) (hb : 1 < b.val)
    (h : Run conf items HostIsBigEndian rconf now sm l) (hlt : l.wire.length + 1 < 2 ^ 63) :
    ∃ sub, List.Sublist sub l.wire.reverse ∧
      (l.session.applied = sub.map (fun w => w.1.inOrder HostIsBigEndian) ∨
        l.session.applied =
          .new HostIsBigEndian :: sub.map fun w => w.1.inOrder HostIsBigEndian) ∧
      (sub.Pairwise fun w w' => w.2 <:+ w'.2) ∧
      ∀ w ∈ sub, w.2 <:+ l.told ∧
        ∀ k, ∀ v ∈ (w.1.inOrder HostIsBigEndian).items k, ToldLast items w.2 v.1 v.2 := by
  obtain ⟨s, hs, hrun⟩ := h
  have hkept := kept_toldLast ((UNetSender.right_iff_fits conf items hs).mpr hfits) items
  have hinv : SentRight conf s (ToldLast items) l ∧
      (l.wire.length + 1 < 2 ^ 63 → Ordered HostIsBigEndian l) := by
    refine hrun.invariant (I := fun l => SentRight conf s (ToldLast items) l ∧
      (l.wire.length + 1 < 2 ^ 63 → Ordered HostIsBigEndian l)) (fun hI _ hstep => ?_)
      ⟨sentRight_start hs fun _ _ h => h, fun _ => ordered_start hs⟩
    refine ⟨hI.1.step (UNetSender.initItems_atPlace hs) hkept hstep, fun hlt => ?_⟩
    have hle := wire_length_le hstep
    exact (hI.2 (by omega)).step hI.1 hb hstep hlt
  obtain ⟨hS, hO⟩ := hinv
  obtain ⟨sub, hsub, happlied⟩ := (hO hlt).applied
  have hmem : ∀ w ∈ sub, w ∈ l.wire := fun w hw => List.mem_reverse.mp (hsub.subset hw)
  refine ⟨sub, hsub, happlied, ?_, fun w hw => ⟨hS.told_suffix (hmem w hw), fun k =>
    ((hS.wire w (hmem w hw)).inOrder _).items k⟩⟩
  refine List.Pairwise.sublist hsub (List.pairwise_reverse.mpr ?_)
  exact List.pairwise_map.mp (List.pairwise_cons.mp hS.earlier).2

theorem applied_in_order_updated : ∃ l : Replication .default,
    l.session.applied.map (fun p => p.header.num) = [1, 2, 3] ∧
    ∃ sub, List.Sublist sub l.wire.reverse ∧
      (l.session.applied = sub.map (fun w => w.1.inOrder false) ∨
        l.session.applied = .new false :: sub.map fun w => w.1.inOrder false) ∧
      (sub.Pairwise fun w w' => w.2 <:+ w'.2) ∧
      ∀ w ∈ sub, w.2 <:+ l.told ∧ ∀ k, ∀ v ∈ (w.1.inOrder false).items k,
        ToldLast [UNetSender.discrete 1, second] w.2 v.1 v.2 := by
  obtain ⟨l, hrun, hwire, happlied⟩ := exists_run_updated
  have hfits : UNetSender.Fits UNetSender.onePerPacket [UNetSender.discrete 1, second] := by
    intro k f
    refine .inr ?_
    by_cases hf : f = 0
    · subst hf
      cases k <;> decide
    · refine (List.countP_cons_of_neg ?_).trans_le List.countP_le_length
      exact fun htakes => hf (of_decide_eq_true htakes).2.2.symm
  exact ⟨l, happlied, applied_in_order hfits (by decide) hrun (by rw [hwire]; decide)⟩

end Replication

end Uniset.UNetUDP
