import Uniset.Processes.USensorInfo
import Uniset.UNetUDP.UDPPacket
import Mathlib.Data.List.Nodup
import Mathlib.Data.List.Perm.Subperm

/-! The sender lays out its sensors in packets: each send factor has packets of its own, with the
analog and the digital data side by side. -/

namespace Uniset.UNetUDP

open Uniset.Processes

inductive DataKind
  | A
  | D
  deriving DecidableEq

def DataKind.MaxCount : DataKind → Nat
  | .A => MaxACount
  | .D => MaxDCount

def DataKind.of : IOType → DataKind
  | .DI | .DO => .D
  | .AI | .AO => .A

namespace UDPMessage

variable (m : UDPMessage)

/-- A full message is left as it is, and the index is the first past the array. -/
def addAData (dat : UDPAData) : Nat × UDPMessage :=
  if h : m.header.acount.toNat < MaxACount then
    (m.header.acount.toNat,
      { m with
        header := { m.header with acount := m.header.acount + 1 }
        a_dat := Function.update m.a_dat ⟨m.header.acount.toNat, h⟩ dat })
  else (MaxACount, m)

theorem div_lt_MaxDDataCount {index : Nat} (h : index < MaxDCount) : index / 8 < MaxDDataCount := by
  unfold MaxDCount at h
  unfold MaxDDataCount MaxDCount
  omega

def setDData (index : Nat) (val : Bool) : Bool × UDPMessage :=
  if h : index < MaxDCount then
    let i : Fin MaxDDataCount := ⟨index / 8, div_lt_MaxDDataCount h⟩
    let mask : UInt8 := 1 <<< UInt8.ofNat (index % 8)
    let d := m.d_dat i
    (true, { m with d_dat := Function.update m.d_dat i (if val then d ||| mask else d &&& ~~~mask) })
  else (false, m)

def addDData (id : Int32) (val : Bool) : Nat × UDPMessage :=
  if h : m.header.dcount.toNat < MaxDCount then
    let m := { m with d_id := Function.update m.d_id ⟨m.header.dcount.toNat, h⟩ id }
    match m.setDData m.header.dcount.toNat val with
    | (true, m) =>
      (m.header.dcount.toNat, { m with header := { m.header with dcount := m.header.dcount + 1 } })
    | (false, m) => (MaxDCount, m)
  else (MaxDCount, m)

def add (id : Int32) (val : Int) : DataKind → Nat × UDPMessage
  | .A => m.addAData ⟨id, Int64.ofInt val⟩
  | .D => m.addDData id (decide (val ≠ 0))

def dataSize : DataKind → Nat
  | .A => m.header.acount.toNat
  | .D => m.header.dcount.toNat

def idAt (k : DataKind) (i : Nat) : Option Int32 :=
  if i < m.dataSize k then
    match k with
    | .A => (m.aDat i).map UDPAData.id
    | .D => m.dIdAt i
  else none

/-- The fields that do not change. -/
def setIds (nodeID procID : Int64) : UDPMessage := { m with header := { m.header with nodeID, procID } }

end UDPMessage

/-- An item of the configuration.  One without an identifier has the default one, one of an unknown
type none. -/
structure UItemConf where
  id : Int32
  sendfactor : Int
  iotype : Option IOType
  default_val : Int
  undefined_value : Option Int

structure UItem where
  iotype : IOType
  id : Int32
  pack_num : Nat
  pack_ind : Nat
  pack_sendfactor : Int
  undefined_value : Int

structure UNetSenderConf where
  HostIsBigEndian : Bool
  nodeID : Int64
  procID : Int64
  /-- `maxAData` and `maxDData` -/
  maxData : DataKind → Nat
  maxData_pos : ∀ k, 0 < maxData k
  maxData_le : ∀ k, maxData k ≤ k.MaxCount

/-- `packs_num` has `packs_anum` and `packs_dnum`. -/
structure UNetSender where
  mypacks : Int → List UDPMessage
  packs_num : DataKind → Int → Nat
  items : List UItem

namespace UNetSender

variable (conf : UNetSenderConf) (s : UNetSender)

def new : UNetSender where
  mypacks f :=
    if f = 0 then [(UDPMessage.new conf.HostIsBigEndian).setIds conf.nodeID conf.procID] else []
  packs_num _ _ := 0
  items := []

/-- The packets, at least up to the number `n`. -/
def grow (pk : List UDPMessage) (n : Nat) : List UDPMessage :=
  if pk.length ≤ n then pk ++ List.replicate (n + 1 - pk.length) (.new conf.HostIsBigEndian) else pk

/-- A packet that there is not yet is new. -/
def packet (pk : List UDPMessage) (n : Nat) : UDPMessage := pk[n]?.getD (.new conf.HostIsBigEndian)

/-- The branches for the two kinds of data are the same.  Returns the packets, and the number of the
packet with the index in it. -/
def packItem (k : DataKind) (pk : List UDPMessage) (num : Nat) (sid : Int32) (defval : Int) :
    List UDPMessage × Nat × Nat :=
  let pk := grow conf pk num
  let (ind, mypack) := (packet conf pk num).add sid defval k
  let pk := pk.set num mypack
  if conf.maxData k ≤ ind then
    let num := num + 1
    let pk := grow conf pk num
    let (ind, mypack2) := (packet conf pk num).add sid defval k
    (pk.set num (mypack2.setIds conf.nodeID conf.procID), num, ind)
  else (pk, num, ind)

/-- The program terminates when a message overflows or an identifier is there already. -/
def initItem (it : UItemConf) : Option UNetSender :=
  if it.id = -1 then some s
  else
    match it.iotype with
    | none => some s
    | some iotype =>
      let k := DataKind.of iotype
      let (pk, pack_num, pack_ind) :=
        packItem conf k (s.mypacks it.sendfactor) (s.packs_num k it.sendfactor) it.id it.default_val
      if k.MaxCount ≤ pack_ind then none
      else if it.id ∈ s.items.map UItem.id then none
      else some
        { mypacks := Function.update s.mypacks it.sendfactor pk
          packs_num :=
            Function.update s.packs_num k (Function.update (s.packs_num k) it.sendfactor pack_num)
          items := s.items ++ [⟨iotype, it.id, pack_num, pack_ind, it.sendfactor,
            it.undefined_value.getD not_specified_value⟩] }

def initItems (items : List UItemConf) : Option UNetSender := items.foldlM (initItem conf) (new conf)

/-! ## What is right -/

/-- A place in the packets. -/
structure Slot where
  kind : DataKind
  sendfactor : Int
  num : Nat
  ind : Nat
  deriving DecidableEq

def slotOf (it : UItem) : Slot := ⟨.of it.iotype, it.pack_sendfactor, it.pack_num, it.pack_ind⟩

def idAt (slot : Slot) : Option Int32 :=
  (packet conf (s.mypacks slot.sendfactor) slot.num).idAt slot.kind slot.ind

structure Right : Prop where
  placed : ∀ it ∈ s.items, idAt conf s (slotOf it) = some it.id ∧
    ∀ slot, idAt conf s slot = some it.id → slot = slotOf it
  apart : ∀ it ∈ s.items, ∀ it' ∈ s.items, slotOf it = slotOf it' → it = it'
  bounded : ∀ f, ∀ m ∈ s.mypacks f, ∀ k, m.dataSize k ≤ conf.maxData k

/-- The item is packed with the data of a kind and a factor. -/
def Takes (k : DataKind) (f : Int) (it : UItemConf) : Prop :=
  it.id ≠ -1 ∧ it.iotype.map DataKind.of = some k ∧ it.sendfactor = f

instance (k : DataKind) (f : Int) : DecidablePred (Takes k f) := fun _ =>
  inferInstanceAs (Decidable (_ ∧ _ ∧ _))

/-- The data of every factor fit in one packet, or the limit is that of the array. -/
def Fits (items : List UItemConf) : Prop :=
  ∀ k f, conf.maxData k = k.MaxCount ∨ items.countP (Takes k f) ≤ conf.maxData k

end UNetSender

/-! ## One message -/

namespace UDPMessage

variable {m : UDPMessage} {k : DataKind}

@[simp] theorem dataSize_new (host : Bool) (k : DataKind) : (new host).dataSize k = 0 := by
  cases k with
  | A => rfl
  | D => rfl

@[simp] theorem dataSize_setIds (m : UDPMessage) (nodeID procID : Int64) (k : DataKind) :
    (m.setIds nodeID procID).dataSize k = m.dataSize k := by
  cases k with
  | A => rfl
  | D => rfl

@[simp] theorem idAt_setIds (m : UDPMessage) (nodeID procID : Int64) (k : DataKind) (i : Nat) :
    (m.setIds nodeID procID).idAt k i = m.idAt k i := by
  cases k with
  | A => rfl
  | D => rfl

theorem idAt_of_le {i : Nat} (h : m.dataSize k ≤ i) : m.idAt k i = none := if_neg (Nat.not_lt_of_le h)

/-- The message has one identifier more, at the end of its kind. -/
structure Added (m m' : UDPMessage) (k : DataKind) (id : Int32) : Prop where
  count_self : m'.dataSize k = m.dataSize k + 1
  count_other : ∀ k', k' ≠ k → m'.dataSize k' = m.dataSize k'
  idAt : ∀ k' i, m'.idAt k' i = if k' = k ∧ i = m.dataSize k then some id else m.idAt k' i

theorem toNat_add_one {x : UInt16} {n : Nat} (h : x.toNat < n) (hn : n ≤ 4000) :
    (x + 1).toNat = x.toNat + 1 := by
  rw [UInt16.toNat_add]
  exact Nat.mod_eq_of_lt (Nat.lt_of_le_of_lt (Nat.le_trans h hn) (by decide))

theorem add_of_full (h : k.MaxCount ≤ m.dataSize k) (id : Int32) (val : Int) :
    m.add id val k = (k.MaxCount, m) := by
  cases k with
  | A => exact dif_neg (Nat.not_lt_of_le h)
  | D => exact dif_neg (Nat.not_lt_of_le h)

/-- An array that is filled one place further. -/
theorem filled_at {α β : Type} {len n : Nat} (a : Fin len → α) (f : α → β) (h : n < len) (x : α)
    (i : Nat) :
    (if i < n + 1 then
      (if hi : i < len then some (f (Function.update a ⟨n, h⟩ x ⟨i, hi⟩)) else none) else none) =
      if i = n then some (f x)
      else if i < n then (if hi : i < len then some (f (a ⟨i, hi⟩)) else none) else none := by
  by_cases heq : i = n
  · subst heq
    rw [if_pos (Nat.lt_succ_self i), dif_pos h, if_pos rfl, Function.update_self]
  · rw [if_neg heq]
    by_cases hlt : i < n
    · have hne : (⟨i, hlt.trans h⟩ : Fin len) ≠ ⟨n, h⟩ := fun hfin => heq (congrArg Fin.val hfin)
      rw [if_pos (Nat.lt_succ_of_lt hlt), if_pos hlt, dif_pos (hlt.trans h), dif_pos (hlt.trans h),
        Function.update_of_ne hne]
    · rw [if_neg hlt, if_neg (by omega)]

theorem idAt_A (m : UDPMessage) (i : Nat) : m.idAt .A i = if i < m.header.acount.toNat then
    (if hi : i < MaxACount then some (m.a_dat ⟨i, hi⟩).id else none) else none := by
  change (if i < m.header.acount.toNat then (m.aDat i).map UDPAData.id else none) = _
  unfold aDat
  by_cases hlt : i < m.header.acount.toNat
  · rw [if_pos hlt, if_pos hlt]
    by_cases hmax : i < MaxACount
    · rw [dif_pos hmax, dif_pos hmax]
      rfl
    · rw [dif_neg hmax, dif_neg hmax]
      rfl
  · rw [if_neg hlt, if_neg hlt]

theorem idAt_D (m : UDPMessage) (i : Nat) : m.idAt .D i = if i < m.header.dcount.toNat then
    (if hi : i < MaxDCount then some (m.d_id ⟨i, hi⟩) else none) else none := rfl

theorem added_addAData (h : m.header.acount.toNat < MaxACount) (dat : UDPAData) :
    (m.addAData dat).1 = m.dataSize .A ∧ Added m (m.addAData dat).2 .A dat.id := by
  unfold addAData
  rw [dif_pos h]
  have hcount : (m.header.acount + 1).toNat = m.header.acount.toNat + 1 := toNat_add_one h (by decide)
  refine ⟨rfl, hcount, fun k' hk' => ?_, fun k' i => ?_⟩
  · cases k' with
    | A => exact absurd rfl hk'
    | D => rfl
  · cases k' with
    | D => rfl
    | A =>
      rw [idAt_A, idAt_A]
      dsimp only
      rw [hcount, filled_at m.a_dat UDPAData.id h dat i]
      exact if_congr (and_iff_right rfl).symm rfl rfl

theorem added_addDData (h : m.header.dcount.toNat < MaxDCount) (id : Int32) (val : Bool) :
    (m.addDData id val).1 = m.dataSize .D ∧ Added m (m.addDData id val).2 .D id := by
  unfold addDData setDData
  rw [dif_pos h]
  dsimp only
  rw [dif_pos h]
  have hcount : (m.header.dcount + 1).toNat = m.header.dcount.toNat + 1 := toNat_add_one h (by decide)
  refine ⟨rfl, hcount, fun k' hk' => ?_, fun k' i => ?_⟩
  · cases k' with
    | A => rfl
    | D => exact absurd rfl hk'
  · cases k' with
    | A => rfl
    | D =>
      rw [idAt_D, idAt_D]
      dsimp only
      rw [hcount, filled_at m.d_id (fun x => x) h id i]
      exact if_congr (and_iff_right rfl).symm rfl rfl

theorem added_add (h : m.dataSize k < k.MaxCount) (id : Int32) (val : Int) :
    (m.add id val k).1 = m.dataSize k ∧ Added m (m.add id val k).2 k id := by
  cases k with
  | A => exact added_addAData h _
  | D => exact added_addDData h _ _

theorem dataSize_le_add (m : UDPMessage) (id : Int32) (val : Int) (k k' : DataKind) :
    m.dataSize k' ≤ (m.add id val k).2.dataSize k' := by
  rcases Nat.lt_or_ge (m.dataSize k) k.MaxCount with hroom | hfull
  · obtain ⟨-, hadded⟩ := added_add hroom id val
    by_cases hk : k' = k
    · rw [hk, hadded.count_self]
      exact Nat.le_succ _
    · rw [hadded.count_other k' hk]
  · rw [add_of_full hfull]

theorem Added.setIds {m m' : UDPMessage} {id : Int32} (h : Added m m' k id) (nodeID procID : Int64) :
    Added m (m'.setIds nodeID procID) k id := by
  refine ⟨?_, fun k' hk' => ?_, fun k' i => ?_⟩
  · rw [dataSize_setIds, h.count_self]
  · rw [dataSize_setIds, h.count_other k' hk']
  · rw [idAt_setIds, h.idAt]

end UDPMessage

/-! ## The packets of a factor -/

namespace UNetSender

variable {conf : UNetSenderConf} {pk : List UDPMessage} {k : DataKind} {num : Nat} {sid : Int32}
  {defval : Int}

theorem packet_grow (pk : List UDPMessage) (n j : Nat) :
    packet conf (grow conf pk n) j = packet conf pk j := by
  unfold packet grow
  split
  · by_cases hj : j < pk.length
    · rw [List.getElem?_append_left hj]
    · rw [List.getElem?_append_right (Nat.le_of_not_lt hj), List.getElem?_eq_none (Nat.le_of_not_lt hj),
        List.getElem?_replicate]
      split
      · rfl
      · rfl
  · rfl

theorem length_grow (pk : List UDPMessage) (n : Nat) : n < (grow conf pk n).length := by
  unfold grow
  split
  · rw [List.length_append, List.length_replicate]
    omega
  · omega

/-- Only the packet that is written changes. -/
theorem packet_set_grow (pk : List UDPMessage) (n : Nat) (m : UDPMessage) (j : Nat) :
    packet conf ((grow conf pk n).set n m) j = if j = n then m else packet conf pk j := by
  by_cases hj : j = n
  · subst hj
    rw [if_pos rfl]
    unfold packet
    rw [List.getElem?_set_self (length_grow pk j)]
    rfl
  · rw [if_neg hj, ← packet_grow pk n j]
    unfold packet
    rw [List.getElem?_set_ne (Ne.symm hj)]

/-- One message of the packets has one identifier more. -/
def Put (conf : UNetSenderConf) (pk : List UDPMessage) (k : DataKind) (sid : Int32) (num : Nat)
    (pk' : List UDPMessage) : Prop :=
  ∃ m, UDPMessage.Added (packet conf pk num) m k sid ∧
    ∀ j, packet conf pk' j = if j = num then m else packet conf pk j

/-- The limit is not reached, and the item goes into the last packet. -/
theorem packItem_of_room (h : (packet conf pk num).dataSize k < conf.maxData k) (sid : Int32)
    (defval : Int) : ∃ pk', packItem conf k pk num sid defval = (pk', num, (packet conf pk num).dataSize k) ∧
      Put conf pk k sid num pk' := by
  obtain ⟨hind, hadded⟩ := UDPMessage.added_add (h.trans_le (conf.maxData_le k)) sid defval
  refine ⟨(grow conf pk num).set num ((packet conf pk num).add sid defval k).2, ?_, _, hadded,
    packet_set_grow pk num _⟩
  unfold packItem
  dsimp only
  rw [packet_grow, hind, if_neg (Nat.not_le_of_lt h)]

/-- The array is full, and the item goes into the next packet, and only there. -/
theorem packItem_of_full (hfull : k.MaxCount ≤ (packet conf pk num).dataSize k)
    (hnext : (packet conf pk (num + 1)).dataSize k = 0) (sid : Int32) (defval : Int) :
    ∃ pk', packItem conf k pk num sid defval =
      (pk', num + 1, (packet conf pk (num + 1)).dataSize k) ∧ Put conf pk k sid (num + 1) pk' := by
  have hroom : (packet conf pk (num + 1)).dataSize k < k.MaxCount := by
    rw [hnext]
    exact (conf.maxData_pos k).trans_le (conf.maxData_le k)
  obtain ⟨hind, hadded⟩ := UDPMessage.added_add hroom sid defval
  have hsame : ∀ j,
      packet conf ((grow conf pk num).set num (packet conf pk num)) j = packet conf pk j := by
    intro j
    rw [packet_set_grow]
    split
    · rename_i hj
      rw [hj]
    · rfl
  refine ⟨(grow conf ((grow conf pk num).set num (packet conf pk num)) (num + 1)).set (num + 1)
    (((packet conf pk (num + 1)).add sid defval k).2.setIds conf.nodeID conf.procID), ?_, _,
    hadded.setIds conf.nodeID conf.procID, fun j => ?_⟩
  · unfold packItem
    dsimp only
    rw [packet_grow, UDPMessage.add_of_full hfull, if_pos (conf.maxData_le k), packet_grow, hsame,
      hind]
  · rw [packet_set_grow, hsame]

/-- The item is in a packet that is over the limit by it. -/
theorem packItem_of_over (hle : conf.maxData k ≤ (packet conf pk num).dataSize k)
    (hlt : (packet conf pk num).dataSize k < k.MaxCount) (sid : Int32) (defval : Int) :
    conf.maxData k < (packet conf (packItem conf k pk num sid defval).1 num).dataSize k := by
  obtain ⟨hind, hadded⟩ := UDPMessage.added_add hlt sid defval
  have hne : num ≠ num + 1 := (Nat.lt_succ_self num).ne
  unfold packItem
  dsimp only
  rw [packet_grow, hind, if_pos hle, packet_set_grow, if_neg hne, packet_set_grow, if_pos rfl,
    hadded.count_self]
  exact Nat.lt_succ_of_le hle

theorem dataSize_le_packItem (pk : List UDPMessage) (k : DataKind) (num : Nat) (sid : Int32) (defval : Int)
    (j : Nat) (k' : DataKind) :
    (packet conf pk j).dataSize k' ≤ (packet conf (packItem conf k pk num sid defval).1 j).dataSize k' := by
  have hset : ∀ (pk : List UDPMessage) (n : Nat) (m : UDPMessage),
      (packet conf pk n).dataSize k' ≤ m.dataSize k' →
        (packet conf pk j).dataSize k' ≤ (packet conf ((grow conf pk n).set n m) j).dataSize k' := by
    intro pk n m hm
    rw [packet_set_grow]
    split
    · rename_i hj
      rw [hj]
      exact hm
    · exact Nat.le_refl _
  have hfirst := hset pk num _ (UDPMessage.dataSize_le_add (packet conf pk num) sid defval k k')
  unfold packItem
  dsimp only
  rw [packet_grow]
  split
  · refine hfirst.trans (hset _ (num + 1) _ ?_)
    rw [packet_grow, UDPMessage.dataSize_setIds]
    exact UDPMessage.dataSize_le_add _ sid defval k k'
  · exact hfirst

/-! ## All the items -/

variable {s s' : UNetSender} {it : UItemConf} {done : List UItemConf}

/-- What an item that is packed does to the sender. -/
theorem initItem_cases (h : initItem conf s it = some s') :
    ((∀ k f, ¬Takes k f it) ∧ s' = s) ∨
    ∃ iotype pk num ind undefined, it.iotype = some iotype ∧ it.id ≠ -1 ∧
      it.id ∉ s.items.map UItem.id ∧
      packItem conf (.of iotype) (s.mypacks it.sendfactor) (s.packs_num (.of iotype) it.sendfactor)
        it.id it.default_val = (pk, num, ind) ∧
      s'.mypacks = Function.update s.mypacks it.sendfactor pk ∧
      s'.packs_num = Function.update s.packs_num (.of iotype)
        (Function.update (s.packs_num (.of iotype)) it.sendfactor num) ∧
      s'.items = s.items ++ [⟨iotype, it.id, num, ind, it.sendfactor, undefined⟩] := by
  unfold initItem at h
  split at h
  · rename_i hid
    exact .inl ⟨fun k f htakes => htakes.1 hid, (Option.some.inj h).symm⟩
  · rename_i hid
    cases hiotype : it.iotype with
    | none =>
      rw [hiotype] at h
      refine .inl ⟨fun k f htakes => ?_, (Option.some.inj h).symm⟩
      have hkind := htakes.2.1
      rw [hiotype] at hkind
      cases hkind
    | some iotype =>
      rw [hiotype] at h
      dsimp only at h
      split at h
      · cases h
      · split at h
        · cases h
        · rename_i hnew
          cases Option.some.inj h
          exact .inr ⟨iotype, _, _, _, _, rfl, hid, hnew, rfl, rfl, rfl, rfl⟩

theorem takes_iff {iotype : IOType} (hiotype : it.iotype = some iotype) (hid : it.id ≠ -1)
    (k : DataKind) (f : Int) : Takes k f it ↔ k = .of iotype ∧ f = it.sendfactor := by
  unfold Takes
  rw [hiotype, Option.map_some, Option.some.injEq, and_iff_right hid, eq_comm, eq_comm (a := f)]

/-- What holds while no packet is over its limit. -/
structure Packed (conf : UNetSenderConf) (s : UNetSender) (done : List UItemConf) : Prop where
  beyond : ∀ k f n, s.packs_num k f < n → (packet conf (s.mypacks f) n).dataSize k = 0
  bounded : ∀ k f n, (packet conf (s.mypacks f) n).dataSize k ≤ conf.maxData k
  first : ∀ k f, conf.maxData k < k.MaxCount →
    s.packs_num k f = 0 ∧ (packet conf (s.mypacks f) 0).dataSize k = done.countP (Takes k f)
  placed : ∀ it ∈ s.items, idAt conf s (slotOf it) = some it.id
  owned : ∀ slot id, idAt conf s slot = some id → ∃ it ∈ s.items, it.id = id ∧ slotOf it = slot
  distinct : (s.items.map UItem.id).Nodup

theorem packed_new (conf : UNetSenderConf) : Packed conf (new conf) [] := by
  have hcount : ∀ f n k, (packet conf ((new conf).mypacks f) n).dataSize k = 0 := by
    intro f n k
    unfold packet new
    dsimp only
    split
    · cases n with
      | zero => exact (UDPMessage.dataSize_setIds _ _ _ k).trans (UDPMessage.dataSize_new _ k)
      | succ n => exact UDPMessage.dataSize_new _ k
    · exact UDPMessage.dataSize_new _ k
  refine ⟨fun k f n _ => hcount f n k, fun k f n => ?_, fun k f _ => ⟨rfl, hcount f 0 k⟩, ?_, ?_, .nil⟩
  · rw [hcount]
    exact Nat.zero_le _
  · intro it hit
    cases hit
  · intro slot id hid
    unfold idAt at hid
    rw [UDPMessage.idAt_of_le (by rw [hcount]; exact Nat.zero_le _)] at hid
    cases hid

/-- There is room under the limit for one more of the kind and the factor, or the limit is the
array's. -/
def Room (conf : UNetSenderConf) (done : List UItemConf) (it : UItemConf) : Prop :=
  ∀ k f, Takes k f it → conf.maxData k = k.MaxCount ∨ done.countP (Takes k f) < conf.maxData k

/-- A packet is over its limit. -/
def Over (conf : UNetSenderConf) (s : UNetSender) : Prop :=
  ∃ k f n, conf.maxData k < (packet conf (s.mypacks f) n).dataSize k

theorem Packed.put (h : Packed conf s done)
    (hroom : conf.maxData k = k.MaxCount ∨ done.countP (Takes k it.sendfactor) < conf.maxData k) :
    ∃ pk num,
      packItem conf k (s.mypacks it.sendfactor) (s.packs_num k it.sendfactor) it.id it.default_val =
        (pk, num, (packet conf (s.mypacks it.sendfactor) num).dataSize k) ∧
      Put conf (s.mypacks it.sendfactor) k it.id num pk ∧ s.packs_num k it.sendfactor ≤ num ∧
      (packet conf (s.mypacks it.sendfactor) num).dataSize k < conf.maxData k ∧
      (conf.maxData k < k.MaxCount → num = 0) := by
  have hbeyond := h.beyond k it.sendfactor _ (Nat.lt_succ_self _)
  rcases Nat.lt_or_ge ((packet conf (s.mypacks it.sendfactor) (s.packs_num k it.sendfactor)).dataSize k)
    (conf.maxData k) with hlt | hge
  · obtain ⟨pk, hpack, hput⟩ := packItem_of_room hlt it.id it.default_val
    exact ⟨pk, _, hpack, hput, Nat.le_refl _, hlt, fun hmax => (h.first k it.sendfactor hmax).1⟩
  · have hmax : conf.maxData k = k.MaxCount := by
      by_contra hne
      obtain ⟨hnum, hcount⟩ := h.first k it.sendfactor (Nat.lt_of_le_of_ne (conf.maxData_le k) hne)
      rw [hnum, hcount] at hge
      exact Nat.not_lt_of_le hge (hroom.resolve_left hne)
    obtain ⟨pk, hpack, hput⟩ := packItem_of_full (hmax ▸ hge) hbeyond it.id it.default_val
    refine ⟨pk, _, hpack, hput, Nat.le_succ _, ?_, fun hlt => absurd hmax hlt.ne⟩
    rw [hbeyond]
    exact conf.maxData_pos k

/-- The places after an item has been put into one. -/
structure Placed (conf : UNetSenderConf) (s s' : UNetSender) (slot : Slot) (id : Int32) : Prop where
  count : ∀ k f n, (packet conf (s'.mypacks f) n).dataSize k =
    if k = slot.kind ∧ f = slot.sendfactor ∧ n = slot.num then slot.ind + 1
    else (packet conf (s.mypacks f) n).dataSize k
  ind : (packet conf (s.mypacks slot.sendfactor) slot.num).dataSize slot.kind = slot.ind
  idAt : ∀ slot', idAt conf s' slot' = if slot' = slot then some id else idAt conf s slot'

theorem Put.placed {f : Int} {pk : List UDPMessage} (h : Put conf (s.mypacks f) k sid num pk)
    (hmypacks : s'.mypacks = Function.update s.mypacks f pk) :
    Placed conf s s' ⟨k, f, num, (packet conf (s.mypacks f) num).dataSize k⟩ sid := by
  obtain ⟨m, hadded, hpacket⟩ := h
  have hview : ∀ f' n, packet conf (s'.mypacks f') n =
      if f' = f ∧ n = num then m else packet conf (s.mypacks f') n := by
    intro f' n
    rw [hmypacks]
    by_cases hf : f' = f
    · subst hf
      rw [Function.update_self, hpacket]
      exact if_congr (and_iff_right rfl).symm rfl rfl
    · rw [Function.update_of_ne hf, if_neg fun h => hf h.1]
  refine ⟨fun k' f' n => ?_, rfl, fun slot' => ?_⟩
  · rw [hview]
    by_cases hat : f' = f ∧ n = num
    · obtain ⟨rfl, rfl⟩ := hat
      rw [if_pos ⟨rfl, rfl⟩]
      by_cases hk : k' = k
      · rw [if_pos ⟨hk, rfl, rfl⟩, hk, hadded.count_self]
      · rw [if_neg fun h => hk h.1, hadded.count_other k' hk]
    · rw [if_neg hat, if_neg fun h => hat h.2]
  · obtain ⟨k', f', n, i⟩ := slot'
    unfold UNetSender.idAt
    dsimp only
    rw [hview]
    by_cases hat : f' = f ∧ n = num
    · obtain ⟨rfl, rfl⟩ := hat
      rw [if_pos ⟨rfl, rfl⟩, hadded.idAt]
      refine if_congr ?_ rfl rfl
      rw [Slot.mk.injEq]
      exact ⟨fun h => ⟨h.1, rfl, rfl, h.2⟩, fun h => ⟨h.1, h.2.2.2⟩⟩
    · rw [if_neg hat, if_neg]
      intro heq
      cases heq
      exact hat ⟨rfl, rfl⟩

theorem countP_append_singleton {α : Type} (p : α → Prop) [DecidablePred p] (l : List α) (a : α) :
    (l ++ [a]).countP p = l.countP p + if p a then 1 else 0 := by
  rw [List.countP_append, List.countP_singleton]
  simp

theorem update_update_apply {α β γ : Type} [DecidableEq α] [DecidableEq β] (g : α → β → γ) (a : α)
    (b : β) (c : γ) (a' : α) (b' : β) : Function.update g a (Function.update (g a) b c) a' b' =
      if a' = a ∧ b' = b then c else g a' b' := by
  by_cases ha : a' = a
  · subst ha
    rw [Function.update_self]
    by_cases hb : b' = b
    · rw [hb, Function.update_self, if_pos ⟨rfl, rfl⟩]
    · rw [Function.update_of_ne hb, if_neg fun h => hb h.2]
  · rw [Function.update_of_ne ha, if_neg fun h => ha h.1]

/-- An item that is put where its kind and its factor go on, and below the limit. -/
theorem Packed.of_placed (h : Packed conf s done) (new : UItem)
    (htakes : ∀ k f, Takes k f it ↔ k = .of new.iotype ∧ f = new.pack_sendfactor)
    (hnew : new.id ∉ s.items.map UItem.id) (hplaced : Placed conf s s' (slotOf new) new.id)
    (hle : s.packs_num (.of new.iotype) new.pack_sendfactor ≤ new.pack_num)
    (hlt : new.pack_ind < conf.maxData (.of new.iotype))
    (hzero : conf.maxData (.of new.iotype) < (DataKind.of new.iotype).MaxCount → new.pack_num = 0)
    (hnum : ∀ k f, s'.packs_num k f = if k = .of new.iotype ∧ f = new.pack_sendfactor then new.pack_num
      else s.packs_num k f)
    (hitems : s'.items = s.items ++ [new]) : Packed conf s' (done ++ [it]) := by
  have hkeeps : ∀ it' ∈ s.items, slotOf it' ≠ slotOf new := by
    intro it' hit' heq
    have hold := h.placed it' hit'
    rw [heq] at hold
    unfold UNetSender.idAt at hold
    rw [UDPMessage.idAt_of_le hplaced.ind.le] at hold
    cases hold
  refine ⟨fun k f n hn => ?_, fun k f n => ?_, fun k f hmax => ?_, fun it' hit' => ?_,
    fun slot id hid => ?_, ?_⟩
  · rw [hnum] at hn
    rw [hplaced.count]
    split at hn
    · rename_i hat
      rw [if_neg fun h => hn.ne' h.2.2, h.beyond k f n]
      rw [hat.1, hat.2]
      exact Nat.lt_of_le_of_lt hle hn
    · rename_i hat
      rw [if_neg fun h => hat ⟨h.1, h.2.1⟩, h.beyond k f n hn]
  · rw [hplaced.count]
    split
    · rename_i hat
      rw [hat.1]
      exact hlt
    · exact h.bounded k f n
  · obtain ⟨hold, hcount⟩ := h.first k f hmax
    rw [hnum, hplaced.count, countP_append_singleton]
    by_cases hat : k = .of new.iotype ∧ f = new.pack_sendfactor
    · have hnum0 : new.pack_num = 0 := hzero (hat.1 ▸ hmax)
      rw [if_pos hat, if_pos ⟨hat.1, hat.2, hnum0.symm⟩, if_pos ((htakes k f).mpr hat), ← hcount,
        hat.1, hat.2]
      refine ⟨hnum0, congrArg (· + 1) ?_⟩
      have hind := hplaced.ind
      change (packet conf (s.mypacks new.pack_sendfactor) new.pack_num).dataSize _ = new.pack_ind at hind
      rw [hnum0] at hind
      exact hind.symm
    · rw [if_neg hat, if_neg fun h => hat ⟨h.1, h.2.1⟩, if_neg fun h => hat ((htakes k f).mp h)]
      exact ⟨hold, hcount⟩
  · rw [hitems, List.mem_append, List.mem_singleton] at hit'
    rw [hplaced.idAt]
    obtain hit' | rfl := hit'
    · rw [if_neg (hkeeps it' hit')]
      exact h.placed it' hit'
    · rw [if_pos rfl]
  · rw [hplaced.idAt] at hid
    rw [hitems]
    split at hid
    · rename_i hslot
      exact ⟨new, List.mem_append_right _ (List.mem_singleton_self new), Option.some.inj hid,
        hslot.symm⟩
    · obtain ⟨it', hit', heq⟩ := h.owned slot id hid
      exact ⟨it', List.mem_append_left _ hit', heq⟩
  · rw [hitems, List.map_append, List.map_singleton]
    exact h.distinct.append (List.nodup_singleton _) (List.disjoint_singleton.mpr hnew)

theorem Packed.step (h : Packed conf s done) (hstep : initItem conf s it = some s')
    (hroom : Room conf done it) : Packed conf s' (done ++ [it]) := by
  obtain ⟨hskip, rfl⟩ | ⟨iotype, pk, num, ind, undefined, hiotype, hid, hnew, hpack, hmypacks, hnum,
    hitems⟩ := initItem_cases hstep
  · refine { h with first := fun k f hmax => ?_ }
    rw [countP_append_singleton, if_neg (hskip k f)]
    exact h.first k f hmax
  · have htakes := takes_iff hiotype hid
    obtain ⟨pk', num', hpack', hput, hle, hlt, hzero⟩ :=
      h.put (hroom _ _ ((htakes _ _).mpr ⟨rfl, rfl⟩))
    cases hpack.symm.trans hpack'
    refine h.of_placed ⟨iotype, it.id, num, _, it.sendfactor, undefined⟩ htakes hnew
      (hput.placed hmypacks) hle hlt hzero (fun k f => ?_) hitems
    rw [hnum, update_update_apply]

/-- The first item without room puts a packet over its limit. -/
theorem Packed.over (h : Packed conf s done) (hstep : initItem conf s it = some s')
    (hroom : ¬Room conf done it) : Over conf s' := by
  unfold Room at hroom
  simp only [not_forall, not_or, Nat.not_lt] at hroom
  obtain ⟨k, f, htakes, hne, hge⟩ := hroom
  obtain ⟨hskip, rfl⟩ | ⟨iotype, pk, num, ind, undefined, hiotype, hid, hnew, hpack, hmypacks, hnum,
    hitems⟩ := initItem_cases hstep
  · exact absurd htakes (hskip k f)
  · obtain ⟨rfl, rfl⟩ := (takes_iff hiotype hid k f).mp htakes
    have hmax := Nat.lt_of_le_of_ne (conf.maxData_le _) hne
    obtain ⟨hzero, hcount⟩ := h.first _ it.sendfactor hmax
    have hlimit := h.bounded (.of iotype) it.sendfactor 0
    rw [hzero] at hpack
    have hover := packItem_of_over (hcount ▸ hge) (hlimit.trans_lt hmax) it.id it.default_val
    rw [hpack] at hover
    refine ⟨.of iotype, it.sendfactor, 0, ?_⟩
    rw [hmypacks, Function.update_self]
    exact hover

/-- No packet loses what it has. -/
theorem Over.step (h : Over conf s) (hstep : initItem conf s it = some s') : Over conf s' := by
  obtain ⟨k, f, n, hlt⟩ := h
  refine ⟨k, f, n, hlt.trans_le ?_⟩
  obtain ⟨-, rfl⟩ | ⟨iotype, pk, num, ind, undefined, hiotype, hid, hnew, hpack, hmypacks, hnum,
    hitems⟩ := initItem_cases hstep
  · exact Nat.le_refl _
  · rw [hmypacks]
    by_cases hf : f = it.sendfactor
    · rw [hf, Function.update_self]
      have hpk : (packItem conf (.of iotype) (s.mypacks it.sendfactor)
          (s.packs_num (.of iotype) it.sendfactor) it.id it.default_val).1 = pk :=
        congrArg Prod.fst hpack
      rw [← hpk]
      exact dataSize_le_packItem _ _ _ _ _ n k
    · rw [Function.update_of_ne hf]

theorem Packed.right (h : Packed conf s done) : s.Right conf := by
  refine ⟨fun it hit => ⟨h.placed it hit, fun slot hslot => ?_⟩, fun it hit it' hit' hslots => ?_,
    fun f m hm k => ?_⟩
  · obtain ⟨it', hit', hids, rfl⟩ := h.owned slot it.id hslot
    rw [List.inj_on_of_nodup_map h.distinct hit' hit hids]
  · have hids := h.placed it hit
    rw [hslots, h.placed it' hit'] at hids
    exact List.inj_on_of_nodup_map h.distinct hit hit' (Option.some.inj hids).symm
  · obtain ⟨n, hn⟩ := List.getElem?_of_mem hm
    have hbounded := h.bounded k f n
    unfold packet at hbounded
    rw [hn] at hbounded
    exact hbounded

theorem Over.not_right (h : Over conf s) : ¬s.Right conf := by
  obtain ⟨k, f, n, hlt⟩ := h
  intro hright
  refine Nat.not_lt_of_le ?_ hlt
  unfold packet
  cases hm : (s.mypacks f)[n]? with
  | none =>
    rw [Option.getD_none, UDPMessage.dataSize_new]
    exact Nat.zero_le _
  | some m => exact hright.bounded f m (List.mem_of_getElem? hm) k

theorem Fits.of_append {items : List UItemConf} (h : Fits conf (done ++ items)) : Fits conf done := by
  intro k f
  refine (h k f).imp_right fun hle => ?_
  rw [List.countP_append] at hle
  exact (Nat.le_add_right _ _).trans hle

theorem fits_append_singleton_iff (hdone : Fits conf done) :
    Fits conf (done ++ [it]) ↔ Room conf done it := by
  constructor
  · intro h k f htakes
    refine (h k f).imp_right fun hle => ?_
    rw [countP_append_singleton, if_pos htakes] at hle
    exact hle
  · intro h k f
    rw [countP_append_singleton]
    by_cases htakes : Takes k f it
    · rw [if_pos htakes]
      exact (h k f htakes).imp_right Nat.succ_le_of_lt
    · rw [if_neg htakes]
      exact hdone k f

theorem Over.foldlM {items : List UItemConf} (h : Over conf s)
    (hitems : items.foldlM (initItem conf) s = some s') : Over conf s' := by
  induction items generalizing s with
  | nil =>
    cases hitems
    exact h
  | cons it items ih =>
    simp only [List.foldlM_cons, Option.bind_eq_bind, Option.bind_eq_some_iff] at hitems
    obtain ⟨t, hstep, hrest⟩ := hitems
    exact ih (h.step hstep) hrest

theorem Packed.right_iff_fits_append {items : List UItemConf} (h : Packed conf s done)
    (hdone : Fits conf done) (hitems : items.foldlM (initItem conf) s = some s') :
    s'.Right conf ↔ Fits conf (done ++ items) := by
  induction items generalizing s done with
  | nil =>
    cases hitems
    rw [List.append_nil]
    exact iff_of_true h.right hdone
  | cons it items ih =>
    simp only [List.foldlM_cons, Option.bind_eq_bind, Option.bind_eq_some_iff] at hitems
    obtain ⟨t, hstep, hrest⟩ := hitems
    have hassoc : done ++ it :: items = done ++ [it] ++ items := by
      rw [List.append_assoc, List.singleton_append]
    rw [hassoc]
    by_cases hroom : Room conf done it
    · exact ih (h.step hstep hroom) ((fits_append_singleton_iff hdone).mpr hroom) hrest
    · refine iff_of_false ((h.over hstep hroom).foldlM hrest).not_right fun hfits => ?_
      exact hroom ((fits_append_singleton_iff hdone).mp hfits.of_append)

/-- The packing is right exactly when the data of each kind and factor fit in one packet, or the limit
is that of the array: only then does the packet refuse the item that is too many. -/
theorem right_iff_fits (conf : UNetSenderConf) (items : List UItemConf) {s : UNetSender}
    (h : initItems conf items = some s) : s.Right conf ↔ Fits conf items :=
  (packed_new conf).right_iff_fits_append (fun _ _ => .inr (Nat.zero_le _)) h

/-! ## Which items are packed -/

theorem Packed.initItem_isSome (h : Packed conf s done) (hroom : Room conf done it)
    (hnew : it.id ∉ s.items.map UItem.id) : ∃ s', initItem conf s it = some s' := by
  unfold initItem
  split
  · exact ⟨s, rfl⟩
  · rename_i hid
    cases hiotype : it.iotype with
    | none => exact ⟨s, rfl⟩
    | some iotype =>
      obtain ⟨pk, num, hpack, -, -, hlt, -⟩ :=
        h.put (hroom _ _ ((takes_iff hiotype hid _ _).mpr ⟨rfl, rfl⟩))
      dsimp only
      rw [hpack, if_neg (Nat.not_le_of_lt (hlt.trans_le (conf.maxData_le _)))]
      exact ⟨_, rfl⟩

theorem initItem_ids (h : initItem conf s it = some s') {id : Int32}
    (hid : id ∈ s'.items.map UItem.id) : id ∈ s.items.map UItem.id ∨ id = it.id := by
  obtain ⟨-, rfl⟩ | ⟨iotype, pk, num, ind, undefined, -, -, -, -, -, -, hitems⟩ := initItem_cases h
  · exact .inl hid
  · rw [hitems, List.map_append, List.mem_append] at hid
    exact hid.imp_right List.mem_singleton.mp

theorem Packed.foldlM_isSome {items : List UItemConf} (h : Packed conf s done)
    (hdone : Fits conf done) (hfits : Fits conf (done ++ items))
    (hnew : ∀ it ∈ items, it.id ∉ s.items.map UItem.id) (hids : (items.map UItemConf.id).Nodup) :
    ∃ s', items.foldlM (initItem conf) s = some s' := by
  induction items generalizing s done with
  | nil => exact ⟨s, rfl⟩
  | cons it items ih =>
    rw [← List.singleton_append, ← List.append_assoc] at hfits
    rw [List.map_cons, List.nodup_cons] at hids
    have hroom := (fits_append_singleton_iff hdone).mp hfits.of_append
    obtain ⟨t, ht⟩ := h.initItem_isSome hroom (hnew it List.mem_cons_self)
    have hrest : ∀ it' ∈ items, it'.id ∉ t.items.map UItem.id := by
      intro it' hit' hid
      obtain hid | hid := initItem_ids ht hid
      · exact hnew it' (List.mem_cons_of_mem it hit') hid
      · exact hids.1 (hid ▸ List.mem_map_of_mem hit')
    obtain ⟨s', hs'⟩ := ih (h.step ht hroom) hfits.of_append hfits hrest hids.2
    refine ⟨s', ?_⟩
    rw [List.foldlM_cons, ht]
    exact hs'

/-- Items with different identifiers that fit are all packed: the program does not terminate. -/
theorem initItems_isSome {items : List UItemConf} (hfits : Fits conf items)
    (hids : (items.map UItemConf.id).Nodup) : ∃ s, initItems conf items = some s :=
  (packed_new conf).foldlM_isSome (fun _ _ => .inr (Nat.zero_le _)) hfits (fun _ _ => nofun) hids

theorem initItem_keeps (h : initItem conf s it = some s') : s.items ⊆ s'.items := by
  obtain ⟨-, rfl⟩ | ⟨iotype, pk, num, ind, undefined, -, -, -, -, -, -, hitems⟩ := initItem_cases h
  · exact List.Subset.refl _
  · rw [hitems]
    exact List.subset_append_left _ _

theorem foldlM_keeps {items : List UItemConf} (h : items.foldlM (initItem conf) s = some s') :
    s.items ⊆ s'.items := by
  induction items generalizing s with
  | nil =>
    cases h
    exact List.Subset.refl _
  | cons it items ih =>
    simp only [List.foldlM_cons, Option.bind_eq_bind, Option.bind_eq_some_iff] at h
    obtain ⟨t, hstep, hrest⟩ := h
    exact List.Subset.trans (initItem_keeps hstep) (ih hrest)

/-- Every item with an identifier and a type has its place. -/
theorem foldlM_packs {items : List UItemConf} (h : items.foldlM (initItem conf) s = some s')
    (hit : it ∈ items) {k : DataKind} {f : Int} (htakes : Takes k f it) :
    ∃ new ∈ s'.items, new.id = it.id ∧ DataKind.of new.iotype = k ∧ new.pack_sendfactor = f := by
  induction items generalizing s with
  | nil => cases hit
  | cons first items ih =>
    simp only [List.foldlM_cons, Option.bind_eq_bind, Option.bind_eq_some_iff] at h
    obtain ⟨t, hstep, hrest⟩ := h
    obtain rfl | hit := List.mem_cons.mp hit
    · obtain ⟨hskip, -⟩ | ⟨iotype, pk, num, ind, undefined, hiotype, hid, -, -, -, -, hitems⟩ :=
        initItem_cases hstep
      · exact absurd htakes (hskip k f)
      · obtain ⟨rfl, rfl⟩ := (takes_iff hiotype hid k f).mp htakes
        have hnew : _ ∈ t.items := hitems ▸ List.mem_append_right _ (List.mem_singleton_self _)
        exact ⟨_, foldlM_keeps hrest hnew, rfl, rfl, rfl⟩
    · exact ih hrest hit

/-- Items that are more than a packet may have go on in another one. -/
theorem Right.exists_next (h : s.Right conf) {k : DataKind} {f : Int} {ids : List Int32}
    (hids : ids.Nodup) (hmem : ∀ id ∈ ids, ∃ it ∈ s.items,
      it.id = id ∧ DataKind.of it.iotype = k ∧ it.pack_sendfactor = f)
    (hmany : conf.maxData k < ids.length) : ∃ it ∈ s.items, it.pack_num ≠ 0 := by
  by_contra hnone
  have hall : ∀ it ∈ s.items, it.pack_num = 0 := by simpa using hnone
  have hsize : (packet conf (s.mypacks f) 0).dataSize k ≤ conf.maxData k := by
    unfold packet
    cases hm : (s.mypacks f)[0]? with
    | none =>
      rw [Option.getD_none, UDPMessage.dataSize_new]
      exact Nat.zero_le _
    | some m => exact h.bounded f m (List.mem_of_getElem? hm) k
  have hsub : ids.map some ⊆ (List.range (conf.maxData k)).map fun i => idAt conf s ⟨k, f, 0, i⟩ := by
    intro oid hoid
    obtain ⟨id, hid, rfl⟩ := List.mem_map.mp hoid
    obtain ⟨it, hit, rfl, rfl, rfl⟩ := hmem id hid
    have hplaced := (h.placed it hit).1
    rw [slotOf, hall it hit] at hplaced
    refine List.mem_map.mpr ⟨it.pack_ind, List.mem_range.mpr ?_, hplaced⟩
    by_contra hge
    rw [UNetSender.idAt, UDPMessage.idAt_of_le (hsize.trans (Nat.le_of_not_lt hge))] at hplaced
    cases hplaced
  have hnodup : (ids.map some).Nodup := hids.map (Option.some_injective _)
  have hle := (List.subperm_of_subset hnodup hsub).length_le
  rw [List.length_map, List.length_map, List.length_range] at hle
  exact Nat.not_lt_of_le hle hmany

/-- One sensor of each kind in a packet. -/
def onePerPacket : UNetSenderConf where
  HostIsBigEndian := false
  nodeID := 1
  procID := 1
  maxData _ := 1
  maxData_pos _ := Nat.one_pos
  maxData_le k := by cases k <;> decide

def discrete (id : Int32) : UItemConf := ⟨id, 0, some .DI, 0, none⟩

/-- As many analog data in a packet as there is room for, and two discrete ones. -/
def fullPackets : UNetSenderConf where
  HostIsBigEndian := false
  nodeID := 1
  procID := 1
  maxData k := if k = .A then MaxACount else 2
  maxData_pos k := by cases k <;> decide
  maxData_le k := by cases k <;> decide

/-- 2001 analog ones and a discrete one of one factor, and one of each kind of another. -/
def manyItems : List UItemConf :=
  (List.range 2004).map fun i =>
    { id := Int32.ofNat (i + 1)
      sendfactor := if i < 2002 then 0 else 1
      iotype := some (if i < 2001 ∨ i = 2002 then .AI else .DI)
      default_val := i
      undefined_value := none }

theorem ofNat_succ_inj {i j : Nat} (hi : i < 2004) (hj : j < 2004)
    (h : Int32.ofNat (i + 1) = Int32.ofNat (j + 1)) : i = j := by
  have hint := congrArg Int32.toInt h
  rw [Int32.toInt_ofNat_of_lt (by omega), Int32.toInt_ofNat_of_lt (by omega)] at hint
  omega

/-- Items of both kinds and of two factors: 2001 analog ones of one factor need a second packet. -/
theorem right_many : ∃ s, initItems fullPackets manyItems = some s ∧ s.Right fullPackets ∧
    ∃ it ∈ s.items, it.pack_num ≠ 0 := by
  have hfits : Fits fullPackets manyItems := by
    intro k f
    cases k with
    | A => exact .inl rfl
    | D =>
      have hle : manyItems.countP (fun it => it.iotype.map DataKind.of = some .D) ≤ 2 := by decide +kernel
      refine .inr ((List.countP_mono_left fun it _ htakes => ?_).trans hle)
      exact decide_eq_true (of_decide_eq_true htakes).2.1
  have hids : (manyItems.map UItemConf.id).Nodup := by
    rw [manyItems, List.map_map]
    refine List.nodup_range.map_on fun i hi j hj h => ?_
    exact ofNat_succ_inj (List.mem_range.mp hi) (List.mem_range.mp hj) h
  obtain ⟨s, hs⟩ := initItems_isSome hfits hids
  have hright := (right_iff_fits fullPackets manyItems hs).mpr hfits
  have hfirst : ∀ id ∈ ((manyItems.take 2001).map UItemConf.id), ∃ it ∈ s.items,
      it.id = id ∧ DataKind.of it.iotype = .A ∧ it.pack_sendfactor = 0 := by
    intro id hid
    obtain ⟨it, hit, rfl⟩ := List.mem_map.mp hid
    refine foldlM_packs hs (List.mem_of_mem_take hit) ?_
    have hall : ∀ it ∈ manyItems.take 2001, Takes .A 0 it := by decide +kernel
    exact hall it hit
  refine ⟨s, hs, hright, hright.exists_next ?_ hfirst (by decide +kernel)⟩
  exact hids.sublist ((List.take_sublist 2001 manyItems).map UItemConf.id)

/-- The second is in both packets. -/
theorem not_right_two : ¬∀ s, initItems onePerPacket [discrete 1, discrete 2] = some s →
    s.Right onePerPacket := by
  intro h
  have hbounded := (h _ rfl).bounded 0 _ (List.mem_cons_self ..) .D
  revert hbounded
  decide

end UNetSender

end Uniset.UNetUDP
