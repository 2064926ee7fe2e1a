import Uniset.UNetUDP.UNetReceiverLaws

/-! What a packet does to SharedMemory, and when the comparison of the crc passes it over. -/

namespace Uniset.UNetUDP

open Uniset.Lib

/-- The two kinds of data in a packet, each with a crc and a cache of its own. -/
inductive Kind
  | digital | analog
  deriving DecidableEq

namespace UDPMessage

def crc (p : UDPMessage) : Kind → UInt16
  | .digital => p.header.dcrc
  | .analog => p.header.acrc

def count (p : UDPMessage) : Kind → Nat
  | .digital => p.header.dcount.toNat
  | .analog => p.header.acount.toNat

def item (p : UDPMessage) : Kind → Nat → Option (ObjectId × Int32)
  | .digital => p.dItem
  | .analog => p.aItem

/-- The sensors and values of one kind, in the order in which they are set. -/
def items (p : UDPMessage) (k : Kind) : List (ObjectId × Int32) :=
  (List.range (p.count k)).filterMap (p.item k)

@[simp] theorem setNum_crc (p : UDPMessage) (n : UInt64) (k : Kind) :
    (p.setNum n).crc k = p.crc k := by cases k <;> rfl

@[simp] theorem setNum_items (p : UDPMessage) (n : UInt64) (k : Kind) :
    (p.setNum n).items k = p.items k := by cases k <;> rfl

/-- Only a packet without data is told apart by its number. -/
theorem setNum_getDataID (p : UDPMessage) (n : UInt64) :
    (p.setNum n).getDataID = p.getDataID ∨ ∀ k, p.items k = [] := by
  by_cases ha : p.header.acount = 0
  · by_cases hd : p.header.dcount = 0
    · refine .inr fun k => ?_
      cases k <;> simp [items, count, ha, hd]
    · refine .inl ?_
      have hpos : p.header.dcount > 0 := UInt16.pos_iff_ne_zero.mpr hd
      simp [getDataID, setNum, ha, hpos]
  · refine .inl ?_
    have hpos : p.header.acount > 0 := UInt16.pos_iff_ne_zero.mpr ha
    simp [getDataID, setNum, hpos]

theorem new_items (host : Bool) (k : Kind) : (UDPMessage.new host).items k = [] := by
  cases k <;> rfl

theorem new_crc (host : Bool) (k : Kind) : (UDPMessage.new host).crc k = 0 := by
  cases k <;> rfl

end UDPMessage

/-- The crc a cache remembers of the data last applied.  A cache of another length is filled
anew and forgets it. -/
def CacheMap.remembered (c : CacheMap) (dID : Int) (count : Nat) : UInt16 :=
  let info := (c dID).getD ⟨0, []⟩
  if count = info.items.length then info.crc else 0

theorem CacheMap.get_crc {c : CacheMap} {dID : Int} {count : Nat} {idAt : Nat → Option ObjectId}
    {info : CacheInfo} (h : c.get dID count idAt = some info) :
    info.crc = c.remembered dID count := by
  unfold CacheMap.get at h
  simp only [CacheMap.remembered]
  by_cases hcount : count = ((c dID).getD ⟨0, []⟩).items.length
  · simp only [if_pos hcount, Option.some.injEq] at h
    rw [if_pos hcount, h]
  · simp only [if_neg hcount, Option.map_eq_some_iff] at h
    obtain ⟨items, -, rfl⟩ := h
    rw [if_neg hcount]

theorem setItem_sm {i : Nat} {sid : ObjectId} {val : Int32} {st st' : CacheInfo × SharedMemory}
    (h : setItem i sid val st = some st') :
    st'.2 = (st.2.localSetValue sid val).getD st.2 := by
  unfold setItem at h
  split at h
  · cases hset : st.2.localSetValue sid val with
    | none =>
      simp only [hset] at h
      cases h
      rfl
    | some sm =>
      simp only [hset] at h
      cases h
      rfl
  · cases h

theorem setItems_sm {item : Nat → Option (ObjectId × Int32)} {n : Nat}
    {st st' : CacheInfo × SharedMemory} (h : setItems item n st = some st') :
    st'.2 = st.2.writeAll ((List.range n).filterMap item) := by
  induction n generalizing st' with
  | zero => cases h; rfl
  | succ n ih =>
    simp only [setItems, Option.bind_eq_bind, Option.bind_eq_some_iff] at h
    obtain ⟨st₁, h₁, ⟨sid, val⟩, hitem, hset⟩ := h
    rw [List.range_succ, List.filterMap_append, List.filterMap_cons, hitem, List.filterMap_nil,
      SharedMemory.writeAll_concat, ← ih h₁]
    exact setItem_sm hset

/-- The data is set unless the crc is the one remembered. -/
theorem applyItems_sm {ignoreCRC : Bool} {c c' : CacheMap} {sm sm' : SharedMemory} {dID : Int}
    {crc : UInt16} {count : Nat} {idAt : Nat → Option ObjectId}
    {item : Nat → Option (ObjectId × Int32)}
    (h : applyItems ignoreCRC c sm dID crc count idAt item = some (c', sm')) :
    sm' =
      if ignoreCRC = false ∧ crc ≠ 0 ∧ c.remembered dID count = crc then sm
      else sm.writeAll ((List.range count).filterMap item) := by
  simp only [applyItems, Option.bind_eq_bind, Option.bind_eq_some_iff] at h
  obtain ⟨info, hinfo, h⟩ := h
  rw [← CacheMap.get_crc hinfo]
  split at h
  · rename_i hset
    obtain ⟨⟨info', sm₁⟩, hitems, h⟩ := Option.bind_eq_some_iff.mp h
    cases h
    rw [if_neg]
    · exact setItems_sm hitems
    · rintro ⟨hcrc, hzero, hsame⟩
      rcases hset with h | h | h
      · exact hzero h
      · exact h hsame
      · simp [hcrc] at h
  · rename_i hskip
    cases h
    rw [not_or, not_or, not_not, Bool.not_eq_true] at hskip
    rw [if_pos ⟨hskip.2.2, hskip.1, hskip.2.1⟩]

namespace UNetReceiver

variable {b : BufferSize} {r r' : UNetReceiver b} {sm sm' : SharedMemory} {p : UDPMessage}

def icache_map (r : UNetReceiver b) : Kind → CacheMap
  | .digital => r.d_icache_map
  | .analog => r.a_icache_map

/-- The packet's data of this kind is taken for data already applied. -/
def PassesOver (r : UNetReceiver b) (p : UDPMessage) (k : Kind) : Prop :=
  r.ignoreCRC = false ∧ p.crc k ≠ 0 ∧ (r.icache_map k).remembered p.getDataID (p.count k) = p.crc k

instance (r : UNetReceiver b) (p : UDPMessage) (k : Kind) : Decidable (r.PassesOver p k) :=
  inferInstanceAs (Decidable (_ ∧ _ ∧ _))

/-- The memory after the data of one kind was processed. -/
def kindEffect (r : UNetReceiver b) (p : UDPMessage) (k : Kind) (sm : SharedMemory) :
    SharedMemory :=
  if r.PassesOver p k then sm else sm.writeAll (p.items k)

theorem kindEffect_of_ignoreCRC (h : r.ignoreCRC = true) (k : Kind) :
    r.kindEffect p k sm = sm.writeAll (p.items k) :=
  if_neg fun hpass => absurd hpass.1 (by simp [h])

theorem kindEffect_of_holds {k : Kind} (h : r.PassesOver p k → sm.Holds (p.items k)) :
    r.kindEffect p k sm = sm.writeAll (p.items k) := by
  unfold kindEffect
  split
  · rename_i hpass
    exact (h hpass).writeAll_eq.symm
  · rfl

theorem applyPacket_sm (h : r.applyPacket sm p = some (r', sm')) :
    sm' = r.kindEffect p .analog (r.kindEffect p .digital sm) := by
  simp only [applyPacket, Option.bind_eq_bind, Option.bind_eq_some_iff] at h
  obtain ⟨⟨dmap, sm₁⟩, hd, ⟨amap, sm₂⟩, ha, h⟩ := h
  cases h
  have hdigital : sm₁ = r.kindEffect p .digital sm := applyItems_sm hd
  have hanalog : sm₂ = r.kindEffect p .analog sm₁ := applyItems_sm ha
  rw [hanalog, hdigital]

end UNetReceiver

end Uniset.UNetUDP
