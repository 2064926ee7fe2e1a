import Mathlib.Data.Nat.Bitwise
import Uniset.UNetUDP.UNetSender

/-! What a message gives of the data that are put in it, and what becomes of it between hosts of
different byte orders. -/

namespace Uniset.UNetUDP

open Uniset.Lib

/-- The macros for the long fields are chosen by the width of a pointer: it is `wide` if it has 64
bits, else it has 32. -/
structure Host where
  HostIsBigEndian : Bool
  wide : Bool
  deriving DecidableEq

namespace Host

variable (host : Host)

/-- The narrow macro is given the lower half of a longer field. -/
def BE_TO_H (x : UInt64) : UInt64 :=
  if host.wide then UNetUDP.BE_TO_H x else .ofNat (reverseBytes 4 (x.toNat % 256 ^ 4))

def BE_TO_H_long (x : Int64) : Int64 := (host.BE_TO_H x.toUInt64).toInt64

def toHost (h : UDPHeader) : UDPHeader where
  be_order := host.HostIsBigEndian
  version := h.version
  num := host.BE_TO_H h.num
  nodeID := host.BE_TO_H_long h.nodeID
  procID := host.BE_TO_H_long h.procID
  dcount := BE16_TO_H h.dcount
  acount := BE16_TO_H h.acount
  dcrc := BE16_TO_H h.dcrc
  acrc := BE16_TO_H h.acrc

def convert (d : UDPAData) : UDPAData := ⟨BE32_TO_H d.id, host.BE_TO_H_long d.val⟩

def ntoh (m : UDPMessage) : Option UDPMessage :=
  if m.header.be_order = host.HostIsBigEndian then some m
  else do
    let header := host.toHost m.header
    let a_dat ← rewriteArray host.convert header.acount.toNat m.a_dat
    let d_id ← rewriteArray BE32_TO_H header.dcount.toNat m.d_id
    some { header, a_dat, d_id, d_dat := m.d_dat }

theorem ntoh_wide (big : Bool) (m : UDPMessage) : ntoh ⟨big, true⟩ m = m.ntoh big := by
  unfold ntoh UDPMessage.ntoh UDPHeader.toHost
  by_cases h : m.header.be_order = big
  · rw [if_pos h, if_pos h]
  · rw [if_neg h, if_neg h, if_neg h]
    rfl

/-- A `size_t` is as wide as a pointer. -/
def swapSize (x : UInt64) : UInt64 :=
  if host.wide then UNetUDP.BE_TO_H x else .ofNat (reverseBytes 4 x.toNat)

/-- The message as a host with the other byte order has it.  Past the counts there is no data. -/
def opposite (m : UDPMessage) : UDPMessage where
  header :=
    { be_order := !host.HostIsBigEndian
      version := m.header.version
      num := host.swapSize m.header.num
      nodeID := UNetUDP.BE_TO_H_long m.header.nodeID
      procID := UNetUDP.BE_TO_H_long m.header.procID
      dcount := BE16_TO_H m.header.dcount
      acount := BE16_TO_H m.header.acount
      dcrc := BE16_TO_H m.header.dcrc
      acrc := BE16_TO_H m.header.acrc }
  a_dat i := if i.val < m.header.acount.toNat then (m.a_dat i).swap else m.a_dat i
  d_id i := if i.val < m.header.dcount.toNat then BE32_TO_H (m.d_id i) else m.d_id i
  d_dat := m.d_dat

end Host

namespace UDPMessage

def setAData (m : UDPMessage) (index : Nat) (val : Int64) : Bool × UDPMessage :=
  if h : index < MaxACount then
    (true, { m with
      a_dat := Function.update m.a_dat ⟨index, h⟩ { m.a_dat ⟨index, h⟩ with val } })
  else (false, m)

end UDPMessage

inductive PayloadOp
  | addAData (dat : UDPAData)
  | addDData (id : Int32) (val : Bool)
  | setAData (index : Nat) (val : Int64)
  | setDData (index : Nat) (val : Bool)

def UDPMessage.put (m : UDPMessage) : PayloadOp → UDPMessage
  | .addAData dat => (m.addAData dat).2
  | .addDData id val => (m.addDData id val).2
  | .setAData index val => (m.setAData index val).2
  | .setDData index val => (m.setDData index val).2

/-- What has been stored last in each place that is taken. -/
structure Payload where
  analog : List UDPAData
  digital : List (Int32 × Bool)

namespace Payload

def empty : Payload := ⟨[], []⟩

def put (p : Payload) : PayloadOp → Payload
  | .addAData dat => if p.analog.length < MaxACount then { p with analog := p.analog ++ [dat] } else p
  | .addDData id val =>
    if p.digital.length < MaxDCount then { p with digital := p.digital ++ [(id, val)] } else p
  | .setAData index val => { p with analog := p.analog.modify index fun d => { d with val } }
  | .setDData index val => { p with digital := p.digital.modify index fun d => (d.1, val) }

end Payload

/-- A message has just what has been stored in it. -/
structure Shows (m : UDPMessage) (p : Payload) : Prop where
  acount : m.header.acount.toNat = p.analog.length
  acount_le : p.analog.length ≤ MaxACount
  dcount : m.header.dcount.toNat = p.digital.length
  dcount_le : p.digital.length ≤ MaxDCount
  a_dat : ∀ i d, p.analog[i]? = some d → m.aDat i = some d
  digital : ∀ i d, p.digital[i]? = some d → m.dID i = d.1.toInt ∧ m.dValue i = d.2

/-- It is also left as it is by what it has no room for, and by a host with its byte order; and a host
with the other one gives it back. -/
structure Intact (host : Host) (m : UDPMessage) (p : Payload) : Prop where
  shows : Shows m p
  fullA : MaxACount ≤ m.header.acount.toNat → ∀ dat, m.addAData dat = (MaxACount, m)
  fullD : MaxDCount ≤ m.header.dcount.toNat → ∀ id val, m.addDData id val = (MaxDCount, m)
  same : host.ntoh m = some m
  back : host.ntoh (host.opposite m) = some m

/-- A message without data, of a host. -/
structure Fresh (host : Host) (m : UDPMessage) : Prop where
  be_order : m.header.be_order = host.HostIsBigEndian
  acount : m.header.acount = 0
  dcount : m.header.dcount = 0
  num : host.wide = false → m.header.num.toNat < 256 ^ 4

/-! ## What is stored -/

section Bits

variable {d : UInt8} {j k : Nat}

theorem toNat_bit (hk : k < 8) : ((1 : UInt8) <<< UInt8.ofNat k).toNat = 2 ^ k := by
  revert k
  decide

theorem and_bit (hk : k < 8) : ((d &&& ((1 : UInt8) <<< UInt8.ofNat k)) != 0) = d.toNat.testBit k := by
  have hbit : (d &&& ((1 : UInt8) <<< UInt8.ofNat k)).toNat = (d.toNat.testBit k).toNat * 2 ^ k := by
    rw [UInt8.toNat_and, toNat_bit hk, Nat.and_two_pow]
  cases htest : d.toNat.testBit k with
  | true =>
    rw [htest] at hbit
    have hpos := Nat.two_pow_pos k
    have hne : (d &&& ((1 : UInt8) <<< UInt8.ofNat k)) ≠ 0 := by
      rintro hzero
      rw [hzero, Bool.toNat_true, Nat.one_mul] at hbit
      exact absurd hbit (Nat.ne_of_lt hpos)
    simpa using hne
  | false =>
    rw [htest, Bool.toNat_false, Nat.zero_mul] at hbit
    have hzero : (d &&& ((1 : UInt8) <<< UInt8.ofNat k)) = 0 := UInt8.toNat_inj.mp hbit
    simp [hzero]

/-- One bit of a byte is set or taken away. -/
theorem testBit_setBit (hj : j < 8) (hk : k < 8) (val : Bool) :
    (if val then d ||| ((1 : UInt8) <<< UInt8.ofNat j)
      else d &&& ~~~((1 : UInt8) <<< UInt8.ofNat j)).toNat.testBit k =
      if k = j then val else d.toNat.testBit k := by
  cases val with
  | true =>
    rw [if_pos rfl, UInt8.toNat_or, toNat_bit hj, Nat.testBit_or, Nat.testBit_two_pow]
    split_ifs with hkj
    · rw [decide_eq_true hkj.symm, Bool.or_true]
    · rw [decide_eq_false (Ne.symm hkj), Bool.or_false]
  | false =>
    have hlt : 2 ^ j < 2 ^ 8 := Nat.pow_lt_pow_right (by decide) hj
    have hsub : UInt8.size - 1 - 2 ^ j = 2 ^ 8 - (2 ^ j + 1) := by
      have hsize : UInt8.size = 2 ^ 8 := rfl
      omega
    rw [if_neg Bool.false_ne_true, UInt8.toNat_and, UInt8.toNat_not, toNat_bit hj, Nat.testBit_and,
      hsub, Nat.testBit_two_pow_sub_succ hlt, Nat.testBit_two_pow, decide_eq_true hk, Bool.true_and]
    split_ifs with hkj
    · rw [decide_eq_true hkj.symm, Bool.not_true, Bool.and_false]
    · rw [decide_eq_false (Ne.symm hkj), Bool.not_false, Bool.and_true]

end Bits

namespace UDPMessage

variable {m : UDPMessage} {index i : Nat}

theorem dValue_eq (h : i < MaxDCount) :
    m.dValue i = (m.d_dat ⟨i / 8, div_lt_MaxDDataCount h⟩).toNat.testBit (i % 8) := by
  rw [dValue, dif_pos h]
  exact and_bit (Nat.mod_lt _ (by decide))

theorem dID_eq (h : i < MaxDCount) : m.dID i = (m.d_id ⟨i, h⟩).toInt := dif_pos h

/-- A set at one index changes no other. -/
theorem dValue_setDData (hindex : index < MaxDCount) (val : Bool) (hi : i < MaxDCount) :
    (m.setDData index val).2.dValue i = if i = index then val else m.dValue i := by
  rw [dValue_eq hi, dValue_eq hi, setDData, dif_pos hindex]
  dsimp only
  by_cases hplace : i / 8 = index / 8
  · have hfin : (⟨i / 8, div_lt_MaxDDataCount hi⟩ : Fin MaxDDataCount) =
        ⟨index / 8, div_lt_MaxDDataCount hindex⟩ := Fin.ext hplace
    rw [hfin, Function.update_self,
      testBit_setBit (Nat.mod_lt _ (by decide)) (Nat.mod_lt _ (by decide))]
    exact if_congr (by omega) rfl rfl
  · rw [Function.update_of_ne fun hfin => hplace (congrArg Fin.val hfin), if_neg (by omega)]

theorem dID_setDData (index : Nat) (val : Bool) (i : Nat) :
    (m.setDData index val).2.dID i = m.dID i := by
  unfold setDData
  split <;> rfl

theorem header_setDData (index : Nat) (val : Bool) : (m.setDData index val).2.header = m.header := by
  unfold setDData
  split <;> rfl

theorem a_dat_setDData (index : Nat) (val : Bool) : (m.setDData index val).2.a_dat = m.a_dat := by
  unfold setDData
  split <;> rfl

theorem aDat_eq (h : i < MaxACount) : m.aDat i = some (m.a_dat ⟨i, h⟩) := dif_pos h

theorem aDat_setAData (hi : i < MaxACount) (index : Nat) (val : Int64) :
    (m.setAData index val).2.aDat i =
    if i = index then (m.aDat i).map fun d => { d with val } else m.aDat i := by
  unfold setAData
  split_ifs with hindex heq heq
  · subst heq
    rw [aDat_eq hi, aDat_eq hi]
    dsimp only
    rw [Function.update_self]
    rfl
  · rw [aDat_eq hi, aDat_eq hi]
    dsimp only
    rw [Function.update_of_ne fun hfin => heq (congrArg Fin.val hfin)]
  · exact absurd (heq ▸ hi) hindex
  · rfl

theorem addAData_room (h : m.header.acount.toNat < MaxACount) (dat : UDPAData) : m.addAData dat =
    (m.header.acount.toNat,
      { m with
        header := { m.header with acount := m.header.acount + 1 }
        a_dat := Function.update m.a_dat ⟨m.header.acount.toNat, h⟩ dat }) := dif_pos h

theorem addAData_full (h : MaxACount ≤ m.header.acount.toNat) (dat : UDPAData) :
    m.addAData dat = (MaxACount, m) := dif_neg (Nat.not_lt_of_le h)

theorem addDData_full (h : MaxDCount ≤ m.header.dcount.toNat) (id : Int32) (val : Bool) :
    m.addDData id val = (MaxDCount, m) := dif_neg (Nat.not_lt_of_le h)

end UDPMessage

/-- An element of a list, or the new one at its end. -/
theorem getElem?_append_singleton_eq {α : Type} {l : List α} {x y : α} {i : Nat}
    (h : (l ++ [x])[i]? = some y) : i < l.length ∧ l[i]? = some y ∨ i = l.length ∧ y = x := by
  rcases Nat.lt_trichotomy i l.length with hlt | heq | hgt
  · rw [List.getElem?_append_left hlt] at h
    exact .inl ⟨hlt, h⟩
  · subst heq
    rw [List.getElem?_concat_length] at h
    exact .inr ⟨rfl, (Option.some.inj h).symm⟩
  · have hlen : (l ++ [x]).length ≤ i := by
      rw [List.length_append]
      exact hgt
    rw [List.getElem?_eq_none hlen] at h
    cases h

namespace Shows

variable {m : UDPMessage} {p : Payload}

theorem addAData (h : Shows m p) (dat : UDPAData) :
    Shows (m.addAData dat).2 (p.put (.addAData dat)) := by
  unfold Payload.put
  dsimp only
  split_ifs with hroom
  · have hroom' : m.header.acount.toNat < MaxACount := h.acount ▸ hroom
    rw [UDPMessage.addAData_room hroom']
    refine ⟨?_, ?_, h.dcount, h.dcount_le, fun i d hd => ?_, h.digital⟩
    · rw [List.length_append, ← h.acount]
      exact UDPMessage.toNat_add_one hroom' (by decide)
    · rw [List.length_append]
      exact hroom
    · rcases getElem?_append_singleton_eq hd with ⟨hlt, hold⟩ | ⟨rfl, rfl⟩
      · have hi : i < MaxACount := hlt.trans hroom
        have hne : i ≠ m.header.acount.toNat := by
          rw [h.acount]
          exact Nat.ne_of_lt hlt
        rw [UDPMessage.aDat_eq hi]
        dsimp only
        rw [Function.update_of_ne fun hfin => hne (congrArg Fin.val hfin), ← UDPMessage.aDat_eq hi]
        exact h.a_dat i d hold
      · rw [UDPMessage.aDat_eq hroom]
        have hfin : (⟨p.analog.length, hroom⟩ : Fin MaxACount) =
            ⟨m.header.acount.toNat, hroom'⟩ := Fin.ext h.acount.symm
        dsimp only
        rw [hfin, Function.update_self]
  · rw [UDPMessage.addAData_full (by rw [h.acount]; exact Nat.le_of_not_lt hroom)]
    exact h

theorem setDData (h : Shows m p) (index : Nat) (val : Bool) :
    Shows (m.setDData index val).2 (p.put (.setDData index val)) := by
  refine ⟨?_, h.acount_le, ?_, ?_, fun i d hd => ?_, fun i d hd => ?_⟩
  · rw [UDPMessage.header_setDData]
    exact h.acount
  · rw [UDPMessage.header_setDData, h.dcount]
    exact (List.length_modify _ _ _).symm
  · exact (List.length_modify _ _ _).trans_le h.dcount_le
  · unfold UDPMessage.aDat
    rw [UDPMessage.a_dat_setDData]
    exact h.a_dat i d hd
  · change (p.digital.modify index fun d => (d.1, val))[i]? = some d at hd
    have hlt : i < p.digital.length := by
      have hlt := (List.getElem?_eq_some_iff.mp hd).1
      rwa [List.length_modify] at hlt
    have hi : i < MaxDCount := hlt.trans_le h.dcount_le
    rw [List.getElem?_modify] at hd
    obtain ⟨e, he, rfl⟩ := Option.map_eq_some_iff.mp hd
    obtain ⟨hid, hvalue⟩ := h.digital i e he
    rw [UDPMessage.dID_setDData]
    by_cases hindex : index < MaxDCount
    · rw [UDPMessage.dValue_setDData hindex val hi, hid, hvalue]
      by_cases heq : i = index
      · rw [if_pos heq, if_pos heq.symm]
        exact ⟨rfl, rfl⟩
      · rw [if_neg heq, if_neg (Ne.symm heq)]
        exact ⟨rfl, rfl⟩
    · rw [UDPMessage.setDData, dif_neg hindex, if_neg (by omega)]
      exact ⟨hid, hvalue⟩

theorem setAData (h : Shows m p) (index : Nat) (val : Int64) :
    Shows (m.setAData index val).2 (p.put (.setAData index val)) := by
  have hsame : (m.setAData index val).2.header = m.header ∧
      (∀ i, (m.setAData index val).2.dID i = m.dID i) ∧
      ∀ i, (m.setAData index val).2.dValue i = m.dValue i := by
    unfold UDPMessage.setAData
    split
    · exact ⟨rfl, fun _ => rfl, fun _ => rfl⟩
    · exact ⟨rfl, fun _ => rfl, fun _ => rfl⟩
  obtain ⟨hheader, hid, hvalue⟩ := hsame
  refine ⟨?_, ?_, ?_, h.dcount_le, fun i d hd => ?_, fun i d hd => ?_⟩
  · rw [hheader, h.acount]
    exact (List.length_modify _ _ _).symm
  · exact (List.length_modify _ _ _).trans_le h.acount_le
  · rw [hheader]
    exact h.dcount
  · change (p.analog.modify index fun d => { d with val })[i]? = some d at hd
    have hlt : i < p.analog.length := by
      have hlt := (List.getElem?_eq_some_iff.mp hd).1
      rwa [List.length_modify] at hlt
    rw [List.getElem?_modify] at hd
    obtain ⟨e, he, rfl⟩ := Option.map_eq_some_iff.mp hd
    rw [UDPMessage.aDat_setAData (hlt.trans_le h.acount_le), h.a_dat i e he]
    by_cases heq : i = index
    · rw [if_pos heq, if_pos heq.symm]
      rfl
    · rw [if_neg heq, if_neg (Ne.symm heq)]
  · rw [hid, hvalue]
    exact h.digital i d hd

/-- The bit of a new place is set when its identifier is there. -/
theorem addDData (h : Shows m p) (id : Int32) (val : Bool) :
    Shows (m.addDData id val).2 (p.put (.addDData id val)) := by
  unfold Payload.put
  dsimp only
  split_ifs with hroom
  · have hroom' : m.header.dcount.toNat < MaxDCount := h.dcount ▸ hroom
    have hbit := fun i hi => @UDPMessage.dValue_setDData
      { m with d_id := Function.update m.d_id ⟨m.header.dcount.toNat, hroom'⟩ id }
      m.header.dcount.toNat i hroom' val hi
    have hlong : (p.digital ++ [(id, val)]).length ≤ MaxDCount := by
      rw [List.length_append]
      exact hroom
    unfold UDPMessage.addDData
    rw [dif_pos hroom']
    unfold UDPMessage.setDData at hbit ⊢
    simp only [dif_pos hroom'] at hbit ⊢
    refine ⟨h.acount, h.acount_le, ?_, hlong, h.a_dat, fun i d hd => ?_⟩
    · rw [List.length_append, ← h.dcount]
      exact UDPMessage.toNat_add_one hroom' (by decide)
    · have hi : i < MaxDCount := ((List.getElem?_eq_some_iff.mp hd).1).trans_le hlong
      refine ⟨?_, (hbit i hi).trans ?_⟩
      · rw [UDPMessage.dID_eq hi]
        dsimp only
        rcases getElem?_append_singleton_eq hd with ⟨hlt, hold⟩ | ⟨rfl, rfl⟩
        · have hne : i ≠ m.header.dcount.toNat := by
            rw [h.dcount]
            exact Nat.ne_of_lt hlt
          rw [Function.update_of_ne fun hfin => hne (congrArg Fin.val hfin), ← UDPMessage.dID_eq hi]
          exact (h.digital i d hold).1
        · have hfin : (⟨p.digital.length, hi⟩ : Fin MaxDCount) =
              ⟨m.header.dcount.toNat, hroom'⟩ := Fin.ext h.dcount.symm
          rw [hfin, Function.update_self]
      · rcases getElem?_append_singleton_eq hd with ⟨hlt, hold⟩ | ⟨rfl, rfl⟩
        · have hne : i ≠ m.header.dcount.toNat := by
            rw [h.dcount]
            exact Nat.ne_of_lt hlt
          rw [if_neg hne]
          exact (h.digital i d hold).2
        · rw [if_pos h.dcount.symm]
  · rw [UDPMessage.addDData_full (by rw [h.dcount]; exact Nat.le_of_not_lt hroom)]
    exact h

theorem put (h : Shows m p) (op : PayloadOp) : Shows (m.put op) (p.put op) := by
  cases op with
  | addAData dat => exact h.addAData dat
  | addDData id val => exact h.addDData id val
  | setAData index val => exact h.setAData index val
  | setDData index val => exact h.setDData index val

theorem putAll (h : Shows m p) (ops : List PayloadOp) :
    Shows (ops.foldl UDPMessage.put m) (ops.foldl Payload.put p) := by
  induction ops generalizing m p with
  | nil => exact h
  | cons op ops ih => exact ih (h.put op)

end Shows

/-- The counts are the only fields of the header that are written. -/
theorem UDPMessage.header_put (m : UDPMessage) (op : PayloadOp) :
    ∃ dcount acount, (m.put op).header = { m.header with dcount, acount } := by
  cases op with
  | addAData dat =>
    unfold UDPMessage.put UDPMessage.addAData
    dsimp only
    split
    · exact ⟨_, _, rfl⟩
    · exact ⟨_, _, rfl⟩
  | addDData id val =>
    unfold UDPMessage.put UDPMessage.addDData
    dsimp only
    split
    · rename_i h
      unfold UDPMessage.setDData
      simp only [dif_pos h]
      exact ⟨_, _, rfl⟩
    · exact ⟨_, _, rfl⟩
  | setAData index val =>
    unfold UDPMessage.put UDPMessage.setAData
    dsimp only
    split
    · exact ⟨_, _, rfl⟩
    · exact ⟨_, _, rfl⟩
  | setDData index val =>
    exact ⟨_, _, UDPMessage.header_setDData index val⟩

theorem UDPMessage.header_putAll (m : UDPMessage) (ops : List PayloadOp) :
    ∃ dcount acount, (ops.foldl UDPMessage.put m).header = { m.header with dcount, acount } := by
  induction ops generalizing m with
  | nil => exact ⟨_, _, rfl⟩
  | cons op ops ih =>
    obtain ⟨dcount, acount, h⟩ := m.header_put op
    obtain ⟨dcount', acount', h'⟩ := ih (m.put op)
    refine ⟨dcount', acount', ?_⟩
    rw [List.foldl_cons, h', h]

/-! ## Between hosts -/

theorem rewriteArray_eq {α : Type} {len n : Nat} (f : α → α) (a : Fin len → α) (hn : n ≤ len) :
    rewriteArray f n a = some fun i => if i.val < n then f (a i) else a i := by
  induction n with
  | zero => rfl
  | succ n ih =>
    rw [rewriteArray, ih (Nat.le_of_succ_le hn)]
    simp only [Option.bind_eq_bind, Option.bind_some, dif_pos (Nat.lt_of_succ_le hn), Nat.lt_irrefl,
      if_false]
    congr 1
    funext i
    rw [Function.update_apply]
    by_cases hi : i.val = n
    · have hfin : i = ⟨n, Nat.lt_of_succ_le hn⟩ := Fin.ext hi
      rw [if_pos hfin, if_pos (by omega), hfin]
    · rw [if_neg fun hfin => hi (congrArg Fin.val hfin)]
      exact if_congr (by omega) rfl rfl

theorem BE16_TO_H_twice (x : UInt16) : BE16_TO_H (BE16_TO_H x) = x := by
  have hlt : reverseBytes 2 x.toNat < 2 ^ 16 := reverseBytes_lt 2 _
  unfold BE16_TO_H
  rw [UInt16.toNat_ofNat_of_lt' hlt, reverseBytes_reverseBytes x.toNat_lt, UInt16.ofNat_toNat]

theorem BE32_TO_H_twice (x : Int32) : BE32_TO_H (BE32_TO_H x) = x := by
  have hlt : reverseBytes 4 x.toUInt32.toNat < 2 ^ 32 := reverseBytes_lt 4 _
  unfold BE32_TO_H
  rw [UInt32.toUInt32_toInt32, UInt32.toNat_ofNat_of_lt' hlt,
    reverseBytes_reverseBytes x.toUInt32.toNat_lt, UInt32.ofNat_toNat, Int32.toInt32_toUInt32]

theorem toNat_BE_TO_H (x : UInt64) : (BE_TO_H x).toNat = reverseBytes 8 x.toNat :=
  UInt64.toNat_ofNat_of_lt' (reverseBytes_lt 8 _)

theorem BE_TO_H_twice (x : UInt64) : BE_TO_H (BE_TO_H x) = x := by
  rw [BE_TO_H, toNat_BE_TO_H, reverseBytes_reverseBytes x.toNat_lt, UInt64.ofNat_toNat]

namespace Host

variable {host : Host}

/-- What the host makes of a long field that the other host has written. -/
def turned (host : Host) (x : Int64) : Int64 := host.BE_TO_H_long (UNetUDP.BE_TO_H_long x)

/-- The narrow macro keeps the upper half alone. -/
theorem BE_TO_H_narrow (h : host.wide = false) (x : UInt64) :
    (host.BE_TO_H (UNetUDP.BE_TO_H x)).toNat = x.toNat / 256 ^ 4 := by
  have hlt : x.toNat / 256 ^ 4 < 256 ^ 4 := by
    refine Nat.div_lt_of_lt_mul ?_
    exact x.toNat_lt
  have hsmall : x.toNat / 256 ^ 4 < UInt64.size := by
    refine hlt.trans ?_
    decide
  rw [BE_TO_H, if_neg (by rw [h]; exact Bool.false_ne_true), toNat_BE_TO_H, reverseBytes_mod 4 4,
    reverseBytes_reverseBytes hlt, UInt64.toNat_ofNat_of_lt' hsmall]

theorem turned_wide (h : host.wide = true) (x : Int64) : host.turned x = x := by
  rw [turned, BE_TO_H_long, UNetUDP.BE_TO_H_long, UInt64.toUInt64_toInt64, BE_TO_H, if_pos h,
    BE_TO_H_twice, Int64.toInt64_toUInt64]

/-- Less is left of any number but zero. -/
theorem turned_narrow_iff (h : host.wide = false) (x : Int64) : host.turned x = x ↔ x = 0 := by
  have hturned : (host.turned x).toUInt64.toNat = x.toUInt64.toNat / 256 ^ 4 := by
    rw [turned, BE_TO_H_long, UNetUDP.BE_TO_H_long, UInt64.toUInt64_toInt64, UInt64.toUInt64_toInt64,
      BE_TO_H_narrow h]
  constructor
  · intro hx
    rw [hx] at hturned
    have hzero : x.toUInt64.toNat = 0 := by omega
    have hword : x.toUInt64 = 0 := UInt64.toNat_inj.mp hzero
    rw [← Int64.toInt64_toUInt64 x, hword]
    rfl
  · rintro rfl
    have hword : (host.turned 0).toUInt64 = 0 := UInt64.toNat_inj.mp hturned
    rw [← Int64.toInt64_toUInt64 (host.turned 0), hword]
    rfl

theorem BE_TO_H_swapSize {x : UInt64} (hx : host.wide = false → x.toNat < 256 ^ 4) :
    host.BE_TO_H (host.swapSize x) = x := by
  unfold BE_TO_H swapSize
  cases h : host.wide with
  | true =>
    rw [if_pos rfl, if_pos rfl, BE_TO_H_twice]
  | false =>
    have hlt : reverseBytes 4 x.toNat < 256 ^ 4 := reverseBytes_lt 4 _
    have hsmall : reverseBytes 4 x.toNat < UInt64.size := hlt.trans (by decide)
    rw [if_neg Bool.false_ne_true, if_neg Bool.false_ne_true, UInt64.toNat_ofNat_of_lt' hsmall,
      Nat.mod_eq_of_lt hlt, reverseBytes_reverseBytes (hx h), UInt64.ofNat_toNat]

/-- What the host makes of the message of the other host. -/
theorem ntoh_opposite {m : UDPMessage} (hfit : UDPMessage.CountsFit m.header)
    (hnum : host.wide = false → m.header.num.toNat < 256 ^ 4) :
    host.ntoh (host.opposite m) = some
      { m with
        header :=
          { m.header with
            be_order := host.HostIsBigEndian
            nodeID := host.turned m.header.nodeID
            procID := host.turned m.header.procID }
        a_dat := fun i =>
          if i.val < m.header.acount.toNat then
            { m.a_dat i with val := host.turned (m.a_dat i).val }
          else m.a_dat i } := by
  have hne : ¬(host.opposite m).header.be_order = host.HostIsBigEndian := by
    change ¬(!host.HostIsBigEndian) = host.HostIsBigEndian
    exact Bool.not_ne_self _
  have hheader : host.toHost (host.opposite m).header =
      { m.header with
        be_order := host.HostIsBigEndian
        nodeID := host.turned m.header.nodeID
        procID := host.turned m.header.procID } := by
    simp only [toHost, opposite, BE_TO_H_swapSize hnum, BE16_TO_H_twice, turned]
  unfold ntoh
  rw [if_neg hne, hheader]
  dsimp only
  rw [rewriteArray_eq host.convert (host.opposite m).a_dat hfit.1,
    rewriteArray_eq BE32_TO_H (host.opposite m).d_id hfit.2]
  simp only [Option.bind_eq_bind, Option.bind_some, Option.some.injEq, UDPMessage.mk.injEq, true_and]
  refine ⟨?_, ?_, rfl⟩
  · funext i
    by_cases hi : i.val < m.header.acount.toNat
    · simp only [opposite, if_pos hi, convert, UDPAData.swap, BE32_TO_H_twice, turned]
    · simp only [opposite, if_neg hi]
  · funext i
    by_cases hi : i.val < m.header.dcount.toNat
    · simp only [opposite, if_pos hi, BE32_TO_H_twice]
    · simp only [opposite, if_neg hi]

theorem ntoh_opposite_iff {m : UDPMessage} (horder : m.header.be_order = host.HostIsBigEndian)
    (hfit : UDPMessage.CountsFit m.header) (hnum : host.wide = false → m.header.num.toNat < 256 ^ 4) :
    host.ntoh (host.opposite m) = some m ↔
      host.turned m.header.nodeID = m.header.nodeID ∧ host.turned m.header.procID = m.header.procID ∧
      ∀ i : Fin MaxACount, i.val < m.header.acount.toNat →
        host.turned (m.a_dat i).val = (m.a_dat i).val := by
  rw [ntoh_opposite hfit hnum]
  constructor
  · intro h
    have hm := Option.some.inj h
    refine ⟨congrArg (fun m => m.header.nodeID) hm, congrArg (fun m => m.header.procID) hm, ?_⟩
    intro i hi
    have hval := congrArg (fun m => (m.a_dat i).val) hm
    dsimp only at hval
    rwa [if_pos hi] at hval
  · rintro ⟨hnode, hproc, hval⟩
    rw [hnode, hproc, ← horder]
    congr 2
    funext i
    split_ifs with hi
    · rw [hval i hi]
    · rfl

end Host

theorem Shows.countsFit {m : UDPMessage} {p : Payload} (h : Shows m p) :
    UDPMessage.CountsFit m.header := by
  rw [UDPMessage.CountsFit, h.acount, h.dcount]
  exact ⟨h.acount_le, h.dcount_le⟩

/-- A value holds of the places that are taken if it does of what has been stored. -/
theorem Shows.forall_a_dat_iff {m : UDPMessage} {p : Payload} (h : Shows m p) (P : UDPAData → Prop) :
    (∀ i : Fin MaxACount, i.val < m.header.acount.toNat → P (m.a_dat i)) ↔ ∀ d ∈ p.analog, P d := by
  rw [h.acount]
  constructor
  · intro hall d hd
    obtain ⟨i, hget⟩ := List.mem_iff_getElem?.mp hd
    have hi := (List.getElem?_eq_some_iff.mp hget).1
    have hshow := h.a_dat i d hget
    rw [UDPMessage.aDat_eq (hi.trans_le h.acount_le)] at hshow
    rw [← Option.some.inj hshow]
    exact hall ⟨i, hi.trans_le h.acount_le⟩ hi
  · intro hall i hi
    have hget := List.getElem?_eq_getElem hi
    have hshow := h.a_dat i _ hget
    rw [UDPMessage.aDat_eq i.isLt] at hshow
    rw [Option.some.inj hshow]
    exact hall _ (List.getElem_mem hi)

theorem Fresh.shows {host : Host} {m : UDPMessage} (h : Fresh host m) : Shows m .empty := by
  refine ⟨?_, Nat.zero_le _, ?_, Nat.zero_le _, fun i d hd => ?_, fun i d hd => ?_⟩
  · rw [h.acount]
    rfl
  · rw [h.dcount]
    rfl
  · cases hd
  · cases hd

/-- A message is intact as long as its long fields are not cut. -/
theorem intact_iff {host : Host} {start : UDPMessage} (hstart : Fresh host start)
    (ops : List PayloadOp) :
    Intact host (ops.foldl UDPMessage.put start) (ops.foldl Payload.put .empty) ↔
      host.wide = true ∨ start.header.nodeID = 0 ∧ start.header.procID = 0 ∧
        ∀ d ∈ (ops.foldl Payload.put .empty).analog, d.val = 0 := by
  have hshows := hstart.shows.putAll ops
  obtain ⟨dcount, acount, hheader⟩ := start.header_putAll ops
  generalize ops.foldl UDPMessage.put start = m at hshows hheader ⊢
  generalize ops.foldl Payload.put .empty = p at hshows ⊢
  have horder : m.header.be_order = host.HostIsBigEndian := by
    rw [hheader]
    exact hstart.be_order
  have hnode : m.header.nodeID = start.header.nodeID := by rw [hheader]
  have hproc : m.header.procID = start.header.procID := by rw [hheader]
  have hnum : host.wide = false → m.header.num.toNat < 256 ^ 4 := by
    rw [hheader]
    exact hstart.num
  have hback := Host.ntoh_opposite_iff horder hshows.countsFit hnum
  rw [hshows.forall_a_dat_iff fun d => host.turned d.val = d.val, hnode, hproc] at hback
  have hintact : Intact host m p ↔ host.ntoh (host.opposite m) = some m := by
    refine ⟨Intact.back, fun h => ⟨hshows, ?_, ?_, if_pos horder, h⟩⟩
    · exact UDPMessage.addAData_full
    · exact UDPMessage.addDData_full
  rw [hintact, hback]
  cases hwide : host.wide with
  | true =>
    simp only [Host.turned_wide hwide, implies_true, and_self, true_or]
  | false =>
    simp only [Host.turned_narrow_iff hwide, Bool.false_eq_true, false_or]

theorem fresh_new (host : Host) : Fresh host (.new host.HostIsBigEndian) := by
  refine ⟨rfl, rfl, rfl, fun _ => ?_⟩
  rw [UDPMessage.new_num]
  decide

/-- A host of either width keeps a message whose only data are digital. -/
theorem intact_new : Intact ⟨false, false⟩
    ([.addDData 7 true, .setDData 0 false].foldl UDPMessage.put (.new false))
    ([.addDData 7 true, .setDData 0 false].foldl Payload.put .empty) := by
  refine (intact_iff (fresh_new ⟨false, false⟩) _).mpr (.inr ⟨rfl, rfl, fun d hd => ?_⟩)
  cases hd

/-- A narrow host does not give back the node of a message. -/
theorem not_intact_narrow : ¬∀ (host : Host) (start : UDPMessage), Fresh host start →
    ∀ ops : List PayloadOp,
      Intact host (ops.foldl UDPMessage.put start) (ops.foldl Payload.put .empty) := by
  intro hall
  let start : UDPMessage :=
    { UDPMessage.new false with header := { UDPHeader.new false with nodeID := 1 } }
  have hfresh : Fresh ⟨false, false⟩ start := ⟨rfl, rfl, rfl, fun _ => by decide⟩
  have hback := (hall ⟨false, false⟩ start hfresh []).back
  have hnode := congrArg (Option.map fun m => m.header.nodeID) hback
  have hlost : ((Host.mk false false).ntoh ((Host.mk false false).opposite start)).map
      (fun m => m.header.nodeID) = some 0 := by
    decide
  rw [List.foldl_nil, hlost] at hnode
  cases hnode

end Uniset.UNetUDP
