import Uniset.Lib.GuardedRun
import Uniset.Modbus.CheckCRC
import Uniset.UNetUDP.CrcShortcut
import Uniset.UNetUDP.MessageImage
import Uniset.UNetUDP.Payload
import Uniset.UNetUDP.Robustness

/-! The checksums of the data in a message, and the changes that a receiver sees by them. -/

namespace Uniset.UNetUDP

open Uniset.Lib Uniset.Lib.Crc

/-- Over the same table as the checksum of Modbus. -/
def makeCRC (buf : List UInt8) : UInt16 := Modbus.get_crc_16 0xffff buf

namespace UDPMessage

variable (big : Bool) (m : UDPMessage)

/-- The bytes of an array of the message. -/
def bytesOf (offset size : Nat) : List UInt8 := (List.range size).map fun i => encode big m (offset + i)

def calcDcrc : UInt16 :=
  let crc0 := makeCRC (bytesOf big m dIdOffset (4 * MaxDCount))
  let crc1 := makeCRC (bytesOf big m dDatOffset MaxDDataCount)
  makeCRC (stored big 2 crc0.toNat ++ stored big 2 crc1.toNat)

def calcAcrc : UInt16 := makeCRC (bytesOf big m sizeofHeader (sizeofAData * MaxACount))

def updatePacketCrc : UDPMessage :=
  { m with header := { m.header with dcrc := calcDcrc big m, acrc := calcAcrc big m } }

/-- The message as it is sent under a number. -/
def stamp (num : UInt64) : UDPMessage := updatePacketCrc big (m.setNum num)

/-- The message in the byte order of the receiving host. -/
def inOrder (HostIsBigEndian : Bool) : UDPMessage :=
  { m with header := { m.header with be_order := HostIsBigEndian } }

end UDPMessage

/-! ## What the checksum of bytes sees -/

namespace Crc

open Modbus

variable {crc : UInt16} {s t : List UInt8}

theorem getElem?_bits (s : List UInt8) (i : Nat) :
    (bits s)[i]? = s[i / 8]?.map fun b => b.toBitVec.getLsbD (i % 8) := by
  induction s generalizing i with
  | nil => rfl
  | cons b s ih =>
    change (byteBits b ++ bits s)[i]? = _
    have hlen : (byteBits b).length = 8 := rfl
    rcases Nat.lt_or_ge i 8 with hlt | hge
    · rw [List.getElem?_append_left (hlen ▸ hlt), Nat.div_eq_of_lt hlt, Nat.mod_eq_of_lt hlt, byteBits,
        List.getElem?_map, List.getElem?_range hlt]
      rfl
    · have hdiv : i / 8 = (i - 8) / 8 + 1 := by omega
      have hmod : i % 8 = (i - 8) % 8 := by omega
      rw [List.getElem?_append_right (hlen ▸ hge), hlen, ih, hdiv, hmod, List.getElem?_cons_succ]

/-- Bytes that differ in at most two places side by side have different checksums. -/
theorem get_crc_16_inj_of_pair (hlen : s.length = t.length) (k : Nat)
    (hpair : ∀ i, s[i]? ≠ t[i]? → k ≤ i ∧ i < k + 2) :
    get_crc_16 crc s = get_crc_16 crc t ↔ s = t := by
  refine ⟨fun heq => ?_, fun h => h ▸ rfl⟩
  by_contra hne
  have hbits : (bits s).length = (bits t).length := by rw [bits_length, bits_length, hlen]
  refine feed_ne_of_burst ⟨15, rfl, rfl⟩ crc.toBitVec hbits (fun h => hne (bits_inj h)) (8 * k)
    (fun i hi => ?_) (by rw [← toBitVec_get_crc_16, ← toBitVec_get_crc_16, heq])
  obtain ⟨hge, hlt⟩ := hpair (i / 8) fun h => hi (by rw [getElem?_bits, getElem?_bits, h])
  omega

/-- The checksums differ by the one of what the bytes differ by. -/
theorem get_crc_16_eq_iff (hlen : s.length = t.length) :
    get_crc_16 crc s = get_crc_16 crc t ↔ get_crc_16 0 (List.zipWith (· ^^^ ·) s t) = 0 := by
  have hbits : (bits s).length = (bits t).length := by rw [bits_length, bits_length, hlen]
  have hxor : List.zipWith xor (bits s) (bits t) = bits (List.zipWith (· ^^^ ·) s t) := by
    refine List.ext_getElem? fun i => ?_
    rw [List.getElem?_zipWith, getElem?_bits, getElem?_bits, getElem?_bits, List.getElem?_zipWith]
    cases s[i / 8]? with
    | none => rfl
    | some a =>
      cases t[i / 8]? with
      | none => rfl
      | some b => exact congrArg some BitVec.getLsbD_xor.symm
  have hfeed := feed_xor polynomial crc.toBitVec crc.toBitVec hbits
  rw [BitVec.xor_self, hxor] at hfeed
  rw [← UInt16.toBitVec_inj, ← UInt16.toBitVec_inj, toBitVec_get_crc_16, toBitVec_get_crc_16,
    toBitVec_get_crc_16]
  change _ ↔ feed polynomial 0#16 _ = 0#16
  rw [← hfeed]
  exact BitVec.xor_eq_zero_iff.symm

theorem bits_replicate (n : Nat) : bits (List.replicate n 0) = List.replicate (8 * n) false := by
  induction n with
  | zero => rfl
  | succ n ih =>
    change byteBits 0 ++ bits (List.replicate n 0) = _
    rw [ih, Nat.mul_succ, Nat.add_comm, List.replicate_add]
    rfl

/-- What stands around the bytes that differ does not matter. -/
theorem get_crc_16_padded (n m : Nat) (s : List UInt8) :
    get_crc_16 0 (List.replicate n 0 ++ s ++ List.replicate m 0) = 0 ↔ get_crc_16 0 s = 0 := by
  have happend : ∀ s t : List UInt8, bits (s ++ t) = bits s ++ bits t := fun _ _ => List.flatMap_append
  rw [← UInt16.toBitVec_inj, ← UInt16.toBitVec_inj, toBitVec_get_crc_16, toBitVec_get_crc_16, happend,
    happend, bits_replicate, bits_replicate, feed_append, feed_append, feed_replicate, feed_replicate]
  change (step polynomial)^[8 * m] (feed polynomial ((step polynomial)^[8 * n] 0#16) (bits s)) = 0#16 ↔
    feed polynomial 0#16 (bits s) = 0#16
  rw [iterate_step_zero]
  exact ⟨fun h => iterate_step_eq_zero ⟨15, rfl, rfl⟩ h, fun h => by rw [h, iterate_step_zero]⟩

end Crc

theorem makeCRC_inj_of_pair {s t : List UInt8} (hlen : s.length = t.length) (k : Nat)
    (hpair : ∀ i, s[i]? ≠ t[i]? → k ≤ i ∧ i < k + 2) : makeCRC s = makeCRC t ↔ s = t :=
  Crc.get_crc_16_inj_of_pair hlen k hpair

/-! ## What the checksums of a message see -/

namespace UDPMessage

variable {big : Bool} {m m' : UDPMessage} {index : Nat}

@[simp] theorem length_bytesOf (offset size : Nat) : (bytesOf big m offset size).length = size := by
  simp [bytesOf]

theorem getElem?_bytesOf {offset size i : Nat} (h : i < size) :
    (bytesOf big m offset size)[i]? = some (encode big m (offset + i)) := by
  rw [bytesOf, List.getElem?_map, List.getElem?_range h]
  rfl

theorem encode_a_dat {i : Nat} (h : i < sizeofAData * MaxACount) :
    encode big m (sizeofHeader + i) =
      aDatByte big (m.a_dat ⟨i / sizeofAData, Nat.div_lt_of_lt_mul h⟩) (i % sizeofAData) := by
  rw [← encode_aDat ⟨i / sizeofAData, Nat.div_lt_of_lt_mul h⟩ (Nat.mod_lt i (by decide)), Nat.add_assoc,
    Nat.div_add_mod]

theorem encode_d_id {i : Nat} (h : i < 4 * MaxDCount) :
    encode big m (dIdOffset + i) =
      storedByte big 4 (m.d_id ⟨i / 4, Nat.div_lt_of_lt_mul h⟩).toUInt32.toNat (i % 4) := by
  rw [← encode_dId ⟨i / 4, Nat.div_lt_of_lt_mul h⟩ (Nat.mod_lt i (by decide)), Nat.add_assoc,
    Nat.div_add_mod]

theorem bytesOf_d_id_congr (h : m'.d_id = m.d_id) :
    bytesOf big m' dIdOffset (4 * MaxDCount) = bytesOf big m dIdOffset (4 * MaxDCount) := by
  refine List.map_congr_left fun i hi => ?_
  rw [encode_d_id (List.mem_range.mp hi), encode_d_id (List.mem_range.mp hi), h]

theorem d_id_setDData (index : Nat) (val : Bool) : (m.setDData index val).2.d_id = m.d_id := by
  unfold setDData
  split <;> rfl

/-- The bits are written where the value already is the same. -/
theorem d_dat_setDData_iff (h : index < MaxDCount) (val : Bool) :
    (m.setDData index val).2.d_dat = m.d_dat ↔ m.dValue index = val := by
  constructor
  · intro hsame
    have hset := m.dValue_setDData h val h
    rw [if_pos rfl, dValue_eq h, hsame, ← dValue_eq h] at hset
    exact hset
  · intro hval
    rw [setDData, dif_pos h]
    refine Function.update_eq_self_iff.mpr (UInt8.toNat_inj.mp (Nat.eq_of_testBit_eq fun j => ?_))
    by_cases hj : j < 8
    · rw [testBit_setBit (Nat.mod_lt _ (by decide)) hj]
      split_ifs with heq
      · rw [heq, ← dValue_eq h, hval]
      · rfl
    · have hlt : ∀ d : UInt8, d.toNat < 2 ^ j := fun d =>
        d.toNat_lt.trans_le (Nat.pow_le_pow_right (by decide) (Nat.le_of_not_lt hj))
      rw [Nat.testBit_lt_two_pow (hlt _), Nat.testBit_lt_two_pow (hlt _)]

theorem crc1_setDData_iff (h : index < MaxDCount) (val : Bool) :
    makeCRC (bytesOf big (m.setDData index val).2 dDatOffset MaxDDataCount) =
        makeCRC (bytesOf big m dDatOffset MaxDDataCount) ↔
      m.dValue index = val := by
  have hget : ∀ (m : UDPMessage) (i : Fin MaxDDataCount),
      (bytesOf big m dDatOffset MaxDDataCount)[i.val]? = some (m.d_dat i) := fun m i => by
    rw [getElem?_bytesOf i.isLt, encode_dDat]
  rw [makeCRC_inj_of_pair (by simp) (index / 8) fun i hi => ?_, ← d_dat_setDData_iff h]
  · constructor
    · intro hbytes
      funext i
      exact Option.some.inj (by rw [← hget, ← hget, hbytes])
    · intro hdat
      refine List.map_congr_left fun i hi => ?_
      have hencode : ∀ m : UDPMessage, encode big m (dDatOffset + i) =
        m.d_dat ⟨i, List.mem_range.mp hi⟩ := fun m => encode_dDat ⟨i, List.mem_range.mp hi⟩
      rw [hencode, hencode, hdat]
  · -- only the byte of the index is written
    rcases Nat.lt_or_ge i MaxDDataCount with hlt | hge
    · rw [hget _ ⟨i, hlt⟩, hget _ ⟨i, hlt⟩, setDData, dif_pos h] at hi
      dsimp only at hi
      by_cases heq : i = index / 8
      · omega
      · rw [Function.update_of_ne fun hfin => heq (congrArg Fin.val hfin)] at hi
        exact absurd rfl hi
    · rw [List.getElem?_eq_none (by simpa using hge), List.getElem?_eq_none (by simpa using hge)] at hi
      exact absurd rfl hi

theorem getElem?_append_stored (big : Bool) (x y : UInt16) (i : Nat) (hi : i < 2) :
    (stored big 2 x.toNat ++ stored big 2 y.toNat)[i]? = some (storedByte big 2 x.toNat i) := by
  rw [List.getElem?_append_left (by simpa using hi), getElem?_stored big _ hi]

/-- The checksum of the discrete data changes if and only if the value does. -/
theorem calcDcrc_setDData_iff (h : index < MaxDCount) (val : Bool) :
    calcDcrc big (m.setDData index val).2 = calcDcrc big m ↔ m.dValue index = val := by
  have hlt : ∀ x : UInt16, x.toNat < 256 ^ 2 := fun x => x.toNat_lt
  unfold calcDcrc
  dsimp only
  rw [bytesOf_d_id_congr (d_id_setDData index val), makeCRC_inj_of_pair (by simp) 2 fun i hi => ?_,
    List.append_right_inj, stored_inj (hlt _) (hlt _), UInt16.toNat_inj, crc1_setDData_iff h]
  refine ⟨?_, ?_⟩
  · by_contra hsmall
    exact hi (by
      rw [getElem?_append_stored _ _ _ _ (by omega), getElem?_append_stored _ _ _ _ (by omega)])
  · by_contra hlarge
    exact hi (by rw [List.getElem?_eq_none (by simpa using hlarge),
      List.getElem?_eq_none (by simpa using hlarge)])

theorem a_dat_setAData {i : Fin MaxACount} (h : index < MaxACount) (val : Int64) :
    (m.setAData index val).2.a_dat i = if i.val = index then { m.a_dat i with val } else m.a_dat i := by
  rw [setAData, dif_pos h]
  dsimp only
  by_cases heq : i = ⟨index, h⟩
  · rw [heq, Function.update_self, if_pos rfl]
  · rw [Function.update_of_ne heq, if_neg fun hval => heq (Fin.ext hval)]

/-- What a byte of the analog data becomes differs from what it was by a byte of the difference of
the values. -/
theorem encode_setAData {i : Nat} (hi : i < sizeofAData * MaxACount) (h : index < MaxACount)
    (val : Int64) : encode big (m.setAData index val).2 (sizeofHeader + i) ^^^
        encode big m (sizeofHeader + i) =
      if i / sizeofAData = index ∧ 4 ≤ i % sizeofAData then
        storedByte big 8 (val.toUInt64 ^^^ (m.a_dat ⟨index, h⟩).val.toUInt64).toNat
          (i % sizeofAData - 4)
      else 0 := by
  rw [encode_a_dat hi, encode_a_dat hi, a_dat_setAData h]
  dsimp only
  by_cases hplace : i / sizeofAData = index
  · have hfin : (⟨i / sizeofAData, Nat.div_lt_of_lt_mul hi⟩ : Fin MaxACount) = ⟨index, h⟩ :=
      Fin.ext hplace
    rw [if_pos hplace, hfin]
    unfold aDatByte
    by_cases hval : i % sizeofAData < 4
    · rw [if_pos hval, if_pos hval, if_neg (by omega), UInt8.xor_self]
    · rw [if_neg hval, if_neg hval, if_pos ⟨hplace, Nat.le_of_not_lt hval⟩, storedByte, storedByte,
        storedByte, UInt64.toNat_xor, byteAt_xor]
  · rw [if_neg hplace, if_neg fun hboth => hplace hboth.1, UInt8.xor_self]

theorem getElem?_padded (n k : Nat) (s : List UInt8) (i : Nat) :
    (List.replicate n 0 ++ s ++ List.replicate k 0)[i]? =
      if i < n + s.length + k then some (if n ≤ i then s.getD (i - n) 0 else 0) else none := by
  rw [List.getElem?_append, List.getElem?_append, List.getElem?_replicate, List.getElem?_replicate,
    List.length_append, List.length_replicate]
  by_cases hhead : i < n
  · rw [if_pos (by omega), if_pos hhead, if_pos hhead, if_pos (by omega), if_neg (by omega)]
  · by_cases hmid : i < n + s.length
    · rw [if_pos hmid, if_neg hhead, if_pos (by omega), if_pos (by omega), List.getD_eq_getElem?_getD,
        List.getElem?_eq_getElem (by omega), Option.getD_some]
    · rw [if_neg hmid, List.getD_eq_default _ _ (by omega), ite_self]
      exact if_congr (by omega) rfl rfl

/-- The bytes of the values are the only ones that differ. -/
theorem xor_setAData (h : index < MaxACount) (val : Int64) :
    List.zipWith (· ^^^ ·) (bytesOf big (m.setAData index val).2 sizeofHeader (sizeofAData * MaxACount))
        (bytesOf big m sizeofHeader (sizeofAData * MaxACount)) =
      List.replicate (sizeofAData * index + 4) 0 ++
        stored big 8 (val.toUInt64 ^^^ (m.a_dat ⟨index, h⟩).val.toUInt64).toNat ++
        List.replicate (sizeofAData * (MaxACount - 1 - index)) 0 := by
  refine List.ext_getElem? fun i => ?_
  have hmul : ∀ n, sizeofAData * n = 12 * n := fun _ => rfl
  have hdiv : i / sizeofAData = i / 12 := rfl
  have hmod : i % sizeofAData = i % 12 := rfl
  have hmax : MaxACount = 2000 := rfl
  have hindex := hmul index
  have hrest := hmul (MaxACount - 1 - index)
  have hall := hmul MaxACount
  rw [List.getElem?_zipWith, getElem?_padded, length_stored]
  by_cases hi : i < sizeofAData * MaxACount
  · rw [getElem?_bytesOf hi, getElem?_bytesOf hi, if_pos (by omega)]
    refine congrArg some ((encode_setAData hi h val).trans ?_)
    by_cases hbyte : i / sizeofAData = index ∧ 4 ≤ i % sizeofAData
    · have hplace : i - (sizeofAData * index + 4) = i % sizeofAData - 4 := by omega
      rw [if_pos hbyte, if_pos (by omega), hplace, List.getD_eq_getElem?_getD,
        getElem?_stored big _ (by omega), Option.getD_some]
    · rw [if_neg hbyte]
      split_ifs with hge
      · rw [List.getD_eq_default _ _ (by rw [length_stored]; omega)]
      · rfl
  · rw [List.getElem?_eq_none (by simpa using hi), if_neg (by omega)]

/-- Whether the checksum of the analog data sees that a value changes depends only on the two values:
what they differ by must not be a multiple of the polynomial. -/
theorem calcAcrc_setAData_iff (h : index < MaxACount) (val : Int64) :
    calcAcrc big (m.setAData index val).2 = calcAcrc big m ↔
      Modbus.get_crc_16 0
        (stored big 8 (val.toUInt64 ^^^ (m.a_dat ⟨index, h⟩).val.toUInt64).toNat) = 0 := by
  unfold calcAcrc makeCRC
  rw [Crc.get_crc_16_eq_iff (by simp), xor_setAData h, Crc.get_crc_16_padded]

/-- A change of the low 16 bits is never a multiple of the polynomial. -/
theorem get_crc_16_stored_ne_zero {x : UInt64} (hx : x.toNat < 256 ^ 2) (hne : x ≠ 0) :
    Modbus.get_crc_16 0 (stored big 8 x.toNat) ≠ 0 := by
  have hzero : Modbus.get_crc_16 0 (stored big 8 0) = 0 := by cases big <;> decide
  intro heq
  have hsame := heq.trans hzero.symm
  rw [Crc.get_crc_16_inj_of_pair (by simp) (if big then 6 else 0) fun i hi => ?_,
    stored_inj x.toNat_lt (by decide)] at hsame
  · exact hne (UInt64.toNat_inj.mp hsame)
  · rcases Nat.lt_or_ge i 8 with hlt | hge
    · by_contra hout
      have hplace : ¬ (bytePlace big 8 0 = i ∨ bytePlace big 8 1 = i) := by
        revert hout
        cases big <;> simp [bytePlace] <;> omega
      exact hi (by rw [getElem?_stored big _ hlt, getElem?_stored big _ hlt,
        storedByte_eq_zero hx hlt hplace, storedByte_eq_zero (by decide) hlt hplace])
    · exact absurd rfl (by rwa [List.getElem?_eq_none (by simpa using hge),
        List.getElem?_eq_none (by simpa using hge)] at hi)

/-- The number tells packets apart only if there is no data in them. -/
theorem getDataID_congr (hacount : m'.header.acount = m.header.acount)
    (hdcount : m'.header.dcount = m.header.dcount)
    (ha : (m'.a_dat ⟨0, by decide⟩).id = (m.a_dat ⟨0, by decide⟩).id)
    (hd : m'.d_id ⟨0, by decide⟩ = m.d_id ⟨0, by decide⟩)
    (hdata : m.header.acount > 0 ∨ m.header.dcount > 0) : m'.getDataID = m.getDataID := by
  unfold getDataID
  rw [hacount, hdcount, ha, hd]
  split_ifs with hanalog hdigital
  · rfl
  · rfl
  · exact absurd (hdata.resolve_left hanalog) hdigital

theorem calcDcrc_stamp (num : UInt64) : calcDcrc big (m.setNum num) = calcDcrc big m := by
  have hdat : bytesOf big (m.setNum num) dDatOffset MaxDDataCount =
      bytesOf big m dDatOffset MaxDDataCount :=
    List.map_congr_left fun i hi => by
      have hlt := List.mem_range.mp hi
      exact (encode_dDat (m := m.setNum num) ⟨i, hlt⟩).trans (encode_dDat (m := m) ⟨i, hlt⟩).symm
  have hid : bytesOf big (m.setNum num) dIdOffset (4 * MaxDCount) =
      bytesOf big m dIdOffset (4 * MaxDCount) := bytesOf_d_id_congr rfl
  unfold calcDcrc
  rw [hid, hdat]

theorem calcAcrc_stamp (num : UInt64) : calcAcrc big (m.setNum num) = calcAcrc big m := by
  unfold calcAcrc
  refine congrArg makeCRC (List.map_congr_left fun i hi => ?_)
  rw [encode_a_dat (List.mem_range.mp hi), encode_a_dat (List.mem_range.mp hi)]
  rfl

/-- The number and the checksums are all that a message that is sent differs in. -/
theorem sent_eq (num : UInt64) (HostIsBigEndian : Bool) :
    (stamp big m num).inOrder HostIsBigEndian =
      { m with
        header := { m.header with
          be_order := HostIsBigEndian
          num
          dcrc := calcDcrc big m
          acrc := calcAcrc big m } } := by
  simp only [inOrder, stamp, updatePacketCrc, calcDcrc_stamp, calcAcrc_stamp]
  simp only [setNum]

theorem getDataID_sent {num num' : UInt64} {HostIsBigEndian : Bool} (hheader : m'.header = m.header)
    (ha : (m'.a_dat ⟨0, by decide⟩).id = (m.a_dat ⟨0, by decide⟩).id)
    (hd : m'.d_id ⟨0, by decide⟩ = m.d_id ⟨0, by decide⟩)
    (hdata : m.header.acount > 0 ∨ m.header.dcount > 0) :
    ((stamp big m' num').inOrder HostIsBigEndian).getDataID =
      ((stamp big m num).inOrder HostIsBigEndian).getDataID := by
  rw [sent_eq, sent_eq, hheader]
  exact getDataID_congr rfl rfl ha hd hdata

theorem crc_of_sums (header : UDPHeader) (dcrc acrc : UInt16) (k : Kind) :
    crc { m with header := { header with dcrc, acrc } } k =
      match k with
      | .digital => dcrc
      | .analog => acrc := by
  cases k with
  | digital => rfl
  | analog => rfl

theorem crc_sent (num : UInt64) (HostIsBigEndian : Bool) (k : Kind) :
    ((stamp big m num).inOrder HostIsBigEndian).crc k =
      match k with
      | .digital => calcDcrc big m
      | .analog => calcAcrc big m := by
  rw [sent_eq]
  exact crc_of_sums { m.header with be_order := HostIsBigEndian, num } _ _ k

end UDPMessage

/-! ## What a receiver passes over -/

theorem setItems_crc {item : Nat → Option (ObjectId × Int32)} {n : Nat}
    {st st' : CacheInfo × SharedMemory} (h : setItems item n st = some st') :
    st'.1.crc = st.1.crc ∨ st'.1.crc = 0 := by
  induction n generalizing st' with
  | zero =>
    cases h
    exact .inl rfl
  | succ n ih =>
    simp only [setItems, Option.bind_eq_bind, Option.bind_eq_some_iff] at h
    obtain ⟨st₁, h₁, ⟨sid, val⟩, -, h⟩ := h
    unfold setItem at h
    split at h
    · cases hset : st₁.2.localSetValue sid val with
      | none =>
        rw [hset] at h
        cases h
        exact .inr rfl
      | some sm =>
        rw [hset] at h
        cases h
        refine (ih h₁).imp (fun h => ?_) fun h => ?_
        · dsimp only
          split <;> exact h
        · dsimp only
          split <;> exact h
    · cases h

/-- After data of a kind was processed its crc is remembered, or none is; other data are not touched. -/
theorem applyItems_remembered {ignoreCRC : Bool} {c c' : CacheMap} {sm sm' : SharedMemory} {dID : Int}
    {crc : UInt16} {count : Nat} {idAt : Nat → Option ObjectId}
    {item : Nat → Option (ObjectId × Int32)}
    (h : applyItems ignoreCRC c sm dID crc count idAt item = some (c', sm')) :
    (∀ n, c'.remembered dID n = crc ∨ c'.remembered dID n = 0) ∧ ∀ dID' ≠ dID, c' dID' = c dID' := by
  have hremembered : ∀ info : CacheInfo, info.crc = crc ∨ info.crc = 0 → ∀ n,
      CacheMap.remembered (Function.update c dID (some info)) dID n = crc ∨
        CacheMap.remembered (Function.update c dID (some info)) dID n = 0 := by
    intro info hinfo n
    unfold CacheMap.remembered
    rw [Function.update_self]
    dsimp only [Option.getD_some]
    split
    · exact hinfo
    · exact .inr rfl
  simp only [applyItems, Option.bind_eq_bind, Option.bind_eq_some_iff] at h
  obtain ⟨info, -, h⟩ := h
  split at h
  · obtain ⟨⟨info', sm₁⟩, hitems, h⟩ := Option.bind_eq_some_iff.mp h
    cases h
    exact ⟨hremembered info' (setItems_crc hitems), fun dID' hne => Function.update_of_ne hne _ _⟩
  · rename_i hskip
    cases h
    rw [not_or, not_or, not_not] at hskip
    exact ⟨hremembered info (.inl hskip.2.1), fun dID' hne => Function.update_of_ne hne _ _⟩

namespace UNetReceiver

variable {b : BufferSize} {r r' : UNetReceiver b} {sm sm' : SharedMemory} {p : UDPMessage} {k : Kind}

/-- The crc is the only one that is remembered of the data. -/
def Remembers (r : UNetReceiver b) (k : Kind) (dID : Int) (crc : UInt16) : Prop :=
  ∀ count, (r.icache_map k).remembered dID count = crc ∨ (r.icache_map k).remembered dID count = 0

theorem applyPacket_remembered (h : r.applyPacket sm p = some (r', sm')) (k : Kind) :
    r'.Remembers k p.getDataID (p.crc k) ∧
      ∀ dID ≠ p.getDataID, r'.icache_map k dID = r.icache_map k dID := by
  simp only [applyPacket, Option.bind_eq_bind, Option.bind_eq_some_iff] at h
  obtain ⟨⟨dmap, sm₁⟩, hd, ⟨amap, sm₂⟩, ha, h⟩ := h
  cases h
  cases k with
  | digital => exact applyItems_remembered hd
  | analog => exact applyItems_remembered ha

theorem Remembers.applyPacket {dID : Int} {crc : UInt16} (hI : r.Remembers k dID crc)
    (hne : p.getDataID ≠ dID) (h : r.applyPacket sm p = some (r', sm')) : r'.Remembers k dID crc := by
  intro count
  have hsame := (applyPacket_remembered h k).2 dID hne.symm
  unfold CacheMap.remembered
  rw [hsame]
  exact hI count

theorem Remembers.not_passesOver {crc : UInt16} (hI : r.Remembers k p.getDataID crc)
    (hne : p.crc k ≠ crc) : ¬ r.PassesOver p k := by
  rintro ⟨-, hzero, hsame⟩
  rcases hI (p.count k) with h | h
  · exact hne (hsame.symm.trans h)
  · exact hzero (hsame.symm.trans h)

/-- Packets of other data are applied one after another. -/
def OthersApplied (dID : Int) (s t : UNetReceiver b × SharedMemory) : Prop :=
  Reaches (fun s p => s.1.applyPacket s.2 p) (fun _ p => p.getDataID ≠ dID) s t

/-- Data whose crc is another one is not passed over. -/
theorem not_passesOver_of_crc_ne {p' : UDPMessage} {s t : UNetReceiver b × SharedMemory}
    (hID : p'.getDataID = p.getDataID) (hcrc : p'.crc k ≠ p.crc k)
    (h : r.applyPacket sm p = some s) (hothers : OthersApplied p.getDataID s t) :
    ¬ t.1.PassesOver p' k := by
  have hI : t.1.Remembers k p.getDataID (p.crc k) :=
    hothers.invariant (I := fun s => s.1.Remembers k p.getDataID (p.crc k))
      (fun hI hne hstep => hI.applyPacket hne hstep) (applyPacket_remembered h k).1
  rw [← hID] at hI
  exact hI.not_passesOver hcrc

end UNetReceiver

/-! ## One value changes -/

section Change

variable {b : BufferSize} {r : UNetReceiver b} {sm : SharedMemory} {s t : UNetReceiver b × SharedMemory}
  {big HostIsBigEndian : Bool} {num num' : UInt64} {index : Nat}

/-- A packet in which a discrete value is another one is never passed over. -/
theorem discrete_change_seen (m : UDPMessage) (hindex : index < MaxDCount)
    (hused : index < m.header.dcount.toNat) {val : Bool} (hval : m.dValue index ≠ val)
    (h : r.applyPacket sm ((m.stamp big num).inOrder HostIsBigEndian) = some s)
    (hothers : UNetReceiver.OthersApplied ((m.stamp big num).inOrder HostIsBigEndian).getDataID s t) :
    ¬ t.1.PassesOver (((m.setDData index val).2.stamp big num').inOrder HostIsBigEndian) .digital := by
  have hid : ((m.setDData index val).2.a_dat ⟨0, by decide⟩).id = (m.a_dat ⟨0, by decide⟩).id := by
    rw [UDPMessage.a_dat_setDData]
  refine UNetReceiver.not_passesOver_of_crc_ne (UDPMessage.getDataID_sent (m.header_setDData index val)
    hid (congrFun (UDPMessage.d_id_setDData index val) _)
    (.inr (UInt16.lt_iff_toNat_lt.mpr (Nat.zero_lt_of_lt hused)))) ?_ h hothers
  rw [UDPMessage.crc_sent, UDPMessage.crc_sent]
  exact fun hsame => hval ((UDPMessage.calcDcrc_setDData_iff hindex val).mp hsame)

/-- A message with one sensor of each kind. -/
def oneOfEach : UDPMessage :=
  { UDPMessage.new false with header := { UDPHeader.new false with acount := 1, dcount := 1 } }

theorem oneOfEach_applied (r : UNetReceiver .default) :
    ∃ s, r.applyPacket .initial ((oneOfEach.stamp false 1).inOrder false) = some s := by
  refine UNetReceiver.applyPacket_isSome r .initial ?_
  rw [UDPMessage.sent_eq]
  exact ⟨by decide, by decide⟩

/-- The first discrete sensor is switched on. -/
theorem discrete_change_seen_first : ∃ s : UNetReceiver .default × SharedMemory,
    ¬ s.1.PassesOver (((oneOfEach.setDData 0 true).2.stamp false 2).inOrder false) .digital := by
  obtain ⟨s, hs⟩ := oneOfEach_applied (.new false .default .default 0)
  exact ⟨s, discrete_change_seen oneOfEach (by decide) (by decide) (by decide) hs (.refl s)⟩

/-- A packet in which an analog value is another one is not passed over unless the difference of the
two is a multiple of the polynomial, as no change of the low 16 bits is. -/
theorem analog_change_seen (m : UDPMessage) {d : UDPAData} (hd : m.aDat index = some d)
    (hused : index < m.header.acount.toNat) (val : Int64)
    (h : r.applyPacket sm ((m.stamp big num).inOrder HostIsBigEndian) = some s)
    (hothers : UNetReceiver.OthersApplied ((m.stamp big num).inOrder HostIsBigEndian).getDataID s t) :
    let x := val.toUInt64 ^^^ d.val.toUInt64
    (UDPMessage.calcAcrc big (m.setAData index val).2 = UDPMessage.calcAcrc big m ↔
      Modbus.get_crc_16 0 (stored big 8 x.toNat) = 0) ∧
    (Modbus.get_crc_16 0 (stored big 8 x.toNat) = 0 → x = 0 ∨ 256 ^ 2 ≤ x.toNat) ∧
    (Modbus.get_crc_16 0 (stored big 8 x.toNat) ≠ 0 →
      ¬ t.1.PassesOver (((m.setAData index val).2.stamp big num').inOrder HostIsBigEndian) .analog) := by
  intro x
  have hindex : index < MaxACount := by
    unfold UDPMessage.aDat at hd
    split at hd
    next hlt => exact hlt
    next => cases hd
  obtain rfl : m.a_dat ⟨index, hindex⟩ = d := Option.some.inj (UDPMessage.aDat_eq hindex ▸ hd)
  have hsame : UDPMessage.calcAcrc big (m.setAData index val).2 = UDPMessage.calcAcrc big m ↔ _ :=
    UDPMessage.calcAcrc_setAData_iff hindex val
  refine ⟨hsame, fun hzero => ?_, fun hne => ?_⟩
  · by_contra hout
    rw [not_or, Nat.not_le] at hout
    exact UDPMessage.get_crc_16_stored_ne_zero hout.2 hout.1 hzero
  · have hheader : (m.setAData index val).2.header = m.header := by
      rw [UDPMessage.setAData, dif_pos hindex]
    have hd_id : (m.setAData index val).2.d_id = m.d_id := by
      rw [UDPMessage.setAData, dif_pos hindex]
    have hid : ((m.setAData index val).2.a_dat ⟨0, by decide⟩).id = (m.a_dat ⟨0, by decide⟩).id := by
      rw [UDPMessage.a_dat_setAData hindex]
      split_ifs <;> rfl
    refine UNetReceiver.not_passesOver_of_crc_ne (UDPMessage.getDataID_sent hheader hid
      (congrFun hd_id _) (.inl (UInt16.lt_iff_toNat_lt.mpr (Nat.zero_lt_of_lt hused)))) ?_ h hothers
    rw [UDPMessage.crc_sent, UDPMessage.crc_sent]
    exact fun heq => hne (hsame.mp heq)

/-- The first analog sensor goes from 0 to 1. -/
theorem analog_change_seen_first : ∃ s : UNetReceiver .default × SharedMemory,
    ¬ s.1.PassesOver (((oneOfEach.setAData 0 1).2.stamp false 2).inOrder false) .analog := by
  obtain ⟨s, hs⟩ := oneOfEach_applied (.new false .default .default 0)
  have hfirst : oneOfEach.aDat 0 = some (oneOfEach.a_dat ⟨0, by decide⟩) :=
    UDPMessage.aDat_eq (by decide)
  obtain ⟨-, -, hseen⟩ := analog_change_seen oneOfEach hfirst (by decide) 1 hs (.refl s)
  have hchange : (Int64.toUInt64 1 ^^^ (oneOfEach.a_dat ⟨0, by decide⟩).val.toUInt64).toNat = 1 := by
    decide
  exact ⟨s, hseen (by rw [hchange]; decide)⟩

end Change

end Uniset.UNetUDP
