import Uniset.UNetUDP.UNetReceiver

/-! The message as it stands in memory, byte for byte, and the datagram that is read over
it.  A short datagram leaves the tail of what stood there before. -/

namespace Uniset.UNetUDP

open Uniset.Lib

namespace UDPMessage

/-! ### The layout of the packed structures -/

def sizeofHeader : Nat := 33
def sizeofAData : Nat := 12
def dIdOffset : Nat := sizeofHeader + sizeofAData * MaxACount
def dDatOffset : Nat := dIdOffset + 4 * MaxDCount
def sizeof : Nat := dDatOffset + MaxDDataCount

/-- The byte of the two bit fields: a little-endian host fills it from the low end. -/
def flagsByte (HostIsBigEndian : Bool) (h : UDPHeader) : UInt8 :=
  UInt8.ofNat
    (if HostIsBigEndian then h.be_order.toNat * 128 + h.version.toNat
    else h.be_order.toNat + 2 * h.version.toNat)

def headerByte (big : Bool) (h : UDPHeader) (i : Nat) : UInt8 :=
  if i < 1 then flagsByte big h
  else if i < 9 then storedByte big 8 h.num.toNat (i - 1)
  else if i < 17 then storedByte big 8 h.nodeID.toUInt64.toNat (i - 9)
  else if i < 25 then storedByte big 8 h.procID.toUInt64.toNat (i - 17)
  else if i < 27 then storedByte big 2 h.dcount.toNat (i - 25)
  else if i < 29 then storedByte big 2 h.acount.toNat (i - 27)
  else if i < 31 then storedByte big 2 h.dcrc.toNat (i - 29)
  else storedByte big 2 h.acrc.toNat (i - 31)

def aDatByte (big : Bool) (d : UDPAData) (k : Nat) : UInt8 :=
  if k < 4 then storedByte big 4 d.id.toUInt32.toNat k
  else storedByte big 8 d.val.toUInt64.toNat (k - 4)

/-- The byte of the message at place `i`. -/
def encode (big : Bool) (m : UDPMessage) (i : Nat) : UInt8 :=
  if i < sizeofHeader then headerByte big m.header i
  else if ha : i < dIdOffset then
    aDatByte big
      (m.a_dat ⟨(i - sizeofHeader) / sizeofAData, by
        simp only [sizeofHeader, sizeofAData, dIdOffset, MaxACount] at *; omega⟩)
      ((i - sizeofHeader) % sizeofAData)
  else if hd : i < dDatOffset then
    storedByte big 4
      (m.d_id ⟨(i - dIdOffset) / 4, by
        simp only [dDatOffset, MaxDCount] at *; omega⟩).toUInt32.toNat
      ((i - dIdOffset) % 4)
  else if h : i - dDatOffset < MaxDDataCount then m.d_dat ⟨i - dDatOffset, h⟩
  else 0

def decodeHeader (big : Bool) (mem : Nat → UInt8) : UDPHeader where
  be_order := decide (1 ≤ if big then (mem 0).toNat / 128 else (mem 0).toNat % 2)
  version := BitVec.ofNat 7 (if big then (mem 0).toNat % 128 else (mem 0).toNat / 2)
  num := UInt64.ofNat (readBytes big mem 1 8)
  nodeID := (UInt64.ofNat (readBytes big mem 9 8)).toInt64
  procID := (UInt64.ofNat (readBytes big mem 17 8)).toInt64
  dcount := UInt16.ofNat (readBytes big mem 25 2)
  acount := UInt16.ofNat (readBytes big mem 27 2)
  dcrc := UInt16.ofNat (readBytes big mem 29 2)
  acrc := UInt16.ofNat (readBytes big mem 31 2)

/-- The message that stands in memory. -/
def decode (big : Bool) (mem : Nat → UInt8) : UDPMessage where
  header := decodeHeader big mem
  a_dat i :=
    { id := (UInt32.ofNat (readBytes big mem (sizeofHeader + sizeofAData * i) 4)).toInt32
      val := (UInt64.ofNat (readBytes big mem (sizeofHeader + sizeofAData * i + 4) 8)).toInt64 }
  d_id i := (UInt32.ofNat (readBytes big mem (dIdOffset + 4 * i) 4)).toInt32
  d_dat i := mem (dDatOffset + i)

/-! ### Reading back what was stored -/

variable {big : Bool} {mem : Nat → UInt8} {off : Nat}

theorem readBytes_uint64 {x : UInt64}
    (h : ∀ k < 8, mem (off + k) = storedByte big 8 x.toNat k) :
    UInt64.ofNat (readBytes big mem off 8) = x := by
  rw [readBytes_stored x.toNat_lt h, UInt64.ofNat_toNat]

theorem readBytes_int64 {x : Int64}
    (h : ∀ k < 8, mem (off + k) = storedByte big 8 x.toUInt64.toNat k) :
    (UInt64.ofNat (readBytes big mem off 8)).toInt64 = x := by
  rw [readBytes_uint64 h]
  rfl

theorem readBytes_int32 {x : Int32}
    (h : ∀ k < 4, mem (off + k) = storedByte big 4 x.toUInt32.toNat k) :
    (UInt32.ofNat (readBytes big mem off 4)).toInt32 = x := by
  rw [readBytes_stored x.toUInt32.toNat_lt h, UInt32.ofNat_toNat]
  rfl

theorem readBytes_uint16 {x : UInt16}
    (h : ∀ k < 2, mem (off + k) = storedByte big 2 x.toNat k) :
    UInt16.ofNat (readBytes big mem off 2) = x := by
  rw [readBytes_stored x.toNat_lt h, UInt16.ofNat_toNat]

theorem decodeHeader_of_bytes {h : UDPHeader}
    (hmem : ∀ i < sizeofHeader, mem i = headerByte big h i) : decodeHeader big mem = h := by
  have hbyte : ∀ {lo n x : Nat}, lo + n ≤ sizeofHeader →
      (∀ k < n, headerByte big h (lo + k) = storedByte big n x k) →
      ∀ k < n, mem (lo + k) = storedByte big n x k := by
    intro lo n x hle hfield k hk
    rw [hmem _ (by omega), hfield k hk]
  obtain ⟨be_order, version, num, nodeID, procID, dcount, acount, dcrc, acrc⟩ := h
  have hflags : mem 0 = flagsByte big ⟨be_order, version, num, nodeID, procID, dcount, acount,
      dcrc, acrc⟩ := hmem 0 (by decide)
  have hversion := version.isLt
  simp only [decodeHeader, UDPHeader.mk.injEq]
  refine ⟨?_, ?_, readBytes_uint64 (hbyte (by decide) ?_), readBytes_int64 (hbyte (by decide) ?_),
    readBytes_int64 (hbyte (by decide) ?_), readBytes_uint16 (hbyte (by decide) ?_),
    readBytes_uint16 (hbyte (by decide) ?_), readBytes_uint16 (hbyte (by decide) ?_),
    readBytes_uint16 (hbyte (by decide) ?_)⟩
  · cases big <;> cases be_order <;> simp [hflags, flagsByte] <;> omega
  · apply BitVec.eq_of_toNat_eq
    cases big <;> cases be_order <;> simp [hflags, flagsByte] <;> omega
  all_goals
    intro k hk
    unfold headerByte
    repeat rw [if_neg (by omega)]
    first
    | rw [if_pos (by omega), Nat.add_sub_cancel_left]
    | rw [Nat.add_sub_cancel_left]

theorem encode_header {m : UDPMessage} {i : Nat} (hi : i < sizeofHeader) :
    encode big m i = headerByte big m.header i := by
  rw [encode, if_pos hi]

theorem encode_aDat {m : UDPMessage} (i : Fin MaxACount) {k : Nat} (hk : k < sizeofAData) :
    encode big m (sizeofHeader + sizeofAData * i + k) = aDatByte big (m.a_dat i) k := by
  have hi := i.isLt
  simp only [MaxACount, sizeofAData] at hi hk
  have hdiv : (sizeofHeader + sizeofAData * i + k - sizeofHeader) / sizeofAData = i := by
    simp only [sizeofHeader, sizeofAData]; omega
  have hmod : (sizeofHeader + sizeofAData * i + k - sizeofHeader) % sizeofAData = k := by
    simp only [sizeofHeader, sizeofAData]; omega
  have hlt : sizeofHeader + sizeofAData * i + k < dIdOffset := by
    simp only [sizeofHeader, sizeofAData, dIdOffset, MaxACount]; omega
  simp only [encode, hdiv, hmod]
  rw [if_neg (by simp only [sizeofHeader]; omega), dif_pos hlt]

theorem encode_dId {m : UDPMessage} (i : Fin MaxDCount) {k : Nat} (hk : k < 4) :
    encode big m (dIdOffset + 4 * i + k) = storedByte big 4 (m.d_id i).toUInt32.toNat k := by
  have hi := i.isLt
  simp only [MaxDCount] at hi
  have hdiv : (dIdOffset + 4 * i + k - dIdOffset) / 4 = i := by omega
  have hmod : (dIdOffset + 4 * i + k - dIdOffset) % 4 = k := by omega
  have hlt : dIdOffset + 4 * i + k < dDatOffset := by
    simp only [dDatOffset, MaxDCount]; omega
  simp only [encode, hdiv, hmod]
  rw [if_neg (by simp only [sizeofHeader, dIdOffset]; omega), dif_neg (by omega), dif_pos hlt]

theorem encode_dDat {m : UDPMessage} (i : Fin MaxDDataCount) :
    encode big m (dDatOffset + i) = m.d_dat i := by
  have hsub : dDatOffset + i - dDatOffset = i := by omega
  have hge : sizeofHeader ≤ dIdOffset ∧ dIdOffset ≤ dDatOffset := by decide
  simp only [encode, hsub]
  rw [if_neg (by omega), dif_neg (by omega), dif_neg (by omega), dif_pos i.isLt]

theorem decode_encode (big : Bool) (m : UDPMessage) : decode big (encode big m) = m := by
  refine UDPMessage.ext (decodeHeader_of_bytes fun i hi => encode_header hi) ?_ ?_ ?_
  · funext i
    refine UDPAData.ext (readBytes_int32 fun k hk => ?_) (readBytes_int64 fun k hk => ?_)
    · rw [encode_aDat i (hk.trans (by decide)), aDatByte, if_pos hk]
    · have hk' : 4 + k < sizeofAData := by simp only [sizeofAData]; omega
      rw [Nat.add_assoc, encode_aDat i hk', aDatByte, if_neg (by omega), Nat.add_sub_cancel_left]
  · funext i
    exact readBytes_int32 fun k hk => encode_dId i hk
  · funext i
    exact encode_dDat i

theorem decode_congr {mem' : Nat → UInt8} (h : ∀ i < sizeof, mem i = mem' i) :
    decode big mem = decode big mem' := by
  have hread : ∀ off n, off + n ≤ sizeof → readBytes big mem off n = readBytes big mem' off n :=
    fun off n hle => readBytes_congr fun k hk => h _ (by omega)
  have hsize : sizeof = 40534 := rfl
  refine UDPMessage.ext ?_ ?_ ?_ ?_
  · simp only [decode, decodeHeader]
    rw [h 0 (by decide), hread 1 8 (by decide), hread 9 8 (by decide), hread 17 8 (by decide),
      hread 25 2 (by decide), hread 27 2 (by decide), hread 29 2 (by decide),
      hread 31 2 (by decide)]
  · funext i
    have hi := i.isLt
    simp only [MaxACount] at hi
    simp only [decode]
    rw [hread _ 4 (by simp only [hsize, sizeofHeader, sizeofAData]; omega),
      hread _ 8 (by simp only [hsize, sizeofHeader, sizeofAData]; omega)]
  · funext i
    have hi := i.isLt
    simp only [MaxDCount] at hi
    simp only [decode]
    rw [hread _ 4 (by
      simp only [hsize, dIdOffset, sizeofHeader, sizeofAData, MaxACount]; omega)]
  · funext i
    exact h _ (Nat.add_lt_add_left i.isLt dDatOffset)

/-- The message after a datagram was read over it.  What goes past the end of the message is
cut off. -/
def overlay (big : Bool) (datagram : List UInt8) (m : UDPMessage) : UDPMessage :=
  decode big fun i => (datagram[i]?).getD (encode big m i)

/-- The bytes of a message as they are sent. -/
def image (big : Bool) (m : UDPMessage) : List UInt8 := (List.range sizeof).map (encode big m)

@[simp] theorem length_image (m : UDPMessage) : (image big m).length = sizeof := by
  simp [image]

/-- The datagram of a message, read over whatever stood there, is the message. -/
theorem overlay_image (m m' : UDPMessage) : overlay big (image big m) m' = m := by
  refine (decode_congr fun i hi => ?_).trans (decode_encode big m)
  simp [image, List.getElem?_range hi]

end UDPMessage

/-- What the transport gives for one call: an exception or a negative result, or the bytes of a
datagram, none at all when the peer is gone. -/
inductive Received
  | failed
  | datagram (bytes : List UInt8)

namespace UNetReceiver

variable {b : BufferSize}

/-- `receive`; `none` when a conversion leaves an array of the message. -/
def receive (HostIsBigEndian : Bool) (ret : Received) (r : UNetReceiver b) :
    Option (ReceiveRetCode × UNetReceiver b) :=
  match ret with
  | .failed => some (.retError, r)
  | .datagram bytes =>
      if bytes = [] then some (.retNoData, r)
      else r.receiveMessage HostIsBigEndian
        ((r.cbuf (b.slot r.wnum)).overlay HostIsBigEndian bytes)

/-- The datagram of a message delivers the message. -/
theorem receive_image (HostIsBigEndian : Bool) (m : UDPMessage) (r : UNetReceiver b) :
    r.receive HostIsBigEndian (.datagram (m.image HostIsBigEndian)) =
      r.receiveMessage HostIsBigEndian m := by
  have hne : m.image HostIsBigEndian ≠ [] :=
    List.ne_nil_of_length_pos (by rw [UDPMessage.length_image]; decide)
  simp only [receive, if_neg hne, UDPMessage.overlay_image]

end UNetReceiver

end Uniset.UNetUDP
