import Uniset.Modbus.Carries
import Uniset.Modbus.Reception

/-! What a message holds after the parts of it have been received. -/

namespace Uniset.Modbus

open Uniset.Lib

/-- `bs` is what has been received of the message behind its function. -/
structure ModbusMessage.Holds (m : ModbusMessage) (bs : List ModbusByte) : Prop where
  data : ∃ rest, m.data = bs ++ rest
  bcnt : m.bcnt = szModbusHeader + bs.length

/-- The message that has received `bs`. -/
def ModbusMessage.holding (m : ModbusMessage) (func : ModbusByte) (dlen : Nat)
    (bs : List ModbusByte) : ModbusMessage :=
  { m with
    func := func
    data := bs ++ m.data.drop bs.length
    dlen := dlen
    bcnt := szModbusHeader + bs.length }

theorem holds_holding (m : ModbusMessage) (func : ModbusByte) (dlen : Nat)
    (bs : List ModbusByte) : (m.holding func dlen bs).Holds bs :=
  ⟨⟨_, rfl⟩, rfl⟩

namespace ModbusMessage.Holds

variable {m : ModbusMessage} {bs : List ModbusByte} (h : m.Holds bs)
include h

theorem frame : ∃ rest, m.frame = m.addr :: m.func :: (bs ++ rest) := by
  obtain ⟨rest, hdata⟩ := h.data
  exact ⟨rest, congrArg (m.addr :: m.func :: ·) hdata⟩

theorem value_byte {i : Nat} (hi : i < bs.length) : (m.byte i).value = .ok (bs.getD i 0) := by
  obtain ⟨rest, hdata⟩ := h.data
  change Except.ok (m.data.getD i 0) = _
  rw [hdata, List.getD_append _ _ _ _ hi]

/-- A byte is read safely if it has been received. -/
theorem safe_byte (i : Nat) : (m.byte i).Safe ↔ i < bs.length := by
  refine (Checked.safe_bind_ok rfl _).trans ?_
  rw [Checked.safe_require, h.bcnt]
  simp only [Checked.safe_pure, and_true]
  omega

theorem value_word {i : Nat} (hi : i + 1 < bs.length) :
    (m.word (szModbusHeader + i)).value = .ok (wordOf bs i) := by
  obtain ⟨rest, hframe⟩ := h.frame
  change Except.ok (wordOf m.frame (szModbusHeader + i)) = _
  rw [hframe]
  unfold wordOf
  rw [Nat.add_comm szModbusHeader i]
  simp only [szModbusHeader, Nat.add_right_comm i 2 1, List.getD_cons_succ]
  rw [List.getD_append _ _ _ _ (Nat.lt_of_succ_lt hi), List.getD_append _ _ _ _ hi]

theorem safe_word (off : Nat) : (m.word off).Safe ↔ off ≤ bs.length := by
  refine (Checked.safe_bind_ok rfl _).trans ?_
  rw [Checked.safe_require, h.bcnt]
  simp only [Checked.safe_pure, and_true, sizeofModbusData, szModbusHeader]
  omega

theorem value_bytes {i n : Nat} (hn : i + n ≤ bs.length) :
    (m.bytes (szModbusHeader + i) n).value = .ok ((bs.drop i).take n) := by
  obtain ⟨rest, hframe⟩ := h.frame
  change Except.ok ((m.frame.drop (szModbusHeader + i)).take n) = _
  rw [hframe, Nat.add_comm szModbusHeader i]
  simp only [szModbusHeader, List.drop_succ_cons]
  rw [List.drop_append_of_le_length (Nat.le_of_add_right_le hn),
    List.take_append_of_le_length (by rw [List.length_drop]; omega)]

theorem safe_bytes (off n : Nat) :
    (m.bytes off n).Safe ↔ n = 0 ∨ off + n ≤ szModbusHeader + bs.length := by
  refine (Checked.safe_bind_ok rfl _).trans ?_
  rw [Checked.safe_require, h.bcnt]
  simp only [Checked.safe_pure, and_true]

theorem value_pduCRC {n : Nat} (hn : n ≤ bs.length) :
    (m.pduCRC (szModbusHeader + n)).value =
      .ok (checkCRC (m.addr :: m.func :: bs.take n)) := by
  obtain ⟨rest, hframe⟩ := h.frame
  change Except.ok (checkCRC ((m.frame.drop 0).take (szModbusHeader + n))) = _
  rw [hframe, Nat.add_comm szModbusHeader]
  simp only [szModbusHeader, List.drop_zero, List.take_succ_cons]
  rw [List.take_append_of_le_length hn]

theorem safe_pduCRC {n : Nat} (hn : n ≤ szModbusHeader + bs.length) : (m.pduCRC n).Safe := by
  refine (Checked.safe_bind_ok rfl _).mpr ⟨(h.safe_bytes 0 n).mpr (.inr ?_), rfl⟩
  rwa [Nat.zero_add]

/-- A copy reads only what has been received and writes only the object if it is not too long. -/
theorem safe_copy (n size : Nat) :
    (m.copy n size).Safe ↔ n ≤ size ∧ n ≤ szModbusHeader + bs.length := by
  refine (Checked.safe_bind_ok rfl _).trans ?_
  unfold write
  rw [Checked.safe_require, h.safe_bytes, Nat.zero_add]
  omega

end ModbusMessage.Holds

section Parts

variable (m : ModbusMessage) (func : ModbusByte) (dlen : Nat) (bs : List ModbusByte)

theorem store_zero :
    ModbusMessage.store { m with func := func, dlen := dlen, bcnt := szModbusHeader } 0 bs =
      m.holding func dlen bs := by
  simp [ModbusMessage.store, ModbusMessage.holding]

/-- What is received next stands behind what has been received. -/
theorem store_holding (xs : List ModbusByte) :
    (m.holding func dlen bs).store bs.length xs = m.holding func dlen (bs ++ xs) := by
  simp [ModbusMessage.store, ModbusMessage.holding, List.drop_append, List.drop_drop]

end Parts

/-- Either all the bytes are received or the channel is dropped. -/
theorem value_getNextData (off len : Nat) (r : Received) :
    (getNextData off len r).value =
      if r.channel.length < len then .error (erInvalidFormat, [])
      else .ok ⟨r.rbuf.store off (r.channel.take len), r.channel.drop len⟩ := by
  have hlen : min len r.channel.length < len ↔ r.channel.length < len := by omega
  simp only [getNextData, Checked.value_bind, Checked.value_require, Except.bind,
    Checked.value_ite, List.length_take, hlen]
  rfl

theorem safe_getNextData (off len : Nat) (r : Received) :
    (getNextData off len r).Safe ↔ off + min len r.channel.length ≤ MAXLENPACKET + szCRC := by
  refine (Checked.safe_bind_ok rfl _).trans ?_
  rw [Checked.safe_require, List.length_take]
  apply and_iff_left
  split
  · rfl
  · rfl

section Rest

variable {m : ModbusMessage} {func : ModbusByte} {k n : Nat} {s : List ModbusByte}
  {crcNoCheckit : Bool} {getDataLen : ModbusMessage → Codec Nat}

theorem value_getRestOfData {r : Received} (hlen : (getDataLen r.rbuf).value = .ok n) :
    (getRestOfData crcNoCheckit getDataLen r).value =
      (getNextData r.rbuf.dlen (withoutCRC crcNoCheckit (n + szCRC)) r).value.map fun r =>
        { r with rbuf.dlen := r.rbuf.bcnt - szModbusHeader } := by
  simp only [getRestOfData, Checked.value_bind, Checked.value_mapError, hlen, Except.mapError,
    Except.bind]
  cases (getNextData r.rbuf.dlen (withoutCRC crcNoCheckit (n + szCRC)) r).value with
  | error e => rfl
  | ok r => rfl

/-- The first `k` bytes say that `n` more follow. -/
theorem value_parts
    (hlen : k ≤ s.length → (getDataLen (m.holding func k (s.take k))).value = .ok n) :
    (getNextData 0 k ⟨{ m with func := func, dlen := k, bcnt := szModbusHeader }, s⟩ >>=
        getRestOfData crcNoCheckit getDataLen).value =
      if s.length < k + withoutCRC crcNoCheckit (n + szCRC) then .error (erInvalidFormat, [])
      else .ok ⟨m.holding func (k + withoutCRC crcNoCheckit (n + szCRC))
          (s.take (k + withoutCRC crcNoCheckit (n + szCRC))),
        s.drop (k + withoutCRC crcNoCheckit (n + szCRC))⟩ := by
  generalize hz : withoutCRC crcNoCheckit (n + szCRC) = z
  rw [Checked.value_bind, value_getNextData]
  by_cases hk : s.length < k
  · rw [if_pos hk, if_pos (Nat.lt_add_right z hk)]
    rfl
  have hle : k ≤ s.length := Nat.le_of_not_lt hk
  have hstore := store_holding m func k (s.take k) ((s.drop k).take z)
  rw [List.length_take_of_le hle, ← List.take_add] at hstore
  rw [if_neg hk, store_zero, Except.bind, value_getRestOfData (hlen hle), hz, value_getNextData]
  have hshort : (s.drop k).length < z ↔ s.length < k + z := by rw [List.length_drop]; omega
  simp only [hshort]
  by_cases hz : s.length < k + z
  · rw [if_pos hz, if_pos hz]
    rfl
  rw [if_neg hz, if_neg hz]
  let stored := (m.holding func k (s.take k)).store k ((s.drop k).take z)
  change Except.ok (Received.mk { stored with dlen := stored.bcnt - szModbusHeader } _) = _
  rw [show stored = _ from hstore, List.drop_drop]
  simp only [ModbusMessage.holding, List.length_take_of_le (Nat.le_of_not_lt hz),
    Nat.add_sub_cancel_left]

/-- Nothing goes wrong if the whole message fits into the buffer. -/
theorem safe_parts
    (hlen : k ≤ s.length → (getDataLen (m.holding func k (s.take k))).value = .ok n)
    (hsafe : k ≤ s.length → (getDataLen (m.holding func k (s.take k))).Safe)
    (hfits : k + withoutCRC crcNoCheckit (n + szCRC) ≤ MAXLENPACKET + szCRC) :
    (getNextData 0 k ⟨{ m with func := func, dlen := k, bcnt := szModbusHeader }, s⟩ >>=
        getRestOfData crcNoCheckit getDataLen).Safe := by
  rw [Checked.safe_bind, safe_getNextData]
  refine ⟨by omega, fun r hr => ?_⟩
  rw [value_getNextData] at hr
  split_ifs at hr with hk
  have hle : k ≤ s.length := Nat.le_of_not_lt hk
  cases hr
  rw [store_zero]
  refine (Checked.safe_bind_ok (congrArg (Except.mapError _) (hlen hle)) _).mpr
    ⟨hsafe hle, ?_⟩
  refine (Checked.safe_bind _ _).mpr ⟨(safe_getNextData _ _ _).mpr ?_, fun _ _ => rfl⟩
  change k + _ ≤ _
  omega

end Rest

section Lengths

variable {bs : List ModbusByte}

theorem getD_take {s : List ModbusByte} {i n : Nat} (hi : i < n) :
    (s.take n).getD i 0 = s.getD i 0 := by
  rw [List.getD_eq_getElem?_getD, List.getD_eq_getElem?_getD, List.getElem?_take_of_lt hi]

theorem wordOf_take {s : List ModbusByte} {i n : Nat} (hi : i + 1 < n) :
    wordOf (s.take n) i = wordOf s i := by
  unfold wordOf
  rw [getD_take (Nat.lt_of_succ_lt hi), getD_take hi]

/-- How many bytes of data a diagnostic function has, known or not. -/
def szDiagnosticData (sf : ModbusData) : Nat :=
  (szRequestDiagnosticData sf).getD 0 * sizeofModbusData

theorem szDiagnosticData_le (sf : ModbusData) : szDiagnosticData sf ≤ 2 := by
  unfold szDiagnosticData szRequestDiagnosticData
  split_ifs
  · exact Nat.le_refl 2
  · exact Nat.zero_le 2

variable {m : ModbusMessage} (h : m.Holds bs)
include h

theorem getDataLenAt_eq {i : Nat} (hdlen : m.dlen ≠ 0) (hi : i < bs.length) :
    (getDataLenAt i m).value = .ok (bs.getD i 0).toNat ∧ (getDataLenAt i m).Safe := by
  unfold getDataLenAt
  rw [if_neg hdlen]
  constructor
  · simp only [Checked.value_bind, h.value_byte hi, Except.bind, Checked.value_pure]
  · exact (Checked.safe_bind_ok (h.value_byte hi) _).mpr ⟨(h.safe_byte i).mpr hi, rfl⟩

theorem getDataLen_fileTransfer_eq (hlen : 0 < bs.length) :
    (FileTransferRetMessage.getDataLen m).value = .ok (bs.getD 0 0).toNat ∧
      (FileTransferRetMessage.getDataLen m).Safe := by
  constructor
  · simp only [FileTransferRetMessage.getDataLen, Checked.value_bind, h.value_byte hlen, Except.bind,
      Checked.value_pure]
  · exact (Checked.safe_bind_ok (h.value_byte hlen) _).mpr ⟨(h.safe_byte 0).mpr hlen, rfl⟩

theorem getDataLen_diagnostic_eq (hdlen : m.dlen ≠ 0) (hlen : 1 < bs.length) :
    (DiagnosticMessage.getDataLen m).value = .ok (szDiagnosticData (SWAPSHORT (wordOf bs 0))) ∧
      (DiagnosticMessage.getDataLen m).Safe := by
  have hword := h.value_word hlen
  unfold DiagnosticMessage.getDataLen szDiagnosticData
  rw [if_neg hdlen]
  constructor
  · simp only [Checked.value_bind, Nat.add_zero] at hword ⊢
    rw [hword, Except.bind]
    cases szRequestDiagnosticData (SWAPSHORT (wordOf bs 0)) <;> rfl
  · refine (Checked.safe_bind_ok hword _).mpr ⟨(h.safe_word _).mpr hlen, ?_⟩
    cases szRequestDiagnosticData (SWAPSHORT (wordOf bs 0)) <;> rfl

end Lengths

/-! The checksum of a frame. -/

/-- The checksum of a frame, if one is sent. -/
def sumOf (crcNoCheckit : Bool) (addr : ModbusAddr) (func : ModbusByte)
    (body : List ModbusByte) : List ModbusByte :=
  if crcNoCheckit then [] else toMemory (checkCRC (addr :: func :: body))

/-- How long the checksum is. -/
def szSum (crcNoCheckit : Bool) : Nat := if crcNoCheckit then 0 else szCRC

theorem szSum_le (crcNoCheckit : Bool) : szSum crcNoCheckit ≤ 2 := by
  cases crcNoCheckit <;> decide

@[simp] theorem sumOf_length (crcNoCheckit : Bool) (addr : ModbusAddr) (func : ModbusByte)
    (body : List ModbusByte) : (sumOf crcNoCheckit addr func body).length = szSum crcNoCheckit := by
  cases crcNoCheckit <;> rfl

theorem withoutCRC_add (crcNoCheckit : Bool) (n : Nat) :
    withoutCRC crcNoCheckit (n + szCRC) = n + szSum crcNoCheckit := by
  cases crcNoCheckit <;> rfl

/-- The stream is a frame of the function with the body, and `rest` behind that. -/
def FrameOf (crcNoCheckit : Bool) (addr : ModbusAddr) (func : ModbusByte)
    (body stream rest : List ModbusByte) : Prop :=
  stream = func :: (body ++ (sumOf crcNoCheckit addr func body ++ rest))

/-- The frame is there if the stream is long enough and the sum of its body is right. -/
theorem frameOf_iff {crcNoCheckit : Bool} {addr : ModbusAddr} {func : ModbusByte}
    {body s rest : List ModbusByte} {n : Nat} :
    body.length = n ∧ FrameOf crcNoCheckit addr func body (func :: s) rest ↔
      n + szSum crcNoCheckit ≤ s.length ∧ body = s.take n ∧
      s.take (n + szSum crcNoCheckit) = body ++ sumOf crcNoCheckit addr func body ∧
      rest = s.drop (n + szSum crcNoCheckit) := by
  constructor
  · rintro ⟨rfl, hs⟩
    have hs := List.tail_eq_of_cons_eq hs
    have hframe : body.length + szSum crcNoCheckit =
        (body ++ sumOf crcNoCheckit addr func body).length := by
      rw [List.length_append, sumOf_length]
    rw [hframe, hs, ← List.append_assoc]
    refine ⟨?_, ?_, List.take_left.symm ▸ rfl, List.drop_left.symm⟩
    · exact (Nat.le_add_right _ _).trans_eq List.length_append.symm
    · rw [List.append_assoc, List.take_left]
  · rintro ⟨hle, hbody, hframe, hrest⟩
    constructor
    · rw [hbody, List.length_take_of_le (Nat.le_of_add_right_le hle)]
    · rw [FrameOf, hrest, ← List.append_assoc, ← hframe, List.take_append_drop]

theorem toMemory_ofMemory (low high : ModbusByte) : toMemory (ofMemory low high) = [low, high] := by
  have hl := low.toNat_lt
  have hh := high.toNat_lt
  have hword : (ofMemory low high).toNat = low.toNat + high.toNat * 256 := by
    simp only [ofMemory, UInt16.toNat_ofNat']
    omega
  have hlow : byteAt (ofMemory low high).toNat 0 = low := by
    apply UInt8.toNat_inj.mp
    rw [byteAt_toNat, hword]
    omega
  have hhigh : byteAt (ofMemory low high).toNat 1 = high := by
    apply UInt8.toNat_inj.mp
    rw [byteAt_toNat, hword]
    omega
  rw [toMemory, hlow, hhigh]

theorem toMemory_inj {x y : UInt16} (h : toMemory x = toMemory y) : x = y := by
  obtain ⟨hlow, hhigh⟩ := List.cons_eq_cons.mp h
  have hhigh := List.head_eq_of_cons_eq hhigh
  rw [← ofMemory_byteAt x, hlow, hhigh, ofMemory_byteAt]

/-- Two bytes are the word that is in them. -/
theorem toMemory_wordOf {bs : List ModbusByte} {n : Nat} (hlen : bs.length = n + 2) :
    toMemory (wordOf bs n) = bs.drop n := by
  obtain ⟨a, b, hab⟩ : ∃ a b, bs.drop n = [a, b] := by
    apply List.length_eq_two.mp
    rw [List.length_drop, hlen, Nat.add_sub_cancel_left]
  have ha : bs.getD n 0 = a := by
    rw [← Nat.add_zero n, getD_add, hab]
    rfl
  have hb : bs.getD (n + 1) 0 = b := by
    rw [getD_add, hab]
    rfl
  rw [wordOf, ha, hb, hab, toMemory_ofMemory]

section Checksum

variable {m : ModbusMessage} {bs : List ModbusByte} {n : Nat} {crcNoCheckit : Bool}
  {g : ModbusMessage → Codec ModbusCRC}

theorem value_getCrcAt (h : m.Holds bs) (f : SlaveFunctionCode) (hn : n + 1 < bs.length) :
    (getCrcAt f n m).value = .ok (wordOf bs n) :=
  h.value_word hn

theorem value_getCrcCounted (h : m.Holds bs) (f : SlaveFunctionCode)
    (hlen : bs.length = 1 + (bs.getD 0 0).toNat + szCRC) :
    (getCrcCounted f m).value = .ok (wordOf bs (1 + (bs.getD 0 0).toNat)) := by
  have hbyte := h.value_byte (i := 0) (by omega)
  have hword := h.value_word (i := 1 + (bs.getD 0 0).toNat) (by rw [hlen]; exact Nat.lt_succ_self _)
  rw [← Nat.add_assoc] at hword
  simp only [getCrcCounted, assert, Checked.value_bind, Checked.value_require, hbyte, Except.bind,
    hword]

theorem value_getCrcLast (h : m.Holds bs) (f : SlaveFunctionCode) (hlen : bs.length = n + szCRC)
    (hdlen : m.dlen = bs.length) : (getCrcLast f m).value = .ok (wordOf bs n) := by
  change (m.word (szModbusHeader + m.dlen - szCRC)).value = _
  rw [hdlen, hlen, ← Nat.add_assoc, Nat.add_sub_cancel]
  apply h.value_word
  rw [hlen]
  exact Nat.lt_succ_self _

/-- The checksum of a message that is `n` bytes and what checks them is right if it is the one of
these bytes. -/
theorem value_verifyCRC (h : m.Holds bs) (hlen : bs.length = n + szSum crcNoCheckit) {c : ModbusCRC}
    (hget : (g m).value = .ok c) (hc : crcNoCheckit = false → c = wordOf bs n) :
    (verifyCRC crcNoCheckit g m).value =
      if bs = bs.take n ++ sumOf crcNoCheckit m.addr m.func (bs.take n) then .ok ()
      else .error erBadCheckSum := by
  cases crcNoCheckit with
  | true =>
    have hbs : bs.take n = bs := List.take_of_length_le (Nat.le_of_eq hlen)
    simp [verifyCRC, hget, Except.bind, sumOf, hbs]
  | false =>
    have hlen : bs.length = n + 2 := hlen
    have hpdu := h.value_pduCRC (n := n) (by omega)
    have hbcnt : m.bcnt - szCRC = szModbusHeader + n := by
      rw [h.bcnt, hlen]
      rfl
    have hsum : bs = bs.take n ++ sumOf false m.addr m.func (bs.take n) ↔
        checkCRC (m.addr :: m.func :: bs.take n) = wordOf bs n := by
      change bs = bs.take n ++ toMemory _ ↔ _
      constructor
      · intro h
        apply toMemory_inj
        rw [toMemory_wordOf hlen]
        exact List.append_cancel_left (h.symm.trans (List.take_append_drop n bs).symm)
      · intro h
        rw [h, toMemory_wordOf hlen, List.take_append_drop]
    have hverify : (verifyCRC false g m).value =
        if checkCRC (m.addr :: m.func :: bs.take n) ≠ wordOf bs n then .error erBadCheckSum
        else .ok () := by
      unfold verifyCRC
      rw [Checked.value_bind, hget, Except.bind, if_neg Bool.false_ne_true, Checked.value_bind,
        hbcnt, hpdu, Except.bind, Checked.value_ite, hc rfl]
      rfl
    rw [hverify, ite_not]
    simp only [hsum]

end Checksum

end Uniset.Modbus
