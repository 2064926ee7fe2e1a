import Uniset.Modbus.RoundTrip

/-! Which messages of counted data are the same after they have been put into a message and read
from it. -/

namespace Uniset.Modbus

open Uniset.Lib SlaveFunctionCode

theorem ErrorRetMessage.roundTrips {addr func ecode : ModbusByte} :
    ErrorRetMessage.RoundTrips ⟨addr, func ||| MBErrMask, ecode, 0⟩ := by
  have hT : ErrorRetMessage.Transports ⟨addr, func ||| MBErrMask, ecode, 0⟩ [ecode] := by
    apply MessageType.Transports.of_put rfl (n := 3) _ rfl (Nat.le_of_ble_eq_true rfl)
    intro mm
    have hmask : func ||| MBErrMask ||| MBErrMask = func ||| MBErrMask := by
      rw [UInt8.or_assoc, UInt8.or_self]
    have hput : ErrorRetMessage.transport_msg_to ⟨addr, func ||| MBErrMask, ecode, 0⟩ mm =
        mm.put addr (func ||| MBErrMask ||| MBErrMask) [ecode] 3 := rfl
    rw [hput, hmask]
    exact ⟨rfl, id⟩
  apply hT.roundTrips
  · intro m hm
    have hbyte := hm.value_byte (k := 0) (by decide : 0 < 1)
    have hcrc := hm.value_crc
    change (m.word (szModbusHeader + 1)).value = _ at hcrc
    apply MessageType.decodes_of_value rfl
    simp only [ErrorRetMessage.init, Checked.value_bind, Checked.value_pure, Except.bind, hbyte,
      hcrc, hm.addr_eq, hm.func_eq]
    rfl
  · rfl
  · exact fun m hm => ⟨_, hm.value_crc, hm.value_pduCRC⟩

namespace BitsBuffer

theorem toNat_bcnt (b : BitsBuffer) : b.bcnt.toNat = b.data.length := by
  have hfits : b.data.length ≤ 253 := b.fits
  simp only [bcnt, UInt8.toNat_ofNat']
  omega

/-- Every buffer of bits is read again. -/
theorem roundTrips {f : SlaveFunctionCode} {addr : ModbusAddr} {b : BitsBuffer} :
    (retType f).RoundTrips ⟨addr, f.code, b, 0⟩ := by
  have hfits : b.data.length ≤ 253 := b.fits
  have hcount : (b.bcnt :: b.data).length = 1 + b.bcnt.toNat := by
    rw [toNat_bcnt, List.length_cons, Nat.add_comm]
  have hT : (retType f).Transports ⟨addr, f.code, b, 0⟩ (b.bcnt :: b.data) := by
    apply MessageType.Transports.of_put rfl (n := 1 + b.bcnt.toNat + szCRC)
    · intro mm
      refine ⟨rfl, fun h => ?_⟩
      refine (Checked.safe_bind_ok rfl _).mpr ⟨(Checked.safe_require _ _).mpr ?_, h⟩
      simp only [szModbusHeader, szCRC, toNat_bcnt]
      omega
    · rw [hcount]
    · rw [List.length_cons]
      exact Nat.le_trans (Nat.succ_le_succ hfits) (by decide)
  apply hT.roundTrips
  · intro m hm
    have hbyte := hm.value_byte (k := 0) (Nat.succ_pos _)
    have hbytes := hm.value_bytes (k := 1) (n := b.bcnt.toNat) (Nat.le_of_eq hcount.symm)
    have hcrc := hm.value_crc
    rw [hcount, toNat_bcnt, ← Nat.add_assoc] at hcrc
    rw [List.getD_cons_zero] at hbyte
    rw [List.drop_succ_cons, List.drop_zero, toNat_bcnt, List.take_length] at hbytes
    have hbody : (⟨b.data.take MAXPDULEN, List.length_take_le _ _⟩ : BitsBuffer) = b := by
      cases b
      congr
      exact List.take_of_length_le hfits
    apply MessageType.decodes_of_value rfl
    simp only [init, assert, Checked.value_bind, Checked.value_require, Checked.value_pure,
      Except.bind, hbyte, if_neg (Nat.not_lt_of_le b.fits), toNat_bcnt, hbytes, hcrc, hm.addr_eq,
      hm.func_eq, hbody]
    rfl
  · rw [hcount]
    rfl
  · exact fun m hm => ⟨_, hm.value_getCrcCounted hcount, hm.value_calcCRCCounted hcount⟩

end BitsBuffer

namespace WordsRet

variable {f : SlaveFunctionCode} {addr : ModbusAddr} {ds : List ModbusData}

/-- The words that are put into the message. -/
def bytes (w : WordsRet) : List ModbusByte := w.bcnt :: (swapped w.data).take w.bcnt.toNat

/-- The count of a list of words loses what does not go into a byte. -/
theorem toNat_bcnt_ofData (ds : List ModbusData) :
    (ofData ds).bcnt.toNat = ds.length * sizeofModbusData % 256 := by
  simp [ofData]

theorem bytes_length (ds : List ModbusData) :
    (ofData ds).bytes.length = 1 + (ofData ds).bcnt.toNat := by
  have hle : (ofData ds).bcnt.toNat ≤ (swapped (ofData ds).data).length := by
    rw [toNat_bcnt_ofData, swapped_length]
    exact Nat.mod_le _ _
  rw [bytes, List.length_cons, List.length_take, Nat.min_eq_left hle, Nat.add_comm]

theorem transports (T : MessageType WordsRet) (hT : T.transport_msg_to = transport_msg_to)
    (hlen : ds.length ≤ MAXLENPACKET / sizeofModbusData) :
    T.Transports ⟨addr, f.code, ofData ds, 0⟩ (ofData ds).bytes := by
  have hlen : ds.length ≤ 254 := hlen
  apply MessageType.Transports.of_put rfl (n := 1 + (ofData ds).bcnt.toNat + szCRC)
  · intro mm
    rw [hT]
    refine ⟨rfl, fun h => ?_⟩
    refine (Checked.safe_bind_ok rfl _).mpr ⟨(Checked.safe_require _ _).mpr ?_, h⟩
    simp only [szModbusHeader, szData, ofData, sizeofModbusData, szCRC]
    omega
  · rw [bytes_length]
  · have := (ofData ds).bcnt.toNat_lt
    rw [bytes_length]
    exact Nat.le_trans (Nat.add_le_add_left (Nat.le_of_lt this) 1) (by decide)

/-- Words are read again if the number of their bytes goes into a byte. -/
theorem roundTrips (hlen : ds.length ≤ MAXLENPACKET / sizeofModbusData) :
    (retType f).RoundTrips ⟨addr, f.code, ofData ds, 0⟩ ↔ ds.length ≤ 127 := by
  have hT : (retType f).Transports ⟨addr, f.code, ofData ds, 0⟩ (ofData ds).bytes :=
    transports (retType f) rfl hlen
  have hdlen : (ofData ds).bytes.length + szCRC = (retType f).szData (ofData ds) ↔
      ds.length ≤ 127 := by
    rw [bytes_length, toNat_bcnt_ofData]
    simp only [retType, szData, ofData, szCRC, sizeofModbusData]
    omega
  constructor
  · intro h
    obtain ⟨m, -, -, hsz⟩ := hT.of_roundTrips h
    exact hdlen.mp hsz
  · intro hle
    have hbcnt : (ofData ds).bcnt.toNat = ds.length * sizeofModbusData := by
      rw [toNat_bcnt_ofData]
      simp only [sizeofModbusData]
      omega
    have htake : (swapped ds).take (ofData ds).bcnt.toNat = swapped ds := by
      rw [hbcnt, ← swapped_length, List.take_length]
    apply hT.roundTrips
    · intro m hm
      have hbyte := hm.value_byte (k := 0) (Nat.succ_pos _)
      have hbytes := hm.value_bytes (k := 1) (n := (ofData ds).bcnt.toNat)
        (Nat.le_of_eq (bytes_length ds).symm)
      have hcrc := hm.value_crc
      rw [bytes_length, ← Nat.add_assoc] at hcrc
      rw [bytes, List.getD_cons_zero] at hbyte
      rw [bytes, List.drop_succ_cons, List.drop_zero, List.take_take, Nat.min_self] at hbytes
      change _ = Except.ok ((swapped ds).take _) at hbytes
      rw [htake] at hbytes
      have hmax : ¬MAXLENPACKET / sizeofModbusData <
          (ofData ds).bcnt.toNat / sizeofModbusData := by
        rw [hbcnt, Nat.mul_div_cancel _ (by decide)]
        exact Nat.not_lt_of_le hlen
      have hwords := unswapped_swapped ds []
      rw [List.append_nil] at hwords
      apply MessageType.decodes_of_value rfl
      simp only [init, assert, Checked.value_bind, Checked.value_require, Checked.value_pure,
        Except.bind, hbyte, if_neg hmax, hbytes, hcrc, hm.addr_eq, hm.func_eq]
      rw [hbcnt, Nat.mul_div_cancel _ (by decide), hwords]
      rfl
    · exact hdlen.mpr hle
    · exact fun m hm => ⟨_, hm.value_getCrcCounted (bytes_length ds),
        hm.value_calcCRCCounted (bytes_length ds)⟩

/-- Of the words that are added those that find no room are left out. -/
theorem foldl_addData {es : List ModbusData} (hes : es.length ≤ 254) (ds : List ModbusData) :
    ds.foldl addData (ofData es) = ofData ((es ++ ds).take 254) := by
  induction ds generalizing es with
  | nil => rw [List.append_nil, List.take_of_length_le hes, List.foldl_nil]
  | cons d ds ih =>
    rw [List.foldl_cons, addData]
    by_cases hfull : (ofData es).isFull
    · have hlen : 508 ≤ es.length * 2 := hfull
      have hlen : 254 ≤ es.length := by omega
      rw [if_pos hfull, ih hes, List.take_append_of_le_length hlen,
        List.take_append_of_le_length hlen]
    · have hlen : ¬508 ≤ es.length * 2 := hfull
      have hlen : (es ++ [d]).length ≤ 254 := by
        rw [List.length_append, List.length_singleton]
        omega
      rw [if_neg hfull]
      exact (ih hlen).trans (by rw [List.append_assoc]; rfl)

end WordsRet

namespace ForceCoilsMessage

/-- As many bytes as `bcnt` says, and not more than a message has room for. -/
structure Counted (w : WriteRequest ModbusByte) : Prop where
  count : w.bcnt.toNat = w.data.length
  fits : w.data.length ≤ MAXPDULEN

theorem counted_new (start : ModbusData) : Counted (new start) := ⟨rfl, Nat.zero_le _⟩

/-- One byte more keeps the count when there is room for it. -/
theorem counted_push {w : WriteRequest ModbusByte} (h : Counted w) (hfull : ¬isFull w)
    (d : ModbusByte) (quant : ModbusData) :
    Counted { w with data := w.data ++ [d], bcnt := w.bcnt + 1, quant := quant } := by
  have hroom : ¬253 ≤ w.bcnt.toNat := hfull
  have hcount := h.count
  have hbcnt : (w.bcnt + 1).toNat = w.bcnt.toNat + 1 := by
    rw [UInt8.toNat_add]
    exact Nat.mod_eq_of_lt (by change w.bcnt.toNat + 1 < 256; omega)
  constructor
  · rw [List.length_append, List.length_singleton, hbcnt, hcount]
  · rw [List.length_append, List.length_singleton]
    change w.data.length + 1 ≤ 253
    omega

theorem counted_addData {w : WriteRequest ModbusByte} (h : Counted w) (d : ModbusByte) :
    Counted (addData w d) := by
  unfold addData
  split_ifs with hfull
  · exact h
  · exact counted_push h hfull d _

theorem counted_modify {w : WriteRequest ModbusByte} (h : Counted w) (i : Nat)
    (g : ModbusByte → ModbusByte) (quant : ModbusData) :
    Counted { w with data := w.data.modify i g, quant := quant } := by
  constructor
  · rw [List.length_modify]
    exact h.count
  · rw [List.length_modify]
    exact h.fits

theorem counted_addBit {w : WriteRequest ModbusByte} (h : Counted w) (hfull : ¬isFull w)
    (state : Bool) : Counted (addBit w state) := by
  unfold addBit
  dsimp only
  split_ifs with hqnum
  · exact counted_modify (counted_push h hfull 0 w.quant) _ _ _
  · exact counted_modify h _ _ _

theorem counted_setBit {w : WriteRequest ModbusByte} (h : Counted w) (nbit : ModbusByte)
    (state : Bool) : Counted (setBit w nbit state) := by
  unfold setBit
  split_ifs with hquant
  · exact h
  · exact counted_modify h _ _ _

/-- Bits and bytes that were added are read again. -/
theorem roundTrips {addr : ModbusAddr} {w : WriteRequest ModbusByte} (h : Counted w) :
    ForceCoilsMessage.RoundTrips ⟨addr, fnForceMultipleCoils.code, w, 0⟩ := by
  have hcount := h.count
  have hfits : w.data.length ≤ 253 := h.fits
  have htake : w.data.take w.bcnt.toNat = w.data := by rw [hcount, List.take_length]
  have hT : ForceCoilsMessage.Transports ⟨addr, fnForceMultipleCoils.code, w, 0⟩
      (TwoWords.bytes w.start w.quant ++ w.bcnt :: w.data.take w.bcnt.toNat) := by
    apply MessageType.Transports.of_put rfl (n := 5 + w.bcnt.toNat + szCRC)
    · intro mm
      refine ⟨rfl, fun hput => ?_⟩
      refine (Checked.safe_bind_ok rfl _).mpr ⟨(Checked.safe_require _ _).mpr ?_, hput⟩
      simp only [szModbusHeader, szData, szCRC]
      omega
    · rw [htake, List.length_append, List.length_cons, hcount]
      change 5 + _ + 2 = 4 + (_ + 1) + 2
      omega
    · rw [htake, List.length_append, List.length_cons]
      change 4 + (_ + 1) ≤ 508
      omega
  rw [htake] at hT
  apply hT.roundTrips
  · intro m hm
    obtain ⟨rest, hcopy⟩ := hm.value_copy 0 512
    have hcrc := hm.value_crc
    rw [← hm.last] at hcrc
    rw [Nat.add_zero, List.append_assoc] at hcopy
    have hbody := TwoWords.ofObject_bytes addr fnForceMultipleCoils.code w.start w.quant
      (w.bcnt :: w.data ++ rest)
    have hdata : (w.data ++ rest).take w.bcnt.toNat = w.data := by
      rw [hcount, List.take_left]
    apply MessageType.decodes_of_value rfl
    simp only [init, assert, checkFormat, Checked.value_bind, Checked.value_require,
      Checked.value_pure, Except.bind, hcopy, hcrc, hm.addr_eq, hm.func_eq, decide_true, if_true]
    rw [show SWAPSHORT (wordOf _ 2) = w.start from congrArg TwoWords.start hbody,
      show SWAPSHORT (wordOf _ 4) = w.quant from congrArg TwoWords.count hbody]
    change Except.ok (Message.mk _ _ (WriteRequest.mk _ _ w.bcnt
      ((w.data ++ rest).take w.bcnt.toNat)) _) = _
    rw [hdata]
  · rw [List.length_append, List.length_cons]
    change 4 + (_ + 1) + 2 = 5 + w.bcnt.toNat + 2
    omega
  · exact fun m hm => ⟨_, hm.value_getCrcLast, hm.value_calcCRCLast⟩

end ForceCoilsMessage

namespace WriteOutputMessage

/-- As many words as `quant` says, in as many bytes as `bcnt` does. -/
structure Counted (w : WriteRequest ModbusData) : Prop where
  quant : w.quant.toNat = w.data.length
  bcnt : w.bcnt = UInt8.ofNat (w.quant.toNat * sizeofModbusData)
  fits : w.data.length ≤ MAXDATALEN

theorem counted_new (start : ModbusData) : Counted (new start) := ⟨rfl, rfl, Nat.zero_le _⟩

theorem counted_addData {w : WriteRequest ModbusData} (h : Counted w) (d : ModbusData) :
    Counted (addData w d) := by
  unfold addData
  split_ifs with hfull
  · exact h
  · have hroom : ¬125 ≤ w.quant.toNat := hfull
    have hquant := h.quant
    have hnext : (w.quant + 1).toNat = w.quant.toNat + 1 := by
      rw [UInt16.toNat_add]
      exact Nat.mod_eq_of_lt (by change w.quant.toNat + 1 < 65536; omega)
    constructor
    · rw [List.length_append, List.length_singleton, hnext, hquant]
    · rfl
    · rw [List.length_append, List.length_singleton]
      change w.data.length + 1 ≤ 125
      omega

theorem Counted.toNat_bcnt {w : WriteRequest ModbusData} (h : Counted w) :
    w.bcnt.toNat = w.data.length * 2 := by
  have hfits : w.data.length ≤ 125 := h.fits
  rw [h.bcnt, h.quant, UInt8.toNat_ofNat']
  change w.data.length * 2 % 256 = _
  omega

/-- Words that were added are read again. -/
theorem roundTrips {addr : ModbusAddr} {w : WriteRequest ModbusData} (h : Counted w) :
    WriteOutputMessage.RoundTrips ⟨addr, fnWriteOutputRegisters.code, w, 0⟩ := by
  have hbcnt := h.toNat_bcnt
  have hfits : w.data.length ≤ 125 := h.fits
  have htake : (swapped (w.data.take w.quant.toNat)).take w.bcnt.toNat = swapped w.data := by
    rw [h.quant, List.take_length, hbcnt]
    exact List.take_of_length_le (by rw [swapped_length]; rfl)
  have hlen : (TwoWords.bytes w.start w.quant ++ w.bcnt :: swapped w.data).length =
      5 + w.bcnt.toNat := by
    rw [List.length_append, List.length_cons, swapped_length, hbcnt]
    change 4 + (_ * 2 + 1) = _
    omega
  have hT : WriteOutputMessage.Transports ⟨addr, fnWriteOutputRegisters.code, w, 0⟩
      (TwoWords.bytes w.start w.quant ++ w.bcnt :: swapped w.data) := by
    apply MessageType.Transports.of_put rfl (n := 5 + w.bcnt.toNat + szCRC)
    · intro mm
      rw [← htake]
      have hput : MessageType.transport_msg_to Modbus.WriteOutputMessage
          ⟨addr, fnWriteOutputRegisters.code, w, 0⟩ mm = (do
            assertSize (szData w)
            mm.put addr fnWriteOutputRegisters.code (TwoWords.bytes w.start w.quant ++
              w.bcnt :: (swapped (w.data.take w.quant.toNat)).take w.bcnt.toNat)
              (5 + w.bcnt.toNat + szCRC)) := by
        rw [h.bcnt]
        rfl
      rw [hput]
      refine ⟨rfl, fun hput => ?_⟩
      refine (Checked.safe_bind_ok rfl _).mpr ⟨(Checked.safe_require _ _).mpr ?_, hput⟩
      simp only [szModbusHeader, szData, szCRC]
      omega
    · rw [hlen]
    · rw [hlen, hbcnt]
      change 5 + _ ≤ 508
      omega
  apply hT.roundTrips
  · intro m hm
    obtain ⟨rest, hcopy⟩ := hm.value_copy 0 507
    have hcrc := hm.value_crc
    rw [← hm.last] at hcrc
    rw [Nat.add_zero, List.append_assoc] at hcopy
    have hbody := TwoWords.ofObject_bytes addr fnWriteOutputRegisters.code w.start w.quant
      (w.bcnt :: swapped w.data ++ rest)
    have hbyte := hm.value_byte (k := 4) (by rw [hlen]; omega)
    have hword := (hm.value_word (k := 2) (by rw [hlen]; omega)).trans
      (congrArg _ (ofMemory_byteAt (SWAPSHORT w.quant)))
    have hformat : (checkFormat m).value = .ok true := by
      simp only [checkFormat, Checked.value_bind, Checked.value_pure, Except.bind, hbyte, hword,
        hm.func_eq, SWAPSHORT_SWAPSHORT, and_true]
      exact congrArg _ (decide_eq_true (hbcnt.trans (congrArg (· * 2) h.quant.symm)))
    have hwords : unswapped (swapped w.data ++ rest) (w.bcnt.toNat / sizeofModbusData) =
        w.data := by
      rw [hbcnt, show w.data.length * 2 / sizeofModbusData = w.data.length from
        Nat.mul_div_cancel _ (by decide), unswapped_swapped]
    apply MessageType.decodes_of_value rfl
    simp only [init, assert, Checked.value_bind, Checked.value_require, Checked.value_pure,
      Except.bind, hcopy, hcrc, hformat, hm.addr_eq, hm.func_eq, if_true]
    rw [show SWAPSHORT (wordOf _ 2) = w.start from congrArg TwoWords.start hbody,
      show SWAPSHORT (wordOf _ 4) = w.quant from congrArg TwoWords.count hbody]
    change Except.ok (Message.mk _ _ (WriteRequest.mk _ _ w.bcnt
      (unswapped (swapped w.data ++ rest) (w.bcnt.toNat / sizeofModbusData))) _) = _
    rw [hwords]
  · exact congrArg (· + szCRC) hlen
  · exact fun m hm => ⟨_, hm.value_getCrcLast, hm.value_calcCRCLast⟩

end WriteOutputMessage

namespace DiagnosticMessage

variable {addr : ModbusAddr} {sf : DiagnosticsSubFunction} {ds : List ModbusData}

theorem foldl_addData {d : Diagnostic} (h : d.data.length ≤ 124) (ds : List ModbusData) :
    ∃ data, ds.foldl addData d = ⟨d.subf, data⟩ ∧
      data.length = min 124 (d.data.length + ds.length) := by
  induction ds generalizing d with
  | nil => exact ⟨d.data, rfl, (Nat.min_eq_right h).symm⟩
  | cons x ds ih =>
    rw [List.foldl_cons, List.length_cons, addData]
    split_ifs with hfull
    · have hroom : 125 ≤ 1 + d.data.length := hfull
      obtain ⟨data, hdata, hlen⟩ := ih h
      refine ⟨data, hdata, ?_⟩
      omega
    · have hroom : ¬125 ≤ 1 + d.data.length := hfull
      have hlength : (d.data ++ [x]).length = d.data.length + 1 := by simp
      obtain ⟨data, hdata, hlen⟩ := ih (d := { d with data := d.data ++ [x] })
        (by rw [hlength]; omega)
      refine ⟨data, hdata, ?_⟩
      rw [hlen, hlength]
      omega

theorem bytes_length (sf : DiagnosticsSubFunction) (ds : List ModbusData) :
    (toMemory (SWAPSHORT sf.code) ++ swapped ds).length = 2 + ds.length * 2 := by
  rw [List.length_append, swapped_length]
  rfl

theorem transports (hlen : ds.length ≤ 124) :
    DiagnosticMessage.Transports ⟨addr, fnDiagnostics.code, ⟨sf.code, ds⟩, 0⟩
      (toMemory (SWAPSHORT sf.code) ++ swapped ds) := by
  apply MessageType.Transports.of_put rfl (n := 2 + ds.length * 2 + szCRC)
  · intro mm
    refine ⟨rfl, fun hput => ?_⟩
    refine (Checked.safe_bind_ok rfl _).mpr ⟨(Checked.safe_require _ _).mpr ?_, hput⟩
    simp only [szModbusHeader, szData, sizeofModbusData, szCRC]
    omega
  · rw [bytes_length]
  · rw [bytes_length]
    change _ ≤ 508
    omega

/-- The constructor takes one word of data, whatever was added. -/
theorem value_init {m : ModbusMessage}
    (h : m.Carries addr fnDiagnostics.code (toMemory (SWAPSHORT sf.code) ++ swapped ds)) :
    ∃ data crc, (init m).value = .ok ⟨addr, fnDiagnostics.code, ⟨sf.code, data⟩, crc⟩ ∧
      data.length = 1 ∧ ∀ d, ds = [d] → data = ds := by
  obtain ⟨rest, hframe⟩ := h.frame
  have hword : (m.word szModbusHeader).value = .ok (SWAPSHORT sf.code) := by
    change Except.ok (wordOf m.frame szModbusHeader) = _
    rw [hframe]
    exact congrArg _ (ofMemory_byteAt _)
  refine ⟨unswapped ((m.frame.drop 4).take 2) 1, wordOf m.frame 6, ?_, rfl, ?_⟩
  · simp only [init, assert, Checked.value_bind, Checked.value_require, Except.bind, hword,
      SWAPSHORT_SWAPSHORT, szRequestDiagnosticData_code, h.addr_eq, h.func_eq]
    rfl
  · rintro d rfl
    rw [hframe]
    exact congrArg (fun x => [x]) ((congrArg SWAPSHORT (ofMemory_byteAt _)).trans
      (SWAPSHORT_SWAPSHORT d))

/-- A diagnostic message is read again if it has one word of data. -/
theorem roundTrips (hlen : ds.length ≤ 124) :
    DiagnosticMessage.RoundTrips ⟨addr, fnDiagnostics.code, ⟨sf.code, ds⟩, 0⟩ ↔
      ds.length = 1 := by
  constructor
  · intro h
    obtain ⟨m, hm, ⟨init', v', hinit, hvalue, -, -, hbody⟩, -⟩ := (transports hlen).of_roundTrips h
    cases hinit
    obtain ⟨data, crc, hdecoded, hone, -⟩ := value_init hm
    cases hvalue.symm.trans hdecoded
    have hdata : data = ds := congrArg Diagnostic.data hbody
    rw [← hdata]
    exact hone
  · intro hone
    obtain ⟨d, hd⟩ := List.length_eq_one_iff.mp hone
    apply (transports hlen).roundTrips
    · intro m hm
      obtain ⟨data, crc, hdecoded, -, hsame⟩ := value_init hm
      rw [hsame d hd] at hdecoded
      exact MessageType.decodes_of_value rfl hdecoded
    · exact congrArg (· + szCRC) (bytes_length sf ds)
    · exact fun m hm => ⟨_, hm.value_getCrcLast, hm.value_calcCRCLast⟩

end DiagnosticMessage

namespace FileTransferRetMessage

variable {addr : ModbusAddr} {p : FilePart}

/-- The bytes of a part of a file. -/
def bytes (p : FilePart) : List ModbusByte :=
  UInt8.ofNat (szData p - szCRC - 1) ::
    (swapped [p.numfile, p.numpacks, p.packet] ++ UInt8.ofNat p.data.length :: p.data)

theorem bytes_length (p : FilePart) : (bytes p).length = 8 + p.data.length := by
  rw [bytes, List.length_cons, List.length_append, List.length_cons, swapped_length]
  change 6 + _ + 1 = _
  omega

theorem transports (hlen : p.data.length ≤ 255) :
    FileTransferRetMessage.Transports ⟨addr, fnFileTransfer.code, p, 0⟩ (bytes p) := by
  apply MessageType.Transports.of_put rfl (n := 8 + p.data.length + szCRC)
  · intro mm
    refine ⟨rfl, fun hput => ?_⟩
    refine (Checked.safe_bind_ok rfl _).mpr ⟨(Checked.safe_require _ _).mpr ?_, hput⟩
    simp only [szModbusHeader, szData, sizeofModbusData, szCRC]
    omega
  · rw [bytes_length]
  · rw [bytes_length]
    change _ ≤ 508
    omega

theorem value_init {m : ModbusMessage} (hlen : p.data.length ≤ 255)
    (h : m.Carries addr fnFileTransfer.code (bytes p)) :
    (init m).value = .ok ⟨addr, fnFileTransfer.code, p,
      checkCRC (addr :: fnFileTransfer.code :: bytes p)⟩ := by
  have hlength := bytes_length p
  have hdlen : (UInt8.ofNat p.data.length).toNat = p.data.length := by
    rw [UInt8.toNat_ofNat']
    omega
  have hbcnt := h.value_byte (k := 0) (by omega)
  have hnumfile := (h.value_word (k := 1) (by omega)).trans (congrArg _ (ofMemory_byteAt _))
  have hnumpacks := (h.value_word (k := 3) (by omega)).trans (congrArg _ (ofMemory_byteAt _))
  have hpacket := (h.value_word (k := 5) (by omega)).trans (congrArg _ (ofMemory_byteAt _))
  have hbyte := h.value_byte (k := 7) (by omega)
  have hdata := h.value_bytes (k := 8) (n := p.data.length) (by omega)
  have hcrc := h.value_crc
  change (m.byte 7).value = .ok (UInt8.ofNat p.data.length) at hbyte
  change _ = Except.ok (p.data.take p.data.length) at hdata
  rw [List.take_length] at hdata
  rw [hlength, ← Nat.add_assoc] at hcrc
  simp only [init, assert, Checked.value_bind, Checked.value_require, Checked.value_pure,
    Except.bind, hbcnt, hnumfile, hnumpacks, hpacket, hbyte, hdlen, hdata, hcrc, h.addr_eq,
    h.func_eq, SWAPSHORT_SWAPSHORT]

/-- A part of a file is read again. -/
theorem roundTrips (hlen : p.data.length ≤ 255) :
    FileTransferRetMessage.RoundTrips ⟨addr, fnFileTransfer.code, p, 0⟩ := by
  apply (transports hlen).roundTrips
  · exact fun m hm => MessageType.decodes_of_value rfl (value_init hlen hm)
  · exact congrArg (· + szCRC) (bytes_length p)
  · exact fun m hm => ⟨_, hm.value_getCrcLast, hm.value_calcCRCLast⟩

end FileTransferRetMessage

end Uniset.Modbus
