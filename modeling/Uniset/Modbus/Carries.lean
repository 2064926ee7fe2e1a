import Mathlib.Data.List.GetD
import Uniset.Modbus.ModbusTypes

/-! What is read from a message that carries a given body and the checksum of it. -/

namespace Uniset.Modbus

open Uniset.Lib

/-- The message is the bytes of `body` under its header, with the checksum behind them. -/
structure ModbusMessage.Carries (m : ModbusMessage) (addr : ModbusAddr) (func : ModbusByte)
    (body : List ModbusByte) : Prop where
  addr_eq : m.addr = addr
  func_eq : m.func = func
  data : ∃ rest, m.data = body ++ (toMemory (checkCRC (addr :: func :: body)) ++ rest)
  dlen : m.dlen = body.length + szCRC

variable {m : ModbusMessage} {addr : ModbusAddr} {func : ModbusByte} {body : List ModbusByte}

/-- A message that has been put into a buffer that is long enough carries its body. -/
theorem carries_put (mm : ModbusMessage) (addr : ModbusAddr) (func : ModbusByte)
    {body : List ModbusByte} {dlen : Nat} (hlen : dlen = body.length + szCRC) :
    ∃ m, (mm.put addr func body dlen).value = .ok m ∧ m.Carries addr func body :=
  ⟨_, rfl, rfl, rfl, ⟨_, List.append_assoc _ _ _⟩, hlen⟩

theorem safe_put {mm : ModbusMessage} {dlen : Nat} (hfits : body.length ≤ MAXLENPACKET) :
    (mm.put addr func body dlen).Safe := by
  unfold ModbusMessage.put
  rw [Checked.safe_bind]
  refine ⟨(Checked.safe_require _ _).mpr ?_, fun _ _ => rfl⟩
  exact Nat.add_le_add_right hfits _

/-- A word of the body is read as it was put there. -/
theorem getD_flatMap_swapped (ds : List ModbusData) (rest : List ModbusByte) (i : Nat)
    (hi : i < ds.length) : wordOf (swapped ds ++ rest) (2 * i) = SWAPSHORT (ds.getD i 0) := by
  induction ds generalizing i with
  | nil => cases hi
  | cons d ds ih =>
    cases i with
    | zero => exact ofMemory_byteAt _
    | succ i => exact ih i (Nat.lt_of_succ_lt_succ hi)

/-- Words that were swapped into memory are swapped back. -/
theorem unswapped_swapped (ds : List ModbusData) (rest : List ModbusByte) :
    unswapped (swapped ds ++ rest) ds.length = ds := by
  apply List.ext_getElem
  · simp [unswapped]
  · intro i h₁ h₂
    simp only [unswapped, List.getElem_map, List.getElem_range]
    rw [getD_flatMap_swapped ds rest i h₂, SWAPSHORT_SWAPSHORT, List.getD_eq_getElem _ _ h₂]

@[simp] theorem swapped_length (ds : List ModbusData) :
    (swapped ds).length = ds.length * sizeofModbusData := by
  induction ds with
  | nil => rfl
  | cons d ds ih =>
    simp only [swapped, List.flatMap_cons, List.length_append, toMemory_length,
      List.length_cons] at ih ⊢
    rw [ih, Nat.succ_mul, Nat.add_comm]
    rfl

theorem getD_add (bs : List ModbusByte) (i j : Nat) :
    bs.getD (i + j) 0 = (bs.drop i).getD j 0 := by
  rw [List.getD_eq_getElem?_getD, List.getD_eq_getElem?_getD, List.getElem?_drop]

namespace ModbusMessage.Carries

section Reading

variable (h : m.Carries addr func body)
include h

theorem frame : ∃ rest, m.frame =
    addr :: func :: (body ++ (toMemory (checkCRC (addr :: func :: body)) ++ rest)) := by
  obtain ⟨rest, hdata⟩ := h.data
  refine ⟨rest, ?_⟩
  unfold ModbusMessage.frame
  rw [h.addr_eq, h.func_eq, hdata]

theorem value_byte {k : Nat} (hk : k < body.length) :
    (m.byte k).value = .ok (body.getD k 0) := by
  obtain ⟨rest, hdata⟩ := h.data
  change Except.ok (m.data.getD k 0) = _
  rw [hdata, List.getD_append _ _ _ _ hk]

theorem value_word {k : Nat} (hk : k + 1 < body.length) :
    (m.word (szModbusHeader + k)).value = .ok (wordOf body k) := by
  obtain ⟨rest, hframe⟩ := h.frame
  change Except.ok (wordOf m.frame (szModbusHeader + k)) = _
  rw [hframe]
  unfold wordOf
  rw [Nat.add_comm szModbusHeader k]
  simp only [szModbusHeader, Nat.add_right_comm k 2 1, List.getD_cons_succ]
  rw [List.getD_append _ _ _ _ (Nat.lt_of_succ_lt hk), List.getD_append _ _ _ _ hk]

theorem value_bytes {k n : Nat} (hk : k + n ≤ body.length) :
    (m.bytes (szModbusHeader + k) n).value = .ok ((body.drop k).take n) := by
  obtain ⟨rest, hframe⟩ := h.frame
  change Except.ok ((m.frame.drop (szModbusHeader + k)).take n) = _
  rw [hframe, Nat.add_comm szModbusHeader k]
  simp only [szModbusHeader, List.drop_succ_cons]
  rw [List.drop_append_of_le_length (Nat.le_of_add_right_le hk),
    List.take_append_of_le_length (by rw [List.length_drop]; omega)]

/-- Behind the body is the checksum. -/
theorem value_crc : (m.word (szModbusHeader + body.length)).value =
    .ok (checkCRC (addr :: func :: body)) := by
  obtain ⟨rest, hframe⟩ := h.frame
  change Except.ok (wordOf m.frame (szModbusHeader + body.length)) = _
  rw [hframe]
  unfold wordOf
  rw [Nat.add_comm szModbusHeader]
  simp only [szModbusHeader, Nat.add_right_comm body.length 2 1, List.getD_cons_succ]
  rw [List.getD_append_right _ _ _ _ (Nat.le_refl _),
    List.getD_append_right _ _ _ _ (Nat.le_add_right _ 1), Nat.sub_self, Nat.add_sub_cancel_left]
  exact congrArg _ (ofMemory_byteAt _)

theorem value_pduCRC : (m.pduCRC (szModbusHeader + body.length)).value =
    .ok (checkCRC (addr :: func :: body)) := by
  obtain ⟨rest, hframe⟩ := h.frame
  change Except.ok (checkCRC ((m.frame.drop 0).take (szModbusHeader + body.length))) = _
  rw [hframe, Nat.add_comm szModbusHeader]
  simp only [szModbusHeader, List.drop_zero, List.take_succ_cons, List.take_left]

/-- A copy of the message up to `dlen` holds its body. -/
theorem value_copy (k size : Nat) : ∃ rest,
    (m.copy (szModbusHeader + m.dlen + k) size).value = .ok (addr :: func :: (body ++ rest)) := by
  obtain ⟨rest, hframe⟩ := h.frame
  refine ⟨(toMemory (checkCRC (addr :: func :: body)) ++ rest).take (szCRC + k), ?_⟩
  change Except.ok ((m.frame.drop 0).take (szModbusHeader + m.dlen + k)) = _
  rw [hframe, h.dlen, Nat.add_assoc, Nat.add_comm szModbusHeader, Nat.add_assoc body.length]
  simp only [szModbusHeader, List.drop_zero, List.take_succ_cons]
  rw [List.take_length_add_append]

/-- The last thing in the message is the checksum of what is before it. -/
theorem last : szModbusHeader + m.dlen - szCRC = szModbusHeader + body.length := by
  rw [h.dlen, ← Nat.add_assoc, Nat.add_sub_cancel]

end Reading

section Checksums

variable {f : SlaveFunctionCode} (h : m.Carries addr f.code body)
include h

theorem value_getCrcAt {i : Nat} (hi : i = body.length) :
    (getCrcAt f i m).value = .ok (checkCRC (addr :: f.code :: body)) := by
  rw [hi]
  exact h.value_crc

theorem value_calcCRCTo {i : Nat} (hi : i = body.length) :
    (calcCRCTo f i m).value = .ok (checkCRC (addr :: f.code :: body)) := by
  rw [hi]
  exact h.value_pduCRC

theorem value_getCrcLong (hlen : body.length = 4) :
    (getCrcLong f m).value = .ok (checkCRC (addr :: f.code :: body)) := by
  have hcrc := h.value_crc
  rw [hlen] at hcrc
  have hdlen : m.dlen = 6 := by rw [h.dlen, hlen]; rfl
  simp [getCrcLong, assert, hdlen, hcrc, Except.bind]

theorem value_calcCRCLong (hlen : body.length = 4) :
    (calcCRCLong f m).value = .ok (checkCRC (addr :: f.code :: body)) := by
  have hcrc := h.value_pduCRC
  rw [hlen] at hcrc
  have hdlen : m.dlen = 6 := by rw [h.dlen, hlen]; rfl
  simp [calcCRCLong, assert, hdlen, hcrc, Except.bind]

theorem value_getCrcLast :
    (getCrcLast f m).value = .ok (checkCRC (addr :: f.code :: body)) := by
  change (m.word (szModbusHeader + m.dlen - szCRC)).value = _
  rw [h.last]
  exact h.value_crc

theorem value_calcCRCLast :
    (calcCRCLast f m).value = .ok (checkCRC (addr :: f.code :: body)) := by
  change (m.pduCRC (szModbusHeader + m.dlen - szCRC)).value = _
  rw [h.last]
  exact h.value_pduCRC

theorem value_getCrcCounted (hlen : body.length = 1 + (body.getD 0 0).toNat) :
    (getCrcCounted f m).value = .ok (checkCRC (addr :: f.code :: body)) := by
  have hbyte := h.value_byte (k := 0) (by omega)
  have hcrc := h.value_crc
  rw [hlen, ← Nat.add_assoc] at hcrc
  simp only [getCrcCounted, assert, Checked.value_bind, Checked.value_require, hbyte,
    Except.bind, hcrc]

theorem value_calcCRCCounted (hlen : body.length = 1 + (body.getD 0 0).toNat) :
    (calcCRCCounted f m).value = .ok (checkCRC (addr :: f.code :: body)) := by
  have hbyte := h.value_byte (k := 0) (by omega)
  have hcrc := h.value_pduCRC
  rw [hlen, ← Nat.add_assoc] at hcrc
  simp only [calcCRCCounted, assert, Checked.value_bind, Checked.value_require, hbyte,
    Except.bind, hcrc]

end Checksums

end ModbusMessage.Carries

end Uniset.Modbus
