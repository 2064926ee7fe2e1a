import Uniset.Modbus.ReceptionLaws

/-! When a checksum is taken from a message, and a request or a reply made from it, without reading
what has not been received or writing beside the object. -/

namespace Uniset.Modbus

open Uniset.Lib SlaveFunctionCode

variable {m : ModbusMessage} {bs : List ModbusByte} {f : SlaveFunctionCode}

theorem safe_assert {p : Prop} [Decidable p] (hp : p) : (assert p).Safe :=
  (Checked.safe_require _ _).mpr hp

theorem safe_assert_bind {α : Type} {p : Prop} [Decidable p] (hp : p) (x : Codec α) :
    (assert p >>= fun _ => x).Safe ↔ x.Safe := by
  exact (Checked.safe_bind_ok rfl _).trans (and_iff_right (safe_assert hp))

section Checksums

variable (h : m.Holds bs) (hf : m.func = f.code)
include h hf

theorem safe_getCrcAt (i : Nat) : (getCrcAt f i m).Safe ↔ i + 2 ≤ bs.length := by
  refine (safe_assert_bind hf _).trans ((h.safe_word _).trans ?_)
  rw [Nat.add_comm]
  rfl

theorem safe_getCrcLast (hdlen : m.dlen ≤ bs.length) : (getCrcLast f m).Safe := by
  refine (safe_assert_bind hf _).mpr ((h.safe_word _).mpr ?_)
  exact Nat.le_trans (Nat.le_of_eq (Nat.add_sub_cancel_left _ _)) hdlen

/-- A message that is too short for a checksum is not read. -/
theorem safe_getCrcLong (hdlen : m.dlen ≤ bs.length) : (getCrcLong f m).Safe := by
  refine (safe_assert_bind hf _).mpr ?_
  split_ifs with hlong
  · rfl
  · exact (h.safe_word _).mpr (Nat.le_trans (Nat.le_of_not_lt hlong) hdlen)

theorem safe_getCrcCounted :
    (getCrcCounted f m).Safe ↔ 0 < bs.length ∧ 3 + (bs.getD 0 0).toNat ≤ bs.length := by
  refine (safe_assert_bind hf _).trans ?_
  rw [Checked.safe_bind, h.safe_byte]
  apply and_congr_right
  intro hlen
  rw [h.value_byte hlen]
  constructor
  · exact fun hword => (h.safe_word _).mp (hword _ rfl)
  · rintro hword n hn
    cases hn
    exact (h.safe_word _).mpr hword

end Checksums

theorem safe_decode {β : Type} {T : MessageType β} {init : ModbusMessage → Codec (Message β)}
    (hinit : T.init = some init) : (T.decode m).Safe ↔ (init m).Safe := by
  unfold MessageType.decode
  rw [hinit]
  refine (Checked.safe_bind _ _).trans (and_iff_left ?_)
  exact fun _ _ => rfl

/-- Every known function has one word. -/
theorem szRequestDiagnosticData_eq_some {sf : ModbusData} {n : Nat}
    (h : szRequestDiagnosticData sf = some n) : n = 1 := by
  unfold szRequestDiagnosticData at h
  split_ifs at h
  exact (Option.some.inj h).symm

section Inits

variable (h : m.Holds bs) (hf : m.func = f.code)
include h

/-- What only reads words that are there and then ends is safe. -/
theorem safe_word_bind {α : Type} {off : Nat} {x : ModbusData → Codec α} {p : Prop}
    (hx : ∀ w, (x w).Safe ↔ p) : (m.word off >>= x).Safe ↔ off ≤ bs.length ∧ p := by
  refine (Checked.safe_bind_ok rfl _).trans ?_
  rw [h.safe_word]
  exact and_congr_right fun _ => hx _

theorem safe_copy_bind {α : Type} {n size : Nat} {x : List ModbusByte → Codec α} {p : Prop}
    (hx : ∀ bs, (x bs).Safe ↔ p) :
    (m.copy n size >>= x).Safe ↔ (n ≤ size ∧ n ≤ szModbusHeader + bs.length) ∧ p := by
  refine (Checked.safe_bind_ok rfl _).trans ?_
  rw [h.safe_copy]
  exact and_congr_right fun _ => hx _

section Asserted

include hf

/-- A request of things needs its checksum. -/
theorem safe_initCounted (limit : Nat) : (TwoWords.initCounted f limit m).Safe ↔ 6 ≤ bs.length := by
  refine (safe_assert_bind hf _).trans ?_
  refine (safe_word_bind h fun _ => safe_word_bind h fun count =>
    safe_word_bind (p := True) h fun crc => ?_).trans ?_
  · split <;> exact iff_of_true rfl trivial
  · simp only [szModbusHeader, and_true]
    omega

/-- The copy of a message with its checksum counted twice is longer than the object. -/
theorem not_safe_initWithCRC (hdlen : m.dlen = bs.length) : ¬(TwoWords.initWithCRC f m).Safe := by
  refine fun hsafe => ?_
  have hcopy := ((safe_copy_bind (p := True) h fun _ => iff_of_true (Checked.safe_pure _) trivial).mp
    ((safe_assert_bind hf _).mp hsafe)).1
  simp only [hdlen, szModbusHeader, szCRC] at hcopy
  omega

theorem safe_initCopied (hdlen : m.dlen = bs.length) (hle : bs.length ≤ 6) :
    (TwoWords.initCopied f m).Safe ↔ 6 ≤ bs.length := by
  refine (safe_assert_bind hf _).trans ?_
  refine (safe_copy_bind h fun _ =>
    safe_word_bind (p := True) h fun _ => iff_of_true (Checked.safe_pure _) trivial).trans ?_
  simp only [hdlen, szModbusHeader, and_true]
  omega

end Asserted

theorem safe_initPlain (hdlen : m.dlen = bs.length) (hle : bs.length ≤ 6) :
    (TwoWords.initPlain m).Safe := by
  refine (safe_copy_bind (p := True) h fun _ => iff_of_true (Checked.safe_pure _) trivial).mpr ?_
  simp only [hdlen, szModbusHeader, and_true]
  omega

section Whole

variable (hdlen : m.dlen = bs.length)
include hdlen

/-- The checksum that is taken last is there. -/
theorem safe_last : (m.word (szModbusHeader + m.dlen - szCRC)).Safe := by
  rw [h.safe_word, hdlen]
  exact Nat.le_of_eq (Nat.add_sub_cancel_left _ _)

theorem safe_copy_whole {size : Nat} (hsize : szModbusHeader + bs.length ≤ size) :
    (m.copy (szModbusHeader + m.dlen) size).Safe := by
  rw [h.safe_copy, hdlen]
  exact ⟨hsize, Nat.le_refl _⟩

theorem safe_init_forceCoils (hf : m.func = fnForceMultipleCoils.code)
    (hsize : szModbusHeader + bs.length ≤ 512) : (ForceCoilsMessage.init m).Safe :=
  (safe_assert hf).bind fun _ => (safe_copy_whole h hdlen hsize).bind fun _ =>
    (Checked.safe_pure _).bind fun _ => (safe_last h hdlen).bind fun _ => Checked.safe_pure _

theorem safe_init_writeOutput (hf : m.func = fnWriteOutputRegisters.code) (hlen : 5 ≤ bs.length)
    (hsize : szModbusHeader + bs.length ≤ 507) : (WriteOutputMessage.init m).Safe := by
  have hcheck : (WriteOutputMessage.checkFormat m).Safe :=
    ((h.safe_byte 4).mpr hlen).bind fun _ =>
      ((h.safe_word _).mpr (Nat.le_trans (by decide) hlen)).bind fun _ => Checked.safe_pure _
  exact (safe_assert hf).bind fun _ => (safe_copy_whole h hdlen hsize).bind fun _ =>
    hcheck.bind fun _ => (safe_last h hdlen).bind fun _ => Checked.safe_pure _

theorem safe_init_mei (hf : m.func = fnMEI.code) (hsize : szModbusHeader + bs.length ≤ 7) :
    (MEIMessageRDI.init m).Safe :=
  (safe_assert hf).bind fun _ => (safe_copy_whole h hdlen hsize).bind fun _ =>
    (safe_last h hdlen).bind fun _ => Checked.safe_pure _

theorem safe_init_fileTransfer (hf : m.func = fnFileTransfer.code)
    (hsize : szModbusHeader + bs.length ≤ 8) : (FileTransferMessage.init m).Safe :=
  (safe_assert hf).bind fun _ => (safe_copy_whole h hdlen hsize).bind fun _ =>
    (safe_last h hdlen).bind fun _ => Checked.safe_pure _

theorem safe_init_remoteService (hf : m.func = fnRemoteService.code)
    (hsize : szModbusHeader + bs.length ≤ 512) : (RemoteServiceMessage.init m).Safe :=
  (safe_assert hf).bind fun _ => (safe_copy_whole h hdlen hsize).bind fun _ =>
    (safe_last h hdlen).bind fun _ => Checked.safe_pure _

end Whole

/-- A message of a known diagnostic function needs its data and its checksum. -/
theorem safe_init_diagnostic (hf : m.func = fnDiagnostics.code) (hlen : 2 ≤ bs.length) :
    (DiagnosticMessage.init m).Safe ↔
      ((szRequestDiagnosticData (SWAPSHORT (wordOf bs 0))).isSome → 6 ≤ bs.length) := by
  have hword := h.value_word hlen
  rw [Nat.add_zero] at hword
  refine (safe_assert_bind hf _).trans ?_
  rw [Checked.safe_bind_ok hword, h.safe_word]
  refine (and_iff_right hlen).trans ?_
  cases hn : szRequestDiagnosticData (SWAPSHORT (wordOf bs 0)) with
  | none => exact iff_of_true rfl Bool.noConfusion
  | some n =>
    cases szRequestDiagnosticData_eq_some hn
    refine (Checked.safe_bind_ok rfl _).trans ?_
    rw [h.safe_bytes]
    refine (and_congr_right fun _ => safe_word_bind (p := True) h fun _ =>
      iff_of_true (Checked.safe_pure _) trivial).trans ?_
    simp only [szModbusHeader, sizeofModbusData, and_true, Option.isSome_some, forall_const]
    omega

section Counted

variable (hlen : bs.length = 1 + (bs.getD 0 0).toNat + szCRC)
include hlen

theorem safe_counted_data : (m.bytes (szModbusHeader + 1) (bs.getD 0 0).toNat).Safe ∧
    (m.word (szModbusHeader + 1 + (bs.getD 0 0).toNat)).Safe := by
  rw [h.safe_bytes, h.safe_word, hlen]
  simp only [szModbusHeader, szCRC]
  omega

include hf

/-- As many bytes as the count says are there, and the checksum. -/
theorem safe_init_bits : (BitsBuffer.init f m).Safe := by
  have hpos : 0 < bs.length := by omega
  obtain ⟨hbytes, hword⟩ := safe_counted_data h hlen
  refine (safe_assert_bind hf _).mpr ?_
  refine (Checked.safe_bind_ok (h.value_byte hpos) _).mpr ⟨(h.safe_byte 0).mpr hpos, ?_⟩
  split
  · rfl
  · exact hbytes.bind fun _ => hword.bind fun _ => Checked.safe_pure _

theorem safe_init_words : (WordsRet.init f m).Safe := by
  have hpos : 0 < bs.length := by omega
  obtain ⟨hbytes, hword⟩ := safe_counted_data h hlen
  refine (safe_assert_bind hf _).mpr ?_
  refine (Checked.safe_bind_ok (h.value_byte hpos) _).mpr ⟨(h.safe_byte 0).mpr hpos, ?_⟩
  split
  · rfl
  · exact hbytes.bind fun _ => hword.bind fun _ => Checked.safe_pure _

end Counted

/-- A part of a file needs its checksum behind as many bytes as its own count says. -/
theorem safe_init_filePart (hf : m.func = fnFileTransfer.code) (hlen : 8 ≤ bs.length) :
    (FileTransferRetMessage.init m).Safe ↔ 10 + (bs.getD 7 0).toNat ≤ bs.length := by
  refine (safe_assert_bind hf _).trans ?_
  refine (Checked.safe_bind_ok rfl _).trans
    ((and_iff_right ((h.safe_byte 0).mpr (by omega))).trans ?_)
  refine (safe_word_bind h fun _ => safe_word_bind h fun _ =>
    safe_word_bind (p := 10 + (bs.getD 7 0).toNat ≤ bs.length) h fun _ => ?_).trans ?_
  · refine (Checked.safe_bind_ok (h.value_byte hlen) _).trans
      ((and_iff_right ((h.safe_byte 7).mpr hlen)).trans ?_)
    refine (Checked.safe_bind_ok rfl _).trans ?_
    rw [h.safe_bytes]
    refine (and_congr_right fun _ => safe_word_bind (p := True) h fun _ =>
      iff_of_true (Checked.safe_pure _) trivial).trans ?_
    simp only [szModbusHeader, and_true]
    omega
  · simp only [szModbusHeader]
    omega

end Inits

end Uniset.Modbus
