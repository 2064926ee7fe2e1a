import Uniset.Modbus.Carries

/-! Which messages are the same after they have been put into a message and read from it. -/

namespace Uniset.Modbus

open Uniset.Lib SlaveFunctionCode

variable {β : Type}

/-- The same but for the checksum, which only a message that was received has. -/
def Message.Same (v v' : Message β) : Prop := v.addr = v'.addr ∧ v.func = v'.func ∧ v.body = v'.body

namespace MessageType

variable (T : MessageType β) (v : Message β)

/-- The constructor of the type makes the message of it again. -/
def Decodes (m : ModbusMessage) : Prop :=
  ∃ init v', T.init = some init ∧ (init m).value = .ok v' ∧ v'.Same v

/-- Put into any buffer the message stays inside of it, has the length of its type and the
checksum that is calculated from it, and is read from it as it was. -/
def RoundTrips : Prop :=
  ∀ mm, ∃ m, (T.transport_msg_to v mm).value = .ok m ∧ (T.transport_msg_to v mm).Safe ∧
    T.Decodes v m ∧ m.dlen = T.szData v.body ∧
    ∃ crc, (T.getCrc m).value = .ok crc ∧ (T.calcCRC m).value = .ok crc

/-- The message is put into a buffer as the bytes of `body`. -/
def Transports (body : List ModbusByte) : Prop :=
  ∀ mm, ∃ m, (T.transport_msg_to v mm).value = .ok m ∧ (T.transport_msg_to v mm).Safe ∧
    m.Carries v.addr v.func body

variable {T v} {body : List ModbusByte}

theorem Transports.roundTrips (hT : T.Transports v body)
    (hdecodes : ∀ m, m.Carries v.addr v.func body → T.Decodes v m)
    (hlen : body.length + szCRC = T.szData v.body)
    (hcrc : ∀ m, m.Carries v.addr v.func body → ∃ crc,
      (T.getCrc m).value = .ok crc ∧ (T.calcCRC m).value = .ok crc) : T.RoundTrips v := by
  intro mm
  obtain ⟨m, hvalue, hsafe, hm⟩ := hT mm
  exact ⟨m, hvalue, hsafe, hdecodes m hm, hm.dlen.trans hlen, hcrc m hm⟩

/-- What a round trip says of a message that carries the body. -/
theorem Transports.of_roundTrips (hT : T.Transports v body) (h : T.RoundTrips v) :
    ∃ m, m.Carries v.addr v.func body ∧ T.Decodes v m ∧ body.length + szCRC = T.szData v.body := by
  obtain ⟨m, hvalue, -, hm⟩ := hT .new
  obtain ⟨m', hvalue', -, hdecodes, hlen, -⟩ := h .new
  cases hvalue.symm.trans hvalue'
  exact ⟨m, hm, hdecodes, hm.dlen.symm.trans hlen⟩

theorem Transports.of_put {func : ModbusByte} (hfunc : func = v.func) {n : Nat}
    (hput : ∀ mm, (T.transport_msg_to v mm).value = (mm.put v.addr func body n).value ∧
      ((mm.put v.addr func body n).Safe → (T.transport_msg_to v mm).Safe))
    (hlen : n = body.length + szCRC) (hfits : body.length ≤ MAXLENPACKET) :
    T.Transports v body := by
  cases hfunc
  intro mm
  obtain ⟨m, hvalue, hm⟩ := carries_put mm v.addr v.func hlen
  exact ⟨m, (hput mm).1.trans hvalue, (hput mm).2 (safe_put hfits), hm⟩

theorem decodes_of_value {init : ModbusMessage → Codec (Message β)} {m : ModbusMessage}
    {crc : ModbusCRC} (hinit : T.init = some init)
    (hvalue : (init m).value = .ok ⟨v.addr, v.func, v.body, crc⟩) : T.Decodes v m :=
  ⟨init, _, hinit, hvalue, rfl, rfl, rfl⟩

theorem decodes_of_none (hinit : T.init = none) (m : ModbusMessage) : ¬T.Decodes v m := by
  rintro ⟨init, v', hsome, -⟩
  cases hinit.symm.trans hsome

/-- A type without a constructor from a message has no round trip. -/
theorem not_roundTrips_of_none (hinit : T.init = none) : ¬T.RoundTrips v := by
  intro h
  obtain ⟨m, -, -, hdecodes, -⟩ := h .new
  exact decodes_of_none hinit m hdecodes

end MessageType

/-! The messages of two words. -/

namespace TwoWords

/-- The bytes of the two words. -/
def bytes (start count : ModbusData) : List ModbusByte :=
  toMemory (SWAPSHORT start) ++ toMemory (SWAPSHORT count)

theorem ofObject_bytes (addr func : ModbusByte) (start count : ModbusData)
    (rest : List ModbusByte) :
    ofObject (addr :: func :: (bytes start count ++ rest)) = ⟨start, count⟩ := by
  have hstart : SWAPSHORT (wordOf (addr :: func :: (bytes start count ++ rest)) 2) = start :=
    (congrArg _ (ofMemory_byteAt _)).trans (SWAPSHORT_SWAPSHORT _)
  have hcount : SWAPSHORT (wordOf (addr :: func :: (bytes start count ++ rest)) 4) = count :=
    (congrArg _ (ofMemory_byteAt _)).trans (SWAPSHORT_SWAPSHORT _)
  unfold ofObject
  rw [hstart, hcount]

theorem wordOf_bytes_start (start count : ModbusData) :
    wordOf (bytes start count) 0 = SWAPSHORT start := ofMemory_byteAt _

theorem wordOf_bytes_count (start count : ModbusData) :
    wordOf (bytes start count) 2 = SWAPSHORT count := ofMemory_byteAt _

variable {T : MessageType TwoWords} {f : SlaveFunctionCode} {addr : ModbusAddr}
  {start count : ModbusData} {m : ModbusMessage}

theorem transports_bytes {c : ModbusData}
    (hput : ∀ mm, T.transport_msg_to ⟨addr, f.code, ⟨start, c⟩, 0⟩ mm =
      make_to f addr start count mm) :
    T.Transports ⟨addr, f.code, ⟨start, c⟩, 0⟩ (bytes start count) :=
  .of_put rfl (fun mm => by rw [hput mm]; exact ⟨rfl, id⟩) rfl
    (Nat.le_of_ble_eq_true rfl)

theorem value_initCounted (h : m.Carries addr f.code (bytes start count)) (limit : Nat) :
    (initCounted f limit m).value =
      if limit < count.toNat then .error erPacketTooLong
      else .ok ⟨addr, f.code, ⟨start, count⟩, checkCRC (addr :: f.code :: bytes start count)⟩ := by
  have hstart := h.value_word (k := 0) (by decide : 1 < 4)
  have hcount := h.value_word (k := 2) (by decide : 3 < 4)
  have hcrc := h.value_crc
  rw [wordOf_bytes_start, Nat.add_zero] at hstart
  rw [wordOf_bytes_count] at hcount
  change (m.word (szModbusHeader + 4)).value = _ at hcrc
  simp [initCounted, assert, hstart, hcount, hcrc, Except.bind, h.addr_eq, h.func_eq]

theorem decodes_initWithCRC (hT : T.init = some (initWithCRC f))
    (h : m.Carries addr f.code (bytes start count)) :
    T.Decodes ⟨addr, f.code, ⟨start, count⟩, 0⟩ m := by
  obtain ⟨rest, hcopy⟩ := h.value_copy szCRC 8
  apply MessageType.decodes_of_value hT
  simp only [initWithCRC, assert, Checked.value_bind, Checked.value_require, Checked.value_pure,
    Except.bind, hcopy, h.addr_eq, h.func_eq, ofObject_bytes]
  rfl

theorem decodes_initCopied (hT : T.init = some (initCopied f))
    (h : m.Carries addr f.code (bytes start count)) :
    T.Decodes ⟨addr, f.code, ⟨start, count⟩, 0⟩ m := by
  obtain ⟨rest, hcopy⟩ := h.value_copy 0 8
  have hcrc := h.value_crc
  change (m.word (szModbusHeader + 4)).value = _ at hcrc
  rw [Nat.add_zero] at hcopy
  apply MessageType.decodes_of_value hT
  simp only [initCopied, assert, Checked.value_bind, Checked.value_require, Checked.value_pure,
    Except.bind, hcopy, hcrc, h.addr_eq, h.func_eq, ofObject_bytes]
  rfl

theorem decodes_initPlain (hT : T.init = some initPlain)
    (h : m.Carries addr f.code (bytes start count)) :
    T.Decodes ⟨addr, f.code, ⟨start, count⟩, 0⟩ m := by
  obtain ⟨rest, hcopy⟩ := h.value_copy 0 8
  rw [Nat.add_zero] at hcopy
  apply MessageType.decodes_of_value hT
  simp only [initPlain, Checked.value_bind, Checked.value_pure, Except.bind, hcopy, h.addr_eq,
    h.func_eq, ofObject_bytes]
  rfl

/-- A request of `count` things is read again if these are not more than the limit. -/
theorem roundTrips_request {limit : Nat} :
    (requestType f limit).RoundTrips ⟨addr, f.code, ⟨start, count⟩, 0⟩ ↔ count.toNat ≤ limit := by
  have hT : (requestType f limit).Transports ⟨addr, f.code, ⟨start, count⟩, 0⟩
      (bytes start count) := transports_bytes fun _ => rfl
  constructor
  · intro h
    obtain ⟨m, hm, ⟨init, v', hinit, hvalue, -⟩, -⟩ := hT.of_roundTrips h
    cases hinit
    rw [value_initCounted hm] at hvalue
    by_contra hlimit
    rw [if_pos (Nat.lt_of_not_le hlimit)] at hvalue
    cases hvalue
  · intro hlimit
    apply hT.roundTrips
    · intro m hm
      apply MessageType.decodes_of_value rfl
      rw [value_initCounted hm, if_neg (Nat.not_lt_of_le hlimit)]
    · rfl
    · exact fun m hm => ⟨_, hm.value_getCrcLong rfl, hm.value_calcCRCLong rfl⟩

theorem roundTrips_forceCoilsRet :
    ForceCoilsRetMessage.RoundTrips ⟨addr, fnForceMultipleCoils.code, ⟨start, count⟩, 0⟩ := by
  apply (transports_bytes fun _ => rfl).roundTrips
  · exact fun m hm => decodes_initCopied rfl hm
  · rfl
  · exact fun m hm => ⟨_, hm.value_getCrcAt rfl, hm.value_calcCRCLast⟩

theorem roundTrips_writeOutputRet :
    WriteOutputRetMessage.RoundTrips ⟨addr, fnWriteOutputRegisters.code, ⟨start, count⟩, 0⟩ := by
  apply (transports_bytes fun _ => rfl).roundTrips
  · exact fun m hm => decodes_initCopied rfl hm
  · rfl
  · exact fun m hm => ⟨_, hm.value_getCrcAt rfl, hm.value_calcCRCLast⟩

/-- A command is put into the message as the value it was made of. -/
theorem transports_cmd {T : MessageType TwoWords} {cmd : Bool}
    (hT : T.transport_msg_to = ForceSingleCoil.transport_msg_to) :
    T.Transports ⟨addr, fnForceSingleCoil.code, ⟨start, ForceSingleCoil.data cmd⟩, 0⟩
      (bytes start (ForceSingleCoil.data cmd)) := by
  apply transports_bytes
  intro mm
  rw [hT]
  unfold ForceSingleCoil.transport_msg_to
  rw [ForceSingleCoil.cmd_data]

theorem roundTrips_forceSingleCoil {cmd : Bool} :
    ForceSingleCoilMessage.RoundTrips
      ⟨addr, fnForceSingleCoil.code, ⟨start, ForceSingleCoil.data cmd⟩, 0⟩ := by
  apply (transports_cmd rfl).roundTrips
  · exact fun m hm => decodes_initWithCRC rfl hm
  · rfl
  · exact fun m hm => ⟨_, hm.value_getCrcAt rfl, hm.value_calcCRCTo rfl⟩

theorem roundTrips_forceSingleCoilRet {cmd : Bool} :
    ForceSingleCoilRetMessage.RoundTrips
      ⟨addr, fnForceSingleCoil.code, ⟨start, ForceSingleCoil.data cmd⟩, 0⟩ := by
  apply (transports_cmd rfl).roundTrips
  · exact fun m hm => decodes_initPlain rfl hm
  · rfl
  · exact fun m hm => ⟨_, hm.value_getCrcLast, hm.value_calcCRCLast⟩

theorem roundTrips_writeSingleOutput :
    WriteSingleOutputMessage.RoundTrips
      ⟨addr, fnWriteOutputSingleRegister.code, ⟨start, count⟩, 0⟩ := by
  apply (transports_bytes fun _ => rfl).roundTrips
  · exact fun m hm => decodes_initWithCRC rfl hm
  · rfl
  · exact fun m hm => ⟨_, hm.value_getCrcAt rfl, hm.value_calcCRCTo rfl⟩

theorem roundTrips_writeSingleOutputRet :
    WriteSingleOutputRetMessage.RoundTrips
      ⟨addr, fnWriteOutputSingleRegister.code, ⟨start, count⟩, 0⟩ := by
  apply (transports_bytes fun _ => rfl).roundTrips
  · exact fun m hm => decodes_initPlain rfl hm
  · rfl
  · exact fun m hm => ⟨_, hm.value_getCrcAt rfl, hm.value_calcCRCTo rfl⟩

/-- Of the numbers of a file and a packet the low bytes are put into the message. -/
theorem transports_fileTransfer :
    FileTransferMessage.Transports ⟨addr, fnFileTransfer.code, ⟨start, count⟩, 0⟩
      (bytes start.toUInt8.toUInt16 count.toUInt8.toUInt16) :=
  .of_put rfl (fun _ => ⟨rfl, id⟩) rfl (Nat.le_of_ble_eq_true rfl)

theorem value_fileTransferInit (h : m.Carries addr fnFileTransfer.code (bytes start count)) :
    (FileTransferMessage.init m).value = .ok ⟨addr, fnFileTransfer.code, ⟨start, count⟩,
      checkCRC (addr :: fnFileTransfer.code :: bytes start count)⟩ := by
  obtain ⟨rest, hcopy⟩ := h.value_copy 0 8
  rw [Nat.add_zero] at hcopy
  have hcrc := h.value_crc
  rw [← h.last] at hcrc
  simp only [FileTransferMessage.init, assert, Checked.value_bind, Checked.value_require,
    Checked.value_pure, Except.bind, hcopy, hcrc, h.addr_eq, h.func_eq, ofObject_bytes]

theorem toUInt8_toUInt16 {x : UInt16} : x.toUInt8.toUInt16 = x ↔ x.toNat < 256 := by
  rw [← UInt16.toNat_inj]
  simp only [UInt8.toNat_toUInt16, UInt16.toNat_toUInt8]
  omega

/-- The numbers of a file and of a packet are read again if each is less than 256. -/
theorem roundTrips_fileTransfer :
    FileTransferMessage.RoundTrips ⟨addr, fnFileTransfer.code, ⟨start, count⟩, 0⟩ ↔
      start.toNat < 256 ∧ count.toNat < 256 := by
  rw [← toUInt8_toUInt16, ← toUInt8_toUInt16]
  constructor
  · intro h
    obtain ⟨m, hm, ⟨init, v', hinit, hvalue, -, -, hbody⟩, -⟩ :=
      transports_fileTransfer.of_roundTrips h
    cases hinit
    rw [value_fileTransferInit hm] at hvalue
    cases hvalue
    exact ⟨congrArg TwoWords.start hbody, congrArg TwoWords.count hbody⟩
  · rintro ⟨hstart, hcount⟩
    apply transports_fileTransfer.roundTrips
    · intro m hm
      apply MessageType.decodes_of_value rfl
      rw [value_fileTransferInit hm]
      simp only [hstart, hcount]
      rfl
    · rfl
    · exact fun m hm => ⟨_, hm.value_getCrcAt rfl, hm.value_calcCRCTo rfl⟩

end TwoWords

end Uniset.Modbus
