import Uniset.Modbus.ModbusMessage

/-! The types of requests and replies: how each is put into a message, read from it and where it
has its checksum.  What many types do alike is one definition with the function, the places and
the bounds of the type as parameters. -/

namespace Uniset.Modbus

open Uniset.Lib SlaveFunctionCode

/-- A message of one of the types. -/
structure Message (β : Type) where
  addr : ModbusAddr
  func : ModbusByte
  body : β
  crc : ModbusCRC
  deriving DecidableEq

/-- The functions of a type that is put into messages; `init` is its constructor from a message,
if it has one. -/
structure MessageType (β : Type) where
  transport_msg_to : Message β → ModbusMessage → Codec ModbusMessage
  init : Option (ModbusMessage → Codec (Message β))
  szData : β → Nat
  getCrc : ModbusMessage → Codec ModbusCRC
  calcCRC : ModbusMessage → Codec ModbusCRC

/-- `assert` on the size of a message, made before it is put into the buffer. -/
def assertSize (szData : Nat) : Codec Unit := assert (szModbusHeader + szData ≤ 526)

/-- The word at place `off` of a copied object. -/
def wordOf (bs : List ModbusByte) (off : Nat) : ModbusData :=
  ofMemory (bs.getD off 0) (bs.getD (off + 1) 0)

/-- `memcpy` of `n` bytes of the frame over an object of `size` bytes. -/
def ModbusMessage.copy (m : ModbusMessage) (n size : Nat) : Codec (List ModbusByte) := do
  write n size
  m.bytes 0 n

section Checksums

variable (f : SlaveFunctionCode) (i : Nat) (m : ModbusMessage)

/-- The checksum is at `data[i]`. -/
def getCrcAt : Codec ModbusCRC := do
  assert (m.func = f.code)
  m.word (szModbusHeader + i)

def calcCRCTo : Codec ModbusCRC := do
  assert (m.func = f.code)
  m.pduCRC (szModbusHeader + i)

/-- As `getCrcAt 4`, but a message that is too short has the checksum 0. -/
def getCrcLong : Codec ModbusCRC := do
  assert (m.func = f.code)
  if m.dlen < 6 then return 0 else m.word (szModbusHeader + 4)

def calcCRCLong : Codec ModbusCRC := do
  assert (m.func = f.code)
  if m.dlen < 6 then return 0 else m.pduCRC (szModbusHeader + 4)

/-- The checksum is the last thing in the message; `m.dlen` can be less than its size. -/
def getCrcLast : Codec ModbusCRC := do
  assert (m.func = f.code)
  m.word (szModbusHeader + m.dlen - szCRC)

def calcCRCLast : Codec ModbusCRC := do
  assert (m.func = f.code)
  m.pduCRC (szModbusHeader + m.dlen - szCRC)

/-- The checksum stands after as many bytes as `data[0]` says. -/
def getCrcCounted : Codec ModbusCRC := do
  assert (m.func = f.code)
  let bcnt ← m.byte 0
  m.word (szModbusHeader + 1 + bcnt.toNat)

def calcCRCCounted : Codec ModbusCRC := do
  assert (m.func = f.code)
  let bcnt ← m.byte 0
  m.pduCRC (szModbusHeader + 1 + bcnt.toNat)

end Checksums

/-- The body of a message of two words.  In the messages that write, the second is `quant` or
`data`; in `FileTransferMessage` they are `numfile` and `numpacket`, in `JournalCommandMessage`
`cmd` and `num`. -/
structure TwoWords where
  start : ModbusData
  count : ModbusData
  deriving DecidableEq

namespace TwoWords

def make_to (f : SlaveFunctionCode) (addr : ModbusAddr) (start count : ModbusData)
    (mm : ModbusMessage) : Codec ModbusMessage :=
  mm.put addr f.code (toMemory (SWAPSHORT start) ++ toMemory (SWAPSHORT count)) 6

def transport_msg_to (f : SlaveFunctionCode) (v : Message TwoWords) :
    ModbusMessage → Codec ModbusMessage :=
  make_to f v.addr v.body.start v.body.count

/-- The words of a copied object, turned around. -/
def ofObject (bs : List ModbusByte) : TwoWords :=
  ⟨SWAPSHORT (wordOf bs 2), SWAPSHORT (wordOf bs 4)⟩

/-- The request of `count` things from `start` on, of at most `limit` of them. -/
def initCounted (f : SlaveFunctionCode) (limit : Nat) (m : ModbusMessage) :
    Codec (Message TwoWords) := do
  assert (m.func = f.code)
  let start ← m.word szModbusHeader
  let count ← m.word (szModbusHeader + 2)
  let crc ← m.word (szModbusHeader + 4)
  if limit < (SWAPSHORT count).toNat then .throw erPacketTooLong
  else return ⟨m.addr, m.func, ⟨SWAPSHORT start, SWAPSHORT count⟩, crc⟩

/-- `memcpy` of the whole message "with the checksum", which `dlen` has counted already. -/
def initWithCRC (f : SlaveFunctionCode) (m : ModbusMessage) : Codec (Message TwoWords) := do
  assert (m.func = f.code)
  let bs ← m.copy (szModbusHeader + m.dlen + szCRC) 8
  return ⟨m.addr, m.func, ofObject bs, wordOf bs 6⟩

def initCopied (f : SlaveFunctionCode) (m : ModbusMessage) : Codec (Message TwoWords) := do
  assert (m.func = f.code)
  let bs ← m.copy (szModbusHeader + m.dlen) 8
  let crc ← m.word (szModbusHeader + 4)
  return ⟨m.addr, m.func, ofObject bs, crc⟩

def initPlain (m : ModbusMessage) : Codec (Message TwoWords) := do
  let bs ← m.copy (szModbusHeader + m.dlen) 8
  return ⟨m.addr, m.func, ofObject bs, wordOf bs 6⟩

/-- The type of a request of `count` things. -/
def requestType (f : SlaveFunctionCode) (limit : Nat) : MessageType TwoWords where
  transport_msg_to := transport_msg_to f
  init := some (initCounted f limit)
  szData _ := 6
  getCrc := getCrcLong f
  calcCRC := calcCRCLong f

end TwoWords

def ReadCoilMessage : MessageType TwoWords :=
  TwoWords.requestType fnReadCoilStatus (MAXPDULEN * BitsPerByte)

def ReadInputStatusMessage : MessageType TwoWords :=
  TwoWords.requestType fnReadInputStatus (MAXPDULEN * BitsPerByte)

def ReadOutputMessage : MessageType TwoWords :=
  TwoWords.requestType fnReadOutputRegisters MAXDATALEN

def ReadInputMessage : MessageType TwoWords :=
  TwoWords.requestType fnReadInputRegisters MAXDATALEN

def ForceCoilsRetMessage : MessageType TwoWords where
  transport_msg_to := TwoWords.transport_msg_to fnForceMultipleCoils
  init := some (TwoWords.initCopied fnForceMultipleCoils)
  szData _ := 6
  getCrc := getCrcAt fnForceMultipleCoils 4
  calcCRC := calcCRCLast fnForceMultipleCoils

def WriteOutputRetMessage : MessageType TwoWords where
  transport_msg_to := TwoWords.transport_msg_to fnWriteOutputRegisters
  init := some (TwoWords.initCopied fnWriteOutputRegisters)
  szData _ := 6
  getCrc := getCrcAt fnWriteOutputRegisters 4
  calcCRC := calcCRCLast fnWriteOutputRegisters

namespace ForceSingleCoil

/-- The value of the command. -/
def data (cmd : Bool) : ModbusData := if cmd then 0xFF00 else 0x0000

def cmd (data : ModbusData) : Bool := data &&& (0xFF00 : UInt16) ≠ 0

@[simp] theorem cmd_data (c : Bool) : cmd (data c) = c := by
  cases c <;> decide

def transport_msg_to (v : Message TwoWords) : ModbusMessage → Codec ModbusMessage :=
  TwoWords.make_to fnForceSingleCoil v.addr v.body.start (data (cmd v.body.count))

end ForceSingleCoil

def ForceSingleCoilMessage : MessageType TwoWords where
  transport_msg_to := ForceSingleCoil.transport_msg_to
  init := some (TwoWords.initWithCRC fnForceSingleCoil)
  szData _ := 6
  getCrc := getCrcAt fnForceSingleCoil 4
  calcCRC := calcCRCTo fnForceSingleCoil 4

def ForceSingleCoilRetMessage : MessageType TwoWords where
  transport_msg_to := ForceSingleCoil.transport_msg_to
  init := some TwoWords.initPlain
  szData _ := 6
  getCrc := getCrcLast fnForceSingleCoil
  calcCRC := calcCRCLast fnForceSingleCoil

def WriteSingleOutputMessage : MessageType TwoWords where
  transport_msg_to := TwoWords.transport_msg_to fnWriteOutputSingleRegister
  init := some (TwoWords.initWithCRC fnWriteOutputSingleRegister)
  szData _ := 6
  getCrc := getCrcAt fnWriteOutputSingleRegister 4
  calcCRC := calcCRCTo fnWriteOutputSingleRegister 4

def WriteSingleOutputRetMessage : MessageType TwoWords where
  transport_msg_to := TwoWords.transport_msg_to fnWriteOutputSingleRegister
  init := some TwoWords.initPlain
  szData _ := 6
  getCrc := getCrcAt fnWriteOutputSingleRegister 4
  calcCRC := calcCRCTo fnWriteOutputSingleRegister 4

namespace FileTransferMessage

/-- Both numbers are taken as bytes. -/
def make_to (addr : ModbusAddr) (numfile numpacket : ModbusByte) :
    ModbusMessage → Codec ModbusMessage :=
  TwoWords.make_to fnFileTransfer addr numfile.toUInt16 numpacket.toUInt16

def transport_msg_to (v : Message TwoWords) : ModbusMessage → Codec ModbusMessage :=
  make_to v.addr v.body.start.toUInt8 v.body.count.toUInt8

def init (m : ModbusMessage) : Codec (Message TwoWords) := do
  assert (m.func = fnFileTransfer.code)
  let bs ← m.copy (szModbusHeader + m.dlen) 8
  let crc ← m.word (szModbusHeader + m.dlen - szCRC)
  return ⟨m.addr, m.func, TwoWords.ofObject bs, crc⟩

end FileTransferMessage

def FileTransferMessage : MessageType TwoWords where
  transport_msg_to := FileTransferMessage.transport_msg_to
  init := some FileTransferMessage.init
  szData _ := 6
  getCrc := getCrcAt fnFileTransfer 4
  calcCRC := calcCRCTo fnFileTransfer 4

/-- Only the header is copied; the words stay as they are made. -/
def JournalCommandMessage.init (m : ModbusMessage) : Codec (Message TwoWords) := do
  assert (m.func = fnJournalCommand.code)
  return ⟨m.addr, m.func, ⟨SWAPSHORT 0, SWAPSHORT 0⟩, 0⟩

namespace ErrorRetMessage

def make_to (addr : ModbusAddr) (func ecode : ModbusByte) (mm : ModbusMessage) :
    Codec ModbusMessage :=
  mm.put addr (func ||| MBErrMask) [ecode] 3

def init (m : ModbusMessage) : Codec (Message ModbusByte) := do
  let ecode ← m.byte 0
  let crc ← m.word (szModbusHeader + 1)
  return ⟨m.addr, m.func, ecode, crc⟩

end ErrorRetMessage

def ErrorRetMessage : MessageType ModbusByte where
  transport_msg_to v := ErrorRetMessage.make_to v.addr v.func v.body
  init := some ErrorRetMessage.init
  szData _ := 3
  getCrc m := m.word (szModbusHeader + 1)
  calcCRC m := m.pduCRC (szModbusHeader + 1)

/-- The bytes of words as they are sent, each turned around. -/
def swapped (ds : List ModbusData) : List ModbusByte :=
  ds.flatMap fun d => toMemory (SWAPSHORT d)

/-- The first `n` words of a copied array, each turned around. -/
def unswapped (bs : List ModbusByte) (n : Nat) : List ModbusData :=
  (List.range n).map fun i => SWAPSHORT (wordOf bs (2 * i))

/-- As many bytes as there are in `data`. -/
structure BitsBuffer where
  data : List ModbusByte
  fits : data.length ≤ MAXPDULEN
  deriving DecidableEq

namespace BitsBuffer

def bcnt (b : BitsBuffer) : ModbusByte := UInt8.ofNat b.data.length

def clear : BitsBuffer := ⟨[], Nat.zero_le _⟩

/-- `DataBits(d).b[bnum] = state` on one byte. -/
def withBit (d : ModbusByte) (bnum : Nat) (state : Bool) : ModbusByte :=
  if state then d ||| (1 <<< UInt8.ofNat bnum) else d &&& ~~~(1 <<< UInt8.ofNat bnum)

/-- Refused when the buffer is full. -/
def addData (b : BitsBuffer) (d : ModbusByte) : BitsBuffer :=
  if h : b.data.length < MAXPDULEN then
    ⟨b.data ++ [d], by rw [List.length_append]; exact h⟩
  else b

def setBit (b : BitsBuffer) (dnum bnum : ModbusByte) (state : Bool) : BitsBuffer :=
  if dnum.toNat < b.data.length ∧ bnum.toNat < BitsPerByte then
    ⟨b.data.modify dnum.toNat (withBit · bnum.toNat state), by
      rw [List.length_modify]; exact b.fits⟩
  else b

/-- The number of the byte is cut to a byte before it is checked. -/
def setByBitNum (b : BitsBuffer) (num : ModbusData) (state : Bool) : BitsBuffer :=
  let dnum := num.toNat / BitsPerByte % 256
  if h : dnum < MAXPDULEN then
    ⟨(b.data ++ List.replicate (dnum + 1 - b.data.length) 0).modify dnum
        (withBit · (num.toNat % BitsPerByte) state), by
      have := b.fits
      rw [List.length_modify, List.length_append, List.length_replicate]
      omega⟩
  else b

def transport_msg_to (v : Message BitsBuffer) (mm : ModbusMessage) : Codec ModbusMessage := do
  assertSize (1 + v.body.bcnt.toNat + szCRC)
  mm.put v.addr v.func (v.body.bcnt :: v.body.data) (1 + v.body.bcnt.toNat + szCRC)

def init (f : SlaveFunctionCode) (m : ModbusMessage) : Codec (Message BitsBuffer) := do
  assert (m.func = f.code)
  let bcnt ← m.byte 0
  if MAXPDULEN < bcnt.toNat then .throw erPacketTooLong
  else do
    let bs ← m.bytes (szModbusHeader + 1) bcnt.toNat
    let crc ← m.word (szModbusHeader + 1 + bcnt.toNat)
    return ⟨m.addr, m.func, ⟨bs.take MAXPDULEN, List.length_take_le _ _⟩, crc⟩

def retType (f : SlaveFunctionCode) : MessageType BitsBuffer where
  transport_msg_to := transport_msg_to
  init := some (init f)
  szData b := 1 + b.bcnt.toNat + szCRC
  getCrc := getCrcCounted f
  calcCRC := calcCRCCounted f

end BitsBuffer

def ReadCoilRetMessage : MessageType BitsBuffer := BitsBuffer.retType fnReadCoilStatus

def ReadInputStatusRetMessage : MessageType BitsBuffer := BitsBuffer.retType fnReadInputStatus

/-- Words under a count of bytes; `count` is the length of `data`. -/
structure WordsRet where
  bcnt : ModbusByte
  data : List ModbusData
  deriving DecidableEq

namespace WordsRet

/-- The words and the count that belongs to them. -/
def ofData (ds : List ModbusData) : WordsRet :=
  ⟨UInt8.ofNat (ds.length * sizeofModbusData), ds⟩

def isFull (w : WordsRet) : Prop := MAXLENPACKET ≤ w.data.length * sizeofModbusData

instance (w : WordsRet) : Decidable w.isFull :=
  inferInstanceAs (Decidable (MAXLENPACKET ≤ w.data.length * sizeofModbusData))

/-- Refused when the message is full. -/
def addData (w : WordsRet) (d : ModbusData) : WordsRet :=
  if w.isFull then w else ofData (w.data ++ [d])

def szData (w : WordsRet) : Nat := 1 + w.data.length * sizeofModbusData + szCRC

def transport_msg_to (v : Message WordsRet) (mm : ModbusMessage) : Codec ModbusMessage := do
  assertSize v.body.szData
  mm.put v.addr v.func (v.body.bcnt :: (swapped v.body.data).take v.body.bcnt.toNat)
    (1 + v.body.bcnt.toNat + szCRC)

def init (f : SlaveFunctionCode) (m : ModbusMessage) : Codec (Message WordsRet) := do
  assert (m.func = f.code)
  let bcnt ← m.byte 0
  if MAXLENPACKET / sizeofModbusData < bcnt.toNat / sizeofModbusData then
    .throw erPacketTooLong
  else do
    let bs ← m.bytes (szModbusHeader + 1) bcnt.toNat
    let crc ← m.word (szModbusHeader + 1 + bcnt.toNat)
    return ⟨m.addr, m.func, ⟨bcnt, unswapped bs (bcnt.toNat / sizeofModbusData)⟩, crc⟩

def retType (f : SlaveFunctionCode) : MessageType WordsRet where
  transport_msg_to := transport_msg_to
  init := some (init f)
  szData := szData
  getCrc := getCrcCounted f
  calcCRC := calcCRCCounted f

end WordsRet

def ReadOutputRetMessage : MessageType WordsRet := WordsRet.retType fnReadOutputRegisters

def ReadInputRetMessage : MessageType WordsRet := WordsRet.retType fnReadInputRegisters

namespace JournalCommandRetMessage

/-- The words that lie in a sequence of bytes, the last one filled up with a 0. -/
def wordsIn : List ModbusByte → List ModbusData
  | [] => []
  | [b] => [ofMemory b 0]
  | b :: b' :: bs => ofMemory b b' :: wordsIn bs

/-- Refused when the message is full or the data too long. -/
def setData (w : WordsRet) (buf : List ModbusByte) : WordsRet :=
  if MAXDATALEN ≤ w.data.length then w
  else if MAXLENPACKET < buf.length then w
  else .ofData (wordsIn buf)

end JournalCommandRetMessage

/-- There is no constructor from a message. -/
def JournalCommandRetMessage : MessageType WordsRet where
  transport_msg_to := WordsRet.transport_msg_to
  init := none
  szData := WordsRet.szData
  getCrc := getCrcLast fnJournalCommand
  calcCRC := calcCRCLast fnJournalCommand

/-- The count of bytes is left as it is. -/
def JournalCommandRetOK.set (w : WordsRet) (cmd ecode : ModbusData) : WordsRet :=
  { w with data := [cmd, ecode] }

/-- The body of a request that writes: `quant` things in `bcnt` bytes. -/
structure WriteRequest (δ : Type) where
  start : ModbusData
  quant : ModbusData
  bcnt : ModbusByte
  data : List δ
  deriving DecidableEq

namespace ForceCoilsMessage

def new (start : ModbusData) : WriteRequest ModbusByte := ⟨start, 0, 0, []⟩

def isFull (w : WriteRequest ModbusByte) : Prop := MAXPDULEN ≤ w.bcnt.toNat

instance (w : WriteRequest ModbusByte) : Decidable (isFull w) :=
  inferInstanceAs (Decidable (MAXPDULEN ≤ w.bcnt.toNat))

/-- Refused when the message is full. -/
def addData (w : WriteRequest ModbusByte) (d : ModbusByte) : WriteRequest ModbusByte :=
  if isFull w then w
  else { w with data := w.data ++ [d], bcnt := w.bcnt + 1, quant := w.quant + 8 }

def addBit (w : WriteRequest ModbusByte) (state : Bool) : WriteRequest ModbusByte :=
  let qnum := w.quant.toNat % BitsPerByte
  let w := if qnum = 0 then { w with data := w.data ++ [0], bcnt := w.bcnt + 1 } else w
  { w with
    data := w.data.modify (w.bcnt.toNat - 1) (BitsBuffer.withBit · qnum state)
    quant := w.quant + 1 }

def setBit (w : WriteRequest ModbusByte) (nbit : ModbusByte) (state : Bool) :
    WriteRequest ModbusByte :=
  if w.quant.toNat ≤ nbit.toNat then w
  else
    { w with
      data := w.data.modify (nbit.toNat / BitsPerByte)
        (BitsBuffer.withBit · (nbit.toNat % BitsPerByte) state) }

def szData (w : WriteRequest ModbusByte) : Nat := 5 + w.bcnt.toNat + szCRC

def transport_msg_to (v : Message (WriteRequest ModbusByte)) (mm : ModbusMessage) :
    Codec ModbusMessage := do
  assertSize (szData v.body)
  mm.put v.addr fnForceMultipleCoils.code
    (toMemory (SWAPSHORT v.body.start) ++ toMemory (SWAPSHORT v.body.quant) ++
      v.body.bcnt :: v.body.data.take v.body.bcnt.toNat)
    (5 + v.body.bcnt.toNat + szCRC)

def checkFormat (m : ModbusMessage) : Codec Bool := return m.func = fnForceMultipleCoils.code

def init (m : ModbusMessage) : Codec (Message (WriteRequest ModbusByte)) := do
  assert (m.func = fnForceMultipleCoils.code)
  let bs ← m.copy (szModbusHeader + m.dlen) 512
  let ok ← checkFormat m
  let crc ← m.word (szModbusHeader + m.dlen - szCRC)
  let bcnt := if ok then bs.getD 6 0 else 0
  return ⟨m.addr, m.func, ⟨SWAPSHORT (wordOf bs 2), SWAPSHORT (wordOf bs 4), bcnt,
    (bs.drop 7).take bcnt.toNat⟩, crc⟩

end ForceCoilsMessage

def ForceCoilsMessage : MessageType (WriteRequest ModbusByte) where
  transport_msg_to := ForceCoilsMessage.transport_msg_to
  init := some ForceCoilsMessage.init
  szData := ForceCoilsMessage.szData
  getCrc := getCrcLast fnForceMultipleCoils
  calcCRC := calcCRCLast fnForceMultipleCoils

namespace WriteOutputMessage

def new (start : ModbusData) : WriteRequest ModbusData := ⟨start, 0, 0, []⟩

def isFull (w : WriteRequest ModbusData) : Prop := MAXDATALEN ≤ w.quant.toNat

instance (w : WriteRequest ModbusData) : Decidable (isFull w) :=
  inferInstanceAs (Decidable (MAXDATALEN ≤ w.quant.toNat))

/-- Refused when the message is full. -/
def addData (w : WriteRequest ModbusData) (d : ModbusData) : WriteRequest ModbusData :=
  if isFull w then w
  else
    { w with
      data := w.data ++ [d]
      quant := w.quant + 1
      bcnt := UInt8.ofNat ((w.quant + 1).toNat * sizeofModbusData) }

def szData (w : WriteRequest ModbusData) : Nat := 5 + w.bcnt.toNat + szCRC

def transport_msg_to (v : Message (WriteRequest ModbusData)) (mm : ModbusMessage) :
    Codec ModbusMessage := do
  let nbytes := UInt8.ofNat (v.body.quant.toNat * sizeofModbusData)
  assertSize (szData v.body)
  mm.put v.addr v.func
    (toMemory (SWAPSHORT v.body.start) ++ toMemory (SWAPSHORT v.body.quant) ++
      nbytes :: (swapped (v.body.data.take v.body.quant.toNat)).take nbytes.toNat)
    (5 + nbytes.toNat + szCRC)

def checkFormat (m : ModbusMessage) : Codec Bool := do
  let bcnt ← m.byte 4
  let quant ← m.word (szModbusHeader + 2)
  return bcnt.toNat = (SWAPSHORT quant).toNat * sizeofModbusData ∧
    m.func = fnWriteOutputRegisters.code

def init (m : ModbusMessage) : Codec (Message (WriteRequest ModbusData)) := do
  assert (m.func = fnWriteOutputRegisters.code)
  let bs ← m.copy (szModbusHeader + m.dlen) 507
  let ok ← checkFormat m
  let crc ← m.word (szModbusHeader + m.dlen - szCRC)
  let bcnt := if ok then bs.getD 6 0 else 0
  return ⟨m.addr, m.func, ⟨SWAPSHORT (wordOf bs 2), SWAPSHORT (wordOf bs 4), bcnt,
    unswapped (bs.drop 7) (bcnt.toNat / sizeofModbusData)⟩, crc⟩

end WriteOutputMessage

def WriteOutputMessage : MessageType (WriteRequest ModbusData) where
  transport_msg_to := WriteOutputMessage.transport_msg_to
  init := some WriteOutputMessage.init
  szData := WriteOutputMessage.szData
  getCrc := getCrcLast fnWriteOutputRegisters
  calcCRC := calcCRCLast fnWriteOutputRegisters

inductive DiagnosticsSubFunction
  | subEcho
  | dgRestartComm
  | dgDiagReg
  | dgChangeASCII
  | dgForceListen
  | dgClearCounters
  | dgBusMsgCount
  | dgBusErrCount
  | dgBusExceptCount
  | dgMsgSlaveCount
  | dgNoNoResponseCount
  | dgSlaveNAKCount
  | dgSlaveBusyCount
  | dgBusCharOverrunCount
  | dgClearOverrunCounter
  deriving DecidableEq

def DiagnosticsSubFunction.code : DiagnosticsSubFunction → ModbusData
  | .subEcho => 0x00
  | .dgRestartComm => 0x01
  | .dgDiagReg => 0x02
  | .dgChangeASCII => 0x03
  | .dgForceListen => 0x04
  | .dgClearCounters => 0x0A
  | .dgBusMsgCount => 0x0B
  | .dgBusErrCount => 0x0C
  | .dgBusExceptCount => 0x0D
  | .dgMsgSlaveCount => 0x0E
  | .dgNoNoResponseCount => 0x0F
  | .dgSlaveNAKCount => 0x10
  | .dgSlaveBusyCount => 0x11
  | .dgBusCharOverrunCount => 0x12
  | .dgClearOverrunCounter => 0x14

/-- How many words a request of the function carries; `none` stands for -1. -/
def szRequestDiagnosticData (f : ModbusData) : Option Nat :=
  if f ∈ [0x00, 0x01, 0x02, 0x03, 0x04, 0x0A, 0x0B, 0x0C, 0x0D, 0x0E, 0x0F, 0x10, 0x11, 0x12,
      0x14] then some 1 else none

@[simp] theorem szRequestDiagnosticData_code (f : DiagnosticsSubFunction) :
    szRequestDiagnosticData f.code = some 1 := by
  cases f <;> rfl

/-- The body of `DiagnosticMessage`; `count` is the length of `data`. -/
structure Diagnostic where
  subf : ModbusData
  data : List ModbusData
  deriving DecidableEq

namespace DiagnosticMessage

def isFull (d : Diagnostic) : Prop := MAXDATALEN ≤ 1 + d.data.length

instance (d : Diagnostic) : Decidable (isFull d) :=
  inferInstanceAs (Decidable (MAXDATALEN ≤ 1 + d.data.length))

/-- Refused when the message is full. -/
def addData (d : Diagnostic) (x : ModbusData) : Diagnostic :=
  if isFull d then d else { d with data := d.data ++ [x] }

def new (sf : DiagnosticsSubFunction) (x : ModbusData) : Diagnostic := addData ⟨sf.code, []⟩ x

def szData (d : Diagnostic) : Nat := 2 + d.data.length * sizeofModbusData + szCRC

def transport_msg_to (v : Message Diagnostic) (mm : ModbusMessage) : Codec ModbusMessage := do
  assertSize (szData v.body)
  mm.put v.addr v.func (toMemory (SWAPSHORT v.body.subf) ++ swapped v.body.data) (szData v.body)

/-- The count of the words is not in the message but follows from the function; the count -1 is
longer than any message. -/
def init (m : ModbusMessage) : Codec (Message Diagnostic) := do
  assert (m.func = fnDiagnostics.code)
  let subf ← m.word szModbusHeader
  match szRequestDiagnosticData (SWAPSHORT subf) with
  | none => .throw erPacketTooLong
  | some count =>
    if MAXDATALEN < count then .throw erPacketTooLong
    else do
      let bs ← m.bytes (szModbusHeader + 2) (sizeofModbusData * count)
      let crc ← m.word (szModbusHeader + 2 + sizeofModbusData * count)
      return ⟨m.addr, m.func, ⟨SWAPSHORT subf, unswapped bs count⟩, crc⟩

end DiagnosticMessage

def DiagnosticMessage : MessageType Diagnostic where
  transport_msg_to := DiagnosticMessage.transport_msg_to
  init := some DiagnosticMessage.init
  szData := DiagnosticMessage.szData
  getCrc := getCrcLast fnDiagnostics
  calcCRC := calcCRCLast fnDiagnostics

def DiagnosticRetMessage : MessageType Diagnostic := DiagnosticMessage

/-- The body of `MEIMessageRDI`. -/
structure MEI where
  type : ModbusByte
  devID : ModbusByte
  objID : ModbusByte
  deriving DecidableEq

namespace MEIMessageRDI

def make_to (addr : ModbusAddr) (devID objID : ModbusByte) (mm : ModbusMessage) :
    Codec ModbusMessage := do
  assertSize 5
  mm.put addr fnMEI.code [0x0E, devID, objID] 5

def init (m : ModbusMessage) : Codec (Message MEI) := do
  assert (m.func = fnMEI.code)
  let bs ← m.copy (szModbusHeader + m.dlen) 7
  let crc ← m.word (szModbusHeader + m.dlen - szCRC)
  return ⟨m.addr, m.func, ⟨bs.getD 2 0, bs.getD 3 0, bs.getD 4 0⟩, crc⟩

end MEIMessageRDI

def MEIMessageRDI : MessageType MEI where
  transport_msg_to v := MEIMessageRDI.make_to v.addr v.body.devID v.body.objID
  init := some MEIMessageRDI.init
  szData _ := 5
  getCrc := getCrcAt fnMEI 3
  calcCRC := calcCRCTo fnMEI 3

structure RDIObjectInfo where
  id : ModbusByte
  val : List ModbusByte
  deriving DecidableEq

/-- The body of `MEIMessageRetRDI`; `bcnt` is the number of bytes of the objects. -/
structure MEIRet where
  type : ModbusByte
  devID : ModbusByte
  conformity : ModbusByte
  mf : ModbusByte
  objID : ModbusByte
  objNum : ModbusByte
  dlist : List RDIObjectInfo
  bcnt : Nat
  deriving DecidableEq

namespace MEIMessageRetRDI

def new (devID conformity mf objID : ModbusByte) : MEIRet :=
  ⟨0x0E, devID, conformity, mf, objID, 0, [], 0⟩

def isFull (r : MEIRet) : Prop := MAXPDULEN ≤ r.bcnt

instance (r : MEIRet) : Decidable (isFull r) := inferInstanceAs (Decidable (MAXPDULEN ≤ r.bcnt))

/-- Refused when the message is full before. -/
def addData (r : MEIRet) (o : RDIObjectInfo) : MEIRet :=
  if isFull r then r
  else
    { r with
      dlist := r.dlist ++ [o]
      objNum := UInt8.ofNat (r.dlist ++ [o]).length
      bcnt := r.bcnt + (o.val.length + 2) }

def szData (r : MEIRet) : Nat := 6 + r.bcnt + szCRC

/-- The objects as they are put into the message from place `ind` on. -/
def objects (ind : Nat) : List RDIObjectInfo → List ModbusByte
  | [] => []
  | o :: os =>
    if ind ≤ MAXLENPACKET then
      o.id :: UInt8.ofNat o.val.length :: o.val ++ objects (ind + 2 + o.val.length) os
    else []

def transport_msg_to (v : Message MEIRet) (mm : ModbusMessage) : Codec ModbusMessage := do
  let os := objects 6 v.body.dlist
  assertSize (szData v.body)
  mm.put v.addr v.func
    (v.body.type :: v.body.devID :: v.body.conformity :: v.body.mf :: v.body.objID ::
      v.body.objNum :: os)
    (6 + os.length + szCRC)

/-- The header without the objects. -/
def pre_init (m : ModbusMessage) : Codec MEIRet := do
  assert (m.func = fnMEI.code)
  let type ← m.byte 0
  if type ≠ 0x0E then .throw erInvalidFormat
  else if m.dlen < 6 then .throw erInvalidFormat
  else do
    let devID ← m.byte 1
    let conformity ← m.byte 2
    let mf ← m.byte 3
    let objID ← m.byte 4
    let objNum ← m.byte 5
    return ⟨type, devID, conformity, mf, objID, objNum, [], 0⟩

/-- The loop over at most `n` objects from `data[i]` on; with them, where they end. -/
def readObjects (m : ModbusMessage) : Nat → Nat → Codec (List RDIObjectInfo × Nat)
  | 0, i => return ([], i)
  | n + 1, i =>
    if m.dlen ≤ i then return ([], i)
    else do
      let id ← m.byte i
      let dlen ← m.byte (i + 1)
      if m.dlen < i + 1 + dlen.toNat then .throw erInvalidFormat
      else do
        let val ← m.bytes (szModbusHeader + i + 2) dlen.toNat
        let (dlist, last) ← readObjects m n (i + (dlen.toNat + 2))
        return (⟨id, val⟩ :: dlist, last)

def init (m : ModbusMessage) : Codec (Message MEIRet) := do
  let r ← pre_init m
  if 0 < r.objNum.toNat ∧ m.dlen < 7 then .throw erInvalidFormat
  else do
    let (dlist, last) ← readObjects m r.objNum.toNat 6
    let crc ← m.word (szModbusHeader + last)
    return ⟨m.addr, m.func, { r with dlist := dlist, bcnt := last - 6 }, crc⟩

end MEIMessageRetRDI

def MEIMessageRetRDI : MessageType MEIRet where
  transport_msg_to := MEIMessageRetRDI.transport_msg_to
  init := some MEIMessageRetRDI.init
  szData := MEIMessageRetRDI.szData
  getCrc := getCrcLast fnMEI
  calcCRC := calcCRCLast fnMEI

/-- The body of `SetDateTimeMessage`. -/
structure DateTime where
  hour : ModbusByte
  min : ModbusByte
  sec : ModbusByte
  day : ModbusByte
  mon : ModbusByte
  year : ModbusByte
  century : ModbusByte
  deriving DecidableEq

namespace SetDateTimeMessage

def transport_msg_to (v : Message DateTime) (mm : ModbusMessage) : Codec ModbusMessage := do
  assertSize 9
  mm.put v.addr v.func
    [v.body.hour, v.body.min, v.body.sec, v.body.day, v.body.mon, v.body.year, v.body.century] 9

/-- Only the header is copied; the rest is cleared. -/
def init (m : ModbusMessage) : Codec (Message DateTime) := do
  assert (m.func = fnSetDateTime.code)
  return ⟨m.addr, m.func, ⟨0, 0, 0, 0, 0, 0, 0⟩, 0⟩

def checkFormat (m : ModbusMessage) : Codec Bool := do
  let dt ← init m
  return dt.body.hour ≤ 23 ∧ dt.body.min ≤ 59 ∧ dt.body.sec ≤ 59 ∧
    (1 ≤ dt.body.day ∧ dt.body.day ≤ 31) ∧ (1 ≤ dt.body.mon ∧ dt.body.mon ≤ 12) ∧
    dt.body.year ≤ 99 ∧ 19 ≤ dt.body.century ∧ dt.body.century ≤ 20

end SetDateTimeMessage

def SetDateTimeMessage : MessageType DateTime where
  transport_msg_to := SetDateTimeMessage.transport_msg_to
  init := some SetDateTimeMessage.init
  szData _ := 9
  getCrc := getCrcAt fnSetDateTime 7
  calcCRC := calcCRCTo fnSetDateTime 7

def SetDateTimeRetMessage : MessageType DateTime := SetDateTimeMessage

/-- The body of the messages of the remote service; `count` stays what it is made with. -/
structure RemoteService where
  bcnt : ModbusByte
  data : List ModbusByte
  count : Nat
  deriving DecidableEq

def RemoteServiceMessage.init (m : ModbusMessage) : Codec (Message RemoteService) := do
  assert (m.func = fnRemoteService.code)
  let bs ← m.copy (szModbusHeader + m.dlen) 512
  let crc ← m.word (szModbusHeader + m.dlen - szCRC)
  return ⟨m.addr, m.func,
    ⟨bs.getD 2 0, (bs.drop 3).take (bs.getD 2 0).toNat, 0⟩, crc⟩

namespace RemoteServiceRetMessage

/-- Refused when the data is too long. -/
def setData (r : RemoteService) (buf : List ModbusByte) : RemoteService :=
  if MAXLENPACKET - 1 ≤ r.count then r
  else if MAXLENPACKET - 1 < buf.length then r
  else { r with bcnt := UInt8.ofNat buf.length, data := buf }

def szData (r : RemoteService) : Nat := 1 + r.count + szCRC

def transport_msg_to (v : Message RemoteService) (mm : ModbusMessage) : Codec ModbusMessage := do
  assertSize (szData v.body)
  mm.put v.addr v.func (v.body.bcnt :: v.body.data.take v.body.bcnt.toNat)
    (1 + v.body.bcnt.toNat + szCRC)

end RemoteServiceRetMessage

/-- There is no constructor from a message. -/
def RemoteServiceRetMessage : MessageType RemoteService where
  transport_msg_to := RemoteServiceRetMessage.transport_msg_to
  init := none
  szData := RemoteServiceRetMessage.szData
  getCrc := getCrcLast fnRemoteService
  calcCRC := calcCRCLast fnRemoteService

/-- The body of `FileTransferRetMessage`; `dlen` is the length of `data`. -/
structure FilePart where
  numfile : ModbusData
  numpacks : ModbusData
  packet : ModbusData
  data : List ModbusByte
  deriving DecidableEq

namespace FileTransferRetMessage

def MaxDataLen : Nat := MAXLENPACKET - sizeofModbusData * 3 - 2

/-- `len` is a byte, so as many of the data are taken. -/
def set (nfile fpacks pack : ModbusData) (buf : List ModbusByte) (len : ModbusByte) : FilePart :=
  ⟨nfile, fpacks, pack, buf.take len.toNat⟩

def szData (p : FilePart) : Nat := 2 + sizeofModbusData * 3 + p.data.length + szCRC

def transport_msg_to (v : Message FilePart) (mm : ModbusMessage) : Codec ModbusMessage := do
  assertSize (szData v.body)
  mm.put v.addr v.func
    (UInt8.ofNat (szData v.body - szCRC - 1) ::
      (swapped [v.body.numfile, v.body.numpacks, v.body.packet] ++
        UInt8.ofNat v.body.data.length :: v.body.data))
    (8 + v.body.data.length + szCRC)

def init (m : ModbusMessage) : Codec (Message FilePart) := do
  assert (m.func = fnFileTransfer.code)
  let _bcnt ← m.byte 0
  let numfile ← m.word (szModbusHeader + 1)
  let numpacks ← m.word (szModbusHeader + 3)
  let packet ← m.word (szModbusHeader + 5)
  let dlen ← m.byte 7
  let data ← m.bytes (szModbusHeader + 8) dlen.toNat
  let crc ← m.word (szModbusHeader + 8 + dlen.toNat)
  return ⟨m.addr, m.func, ⟨SWAPSHORT numfile, SWAPSHORT numpacks, SWAPSHORT packet, data⟩, crc⟩

end FileTransferRetMessage

def FileTransferRetMessage : MessageType FilePart where
  transport_msg_to := FileTransferRetMessage.transport_msg_to
  init := some FileTransferRetMessage.init
  szData := FileTransferRetMessage.szData
  getCrc := getCrcLast fnFileTransfer
  calcCRC := calcCRCLast fnFileTransfer

end Uniset.Modbus
