import Uniset.Modbus.Codec
import Uniset.Modbus.ModbusClient
import Uniset.Modbus.Processing

/-! The calls of a client on a serial line: what it sends, what a server on the line answers and
what the call makes of the answer.  What comes too late does not come. -/

namespace Uniset.Modbus

open Uniset.Lib SlaveFunctionCode

namespace ModbusMessage

def pduLen (m : ModbusMessage) : ModbusData := UInt16.ofNat (szModbusHeader + m.dlen)

/-- The length of a message, with the header of its own if it has one. -/
def len (m : ModbusMessage) : ModbusData :=
  if m.mbaphead.len = 0 then m.pduLen else 6 + m.mbaphead.len

def maxSizeOfMessage : Nat := MAXLENPACKET + szModbusHeader + 6

/-- The bytes of a message without a header of its own. -/
def buf (m : ModbusMessage) : List ModbusByte := m.frame.take m.len.toNat

/-- The bytes that are sent, or an error. -/
def send (msg : ModbusMessage) : Except mbErrCode (List ModbusByte) :=
  if maxSizeOfMessage < msg.len.toNat then .error erPacketTooLong else .ok msg.buf

end ModbusMessage

namespace ModbusServer

def AnyAddr : ModbusAddr := 255

def checkAddr (vaddr : List ModbusAddr) (addr : ModbusAddr) : Bool :=
  addr = BroadcastAddr ∨ AnyAddr ∈ vaddr ∨ addr ∈ vaddr

/-- The code that `send` returns. -/
def sendCode (msg : ModbusMessage) : mbErrCode :=
  match msg.send with
  | .ok _ => erNoError
  | .error err => err

/-- The bytes that are sent for messages; one that is too long is not sent. -/
def wire (msgs : List ModbusMessage) : List ModbusByte :=
  msgs.flatMap fun msg =>
    match msg.send with
    | .ok bs => bs
    | .error _ => []

/-- What `realReceive` sends for the bytes that come to the server.  Bytes are dropped up to one
that is an address of it; then either the frame is refused or it is processed. -/
def realReceive (crcNoCheckit : Bool) (vaddr : List ModbusAddr) (h : Handlers)
    (channel : List ModbusByte) : List ModbusByte :=
  match channel.dropWhile (!checkAddr vaddr ·) with
  | [] => []
  | addr :: channel =>
    let rbuf := { ModbusMessage.new with addr := addr }
    match (recv_pdu crcNoCheckit rbuf channel).value with
    | .ok r => wire (sent h sendCode r.rbuf)
    | .error (err, _) =>
      -- the function is in the buffer, if one has been received
      if err.code < erInternalErrorCode.code then
        match (ErrorRetMessage.make_to addr (channel.headD rbuf.func) (UInt8.ofNat err.code)
          rbuf).value with
        | .ok buf => wire [buf]
        | .error _ => []
      else []

end ModbusServer

namespace ModbusClient

/-- Bytes are dropped up to the address of the server. -/
def recv (crcNoCheckit : Bool) (addr : ModbusAddr) (qfunc : ModbusByte) (rbuf : ModbusMessage)
    (channel : List ModbusByte) : Reception Received :=
  match channel.dropWhile (· != addr) with
  | [] => .throw (erTimeOut, [])
  | addr :: channel => recv_pdu crcNoCheckit qfunc { rbuf with addr := addr } channel

/-- `line` is what comes back for the bytes that are sent. -/
def query (crcNoCheckit : Bool) (line : List ModbusByte → List ModbusByte) (addr : ModbusAddr)
    (msg reply : ModbusMessage) : Codec ModbusMessage :=
  match msg.send with
  | .error err => .throw err
  | .ok bs => do
    let r ← (recv crcNoCheckit addr msg.func reply (line bs)).mapError Prod.fst
    return r.rbuf

end ModbusClient

/-- A call: the message that it sends, what is made of the reply and checked of it, and which handler
of a server it is for. -/
structure Remote where
  {β γ : Type}
  func : SlaveFunctionCode
  type : MessageType β
  msg : Message β
  reply : MessageType γ
  make : ModbusMessage → Codec (Message γ)
  check : γ → Bool
  handler : ModbusServer.Handlers → Message β → mbErrCode × γ

/-- The reply is returned, or the error is thrown. -/
def Remote.call (r : Remote) (crcNoCheckit : Bool) (line : List ModbusByte → List ModbusByte)
    (qbuf qreply : ModbusMessage) : Codec (Message r.γ) := do
  let qbuf ← r.type.transport_msg_to r.msg qbuf
  let qreply ← ModbusClient.query crcNoCheckit line r.msg.addr qbuf qreply
  let ret ← r.make qreply
  if r.check ret.body then return ret else .throw erBadDataValue

/-- What a call should return when the handler of the server has returned this: its reply if it has
one, the error if it is one that is answered, and else nothing comes. -/
def Remote.outcome (r : Remote) (handled : mbErrCode × r.γ) : Except mbErrCode (Message r.γ) :=
  if handled.1 = erNoError then
    if r.check handled.2 then .ok ⟨r.msg.addr, r.func.code, handled.2, 0⟩
    else .error erBadDataValue
  else if handled.1.code < erInternalErrorCode.code ∧ r.msg.addr ≠ BroadcastAddr then
    .error handled.1
  else .error erTimeOut

/-- What a call returns, but for the checksum of the reply. -/
def Remote.returns (r : Remote) (x : Codec (Message r.γ)) : Except mbErrCode (Message r.γ) :=
  x.value.map fun ret => { ret with crc := 0 }

namespace ModbusClient

section Reads

variable (addr : ModbusAddr) (start count : ModbusData)

def read01 : Remote where
  func := fnReadCoilStatus
  type := ReadCoilMessage
  msg := ⟨addr, fnReadCoilStatus.code, ⟨start, count⟩, 0⟩
  reply := ReadCoilRetMessage
  make := BitsBuffer.init fnReadCoilStatus
  check _ := true
  handler := (·.readCoilStatus)

def read02 : Remote where
  func := fnReadInputStatus
  type := ReadInputStatusMessage
  msg := ⟨addr, fnReadInputStatus.code, ⟨start, count⟩, 0⟩
  reply := ReadInputStatusRetMessage
  make := BitsBuffer.init fnReadInputStatus
  check _ := true
  handler := (·.readInputStatus)

def read03 : Remote where
  func := fnReadOutputRegisters
  type := ReadOutputMessage
  msg := ⟨addr, fnReadOutputRegisters.code, ⟨start, count⟩, 0⟩
  reply := ReadOutputRetMessage
  make := WordsRet.init fnReadOutputRegisters
  check ret := ret.data.length = count.toNat
  handler := (·.readOutputRegisters)

def read04 : Remote where
  func := fnReadInputRegisters
  type := ReadInputMessage
  msg := ⟨addr, fnReadInputRegisters.code, ⟨start, count⟩, 0⟩
  reply := ReadInputRetMessage
  make := WordsRet.init fnReadInputRegisters
  check ret := ret.data.length = count.toNat
  handler := (·.readInputRegisters)

end Reads

section Writes

variable (addr : ModbusAddr) (start : ModbusData)

def write05 (cmd : Bool) : Remote where
  func := fnForceSingleCoil
  type := ForceSingleCoilMessage
  msg := ⟨addr, fnForceSingleCoil.code, ⟨start, ForceSingleCoil.data cmd⟩, 0⟩
  reply := ForceSingleCoilRetMessage
  make := TwoWords.initPlain
  check ret := ret.start = start ∧ ForceSingleCoil.cmd ret.count = cmd
  handler := (·.forceSingleCoil)

def write06 (data : ModbusData) : Remote where
  func := fnWriteOutputSingleRegister
  type := WriteSingleOutputMessage
  msg := ⟨addr, fnWriteOutputSingleRegister.code, ⟨start, data⟩, 0⟩
  reply := WriteSingleOutputRetMessage
  make := TwoWords.initPlain
  check ret := ret.start = start ∧ ret.count = data
  handler := (·.writeOutputSingleRegister)

def write0F (msg : WriteRequest ModbusByte) : Remote where
  func := fnForceMultipleCoils
  type := ForceCoilsMessage
  msg := ⟨addr, fnForceMultipleCoils.code, msg, 0⟩
  reply := ForceCoilsRetMessage
  make := TwoWords.initCopied fnForceMultipleCoils
  check ret := ret.start = msg.start ∧ ret.count = msg.quant
  handler := (·.forceMultipleCoils)

def write10 (msg : WriteRequest ModbusData) : Remote where
  func := fnWriteOutputRegisters
  type := WriteOutputMessage
  msg := ⟨addr, fnWriteOutputRegisters.code, msg, 0⟩
  reply := WriteOutputRetMessage
  make := TwoWords.initCopied fnWriteOutputRegisters
  check ret := ret.start = msg.start ∧ ret.count = msg.quant
  handler := (·.writeOutputRegisters)

end Writes

def diag08 (addr : ModbusAddr) (subfunc : DiagnosticsSubFunction) (dat : ModbusData) : Remote where
  func := fnDiagnostics
  type := DiagnosticMessage
  msg := ⟨addr, fnDiagnostics.code, DiagnosticMessage.new subfunc dat, 0⟩
  reply := DiagnosticRetMessage
  make := DiagnosticMessage.init
  check ret := ret.subf = subfunc.code
  handler := (·.diagnostics)

def read4314 (addr : ModbusAddr) (devID objID : ModbusByte) : Remote where
  func := fnMEI
  type := MEIMessageRDI
  msg := ⟨addr, fnMEI.code, ⟨0x0E, devID, objID⟩, 0⟩
  reply := MEIMessageRetRDI
  make := MEIMessageRetRDI.init
  check ret := ret.devID = devID ∧ ret.objID = objID
  handler := (·.read4314)

def setDateTime (addr : ModbusAddr) (dt : DateTime) : Remote where
  func := fnSetDateTime
  type := SetDateTimeMessage
  msg := ⟨addr, fnSetDateTime.code, dt, 0⟩
  reply := SetDateTimeRetMessage
  make := SetDateTimeMessage.init
  check _ := true
  handler := (·.setDateTime)

/-- The numbers are passed as bytes. -/
def partOfFileTransfer (addr : ModbusAddr) (idFile numpack : ModbusData) : Remote where
  func := fnFileTransfer
  type := FileTransferMessage
  msg := ⟨addr, fnFileTransfer.code, ⟨idFile.toUInt8.toUInt16, numpack.toUInt8.toUInt16⟩, 0⟩
  reply := FileTransferRetMessage
  make := FileTransferRetMessage.init
  check _ := true
  handler := (·.fileTransfer)

end ModbusClient

end Uniset.Modbus
