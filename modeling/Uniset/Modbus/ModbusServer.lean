import Uniset.Modbus.Reception

/-! `ModbusServer` receives requests: after the address of a frame the function, then as much as
the function asks for. -/

namespace Uniset.Modbus.ModbusServer

open Uniset.Lib SlaveFunctionCode

/-- How many bytes of a request are received first. -/
def szFirst (crcNoCheckit : Bool) : SlaveFunctionCode → Nat
  | fnReadCoilStatus | fnReadInputStatus | fnReadOutputRegisters | fnReadInputRegisters
  | fnJournalCommand | fnFileTransfer => withoutCRC crcNoCheckit 6
  | fnSetDateTime => withoutCRC crcNoCheckit 9
  | fnForceMultipleCoils | fnWriteOutputRegisters => 5
  | fnForceSingleCoil | fnWriteOutputSingleRegister | fnDiagnostics => 2
  | fnMEI => 3
  | fnRemoteService => 1

/-- How many bytes follow these, the checksum apart; `none` if nothing is received after them. -/
def getDataLen : SlaveFunctionCode → Option (ModbusMessage → Codec Nat)
  | fnReadCoilStatus | fnReadInputStatus | fnReadOutputRegisters | fnReadInputRegisters
  | fnJournalCommand | fnFileTransfer | fnSetDateTime => none
  | fnForceMultipleCoils | fnWriteOutputRegisters => some (getDataLenAt 4)
  | fnForceSingleCoil | fnWriteOutputSingleRegister => some fun m =>
    if m.dlen = 0 then return 0 else return sizeofModbusData
  | fnDiagnostics => some DiagnosticMessage.getDataLen
  | fnMEI => some fun _ => return 0
  | fnRemoteService => some (getDataLenAt 0)

def getCrc : SlaveFunctionCode → ModbusMessage → Codec ModbusCRC
  | fnReadCoilStatus => ReadCoilMessage.getCrc
  | fnReadInputStatus => ReadInputStatusMessage.getCrc
  | fnReadOutputRegisters => ReadOutputMessage.getCrc
  | fnReadInputRegisters => ReadInputMessage.getCrc
  | fnForceMultipleCoils => ForceCoilsMessage.getCrc
  | fnWriteOutputRegisters => WriteOutputMessage.getCrc
  | fnForceSingleCoil => ForceSingleCoilMessage.getCrc
  | fnWriteOutputSingleRegister => WriteSingleOutputMessage.getCrc
  | fnDiagnostics => DiagnosticMessage.getCrc
  | fnMEI => MEIMessageRDI.getCrc
  | fnJournalCommand => getCrcAt fnJournalCommand 4
  | fnSetDateTime => SetDateTimeMessage.getCrc
  | fnRemoteService => getCrcLast fnRemoteService
  | fnFileTransfer => FileTransferMessage.getCrc

/-- The checks of the data, made by the functions that have one. -/
def checkFormat : SlaveFunctionCode → ModbusMessage → Codec Bool
  | fnForceMultipleCoils => ForceCoilsMessage.checkFormat
  | fnWriteOutputRegisters => WriteOutputMessage.checkFormat
  | fnForceSingleCoil => fun m => return m.func = fnForceSingleCoil.code
  | fnWriteOutputSingleRegister => fun m => return m.func = fnWriteOutputSingleRegister.code
  | fnSetDateTime => SetDateTimeMessage.checkFormat
  | _ => fun _ => return true

/-- The error for a request that does not pass its check. -/
def erFormat : SlaveFunctionCode → mbErrCode
  | fnSetDateTime => erBadDataValue
  | _ => erInvalidFormat

def check (crcNoCheckit : Bool) (f : SlaveFunctionCode) (rbuf : ModbusMessage) : Codec Unit := do
  verifyCRC crcNoCheckit (getCrc f) rbuf
  let ok ← checkFormat f rbuf
  if ok then return () else .throw (erFormat f)

/-- What is received of a request behind its function. -/
def getParts (crcNoCheckit : Bool) (f : SlaveFunctionCode) (r : Received) : Reception Received := do
  let r ← getNextData 0 r.rbuf.dlen r
  match getDataLen f with
  | none => return r
  | some len => getRestOfData crcNoCheckit len r

/-- `recv_pdu` that returns `erNoError` with the request, or an error.  The address has been
received.  After every error the channel is dropped. -/
def recv_pdu (crcNoCheckit : Bool) (rbuf : ModbusMessage) :
    List ModbusByte → Reception Received
  | [] => cleanupChannel erInvalidFormat
  | func :: channel =>
    match ofByte func with
    | none => cleanupChannel erUnExpectedPacketType
    | some f => do
      let rbuf := { rbuf with
        func := func, dlen := szFirst crcNoCheckit f, bcnt := szModbusHeader }
      let r ← getParts crcNoCheckit f ⟨rbuf, channel⟩
      (check crcNoCheckit f r.rbuf).mapError (·, [])
      return r

/-- The request is made from the message, as its processing does. -/
def decode : SlaveFunctionCode → ModbusMessage → Codec Unit
  | fnReadCoilStatus => ReadCoilMessage.decode
  | fnReadInputStatus => ReadInputStatusMessage.decode
  | fnReadOutputRegisters => ReadOutputMessage.decode
  | fnReadInputRegisters => ReadInputMessage.decode
  | fnForceMultipleCoils => ForceCoilsMessage.decode
  | fnWriteOutputRegisters => WriteOutputMessage.decode
  | fnForceSingleCoil => ForceSingleCoilMessage.decode
  | fnWriteOutputSingleRegister => WriteSingleOutputMessage.decode
  | fnDiagnostics => DiagnosticMessage.decode
  | fnMEI => MEIMessageRDI.decode
  | fnJournalCommand => fun m => do
    let _ ← JournalCommandMessage.init m
    return ()
  | fnSetDateTime => SetDateTimeMessage.decode
  | fnRemoteService => fun m => do
    let _ ← RemoteServiceMessage.init m
    return ()
  | fnFileTransfer => FileTransferMessage.decode

/-- A request is received and made from the message. -/
def recvRequest (crcNoCheckit : Bool) (rbuf : ModbusMessage) (channel : List ModbusByte) :
    Reception Received := do
  let r ← recv_pdu crcNoCheckit rbuf channel
  match ofByte r.rbuf.func with
  | none => return r
  | some f =>
    (decode f r.rbuf).mapError (·, r.channel)
    return r

end Uniset.Modbus.ModbusServer
