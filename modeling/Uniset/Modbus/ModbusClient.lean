import Uniset.Modbus.Reception

/-! `ModbusClient` receives replies: after the address of a frame the function, which is that of the
request or marked as an error, then as much as the reply asks for. -/

namespace Uniset.Modbus.ModbusClient

open Uniset.Lib SlaveFunctionCode

/-- How many bytes of a reply are received first; `none` for the functions without a reply. -/
def szFirst (crcNoCheckit : Bool) : SlaveFunctionCode → Option Nat
  | fnReadCoilStatus | fnReadInputStatus | fnReadOutputRegisters | fnReadInputRegisters
  | fnFileTransfer => some 1
  | fnForceMultipleCoils | fnWriteOutputRegisters | fnWriteOutputSingleRegister
  | fnForceSingleCoil => some (withoutCRC crcNoCheckit 6)
  | fnDiagnostics => some 2
  | fnMEI => some 6
  | fnSetDateTime => some (withoutCRC crcNoCheckit 9)
  | fnJournalCommand | fnRemoteService => none

/-- The loop over the objects of a device identification: first the number of an object and its
length, then its data, while there is place for the former. -/
def getObjects : Nat → Received → Reception Received
  | 0, r => return r
  | n + 1, r =>
    let rlen := r.rbuf.bcnt - szModbusHeader
    if rlen + 2 < MAXLENPACKET + szCRC then do
      let r ← getNextData rlen 2 r
      let szDataLen ← (r.rbuf.byte (rlen + 1)).mapError (·, r.channel)
      let r ← getNextData (rlen + 2) szDataLen.toNat r
      getObjects n r
    else return r

/-- The checksum behind the objects. -/
def getSum (crcNoCheckit : Bool) (r : Received) : Reception Received := do
  if crcNoCheckit then return { r with rbuf.dlen := r.rbuf.bcnt - szModbusHeader }
  else
    let r ← getNextData (r.rbuf.bcnt - szModbusHeader) szCRC r
    return { r with rbuf.dlen := r.rbuf.bcnt - szModbusHeader }

def getMEI (crcNoCheckit : Bool) (r : Received) : Reception Received := do
  let mPreRDI ← (MEIMessageRetRDI.pre_init r.rbuf).mapError (·, r.channel)
  let r ← getObjects mPreRDI.objNum.toNat r
  getSum crcNoCheckit r

/-- What is received of a reply behind the first bytes. -/
def getRest (crcNoCheckit : Bool) : SlaveFunctionCode → Received → Reception Received
  | fnReadCoilStatus | fnReadInputStatus | fnReadOutputRegisters | fnReadInputRegisters =>
    getRestOfData crcNoCheckit (getDataLenAt 0)
  | fnDiagnostics => getRestOfData crcNoCheckit DiagnosticMessage.getDataLen
  | fnFileTransfer => getRestOfData crcNoCheckit FileTransferRetMessage.getDataLen
  | fnMEI => getMEI crcNoCheckit
  | _ => fun r => return r

def getCrc : SlaveFunctionCode → ModbusMessage → Codec ModbusCRC
  | fnReadCoilStatus => ReadCoilRetMessage.getCrc
  | fnReadInputStatus => ReadInputStatusRetMessage.getCrc
  | fnReadOutputRegisters => ReadOutputRetMessage.getCrc
  | fnReadInputRegisters => ReadInputRetMessage.getCrc
  | fnForceMultipleCoils => ForceCoilsRetMessage.getCrc
  | fnWriteOutputRegisters => WriteOutputRetMessage.getCrc
  | fnForceSingleCoil => ForceSingleCoilRetMessage.getCrc
  | fnWriteOutputSingleRegister => WriteSingleOutputRetMessage.getCrc
  | fnDiagnostics => DiagnosticRetMessage.getCrc
  | fnMEI => MEIMessageRetRDI.getCrc
  | fnSetDateTime => SetDateTimeRetMessage.getCrc
  | fnFileTransfer => FileTransferRetMessage.getCrc
  | fnJournalCommand | fnRemoteService => fun _ => return 0

/-- Of a device identification without a checksum there is nothing to check. -/
def check (crcNoCheckit : Bool) : SlaveFunctionCode → ModbusMessage → Codec Unit
  | fnMEI => fun rbuf =>
    if crcNoCheckit then return () else verifyCRC crcNoCheckit (getCrc fnMEI) rbuf
  | fnSetDateTime => fun rbuf => do
    verifyCRC crcNoCheckit (getCrc fnSetDateTime) rbuf
    let ok ← SetDateTimeMessage.checkFormat rbuf
    if ok then return () else .throw erBadDataValue
  | f => verifyCRC crcNoCheckit (getCrc f)

/-- The reply that the server gives to a request it refuses; what it returns is the code in it, even
if that code is none. -/
def recvError (crcNoCheckit : Bool) (r : Received) : Reception Received := do
  let r ← getNextData 0 r.rbuf.dlen r
  let em ← (ErrorRetMessage.init r.rbuf).mapError (·, r.channel)
  (verifyCRC crcNoCheckit (fun _ => return em.crc) r.rbuf).mapError (·, r.channel)
  if em.body.toNat = erNoError.code then return r
  else .throw (⟨em.body.toNat⟩, r.channel)

/-- `recv_pdu` that returns `erNoError` with the reply to a request of the function `qfunc`, or an
error.  The address has been received. -/
def recv_pdu (crcNoCheckit : Bool) (qfunc : ModbusByte) (rbuf : ModbusMessage) :
    List ModbusByte → Reception Received
  | [] => cleanupChannel erInvalidFormat
  | func :: channel =>
    let rbuf := { rbuf with func := func, bcnt := szModbusHeader }
    if func = qfunc ||| MBErrMask then
      recvError crcNoCheckit ⟨{ rbuf with dlen := withoutCRC crcNoCheckit 3 }, channel⟩
    else if qfunc ≠ func then cleanupChannel erUnExpectedPacketType
    else
      match ofByte func with
      | none => cleanupChannel erUnExpectedPacketType
      | some f =>
        match szFirst crcNoCheckit f with
        | none => cleanupChannel erUnExpectedPacketType
        | some dlen => do
          let r ← getNextData 0 dlen ⟨{ rbuf with dlen := dlen }, channel⟩
          let r ← getRest crcNoCheckit f r
          (check crcNoCheckit f r.rbuf).mapError (·, r.channel)
          return r

/-- The reply is made from the message, as the call that sent the request does. -/
def decode : SlaveFunctionCode → ModbusMessage → Codec Unit
  | fnReadCoilStatus => ReadCoilRetMessage.decode
  | fnReadInputStatus => ReadInputStatusRetMessage.decode
  | fnReadOutputRegisters => ReadOutputRetMessage.decode
  | fnReadInputRegisters => ReadInputRetMessage.decode
  | fnForceMultipleCoils => ForceCoilsRetMessage.decode
  | fnWriteOutputRegisters => WriteOutputRetMessage.decode
  | fnForceSingleCoil => ForceSingleCoilRetMessage.decode
  | fnWriteOutputSingleRegister => WriteSingleOutputRetMessage.decode
  | fnDiagnostics => DiagnosticRetMessage.decode
  | fnMEI => MEIMessageRetRDI.decode
  | fnSetDateTime => SetDateTimeRetMessage.decode
  | fnFileTransfer => FileTransferRetMessage.decode
  | fnJournalCommand | fnRemoteService => fun _ => return ()

/-- A reply is received and made from the message. -/
def recvReply (crcNoCheckit : Bool) (qfunc : ModbusByte) (rbuf : ModbusMessage)
    (channel : List ModbusByte) : Reception Received := do
  let r ← recv_pdu crcNoCheckit qfunc rbuf channel
  match ofByte qfunc with
  | none => return r
  | some f =>
    (decode f r.rbuf).mapError (·, r.channel)
    return r

end Uniset.Modbus.ModbusClient
