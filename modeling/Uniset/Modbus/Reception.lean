import Uniset.Modbus.ModbusTypes

/-! How the bytes of a message are taken from a channel and checked.  A channel gives as many bytes
as it is asked for or, when they do not come in time, those that it has. -/

namespace Uniset.Modbus

open Uniset.Lib

/-- What may fail with an error code and what is left in the channel then. -/
abbrev Reception := Checked Fault (mbErrCode × List ModbusByte)

/-- The message so far and the bytes that are in the channel. -/
structure Received where
  rbuf : ModbusMessage
  channel : List ModbusByte
  deriving DecidableEq

variable {α : Type}

/-- Drops what is in the channel and fails. -/
def cleanupChannel (err : mbErrCode) : Reception α := .throw (err, [])

/-- `bs` in `data` from place `off` on. -/
def ModbusMessage.store (m : ModbusMessage) (off : Nat) (bs : List ModbusByte) : ModbusMessage :=
  { m with
    data := m.data.take off ++ bs ++ m.data.drop (off + bs.length)
    bcnt := szModbusHeader + (off + bs.length) }

/-- `getNextData` of `len` bytes into `data` from place `off` on; less of them is no message. -/
def getNextData (off len : Nat) (r : Received) : Reception Received := do
  let bs := r.channel.take len
  .require (off + bs.length ≤ MAXLENPACKET + szCRC) .overflow
  if bs.length < len then cleanupChannel erInvalidFormat
  else return ⟨r.rbuf.store off bs, r.channel.drop len⟩

/-- The bytes of a message that carries a checksum, if none is sent. -/
def withoutCRC (crcNoCheckit : Bool) (szData : Nat) : Nat :=
  if crcNoCheckit then szData - szCRC else szData

/-- The rest of a message whose first `rlen` bytes say how much it is. -/
def getRestOfData (crcNoCheckit : Bool) (getDataLen : ModbusMessage → Codec Nat) (r : Received) :
    Reception Received := do
  let rlen := r.rbuf.dlen
  let len ← (getDataLen r.rbuf).mapError (·, r.channel)
  let r ← getNextData rlen (withoutCRC crcNoCheckit (len + szCRC)) r
  return { r with rbuf.dlen := r.rbuf.bcnt - szModbusHeader }

/-- The checksum is taken from the message in either case, but only compared if it is sent. -/
def verifyCRC (crcNoCheckit : Bool) (getCrc : ModbusMessage → Codec ModbusCRC)
    (rbuf : ModbusMessage) : Codec Unit := do
  let mcrc ← getCrc rbuf
  if crcNoCheckit then return ()
  else
    let tcrc ← rbuf.pduCRC (rbuf.bcnt - szCRC)
    if tcrc ≠ mcrc then .throw erBadCheckSum else return ()

/-- `data[i]` as a length. -/
def getDataLenAt (i : Nat) (m : ModbusMessage) : Codec Nat := do
  if m.dlen = 0 then return 0
  else
    let n ← m.byte i
    return n.toNat

/-- An unknown function has no data. -/
def DiagnosticMessage.getDataLen (m : ModbusMessage) : Codec Nat := do
  if m.dlen = 0 then return 0
  else
    let sf ← m.word szModbusHeader
    match szRequestDiagnosticData (SWAPSHORT sf) with
    | some sz => return sz * sizeofModbusData
    | none => return 0

/-- The count of the bytes of a part of a file. -/
def FileTransferRetMessage.getDataLen (m : ModbusMessage) : Codec Nat := do
  let n ← m.byte 0
  return n.toNat

/-- Makes a message of the type, if it has a constructor for that. -/
def MessageType.decode {β : Type} (T : MessageType β) (m : ModbusMessage) : Codec Unit :=
  match T.init with
  | some init => do
    let _ ← init m
    return ()
  | none => return ()

end Uniset.Modbus
