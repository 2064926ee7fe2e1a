import Mathlib.Data.List.Basic
import Mathlib.Tactic.IntervalCases
import Uniset.Lib.Bytes
import Uniset.Lib.Checked

/-! The frame of the Modbus exchange: its words, its checksum and the errors of the exchange.
The host keeps the low byte of a word first. -/

namespace Uniset.Modbus

open Uniset.Lib

abbrev ModbusByte := UInt8
abbrev ModbusAddr := UInt8
abbrev ModbusData := UInt16
abbrev ModbusCRC := UInt16

def BitsPerByte : Nat := 8
def MAXLENPACKET : Nat := 508
def MAXPDULEN : Nat := 253
def MAXDATALEN : Nat := 125
def MBErrMask : ModbusByte := 0x80
def BroadcastAddr : ModbusAddr := 0

def sizeofModbusData : Nat := 2
def szCRC : Nat := 2
def szModbusHeader : Nat := 2

/-- The codes have names, but any number may be cast to the type. -/
structure mbErrCode where
  code : Nat
  deriving DecidableEq

def erNoError : mbErrCode := ⟨0⟩
def erUnExpectedPacketType : mbErrCode := ⟨1⟩
def erBadDataAddress : mbErrCode := ⟨2⟩
def erBadDataValue : mbErrCode := ⟨3⟩
def erHardwareError : mbErrCode := ⟨4⟩
def erOperationFailed : mbErrCode := ⟨7⟩
def erInternalErrorCode : mbErrCode := ⟨100⟩
def erInvalidFormat : mbErrCode := ⟨111⟩
def erBadCheckSum : mbErrCode := ⟨112⟩
def erBadReplyNodeAddress : mbErrCode := ⟨113⟩
def erTimeOut : mbErrCode := ⟨114⟩
def erPacketTooLong : mbErrCode := ⟨115⟩
def erSessionClosed : mbErrCode := ⟨116⟩

inductive SlaveFunctionCode
  | fnReadCoilStatus
  | fnReadInputStatus
  | fnReadOutputRegisters
  | fnReadInputRegisters
  | fnForceSingleCoil
  | fnWriteOutputSingleRegister
  | fnDiagnostics
  | fnForceMultipleCoils
  | fnWriteOutputRegisters
  | fnMEI
  | fnSetDateTime
  | fnRemoteService
  | fnJournalCommand
  | fnFileTransfer
  deriving DecidableEq

namespace SlaveFunctionCode

def code : SlaveFunctionCode → ModbusByte
  | fnReadCoilStatus => 0x01
  | fnReadInputStatus => 0x02
  | fnReadOutputRegisters => 0x03
  | fnReadInputRegisters => 0x04
  | fnForceSingleCoil => 0x05
  | fnWriteOutputSingleRegister => 0x06
  | fnDiagnostics => 0x08
  | fnForceMultipleCoils => 0x0F
  | fnWriteOutputRegisters => 0x10
  | fnMEI => 0x2B
  | fnSetDateTime => 0x50
  | fnRemoteService => 0x53
  | fnJournalCommand => 0x65
  | fnFileTransfer => 0x66

def all : List SlaveFunctionCode :=
  [fnReadCoilStatus, fnReadInputStatus, fnReadOutputRegisters, fnReadInputRegisters,
    fnForceSingleCoil, fnWriteOutputSingleRegister, fnDiagnostics, fnForceMultipleCoils,
    fnWriteOutputRegisters, fnMEI, fnSetDateTime, fnRemoteService, fnJournalCommand,
    fnFileTransfer]

/-- The function a byte stands for. -/
def ofByte (b : ModbusByte) : Option SlaveFunctionCode := all.find? (·.code = b)

@[simp] theorem ofByte_code (f : SlaveFunctionCode) : ofByte f.code = some f := by
  cases f <;> rfl

theorem code_of_ofByte {b : ModbusByte} {f : SlaveFunctionCode} (h : ofByte b = some f) :
    f.code = b := by
  have hfind := List.find?_some h
  exact of_decide_eq_true hfind

theorem code_inj {f g : SlaveFunctionCode} (h : f.code = g.code) : f = g := by
  apply Option.some.inj
  rw [← ofByte_code f, h, ofByte_code]

end SlaveFunctionCode

def SWAPSHORT (x : UInt16) : UInt16 :=
  ((x >>> 8) &&& (0xff : UInt16)) ||| ((x <<< 8) &&& (0xff00 : UInt16))

/-- Swapping twice changes nothing. -/
@[simp] theorem SWAPSHORT_SWAPSHORT (x : UInt16) : SWAPSHORT (SWAPSHORT x) = x := by
  apply UInt16.toBitVec_inj.mp
  unfold SWAPSHORT
  ext i hi
  interval_cases i <;> simp

/-- A word as it lies in memory. -/
def toMemory (x : UInt16) : List ModbusByte := [byteAt x.toNat 0, byteAt x.toNat 1]

def ofMemory (low high : ModbusByte) : UInt16 := UInt16.ofNat (low.toNat + high.toNat * 256)

@[simp] theorem ofMemory_byteAt (x : UInt16) :
    ofMemory (byteAt x.toNat 0) (byteAt x.toNat 1) = x := by
  apply UInt16.toNat_inj.mp
  have hx := x.toNat_lt
  simp [ofMemory]
  omega

@[simp] theorem toMemory_length (x : UInt16) : (toMemory x).length = 2 := rfl

def crc_16_tab : List UInt16 := [
  0x0000, 0xc0c1, 0xc181, 0x0140, 0xc301, 0x03c0, 0x0280, 0xc241, 0xc601, 0x06c0,
  0x0780, 0xc741, 0x0500, 0xc5c1, 0xc481, 0x0440, 0xcc01, 0x0cc0, 0x0d80, 0xcd41,
  0x0f00, 0xcfc1, 0xce81, 0x0e40, 0x0a00, 0xcac1, 0xcb81, 0x0b40, 0xc901, 0x09c0,
  0x0880, 0xc841, 0xd801, 0x18c0, 0x1980, 0xd941, 0x1b00, 0xdbc1, 0xda81, 0x1a40,
  0x1e00, 0xdec1, 0xdf81, 0x1f40, 0xdd01, 0x1dc0, 0x1c80, 0xdc41, 0x1400, 0xd4c1,
  0xd581, 0x1540, 0xd701, 0x17c0, 0x1680, 0xd641, 0xd201, 0x12c0, 0x1380, 0xd341,
  0x1100, 0xd1c1, 0xd081, 0x1040, 0xf001, 0x30c0, 0x3180, 0xf141, 0x3300, 0xf3c1,
  0xf281, 0x3240, 0x3600, 0xf6c1, 0xf781, 0x3740, 0xf501, 0x35c0, 0x3480, 0xf441,
  0x3c00, 0xfcc1, 0xfd81, 0x3d40, 0xff01, 0x3fc0, 0x3e80, 0xfe41, 0xfa01, 0x3ac0,
  0x3b80, 0xfb41, 0x3900, 0xf9c1, 0xf881, 0x3840, 0x2800, 0xe8c1, 0xe981, 0x2940,
  0xeb01, 0x2bc0, 0x2a80, 0xea41, 0xee01, 0x2ec0, 0x2f80, 0xef41, 0x2d00, 0xedc1,
  0xec81, 0x2c40, 0xe401, 0x24c0, 0x2580, 0xe541, 0x2700, 0xe7c1, 0xe681, 0x2640,
  0x2200, 0xe2c1, 0xe381, 0x2340, 0xe101, 0x21c0, 0x2080, 0xe041, 0xa001, 0x60c0,
  0x6180, 0xa141, 0x6300, 0xa3c1, 0xa281, 0x6240, 0x6600, 0xa6c1, 0xa781, 0x6740,
  0xa501, 0x65c0, 0x6480, 0xa441, 0x6c00, 0xacc1, 0xad81, 0x6d40, 0xaf01, 0x6fc0,
  0x6e80, 0xae41, 0xaa01, 0x6ac0, 0x6b80, 0xab41, 0x6900, 0xa9c1, 0xa881, 0x6840,
  0x7800, 0xb8c1, 0xb981, 0x7940, 0xbb01, 0x7bc0, 0x7a80, 0xba41, 0xbe01, 0x7ec0,
  0x7f80, 0xbf41, 0x7d00, 0xbdc1, 0xbc81, 0x7c40, 0xb401, 0x74c0, 0x7580, 0xb541,
  0x7700, 0xb7c1, 0xb681, 0x7640, 0x7200, 0xb2c1, 0xb381, 0x7340, 0xb101, 0x71c0,
  0x7080, 0xb041, 0x5000, 0x90c1, 0x9181, 0x5140, 0x9301, 0x53c0, 0x5280, 0x9241,
  0x9601, 0x56c0, 0x5780, 0x9741, 0x5500, 0x95c1, 0x9481, 0x5440, 0x9c01, 0x5cc0,
  0x5d80, 0x9d41, 0x5f00, 0x9fc1, 0x9e81, 0x5e40, 0x5a00, 0x9ac1, 0x9b81, 0x5b40,
  0x9901, 0x59c0, 0x5880, 0x9841, 0x8801, 0x48c0, 0x4980, 0x8941, 0x4b00, 0x8bc1,
  0x8a81, 0x4a40, 0x4e00, 0x8ec1, 0x8f81, 0x4f40, 0x8d01, 0x4dc0, 0x4c80, 0x8c41,
  0x4400, 0x84c1, 0x8581, 0x4540, 0x8701, 0x47c0, 0x4680, 0x8641, 0x8201, 0x42c0,
  0x4380, 0x8341, 0x4100, 0x81c1, 0x8081, 0x4040]

def get_crc_16 (crc : UInt16) (buf : List ModbusByte) : UInt16 :=
  buf.foldl (fun crc b =>
    (crc >>> 8) ^^^ crc_16_tab.getD ((crc ^^^ b.toUInt16) &&& (0xff : UInt16)).toNat 0) crc

def checkCRC (buf : List ModbusByte) : ModbusCRC := get_crc_16 0xffff buf

structure MBAPHeader where
  tID : ModbusData
  pID : ModbusData
  len : ModbusData
  deriving DecidableEq

/-- A message as it is sent and received.  `bcnt` is how many bytes of the frame, its address and
function included, are there: what lies behind them in `data` is left from earlier messages. -/
structure ModbusMessage where
  mbaphead : MBAPHeader
  addr : ModbusAddr
  func : ModbusByte
  data : List ModbusByte
  dlen : Nat
  bcnt : Nat
  deriving DecidableEq

/-- An access that is not allowed. -/
inductive Fault
  /-- A byte is read that does not belong to the frame received. -/
  | stale
  /-- A byte is written outside of the buffer or of the object. -/
  | overflow
  /-- An assertion fails. -/
  | assertion
  deriving DecidableEq

/-- What may throw an error code and reads or writes the memory of messages. -/
abbrev Codec := Checked Fault mbErrCode

def assert (p : Prop) [Decidable p] : Codec Unit := .require p .assertion

/-- A write up to place `hi` of an object of `size` bytes. -/
def write (hi size : Nat) : Codec Unit := .require (hi ≤ size) .overflow

namespace ModbusMessage

def new : ModbusMessage := ⟨⟨0, 0, 0⟩, 0, 0, List.replicate (MAXLENPACKET + szCRC) 0, 0, 0⟩

/-- The frame in memory, from its address on. -/
def frame (m : ModbusMessage) : List ModbusByte := m.addr :: m.func :: m.data

/-- The `n` bytes at place `off` of the frame. -/
def bytes (m : ModbusMessage) (off n : Nat) : Codec (List ModbusByte) := do
  .require (n = 0 ∨ off + n ≤ m.bcnt) .stale
  return (m.frame.drop off).take n

/-- The word at place `off` of the frame, in the order of memory. -/
def word (m : ModbusMessage) (off : Nat) : Codec ModbusData := do
  .require (off + sizeofModbusData ≤ m.bcnt) .stale
  return ofMemory (m.frame.getD off 0) (m.frame.getD (off + 1) 0)

/-- The byte `data[i]`. -/
def byte (m : ModbusMessage) (i : Nat) : Codec ModbusByte := do
  .require (szModbusHeader + i + 1 ≤ m.bcnt) .stale
  return m.data.getD i 0

def pduCRC (m : ModbusMessage) (clen : Nat) : Codec ModbusCRC := do
  let bs ← m.bytes 0 clen
  return checkCRC bs

/-- Puts the bytes of a message and their checksum into the buffer. -/
def put (m : ModbusMessage) (addr : ModbusAddr) (func : ModbusByte) (body : List ModbusByte)
    (dlen : Nat) : Codec ModbusMessage := do
  write (body.length + szCRC) (MAXLENPACKET + szCRC)
  return { m with
    addr := addr
    func := func
    data := body ++ toMemory (checkCRC (addr :: func :: body)) ++
      m.data.drop (body.length + szCRC)
    dlen := dlen
    bcnt := szModbusHeader + (body.length + szCRC) }

end ModbusMessage

end Uniset.Modbus

/-! The identifiers of registers, and the types of the values in them. -/

namespace Uniset.Modbus

open SlaveFunctionCode

/-- A number for a register and a function; registers that follow each other have numbers that do. -/
def genRegID (mbreg : ModbusData) (fn : ModbusByte) : Nat :=
  let reg_max := 65535
  reg_max + mbreg.toNat + reg_max * fn.toNat + 1

/-- The last register of a function has the number of the first of the next function. -/
theorem genRegID_eq_iff {r r' : ModbusData} {f f' : ModbusByte} :
    genRegID r f = genRegID r' f' ↔ (r = r' ∧ f = f') ∨
      (r.toNat = 65535 ∧ r'.toNat = 0 ∧ f'.toNat = f.toNat + 1) ∨
      (r'.toNat = 65535 ∧ r.toNat = 0 ∧ f.toNat = f'.toNat + 1) := by
  have hr := r.toNat_lt
  have hr' := r'.toNat_lt
  rw [← UInt16.toNat_inj, ← UInt8.toNat_inj]
  unfold genRegID
  dsimp only
  omega

/-- A number that follows another one is that of the next register of the function, or goes over to
the next function. -/
theorem genRegID_eq_succ_iff {r r' : ModbusData} {f f' : ModbusByte} :
    genRegID r' f' = genRegID r f + 1 ↔ (r'.toNat = r.toNat + 1 ∧ f' = f) ∨
      (r'.toNat + 65535 = r.toNat + 1 ∧ f'.toNat = f.toNat + 1) := by
  have hr := r.toNat_lt
  have hr' := r'.toNat_lt
  rw [← UInt8.toNat_inj]
  unfold genRegID
  dsimp only
  omega

def isWriteFunction (c : ModbusByte) : Bool :=
  c = fnWriteOutputRegisters.code ∨ c = fnWriteOutputSingleRegister.code ∨
    c = fnForceSingleCoil.code ∨ c = fnForceMultipleCoils.code

/-- The types of the values that sensors have in registers. -/
inductive VType
  | vtUnknown
  | vtF2
  | vtF2r
  | vtF4
  | vtByte
  | vtUnsigned
  | vtSigned
  | vtI2
  | vtI2r
  | vtU2
  | vtU2r
  deriving DecidableEq

namespace VType

/-- How many words a value has. -/
def wsize : VType → Nat
  | vtF2 | vtF2r | vtI2 | vtI2r | vtU2 | vtU2r => 2
  | vtF4 => 4
  | vtUnknown | vtByte | vtUnsigned | vtSigned => 1

theorem one_le_wsize (v : VType) : 1 ≤ v.wsize := by
  cases v <;> decide

theorem wsize_le (v : VType) : v.wsize ≤ 4 := by
  cases v <;> decide

end VType

end Uniset.Modbus
