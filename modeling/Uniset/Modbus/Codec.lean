import Uniset.Modbus.CountedRoundTrip
import Uniset.Modbus.DeviceIdentification

/-! All messages that can be made, and which of them are read again as they were. -/

namespace Uniset.Modbus

open SlaveFunctionCode

inductive BitsOp
  | addData (d : ModbusByte)
  | setBit (dnum bnum : ModbusByte) (state : Bool)
  | setByBitNum (num : ModbusData) (state : Bool)

def BitsOp.apply (b : BitsBuffer) : BitsOp → BitsBuffer
  | .addData d => b.addData d
  | .setBit dnum bnum state => b.setBit dnum bnum state
  | .setByBitNum num state => b.setByBitNum num state

inductive CoilsOp
  | addData (d : ModbusByte)
  | addBit (state : Bool)
  | setBit (nbit : ModbusByte) (state : Bool)

/-- Bits are added until the message is full. -/
def CoilsOp.apply (w : WriteRequest ModbusByte) : CoilsOp → WriteRequest ModbusByte
  | .addData d => ForceCoilsMessage.addData w d
  | .addBit state => if ForceCoilsMessage.isFull w then w else ForceCoilsMessage.addBit w state
  | .setBit nbit state => ForceCoilsMessage.setBit w nbit state

/-- The messages, by the calls that make them. -/
inductive Made
  | error (addr func ecode : ModbusByte)
  | readCoil (addr : ModbusAddr) (start count : ModbusData)
  | readCoilRet (addr : ModbusAddr) (ops : List BitsOp)
  | readInputStatus (addr : ModbusAddr) (start count : ModbusData)
  | readInputStatusRet (addr : ModbusAddr) (ops : List BitsOp)
  | readOutput (addr : ModbusAddr) (start count : ModbusData)
  | readOutputRet (addr : ModbusAddr) (ds : List ModbusData)
  | readInput (addr : ModbusAddr) (start count : ModbusData)
  | readInputRet (addr : ModbusAddr) (ds : List ModbusData)
  | forceCoils (addr : ModbusAddr) (start : ModbusData) (ops : List CoilsOp)
  | forceCoilsRet (addr : ModbusAddr) (start quant : ModbusData)
  | writeOutput (addr : ModbusAddr) (start : ModbusData) (ds : List ModbusData)
  | writeOutputRet (addr : ModbusAddr) (start quant : ModbusData)
  | forceSingleCoil (addr : ModbusAddr) (reg : ModbusData) (cmd : Bool)
  | forceSingleCoilRet (addr : ModbusAddr) (start : ModbusData) (cmd : Bool)
  | writeSingleOutput (addr : ModbusAddr) (reg data : ModbusData)
  | writeSingleOutputRet (addr : ModbusAddr) (start data : ModbusData)
  | diagnostic (addr : ModbusAddr) (sf : DiagnosticsSubFunction) (d : ModbusData)
      (ds : List ModbusData)
  | diagnosticRet (addr : ModbusAddr) (sf : DiagnosticsSubFunction) (d : ModbusData)
      (ds : List ModbusData)
  | mei (addr : ModbusAddr) (devID objID : ModbusByte)
  | meiRet (addr : ModbusAddr) (devID conformity mf objID : ModbusByte) (os : List RDIObjectInfo)
  | journalRet (addr : ModbusAddr) (buf : List ModbusByte)
  | journalRetOK (addr : ModbusAddr) (cmd ecode : ModbusData)
  | setDateTime (addr : ModbusAddr) (dt : DateTime)
  | setDateTimeRet (addr : ModbusAddr) (dt : DateTime)
  | remoteServiceRet (addr : ModbusAddr) (buf : List ModbusByte)
  | fileTransfer (addr : ModbusAddr) (numfile numpacket : ModbusData)
  | fileTransferRet (addr : ModbusAddr) (nfile fpacks pack : ModbusData) (buf : List ModbusByte)
      (len : ModbusByte)

namespace Made

/-- The reply of a device identification with the objects added to it. -/
def objects (devID conformity mf objID : ModbusByte) (os : List RDIObjectInfo) : MEIRet :=
  os.foldl MEIMessageRetRDI.addData (MEIMessageRetRDI.new devID conformity mf objID)

/-- The message is put into a buffer and read from it as it was. -/
def RoundTrips : Made → Prop
  | error addr func ecode => ErrorRetMessage.RoundTrips ⟨addr, func ||| MBErrMask, ecode, 0⟩
  | readCoil addr start count =>
    ReadCoilMessage.RoundTrips ⟨addr, fnReadCoilStatus.code, ⟨start, count⟩, 0⟩
  | readCoilRet addr ops =>
    ReadCoilRetMessage.RoundTrips ⟨addr, fnReadCoilStatus.code, ops.foldl BitsOp.apply .clear, 0⟩
  | readInputStatus addr start count =>
    ReadInputStatusMessage.RoundTrips ⟨addr, fnReadInputStatus.code, ⟨start, count⟩, 0⟩
  | readInputStatusRet addr ops =>
    ReadInputStatusRetMessage.RoundTrips
      ⟨addr, fnReadInputStatus.code, ops.foldl BitsOp.apply .clear, 0⟩
  | readOutput addr start count =>
    ReadOutputMessage.RoundTrips ⟨addr, fnReadOutputRegisters.code, ⟨start, count⟩, 0⟩
  | readOutputRet addr ds =>
    ReadOutputRetMessage.RoundTrips
      ⟨addr, fnReadOutputRegisters.code, ds.foldl WordsRet.addData (.ofData []), 0⟩
  | readInput addr start count =>
    ReadInputMessage.RoundTrips ⟨addr, fnReadInputRegisters.code, ⟨start, count⟩, 0⟩
  | readInputRet addr ds =>
    ReadInputRetMessage.RoundTrips
      ⟨addr, fnReadInputRegisters.code, ds.foldl WordsRet.addData (.ofData []), 0⟩
  | forceCoils addr start ops =>
    ForceCoilsMessage.RoundTrips ⟨addr, fnForceMultipleCoils.code,
      ops.foldl CoilsOp.apply (ForceCoilsMessage.new start), 0⟩
  | forceCoilsRet addr start quant =>
    ForceCoilsRetMessage.RoundTrips ⟨addr, fnForceMultipleCoils.code, ⟨start, quant⟩, 0⟩
  | writeOutput addr start ds =>
    WriteOutputMessage.RoundTrips ⟨addr, fnWriteOutputRegisters.code,
      ds.foldl WriteOutputMessage.addData (WriteOutputMessage.new start), 0⟩
  | writeOutputRet addr start quant =>
    WriteOutputRetMessage.RoundTrips ⟨addr, fnWriteOutputRegisters.code, ⟨start, quant⟩, 0⟩
  | forceSingleCoil addr reg cmd =>
    ForceSingleCoilMessage.RoundTrips
      ⟨addr, fnForceSingleCoil.code, ⟨reg, ForceSingleCoil.data cmd⟩, 0⟩
  | forceSingleCoilRet addr start cmd =>
    ForceSingleCoilRetMessage.RoundTrips
      ⟨addr, fnForceSingleCoil.code, ⟨start, ForceSingleCoil.data cmd⟩, 0⟩
  | writeSingleOutput addr reg data =>
    WriteSingleOutputMessage.RoundTrips
      ⟨addr, fnWriteOutputSingleRegister.code, ⟨reg, data⟩, 0⟩
  | writeSingleOutputRet addr start data =>
    WriteSingleOutputRetMessage.RoundTrips
      ⟨addr, fnWriteOutputSingleRegister.code, ⟨start, data⟩, 0⟩
  | diagnostic addr sf d ds =>
    DiagnosticMessage.RoundTrips ⟨addr, fnDiagnostics.code,
      ds.foldl DiagnosticMessage.addData (DiagnosticMessage.new sf d), 0⟩
  | diagnosticRet addr sf d ds =>
    DiagnosticRetMessage.RoundTrips ⟨addr, fnDiagnostics.code,
      ds.foldl DiagnosticMessage.addData (DiagnosticMessage.new sf d), 0⟩
  | mei addr devID objID => MEIMessageRDI.RoundTrips ⟨addr, fnMEI.code, ⟨0x0E, devID, objID⟩, 0⟩
  | meiRet addr devID conformity mf objID os =>
    MEIMessageRetRDI.RoundTrips ⟨addr, fnMEI.code, objects devID conformity mf objID os, 0⟩
  | journalRet addr buf =>
    JournalCommandRetMessage.RoundTrips
      ⟨addr, fnJournalCommand.code, JournalCommandRetMessage.setData (.ofData []) buf, 0⟩
  | journalRetOK addr cmd ecode =>
    JournalCommandRetMessage.RoundTrips
      ⟨addr, fnJournalCommand.code, JournalCommandRetOK.set (.ofData []) cmd ecode, 0⟩
  | setDateTime addr dt => SetDateTimeMessage.RoundTrips ⟨addr, fnSetDateTime.code, dt, 0⟩
  | setDateTimeRet addr dt => SetDateTimeRetMessage.RoundTrips ⟨addr, fnSetDateTime.code, dt, 0⟩
  | remoteServiceRet addr buf =>
    RemoteServiceRetMessage.RoundTrips
      ⟨addr, fnRemoteService.code, RemoteServiceRetMessage.setData ⟨0, [], 0⟩ buf, 0⟩
  | fileTransfer addr numfile numpacket =>
    FileTransferMessage.RoundTrips ⟨addr, fnFileTransfer.code, ⟨numfile, numpacket⟩, 0⟩
  | fileTransferRet addr nfile fpacks pack buf len =>
    FileTransferRetMessage.RoundTrips
      ⟨addr, fnFileTransfer.code, FileTransferRetMessage.set nfile fpacks pack buf len, 0⟩

/-- Nothing of the message is cut off, left out or refused. -/
def Fits : Made → Prop
  | readCoil _ _ count | readInputStatus _ _ count => count.toNat ≤ MAXPDULEN * BitsPerByte
  | readOutput _ _ count | readInput _ _ count => count.toNat ≤ MAXDATALEN
  | readOutputRet _ ds | readInputRet _ ds => ds.length ≤ 127
  | diagnostic _ _ _ ds | diagnosticRet _ _ _ ds => ds = []
  | meiRet _ devID conformity mf objID os =>
    (∀ o ∈ (objects devID conformity mf objID os).dlist, o.val.length ≤ 255) ∧
      (objects devID conformity mf objID os).bcnt ≤ 502
  | setDateTime _ dt | setDateTimeRet _ dt => dt = ⟨0, 0, 0, 0, 0, 0, 0⟩
  | fileTransfer _ numfile numpacket => numfile.toNat < 256 ∧ numpacket.toNat < 256
  | journalRet _ _ | journalRetOK _ _ _ | remoteServiceRet _ _ => False
  | _ => True

theorem roundTrips_words {f : SlaveFunctionCode} {addr : ModbusAddr} {ds : List ModbusData} :
    (WordsRet.retType f).RoundTrips
      ⟨addr, f.code, ds.foldl WordsRet.addData (.ofData []), 0⟩ ↔ ds.length ≤ 127 := by
  rw [WordsRet.foldl_addData (Nat.zero_le _), List.nil_append]
  refine (WordsRet.roundTrips (List.length_take_le _ _)).trans ?_
  rw [List.length_take]
  change min 254 ds.length ≤ 127 ↔ _
  omega

theorem roundTrips_diagnostic {addr : ModbusAddr} {sf : DiagnosticsSubFunction} {d : ModbusData}
    {ds : List ModbusData} :
    DiagnosticMessage.RoundTrips ⟨addr, fnDiagnostics.code,
      ds.foldl DiagnosticMessage.addData (DiagnosticMessage.new sf d), 0⟩ ↔ ds = [] := by
  have hone : (DiagnosticMessage.new sf d).data.length = 1 := rfl
  obtain ⟨data, hdata, hlen⟩ := DiagnosticMessage.foldl_addData
    (d := DiagnosticMessage.new sf d) (by rw [hone]; decide) ds
  have hfits : data.length ≤ 124 → (DiagnosticMessage.RoundTrips
      ⟨addr, fnDiagnostics.code, ⟨sf.code, data⟩, 0⟩ ↔ data.length = 1) :=
    DiagnosticMessage.roundTrips
  rw [hdata]
  refine (hfits (by omega)).trans ?_
  rw [hlen, hone, ← List.length_eq_zero_iff]
  omega

theorem roundTrips_forceCoils {addr : ModbusAddr} {start : ModbusData} {ops : List CoilsOp} :
    ForceCoilsMessage.RoundTrips ⟨addr, fnForceMultipleCoils.code,
      ops.foldl CoilsOp.apply (ForceCoilsMessage.new start), 0⟩ := by
  apply ForceCoilsMessage.roundTrips
  have hcounted := ForceCoilsMessage.counted_new start
  generalize ForceCoilsMessage.new start = w at hcounted
  induction ops generalizing w with
  | nil => exact hcounted
  | cons op ops ih =>
    apply ih
    cases op with
    | addData d => exact ForceCoilsMessage.counted_addData hcounted d
    | addBit state =>
      unfold CoilsOp.apply
      dsimp only
      split_ifs with hfull
      · exact hcounted
      · exact ForceCoilsMessage.counted_addBit hcounted hfull state
    | setBit nbit state => exact ForceCoilsMessage.counted_setBit hcounted nbit state

theorem roundTrips_writeOutput {addr : ModbusAddr} {start : ModbusData} {ds : List ModbusData} :
    WriteOutputMessage.RoundTrips ⟨addr, fnWriteOutputRegisters.code,
      ds.foldl WriteOutputMessage.addData (WriteOutputMessage.new start), 0⟩ := by
  apply WriteOutputMessage.roundTrips
  have hcounted := WriteOutputMessage.counted_new start
  generalize WriteOutputMessage.new start = w at hcounted
  induction ds generalizing w with
  | nil => exact hcounted
  | cons d ds ih => exact ih _ (WriteOutputMessage.counted_addData hcounted d)

/-- A message that was made is read again as it was if and only if it fits. -/
theorem roundTrips_iff (x : Made) : x.RoundTrips ↔ x.Fits := by
  cases x with
  | error addr func ecode => exact iff_of_true ErrorRetMessage.roundTrips trivial
  | readCoil | readInputStatus | readOutput | readInput => exact TwoWords.roundTrips_request
  | readCoilRet | readInputStatusRet => exact iff_of_true BitsBuffer.roundTrips trivial
  | readOutputRet | readInputRet => exact roundTrips_words
  | forceCoils => exact iff_of_true roundTrips_forceCoils trivial
  | forceCoilsRet => exact iff_of_true TwoWords.roundTrips_forceCoilsRet trivial
  | writeOutput => exact iff_of_true roundTrips_writeOutput trivial
  | writeOutputRet => exact iff_of_true TwoWords.roundTrips_writeOutputRet trivial
  | forceSingleCoil => exact iff_of_true TwoWords.roundTrips_forceSingleCoil trivial
  | forceSingleCoilRet => exact iff_of_true TwoWords.roundTrips_forceSingleCoilRet trivial
  | writeSingleOutput => exact iff_of_true TwoWords.roundTrips_writeSingleOutput trivial
  | writeSingleOutputRet => exact iff_of_true TwoWords.roundTrips_writeSingleOutputRet trivial
  | diagnostic | diagnosticRet => exact roundTrips_diagnostic
  | mei => exact iff_of_true MEIMessageRDI.roundTrips trivial
  | meiRet addr devID conformity mf objID os =>
    exact MEIMessageRetRDI.roundTrips (MEIMessageRetRDI.listed_foldl _
      (MEIMessageRetRDI.listed_new devID conformity mf objID) os)
  | journalRet | journalRetOK | remoteServiceRet =>
    exact iff_of_false (MessageType.not_roundTrips_of_none rfl) id
  | setDateTime | setDateTimeRet => exact SetDateTimeMessage.roundTrips
  | fileTransfer => exact TwoWords.roundTrips_fileTransfer
  | fileTransferRet addr nfile fpacks pack buf len =>
    refine iff_of_true (FileTransferRetMessage.roundTrips ?_) trivial
    exact Nat.le_trans (List.length_take_le _ _) (Nat.le_of_lt_succ len.toNat_lt)

/-- The request of packet 256 of a file is read as that of packet 0. -/
theorem not_roundTrips : ¬∀ x : Made, x.RoundTrips := by
  intro h
  exact absurd (TwoWords.roundTrips_fileTransfer.mp (h (.fileTransfer 1 1 256))).2 (by decide)

end Made

end Uniset.Modbus
