import Uniset.Modbus.Exchange

/-! All calls of the client, and what each returns when a server with its address is on the line. -/

namespace Uniset.Modbus

open Uniset.Lib SlaveFunctionCode

/-! The frames of the requests and of the replies. -/

section Frames

variable {addr : ModbusAddr} {f : SlaveFunctionCode} {body : List ModbusByte}

namespace TwoWords

variable {start count : ModbusData}

theorem bytes_length : (bytes start count).length = 4 := rfl

theorem framed_request {limit : Nat} (hcount : count.toNat ≤ limit) :
    (requestType f limit).Framed ⟨addr, f.code, ⟨start, count⟩, 0⟩ (initCounted f limit)
      (bytes start count) :=
  (roundTrips_request.mpr hcount).framed rfl (fun _ => rfl) (Nat.le_of_ble_eq_true rfl)

theorem framed_forceSingleCoil {cmd : Bool} :
    ForceSingleCoilMessage.Framed
      ⟨addr, fnForceSingleCoil.code, ⟨start, ForceSingleCoil.data cmd⟩, 0⟩
      (initWithCRC fnForceSingleCoil) (bytes start (ForceSingleCoil.data cmd)) := by
  refine roundTrips_forceSingleCoil.framed rfl (fun mm => ?_) (Nat.le_of_ble_eq_true rfl)
  change (make_to _ _ _ (ForceSingleCoil.data (ForceSingleCoil.cmd _)) mm).value = _
  rw [ForceSingleCoil.cmd_data]
  rfl

theorem framed_forceSingleCoilRet {cmd : Bool} :
    ForceSingleCoilRetMessage.Framed
      ⟨addr, fnForceSingleCoil.code, ⟨start, ForceSingleCoil.data cmd⟩, 0⟩ initPlain
      (bytes start (ForceSingleCoil.data cmd)) := by
  refine roundTrips_forceSingleCoilRet.framed rfl (fun mm => ?_) (Nat.le_of_ble_eq_true rfl)
  change (make_to _ _ _ (ForceSingleCoil.data (ForceSingleCoil.cmd _)) mm).value = _
  rw [ForceSingleCoil.cmd_data]
  rfl

theorem framed_writeSingleOutput :
    WriteSingleOutputMessage.Framed ⟨addr, fnWriteOutputSingleRegister.code, ⟨start, count⟩, 0⟩
      (initWithCRC fnWriteOutputSingleRegister) (bytes start count) :=
  roundTrips_writeSingleOutput.framed rfl (fun _ => rfl) (Nat.le_of_ble_eq_true rfl)

theorem framed_writeSingleOutputRet :
    WriteSingleOutputRetMessage.Framed ⟨addr, fnWriteOutputSingleRegister.code, ⟨start, count⟩, 0⟩
      initPlain (bytes start count) :=
  roundTrips_writeSingleOutputRet.framed rfl (fun _ => rfl) (Nat.le_of_ble_eq_true rfl)

theorem framed_forceCoilsRet :
    ForceCoilsRetMessage.Framed ⟨addr, fnForceMultipleCoils.code, ⟨start, count⟩, 0⟩
      (initCopied fnForceMultipleCoils) (bytes start count) :=
  roundTrips_forceCoilsRet.framed rfl (fun _ => rfl) (Nat.le_of_ble_eq_true rfl)

theorem framed_writeOutputRet :
    WriteOutputRetMessage.Framed ⟨addr, fnWriteOutputRegisters.code, ⟨start, count⟩, 0⟩
      (initCopied fnWriteOutputRegisters) (bytes start count) :=
  roundTrips_writeOutputRet.framed rfl (fun _ => rfl) (Nat.le_of_ble_eq_true rfl)

/-- The numbers of a file and a packet that are bytes. -/
theorem framed_fileTransfer (hstart : start.toNat < 256) (hcount : count.toNat < 256) :
    FileTransferMessage.Framed ⟨addr, fnFileTransfer.code, ⟨start, count⟩, 0⟩
      FileTransferMessage.init (bytes start count) := by
  refine (roundTrips_fileTransfer.mpr ⟨hstart, hcount⟩).framed rfl (fun mm => ?_)
    (Nat.le_of_ble_eq_true rfl)
  change (make_to _ _ start.toUInt8.toUInt16 count.toUInt8.toUInt16 mm).value = _
  rw [toUInt8_toUInt16.mpr hstart, toUInt8_toUInt16.mpr hcount]
  rfl

end TwoWords

theorem BitsBuffer.framed {b : BitsBuffer} :
    (retType f).Framed ⟨addr, f.code, b, 0⟩ (init f) (b.bcnt :: b.data) := by
  have hfits : b.data.length ≤ 253 := b.fits
  refine roundTrips.framed rfl (fun mm => ?_) ?_
  · rw [List.length_cons, ← toNat_bcnt, Nat.add_comm _ 1]
    rfl
  · rw [List.length_cons]
    exact Nat.le_trans (Nat.succ_le_succ hfits) (by decide)

theorem WordsRet.framed {ds : List ModbusData} (hlen : ds.length ≤ 127) :
    (retType f).Framed ⟨addr, f.code, ofData ds, 0⟩ (init f) (ofData ds).bytes := by
  have hle : ds.length ≤ MAXLENPACKET / sizeofModbusData := Nat.le_trans hlen (by decide)
  refine ((roundTrips hle).mpr hlen).framed rfl (fun mm => ?_) ?_
  · rw [bytes_length]
    rfl
  · have := (ofData ds).bcnt.toNat_lt
    rw [bytes_length]
    exact Nat.le_trans (Nat.add_le_add_left (Nat.le_of_lt this) 1) (by decide)

namespace ForceCoilsMessage

def bytes (w : WriteRequest ModbusByte) : List ModbusByte :=
  TwoWords.bytes w.start w.quant ++ w.bcnt :: w.data

variable {w : WriteRequest ModbusByte} (h : Counted w)
include h

theorem bytes_length : (bytes w).length = 5 + w.bcnt.toNat := by
  rw [bytes, List.length_append, List.length_cons, TwoWords.bytes_length, h.count]
  omega

theorem framed : Modbus.ForceCoilsMessage.Framed ⟨addr, fnForceMultipleCoils.code, w, 0⟩ init
    (bytes w) := by
  have hfits : w.data.length ≤ 253 := h.fits
  have hcount := h.count
  refine (roundTrips h).framed rfl (fun mm => ?_) ?_
  · have htake : w.data.take w.bcnt.toNat = w.data := by rw [hcount, List.take_length]
    rw [bytes_length h, bytes, ← congrArg (TwoWords.bytes w.start w.quant ++ w.bcnt :: ·) htake]
    rfl
  · rw [bytes_length h, hcount]
    change _ ≤ 508
    omega

end ForceCoilsMessage

namespace WriteOutputMessage

def bytes (w : WriteRequest ModbusData) : List ModbusByte :=
  TwoWords.bytes w.start w.quant ++ w.bcnt :: swapped w.data

variable {w : WriteRequest ModbusData} (h : Counted w)
include h

theorem bytes_length : (bytes w).length = 5 + w.bcnt.toNat := by
  rw [bytes, List.length_append, List.length_cons, TwoWords.bytes_length, swapped_length,
    h.toNat_bcnt]
  change 4 + (_ * 2 + 1) = _
  omega

theorem framed : Modbus.WriteOutputMessage.Framed ⟨addr, fnWriteOutputRegisters.code, w, 0⟩ init
    (bytes w) := by
  have hbcnt := h.toNat_bcnt
  have hfits : w.data.length ≤ 125 := h.fits
  have htake : (swapped (w.data.take w.quant.toNat)).take w.bcnt.toNat = swapped w.data := by
    rw [h.quant, List.take_length, hbcnt]
    exact List.take_of_length_le (by rw [swapped_length]; rfl)
  refine (roundTrips h).framed rfl (fun mm => ?_) ?_
  · have hput : (MessageType.transport_msg_to Modbus.WriteOutputMessage
        ⟨addr, fnWriteOutputRegisters.code, w, 0⟩ mm).value =
        (mm.put addr fnWriteOutputRegisters.code (TwoWords.bytes w.start w.quant ++
          w.bcnt :: (swapped (w.data.take w.quant.toNat)).take w.bcnt.toNat)
          (5 + w.bcnt.toNat + szCRC)).value := by
      rw [h.bcnt]
      rfl
    rw [hput, htake, bytes_length h, bytes]
  · rw [bytes_length h, hbcnt]
    change _ ≤ 508
    omega

/-- The counts in the request agree. -/
theorem inOrder_bytes : InOrder fnWriteOutputRegisters (bytes w) := by
  change w.bcnt.toNat = (SWAPSHORT (wordOf (bytes w) 2)).toNat * 2
  have hquant : SWAPSHORT (wordOf (bytes w) 2) = w.quant :=
    (congrArg SWAPSHORT (ofMemory_byteAt _)).trans (SWAPSHORT_SWAPSHORT w.quant)
  rw [hquant, h.quant, h.toNat_bcnt]

end WriteOutputMessage

namespace DiagnosticMessage

variable {sf : DiagnosticsSubFunction} {d : ModbusData}

def bytes (sf : DiagnosticsSubFunction) (d : ModbusData) : List ModbusByte :=
  TwoWords.bytes sf.code d

theorem framed : Modbus.DiagnosticMessage.Framed ⟨addr, fnDiagnostics.code, new sf d, 0⟩ init
    (bytes sf d) :=
  ((@roundTrips addr sf [d] (Nat.le_of_ble_eq_true rfl)).mpr rfl).framed rfl (fun _ => rfl)
    (Nat.le_of_ble_eq_true rfl)

theorem subf_bytes (xs : List ModbusByte) :
    szDiagnosticData (SWAPSHORT (wordOf (bytes sf d ++ xs) 0)) = 2 := by
  have hsf : SWAPSHORT (wordOf (bytes sf d ++ xs) 0) = sf.code :=
    (congrArg SWAPSHORT (ofMemory_byteAt _)).trans (SWAPSHORT_SWAPSHORT sf.code)
  rw [hsf, szDiagnosticData, szRequestDiagnosticData_code]
  rfl

end DiagnosticMessage

theorem MEIMessageRDI.framed {devID objID : ModbusByte} :
    MEIMessageRDI.Framed ⟨addr, fnMEI.code, ⟨0x0E, devID, objID⟩, 0⟩ init [0x0E, devID, objID] :=
  roundTrips.framed rfl (fun _ => rfl) (Nat.le_of_ble_eq_true rfl)

theorem MEIMessageRetRDI.framed {r : MEIRet} (h : Listed r)
    (hvals : ∀ o ∈ r.dlist, o.val.length ≤ 255) (hlen : r.bcnt ≤ 502) :
    MEIMessageRetRDI.Framed ⟨addr, fnMEI.code, r, 0⟩ init (bytes r) := by
  refine ((roundTrips h).mpr ⟨hvals, hlen⟩).framed rfl (fun mm => ?_) ?_
  · rw [bytes_length h, bytes, ← h.objects_eq, h.bcnt, size, ← h.objects_eq]
    rfl
  · rw [bytes_length h]
    change _ ≤ 508
    omega

theorem FileTransferRetMessage.framed {p : FilePart} (hlen : p.data.length ≤ 255) :
    FileTransferRetMessage.Framed ⟨addr, fnFileTransfer.code, p, 0⟩ init (bytes p) := by
  refine (roundTrips hlen).framed rfl (fun mm => ?_) ?_
  · rw [bytes_length]
    rfl
  · rw [bytes_length]
    change _ ≤ 508
    omega

end Frames

/-! The replies are as long as the client expects. -/

namespace ModbusClient

variable {f : SlaveFunctionCode} {body : List ModbusByte}

theorem replies_four (hf : ∀ s, readLen f s = 4) (hkind : f ≠ fnMEI) (hlen : body.length = 4) :
    Replies f body :=
  fun xs => ⟨(hf (body ++ xs)).trans hlen.symm, fun h => absurd h hkind⟩

theorem replies_counted (hf : ∀ s, readLen f s = 1 + (s.getD 0 0).toNat) (hkind : f ≠ fnMEI)
    {b : ModbusByte} (hlen : b.toNat = body.length) : Replies f (b :: body) := by
  intro xs
  refine ⟨?_, fun h => absurd h hkind⟩
  rw [hf, List.cons_append, List.getD_cons_zero, hlen, List.length_cons, Nat.add_comm]

theorem replies_words (hf : ∀ s, readLen f s = 1 + (s.getD 0 0).toNat) (hkind : f ≠ fnMEI)
    (ds : List ModbusData) : Replies f (WordsRet.ofData ds).bytes := by
  apply replies_counted hf hkind
  have hlen := WordsRet.bytes_length ds
  rw [WordsRet.bytes, List.length_cons] at hlen
  omega

theorem replies_diagnostic (sf : DiagnosticsSubFunction) (d : ModbusData) :
    Replies fnDiagnostics (DiagnosticMessage.bytes sf d) := by
  refine fun xs => ⟨?_, SlaveFunctionCode.noConfusion⟩
  change 2 + szDiagnosticData _ = _
  rw [DiagnosticMessage.subf_bytes]
  rfl

theorem replies_filePart {p : FilePart} (hlen : p.data.length ≤ 248) :
    Replies fnFileTransfer (FileTransferRetMessage.bytes p) := by
  apply replies_counted (fun _ => rfl) SlaveFunctionCode.noConfusion
  have hsz := FileTransferRetMessage.bytes_length p
  rw [FileTransferRetMessage.bytes, List.length_cons] at hsz
  rw [UInt8.toNat_ofNat', Nat.eq_sub_of_add_eq hsz]
  simp only [FileTransferRetMessage.szData, sizeofModbusData, szCRC]
  omega

open MEIMessageRetRDI in
/-- Objects for which there is place are all read. -/
theorem objectsLoop_flat (os : List RDIObjectInfo) (hvals : ∀ o ∈ os, o.val.length ≤ 255)
    (pre xs : List ModbusByte) (hlen : pre.length + size os ≤ 508) :
    objectsLoop (pre ++ (flat os ++ xs)) os.length pre.length = (pre.length + size os, 0) := by
  induction os generalizing pre with
  | nil => rfl
  | cons o os ih =>
    have hval : (UInt8.ofNat o.val.length).toNat = o.val.length := by
      have := hvals o (List.mem_cons_self ..)
      rw [UInt8.toNat_ofNat']
      omega
    have hnext := ih (fun o' ho' => hvals o' (List.mem_cons_of_mem _ ho'))
      (pre ++ o.id :: UInt8.ofNat o.val.length :: o.val)
    rw [List.length_append, List.length_cons, List.length_cons] at hnext
    rw [size_cons] at hlen ⊢
    have hflat : pre ++ o.id :: UInt8.ofNat o.val.length :: o.val ++ (flat os ++ xs) =
        pre ++ (flat (o :: os) ++ xs) := by
      simp only [flat, List.flatMap_cons, List.append_assoc, List.cons_append]
    have hget : (pre ++ (flat (o :: os) ++ xs)).getD (pre.length + 1) 0 =
        UInt8.ofNat o.val.length := by
      rw [List.getD_append_right _ _ _ _ (Nat.le_add_right _ 1), Nat.add_sub_cancel_left]
      rfl
    rw [hflat] at hnext
    change (if pre.length + 2 < 510 then _ else _) = _
    rw [if_pos (by omega), hget, hval]
    rw [show pre.length + 2 + o.val.length = pre.length + (o.val.length + 1 + 1) by omega,
      hnext (by omega)]
    exact congrArg (·, 0) (by omega)

theorem replies_mei {r : MEIRet} (h : MEIMessageRetRDI.Listed r)
    (hvals : ∀ o ∈ r.dlist, o.val.length ≤ 255) (hlen : r.bcnt ≤ 502) :
    Replies fnMEI (MEIMessageRetRDI.bytes r) := by
  intro xs
  refine ⟨?_, fun _ => h.type⟩
  have hloop := objectsLoop_flat r.dlist hvals
    [r.type, r.devID, r.conformity, r.mf, r.objID, r.objNum] xs
  rw [← h.bcnt] at hloop
  have hread : readLen fnMEI (MEIMessageRetRDI.bytes r ++ xs) =
      (objectsLoop (MEIMessageRetRDI.bytes r ++ xs) r.objNum.toNat 6).1 := rfl
  rw [hread, h.toNat_objNum, MEIMessageRetRDI.bytes_length h]
  exact congrArg Prod.fst (hloop (by simp only [List.length_cons, List.length_nil]; omega))

end ModbusClient

/-- The calls.  A request that writes is made by adding to it. -/
inductive Call
  | read01 (addr : ModbusAddr) (start count : ModbusData)
  | read02 (addr : ModbusAddr) (start count : ModbusData)
  | read03 (addr : ModbusAddr) (start count : ModbusData)
  | read04 (addr : ModbusAddr) (start count : ModbusData)
  | write05 (addr : ModbusAddr) (start : ModbusData) (cmd : Bool)
  | write06 (addr : ModbusAddr) (start data : ModbusData)
  | write0F (addr : ModbusAddr) (start : ModbusData) (ops : List CoilsOp)
  | write10 (addr : ModbusAddr) (start : ModbusData) (ds : List ModbusData)
  | diag08 (addr : ModbusAddr) (subfunc : DiagnosticsSubFunction) (dat : ModbusData)
  | read4314 (addr : ModbusAddr) (devID objID : ModbusByte)
  | setDateTime (addr : ModbusAddr) (dt : DateTime)
  | partOfFileTransfer (addr : ModbusAddr) (idFile numpack : ModbusData)

namespace Call

def remote : Call → Remote
  | read01 addr start count => ModbusClient.read01 addr start count
  | read02 addr start count => ModbusClient.read02 addr start count
  | read03 addr start count => ModbusClient.read03 addr start count
  | read04 addr start count => ModbusClient.read04 addr start count
  | write05 addr start cmd => ModbusClient.write05 addr start cmd
  | write06 addr start data => ModbusClient.write06 addr start data
  | write0F addr start ops =>
    ModbusClient.write0F addr (ops.foldl CoilsOp.apply (ForceCoilsMessage.new start))
  | write10 addr start ds =>
    ModbusClient.write10 addr (ds.foldl WriteOutputMessage.addData (WriteOutputMessage.new start))
  | diag08 addr subfunc dat => ModbusClient.diag08 addr subfunc dat
  | read4314 addr devID objID => ModbusClient.read4314 addr devID objID
  | setDateTime addr dt => ModbusClient.setDateTime addr dt
  | partOfFileTransfer addr idFile numpack => ModbusClient.partOfFileTransfer addr idFile numpack

/-- Not more is asked for than the server takes a request for. -/
def Served : Call → Prop
  | read01 _ _ count | read02 _ _ count => count.toNat ≤ MAXPDULEN * BitsPerByte
  | read03 _ _ count | read04 _ _ count => count.toNat ≤ MAXDATALEN
  | _ => True

instance (c : Call) : Decidable c.Served := by
  unfold Served
  cases c <;> infer_instance

/-- The replies that go into a frame, and are made again from it. -/
def Fits : (c : Call) → c.remote.γ → Prop
  | read03 .. | read04 .. => fun reply : WordsRet => ∃ ds, reply = .ofData ds ∧ ds.length ≤ 127
  | write05 .. => fun reply : TwoWords => ∃ cmd, reply.count = ForceSingleCoil.data cmd
  | diag08 .. => fun reply : Diagnostic => ∃ sf d, reply = DiagnosticMessage.new sf d
  | read4314 .. => fun reply : MEIRet => MEIMessageRetRDI.Listed reply ∧
      (∀ o ∈ reply.dlist, o.val.length ≤ 255) ∧ reply.bcnt ≤ 502
  | partOfFileTransfer .. => fun reply : FilePart => reply.data.length ≤ 248
  | _ => fun _ => True

/-- What a call returns by what the handler of the server returns.  The time is never set, and the
server does not answer when it is asked for too much. -/
def outcome (c : Call) (handled : mbErrCode × c.remote.γ) :
    Except mbErrCode (Message c.remote.γ) :=
  if c.remote.func = fnSetDateTime then .error erBadDataValue
  else if c.Served then c.remote.outcome handled
  else .error erTimeOut

open ModbusServer ModbusClient

variable {h : Handlers} {vaddr : List ModbusAddr} {qbuf : ModbusMessage}

theorem counted_coils (start : ModbusData) (ops : List CoilsOp) : ForceCoilsMessage.Counted
    (ops.foldl CoilsOp.apply (ForceCoilsMessage.new start)) := by
  refine List.foldlRecOn ops _ (ForceCoilsMessage.counted_new start) fun w hw op _ => ?_
  cases op with
  | addData d => exact ForceCoilsMessage.counted_addData hw d
  | addBit state =>
    unfold CoilsOp.apply
    dsimp only
    split
    · exact hw
    · exact ForceCoilsMessage.counted_addBit hw ‹_› state
  | setBit nbit state => exact ForceCoilsMessage.counted_setBit hw nbit state

theorem counted_registers (start : ModbusData) (ds : List ModbusData) : WriteOutputMessage.Counted
    (ds.foldl WriteOutputMessage.addData (WriteOutputMessage.new start)) :=
  List.foldlRecOn ds _ (WriteOutputMessage.counted_new start) fun _ hw d _ =>
    WriteOutputMessage.counted_addData hw d

/-- A request that the server makes from its frame is answered by the handler. -/
theorem returns_served (c : Call) (hf : c.remote.func ≠ fnSetDateTime) (hserved : c.Served)
    (haddr : checkAddr vaddr c.remote.msg.addr)
    (hfits : ∀ v, v.Same c.remote.msg → (c.remote.handler h v).1 = erNoError →
      c.Fits (c.remote.handler h v).2) (hhead : qbuf.mbaphead.len = 0) (qreply : ModbusMessage) :
    ∃ v, v.Same c.remote.msg ∧
      c.remote.returns (c.remote.call false (realReceive false vaddr h) qbuf qreply) =
        c.remote.outcome (c.remote.handler h v) := by
  cases c with
  | read01 addr start count | read02 addr start count =>
    refine Remote.returns_call (TwoWords.framed_request hserved) rfl rfl hf trivial rfl rfl haddr
      (fun v _ _ => ⟨_, BitsBuffer.framed, ?_⟩) hhead qreply
    exact replies_counted (fun _ => rfl) SlaveFunctionCode.noConfusion (BitsBuffer.toNat_bcnt _)
  | read03 addr start count | read04 addr start count =>
    refine Remote.returns_call (TwoWords.framed_request hserved) rfl rfl hf trivial rfl rfl haddr
      (fun v hsame hok => ?_) hhead qreply
    obtain ⟨ds, hds, hlen⟩ := hfits v hsame hok
    rw [hds]
    exact ⟨_, WordsRet.framed hlen,
      replies_words (fun _ => rfl) SlaveFunctionCode.noConfusion ds⟩
  | write05 addr start cmd =>
    refine Remote.returns_call TwoWords.framed_forceSingleCoil rfl rfl hf trivial rfl rfl haddr
      (fun v hsame hok => ?_) hhead qreply
    obtain ⟨cmd', hcmd⟩ := hfits v hsame hok
    have hR := @TwoWords.framed_forceSingleCoilRet addr
      ((ModbusClient.write05 addr start cmd).handler h v).2.start cmd'
    rw [← hcmd] at hR
    exact ⟨_, hR, replies_four (fun _ => rfl) SlaveFunctionCode.noConfusion rfl⟩
  | write06 addr start data =>
    exact Remote.returns_call TwoWords.framed_writeSingleOutput rfl rfl hf trivial rfl rfl haddr
      (fun v _ _ => ⟨_, TwoWords.framed_writeSingleOutputRet,
        replies_four (fun _ => rfl) SlaveFunctionCode.noConfusion rfl⟩) hhead qreply
  | write0F addr start ops =>
    have hcounted := counted_coils start ops
    exact Remote.returns_call (ForceCoilsMessage.framed hcounted) rfl
      (ForceCoilsMessage.bytes_length hcounted) hf trivial rfl rfl haddr
      (fun v _ _ => ⟨_, TwoWords.framed_forceCoilsRet,
        replies_four (fun _ => rfl) SlaveFunctionCode.noConfusion rfl⟩) hhead qreply
  | write10 addr start ds =>
    have hcounted := counted_registers start ds
    exact Remote.returns_call (WriteOutputMessage.framed hcounted) rfl
      (WriteOutputMessage.bytes_length hcounted) hf (WriteOutputMessage.inOrder_bytes hcounted)
      rfl rfl haddr (fun v _ _ => ⟨_, TwoWords.framed_writeOutputRet,
        replies_four (fun _ => rfl) SlaveFunctionCode.noConfusion rfl⟩) hhead qreply
  | diag08 addr subfunc dat =>
    refine Remote.returns_call DiagnosticMessage.framed rfl ?_ hf trivial rfl rfl haddr
      (fun v hsame hok => ?_) hhead qreply
    · have hsz := @DiagnosticMessage.subf_bytes subfunc dat []
      rw [List.append_nil] at hsz
      exact (congrArg (2 + ·) hsz).symm
    obtain ⟨sf, d, hreply⟩ := hfits v hsame hok
    rw [hreply]
    exact ⟨_, DiagnosticMessage.framed, replies_diagnostic sf d⟩
  | read4314 addr devID objID =>
    refine Remote.returns_call MEIMessageRDI.framed rfl rfl hf trivial rfl rfl haddr
      (fun v hsame hok => ?_) hhead qreply
    obtain ⟨hlisted, hvals, hlen⟩ := hfits v hsame hok
    exact ⟨_, MEIMessageRetRDI.framed hlisted hvals hlen, replies_mei hlisted hvals hlen⟩
  | setDateTime addr dt => exact absurd rfl hf
  | partOfFileTransfer addr idFile numpack =>
    refine Remote.returns_call (TwoWords.framed_fileTransfer ?_ ?_) rfl rfl hf trivial rfl rfl haddr
      (fun v hsame hok => ?_) hhead qreply
    · exact idFile.toUInt8.toNat_lt
    · exact numpack.toUInt8.toNat_lt
    have hlen : _ ≤ 248 := hfits v hsame hok
    exact ⟨_, FileTransferRetMessage.framed (Nat.le_trans hlen (by decide)),
      replies_filePart hlen⟩

/-- What is returned by a handler that looks at nothing of the request but its address and its body. -/
theorem returns_of_handled (c : Call) (hf : c.remote.func ≠ fnSetDateTime) (hserved : c.Served)
    (haddr : checkAddr vaddr c.remote.msg.addr) {handled : mbErrCode × c.remote.γ}
    (hhandler : ∀ v, v.Same c.remote.msg → c.remote.handler h v = handled)
    (hfits : handled.1 = erNoError → c.Fits handled.2) (hhead : qbuf.mbaphead.len = 0)
    (qreply : ModbusMessage) :
    c.remote.returns (c.remote.call false (realReceive false vaddr h) qbuf qreply) =
      c.remote.outcome handled := by
  obtain ⟨v, hsame, hv⟩ := c.returns_served (h := h) hf hserved haddr
    (fun v hsame hok => by
      rw [hhandler v hsame] at hok ⊢
      exact hfits hok) hhead qreply
  rw [hv, hhandler v hsame]

/-- A request for more than the server takes is not answered. -/
theorem returns_refused (c : Call) (hserved : ¬c.Served)
    (haddr : checkAddr vaddr c.remote.msg.addr) (hhead : qbuf.mbaphead.len = 0)
    (qreply : ModbusMessage) :
    c.remote.returns (c.remote.call false (realReceive false vaddr h) qbuf qreply) =
      .error erTimeOut := by
  cases c with
  | read01 addr start count | read02 addr start count | read03 addr start count
  | read04 addr start count =>
    refine @Remote.returns_of_error (TwoWords.bytes start count) _ _ _
      ⟨fun _ => rfl, Nat.le_of_ble_eq_true rfl⟩ rfl ?_ ?_ ?_ haddr (fun m hm => ?_) _ hhead qreply
    · rfl
    · exact SlaveFunctionCode.noConfusion
    · trivial
    exact ⟨_, (TwoWords.value_initCounted hm _).trans (if_pos (Nat.lt_of_not_le hserved))⟩
  | _ => exact absurd trivial hserved

theorem returns_setDateTime (addr : ModbusAddr) (dt : DateTime) (haddr : checkAddr vaddr addr)
    (hhead : qbuf.mbaphead.len = 0) (qreply : ModbusMessage) :
    (setDateTime addr dt).remote.returns
      ((setDateTime addr dt).remote.call false (realReceive false vaddr h) qbuf qreply) =
      .error erBadDataValue := by
  refine @Remote.returns_error
    [dt.hour, dt.min, dt.sec, dt.day, dt.mon, dt.year, dt.century] _
    ⟨fun _ => rfl, Nat.le_of_ble_eq_true rfl⟩ rfl _ _ hhead qreply 0x03 (by decide) ?_
  exact realReceive_setDateTime haddr rfl

/-- A call to a server that has its address returns what the handler of the server returns for the
request. -/
theorem returns_outcome (c : Call) (h : Handlers) {vaddr : List ModbusAddr}
    (haddr : checkAddr vaddr c.remote.msg.addr)
    (hfits : ∀ v, v.Same c.remote.msg → (c.remote.handler h v).1 = erNoError →
      c.Fits (c.remote.handler h v).2)
    {qbuf : ModbusMessage} (hhead : qbuf.mbaphead.len = 0) (qreply : ModbusMessage) :
    ∃ v, v.Same c.remote.msg ∧
      c.remote.returns (c.remote.call false (realReceive false vaddr h) qbuf qreply) =
        c.outcome (c.remote.handler h v) := by
  unfold outcome
  by_cases hf : c.remote.func = fnSetDateTime
  · cases c with
    | setDateTime addr dt =>
      exact ⟨_, ⟨rfl, rfl, rfl⟩, returns_setDateTime addr dt haddr hhead qreply⟩
    | _ => cases hf
  by_cases hserved : c.Served
  · simp only [if_neg hf, if_pos hserved]
    exact returns_served c hf hserved haddr hfits hhead qreply
  · simp only [if_neg hf, if_neg hserved]
    exact ⟨_, ⟨rfl, rfl, rfl⟩, returns_refused c hserved haddr hhead qreply⟩

/-- Two registers of a server at the address 5. -/
theorem returns_two :
    let h : Handlers := { Handlers.unset with
      readOutputRegisters := fun _ => (erNoError, .ofData [7, 8]) }
    ∃ v, v.Same (read03 5 10 2).remote.msg ∧
      (read03 5 10 2).remote.returns
          ((read03 5 10 2).remote.call false (realReceive false [5] h) .new .new) =
        (read03 5 10 2).outcome ((read03 5 10 2).remote.handler h v) :=
  returns_outcome (read03 5 10 2) _ (by decide) (fun _ _ _ => ⟨[7, 8], rfl, by decide⟩) rfl .new

end Call

end Uniset.Modbus
