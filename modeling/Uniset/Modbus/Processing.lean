import Uniset.Modbus.ModbusServer

/-! What the server does with a request it has received: the handler of its function is called, and
the reply goes into the buffer of the request. -/

namespace Uniset.Modbus.ModbusServer

open Uniset.Lib SlaveFunctionCode

/-- The handlers of the requests.  Each returns a code, and what it has put into the reply. -/
structure Handlers where
  readCoilStatus : Message TwoWords → mbErrCode × BitsBuffer
  readInputStatus : Message TwoWords → mbErrCode × BitsBuffer
  readOutputRegisters : Message TwoWords → mbErrCode × WordsRet
  readInputRegisters : Message TwoWords → mbErrCode × WordsRet
  forceMultipleCoils : Message (WriteRequest ModbusByte) → mbErrCode × TwoWords
  writeOutputRegisters : Message (WriteRequest ModbusData) → mbErrCode × TwoWords
  diagnostics : Message Diagnostic → mbErrCode × Diagnostic
  read4314 : Message MEI → mbErrCode × MEIRet
  forceSingleCoil : Message TwoWords → mbErrCode × TwoWords
  writeOutputSingleRegister : Message TwoWords → mbErrCode × TwoWords
  journalCommand : Message TwoWords → mbErrCode × WordsRet
  setDateTime : Message DateTime → mbErrCode × DateTime
  remoteService : Message RemoteService → mbErrCode × RemoteService
  fileTransfer : Message TwoWords → mbErrCode × FilePart

/-- The branch of a function: how the request is made, its handler and the type of the reply. -/
structure Branch where
  {β γ : Type}
  query : ModbusMessage → Codec (Message β)
  handler : Message β → mbErrCode × γ
  reply : MessageType γ

def branch (h : Handlers) : SlaveFunctionCode → Branch
  | fnReadCoilStatus =>
    ⟨TwoWords.initCounted fnReadCoilStatus (MAXPDULEN * BitsPerByte), h.readCoilStatus,
      ReadCoilRetMessage⟩
  | fnReadInputStatus =>
    ⟨TwoWords.initCounted fnReadInputStatus (MAXPDULEN * BitsPerByte), h.readInputStatus,
      ReadInputStatusRetMessage⟩
  | fnReadOutputRegisters =>
    ⟨TwoWords.initCounted fnReadOutputRegisters MAXDATALEN, h.readOutputRegisters,
      ReadOutputRetMessage⟩
  | fnReadInputRegisters =>
    ⟨TwoWords.initCounted fnReadInputRegisters MAXDATALEN, h.readInputRegisters,
      ReadInputRetMessage⟩
  | fnForceMultipleCoils => ⟨ForceCoilsMessage.init, h.forceMultipleCoils, ForceCoilsRetMessage⟩
  | fnWriteOutputRegisters =>
    ⟨WriteOutputMessage.init, h.writeOutputRegisters, WriteOutputRetMessage⟩
  | fnDiagnostics => ⟨DiagnosticMessage.init, h.diagnostics, DiagnosticRetMessage⟩
  | fnMEI => ⟨MEIMessageRDI.init, h.read4314, MEIMessageRetRDI⟩
  | fnForceSingleCoil =>
    ⟨TwoWords.initWithCRC fnForceSingleCoil, h.forceSingleCoil, ForceSingleCoilRetMessage⟩
  | fnWriteOutputSingleRegister =>
    ⟨TwoWords.initWithCRC fnWriteOutputSingleRegister, h.writeOutputSingleRegister,
      WriteSingleOutputRetMessage⟩
  | fnJournalCommand => ⟨JournalCommandMessage.init, h.journalCommand, JournalCommandRetMessage⟩
  | fnSetDateTime => ⟨SetDateTimeMessage.init, h.setDateTime, SetDateTimeRetMessage⟩
  | fnRemoteService => ⟨RemoteServiceMessage.init, h.remoteService, RemoteServiceRetMessage⟩
  | fnFileTransfer => ⟨FileTransferMessage.init, h.fileTransfer, FileTransferRetMessage⟩

/-- The messages given to `send`, and the code that is returned. -/
structure Processed where
  sent : List ModbusMessage
  result : mbErrCode

/-- A branch of `processing`.  The constructor of the reply takes the address of the buffer and the
function of its type. -/
def Branch.processing (b : Branch) (f : SlaveFunctionCode) (send : ModbusMessage → mbErrCode)
    (buf : ModbusMessage) : Codec Processed := do
  let query ← b.query buf
  let (err, reply) := b.handler query
  if err ≠ erNoError then
    if err.code < erInternalErrorCode.code ∧ query.addr ≠ BroadcastAddr then
      let buf ← ErrorRetMessage.make_to query.addr query.func (UInt8.ofNat err.code) buf
      return ⟨[buf], send buf⟩
    else return ⟨[], err⟩
  else
    let buf ← b.reply.transport_msg_to ⟨buf.addr, f.code, reply, 0⟩ buf
    return ⟨[buf], send buf⟩

def processing (h : Handlers) (send : ModbusMessage → mbErrCode) (buf : ModbusMessage) :
    Codec Processed :=
  match ofByte buf.func with
  | some f => (branch h f).processing f send buf
  | none => do
    let buf ← ErrorRetMessage.make_to buf.addr buf.func
      (UInt8.ofNat erUnExpectedPacketType.code) buf
    return ⟨[buf], erUnExpectedPacketType⟩

/-- What the handler of the function returns for the request made from a message, if one is. -/
def handled (h : Handlers) (buf : ModbusMessage) : Option mbErrCode := do
  let f ← ofByte buf.func
  let query ← ((branch h f).query buf).value.toOption
  return ((branch h f).handler query).1

/-- The messages that are sent while a message is processed. -/
def sent (h : Handlers) (send : ModbusMessage → mbErrCode) (buf : ModbusMessage) :
    List ModbusMessage :=
  match (processing h send buf).value with
  | .ok p => p.sent
  | .error _ => []

/-- One message is sent, with this address and function. -/
def SentOne (ms : List ModbusMessage) (addr : ModbusAddr) (func : ModbusByte) : Prop :=
  ∃ m, ms = [m] ∧ m.addr = addr ∧ m.func = func

/-- A broadcast request is not answered, nor one for which the handler returns an internal error;
any other one is answered once, with its address and function, marked if the handler failed. -/
structure Answers (h : Handlers) (send : ModbusMessage → mbErrCode) (buf : ModbusMessage) :
    Prop where
  broadcast : buf.addr = BroadcastAddr → sent h send buf = []
  internal : ∀ err, handled h buf = some err → erInternalErrorCode.code ≤ err.code →
    sent h send buf = []
  answer : buf.addr ≠ BroadcastAddr → ∀ err, handled h buf = some err →
    err.code < erInternalErrorCode.code → SentOne (sent h send buf) buf.addr
      (if err = erNoError then buf.func else buf.func ||| MBErrMask)

variable {h : Handlers} {send : ModbusMessage → mbErrCode} {buf : ModbusMessage}
  {f : SlaveFunctionCode}

section Queries

variable {β : Type} {α : Type}

/-- What is made from a message has its address and its function. -/
def Headed (buf : ModbusMessage) (x : Codec (Message β)) : Prop :=
  ∀ query, x.value = .ok query → query.addr = buf.addr ∧ query.func = buf.func

theorem headed_pure (body : β) (crc : ModbusCRC) :
    Headed buf (return ⟨buf.addr, buf.func, body, crc⟩) := by
  rintro query hquery
  cases hquery
  exact ⟨rfl, rfl⟩

theorem headed_throw (e : mbErrCode) : Headed buf (.throw e : Codec (Message β)) := by
  rintro query hquery
  cases hquery

theorem headed_bind {x : Codec α} {g : α → Codec (Message β)} (hg : ∀ a, Headed buf (g a)) :
    Headed buf (x >>= g) := by
  rintro query hquery
  obtain ⟨a, -, ha⟩ := Checked.value_bind_eq_ok.mp hquery
  exact hg a query ha

theorem headed_ite {p : Prop} [Decidable p] {x y : Codec (Message β)} (hx : Headed buf x)
    (hy : Headed buf y) : Headed buf (if p then x else y) := by
  split
  · exact hx
  · exact hy

theorem headed_query (h : Handlers) (f : SlaveFunctionCode) (buf : ModbusMessage) :
    Headed buf ((branch h f).query buf) := by
  cases f with
  | fnReadCoilStatus | fnReadInputStatus | fnReadOutputRegisters | fnReadInputRegisters =>
    exact headed_bind fun _ => headed_bind fun _ => headed_bind fun _ => headed_bind fun _ =>
      headed_ite (headed_throw _) (headed_pure _ _)
  | fnForceMultipleCoils | fnWriteOutputRegisters =>
    exact headed_bind fun _ => headed_bind fun _ => headed_bind fun _ => headed_bind fun _ =>
      headed_pure _ _
  | fnDiagnostics =>
    refine headed_bind fun _ => headed_bind fun subf => ?_
    split
    · exact headed_throw _
    · exact headed_ite (headed_throw _) (headed_bind fun _ => headed_bind fun _ => headed_pure _ _)
  | fnMEI | fnRemoteService | fnFileTransfer =>
    exact headed_bind fun _ => headed_bind fun _ => headed_bind fun _ => headed_pure _ _
  | fnForceSingleCoil | fnWriteOutputSingleRegister =>
    exact headed_bind fun _ => headed_bind fun _ => headed_pure _ _
  | fnJournalCommand | fnSetDateTime => exact headed_bind fun _ => headed_pure _ _

end Queries

/-- A reply has the address and the function it was made with. -/
theorem value_transport (f : SlaveFunctionCode) (addr : ModbusAddr) (body) (buf : ModbusMessage) :
    ∃ m, ((branch h f).reply.transport_msg_to ⟨addr, f.code, body, 0⟩ buf).value = .ok m ∧
      m.addr = addr ∧ m.func = f.code := by
  cases f <;> exact ⟨_, rfl, rfl, rfl⟩

theorem SentOne.ne_nil {ms : List ModbusMessage} {addr : ModbusAddr} {func : ModbusByte}
    (h : SentOne ms addr func) : ms ≠ [] := by
  obtain ⟨m, rfl, -⟩ := h
  exact List.cons_ne_nil _ _

theorem sent_eq (hf : ofByte buf.func = some f) : sent h send buf =
    match ((branch h f).processing f send buf).value with
    | .ok p => p.sent
    | .error _ => [] := by
  simp only [sent, processing, hf]

section Handled

variable {query : Message (branch h f).β} (hf : ofByte buf.func = some f)
  (hquery : ((branch h f).query buf).value = .ok query)
include hf hquery

theorem handled_eq : handled h buf = some ((branch h f).handler query).1 := by
  simp only [handled, hf, Option.bind_eq_bind, Option.bind_some, hquery, Except.toOption]
  rfl

theorem sent_reply (herr : ((branch h f).handler query).1 = erNoError) :
    SentOne (sent h send buf) buf.addr buf.func := by
  obtain ⟨m, hvalue, haddr, hfunc⟩ :=
    value_transport f buf.addr ((branch h f).handler query).2 buf
  refine ⟨m, ?_, haddr, hfunc.trans (code_of_ofByte hf)⟩
  rw [sent_eq hf]
  simp only [Branch.processing, Checked.value_bind, hquery, Except.bind, herr, ne_eq,
    not_true_eq_false, if_false, hvalue]
  rfl

theorem sent_error (herr : ((branch h f).handler query).1 ≠ erNoError) :
    if ((branch h f).handler query).1.code < erInternalErrorCode.code ∧ buf.addr ≠ BroadcastAddr then
      SentOne (sent h send buf) buf.addr (buf.func ||| MBErrMask)
    else sent h send buf = [] := by
  obtain ⟨haddr, hfunc⟩ := headed_query h f buf query hquery
  rw [sent_eq hf]
  simp only [Branch.processing, Checked.value_bind, hquery, Except.bind, herr, ne_eq,
    not_false_eq_true, if_true, haddr, hfunc]
  split
  · exact ⟨_, rfl, rfl, rfl⟩
  · rfl

theorem answers_handled : Answers h send buf ↔
    (buf.addr = BroadcastAddr → ((branch h f).handler query).1 ≠ erNoError) := by
  have hhandled := handled_eq hf hquery
  constructor
  · intro ha hbroadcast herr
    exact (sent_reply hf hquery herr).ne_nil (ha.broadcast hbroadcast)
  · intro h
    by_cases herr : ((branch _ f).handler query).1 = erNoError
    · have hsent := @sent_reply _ send _ _ _ hf hquery herr
      have haddr : buf.addr ≠ BroadcastAddr := fun hbroadcast => h hbroadcast herr
      rw [herr] at hhandled
      refine ⟨fun hbroadcast => absurd hbroadcast haddr, fun err he hcode => ?_, fun _ err he _ => ?_⟩
      · cases hhandled.symm.trans he
        exact absurd hcode (by decide)
      · cases hhandled.symm.trans he
        exact hsent
    · have hsent := @sent_error _ send _ _ _ hf hquery herr
      refine ⟨fun hbroadcast => ?_, fun err he hcode => ?_, fun haddr err he hcode => ?_⟩
      · rwa [if_neg fun h => h.2 hbroadcast] at hsent
      · cases hhandled.symm.trans he
        rwa [if_neg fun h => Nat.not_lt_of_le hcode h.1] at hsent
      · cases hhandled.symm.trans he
        rw [if_pos ⟨hcode, haddr⟩] at hsent
        rwa [if_neg herr]

end Handled

/-- A message is answered as it should be if it is not a broadcast one, or the handler of its
function fails. -/
theorem answers_iff (h : Handlers) (send : ModbusMessage → mbErrCode) (buf : ModbusMessage) :
    Answers h send buf ↔ (buf.addr = BroadcastAddr →
      (ofByte buf.func).isSome ∧ handled h buf ≠ some erNoError) := by
  cases hf : ofByte buf.func with
  | none =>
    have hhandled : handled h buf = none := by simp only [handled, hf]; rfl
    have hsent : SentOne (sent h send buf) buf.addr (buf.func ||| MBErrMask) := by
      simp only [sent, processing, hf]
      exact ⟨_, rfl, rfl, rfl⟩
    constructor
    · exact fun ha hbroadcast => absurd (ha.broadcast hbroadcast) hsent.ne_nil
    · intro h
      refine ⟨fun hbroadcast => Bool.noConfusion (h hbroadcast).1, ?_, ?_⟩
      · intro err he
        cases hhandled.symm.trans he
      · intro _ err he
        cases hhandled.symm.trans he
  | some f =>
    cases hquery : ((branch h f).query buf).value with
    | ok query =>
      rw [answers_handled hf hquery, handled_eq hf hquery]
      exact forall_congr' fun _ => ⟨fun h => ⟨rfl, fun he => h (Option.some.inj he)⟩,
        fun h he => h.2 (congrArg some he)⟩
    | error e =>
      have hhandled : handled h buf = none := by
        simp only [handled, hf, Option.bind_eq_bind, Option.bind_some, hquery, Except.toOption]
        rfl
      have hsent : sent h send buf = [] := by
        rw [sent_eq hf]
        simp only [Branch.processing, Checked.value_bind, hquery, Except.bind]
      refine iff_of_true ⟨fun _ => hsent, fun _ _ _ => hsent, fun _ err he => ?_⟩ fun _ => ⟨rfl, ?_⟩
      · cases hhandled.symm.trans he
      · rw [hhandled]
        exact (Option.some_ne_none _).symm

/-- The handlers of a server whose slots are not connected: they refuse every request and leave the
reply as it was made. -/
def Handlers.unset : Handlers where
  readCoilStatus _ := (erOperationFailed, ⟨[], by decide⟩)
  readInputStatus _ := (erOperationFailed, ⟨[], by decide⟩)
  readOutputRegisters _ := (erOperationFailed, .ofData [])
  readInputRegisters _ := (erOperationFailed, .ofData [])
  forceMultipleCoils _ := (erOperationFailed, ⟨0, 0⟩)
  writeOutputRegisters _ := (erOperationFailed, ⟨0, 0⟩)
  diagnostics query := (erOperationFailed, query.body)
  read4314 query := (erOperationFailed, MEIMessageRetRDI.new query.body.devID 0 0 query.body.objID)
  forceSingleCoil _ := (erOperationFailed, ⟨0, 0⟩)
  writeOutputSingleRegister _ := (erOperationFailed, ⟨0, 0⟩)
  journalCommand _ := (erOperationFailed, .ofData [])
  setDateTime query := (erOperationFailed, query.body)
  remoteService query := (erOperationFailed, query.body)
  fileTransfer _ := (erOperationFailed, ⟨0, 0, 0, []⟩)

/-- A coil is forced by a broadcast request, and a reply is sent. -/
theorem not_answers : ∃ r, (recv_pdu false { ModbusMessage.new with addr := BroadcastAddr }
      [0x05, 0x00, 0x01, 0xFF, 0x00, 0xDC, 0x2B]).value = .ok r ∧
    ¬Answers { Handlers.unset with forceSingleCoil := fun query => (erNoError, query.body) }
      (fun _ => erNoError) r.rbuf :=
  ⟨_, rfl, fun ha => List.cons_ne_nil _ _ (ha.broadcast rfl)⟩

end Uniset.Modbus.ModbusServer
