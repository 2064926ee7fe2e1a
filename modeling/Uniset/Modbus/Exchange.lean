import Uniset.Modbus.Query
import Uniset.Modbus.ReceiveRobustness

/-! What a call of the client returns when a server on the line answers it: what the handler of the
server does with the request that was asked for. -/

namespace Uniset.Modbus

open Uniset.Lib SlaveFunctionCode

/-- A frame with its checksum. -/
def frameBytes (addr : ModbusAddr) (func : ModbusByte) (body : List ModbusByte) :
    List ModbusByte :=
  addr :: func :: (body ++ sumOf false addr func body)

variable {addr : ModbusAddr} {func : ModbusByte} {body : List ModbusByte} {m : ModbusMessage}
  {f : SlaveFunctionCode}

/-- A message that carries a body is sent as its frame. -/
theorem ModbusMessage.Carries.value_send (h : m.Carries addr func body)
    (hhead : m.mbaphead.len = 0) (hfits : body.length ≤ MAXLENPACKET) :
    m.send = .ok (frameBytes addr func body) := by
  have hfits : body.length ≤ 508 := hfits
  obtain ⟨rest, hframe⟩ := h.frame
  have hlen : m.len.toNat = body.length + 4 := by
    rw [ModbusMessage.len, if_pos hhead, ModbusMessage.pduLen, h.dlen, UInt16.toNat_ofNat']
    simp only [szModbusHeader, szCRC]
    omega
  have hmax : ¬ModbusMessage.maxSizeOfMessage < m.len.toNat := by
    rw [hlen]
    change ¬516 < _
    omega
  have hbuf : m.buf = frameBytes addr func body := by
    rw [ModbusMessage.buf, hlen, hframe]
    change addr :: func :: (body ++ (toMemory _ ++ rest)).take (body.length + 2) = _
    rw [List.take_length_add_append]
    rfl
  rw [ModbusMessage.send, if_neg hmax, hbuf]

/-- A message that has received a frame is the one into which the body is put. -/
theorem value_put_holding (rbuf : ModbusMessage) (func : ModbusByte) (body : List ModbusByte) :
    ((rbuf.holding func (body.length + szCRC) (body ++ sumOf false rbuf.addr func body)).put
      rbuf.addr func body (body.length + szCRC)).value =
      .ok (rbuf.holding func (body.length + szCRC) (body ++ sumOf false rbuf.addr func body)) := by
  have hlen : (body ++ sumOf false rbuf.addr func body).length = body.length + szCRC := by
    rw [List.length_append, sumOf_length]
    rfl
  have hdata : body ++ sumOf false rbuf.addr func body ++
      (rbuf.holding func (body.length + szCRC) (body ++ sumOf false rbuf.addr func body)).data.drop
        (body.length + szCRC) =
      (rbuf.holding func (body.length + szCRC) (body ++ sumOf false rbuf.addr func body)).data := by
    rw [ModbusMessage.holding, ← hlen, List.drop_left]
  have hbcnt : szModbusHeader + (body.length + szCRC) = (rbuf.holding func (body.length + szCRC)
      (body ++ sumOf false rbuf.addr func body)).bcnt := congrArg (szModbusHeader + ·) hlen.symm
  change Except.ok (ModbusMessage.mk _ _ _ (body ++ sumOf false rbuf.addr func body ++ _) _ _) = _
  rw [hdata, hbcnt]
  rfl

theorem carries_holding (rbuf : ModbusMessage) (func : ModbusByte) (body : List ModbusByte) :
    (rbuf.holding func (body.length + szCRC) (body ++ sumOf false rbuf.addr func body)).Carries
      rbuf.addr func body := by
  obtain ⟨m, hm, hcarries⟩ := carries_put (rbuf.holding func (body.length + szCRC)
    (body ++ sumOf false rbuf.addr func body)) rbuf.addr func rfl
  rw [value_put_holding] at hm
  cases hm
  exact hcarries

namespace MessageType

variable {β : Type} {T : MessageType β} {v : Message β} {make : ModbusMessage → Codec (Message β)}

/-- The message is put into a buffer as the bytes of `body`, which fit into it. -/
structure Puts (T : MessageType β) (v : Message β) (body : List ModbusByte) : Prop where
  puts : ∀ mm, (T.transport_msg_to v mm).value =
    (mm.put v.addr v.func body (body.length + szCRC)).value
  fits : body.length ≤ MAXLENPACKET

/-- The message is sent as the frame of `body`, and made again from it. -/
structure Framed (T : MessageType β) (v : Message β) (make : ModbusMessage → Codec (Message β))
    (body : List ModbusByte) : Prop extends T.Puts v body where
  makes : ∀ mm, (mm.put v.addr v.func body (body.length + szCRC)).value = .ok mm →
    ∃ v', (make mm).value = .ok v' ∧ v'.Same v

theorem RoundTrips.framed (hround : T.RoundTrips v) (hinit : T.init = some make)
    (hputs : ∀ mm, (T.transport_msg_to v mm).value =
      (mm.put v.addr v.func body (body.length + szCRC)).value)
    (hfits : body.length ≤ MAXLENPACKET) : T.Framed v make body := by
  refine ⟨⟨hputs, hfits⟩, fun mm hput => ?_⟩
  obtain ⟨m, hvalue, -, ⟨init, v', hinit', hdecode, hsame⟩, -⟩ := hround mm
  rw [hputs mm, hput] at hvalue
  cases hvalue
  cases hinit.symm.trans hinit'
  exact ⟨v', hdecode, hsame⟩

theorem Puts.value_transport (h : T.Puts v body) (mm : ModbusMessage) :
    ∃ m, (T.transport_msg_to v mm).value = .ok m ∧ m.Carries v.addr v.func body ∧
      m.mbaphead = mm.mbaphead := by
  rw [h.puts]
  exact ⟨_, rfl, ⟨rfl, rfl, ⟨_, List.append_assoc _ _ _⟩, rfl⟩, rfl⟩

/-- The message is put into a buffer and sent. -/
theorem Puts.value_send (h : T.Puts v body) (mm : ModbusMessage) (hhead : mm.mbaphead.len = 0) :
    ∃ m, (T.transport_msg_to v mm).value = .ok m ∧ m.func = v.func ∧
      m.send = .ok (frameBytes v.addr v.func body) := by
  obtain ⟨m, hvalue, hm, hmbap⟩ := h.value_transport mm
  exact ⟨m, hvalue, hm.func_eq, hm.value_send (by rw [hmbap, hhead]) h.fits⟩

theorem Framed.value_make (h : T.Framed v make body) (rbuf : ModbusMessage)
    (haddr : rbuf.addr = v.addr) :
    ∃ v', (make (rbuf.holding v.func (body.length + szCRC)
      (body ++ sumOf false rbuf.addr v.func body))).value = .ok v' ∧ v'.Same v := by
  apply h.makes
  rw [← haddr]
  exact value_put_holding rbuf v.func body

end MessageType

namespace ModbusServer

/-- The frame of a request is received. -/
theorem value_recv_pdu_frame (rbuf : ModbusMessage) (hlen : body.length = bodyLen f body)
    (hf : f ≠ fnSetDateTime) (hin : InOrder f body) :
    (recv_pdu false rbuf (f.code :: (body ++ sumOf false rbuf.addr f.code body))).value =
      .ok ⟨rbuf.holding f.code (body.length + szCRC) (body ++ sumOf false rbuf.addr f.code body),
        []⟩ := by
  have hsz : szFrame false f (body ++ sumOf false rbuf.addr f.code body) = body.length + szCRC := by
    rw [szFrame, bodyLen_append hlen]
    rfl
  apply value_recv_pdu_eq_ok.mpr
  refine ⟨body, ⟨hlen, by rw [List.append_nil]⟩, ⟨hf, hin⟩, ?_⟩
  rw [hsz]

theorem realReceive_frameBytes {vaddr : List ModbusAddr} {h : Handlers}
    (haddr : checkAddr vaddr addr) {r : Received}
    (hr : (recv_pdu false { ModbusMessage.new with addr := addr }
      (func :: (body ++ sumOf false addr func body))).value = .ok r) :
    realReceive false vaddr h (frameBytes addr func body) = wire (sent h sendCode r.rbuf) := by
  unfold realReceive frameBytes
  rw [List.dropWhile_cons_of_neg (by rw [haddr]; exact Bool.false_ne_true)]
  dsimp only
  rw [hr]

end ModbusServer

namespace ModbusClient

/-- The body of a reply is as long as the client takes it to be, whatever comes behind it. -/
def Replies (f : SlaveFunctionCode) (body : List ModbusByte) : Prop :=
  ∀ xs, readLen f (body ++ xs) = body.length ∧ KnownKind f (body ++ xs)

/-- The frame of a reply is received. -/
theorem value_recv_frame {k : Nat} (hk : szFirst false f = some k) (hf : f ≠ fnSetDateTime)
    (hreply : Replies f body) (rbuf : ModbusMessage) :
    (recv false addr f.code rbuf (frameBytes addr f.code body)).value =
      .ok ⟨{ rbuf with addr := addr }.holding f.code (body.length + szCRC)
        (body ++ sumOf false addr f.code body), []⟩ := by
  obtain ⟨hread, hkind⟩ := hreply (sumOf false addr f.code body)
  have hlen : (body ++ sumOf false addr f.code body).length = body.length + szCRC := by
    rw [List.length_append, sumOf_length]
    rfl
  have hsz : szReply false f (body ++ sumOf false addr f.code body) =
      (body ++ sumOf false addr f.code body).length := by
    rw [szReply, hread, hlen]
    rfl
  unfold recv frameBytes
  rw [List.dropWhile_cons_of_neg (by simp)]
  apply (value_recv_pdu_reply hk { rbuf with addr := addr }).mpr
  refine ⟨⟨hkind, Nat.le_of_eq hsz, hf, ?_⟩, ?_⟩
  · rw [hsz, hread, List.take_length, List.take_left]
  · rw [hsz, readUpTo, List.take_length, List.drop_length, hlen]

end ModbusClient

namespace ModbusServer

theorem wire_carried (hm : m.Carries addr func body) (hhead : m.mbaphead.len = 0)
    (hfits : body.length ≤ MAXLENPACKET) : wire [m] = frameBytes addr func body := by
  unfold wire
  rw [List.flatMap_singleton, hm.value_send hhead hfits]

section Served

variable {β γ : Type} {query : ModbusMessage → Codec (Message β)}
  {handler : Message β → mbErrCode × γ} {reply : MessageType γ} {h : Handlers}
  (hbranch : branch h f = ⟨query, handler, reply⟩) {send : ModbusMessage → mbErrCode}
  {buf : ModbusMessage} (hfunc : buf.func = f.code) {q : Message β}
  (hq : (query buf).value = .ok q)
include hbranch hfunc hq

/-- The reply of a handler that has one is sent. -/
theorem sent_of_ok (hok : (handler q).1 = erNoError)
    (hm : (reply.transport_msg_to ⟨buf.addr, f.code, (handler q).2, 0⟩ buf).value = .ok m) :
    sent h send buf = [m] := by
  rw [sent_eq (by rw [hfunc]; exact ofByte_code f), hbranch]
  simp only [Branch.processing, Checked.value_bind, hq, Except.bind, hok, ne_eq,
    not_true_eq_false, if_false, hm, Checked.value_pure]

/-- The code of a handler that fails is sent, if it is one that goes into a reply. -/
theorem sent_of_error (herr : (handler q).1 ≠ erNoError) :
    if (handler q).1.code < erInternalErrorCode.code ∧ q.addr ≠ BroadcastAddr then
      ∃ m, sent h send buf = [m] ∧ m.mbaphead = buf.mbaphead ∧
        m.Carries q.addr (q.func ||| MBErrMask) [UInt8.ofNat (handler q).1.code]
    else sent h send buf = [] := by
  rw [sent_eq (by rw [hfunc]; exact ofByte_code f), hbranch]
  simp only [Branch.processing, Checked.value_bind, hq, Except.bind, ne_eq, herr,
    not_false_eq_true, if_true]
  split
  · exact ⟨_, rfl, rfl, rfl, rfl, ⟨_, List.append_assoc _ _ _⟩, rfl⟩
  · rfl

end Served

/-- A request that the constructor of its type refuses is not answered. -/
theorem realReceive_of_error {vaddr : List ModbusAddr} {h : Handlers}
    (haddr : checkAddr vaddr addr) (hlen : body.length = bodyLen f body)
    (hf : f ≠ fnSetDateTime) (hin : InOrder f body)
    (hquery : ∀ m, m.Carries addr f.code body → ∃ e, ((branch h f).query m).value = .error e) :
    realReceive false vaddr h (frameBytes addr f.code body) = [] := by
  have hrecv := value_recv_pdu_frame { ModbusMessage.new with addr := addr } hlen hf hin
  obtain ⟨e, he⟩ := hquery _ (carries_holding { ModbusMessage.new with addr := addr } f.code body)
  rw [realReceive_frameBytes haddr hrecv, sent_eq (ofByte_code f)]
  simp only [Branch.processing, Checked.value_bind, he, Except.bind]
  rfl

/-- A request to set the time is answered with an error. -/
theorem realReceive_setDateTime {vaddr : List ModbusAddr} {h : Handlers}
    (haddr : checkAddr vaddr addr) (hlen : body.length = 7) :
    realReceive false vaddr h (frameBytes addr fnSetDateTime.code body) =
      frameBytes addr (fnSetDateTime.code ||| MBErrMask) [0x03] := by
  generalize hs : body ++ sumOf false addr fnSetDateTime.code body = s
  let rbuf := { ModbusMessage.new with addr := addr }
  have hsz : szFrame false fnSetDateTime s = s.length := by
    rw [← hs, List.length_append, hlen, sumOf_length]
    rfl
  have htake : s.take (bodyLen fnSetDateTime s) = body := by
    change s.take 7 = body
    rw [← hs, ← hlen, List.take_left]
  have hcheck := @value_check_take false fnSetDateTime rbuf s (Nat.le_of_eq hsz)
  rw [hsz, htake, List.take_length, if_pos hs.symm, if_neg fun h => h.1 rfl] at hcheck
  have hrecv : (recv_pdu false rbuf (fnSetDateTime.code :: s)).value =
      .error (erBadDataValue, []) := by
    rw [recv_pdu_cons, Checked.value_bind, (gets false fnSetDateTime rbuf s).value, hsz,
      if_neg (Nat.lt_irrefl _), Except.bind, Checked.value_bind, Checked.value_mapError,
      List.take_length, hcheck]
    rfl
  unfold realReceive frameBytes
  rw [List.dropWhile_cons_of_neg (by rw [haddr]; exact Bool.false_ne_true), hs]
  dsimp only
  rw [show (recv_pdu false { ModbusMessage.new with addr := addr } _).value = _ from hrecv]
  dsimp only
  rw [if_pos (by decide)]
  exact wire_carried ⟨rfl, rfl, ⟨_, List.append_assoc _ _ _⟩, rfl⟩ rfl (Nat.le_of_ble_eq_true rfl)

end ModbusServer

namespace ModbusClient

/-- The error in a frame is thrown. -/
theorem value_recv_error (rbuf : ModbusMessage) (qfunc : ModbusByte) {ecode : ModbusByte}
    (hne : ecode ≠ 0) : ∃ rest,
    (recv false addr qfunc rbuf (frameBytes addr (qfunc ||| MBErrMask) [ecode])).value =
      .error (⟨ecode.toNat⟩, rest) := by
  generalize hfunc : qfunc ||| MBErrMask = func
  let rbuf' := { rbuf with addr := addr }
  let s := ecode :: sumOf false addr func [ecode]
  have hrecv : recv false addr qfunc rbuf (frameBytes addr func [ecode]) =
      recvError false (errorStarted false func rbuf' s) := by
    unfold recv frameBytes
    rw [List.dropWhile_cons_of_neg (by simp)]
    exact if_pos hfunc.symm
  have hle : 1 + szSum false ≤ s.length := Nat.le_refl 3
  obtain ⟨c, hinit, hc⟩ := value_init_error (s := sumOf false addr func [ecode]) hle rbuf' func
  have h := holds_readUpTo rbuf' func (1 + szSum false) s (1 + szSum false)
  have hfirst := value_getNextData_readUpTo rbuf' func (1 + szSum false) (Nat.zero_le s.length)
    (1 + szSum false)
  have hverify := value_verifyCRC (g := fun _ => return c) h (List.length_take_of_le hle) rfl hc
  rw [Nat.zero_add, if_neg (Nat.not_lt_of_le hle)] at hfirst
  have hsum : (verifyCRC false (fun _ => return c) (readUpTo rbuf' func (1 + szSum false) s
      (1 + szSum false)).rbuf).value = .ok () := hverify.trans (if_pos rfl)
  refine ⟨s.drop (1 + szSum false), ?_⟩
  rw [hrecv]
  unfold recvError errorStarted
  rw [withoutCRC_three]
  change (getNextData 0 (1 + szSum false) _ >>= _ : Reception Received).value = _
  rw [Checked.value_bind, hfirst, Except.bind, Checked.value_bind,
    Checked.value_mapError_ok hinit, Except.bind, Checked.value_bind,
    Checked.value_mapError_ok hsum, Except.bind, Checked.value_ite]
  exact if_neg fun hzero => hne (UInt8.toNat_inj.mp hzero)

end ModbusClient

namespace Remote

open ModbusServer ModbusClient

variable {r : Remote} {h : Handlers} {vaddr : List ModbusAddr}

/-- What a server makes of the request that is sent, and what it answers. -/
theorem realReceive_eq {query : ModbusMessage → Codec (Message r.β)}
    (hT : r.type.Framed r.msg query body) (hfunc : r.msg.func = r.func.code)
    (hlen : body.length = bodyLen r.func body) (hf : r.func ≠ fnSetDateTime)
    (hin : InOrder r.func body) (hbranch : branch h r.func = ⟨query, r.handler h, r.reply⟩)
    (haddr : checkAddr vaddr r.msg.addr) :
    ∃ v, v.Same r.msg ∧
      ((r.handler h v).1 = erNoError → ∀ rbody,
        r.reply.Framed ⟨r.msg.addr, r.func.code, (r.handler h v).2, 0⟩ r.make rbody →
        realReceive false vaddr h (frameBytes r.msg.addr r.msg.func body) =
          frameBytes r.msg.addr r.func.code rbody) ∧
      ((r.handler h v).1 ≠ erNoError →
        realReceive false vaddr h (frameBytes r.msg.addr r.msg.func body) =
        if (r.handler h v).1.code < erInternalErrorCode.code ∧ r.msg.addr ≠ BroadcastAddr then
          frameBytes r.msg.addr (r.func.code ||| MBErrMask) [UInt8.ofNat (r.handler h v).1.code]
        else []) := by
  have hrecv := value_recv_pdu_frame { ModbusMessage.new with addr := r.msg.addr } hlen hf hin
  obtain ⟨v, hv, hsame⟩ := hT.value_make { ModbusMessage.new with addr := r.msg.addr } rfl
  rw [hfunc] at hv ⊢
  rw [realReceive_frameBytes haddr hrecv]
  refine ⟨v, hsame, fun hok rbody hframed => ?_, fun herr => ?_⟩
  · obtain ⟨m, hm, hcarries, hhead⟩ := hframed.value_transport _
    rw [sent_of_ok hbranch rfl hv hok hm]
    exact wire_carried hcarries (by rw [hhead]; rfl) hframed.fits
  · have hsent := @sent_of_error _ _ _ _ _ _ _ hbranch sendCode _ rfl _ hv herr
    obtain ⟨haddr', hfunc', -⟩ := hsame
    rw [haddr', hfunc', hfunc] at hsent
    split at hsent
    · rename_i hcode
      obtain ⟨m, hm, hhead, hcarries⟩ := hsent
      rw [if_pos hcode, hm]
      exact wire_carried hcarries (by rw [hhead]; rfl) (Nat.le_of_ble_eq_true rfl)
    · rename_i hcode
      rw [if_neg hcode, hsent]
      rfl

/-- A call sends its request and makes the reply of what comes back. -/
theorem value_call (hT : r.type.Puts r.msg body) {line : List ModbusByte → List ModbusByte}
    {qbuf : ModbusMessage} (hhead : qbuf.mbaphead.len = 0) (qreply : ModbusMessage) :
    (r.call false line qbuf qreply).value =
      ((recv false r.msg.addr r.msg.func qreply
        (line (frameBytes r.msg.addr r.msg.func body))).value.mapError Prod.fst).bind fun rc =>
          (r.make rc.rbuf).value.bind fun ret =>
            if r.check ret.body then .ok ret else .error erBadDataValue := by
  obtain ⟨m, hm, hfunc, hsend⟩ := hT.value_send qbuf hhead
  have hquery : (ModbusClient.query false line r.msg.addr m qreply).value =
      ((recv false r.msg.addr r.msg.func qreply
        (line (frameBytes r.msg.addr r.msg.func body))).value.mapError Prod.fst).bind
          fun rc => .ok rc.rbuf := by
    unfold ModbusClient.query
    rw [hsend, hfunc]
    exact Checked.value_bind _ _
  unfold call
  rw [Checked.value_bind, hm, Except.bind, Checked.value_bind, hquery]
  cases (recv false r.msg.addr r.msg.func qreply
    (line (frameBytes r.msg.addr r.msg.func body))).value with
  | error e => rfl
  | ok rc =>
    simp only [Except.mapError, Except.bind, Checked.value_bind, Checked.value_ite,
      Checked.value_pure, Checked.value_throw]

section Answered

variable (hT : r.type.Puts r.msg body) (hfunc : r.msg.func = r.func.code) {line : List ModbusByte → List ModbusByte}
  {qbuf : ModbusMessage} (hhead : qbuf.mbaphead.len = 0) (qreply : ModbusMessage)
include hT hhead

/-- Nothing comes back. -/
theorem returns_silence (hline : line (frameBytes r.msg.addr r.msg.func body) = []) :
    r.returns (r.call false line qbuf qreply) = .error erTimeOut := by
  rw [returns, value_call hT hhead, hline]
  rfl

include hfunc

/-- A reply comes back. -/
theorem returns_reply {k : Nat} (hk : ModbusClient.szFirst false r.func = some k) (hf : r.func ≠ fnSetDateTime)
    {reply : r.γ} {rbody : List ModbusByte}
    (hR : r.reply.Framed ⟨r.msg.addr, r.func.code, reply, 0⟩ r.make rbody)
    (hreplies : Replies r.func rbody)
    (hline : line (frameBytes r.msg.addr r.msg.func body) =
      frameBytes r.msg.addr r.func.code rbody) :
    r.returns (r.call false line qbuf qreply) =
      if r.check reply then .ok ⟨r.msg.addr, r.func.code, reply, 0⟩ else .error erBadDataValue := by
  obtain ⟨v, hv, haddr, hvfunc, hbody⟩ := hR.value_make { qreply with addr := r.msg.addr } rfl
  rw [returns, value_call hT hhead, hline, hfunc, value_recv_frame hk hf hreplies]
  change Except.map _ ((r.make _).value.bind _) = _
  rw [hv]
  obtain ⟨vaddr, vfunc, vbody, vcrc⟩ := v
  cases haddr
  cases hvfunc
  cases hbody
  change Except.map _ (if r.check reply then _ else _) = _
  split <;> rfl

/-- An error comes back. -/
theorem returns_error {ecode : ModbusByte} (hne : ecode ≠ 0)
    (hline : line (frameBytes r.msg.addr r.msg.func body) =
      frameBytes r.msg.addr (r.func.code ||| MBErrMask) [ecode]) :
    r.returns (r.call false line qbuf qreply) = .error ⟨ecode.toNat⟩ := by
  obtain ⟨rest, hrecv⟩ := @value_recv_error r.msg.addr qreply r.func.code ecode hne
  rw [returns, value_call hT hhead, hline, hfunc, hrecv]
  rfl

end Answered

/-- A call returns nothing but an error when the server does not make its request. -/
theorem returns_of_error (hT : r.type.Puts r.msg body) (hfunc : r.msg.func = r.func.code)
    (hlen : body.length = bodyLen r.func body) (hf : r.func ≠ fnSetDateTime)
    (hin : InOrder r.func body) (haddr : checkAddr vaddr r.msg.addr)
    (hquery : ∀ m, m.Carries r.msg.addr r.func.code body →
      ∃ e, ((branch h r.func).query m).value = .error e)
    {qbuf : ModbusMessage} (hhead : qbuf.mbaphead.len = 0) (qreply : ModbusMessage) :
    r.returns (r.call false (realReceive false vaddr h) qbuf qreply) = .error erTimeOut := by
  refine returns_silence hT hhead qreply ?_
  rw [hfunc]
  exact realReceive_of_error haddr hlen hf hin hquery

/-- A call to a server on the line returns what the handler of the server does with the request. -/
theorem returns_call {query : ModbusMessage → Codec (Message r.β)}
    (hT : r.type.Framed r.msg query body) (hfunc : r.msg.func = r.func.code)
    (hlen : body.length = bodyLen r.func body) (hf : r.func ≠ fnSetDateTime)
    (hin : InOrder r.func body) (hbranch : branch h r.func = ⟨query, r.handler h, r.reply⟩)
    {k : Nat} (hk : ModbusClient.szFirst false r.func = some k) (haddr : checkAddr vaddr r.msg.addr)
    (hreply : ∀ v, v.Same r.msg → (r.handler h v).1 = erNoError → ∃ rbody,
      r.reply.Framed ⟨r.msg.addr, r.func.code, (r.handler h v).2, 0⟩ r.make rbody ∧
        Replies r.func rbody)
    {qbuf : ModbusMessage} (hhead : qbuf.mbaphead.len = 0) (qreply : ModbusMessage) :
    ∃ v, v.Same r.msg ∧ r.returns (r.call false (realReceive false vaddr h) qbuf qreply) =
      r.outcome (r.handler h v) := by
  obtain ⟨v, hsame, hok, herr⟩ := realReceive_eq hT hfunc hlen hf hin hbranch haddr
  refine ⟨v, hsame, ?_⟩
  unfold outcome
  by_cases hcode : (r.handler h v).1 = erNoError
  · obtain ⟨rbody, hR, hreplies⟩ := hreply v hsame hcode
    rw [if_pos hcode]
    exact returns_reply hT.toPuts hfunc hhead qreply hk hf hR hreplies (hok hcode rbody hR)
  have hline := herr hcode
  rw [if_neg hcode]
  by_cases hsent : (r.handler h v).1.code < erInternalErrorCode.code ∧ r.msg.addr ≠ BroadcastAddr
  · have hlt : (r.handler h v).1.code < 100 := hsent.1
    have hnum : (UInt8.ofNat (r.handler h v).1.code).toNat = (r.handler h v).1.code := by
      rw [UInt8.toNat_ofNat']
      omega
    have hne : UInt8.ofNat (r.handler h v).1.code ≠ 0 := by
      intro hzero
      rw [hzero] at hnum
      exact hcode (congrArg mbErrCode.mk hnum.symm)
    rw [if_pos hsent] at hline ⊢
    rw [returns_error hT.toPuts hfunc hhead qreply hne hline, hnum]
  · rw [if_neg hsent] at hline ⊢
    exact returns_silence hT.toPuts hhead qreply hline

end Remote

end Uniset.Modbus
