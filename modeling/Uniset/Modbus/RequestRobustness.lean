import Uniset.Modbus.DecodingSafety
import Uniset.Modbus.FrameAcceptance

/-! What the server reads and writes while it receives a request and makes it from the message. -/

namespace Uniset.Modbus.ModbusServer

open Uniset.Lib SlaveFunctionCode

/-- The requests whose checksum is taken from a place of its own, though none may be sent. -/
def SumAtPlace : SlaveFunctionCode → Prop
  | fnForceSingleCoil | fnWriteOutputSingleRegister | fnMEI | fnJournalCommand | fnSetDateTime
  | fnFileTransfer => True
  | _ => False

/-- The requests that are made from a message of this body by reading behind it or by writing behind
the request. -/
def DecodedAmiss (crcNoCheckit : Bool) (f : SlaveFunctionCode) (body : List ModbusByte) : Prop :=
  match f with
  | fnForceSingleCoil | fnWriteOutputSingleRegister => True
  | fnReadCoilStatus | fnReadInputStatus | fnReadOutputRegisters | fnReadInputRegisters =>
    crcNoCheckit = true
  | fnDiagnostics =>
    crcNoCheckit = true ∧ (szRequestDiagnosticData (SWAPSHORT (wordOf body 0))).isSome
  | _ => False

variable {crcNoCheckit : Bool} {f : SlaveFunctionCode} {rbuf : ModbusMessage}
  {bs s : List ModbusByte}

section Frame

variable (hlen : bs.length = bodyLen f bs + szSum crcNoCheckit)
include hlen

theorem safe_getCrc (rbuf : ModbusMessage) :
    (getCrc f (rbuf.holding f.code bs.length bs)).Safe ↔
    ¬(crcNoCheckit = true ∧ SumAtPlace f) := by
  have h := holds_holding rbuf f.code bs.length bs
  have hplace : ∀ i, bodyLen f bs = i → ((getCrcAt f i (rbuf.holding f.code bs.length bs)).Safe ↔
      ¬(crcNoCheckit = true ∧ True)) := by
    rintro i rfl
    rw [safe_getCrcAt h rfl, hlen]
    cases crcNoCheckit <;> simp [szSum, szCRC]
  cases f with
  | fnForceSingleCoil | fnWriteOutputSingleRegister | fnMEI | fnJournalCommand | fnSetDateTime
  | fnFileTransfer => exact hplace _ rfl
  | fnReadCoilStatus | fnReadInputStatus | fnReadOutputRegisters | fnReadInputRegisters =>
    exact iff_of_true (safe_getCrcLong h rfl (Nat.le_refl _)) And.right
  | fnForceMultipleCoils | fnWriteOutputRegisters | fnDiagnostics | fnRemoteService =>
    exact iff_of_true (safe_getCrcLast h rfl (Nat.le_refl _)) And.right

theorem safe_checkFormat : (checkFormat f (rbuf.holding f.code bs.length bs)).Safe := by
  have h := holds_holding rbuf f.code bs.length bs
  cases f with
  | fnWriteOutputRegisters =>
    have hlen : 5 ≤ bs.length := by
      rw [hlen]
      exact Nat.le_add_right_of_le (Nat.le_add_right 5 _)
    exact ((h.safe_byte 4).mpr hlen).bind fun _ =>
      ((h.safe_word _).mpr (Nat.le_trans (by decide) hlen)).bind fun _ => Checked.safe_pure _
  | fnSetDateTime =>
    exact ((safe_assert rfl).bind fun _ => Checked.safe_pure _).bind fun _ => Checked.safe_pure _
  | _ => rfl

theorem safe_check (rbuf : ModbusMessage) :
    (check crcNoCheckit f (rbuf.holding f.code bs.length bs)).Safe ↔
    ¬(crcNoCheckit = true ∧ SumAtPlace f) := by
  have h := holds_holding rbuf f.code bs.length bs
  rw [← safe_getCrc hlen rbuf]
  constructor
  · intro hsafe
    exact ((Checked.safe_bind _ _).mp ((Checked.safe_bind _ _).mp hsafe).1).1
  · intro hget
    refine (hget.bind fun mcrc => ?_).bind fun _ => (safe_checkFormat hlen).bind fun ok => ?_
    · split
      · rfl
      · refine (h.safe_pduCRC ?_).bind fun tcrc => ?_
        · exact Nat.sub_le _ _
        · split <;> rfl
    · split <;> rfl

/-- A frame is made into a request without a fault, but for the ones named. -/
theorem safe_decode_frame (rbuf : ModbusMessage) :
    (decode f (rbuf.holding f.code bs.length bs)).Safe ↔
    ¬DecodedAmiss crcNoCheckit f bs := by
  have h := holds_holding rbuf f.code bs.length bs
  have hfits : szModbusHeader + bs.length ≤ 264 := by
    rw [hlen]
    exact Nat.add_le_add_left (Nat.add_le_add bodyLen_le (szSum_le crcNoCheckit)) 2
  cases f with
  | fnReadCoilStatus | fnReadInputStatus | fnReadOutputRegisters | fnReadInputRegisters =>
    refine (safe_decode rfl).trans ((safe_initCounted h rfl _).trans ?_)
    rw [hlen]
    cases crcNoCheckit <;> simp [bodyLen, szSum, szCRC, DecodedAmiss]
  | fnForceSingleCoil | fnWriteOutputSingleRegister =>
    refine (safe_decode rfl).trans ?_
    exact iff_of_false (not_safe_initWithCRC h rfl rfl) fun hamiss => hamiss trivial
  | fnDiagnostics =>
    have hbody : 2 ≤ bodyLen fnDiagnostics bs := Nat.le_add_right _ _
    refine (safe_decode rfl).trans ((safe_init_diagnostic h rfl (by omega)).trans ?_)
    cases hsf : szRequestDiagnosticData (SWAPSHORT (wordOf bs 0)) with
    | none => simp [DecodedAmiss, hsf]
    | some n =>
      have hone : n = 1 := szRequestDiagnosticData_eq_some hsf
      rw [hlen]
      cases crcNoCheckit <;> simp [bodyLen, szDiagnosticData, hsf, hone, szSum, szCRC,
        sizeofModbusData, DecodedAmiss]
  | fnForceMultipleCoils =>
    refine iff_of_true ((safe_decode rfl).mpr ?_) id
    exact safe_init_forceCoils h rfl rfl (Nat.le_trans hfits (by decide))
  | fnWriteOutputRegisters =>
    refine iff_of_true ((safe_decode rfl).mpr ?_) id
    refine safe_init_writeOutput h rfl rfl ?_ (Nat.le_trans hfits (by decide))
    rw [hlen]
    exact Nat.le_add_right_of_le (Nat.le_add_right 5 _)
  | fnMEI =>
    refine iff_of_true ((safe_decode rfl).mpr ?_) id
    refine safe_init_mei h rfl rfl ?_
    rw [hlen]
    exact Nat.add_le_add_left (Nat.add_le_add_left (szSum_le crcNoCheckit) 3) 2
  | fnJournalCommand =>
    exact iff_of_true (((safe_assert rfl).bind fun _ => Checked.safe_pure _).bind fun _ =>
      Checked.safe_pure _) id
  | fnSetDateTime =>
    exact iff_of_true ((safe_decode rfl).mpr ((safe_assert rfl).bind fun _ =>
      Checked.safe_pure _)) id
  | fnRemoteService =>
    refine iff_of_true (Checked.Safe.bind ?_ fun _ => Checked.safe_pure _) id
    exact safe_init_remoteService h rfl rfl (Nat.le_trans hfits (by decide))
  | fnFileTransfer =>
    refine iff_of_true ((safe_decode rfl).mpr ?_) id
    refine safe_init_fileTransfer h rfl rfl ?_
    rw [hlen]
    exact Nat.add_le_add_left (Nat.add_le_add_left (szSum_le crcNoCheckit) 4) 2

end Frame

theorem decodedAmiss_take {n : Nat} (hn : bodyLen f s ≤ n) :
    DecodedAmiss crcNoCheckit f (s.take n) ↔ DecodedAmiss crcNoCheckit f s := by
  unfold DecodedAmiss
  cases f with
  | fnDiagnostics =>
    have hn : 2 ≤ n := Nat.le_trans (Nat.le_add_right 2 _) hn
    simp only [wordOf_take hn]
  | _ => exact Iff.rfl

/-- Receiving a request is safe unless a checksum is looked for that is not sent. -/
theorem safe_recv_pdu : (recv_pdu crcNoCheckit rbuf (f.code :: s)).Safe ↔
    (szFrame crcNoCheckit f s ≤ s.length → ¬(crcNoCheckit = true ∧ SumAtPlace f)) := by
  have hgets := gets crcNoCheckit f rbuf s
  rw [recv_pdu_cons, Checked.safe_bind, and_iff_right hgets.safe, hgets.value]
  by_cases hshort : s.length < szFrame crcNoCheckit f s
  · rw [if_pos hshort]
    refine iff_of_true (fun r hr => ?_) fun hle => absurd hle (Nat.not_le_of_lt hshort)
    cases hr
  · have hle : szFrame crcNoCheckit f s ≤ s.length := Nat.le_of_not_lt hshort
    have hbody : bodyLen f s ≤ szFrame crcNoCheckit f s := Nat.le_add_right _ _
    have hcheck := safe_check (length_take_frame hle) rbuf
    rw [List.length_take_of_le hle] at hcheck
    rw [if_neg hshort]
    refine Iff.trans ?_ (hcheck.trans ⟨fun h _ => h, fun h => h hle⟩)
    constructor
    · intro hsafe
      exact ((Checked.safe_bind _ _).mp (hsafe _ rfl)).1
    · rintro hsafe r hr
      cases hr
      exact (hsafe.mapError _).bind fun _ => Checked.safe_pure _

/-- What is made of a frame that was taken. -/
theorem safe_decode_taken {r : Received}
    (h : (recv_pdu crcNoCheckit rbuf (f.code :: s)).value = .ok r) :
    (decode f r.rbuf).Safe ↔ ¬DecodedAmiss crcNoCheckit f s := by
  obtain ⟨body, hstart, -, hr⟩ := value_recv_pdu_eq_ok.mp h
  obtain ⟨hle, rfl, hsum, -⟩ := startsWith_iff.mp hstart
  have hbody : bodyLen f s ≤ szFrame crcNoCheckit f s := Nat.le_add_right _ _
  have hdecode := safe_decode_frame (length_take_frame hle) rbuf
  rw [List.length_take_of_le hle, decodedAmiss_take hbody] at hdecode
  rw [hr, ← hsum]
  exact hdecode

/-- The requests in which something is read that was not received or written beside the object. -/
def Misread (crcNoCheckit : Bool) (f : SlaveFunctionCode) (body : List ModbusByte) : Prop :=
  crcNoCheckit = true ∧ SumAtPlace f ∨ DecodedAmiss crcNoCheckit f body

/-- Receiving a request and making it stays within what was received and within its objects, and
nothing but a frame in order is taken for a request. -/
def Robust (crcNoCheckit : Bool) (rbuf : ModbusMessage) (stream : List ModbusByte) : Prop :=
  (recvRequest crcNoCheckit rbuf stream).Safe ∧
    ∀ r, (recvRequest crcNoCheckit rbuf stream).value = .ok r →
      ∃ f body, StartsWith crcNoCheckit rbuf.addr f body stream r.channel ∧ InOrder f body

theorem recvRequest_of_recv_pdu {r : Received} {stream : List ModbusByte}
    (h : (recvRequest crcNoCheckit rbuf stream).value = .ok r) :
    (recv_pdu crcNoCheckit rbuf stream).value = .ok r := by
  obtain ⟨r', hr', h⟩ := Checked.value_bind_eq_ok.mp h
  cases hf : ofByte r'.rbuf.func with
  | none =>
    simp only [hf] at h
    cases h
    exact hr'
  | some f =>
    simp only [hf] at h
    obtain ⟨-, -, h⟩ := Checked.value_bind_eq_ok.mp h
    cases h
    exact hr'

theorem safe_recvRequest : (recvRequest crcNoCheckit rbuf (f.code :: s)).Safe ↔
    (recv_pdu crcNoCheckit rbuf (f.code :: s)).Safe ∧
      ((∃ r, (recv_pdu crcNoCheckit rbuf (f.code :: s)).value = .ok r) →
        ¬DecodedAmiss crcNoCheckit f s) := by
  unfold recvRequest
  rw [Checked.safe_bind]
  apply and_congr_right
  intro _
  have hmatch : ∀ r, (recv_pdu crcNoCheckit rbuf (f.code :: s)).value = .ok r →
      ofByte r.rbuf.func = some f := by
    intro r hr
    obtain ⟨body, -, -, hr⟩ := value_recv_pdu_eq_ok.mp hr
    rw [hr]
    exact ofByte_code f
  constructor
  · rintro h ⟨r, hr⟩
    have hsafe := h r hr
    simp only [hmatch r hr] at hsafe
    exact (safe_decode_taken hr).mp ((Checked.safe_bind _ _).mp hsafe).1
  · intro h r hr
    simp only [hmatch r hr]
    have hsafe := (safe_decode_taken hr).mpr (h ⟨r, hr⟩)
    exact (hsafe.mapError _).bind fun _ => Checked.safe_pure _

/-- The requests that are made amiss have no data that could be out of order. -/
theorem inOrder_of_decodedAmiss {body : List ModbusByte} (h : DecodedAmiss crcNoCheckit f bs) :
    f ≠ fnSetDateTime ∧ InOrder f body := by
  unfold DecodedAmiss at h
  cases f with
  | fnWriteOutputRegisters | fnSetDateTime => exact h.elim
  | _ => exact ⟨SlaveFunctionCode.noConfusion, trivial⟩

/-- Without its checksum any whole frame is one. -/
theorem startsWith_unchecked {addr : ModbusAddr} (hle : szFrame true f s ≤ s.length) :
    StartsWith true addr f (s.take (bodyLen f s)) (f.code :: s) (s.drop (szFrame true f s)) :=
  startsWith_iff.mpr ⟨hle, rfl, (List.append_nil _).symm, rfl⟩

theorem safe_recvRequest_iff : (recvRequest crcNoCheckit rbuf (f.code :: s)).Safe ↔
    ¬∃ g body rest, StartsWith crcNoCheckit rbuf.addr g body (f.code :: s) rest ∧
      Misread crcNoCheckit g body := by
  have hbody : DecodedAmiss crcNoCheckit f (s.take (bodyLen f s)) ↔
      DecodedAmiss crcNoCheckit f s := decodedAmiss_take (Nat.le_refl _)
  rw [safe_recvRequest, safe_recv_pdu]
  constructor
  · rintro ⟨hrecv, hdecode⟩ ⟨g, body, rest, hstart, hmisread⟩
    cases code_inj (List.head_eq_of_cons_eq hstart.stream_eq)
    obtain ⟨hle, rfl, -, -⟩ := startsWith_iff.mp hstart
    cases hmisread with
    | inl hplace => exact hrecv hle hplace
    | inr hamiss =>
      have htaken : (recv_pdu crcNoCheckit rbuf (f.code :: s)).value = .ok ⟨_, rest⟩ :=
        value_recv_pdu_eq_ok.mpr ⟨_, hstart, inOrder_of_decodedAmiss hamiss, rfl⟩
      exact hdecode ⟨_, htaken⟩ (hbody.mp hamiss)
  · intro h
    constructor
    · rintro hle ⟨rfl, hplace⟩
      exact h ⟨f, _, _, startsWith_unchecked hle, .inl ⟨rfl, hplace⟩⟩
    · rintro ⟨r, hr⟩ hamiss
      obtain ⟨body, hstart, -⟩ := value_recv_pdu_eq_ok.mp hr
      obtain ⟨-, rfl, -⟩ := startsWith_iff.mp hstart
      exact h ⟨f, _, _, hstart, .inr (hbody.mpr hamiss)⟩

/-- The server is robust exactly on the streams that do not begin with the frame of a request that
is misread. -/
theorem robust_iff (crcNoCheckit : Bool) (rbuf : ModbusMessage) (stream : List ModbusByte) :
    Robust crcNoCheckit rbuf stream ↔
      ¬∃ f body rest, StartsWith crcNoCheckit rbuf.addr f body stream rest ∧
        Misread crcNoCheckit f body := by
  have hsafe : (recvRequest crcNoCheckit rbuf stream).Safe ↔
      ¬∃ f body rest, StartsWith crcNoCheckit rbuf.addr f body stream rest ∧
        Misread crcNoCheckit f body := by
    cases stream with
    | nil =>
      refine iff_of_true rfl ?_
      rintro ⟨f, body, rest, ⟨-, hstream⟩, -⟩
      cases hstream
    | cons func s =>
      cases hf : ofByte func with
      | some f =>
        cases code_of_ofByte hf
        exact safe_recvRequest_iff
      | none =>
        have hrecv : recvRequest crcNoCheckit rbuf (func :: s) =
            (cleanupChannel erUnExpectedPacketType : Reception Received) := by
          simp only [recvRequest, recv_pdu, hf]
          rfl
        rw [hrecv]
        refine iff_of_true rfl ?_
        rintro ⟨f, body, rest, ⟨-, hstream⟩, -⟩
        rw [List.head_eq_of_cons_eq hstream, ofByte_code] at hf
        cases hf
  refine (and_iff_left fun r hr => ?_).trans hsafe
  have hr := recvRequest_of_recv_pdu hr
  obtain ⟨f, s, rfl⟩ := exists_of_value_recv_pdu hr
  obtain ⟨body, hstart, hok, -⟩ := value_recv_pdu_eq_ok.mp hr
  exact ⟨f, body, hstart, hok.2⟩

end Uniset.Modbus.ModbusServer
