import Uniset.Modbus.ModbusServer
import Uniset.Modbus.ReceptionLaws

/-! Which streams the server takes a request from: exactly those that start with a whole frame,
but for the requests that set the time, which are never taken. -/

namespace Uniset.Modbus

open Uniset.Lib SlaveFunctionCode

/-- The words of a date, as the check of the request wants them. -/
def DateTime.InRange (dt : DateTime) : Prop :=
  dt.hour ≤ 23 ∧ dt.min ≤ 59 ∧ dt.sec ≤ 59 ∧ (1 ≤ dt.day ∧ dt.day ≤ 31) ∧
    (1 ≤ dt.mon ∧ dt.mon ≤ 12) ∧ dt.year ≤ 99 ∧ 19 ≤ dt.century ∧ dt.century ≤ 20

instance (dt : DateTime) : Decidable dt.InRange := by
  unfold DateTime.InRange
  infer_instance

/-- The date that lies in `bs`. -/
def DateTime.ofBytes (bs : List ModbusByte) : DateTime :=
  ⟨bs.getD 0 0, bs.getD 1 0, bs.getD 2 0, bs.getD 3 0, bs.getD 4 0, bs.getD 5 0, bs.getD 6 0⟩

/-- The length of the body of a request, by what it begins with. -/
def bodyLen (f : SlaveFunctionCode) (bs : List ModbusByte) : Nat :=
  match f with
  | fnReadCoilStatus | fnReadInputStatus | fnReadOutputRegisters | fnReadInputRegisters
  | fnForceSingleCoil | fnWriteOutputSingleRegister | fnJournalCommand | fnFileTransfer => 4
  | fnForceMultipleCoils | fnWriteOutputRegisters => 5 + (bs.getD 4 0).toNat
  | fnDiagnostics => 2 + szDiagnosticData (SWAPSHORT (wordOf bs 0))
  | fnMEI => 3
  | fnSetDateTime => 7
  | fnRemoteService => 1 + (bs.getD 0 0).toNat

/-- The data in a body agree: the counts of a request that writes, the parts of a date. -/
def InOrder (f : SlaveFunctionCode) (body : List ModbusByte) : Prop :=
  match f with
  | fnWriteOutputRegisters =>
    (body.getD 4 0).toNat = (SWAPSHORT (wordOf body 2)).toNat * sizeofModbusData
  | fnSetDateTime => (DateTime.ofBytes body).InRange
  | _ => True

/-- Behind the address comes a whole frame of the function, and `rest` behind that. -/
structure StartsWith (crcNoCheckit : Bool) (addr : ModbusAddr) (f : SlaveFunctionCode)
    (body stream rest : List ModbusByte) : Prop where
  length : body.length = bodyLen f body
  stream_eq : stream = f.code :: (body ++ (sumOf crcNoCheckit addr f.code body ++ rest))

section Lengths

variable {f : SlaveFunctionCode} {bs : List ModbusByte}

/-- The beginning of a body is enough to know its length. -/
theorem bodyLen_take {n : Nat} (hn : bodyLen f bs ≤ n) : bodyLen f (bs.take n) = bodyLen f bs := by
  unfold bodyLen at hn ⊢
  cases f with
  | fnForceMultipleCoils | fnWriteOutputRegisters => simp only at hn ⊢; rw [getD_take (by omega)]
  | fnDiagnostics => simp only at hn ⊢; rw [wordOf_take (by omega)]
  | fnRemoteService => simp only at hn ⊢; rw [getD_take (by omega)]
  | _ => rfl

theorem bodyLen_append (h : bs.length = bodyLen f bs) (xs : List ModbusByte) :
    bodyLen f (bs ++ xs) = bs.length := by
  rw [h]
  unfold bodyLen at h ⊢
  cases f with
  | fnForceMultipleCoils | fnWriteOutputRegisters =>
    simp only at h ⊢
    rw [List.getD_append _ _ _ _ (by omega)]
  | fnDiagnostics =>
    simp only at h ⊢
    unfold wordOf at h ⊢
    rw [List.getD_append _ _ _ _ (by omega), List.getD_append _ _ _ _ (by omega)]
  | fnRemoteService =>
    simp only at h ⊢
    rw [List.getD_append _ _ _ _ (by omega)]
  | _ => rfl

theorem inOrder_take {n : Nat} (hn : bodyLen f bs ≤ n) : InOrder f (bs.take n) ↔ InOrder f bs := by
  unfold bodyLen at hn
  unfold InOrder
  cases f with
  | fnWriteOutputRegisters =>
    simp only at hn ⊢
    rw [getD_take (by omega), wordOf_take (by omega)]
  | fnSetDateTime =>
    have hn : 7 ≤ n := hn
    unfold DateTime.ofBytes
    simp only
    rw [getD_take (by omega), getD_take (by omega), getD_take (by omega), getD_take (by omega),
      getD_take (by omega), getD_take (by omega), getD_take (by omega)]
  | _ => exact Iff.rfl

instance (f : SlaveFunctionCode) (bs : List ModbusByte) : Decidable (InOrder f bs) := by
  unfold InOrder
  cases f <;> infer_instance

end Lengths

namespace ModbusServer

variable {crcNoCheckit : Bool} {f : SlaveFunctionCode} {rbuf : ModbusMessage}
  {s : List ModbusByte}

/-- The length of a frame behind its function. -/
def szFrame (crcNoCheckit : Bool) (f : SlaveFunctionCode) (s : List ModbusByte) : Nat :=
  bodyLen f s + szSum crcNoCheckit

/-- The message before anything of it is received but its function. -/
def started (crcNoCheckit : Bool) (f : SlaveFunctionCode) (rbuf : ModbusMessage) : ModbusMessage :=
  { rbuf with func := f.code, dlen := szFirst crcNoCheckit f, bcnt := szModbusHeader }

/-- The parts of a frame are received, all of them or the channel is dropped. -/
structure Gets (crcNoCheckit : Bool) (f : SlaveFunctionCode) (rbuf : ModbusMessage)
    (s : List ModbusByte) : Prop where
  value : (getParts crcNoCheckit f ⟨started crcNoCheckit f rbuf, s⟩).value =
    if s.length < szFrame crcNoCheckit f s then .error (erInvalidFormat, [])
    else .ok ⟨rbuf.holding f.code (szFrame crcNoCheckit f s) (s.take (szFrame crcNoCheckit f s)),
      s.drop (szFrame crcNoCheckit f s)⟩
  safe : (getParts crcNoCheckit f ⟨started crcNoCheckit f rbuf, s⟩).Safe

theorem bodyLen_le : bodyLen f s ≤ 260 := by
  have hcount : ∀ i, (s.getD i 0).toNat < 256 := fun i => (s.getD i 0).toNat_lt
  unfold bodyLen
  cases f with
  | fnForceMultipleCoils | fnWriteOutputRegisters =>
    exact Nat.add_le_add_left (Nat.le_of_lt_succ (hcount 4)) 5
  | fnDiagnostics => exact Nat.le_trans (Nat.add_le_add_left (szDiagnosticData_le _) 2) (by decide)
  | fnRemoteService =>
    exact Nat.le_trans (Nat.add_le_add_left (Nat.le_of_lt (hcount 0)) 1) (by decide)
  | _ => exact Nat.le_of_ble_eq_true rfl

/-- Every frame fits into the buffer. -/
theorem szFrame_le : szFrame crcNoCheckit f s ≤ MAXLENPACKET :=
  Nat.le_trans (Nat.add_le_add bodyLen_le (szSum_le crcNoCheckit)) (by decide)

theorem gets_one (hlen : getDataLen f = none)
    (hfirst : szFirst crcNoCheckit f = szFrame crcNoCheckit f s) : Gets crcNoCheckit f rbuf s := by
  have hparts : getParts crcNoCheckit f ⟨started crcNoCheckit f rbuf, s⟩ =
      getNextData 0 (szFirst crcNoCheckit f) ⟨started crcNoCheckit f rbuf, s⟩ >>= pure := by
    unfold getParts
    rw [hlen]
    rfl
  have hfits : szFrame crcNoCheckit f s ≤ MAXLENPACKET := szFrame_le
  constructor
  · rw [hparts, Checked.value_bind, value_getNextData, hfirst, started, store_zero, hfirst]
    split
    · rfl
    · rfl
  · rw [hparts, Checked.safe_bind, safe_getNextData, hfirst]
    exact ⟨by omega, fun _ _ => rfl⟩

theorem gets_two {getLen : ModbusMessage → Codec Nat} {k n : Nat}
    (hlen : getDataLen f = some getLen) (hfirst : szFirst crcNoCheckit f = k)
    (hbody : bodyLen f s = k + n)
    (hget : k ≤ s.length → (getLen (rbuf.holding f.code k (s.take k))).value = .ok n ∧
      (getLen (rbuf.holding f.code k (s.take k))).Safe) : Gets crcNoCheckit f rbuf s := by
  have hparts : getParts crcNoCheckit f ⟨started crcNoCheckit f rbuf, s⟩ =
      getNextData 0 k ⟨{ rbuf with func := f.code, dlen := k, bcnt := szModbusHeader }, s⟩ >>=
        getRestOfData crcNoCheckit getLen := by
    unfold getParts started
    rw [hlen, hfirst]
  have hframe : k + withoutCRC crcNoCheckit (n + szCRC) = szFrame crcNoCheckit f s := by
    rw [withoutCRC_add, szFrame, hbody, Nat.add_assoc]
  have hfits : szFrame crcNoCheckit f s ≤ MAXLENPACKET := szFrame_le
  constructor
  · rw [hparts, value_parts fun h => (hget h).1, hframe]
  · rw [hparts]
    exact safe_parts (fun h => (hget h).1) (fun h => (hget h).2) (by omega)

theorem gets (crcNoCheckit : Bool) (f : SlaveFunctionCode) (rbuf : ModbusMessage)
    (s : List ModbusByte) : Gets crcNoCheckit f rbuf s := by
  have hold := fun k => holds_holding rbuf f.code k (s.take k)
  have htake : ∀ {k}, k ≤ s.length → (s.take k).length = k := List.length_take_of_le
  cases f with
  | fnReadCoilStatus | fnReadInputStatus | fnReadOutputRegisters | fnReadInputRegisters
  | fnJournalCommand | fnFileTransfer | fnSetDateTime =>
    apply gets_one rfl
    cases crcNoCheckit <;> rfl
  | fnForceMultipleCoils | fnWriteOutputRegisters =>
    apply gets_two (k := 5) rfl rfl rfl
    intro hs
    rw [← getD_take (s := s) (by decide : 4 < 5)]
    exact getDataLenAt_eq (hold 5) (by decide : 5 ≠ 0) (by rw [htake hs]; decide)
  | fnDiagnostics =>
    apply gets_two (k := 2) rfl rfl rfl
    intro hs
    rw [← wordOf_take (s := s) (by decide : 0 + 1 < 2)]
    exact getDataLen_diagnostic_eq (hold 2) (by decide : 2 ≠ 0) (by rw [htake hs]; decide)
  | fnRemoteService =>
    apply gets_two (k := 1) rfl rfl rfl
    intro hs
    rw [← getD_take (s := s) (by decide : 0 < 1)]
    exact getDataLenAt_eq (hold 1) (by decide : 1 ≠ 0) (by rw [htake hs]; decide)
  | fnForceSingleCoil | fnWriteOutputSingleRegister =>
    exact gets_two (k := 2) (n := 2) rfl rfl rfl fun _ => ⟨rfl, rfl⟩
  | fnMEI => exact gets_two (k := 3) (n := 0) rfl rfl rfl fun _ => ⟨rfl, rfl⟩

section Check

variable {bs : List ModbusByte}

/-- The checksum is taken from behind the body. -/
theorem value_getCrc (hlen : bs.length = bodyLen f bs + szCRC) :
    (getCrc f (rbuf.holding f.code bs.length bs)).value = .ok (wordOf bs (bodyLen f bs)) := by
  have h := holds_holding rbuf f.code bs.length bs
  have hlast := value_getCrcLast h f hlen rfl
  have hin : bodyLen f bs + 1 < bs.length := by
    rw [hlen]
    exact Nat.lt_succ_self _
  have hat := value_getCrcAt h f hin
  cases f with
  | fnReadCoilStatus | fnReadInputStatus | fnReadOutputRegisters | fnReadInputRegisters =>
    have hdlen : ¬bs.length < 6 := Nat.not_lt_of_le (Nat.le_of_eq hlen.symm)
    exact (congrArg Checked.value (if_neg hdlen)).trans hat
  | fnForceMultipleCoils | fnWriteOutputRegisters | fnDiagnostics | fnRemoteService => exact hlast
  | fnForceSingleCoil | fnWriteOutputSingleRegister | fnMEI | fnJournalCommand | fnSetDateTime
  | fnFileTransfer => exact hat

/-- There is a checksum, whether it is sent or not. -/
theorem value_getCrc_exists (m : ModbusMessage) : ∃ c, (getCrc f m).value = .ok c := by
  cases f with
  | fnReadCoilStatus | fnReadInputStatus | fnReadOutputRegisters | fnReadInputRegisters =>
    by_cases hdlen : m.dlen < 6
    · exact ⟨0, congrArg Checked.value (if_pos hdlen)⟩
    · exact ⟨_, congrArg Checked.value (if_neg hdlen)⟩
  | _ => exact ⟨_, rfl⟩

/-- The time to set is looked for in a cleared message and never found in order. -/
theorem value_checkFormat (rbuf : ModbusMessage) (hlen : bodyLen f bs ≤ bs.length) :
    (checkFormat f (rbuf.holding f.code bs.length bs)).value =
      .ok (decide (f ≠ fnSetDateTime ∧ InOrder f bs)) := by
  have h := holds_holding rbuf f.code bs.length bs
  cases f with
  | fnWriteOutputRegisters =>
    have hlen : 5 ≤ bs.length := Nat.le_trans (Nat.le_add_right 5 _) hlen
    have hbyte := h.value_byte (i := 4) (by omega)
    have hword := h.value_word (i := 2) (by omega)
    simp only [checkFormat, WriteOutputMessage.checkFormat, Checked.value_bind, hbyte, hword,
      Except.bind, Checked.value_pure]
    apply congrArg
    apply decide_eq_decide.mpr
    exact ⟨fun h => ⟨SlaveFunctionCode.noConfusion, h.1⟩, fun h => ⟨h.2, rfl⟩⟩
  | _ => rfl

theorem value_check (rbuf : ModbusMessage) (hlen : bs.length = bodyLen f bs + szSum crcNoCheckit) :
    (check crcNoCheckit f (rbuf.holding f.code bs.length bs)).value =
      if bs = bs.take (bodyLen f bs) ++
          sumOf crcNoCheckit rbuf.addr f.code (bs.take (bodyLen f bs)) then
        if f ≠ fnSetDateTime ∧ InOrder f bs then .ok () else .error (erFormat f)
      else .error erBadCheckSum := by
  have h := holds_holding rbuf f.code bs.length bs
  obtain ⟨c, hget, hc⟩ : ∃ c, (getCrc f (rbuf.holding f.code bs.length bs)).value = .ok c ∧
      (crcNoCheckit = false → c = wordOf bs (bodyLen f bs)) := by
    cases crcNoCheckit with
    | true =>
      obtain ⟨c, hget⟩ := value_getCrc_exists (f := f) (rbuf.holding f.code bs.length bs)
      exact ⟨c, hget, fun h => Bool.noConfusion h⟩
    | false => exact ⟨_, value_getCrc hlen, fun _ => rfl⟩
  have hformat := value_checkFormat rbuf (Nat.le_of_add_right_le (Nat.le_of_eq hlen.symm))
  unfold check
  rw [Checked.value_bind, value_verifyCRC h hlen hget hc]
  change Except.bind (if bs = bs.take (bodyLen f bs) ++
    sumOf crcNoCheckit rbuf.addr f.code (bs.take (bodyLen f bs)) then _ else _) _ = _
  split_ifs with hsum hok
  · simp only [Except.bind, Checked.value_bind, hformat, Checked.value_ite, decide_eq_true_eq]
    exact if_pos hok
  · simp only [Except.bind, Checked.value_bind, hformat, Checked.value_ite, decide_eq_true_eq]
    exact if_neg hok
  · rfl

end Check

theorem recv_pdu_cons (f : SlaveFunctionCode) (s : List ModbusByte) :
    recv_pdu crcNoCheckit rbuf (f.code :: s) = (do
      let r ← getParts crcNoCheckit f ⟨started crcNoCheckit f rbuf, s⟩
      (check crcNoCheckit f r.rbuf).mapError (·, [])
      return r) := by
  simp only [recv_pdu, ofByte_code]
  rfl

/-- The frame is there if the stream is long enough and the sum of its body is right. -/
theorem startsWith_iff {addr : ModbusAddr} {body rest : List ModbusByte} :
    StartsWith crcNoCheckit addr f body (f.code :: s) rest ↔
      szFrame crcNoCheckit f s ≤ s.length ∧ body = s.take (bodyLen f s) ∧
      s.take (szFrame crcNoCheckit f s) = body ++ sumOf crcNoCheckit addr f.code body ∧
      rest = s.drop (szFrame crcNoCheckit f s) := by
  constructor
  · rintro ⟨hlen, hs⟩
    have hbody : bodyLen f s = body.length := by
      rw [List.tail_eq_of_cons_eq hs]
      exact bodyLen_append hlen _
    exact frameOf_iff.mp ⟨hbody.symm, hs⟩
  · intro h
    obtain ⟨hlen, hs⟩ := frameOf_iff.mpr h
    refine ⟨?_, hs⟩
    rw [hlen, h.2.1, bodyLen_take (Nat.le_refl _)]

/-- The bytes of a frame are checked as the bytes behind the function are. -/
theorem length_take_frame (hle : szFrame crcNoCheckit f s ≤ s.length) :
    (s.take (szFrame crcNoCheckit f s)).length =
      bodyLen f (s.take (szFrame crcNoCheckit f s)) + szSum crcNoCheckit := by
  have hbody : bodyLen f s ≤ szFrame crcNoCheckit f s := Nat.le_add_right _ _
  rw [List.length_take_of_le hle, bodyLen_take hbody]
  rfl

theorem value_check_take (hle : szFrame crcNoCheckit f s ≤ s.length) :
    (check crcNoCheckit f (rbuf.holding f.code (szFrame crcNoCheckit f s)
        (s.take (szFrame crcNoCheckit f s)))).value =
      if s.take (szFrame crcNoCheckit f s) =
          s.take (bodyLen f s) ++ sumOf crcNoCheckit rbuf.addr f.code (s.take (bodyLen f s)) then
        if f ≠ fnSetDateTime ∧ InOrder f s then .ok () else .error (erFormat f)
      else .error erBadCheckSum := by
  have hbody : bodyLen f s ≤ szFrame crcNoCheckit f s := Nat.le_add_right _ _
  have hcheck := value_check rbuf (length_take_frame hle)
  rw [bodyLen_take hbody, List.length_take_of_le hle, List.take_take, Nat.min_eq_left hbody]
    at hcheck
  rw [hcheck]
  simp only [inOrder_take hbody]

/-- A request is taken from the bytes behind its function if they are a frame, in order, and do not
set the time. -/
theorem value_recv_pdu_eq_ok {r : Received} :
    (recv_pdu crcNoCheckit rbuf (f.code :: s)).value = .ok r ↔
      ∃ body, StartsWith crcNoCheckit rbuf.addr f body (f.code :: s) r.channel ∧
        (f ≠ fnSetDateTime ∧ InOrder f body) ∧
        r.rbuf = rbuf.holding f.code (szFrame crcNoCheckit f s)
          (body ++ sumOf crcNoCheckit rbuf.addr f.code body) := by
  have hin : InOrder f (s.take (bodyLen f s)) ↔ InOrder f s := inOrder_take (Nat.le_refl _)
  rw [recv_pdu_cons, Checked.value_bind, (gets crcNoCheckit f rbuf s).value]
  simp only [startsWith_iff]
  by_cases hshort : s.length < szFrame crcNoCheckit f s
  · rw [if_pos hshort]
    constructor
    · intro h
      cases h
    · rintro ⟨body, ⟨hle, -⟩, -⟩
      exact absurd hle (Nat.not_le_of_lt hshort)
  have hle : szFrame crcNoCheckit f s ≤ s.length := Nat.le_of_not_lt hshort
  rw [if_neg hshort, Except.bind, Checked.value_bind, Checked.value_mapError, value_check_take hle]
  by_cases hsum : s.take (szFrame crcNoCheckit f s) =
      s.take (bodyLen f s) ++ sumOf crcNoCheckit rbuf.addr f.code (s.take (bodyLen f s))
  · rw [if_pos hsum]
    by_cases hok : f ≠ fnSetDateTime ∧ InOrder f s
    · rw [if_pos hok]
      constructor
      · intro h
        cases h
        exact ⟨_, ⟨hle, rfl, hsum, rfl⟩, ⟨hok.1, hin.mpr hok.2⟩, by rw [← hsum]⟩
      · rintro ⟨body, ⟨-, rfl, -, hrest⟩, -, hrbuf⟩
        rw [← hsum] at hrbuf
        obtain ⟨rbuf', channel⟩ := r
        cases hrbuf
        cases hrest
        rfl
    · rw [if_neg hok]
      constructor
      · intro h
        cases h
      · rintro ⟨body, ⟨-, rfl, -⟩, hok', -⟩
        exact absurd ⟨hok'.1, hin.mp hok'.2⟩ hok
  · rw [if_neg hsum]
    constructor
    · intro h
      cases h
    · rintro ⟨body, ⟨-, rfl, hsum', -⟩, -⟩
      exact absurd hsum' hsum

/-- What is taken is a request of a known function. -/
theorem exists_of_value_recv_pdu {stream : List ModbusByte} {r : Received}
    (h : (recv_pdu crcNoCheckit rbuf stream).value = .ok r) :
    ∃ f s, stream = SlaveFunctionCode.code f :: s := by
  cases stream with
  | nil => cases h
  | cons func s =>
    cases hf : ofByte func with
    | none =>
      simp only [recv_pdu, hf] at h
      cases h
    | some f => exact ⟨f, s, congrArg (· :: s) (code_of_ofByte hf).symm⟩

/-- What the server takes of a function, and what it leaves. -/
theorem accepts_iff {stream rest : List ModbusByte} :
    (∃ m, (recv_pdu crcNoCheckit rbuf stream).value = .ok ⟨m, rest⟩ ∧ m.func = f.code) ↔
      f ≠ fnSetDateTime ∧
        ∃ body, StartsWith crcNoCheckit rbuf.addr f body stream rest ∧ InOrder f body := by
  constructor
  · rintro ⟨m, hvalue, hfunc⟩
    obtain ⟨g, s, rfl⟩ := exists_of_value_recv_pdu hvalue
    obtain ⟨body, hstart, hok, hm⟩ := value_recv_pdu_eq_ok.mp hvalue
    have hgf : g = f := code_inj ((congrArg ModbusMessage.func hm).symm.trans hfunc)
    cases hgf
    exact ⟨hok.1, body, hstart, hok.2⟩
  · rintro ⟨hf, body, hstart, hin⟩
    obtain ⟨s, rfl⟩ : ∃ s, stream = f.code :: s := ⟨_, hstart.stream_eq⟩
    exact ⟨_, value_recv_pdu_eq_ok.mpr ⟨body, hstart, ⟨hf, hin⟩, rfl⟩, rfl⟩

/-- The server takes a request of the function from the stream exactly if it begins with a frame of
it that is in order, and leaves what comes behind the frame. -/
def AcceptsFrames (crcNoCheckit : Bool) (rbuf : ModbusMessage) (f : SlaveFunctionCode)
    (stream : List ModbusByte) : Prop :=
  ∀ rest, (∃ m, (recv_pdu crcNoCheckit rbuf stream).value = .ok ⟨m, rest⟩ ∧ m.func = f.code) ↔
    ∃ body, StartsWith crcNoCheckit rbuf.addr f body stream rest ∧ InOrder f body

/-- The server does this for every function, every stream and with or without checksums, unless the
stream begins with a request to set the time. -/
theorem acceptsFrames_iff (crcNoCheckit : Bool) (rbuf : ModbusMessage) (f : SlaveFunctionCode)
    (stream : List ModbusByte) :
    AcceptsFrames crcNoCheckit rbuf f stream ↔
      ¬(f = fnSetDateTime ∧ ∃ body rest,
        StartsWith crcNoCheckit rbuf.addr fnSetDateTime body stream rest ∧
          (DateTime.ofBytes body).InRange) := by
  simp only [AcceptsFrames, accepts_iff]
  constructor
  · rintro h ⟨rfl, body, rest, hstart, hin⟩
    exact ((h rest).mpr ⟨body, hstart, hin⟩).1 rfl
  · intro h rest
    refine and_iff_right_of_imp ?_
    rintro ⟨body, hstart, hin⟩ rfl
    exact h ⟨rfl, body, rest, hstart, hin⟩

/-- A request to set the time to noon on the first day of 2024 is not taken. -/
theorem not_acceptsFrames :
    ¬AcceptsFrames false { ModbusMessage.new with addr := 1 } fnSetDateTime
      [0x50, 12, 0, 0, 1, 1, 24, 20, 148, 111] := by
  intro h
  have hstart : StartsWith false 1 fnSetDateTime [12, 0, 0, 1, 1, 24, 20]
      [0x50, 12, 0, 0, 1, 1, 24, 20, 148, 111] [] := ⟨rfl, rfl⟩
  obtain ⟨m, hvalue, -⟩ := (h []).mpr ⟨_, hstart, by decide⟩
  cases hvalue

end ModbusServer

end Uniset.Modbus
