import Uniset.Modbus.ObjectsSafety

/-! What the client reads and writes while it receives a reply and makes it from the message. -/

namespace Uniset.Modbus.ModbusClient

open Uniset.Lib SlaveFunctionCode

/-- The replies whose checksum is taken from where it would be if it were sent. -/
def SumExpected : SlaveFunctionCode → Prop
  | fnReadCoilStatus | fnReadInputStatus | fnReadOutputRegisters | fnReadInputRegisters
  | fnForceMultipleCoils | fnWriteOutputRegisters | fnWriteOutputSingleRegister
  | fnSetDateTime => True
  | _ => False

variable {crcNoCheckit : Bool} {f : SlaveFunctionCode} {k : Nat} {rbuf : ModbusMessage}
  {s : List ModbusByte}

/-- The message after the whole reply has been received. -/
def taken (crcNoCheckit : Bool) (f : SlaveFunctionCode) (rbuf : ModbusMessage)
    (s : List ModbusByte) : ModbusMessage :=
  rbuf.holding f.code (szReply crcNoCheckit f s) (s.take (szReply crcNoCheckit f s))

theorem holds_taken (crcNoCheckit : Bool) (f : SlaveFunctionCode) (rbuf : ModbusMessage)
    (s : List ModbusByte) :
    (taken crcNoCheckit f rbuf s).Holds (s.take (szReply crcNoCheckit f s)) :=
  holds_holding _ _ _ _

section Whole

variable (hle : szReply crcNoCheckit f s ≤ s.length)
include hle

theorem length_taken : (s.take (szReply crcNoCheckit f s)).length =
    readLen f s + szSum crcNoCheckit :=
  List.length_take_of_le hle

/-- The count of a reply with as many bytes as it says. -/
theorem counted_taken (hread : readLen f s = 1 + (s.getD 0 0).toNat) :
    (s.take (szReply crcNoCheckit f s)).length =
      1 + ((s.take (szReply crcNoCheckit f s)).getD 0 0).toNat + szSum crcNoCheckit := by
  have hpos : 0 < szReply crcNoCheckit f s := by
    rw [szReply, hread]
    omega
  rw [getD_take hpos, length_taken hle, hread]

variable (hk : szFirst crcNoCheckit f = some k)
include hk

/-- There is a checksum to compare, and it is the one behind the body if one is sent. -/
theorem value_getCrc (rbuf : ModbusMessage) :
    ∃ c, (getCrc f (taken crcNoCheckit f rbuf s)).value = .ok c ∧
    (crcNoCheckit = false → c = wordOf (s.take (szReply crcNoCheckit f s)) (readLen f s)) := by
  have h := holds_taken crcNoCheckit f rbuf s
  have hlen := length_taken hle
  cases crcNoCheckit with
  | true =>
    refine (?_ : ∃ c, (getCrc f _).value = .ok c).imp fun c hc => ⟨hc, fun h => Bool.noConfusion h⟩
    cases f <;> exact ⟨_, rfl⟩
  | false =>
    have hin : readLen f s + 1 < (s.take (szReply false f s)).length := by
      rw [hlen]
      exact Nat.lt_succ_self _
    refine ⟨_, ?_, fun _ => rfl⟩
    cases f with
    | fnReadCoilStatus | fnReadInputStatus | fnReadOutputRegisters | fnReadInputRegisters =>
      have hcount := counted_taken hle rfl
      have hvalue := fun f => value_getCrcCounted h f hcount
      rw [← Nat.add_right_cancel (hlen.symm.trans hcount)] at hvalue
      exact hvalue _
    | fnForceMultipleCoils | fnWriteOutputRegisters | fnWriteOutputSingleRegister
    | fnSetDateTime => exact value_getCrcAt h _ hin
    | fnForceSingleCoil | fnDiagnostics | fnMEI | fnFileTransfer =>
      exact value_getCrcLast h _ hlen hlen.symm
    | fnJournalCommand | fnRemoteService => cases hk

/-- Of a whole reply the checksum decides, and one that sets the time is never taken. -/
theorem value_check_eq_ok : (check crcNoCheckit f (taken crcNoCheckit f rbuf s)).value = .ok () ↔
    f ≠ fnSetDateTime ∧ s.take (szReply crcNoCheckit f s) = s.take (readLen f s) ++
      sumOf crcNoCheckit rbuf.addr f.code (s.take (readLen f s)) := by
  have h := holds_taken crcNoCheckit f rbuf s
  obtain ⟨c, hget, hc⟩ := value_getCrc hle hk rbuf
  have hread : readLen f s ≤ szReply crcNoCheckit f s := Nat.le_add_right _ _
  have htake : (s.take (szReply crcNoCheckit f s)).take (readLen f s) = s.take (readLen f s) := by
    rw [List.take_take, Nat.min_eq_left hread]
  have hverify := value_verifyCRC h (length_taken hle) hget hc
  rw [htake] at hverify
  change (verifyCRC crcNoCheckit (getCrc f) (taken crcNoCheckit f rbuf s)).value =
    if s.take (szReply crcNoCheckit f s) = s.take (readLen f s) ++
      sumOf crcNoCheckit rbuf.addr f.code (s.take (readLen f s)) then _ else _ at hverify
  have hsum : (verifyCRC crcNoCheckit (getCrc f) (taken crcNoCheckit f rbuf s)).value = .ok () ↔
      s.take (szReply crcNoCheckit f s) = s.take (readLen f s) ++
        sumOf crcNoCheckit rbuf.addr f.code (s.take (readLen f s)) := by
    rw [hverify]
    split
    · exact iff_of_true rfl ‹_›
    · exact iff_of_false (fun h => by cases h) ‹_›
  cases f with
  | fnSetDateTime =>
    refine iff_of_false (fun hok => ?_) fun h => h.1 rfl
    obtain ⟨u, -, hok⟩ := Checked.value_bind_eq_ok.mp hok
    cases hok
  | fnMEI =>
    refine Iff.trans ?_ (and_iff_right SlaveFunctionCode.noConfusion).symm
    cases crcNoCheckit with
    | true => exact iff_of_true rfl (List.append_nil _).symm
    | false => exact hsum
  | _ => exact hsum.trans (and_iff_right SlaveFunctionCode.noConfusion).symm

theorem safe_getCrc (rbuf : ModbusMessage) :
    (getCrc f (taken crcNoCheckit f rbuf s)).Safe ↔
    ¬(crcNoCheckit = true ∧ SumExpected f) := by
  have h := holds_taken crcNoCheckit f rbuf s
  have hlen := length_taken hle
  have hend : ∀ n, readLen f s = n → (n + 2 ≤ (s.take (szReply crcNoCheckit f s)).length ↔
      ¬(crcNoCheckit = true ∧ True)) := by
    rintro n rfl
    rw [hlen]
    cases crcNoCheckit <;> simp [szSum, szCRC]
  cases f with
  | fnReadCoilStatus | fnReadInputStatus | fnReadOutputRegisters | fnReadInputRegisters =>
    refine Iff.trans ?_ (hend _ rfl)
    have hcount := counted_taken hle rfl
    refine (safe_getCrcCounted h rfl).trans ?_
    rw [hlen] at hcount ⊢
    have hcount := Nat.add_right_cancel hcount
    change 1 + (s.getD 0 0).toNat = _ at hcount
    rw [← Nat.add_left_cancel hcount]
    simp only [readLen, replyLen]
    omega
  | fnForceMultipleCoils | fnWriteOutputRegisters | fnWriteOutputSingleRegister
  | fnSetDateTime => exact (safe_getCrcAt h rfl _).trans (hend _ rfl)
  | fnForceSingleCoil | fnDiagnostics | fnMEI | fnFileTransfer =>
    exact iff_of_true (safe_getCrcLast h rfl (Nat.le_of_eq hlen.symm)) And.right
  | fnJournalCommand | fnRemoteService => cases hk

theorem safe_verifyCRC (rbuf : ModbusMessage) :
    (verifyCRC crcNoCheckit (getCrc f) (taken crcNoCheckit f rbuf s)).Safe ↔
    ¬(crcNoCheckit = true ∧ SumExpected f) := by
  have h := holds_taken crcNoCheckit f rbuf s
  rw [← safe_getCrc hle hk rbuf]
  constructor
  · exact fun hsafe => ((Checked.safe_bind _ _).mp hsafe).1
  · intro hget
    refine hget.bind fun mcrc => ?_
    split
    · rfl
    · refine (h.safe_pduCRC (Nat.sub_le _ _)).bind fun tcrc => ?_
      split <;> rfl

theorem safe_check (rbuf : ModbusMessage) :
    (check crcNoCheckit f (taken crcNoCheckit f rbuf s)).Safe ↔
    ¬(crcNoCheckit = true ∧ SumExpected f) := by
  have hverify := safe_verifyCRC hle hk rbuf
  cases f with
  | fnMEI =>
    cases crcNoCheckit with
    | true => exact iff_of_true rfl And.right
    | false => exact hverify
  | fnSetDateTime =>
    rw [← hverify]
    constructor
    · exact fun hsafe => ((Checked.safe_bind _ _).mp hsafe).1
    · intro hsafe
      refine hsafe.bind fun _ => Checked.Safe.bind ?_ fun ok => ?_
      · exact ((safe_assert rfl).bind fun _ => Checked.safe_pure _).bind fun _ =>
          Checked.safe_pure _
      · split <;> rfl
  | _ => exact hverify

end Whole

/-- What has been read as a body is the body of a reply, and in order. -/
def Whole (f : SlaveFunctionCode) (s : List ModbusByte) : Prop :=
  (s.take (readLen f s)).length = replyLen f (s.take (readLen f s)) ∧
    ReplyInOrder f (s.take (readLen f s))

/-- The replies that are made from a message amiss, or from one that is no reply: a checksum is
looked for that is not sent; the counts of a part of a file differ; or there was no place for all
the objects of a device identification, and the checksum passes for the head of one more. -/
def DecodedAmiss (crcNoCheckit : Bool) (f : SlaveFunctionCode) (s : List ModbusByte) : Prop :=
  match f with
  | fnForceSingleCoil | fnJournalCommand | fnRemoteService => False
  | fnDiagnostics =>
    crcNoCheckit = true ∧ (szRequestDiagnosticData (SWAPSHORT (wordOf s 0))).isSome
  | fnFileTransfer => crcNoCheckit = true ∨ ¬ReplyInOrder fnFileTransfer s
  | fnMEI => crcNoCheckit = true ∨ (objectsLoop s (s.getD 5 0).toNat 6).2 ≠ 0 ∧
      (s.getD (szReply crcNoCheckit fnMEI s - 1) 0).toNat < 2
  | _ => crcNoCheckit = true

theorem value_decode {β : Type} {T : MessageType β} {init : ModbusMessage → Codec (Message β)}
    {m : ModbusMessage} (hinit : T.init = some init) :
    (T.decode m).value = .ok () ↔ ∃ v, (init m).value = .ok v := by
  unfold MessageType.decode
  rw [hinit]
  refine Checked.value_bind_eq_ok.trans ?_
  exact ⟨fun ⟨v, hv, _⟩ => ⟨v, hv⟩, fun ⟨v, hv⟩ => ⟨v, hv, rfl⟩⟩

section Decoding

variable (hle : szReply crcNoCheckit f s ≤ s.length)
include hle

/-- A body whose length is the same for all replies. -/
theorem whole_of_const {n : Nat} (hread : readLen f s = n) (hlen : ∀ bs, replyLen f bs = n)
    (horder : ∀ bs, ReplyInOrder f bs) : Whole f s := by
  refine ⟨?_, horder _⟩
  rw [hlen, List.length_take_of_le (Nat.le_of_add_right_le hle), hread]

theorem whole_counted (hread : readLen f s = 1 + (s.getD 0 0).toNat)
    (hlen : ∀ bs, replyLen f bs = 1 + (bs.getD 0 0).toNat) (horder : ∀ bs, ReplyInOrder f bs) :
    Whole f s := by
  refine ⟨?_, horder _⟩
  rw [hlen, List.length_take_of_le (Nat.le_of_add_right_le hle), getD_take (by omega), hread]

theorem replyInOrder_take (hf : f = fnFileTransfer) :
    ReplyInOrder f (s.take (readLen f s)) ↔ ReplyInOrder f s := by
  cases hf
  have hread : readLen fnFileTransfer s = 1 + (s.getD 0 0).toNat := rfl
  change ((s.take _).getD 0 0).toNat = 7 + ((s.take _).getD 7 0).toNat ↔
    (s.getD 0 0).toNat = 7 + (s.getD 7 0).toNat
  rw [getD_take (by omega)]
  by_cases hlong : 7 ≤ (s.getD 0 0).toNat
  · rw [getD_take (by omega)]
  · omega

/-- A part of a file. -/
theorem decode_filePart_iff (hf : f = fnFileTransfer) :
    (decode f (taken crcNoCheckit f rbuf s)).Safe ∧
      ((decode f (taken crcNoCheckit f rbuf s)).value = .ok () → Whole f s) ↔
    ¬DecodedAmiss crcNoCheckit f s := by
  cases hf
  have h := holds_taken crcNoCheckit fnFileTransfer rbuf s
  have hlen := length_taken hle
  have hread : readLen fnFileTransfer s = 1 + (s.getD 0 0).toNat := rfl
  have horder := replyInOrder_take hle rfl
  have hvalue : (decode fnFileTransfer (taken crcNoCheckit fnFileTransfer rbuf s)).value = .ok () :=
    (value_decode rfl).mpr ⟨_, rfl⟩
  have hcount : (s.take (readLen fnFileTransfer s)).length =
      replyLen fnFileTransfer (s.take (readLen fnFileTransfer s)) := by
    change _ = 1 + ((s.take _).getD 0 0).toNat
    rw [List.length_take_of_le (Nat.le_of_add_right_le hle), getD_take (by omega), hread]
  have hwhole : Whole fnFileTransfer s ↔ ReplyInOrder fnFileTransfer s :=
    (and_iff_right hcount).trans horder
  rw [hvalue, forall_prop_of_true rfl, hwhole]
  by_cases hin : ReplyInOrder fnFileTransfer s
  · have hin' : (s.getD 0 0).toNat = 7 + (s.getD 7 0).toNat := hin
    have hplace : 7 < szReply crcNoCheckit fnFileTransfer s := by
      rw [szReply, hread]
      omega
    have hsafe : (decode fnFileTransfer (taken crcNoCheckit fnFileTransfer rbuf s)).Safe ↔ _ :=
      (safe_decode rfl).trans (safe_init_filePart h rfl (by omega))
    rw [getD_take hplace, hlen, hread, hin'] at hsafe
    rw [and_iff_left hin]
    refine hsafe.trans ?_
    cases crcNoCheckit <;> simp [DecodedAmiss, hin, szSum, szCRC] <;> omega
  · exact iff_of_false (fun h => hin h.2) fun h => h (.inr hin)

/-- A device identification of the known kind. -/
theorem decode_mei_iff (hf : f = fnMEI) (hkind : s.getD 0 0 = 0x0E) :
    (decode f (taken crcNoCheckit f rbuf s)).Safe ∧
      ((decode f (taken crcNoCheckit f rbuf s)).value = .ok () → Whole f s) ↔
    ¬DecodedAmiss crcNoCheckit f s := by
  cases hf
  have h := holds_taken crcNoCheckit fnMEI rbuf s
  have hhead := le_objectsLoop s (s.getD 5 0).toNat 6
  have hread : readLen fnMEI s = (objectsLoop s (s.getD 5 0).toNat 6).1 := rfl
  have hsz : szReply crcNoCheckit fnMEI s =
    (objectsLoop s (s.getD 5 0).toNat 6).1 + szSum crcNoCheckit := rfl
  have he : (objectsLoop s (s.getD 5 0).toNat 6).1 ≤ szReply crcNoCheckit fnMEI s :=
    Nat.le_add_right _ _
  rw [show (decode fnMEI (taken crcNoCheckit fnMEI rbuf s)).Safe ↔ _ from safe_decode rfl,
    show (decode fnMEI (taken crcNoCheckit fnMEI rbuf s)).value = .ok () ↔ _ from value_decode rfl]
  cases crcNoCheckit with
  | true =>
    refine iff_of_false (fun hsafe => ?_) fun h => h (.inl rfl)
    exact not_safe_init_of_end h rfl hle rfl hkind he rfl hsafe.1
  | false =>
    by_cases hleft : (objectsLoop s (s.getD 5 0).toNat 6).2 = 0
    · obtain ⟨hsafe, hvalue⟩ := init_complete h rfl hle rfl hkind he hleft
      have hend := objectsEnd_of_loop s (s.getD 5 0).toNat 6 hleft
      have hwhole : Whole fnMEI s := by
        rw [Whole, hread]
        constructor
        · change _ = objectsEnd (s.take _) ((s.take _).getD 5 0).toNat 6
          rw [getD_take (by omega), objectsEnd_take _ _ (Nat.le_of_eq hend), hend,
            List.length_take_of_le (Nat.le_trans he hle)]
        · exact (getD_take (by omega)).trans hkind
      refine iff_of_true ⟨hsafe.mpr ?_, fun _ => hwhole⟩ ?_
      · rw [hsz, Nat.add_comm]
        rfl
      · rintro (h | h)
        · cases h
        · exact h.1 hleft
    · obtain ⟨left, hleft'⟩ := Nat.exists_eq_succ_of_ne_zero hleft
      obtain ⟨hsafe, hvalue⟩ := init_incomplete h rfl hle rfl hkind he hleft' rfl
      refine Iff.trans ⟨fun h => h.1, fun h => ⟨h, fun hv => absurd hv (hvalue h)⟩⟩ (hsafe.trans ?_)
      simp only [DecodedAmiss, Bool.false_eq_true, false_or, ne_eq, hleft, not_false_eq_true,
        true_and, Nat.not_lt]

/-- How a reply that was received is made from the message. -/
theorem decode_iff (rbuf : ModbusMessage) (hk : szFirst crcNoCheckit f = some k) (hf : f ≠ fnSetDateTime)
    (hsum : ¬(crcNoCheckit = true ∧ SumExpected f)) (hkind : KnownKind f s) :
    (decode f (taken crcNoCheckit f rbuf s)).Safe ∧
      ((decode f (taken crcNoCheckit f rbuf s)).value = .ok () → Whole f s) ↔
    ¬DecodedAmiss crcNoCheckit f s := by
  have h := holds_taken crcNoCheckit f rbuf s
  have hlen := length_taken hle
  cases f with
  | fnReadCoilStatus | fnReadInputStatus | fnReadOutputRegisters | fnReadInputRegisters =>
    have hcrc : crcNoCheckit = false := by simpa [SumExpected] using hsum
    cases hcrc
    have hwhole := whole_counted hle rfl (fun _ => rfl) fun _ => trivial
    refine iff_of_true ⟨(safe_decode rfl).mpr ?_, fun _ => hwhole⟩ Bool.noConfusion
    have hcount := counted_taken hle rfl
    first
    | exact safe_init_bits h rfl hcount
    | exact safe_init_words h rfl hcount
  | fnForceMultipleCoils | fnWriteOutputRegisters =>
    have hcrc : crcNoCheckit = false := by simpa [SumExpected] using hsum
    cases hcrc
    have hwhole := whole_of_const hle rfl (fun _ => rfl) fun _ => trivial
    refine iff_of_true ⟨(safe_decode rfl).mpr ?_, fun _ => hwhole⟩ Bool.noConfusion
    exact (safe_initCopied h rfl hlen.symm (Nat.le_of_eq hlen)).mpr (Nat.le_of_eq hlen.symm)
  | fnWriteOutputSingleRegister =>
    have hcrc : crcNoCheckit = false := by simpa [SumExpected] using hsum
    cases hcrc
    have hwhole := whole_of_const hle rfl (fun _ => rfl) fun _ => trivial
    refine iff_of_true ⟨(safe_decode rfl).mpr ?_, fun _ => hwhole⟩ Bool.noConfusion
    exact safe_initPlain h hlen.symm (Nat.le_of_eq hlen)
  | fnForceSingleCoil =>
    have hwhole := whole_of_const hle rfl (fun _ => rfl) fun _ => trivial
    refine iff_of_true ⟨(safe_decode rfl).mpr ?_, fun _ => hwhole⟩ id
    refine safe_initPlain h hlen.symm ?_
    rw [hlen]
    exact Nat.add_le_add_left (szSum_le crcNoCheckit) 4
  | fnDiagnostics =>
    have hread : readLen fnDiagnostics s = 2 + szDiagnosticData (SWAPSHORT (wordOf s 0)) := rfl
    have hplace : 0 + 1 < szReply crcNoCheckit fnDiagnostics s := by
      rw [szReply, hread]
      omega
    have hwhole : Whole fnDiagnostics s := by
      refine ⟨?_, trivial⟩
      change _ = 2 + szDiagnosticData (SWAPSHORT (wordOf (s.take _) 0))
      rw [List.length_take_of_le (Nat.le_of_add_right_le hle), wordOf_take (by omega), hread]
    rw [and_iff_left fun _ => hwhole]
    have hsafe : (decode fnDiagnostics (taken crcNoCheckit fnDiagnostics rbuf s)).Safe ↔ _ :=
      (safe_decode rfl).trans (safe_init_diagnostic h rfl (by omega))
    rw [wordOf_take hplace, hlen, hread] at hsafe
    refine hsafe.trans ?_
    cases hsf : szRequestDiagnosticData (SWAPSHORT (wordOf s 0)) with
    | none => simp [DecodedAmiss, hsf]
    | some n =>
      have hone : n = 1 := szRequestDiagnosticData_eq_some hsf
      cases crcNoCheckit <;> simp [szDiagnosticData, hsf, hone, szSum, szCRC, sizeofModbusData,
        DecodedAmiss]
  | fnMEI => exact decode_mei_iff hle rfl (hkind rfl)
  | fnFileTransfer => exact decode_filePart_iff hle rfl
  | fnSetDateTime => exact absurd rfl hf
  | fnJournalCommand | fnRemoteService => cases hk

end Decoding

/-! The reply to a request that the server refused. -/

section ErrorReply

variable {qfunc func : ModbusByte}

/-- The message of an error before anything of it is received. -/
def errorStarted (crcNoCheckit : Bool) (func : ModbusByte) (rbuf : ModbusMessage)
    (s : List ModbusByte) : Received :=
  readUpTo rbuf func (withoutCRC crcNoCheckit 3) s 0

theorem withoutCRC_three (crcNoCheckit : Bool) :
    withoutCRC crcNoCheckit 3 = 1 + szSum crcNoCheckit := withoutCRC_add crcNoCheckit 1

section Received

variable {ecode : ModbusByte} (hle : 1 + szSum crcNoCheckit ≤ (ecode :: s).length)
include hle

/-- What is made of an error that was received. -/
theorem value_init_error (rbuf : ModbusMessage) (func : ModbusByte) :
    ∃ c, (ErrorRetMessage.init (readUpTo rbuf func (1 + szSum crcNoCheckit)
      (ecode :: s) (1 + szSum crcNoCheckit)).rbuf).value = .ok ⟨rbuf.addr, func, ecode, c⟩ ∧
    (crcNoCheckit = false → c = wordOf ((ecode :: s).take (1 + szSum crcNoCheckit)) 1) := by
  have h := holds_readUpTo rbuf func (1 + szSum crcNoCheckit) (ecode :: s) (1 + szSum crcNoCheckit)
  have hbyte := (byte_readUpTo rbuf func (1 + szSum crcNoCheckit) hle
    (by omega : 0 < 1 + szSum crcNoCheckit)).1
  have hinit : ∀ c, ((readUpTo rbuf func (1 + szSum crcNoCheckit) (ecode :: s)
      (1 + szSum crcNoCheckit)).rbuf.word (szModbusHeader + 1)).value = .ok c →
      (ErrorRetMessage.init (readUpTo rbuf func (1 + szSum crcNoCheckit) (ecode :: s)
        (1 + szSum crcNoCheckit)).rbuf).value = .ok ⟨rbuf.addr, func, ecode, c⟩ := by
    intro c hc
    simp only [ErrorRetMessage.init, Checked.value_bind, hbyte, hc, Except.bind]
    rfl
  cases crcNoCheckit with
  | true => exact ⟨_, hinit _ rfl, fun h => Bool.noConfusion h⟩
  | false =>
    refine ⟨_, hinit _ (h.value_word ?_), fun _ => rfl⟩
    rw [List.length_take_of_le hle]
    decide

/-- The sum of an error decides, and then the code in it. -/
theorem value_recvError_whole {r : Received} :
    (recvError crcNoCheckit (errorStarted crcNoCheckit func rbuf (ecode :: s))).value = .ok r ↔
      ((ecode :: s).take (1 + szSum crcNoCheckit) =
        [ecode] ++ sumOf crcNoCheckit rbuf.addr func [ecode] ∧ ecode = 0) ∧
      r = readUpTo rbuf func (1 + szSum crcNoCheckit) (ecode :: s) (1 + szSum crcNoCheckit) := by
  obtain ⟨c, hinit, hc⟩ := value_init_error hle rbuf func
  have h := holds_readUpTo rbuf func (1 + szSum crcNoCheckit) (ecode :: s) (1 + szSum crcNoCheckit)
  have hfirst := value_getNextData_readUpTo rbuf func (1 + szSum crcNoCheckit)
    (Nat.zero_le (ecode :: s).length) (1 + szSum crcNoCheckit)
  have hverify := value_verifyCRC (g := fun _ => return c) h (List.length_take_of_le hle) rfl hc
  have htake : ((ecode :: s).take (1 + szSum crcNoCheckit)).take 1 = [ecode] := by
    rw [List.take_take, Nat.min_eq_left (Nat.le_add_right _ _)]
    rfl
  rw [Nat.zero_add, if_neg (Nat.not_lt_of_le hle)] at hfirst
  rw [htake] at hverify
  change _ = if (ecode :: s).take _ = [ecode] ++ sumOf crcNoCheckit rbuf.addr func [ecode]
    then _ else _ at hverify
  have hcode : ecode.toNat = erNoError.code ↔ ecode = 0 := UInt8.toNat_inj (b := 0)
  unfold recvError errorStarted
  rw [withoutCRC_three]
  change (getNextData 0 (1 + szSum crcNoCheckit) _ >>= _ : Reception Received).value = _ ↔ _
  rw [Checked.value_bind, hfirst, Except.bind, Checked.value_bind,
    Checked.value_mapError_ok hinit, Except.bind, Checked.value_bind, Checked.value_mapError,
    hverify]
  simp only [Checked.value_ite, hcode]
  by_cases hsum : (ecode :: s).take (1 + szSum crcNoCheckit) =
      [ecode] ++ sumOf crcNoCheckit rbuf.addr func [ecode]
  · rw [if_pos hsum, and_iff_right hsum]
    by_cases hzero : ecode = 0
    · rw [and_iff_right hzero]
      exact (Eq.congr_left (if_pos hzero)).trans
        ⟨fun h => (Except.ok.inj h).symm, fun h => congrArg Except.ok h.symm⟩
    · refine iff_of_false (fun hr => ?_) fun h => hzero h.1
      have hr := (if_neg hzero).symm.trans hr
      cases hr
  · rw [if_neg hsum]
    exact iff_of_false (fun hr => by cases hr) fun h => hsum h.1.1

end Received

theorem errorStarted_short (hshort : s.length < 1 + szSum crcNoCheckit) :
    (getNextData 0 (errorStarted crcNoCheckit func rbuf s).rbuf.dlen
      (errorStarted crcNoCheckit func rbuf s)).value = .error (erInvalidFormat, []) := by
  refine (value_getNextData_readUpTo _ _ _ (Nat.zero_le _) _).trans (if_pos ?_)
  change s.length < 0 + withoutCRC crcNoCheckit 3
  rwa [Nat.zero_add, withoutCRC_three]

/-- An error is taken for a reply if the code in it is none. -/
theorem value_recvError_eq_ok {r : Received} :
    (recvError crcNoCheckit (errorStarted crcNoCheckit func rbuf s)).value = .ok r ↔
      (∃ rest, FrameOf crcNoCheckit rbuf.addr func [0] (func :: s) rest) ∧
        r = readUpTo rbuf func (1 + szSum crcNoCheckit) s (1 + szSum crcNoCheckit) := by
  have hframe : ∀ rest, FrameOf crcNoCheckit rbuf.addr func [0] (func :: s) rest ↔
      1 + szSum crcNoCheckit ≤ s.length ∧ [0] = s.take 1 ∧
        s.take (1 + szSum crcNoCheckit) = [0] ++ sumOf crcNoCheckit rbuf.addr func [0] ∧
        rest = s.drop (1 + szSum crcNoCheckit) := fun rest => by
    rw [← frameOf_iff]
    exact (and_iff_right rfl).symm
  by_cases hshort : s.length < 1 + szSum crcNoCheckit
  · refine iff_of_false (fun hr => ?_) fun ⟨⟨rest, h⟩, _⟩ =>
      Nat.not_le_of_lt hshort ((hframe rest).mp h).1
    unfold recvError at hr
    rw [Checked.value_bind, errorStarted_short hshort] at hr
    cases hr
  have hle : 1 + szSum crcNoCheckit ≤ s.length := Nat.le_of_not_lt hshort
  obtain ⟨ecode, s, rfl⟩ : ∃ e s', s = e :: s' :=
    List.exists_cons_of_length_pos (Nat.lt_of_lt_of_le (by omega) hle)
  rw [value_recvError_whole hle]
  apply and_congr_left
  intro _
  constructor
  · rintro ⟨hsum, rfl⟩
    exact ⟨_, (hframe _).mpr ⟨hle, rfl, hsum, rfl⟩⟩
  · rintro ⟨rest, h⟩
    obtain ⟨-, hbody, hsum, -⟩ := (hframe rest).mp h
    have hzero : ecode = 0 := (List.head_eq_of_cons_eq hbody).symm
    cases hzero
    exact ⟨hsum, rfl⟩

/-- The checksum of an error is looked for, though none may be sent. -/
theorem safe_recvError : (recvError crcNoCheckit (errorStarted crcNoCheckit func rbuf s)).Safe ↔
    ¬(crcNoCheckit = true ∧ s ≠ []) := by
  have hfirst : (getNextData 0 (errorStarted crcNoCheckit func rbuf s).rbuf.dlen
      (errorStarted crcNoCheckit func rbuf s)).Safe := by
    refine (safe_getNextData_readUpTo (Nat.zero_le _) _).mpr (Nat.le_trans (Nat.min_le_left _ _) ?_)
    change 0 + withoutCRC crcNoCheckit 3 ≤ _
    cases crcNoCheckit <;> decide
  unfold recvError
  by_cases hshort : s.length < 1 + szSum crcNoCheckit
  · refine iff_of_true ((Checked.safe_bind _ _).mpr ⟨hfirst, fun r hr => ?_⟩) ?_
    · rw [errorStarted_short hshort] at hr
      cases hr
    · rintro ⟨rfl, hs⟩
      exact hs (List.eq_nil_of_length_eq_zero (Nat.lt_one_iff.mp hshort))
  have hle : 1 + szSum crcNoCheckit ≤ s.length := Nat.le_of_not_lt hshort
  have hs : s ≠ [] := List.ne_nil_of_length_pos (Nat.lt_of_lt_of_le (by omega) hle)
  have h := holds_readUpTo rbuf func (1 + szSum crcNoCheckit) s (1 + szSum crcNoCheckit)
  have hvalue : (getNextData 0 (errorStarted crcNoCheckit func rbuf s).rbuf.dlen
      (errorStarted crcNoCheckit func rbuf s)).value =
      .ok (readUpTo rbuf func (1 + szSum crcNoCheckit) s (1 + szSum crcNoCheckit)) := by
    have hfirst := value_getNextData_readUpTo rbuf func (1 + szSum crcNoCheckit)
      (Nat.zero_le s.length) (1 + szSum crcNoCheckit)
    rw [Nat.zero_add, if_neg hshort] at hfirst
    rw [← hfirst, errorStarted, withoutCRC_three]
    rfl
  have hinit : (ErrorRetMessage.init (readUpTo rbuf func (1 + szSum crcNoCheckit) s
      (1 + szSum crcNoCheckit)).rbuf).Safe ↔ ¬(crcNoCheckit = true ∧ s ≠ []) := by
    refine (Checked.safe_bind_ok rfl _).trans
      ((and_iff_right ((byte_readUpTo _ _ _ hle (by omega)).2)).trans ?_)
    refine ((safe_word_bind (p := True) h fun _ =>
      iff_of_true (Checked.safe_pure _) trivial)).trans ?_
    rw [List.length_take_of_le hle]
    cases crcNoCheckit <;> simp [hs, szSum, szCRC, szModbusHeader]
  rw [Checked.safe_bind_ok hvalue, and_iff_right hfirst, ← hinit]
  constructor
  · exact fun hsafe => ((Checked.safe_bind _ _).mp hsafe).1
  · intro hsafe
    refine (hsafe.mapError _).bind fun em => Checked.Safe.bind ?_ fun _ => ?_
    · refine Checked.Safe.mapError ((Checked.safe_pure _).bind fun c => ?_) _
      split
      · rfl
      · refine (h.safe_pduCRC (Nat.sub_le _ _)).bind fun tcrc => ?_
        split <;> rfl
    · split <;> rfl

end ErrorReply

end Uniset.Modbus.ModbusClient
