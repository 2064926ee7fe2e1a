import Uniset.Modbus.ReplyRobustness
import Uniset.Modbus.RequestRobustness

/-! On which streams a server and a client stay within what they have received and within their
memory, and take nothing for a message that is none. -/

namespace Uniset.Modbus.ModbusClient

open Uniset.Lib SlaveFunctionCode

variable {crcNoCheckit : Bool} {f : SlaveFunctionCode} {k : Nat} {rbuf : ModbusMessage}
  {s stream : List ModbusByte} {qfunc func : ModbusByte}

/-- The objects of a device identification go on behind the end of the buffer. -/
def Overflows (crcNoCheckit : Bool) (f : SlaveFunctionCode) (s : List ModbusByte) : Prop :=
  f = fnMEI ∧ s.getD 0 0 = 0x0E ∧ MAXLENPACKET + szCRC < min (szReply crcNoCheckit f s) s.length

/-- A stream that begins with an error whose code is none or whose checksum is looked for without
being sent, with objects for which there is no place, or with a reply that is made amiss. -/
def Misread (crcNoCheckit : Bool) (qfunc : ModbusByte) (addr : ModbusAddr)
    (stream : List ModbusByte) : Prop :=
  (∃ ecode rest, FrameOf crcNoCheckit addr (qfunc ||| MBErrMask) [ecode] stream rest ∧
    (crcNoCheckit = true ∨ ecode = 0)) ∨
  ∃ f s, qfunc = SlaveFunctionCode.code f ∧ stream = f.code :: s ∧
    (Overflows crcNoCheckit f s ∨
      KnownKind f s ∧ DecodedAmiss crcNoCheckit f s ∧
        ∃ body rest, body.length = readLen f s ∧ FrameOf crcNoCheckit addr f.code body stream rest)

/-- Receiving a reply to a request of the function `qfunc` and making it stays within what was
received and within its objects, and nothing but a reply of the function, in order, is taken. -/
def Robust (crcNoCheckit : Bool) (qfunc : ModbusByte) (rbuf : ModbusMessage)
    (stream : List ModbusByte) : Prop :=
  (recvReply crcNoCheckit qfunc rbuf stream).Safe ∧
    ∀ r, (recvReply crcNoCheckit qfunc rbuf stream).value = .ok r →
      ∃ f body, qfunc = SlaveFunctionCode.code f ∧ body.length = replyLen f body ∧
        FrameOf crcNoCheckit rbuf.addr f.code body stream r.channel ∧ ReplyInOrder f body

theorem code_or_ne (f : SlaveFunctionCode) : f.code ||| MBErrMask ≠ f.code := by
  cases f <;> decide

/-- What is refused is robust and is not misread. -/
theorem robust_of_error {e : mbErrCode}
    (h : recv_pdu crcNoCheckit qfunc rbuf stream = cleanupChannel e) :
    Robust crcNoCheckit qfunc rbuf stream := by
  have hreply : recvReply crcNoCheckit qfunc rbuf stream = cleanupChannel e := by
    unfold recvReply
    rw [h]
    rfl
  refine ⟨by rw [hreply]; rfl, fun r hr => ?_⟩
  rw [hreply] at hr
  cases hr

theorem value_eq_ok_of_mapError {e : mbErrCode → mbErrCode × List ModbusByte} {x : Codec Unit}
    (h : (x.mapError e).value = .ok ()) : x.value = .ok () := by
  rw [Checked.value_mapError] at h
  cases hx : x.value with
  | ok u => rfl
  | error err =>
    rw [hx] at h
    cases h

theorem frameOf_readLen {addr : ModbusAddr} {body rest : List ModbusByte} :
    body.length = readLen f s ∧ FrameOf crcNoCheckit addr f.code body (f.code :: s) rest ↔
      szReply crcNoCheckit f s ≤ s.length ∧ body = s.take (readLen f s) ∧
      s.take (szReply crcNoCheckit f s) = body ++ sumOf crcNoCheckit addr f.code body ∧
      rest = s.drop (szReply crcNoCheckit f s) :=
  frameOf_iff

theorem exists_frameOf_readLen {addr : ModbusAddr} :
    (∃ body rest, body.length = readLen f s ∧
      FrameOf crcNoCheckit addr f.code body (f.code :: s) rest) ↔
    szReply crcNoCheckit f s ≤ s.length ∧ s.take (szReply crcNoCheckit f s) =
      s.take (readLen f s) ++ sumOf crcNoCheckit addr f.code (s.take (readLen f s)) := by
  simp only [frameOf_readLen]
  constructor
  · rintro ⟨body, rest, hle, rfl, hsum, -⟩
    exact ⟨hle, hsum⟩
  · rintro ⟨hle, hsum⟩
    exact ⟨_, _, hle, rfl, hsum, rfl⟩

/-- A frame with what is left behind it is the frame that was read. -/
theorem whole_of_frame {addr : ModbusAddr} {body : List ModbusByte}
    (hle : szReply crcNoCheckit f s ≤ s.length) (hlen : body.length = replyLen f body)
    (hframe : FrameOf crcNoCheckit addr f.code body (f.code :: s)
      (s.drop (szReply crcNoCheckit f s))) (horder : ReplyInOrder f body) : Whole f s := by
  obtain ⟨hle', hbody, -, hrest⟩ := frameOf_iff.mp ⟨rfl, hframe⟩
  have hread : body.length = readLen f s := by
    have hrest := congrArg List.length hrest
    rw [List.length_drop, List.length_drop] at hrest
    have hsz : szReply crcNoCheckit f s = readLen f s + szSum crcNoCheckit := rfl
    omega
  rw [hread] at hbody
  rw [Whole, ← hbody]
  exact ⟨hlen, horder⟩

/-- What is taken if nothing is misread is a reply in order. -/
theorem whole_of_robust {r : Received} (hle : szReply crcNoCheckit f s ≤ s.length)
    (hr : r = readUpTo rbuf f.code (szReply crcNoCheckit f s) s (szReply crcNoCheckit f s))
    (h : ∃ g body, f.code = SlaveFunctionCode.code g ∧ body.length = replyLen g body ∧
      FrameOf crcNoCheckit rbuf.addr g.code body (f.code :: s) r.channel ∧ ReplyInOrder g body) :
    Whole f s := by
  subst hr
  obtain ⟨g, body, hcode, hlen, hframe, horder⟩ := h
  cases code_inj hcode
  exact whole_of_frame hle hlen hframe horder

section Reply

variable (hk : szFirst crcNoCheckit f = some k)
include hk

theorem recv_pdu_reply : recv_pdu crcNoCheckit f.code rbuf (f.code :: s) = (do
    let r ← getParts crcNoCheckit f k (readUpTo rbuf f.code k s 0)
    (check crcNoCheckit f r.rbuf).mapError (·, r.channel)
    return r) := by
  unfold getParts
  rw [Checked.bind_assoc]
  simp only [recv_pdu, if_neg (code_or_ne f).symm, ne_eq, not_true_eq_false, if_false,
    ofByte_code, hk]
  rfl

/-- When a reply of the function is taken. -/
theorem value_recv_pdu_reply (rbuf : ModbusMessage) {r : Received} :
    (recv_pdu crcNoCheckit f.code rbuf (f.code :: s)).value = .ok r ↔
      (KnownKind f s ∧ szReply crcNoCheckit f s ≤ s.length ∧ f ≠ fnSetDateTime ∧
        s.take (szReply crcNoCheckit f s) = s.take (readLen f s) ++
          sumOf crcNoCheckit rbuf.addr f.code (s.take (readLen f s))) ∧
      r = readUpTo rbuf f.code (szReply crcNoCheckit f s) s (szReply crcNoCheckit f s) := by
  rw [recv_pdu_reply hk, Checked.value_bind_eq_ok]
  constructor
  · rintro ⟨r', hparts, hcheck⟩
    obtain ⟨hkind, hle, rfl⟩ := ((gets hk).value r').mp hparts
    obtain ⟨u, hok, hr⟩ := Checked.value_bind_eq_ok.mp hcheck
    cases hr
    exact ⟨⟨hkind, hle, (value_check_eq_ok hle hk).mp (value_eq_ok_of_mapError hok)⟩, rfl⟩
  · rintro ⟨⟨hkind, hle, hsum⟩, rfl⟩
    refine ⟨_, ((gets hk).value _).mpr ⟨hkind, hle, rfl⟩,
      Checked.value_bind_eq_ok.mpr ⟨(), ?_, rfl⟩⟩
    exact Checked.value_mapError_ok ((value_check_eq_ok hle hk).mpr hsum) _

theorem safe_recv_pdu_reply : (recv_pdu crcNoCheckit f.code rbuf (f.code :: s)).Safe ↔
    ¬Overflows crcNoCheckit f s ∧ (KnownKind f s → szReply crcNoCheckit f s ≤ s.length →
      ¬(crcNoCheckit = true ∧ SumExpected f)) := by
  have hover : (f = fnMEI → s.getD 0 0 = 0x0E →
      min (szReply crcNoCheckit f s) s.length ≤ MAXLENPACKET + szCRC) ↔
      ¬Overflows crcNoCheckit f s := by
    constructor
    · rintro h ⟨hf, hkind, hlt⟩
      exact Nat.not_le_of_lt hlt (h hf hkind)
    · intro h hf hkind
      exact Nat.le_of_not_lt fun hlt => h ⟨hf, hkind, hlt⟩
  rw [recv_pdu_reply hk, Checked.safe_bind, (gets hk).safe, hover]
  apply and_congr_right
  intro _
  constructor
  · intro h hkind hle
    have hsafe := h _ (((gets hk).value _).mpr ⟨hkind, hle, rfl⟩)
    exact (safe_check hle hk rbuf).mp ((Checked.safe_bind _ _).mp hsafe).1
  · intro h r hr
    obtain ⟨hkind, hle, rfl⟩ := ((gets hk).value r).mp hr
    have hsafe := (safe_check hle hk rbuf).mpr (h hkind hle)
    exact (hsafe.mapError _).bind fun _ => Checked.safe_pure _

theorem safe_recvReply : (recvReply crcNoCheckit f.code rbuf (f.code :: s)).Safe ↔
    (recv_pdu crcNoCheckit f.code rbuf (f.code :: s)).Safe ∧
      ((∃ r, (recv_pdu crcNoCheckit f.code rbuf (f.code :: s)).value = .ok r) →
        (decode f (taken crcNoCheckit f rbuf s)).Safe) := by
  unfold recvReply
  rw [Checked.safe_bind]
  simp only [ofByte_code]
  apply and_congr_right
  intro _
  constructor
  · rintro h ⟨r, hr⟩
    have hsafe := ((Checked.safe_bind _ _).mp (h r hr)).1
    rwa [((value_recv_pdu_reply hk rbuf).mp hr).2] at hsafe
  · intro h r hr
    have hsafe := h ⟨r, hr⟩
    refine Checked.Safe.bind ?_ fun _ => Checked.safe_pure _
    rw [((value_recv_pdu_reply hk rbuf).mp hr).2]
    exact hsafe

theorem value_recvReply {r : Received} :
    (recvReply crcNoCheckit f.code rbuf (f.code :: s)).value = .ok r ↔
      (recv_pdu crcNoCheckit f.code rbuf (f.code :: s)).value = .ok r ∧
        (decode f (taken crcNoCheckit f rbuf s)).value = .ok () := by
  unfold recvReply
  simp only [ofByte_code]
  rw [Checked.value_bind_eq_ok]
  constructor
  · rintro ⟨r', hr', h⟩
    obtain ⟨u, hok, hr⟩ := Checked.value_bind_eq_ok.mp h
    cases hr
    refine ⟨hr', ?_⟩
    rw [((value_recv_pdu_reply hk rbuf).mp hr').2] at hok
    exact value_eq_ok_of_mapError hok
  · rintro ⟨hr, hdecode⟩
    refine ⟨r, hr, Checked.value_bind_eq_ok.mpr ⟨(), ?_, rfl⟩⟩
    rw [((value_recv_pdu_reply hk rbuf).mp hr).2]
    exact Checked.value_mapError_ok hdecode _

/-- A reply of the function is received and made without a fault exactly if it is not misread. -/
theorem robust_reply_iff : Robust crcNoCheckit f.code rbuf (f.code :: s) ↔
    ¬(Overflows crcNoCheckit f s ∨ KnownKind f s ∧ DecodedAmiss crcNoCheckit f s ∧
      ∃ body rest, body.length = readLen f s ∧
        FrameOf crcNoCheckit rbuf.addr f.code body (f.code :: s) rest) := by
  rw [Robust, safe_recvReply hk, safe_recv_pdu_reply hk, exists_frameOf_readLen]
  constructor
  · rintro ⟨⟨⟨hover, hpdu⟩, hdecode⟩, hwhole⟩ (h | ⟨hkind, hamiss, hle, hsum⟩)
    · exact hover h
    have hf : f ≠ fnSetDateTime := fun hf => by
      cases hf
      exact hpdu hkind hle ⟨hamiss, trivial⟩
    have htaken := (value_recv_pdu_reply hk rbuf).mpr ⟨⟨hkind, hle, hf, hsum⟩, rfl⟩
    have hgood := decode_iff hle rbuf hk hf (hpdu hkind hle) hkind
    refine hgood.mp ⟨hdecode ⟨_, htaken⟩, fun hok => ?_⟩ hamiss
    exact whole_of_robust hle rfl (hwhole _ ((value_recvReply hk).mpr ⟨htaken, hok⟩))
  · intro h
    have hover : ¬Overflows crcNoCheckit f s := fun hover => h (.inl hover)
    have hpdu : KnownKind f s → szReply crcNoCheckit f s ≤ s.length →
        ¬(crcNoCheckit = true ∧ SumExpected f) := by
      rintro hkind hle ⟨rfl, hf⟩
      refine h (.inr ⟨hkind, ?_, hle, (List.append_nil _).symm⟩)
      cases f <;> first | rfl | cases hf
    have hdecode : ∀ r, (recv_pdu crcNoCheckit f.code rbuf (f.code :: s)).value = .ok r →
        (decode f (taken crcNoCheckit f rbuf s)).Safe ∧
          ((decode f (taken crcNoCheckit f rbuf s)).value = .ok () → Whole f s) := by
      intro r hr
      obtain ⟨⟨hkind, hle, hf, hsum⟩, -⟩ := (value_recv_pdu_reply hk rbuf).mp hr
      refine (decode_iff hle rbuf hk hf (hpdu hkind hle) hkind).mpr fun hamiss => ?_
      exact h (.inr ⟨hkind, hamiss, hle, hsum⟩)
    refine ⟨⟨⟨hover, hpdu⟩, fun ⟨r, hr⟩ => (hdecode r hr).1⟩, fun r hr => ?_⟩
    obtain ⟨hr, hok⟩ := (value_recvReply hk).mp hr
    obtain ⟨hlen, horder⟩ := (hdecode r hr).2 hok
    obtain ⟨⟨-, hle, -, hsum⟩, rfl⟩ := (value_recv_pdu_reply hk rbuf).mp hr
    exact ⟨f, _, rfl, hlen, (frameOf_readLen.mpr ⟨hle, rfl, hsum, rfl⟩).2, horder⟩

end Reply

/-- The constructor of a reply asserts the function, if there is anything it can refuse. -/
theorem value_decode_of_safe {m : ModbusMessage} (hfunc : m.func ≠ f.code)
    (h : (decode f m).Safe) : (decode f m).value = .ok () := by
  have hassert : ∀ {α : Type} {x : Codec α}, ¬(assert (m.func = f.code) >>= fun _ => x).Safe :=
    fun hsafe => hfunc ((Checked.safe_require _ _).mp ((Checked.safe_bind _ _).mp hsafe).1)
  cases f with
  | fnForceSingleCoil | fnWriteOutputSingleRegister | fnJournalCommand | fnRemoteService => rfl
  | fnMEI =>
    have hinit := ((Checked.safe_bind _ _).mp ((safe_decode rfl).mp h)).1
    exact absurd hinit hassert
  | _ => exact absurd ((safe_decode rfl).mp h) hassert

/-- An error is never a reply, and what it has to be is that its code is none. -/
theorem robust_error_iff (hfunc : func = qfunc ||| MBErrMask) :
    Robust crcNoCheckit qfunc rbuf (func :: s) ↔ ¬∃ ecode rest,
      FrameOf crcNoCheckit rbuf.addr func [ecode] (func :: s) rest ∧
        (crcNoCheckit = true ∨ ecode = 0) := by
  have hrecv : recv_pdu crcNoCheckit qfunc rbuf (func :: s) =
      recvError crcNoCheckit (errorStarted crcNoCheckit func rbuf s) := if_pos hfunc
  have hcode : ∀ f : SlaveFunctionCode, qfunc = f.code → func ≠ f.code := by
    rintro f rfl rfl
    exact code_or_ne f hfunc.symm
  have hrobust : Robust crcNoCheckit qfunc rbuf (func :: s) ↔
      (recvError crcNoCheckit (errorStarted crcNoCheckit func rbuf s)).Safe ∧
        ∀ r, (recvError crcNoCheckit (errorStarted crcNoCheckit func rbuf s)).value ≠ .ok r := by
    rw [Robust, recvReply, hrecv, Checked.safe_bind]
    constructor
    · rintro ⟨⟨hsafe, hdecode⟩, hok⟩
      refine ⟨hsafe, fun r hr => ?_⟩
      have hrest : ∀ {x : Reception Received}, x.value = .ok r →
          (recvError crcNoCheckit (errorStarted crcNoCheckit func rbuf s) >>= fun _ => x).value =
            .ok r := fun hx => Checked.value_bind_eq_ok.mpr ⟨r, hr, hx⟩
      have hnone : (recvReply crcNoCheckit qfunc rbuf (func :: s)).value ≠ .ok r := by
        intro hreply
        rw [recvReply, hrecv] at hreply
        obtain ⟨f, body, hq, -, hframe, -⟩ := hok r hreply
        exact hcode f hq (List.head_eq_of_cons_eq hframe)
      obtain ⟨-, rfl⟩ := value_recvError_eq_ok.mp hr
      apply hnone
      rw [recvReply, hrecv]
      refine Checked.value_bind_eq_ok.mpr ⟨_, hr, ?_⟩
      have hdecode := hdecode _ hr
      split
      · rfl
      · rename_i f hf
        simp only [hf] at hdecode
        have hsafe := ((Checked.safe_bind _ _).mp hdecode).1
        have hvalue := value_decode_of_safe (hcode f (code_of_ofByte hf).symm) hsafe
        exact Checked.value_bind_eq_ok.mpr ⟨(), Checked.value_mapError_ok hvalue _, rfl⟩
    · rintro ⟨hsafe, hno⟩
      refine ⟨⟨hsafe, fun r hr => absurd hr (hno r)⟩, fun r hr => ?_⟩
      obtain ⟨r', hr', -⟩ := Checked.value_bind_eq_ok.mp hr
      exact absurd hr' (hno r')
  have hno : (∀ r, (recvError crcNoCheckit (errorStarted crcNoCheckit func rbuf s)).value ≠ .ok r) ↔
      ¬∃ rest, FrameOf crcNoCheckit rbuf.addr func [0] (func :: s) rest := by
    constructor
    · exact fun h hframe => h _ (value_recvError_eq_ok.mpr ⟨hframe, rfl⟩)
    · exact fun h r hr => h (value_recvError_eq_ok.mp hr).1
  rw [hrobust, safe_recvError, hno]
  cases crcNoCheckit with
  | false =>
    constructor
    · rintro ⟨-, h⟩ ⟨ecode, rest, hframe, hzero | rfl⟩
      · cases hzero
      · exact h ⟨rest, hframe⟩
    · exact fun h => ⟨fun hs => Bool.noConfusion hs.1, fun ⟨rest, hframe⟩ =>
        h ⟨0, rest, hframe, .inr rfl⟩⟩
  | true =>
    constructor
    · rintro ⟨h, -⟩ ⟨ecode, rest, hframe, -⟩
      refine h ⟨rfl, fun hs => ?_⟩
      cases hs
      cases hframe
    · intro h
      have hs : s = [] := by
        cases s with
        | nil => rfl
        | cons ecode s => exact absurd ⟨ecode, s, rfl, .inl rfl⟩ h
      subst hs
      refine ⟨fun hs => hs.2 rfl, ?_⟩
      rintro ⟨rest, hframe⟩
      cases hframe

/-- The client is robust exactly on the streams that are not misread. -/
theorem robust_iff (crcNoCheckit : Bool) (qfunc : ModbusByte) (rbuf : ModbusMessage)
    (stream : List ModbusByte) :
    Robust crcNoCheckit qfunc rbuf stream ↔ ¬Misread crcNoCheckit qfunc rbuf.addr stream := by
  cases stream with
  | nil =>
    refine iff_of_true (robust_of_error rfl) ?_
    rintro (⟨_, _, h, _⟩ | ⟨_, _, _, h, _⟩) <;> cases h
  | cons func s =>
    by_cases herror : func = qfunc ||| MBErrMask
    · rw [robust_error_iff herror, herror]
      refine not_congr (or_iff_left ?_).symm
      rintro ⟨f, s', rfl, hstream, -⟩
      exact code_or_ne f (List.head_eq_of_cons_eq hstream)
    have hfirst : ¬∃ ecode rest, FrameOf crcNoCheckit rbuf.addr (qfunc ||| MBErrMask) [ecode]
        (func :: s) rest ∧ (crcNoCheckit = true ∨ ecode = 0) := by
      rintro ⟨_, _, h, _⟩
      exact herror (List.head_eq_of_cons_eq h)
    rw [Misread, or_iff_right hfirst]
    by_cases hqfunc : qfunc = func
    · subst hqfunc
      cases hf : ofByte qfunc with
      | none =>
        refine iff_of_true (robust_of_error (e := erUnExpectedPacketType) ?_) ?_
        · simp only [recv_pdu, if_neg herror, ne_eq, not_true_eq_false, if_false, hf]
        · rintro ⟨f, s', rfl, -⟩
          rw [ofByte_code] at hf
          cases hf
      | some f =>
        cases code_of_ofByte hf
        have hthis : (∃ g s', f.code = SlaveFunctionCode.code g ∧ f.code :: s = g.code :: s' ∧
            (Overflows crcNoCheckit g s' ∨ KnownKind g s' ∧ DecodedAmiss crcNoCheckit g s' ∧
              ∃ body rest, body.length = readLen g s' ∧
                FrameOf crcNoCheckit rbuf.addr g.code body (f.code :: s) rest)) ↔
            (Overflows crcNoCheckit f s ∨ KnownKind f s ∧ DecodedAmiss crcNoCheckit f s ∧
              ∃ body rest, body.length = readLen f s ∧
                FrameOf crcNoCheckit rbuf.addr f.code body (f.code :: s) rest) := by
          constructor
          · rintro ⟨g, s', hcode, hs, h⟩
            cases code_inj hcode
            cases hs
            exact h
          · exact fun h => ⟨f, s, rfl, rfl, h⟩
        cases hk : szFirst crcNoCheckit f with
        | some k => exact (robust_reply_iff hk).trans (not_congr hthis.symm)
        | none =>
          refine iff_of_true (robust_of_error (e := erUnExpectedPacketType) ?_) ?_
          · simp only [recv_pdu, if_neg herror, ne_eq, not_true_eq_false, if_false, hf, hk]
          · rw [hthis]
            cases f <;> simp [szFirst] at hk <;> simp [Overflows, DecodedAmiss]
    · refine iff_of_true (robust_of_error (e := erUnExpectedPacketType) ?_) ?_
      · exact (if_neg herror).trans (if_pos hqfunc)
      · rintro ⟨f, s', rfl, hs, -⟩
        exact hqfunc (List.head_eq_of_cons_eq hs).symm

end Uniset.Modbus.ModbusClient

namespace Uniset.Modbus

open SlaveFunctionCode

/-- Exactly the streams that are not misread are received robustly. -/
theorem receive_robust_iff (crcNoCheckit : Bool) (qfunc : ModbusByte) (rbuf : ModbusMessage)
    (stream : List ModbusByte) :
    (ModbusServer.Robust crcNoCheckit rbuf stream ↔
      ¬∃ f body rest, StartsWith crcNoCheckit rbuf.addr f body stream rest ∧
        ModbusServer.Misread crcNoCheckit f body) ∧
    (ModbusClient.Robust crcNoCheckit qfunc rbuf stream ↔
      ¬ModbusClient.Misread crcNoCheckit qfunc rbuf.addr stream) :=
  ⟨ModbusServer.robust_iff _ _ _, ModbusClient.robust_iff _ _ _ _⟩

/-- A request to force a coil overflows the object it is made into. -/
theorem not_robust_forceSingleCoil : ¬ModbusServer.Robust false { ModbusMessage.new with addr := 1 }
    [0x05, 0x00, 0x01, 0xFF, 0x00, 0xDD, 0xFA] := by
  rw [ModbusServer.robust_iff, not_not]
  exact ⟨fnForceSingleCoil, [0x00, 0x01, 0xFF, 0x00], [], ⟨rfl, rfl⟩, .inr trivial⟩

end Uniset.Modbus
