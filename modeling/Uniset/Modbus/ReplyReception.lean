import Uniset.Modbus.ModbusClient
import Uniset.Modbus.ReceptionLaws

/-! Which bytes of the stream the client takes for a reply. -/

namespace Uniset.Modbus

open Uniset.Lib SlaveFunctionCode

/-- Where `n` objects end that begin at place `i`. -/
def objectsEnd (bs : List ModbusByte) : Nat → Nat → Nat
  | 0, i => i
  | n + 1, i => objectsEnd bs n (i + 2 + (bs.getD (i + 1) 0).toNat)

/-- The length of the body of a reply, by what it begins with. -/
def replyLen (f : SlaveFunctionCode) (bs : List ModbusByte) : Nat :=
  match f with
  | fnReadCoilStatus | fnReadInputStatus | fnReadOutputRegisters | fnReadInputRegisters
  | fnFileTransfer => 1 + (bs.getD 0 0).toNat
  | fnForceMultipleCoils | fnWriteOutputRegisters | fnForceSingleCoil
  | fnWriteOutputSingleRegister => 4
  | fnDiagnostics => 2 + szDiagnosticData (SWAPSHORT (wordOf bs 0))
  | fnMEI => objectsEnd bs (bs.getD 5 0).toNat 6
  | fnSetDateTime => 7
  | fnJournalCommand | fnRemoteService => 0

/-- The data in the body of a reply agree: the two counts of a part of a file, the kind of a device
identification. -/
def ReplyInOrder (f : SlaveFunctionCode) (body : List ModbusByte) : Prop :=
  match f with
  | fnFileTransfer => (body.getD 0 0).toNat = 7 + (body.getD 7 0).toNat
  | fnMEI => body.getD 0 0 = 0x0E
  | _ => True

namespace ModbusClient

/-- Where the loop over the objects stops that begins at place `i`, and how many objects are left
then. -/
def objectsLoop (bs : List ModbusByte) : Nat → Nat → Nat × Nat
  | 0, i => (i, 0)
  | n + 1, i =>
    if i + 2 < MAXLENPACKET + szCRC then
      objectsLoop bs n (i + 2 + (bs.getD (i + 1) 0).toNat)
    else (i, n + 1)

variable {m : ModbusMessage} {func : ModbusByte} {d : Nat} {s : List ModbusByte}

theorem le_objectsLoop (bs : List ModbusByte) (n i : Nat) : i ≤ (objectsLoop bs n i).1 := by
  induction n generalizing i with
  | zero => exact Nat.le_refl i
  | succ n ih =>
    unfold objectsLoop
    split
    · exact Nat.le_trans (Nat.le_add_right_of_le (Nat.le_add_right i 2)) (ih _)
    · exact Nat.le_refl i

/-- A loop that has no object left stops where the objects end. -/
theorem objectsEnd_of_loop (bs : List ModbusByte) (n i : Nat) (h : (objectsLoop bs n i).2 = 0) :
    objectsEnd bs n i = (objectsLoop bs n i).1 := by
  induction n generalizing i with
  | zero => rfl
  | succ n ih =>
    unfold objectsLoop at h ⊢
    split at h
    · rename_i hi
      rw [if_pos hi]
      exact ih _ h
    · cases h

theorem le_objectsEnd (bs : List ModbusByte) (n i : Nat) : i ≤ objectsEnd bs n i := by
  induction n generalizing i with
  | zero => exact Nat.le_refl i
  | succ n ih => exact Nat.le_trans (Nat.le_add_right_of_le (Nat.le_add_right i 2)) (ih _)

theorem objectsEnd_take {k : Nat} (n i : Nat) (h : objectsEnd s n i ≤ k) :
    objectsEnd (s.take k) n i = objectsEnd s n i := by
  induction n generalizing i with
  | zero => rfl
  | succ n ih =>
    have hle := le_objectsEnd s n (i + 2 + (s.getD (i + 1) 0).toNat)
    unfold objectsEnd at h ⊢
    rw [getD_take (by omega)]
    exact ih _ h

/-- What has been received when the stream has been read up to place `i`. -/
def readUpTo (m : ModbusMessage) (func : ModbusByte) (d : Nat) (s : List ModbusByte) (i : Nat) :
    Received :=
  ⟨m.holding func d (s.take i), s.drop i⟩

theorem rlen_readUpTo {i : Nat} (hi : i ≤ s.length) :
    (readUpTo m func d s i).rbuf.bcnt - szModbusHeader = i := by
  change szModbusHeader + (s.take i).length - szModbusHeader = i
  rw [Nat.add_sub_cancel_left, List.length_take_of_le hi]

/-- The next part is read, or it is not all there. -/
theorem value_getNextData_readUpTo (m : ModbusMessage) (func : ModbusByte) (d : Nat) {i : Nat}
    (hi : i ≤ s.length) (len : Nat) :
    (getNextData i len (readUpTo m func d s i)).value =
      if s.length < i + len then .error (erInvalidFormat, [])
      else .ok (readUpTo m func d s (i + len)) := by
  have hshort : (s.drop i).length < len ↔ s.length < i + len := by rw [List.length_drop]; omega
  have hstore := store_holding m func d (s.take i) ((s.drop i).take len)
  rw [List.length_take_of_le hi, ← List.take_add] at hstore
  rw [value_getNextData]
  change (if (s.drop i).length < len then _ else _) = _
  simp only [hshort]
  split
  · rfl
  · unfold readUpTo
    rw [← hstore, ← List.drop_drop]

theorem safe_getNextData_readUpTo {i : Nat} (hi : i ≤ s.length) (len : Nat) :
    (getNextData i len (readUpTo m func d s i)).Safe ↔
      min (i + len) s.length ≤ MAXLENPACKET + szCRC := by
  rw [safe_getNextData]
  change i + min len (s.drop i).length ≤ _ ↔ _
  rw [List.length_drop]
  omega

theorem holds_readUpTo (m : ModbusMessage) (func : ModbusByte) (d : Nat) (s : List ModbusByte)
    (i : Nat) : (readUpTo m func d s i).rbuf.Holds (s.take i) :=
  holds_holding m func d (s.take i)

/-- A byte that has been read is the one in the stream. -/
theorem byte_readUpTo (m : ModbusMessage) (func : ModbusByte) (d : Nat) {i j : Nat}
    (hi : i ≤ s.length) (hj : j < i) :
    ((readUpTo m func d s i).rbuf.byte j).value = .ok (s.getD j 0) ∧
      ((readUpTo m func d s i).rbuf.byte j).Safe := by
  have h := holds_readUpTo m func d s i
  have hlen : j < (s.take i).length := by rwa [List.length_take_of_le hi]
  exact ⟨(h.value_byte hlen).trans (by rw [getD_take hj]), (h.safe_byte j).mpr hlen⟩

section Step

variable {n i : Nat} (hplace : i + 2 < MAXLENPACKET + szCRC)
include hplace

theorem getObjects_succ (hi : i ≤ s.length) : getObjects (n + 1) (readUpTo m func d s i) = (do
    let r ← getNextData i 2 (readUpTo m func d s i)
    let szDataLen ← (r.rbuf.byte (i + 1)).mapError (·, r.channel)
    let r ← getNextData (i + 2) szDataLen.toNat r
    getObjects n r) := by
  rw [getObjects]
  simp only [rlen_readUpTo hi, if_pos hplace]

theorem objectsLoop_succ : objectsLoop s (n + 1) i =
    objectsLoop s n (i + 2 + (s.getD (i + 1) 0).toNat) := by
  rw [objectsLoop, if_pos hplace]

end Step

/-- The loop reads the objects up to where it stops, if they are all there. -/
theorem value_getObjects (n : Nat) {i : Nat} (hi : i ≤ s.length) :
    (getObjects n (readUpTo m func d s i)).value =
      if s.length < (objectsLoop s n i).1 then .error (erInvalidFormat, [])
      else .ok (readUpTo m func d s (objectsLoop s n i).1) := by
  induction n generalizing i with
  | zero => exact (if_neg (Nat.not_lt_of_le hi)).symm
  | succ n ih =>
    by_cases hplace : i + 2 < MAXLENPACKET + szCRC
    · rw [getObjects_succ hplace hi, objectsLoop_succ hplace]
      have hend := le_objectsLoop s n (i + 2 + (s.getD (i + 1) 0).toNat)
      rw [Checked.value_bind, value_getNextData_readUpTo _ _ _ hi]
      by_cases hhead : s.length < i + 2
      · rw [if_pos hhead, if_pos (by omega)]
        rfl
      have hhead : i + 2 ≤ s.length := Nat.le_of_not_lt hhead
      rw [if_neg (Nat.not_lt_of_le hhead), Except.bind, Checked.value_bind, Checked.value_mapError,
        (byte_readUpTo _ _ _ hhead (Nat.lt_succ_self _)).1, Except.mapError, Except.bind,
        Checked.value_bind, value_getNextData_readUpTo _ _ _ hhead]
      by_cases hdata : s.length < i + 2 + (s.getD (i + 1) 0).toNat
      · rw [if_pos hdata, if_pos (by omega)]
        rfl
      · rw [if_neg hdata]
        exact ih (Nat.le_of_not_lt hdata)
    · rw [getObjects, objectsLoop, rlen_readUpTo hi, if_neg hplace, if_neg hplace,
        if_neg (Nat.not_lt_of_le hi)]
      rfl

/-- The loop stays in the buffer if what it reads does. -/
theorem safe_getObjects (n : Nat) {i : Nat} (hi : i ≤ s.length) (hin : i ≤ MAXLENPACKET + szCRC) :
    (getObjects n (readUpTo m func d s i)).Safe ↔
      min (objectsLoop s n i).1 s.length ≤ MAXLENPACKET + szCRC := by
  induction n generalizing i with
  | zero => exact iff_of_true rfl (Nat.le_trans (Nat.min_le_left _ _) hin)
  | succ n ih =>
    by_cases hplace : i + 2 < MAXLENPACKET + szCRC
    · rw [getObjects_succ hplace hi, objectsLoop_succ hplace]
      have hend := le_objectsLoop s n (i + 2 + (s.getD (i + 1) 0).toNat)
      have hfirst : (getNextData i 2 (readUpTo m func d s i)).Safe :=
        (safe_getNextData_readUpTo hi 2).mpr
          (Nat.le_trans (Nat.min_le_left _ _) (Nat.le_of_lt hplace))
      by_cases hhead : s.length < i + 2
      · refine iff_of_true ((Checked.safe_bind _ _).mpr ⟨hfirst, fun r hr => ?_⟩) (by omega)
        rw [value_getNextData_readUpTo _ _ _ hi, if_pos hhead] at hr
        cases hr
      have hhead : i + 2 ≤ s.length := Nat.le_of_not_lt hhead
      have hvalue := value_getNextData_readUpTo m func d hi 2
      rw [if_neg (Nat.not_lt_of_le hhead)] at hvalue
      have hbyte := byte_readUpTo m func d hhead (Nat.lt_succ_self (i + 1))
      rw [Checked.safe_bind_ok hvalue, and_iff_right hfirst,
        Checked.safe_bind_ok (Checked.value_mapError_ok hbyte.1 _), Checked.safe_mapError,
        and_iff_right hbyte.2]
      have hdata := value_getNextData_readUpTo m func d hhead
        (s.getD (i + 1) 0).toNat
      by_cases hshort : s.length < i + 2 + (s.getD (i + 1) 0).toNat
      · rw [if_pos hshort] at hdata
        rw [Checked.safe_bind, hdata, safe_getNextData_readUpTo hhead]
        refine (and_iff_left fun r hr => ?_).trans (by omega)
        cases hr
      · rw [if_neg hshort] at hdata
        rw [Checked.safe_bind_ok hdata, safe_getNextData_readUpTo hhead]
        have hle : i + 2 + (s.getD (i + 1) 0).toNat ≤ s.length := Nat.le_of_not_lt hshort
        constructor
        · rintro ⟨hnow, hthen⟩
          exact (ih hle (by omega)).mp hthen
        · intro h
          exact ⟨by omega, (ih hle (by omega)).mpr h⟩
    · rw [getObjects, objectsLoop, rlen_readUpTo hi, if_neg hplace, if_neg hplace]
      exact iff_of_true rfl (Nat.le_trans (Nat.min_le_left _ _) hin)

/-- The head of a device identification. -/
def headOf (bs : List ModbusByte) : MEIRet :=
  ⟨bs.getD 0 0, bs.getD 1 0, bs.getD 2 0, bs.getD 3 0, bs.getD 4 0, bs.getD 5 0, [], 0⟩

section Head

variable {bs : List ModbusByte} (h : m.Holds bs) (hdlen : 6 ≤ m.dlen) (hlen : 6 ≤ bs.length)
include h hdlen hlen

theorem value_pre_init : (MEIMessageRetRDI.pre_init m).value =
    if bs.getD 0 0 ≠ 0x0E then .error erInvalidFormat else .ok (headOf bs) := by
  have hbyte : ∀ i < 6, (m.byte i).value = .ok (bs.getD i 0) :=
    fun i hi => h.value_byte (Nat.lt_of_lt_of_le hi hlen)
  unfold MEIMessageRetRDI.pre_init
  simp only [assert, Checked.value_bind, Checked.value_require, Except.bind, hbyte 0 (by decide),
    Checked.value_ite, Checked.value_throw, if_neg (Nat.not_lt_of_le hdlen), hbyte 1 (by decide),
    hbyte 2 (by decide), hbyte 3 (by decide), hbyte 4 (by decide), hbyte 5 (by decide),
    Checked.value_pure, headOf]

theorem safe_pre_init (hf : m.func = fnMEI.code) : (MEIMessageRetRDI.pre_init m).Safe := by
  have hbyte : ∀ i < 6, (m.byte i).Safe := fun i hi => (h.safe_byte i).mpr (by omega)
  refine ((Checked.safe_require _ _).mpr hf).bind fun _ => (hbyte 0 (by decide)).bind fun _ => ?_
  rw [if_neg (Nat.not_lt_of_le hdlen)]
  split
  · rfl
  · exact (hbyte 1 (by decide)).bind fun _ => (hbyte 2 (by decide)).bind fun _ =>
      (hbyte 3 (by decide)).bind fun _ => (hbyte 4 (by decide)).bind fun _ =>
        (hbyte 5 (by decide)).bind fun _ => Checked.safe_pure _

end Head

/-- How much of the stream is read as the body of a reply: all of it, but of the objects of a device
identification only those for which there is place. -/
def readLen (f : SlaveFunctionCode) (s : List ModbusByte) : Nat :=
  match f with
  | fnMEI => (objectsLoop s (s.getD 5 0).toNat 6).1
  | f => replyLen f s

def szReply (crcNoCheckit : Bool) (f : SlaveFunctionCode) (s : List ModbusByte) : Nat :=
  readLen f s + szSum crcNoCheckit

/-- A device identification is of the kind that is known. -/
def KnownKind (f : SlaveFunctionCode) (s : List ModbusByte) : Prop := f = fnMEI → s.getD 0 0 = 0x0E

/-- The parts of a reply are received. -/
def getParts (crcNoCheckit : Bool) (f : SlaveFunctionCode) (k : Nat) (r : Received) :
    Reception Received := do
  let r ← getNextData 0 k r
  getRest crcNoCheckit f r

variable {crcNoCheckit : Bool} {f : SlaveFunctionCode} {k : Nat}

/-- What is received of a reply, and when that stays in the buffer. -/
structure Gets (crcNoCheckit : Bool) (f : SlaveFunctionCode) (k : Nat) (m : ModbusMessage)
    (s : List ModbusByte) : Prop where
  value : ∀ r, (getParts crcNoCheckit f k (readUpTo m f.code k s 0)).value = .ok r ↔
    KnownKind f s ∧ szReply crcNoCheckit f s ≤ s.length ∧
      r = readUpTo m f.code (szReply crcNoCheckit f s) s (szReply crcNoCheckit f s)
  safe : (getParts crcNoCheckit f k (readUpTo m f.code k s 0)).Safe ↔
    (f = fnMEI → s.getD 0 0 = 0x0E →
      min (szReply crcNoCheckit f s) s.length ≤ MAXLENPACKET + szCRC)

/-- The count of what has been received is taken for the length. -/
theorem setLen_readUpTo {i : Nat} (hi : i ≤ s.length) :
    { readUpTo m func d s i with
      rbuf.dlen := (readUpTo m func d s i).rbuf.bcnt - szModbusHeader } =
      readUpTo m func i s i := by
  rw [rlen_readUpTo hi]
  rfl

theorem value_getSum {i : Nat} (hi : i ≤ s.length) :
    (getSum crcNoCheckit (readUpTo m func d s i)).value =
      if s.length < i + szSum crcNoCheckit then .error (erInvalidFormat, [])
      else .ok (readUpTo m func (i + szSum crcNoCheckit) s (i + szSum crcNoCheckit)) := by
  cases crcNoCheckit with
  | true =>
    refine Eq.trans ?_ (if_neg (Nat.not_lt_of_le hi)).symm
    exact congrArg Except.ok (setLen_readUpTo hi)
  | false =>
    change (getNextData _ szCRC _ >>= _ : Reception Received).value = _
    rw [rlen_readUpTo hi, Checked.value_bind, value_getNextData_readUpTo _ _ _ hi]
    change _ = if s.length < i + szCRC then _ else _
    split
    · rfl
    · exact congrArg Except.ok (setLen_readUpTo (Nat.le_of_not_lt ‹_›))

theorem safe_getSum {i : Nat} (hi : i ≤ s.length) (hin : min i s.length ≤ MAXLENPACKET + szCRC) :
    (getSum crcNoCheckit (readUpTo m func d s i)).Safe ↔
      min (i + szSum crcNoCheckit) s.length ≤ MAXLENPACKET + szCRC := by
  cases crcNoCheckit with
  | true => exact iff_of_true rfl hin
  | false =>
    change (getNextData _ szCRC _ >>= _ : Reception Received).Safe ↔ _
    rw [rlen_readUpTo hi, Checked.safe_bind, safe_getNextData_readUpTo hi]
    exact and_iff_left fun _ _ => rfl

/-- The objects and the checksum are read if they are all there. -/
theorem value_objects_sum {n : Nat} {r : Received} (hi : 6 ≤ s.length) :
    (getObjects n (readUpTo m func 6 s 6) >>= getSum crcNoCheckit).value = .ok r ↔
      (objectsLoop s n 6).1 + szSum crcNoCheckit ≤ s.length ∧
        r = readUpTo m func ((objectsLoop s n 6).1 + szSum crcNoCheckit) s
          ((objectsLoop s n 6).1 + szSum crcNoCheckit) := by
  rw [Checked.value_bind, value_getObjects n hi]
  by_cases hobjects : s.length < (objectsLoop s n 6).1
  · rw [if_pos hobjects]
    refine iff_of_false (fun h => by cases h) ?_
    rintro ⟨hle, -⟩
    omega
  rw [if_neg hobjects, Except.bind, value_getSum (Nat.le_of_not_lt hobjects)]
  by_cases hsum : s.length < (objectsLoop s n 6).1 + szSum crcNoCheckit
  · rw [if_pos hsum]
    exact iff_of_false (fun h => by cases h) fun h => Nat.not_le_of_lt hsum h.1
  · rw [if_neg hsum, and_iff_right (Nat.le_of_not_lt hsum)]
    exact ⟨fun h => (Except.ok.inj h).symm, fun h => congrArg _ h.symm⟩

theorem safe_objects_sum {n : Nat} (hi : 6 ≤ s.length) :
    (getObjects n (readUpTo m func 6 s 6) >>= getSum crcNoCheckit).Safe ↔
      min ((objectsLoop s n 6).1 + szSum crcNoCheckit) s.length ≤ MAXLENPACKET + szCRC := by
  rw [Checked.safe_bind, safe_getObjects n hi (by decide), value_getObjects n hi]
  by_cases hobjects : s.length < (objectsLoop s n 6).1
  · rw [if_pos hobjects]
    refine (and_iff_left fun r hr => ?_).trans (by omega)
    cases hr
  have hle : (objectsLoop s n 6).1 ≤ s.length := Nat.le_of_not_lt hobjects
  rw [if_neg hobjects]
  constructor
  · rintro ⟨hin, hsum⟩
    exact (safe_getSum hle hin).mp (hsum _ rfl)
  · intro h
    have hin : min (objectsLoop s n 6).1 s.length ≤ MAXLENPACKET + szCRC := by omega
    refine ⟨hin, fun r hr => ?_⟩
    cases hr
    exact (safe_getSum hle hin).mpr h

theorem gets_mei : Gets crcNoCheckit fnMEI 6 m s := by
  have hend := le_objectsLoop s (s.getD 5 0).toNat 6
  have hread : szReply crcNoCheckit fnMEI s =
    (objectsLoop s (s.getD 5 0).toNat 6).1 + szSum crcNoCheckit := rfl
  have hfirst := value_getNextData_readUpTo m fnMEI.code 6
    (Nat.zero_le s.length) 6
  have hfits : (getNextData 0 6 (readUpTo m fnMEI.code 6 s 0)).Safe :=
    (safe_getNextData_readUpTo (Nat.zero_le _) 6).mpr
      (Nat.le_trans (Nat.min_le_left _ _) (by decide))
  rw [Nat.zero_add] at hfirst
  by_cases hshort : s.length < 6
  · rw [if_pos hshort] at hfirst
    constructor
    · intro r
      rw [getParts, Checked.value_bind, hfirst]
      refine iff_of_false (fun h => by cases h) ?_
      rintro ⟨-, hle, -⟩
      omega
    · rw [getParts, Checked.safe_bind, hfirst]
      refine iff_of_true ⟨hfits, fun r hr => ?_⟩ fun _ _ => ?_
      · cases hr
      · exact Nat.le_trans (Nat.min_le_right _ _) (Nat.le_of_lt (Nat.lt_trans hshort (by decide)))
  have h6 : 6 ≤ s.length := Nat.le_of_not_lt hshort
  rw [if_neg hshort] at hfirst
  have h := holds_readUpTo m fnMEI.code 6 s 6
  have htake : 6 ≤ (s.take 6).length := Nat.le_of_eq (List.length_take_of_le h6).symm
  have hpre := value_pre_init h (Nat.le_refl 6) htake
  have hpresafe := safe_pre_init h (Nat.le_refl 6) htake rfl
  have hnum : (headOf (s.take 6)).objNum = s.getD 5 0 := getD_take (by decide)
  rw [getD_take (by decide)] at hpre
  by_cases hkind : s.getD 0 0 = 0x0E
  · rw [if_neg (not_not_intro hkind)] at hpre
    constructor
    · intro r
      refine Iff.trans ?_ (and_iff_right fun _ => hkind).symm
      rw [hread, ← hnum, ← value_objects_sum h6, getParts, Checked.value_bind, hfirst, Except.bind,
        getRest, getMEI, Checked.value_bind, Checked.value_mapError_ok hpre, Except.bind]
    · rw [getParts, Checked.safe_bind_ok hfirst, and_iff_right hfits, getRest, getMEI,
        Checked.safe_bind_ok (Checked.value_mapError_ok hpre _), Checked.safe_mapError,
        and_iff_right hpresafe, safe_objects_sum h6, hnum, hread]
      exact ⟨fun h _ _ => h, fun h => h rfl hkind⟩
  · rw [if_pos hkind] at hpre
    constructor
    · intro r
      refine iff_of_false (fun hr => ?_) fun h => hkind (h.1 rfl)
      rw [getParts, Checked.value_bind, hfirst, Except.bind, getRest, getMEI, Checked.value_bind,
        Checked.value_mapError, hpre] at hr
      cases hr
    · refine iff_of_true ?_ fun _ h => absurd h hkind
      rw [getParts, Checked.safe_bind_ok hfirst, and_iff_right hfits, getRest, getMEI,
        Checked.safe_bind, Checked.value_mapError, hpre]
      refine ⟨hpresafe, fun r hr => ?_⟩
      cases hr

theorem knownKind (hf : f ≠ fnMEI) : KnownKind f s := fun h => absurd h hf

theorem gets_one (hf : f ≠ fnMEI) (hrest : getRest crcNoCheckit f = fun r => return r)
    (hk : k = szReply crcNoCheckit f s) (hfits : k ≤ MAXLENPACKET) : Gets crcNoCheckit f k m s := by
  cases hk
  constructor
  · intro r
    rw [getParts, Checked.value_bind, value_getNextData_readUpTo _ _ _ (Nat.zero_le _),
      Nat.zero_add, hrest,
      and_iff_right (knownKind hf)]
    split
    · exact iff_of_false (fun h => by cases h) fun h => Nat.not_le_of_lt ‹_› h.1
    · rw [and_iff_right (Nat.le_of_not_lt ‹_›)]
      exact ⟨fun h => (Except.ok.inj h).symm, fun h => congrArg _ h.symm⟩
  · refine iff_of_true ?_ fun h => absurd h hf
    rw [getParts, hrest]
    refine Checked.Safe.bind ?_ fun _ => Checked.safe_pure _
    refine (safe_getNextData_readUpTo (Nat.zero_le _) _).mpr ?_
    rw [Nat.zero_add]
    exact Nat.le_trans (Nat.min_le_left _ _) (Nat.le_add_right_of_le hfits)

theorem gets_two {getLen : ModbusMessage → Codec Nat} {n : Nat} (hf : f ≠ fnMEI)
    (hrest : getRest crcNoCheckit f = getRestOfData crcNoCheckit getLen)
    (hlen : replyLen f s = k + n)
    (hget : k ≤ s.length → (getLen (m.holding f.code k (s.take k))).value = .ok n ∧
      (getLen (m.holding f.code k (s.take k))).Safe)
    (hfits : k + n ≤ MAXLENPACKET) : Gets crcNoCheckit f k m s := by
  have hread : k + withoutCRC crcNoCheckit (n + szCRC) = szReply crcNoCheckit f s := by
    have hread : readLen f s = replyLen f s := by cases f <;> first | rfl | exact absurd rfl hf
    rw [withoutCRC_add, szReply, hread, hlen, Nat.add_assoc]
  constructor
  · intro r
    rw [getParts, hrest, and_iff_right (knownKind hf)]
    refine (Eq.congr_left (value_parts fun h => (hget h).1)).trans ?_
    rw [hread]
    split
    · exact iff_of_false (fun h => by cases h) fun h => Nat.not_le_of_lt ‹_› h.1
    · rw [and_iff_right (Nat.le_of_not_lt ‹_›)]
      exact ⟨fun h => (Except.ok.inj h).symm, fun h => congrArg _ h.symm⟩
  · refine iff_of_true ?_ fun h => absurd h hf
    rw [getParts, hrest]
    apply safe_parts (fun h => (hget h).1) fun h => (hget h).2
    rw [withoutCRC_add, ← Nat.add_assoc]
    exact Nat.add_le_add hfits (szSum_le crcNoCheckit)

theorem gets (hk : szFirst crcNoCheckit f = some k) : Gets crcNoCheckit f k m s := by
  have hold := fun k => holds_holding m f.code k (s.take k)
  have htake : ∀ {k}, k ≤ s.length → (s.take k).length = k := List.length_take_of_le
  have hcount : (s.getD 0 0).toNat < 256 := (s.getD 0 0).toNat_lt
  cases f with
  | fnReadCoilStatus | fnReadInputStatus | fnReadOutputRegisters | fnReadInputRegisters =>
    cases hk
    refine gets_two SlaveFunctionCode.noConfusion rfl rfl (fun hs => ?_) ?_
    · rw [← getD_take (s := s) (by decide : 0 < 1)]
      exact getDataLenAt_eq (hold 1) (by decide : 1 ≠ 0) (by rw [htake hs]; decide)
    · exact Nat.le_trans (Nat.add_le_add_left (Nat.le_of_lt hcount) 1) (by decide)
  | fnFileTransfer =>
    cases hk
    refine gets_two SlaveFunctionCode.noConfusion rfl rfl (fun hs => ?_) ?_
    · rw [← getD_take (s := s) (by decide : 0 < 1)]
      exact getDataLen_fileTransfer_eq (hold 1) (by rw [htake hs]; decide)
    · exact Nat.le_trans (Nat.add_le_add_left (Nat.le_of_lt hcount) 1) (by decide)
  | fnDiagnostics =>
    cases hk
    refine gets_two SlaveFunctionCode.noConfusion rfl rfl (fun hs => ?_) ?_
    · rw [← wordOf_take (s := s) (by decide : 0 + 1 < 2)]
      exact getDataLen_diagnostic_eq (hold 2) (by decide : 2 ≠ 0) (by rw [htake hs]; decide)
    · exact Nat.le_trans (Nat.add_le_add_left (szDiagnosticData_le _) 2) (by decide)
  | fnMEI =>
    cases hk
    exact gets_mei
  | fnForceMultipleCoils | fnWriteOutputRegisters | fnForceSingleCoil
  | fnWriteOutputSingleRegister | fnSetDateTime =>
    cases hk
    apply gets_one SlaveFunctionCode.noConfusion rfl
    · cases crcNoCheckit <;> rfl
    · cases crcNoCheckit <;> decide
  | fnJournalCommand | fnRemoteService => cases hk

end ModbusClient

end Uniset.Modbus
