import Uniset.Modbus.BitsBuffer
import Uniset.Modbus.CountedRoundTrip
import Uniset.ModbusSlave.Ranges
import Uniset.ModbusSlave.MBSlave

/-! A request for a range of registers as requests for each of them. -/

namespace Uniset.ModbusSlave

open Uniset.Lib Uniset.Modbus

section Handlers

variable (conf : MBSlave) (s : Sensors) (m : RegMap) (f : SlaveFunctionCode) (start count : ModbusData)

/-- The words of the buffer in which replies are put together. -/
def bufLength : Nat := MAXLENPACKET / 2 + 1

/-- `readOutputRegisters` and `readInputRegisters`, for the registers of an address; `none` if the
buffer is too short. -/
def readRegisters (reply : WordsRet) : Option (mbErrCode × WordsRet) :=
  if count = 0 then some (erBadDataValue, reply)
  else if count = 1 then
    match real_read conf s m start f.code with
    | .ok d => some (erNoError, reply.addData d)
    | .error err => some (err, reply.addData 0)
  else
    let (ret, buf) := much_read conf (fun r => readValue (real_read_it s r)) m start count.toNat f.code
    if bufLength < buf.length then none
    else if ret = erNoError then some (ret, buf.foldl WordsRet.addData reply)
    else some (ret, reply)

/-- `readCoilStatus` and `readInputStatus`, likewise. -/
def readStatus (reply : BitsBuffer) : mbErrCode × BitsBuffer :=
  if count = 0 then (erBadDataValue, reply)
  else if count = 1 then
    match real_read conf s m start f.code with
    | .ok d => (erNoError, (reply.addData 0).setBit 0 0 (d ≠ 0))
    | .error err => (err, (reply.addData 0).setBit 0 0 false)
  else
    bits_read conf (fun r => readValue (real_read_it s r)) m start reply count.toNat f.code

/-- A register of a range is one of the function; there is none after the last one. -/
def registerAt (i : Nat) : Option Register :=
  if start.toNat + i < 65536 then m.find (conf.requestID (.ofNat (start.toNat + i)) f.code) else none

/-- What a request for this register alone gives, and zero where it gives nothing. -/
def singleRead (i : Nat) : ModbusData :=
  if start.toNat + i < 65536 then
    readValue (real_read conf s m (.ofNat (start.toNat + i)) f.code)
  else 0

/-- The words of a range are read as those of its registers; the reply is encoded with all of them. -/
def ReadsWords : Prop :=
  ∃ ret reply, readRegisters conf s m f start count (.ofData []) = some (ret, reply) ∧
    (ret = erBadDataAddress ↔ ∀ i < count.toNat, registerAt conf m f start i = none) ∧
    (ret ≠ erBadDataAddress → ret = erNoError ∧
      reply = .ofData ((List.range count.toNat).map (singleRead conf s m f start)) ∧
      ∀ addr, (WordsRet.retType f).RoundTrips ⟨addr, f.code, reply, 0⟩)

/-- The bits of a range, likewise; those that fill up the last byte are zero. -/
def ReadsBits : Prop :=
  ∃ ret reply, readStatus conf s m f start count .clear = (ret, reply) ∧
    (ret = erBadDataAddress ↔ ∀ i < count.toNat, registerAt conf m f start i = none) ∧
    (ret ≠ erBadDataAddress → ret = erNoError ∧
      reply.data.length = (count.toNat + 7) / BitsPerByte ∧
      (∀ i < reply.data.length * BitsPerByte, reply.getByBitNum (.ofNat i) =
        some (decide (i < count.toNat ∧ singleRead conf s m f start i ≠ 0))) ∧
      ∀ addr, (BitsBuffer.retType f).RoundTrips ⟨addr, f.code, reply, 0⟩)

/-- A range is read as its registers are, by words as far as so many can be asked for. -/
def ReadsRange : Prop :=
  (count.toNat ≤ MAXDATALEN → ReadsWords conf s m f start count) ∧ ReadsBits conf s m f start count

/-- What is found for the places of a range after the last register of the function never gives
anything but zero, and is not found alone. -/
structure EndsInside : Prop where
  silent : ∀ i < count.toNat, 65536 ≤ start.toNat + i → ∀ r,
    m.find (conf.requestID start f.code + i) = some r → ∀ s, readValue (real_read_it s r) = 0
  found : (∃ i < count.toNat, 65536 ≤ start.toNat + i ∧
      (m.find (conf.requestID start f.code + i)).isSome) →
    ∃ i < count.toNat, (registerAt conf m f start i).isSome

end Handlers

/-! ## The walk over the registers -/

theorem readLoop_eq {l : List Register} (hsorted : l.Pairwise fun a b => a.regID < b.regID) (n : Nat)
    {regID : Nat} (hl : ∀ r ∈ l, regID ≤ r.regID) :
    readLoop n l regID = (List.range n).map fun j => l.find? (·.regID = regID + j) := by
  induction n generalizing l regID with
  | zero => rfl
  | succ n ih =>
    rw [List.range_succ_eq_map, List.map_cons, List.map_map]
    cases l with
    | nil =>
      rw [readLoop, ih .nil (by simp)]
      rfl
    | cons r rest =>
      obtain ⟨hfirst, hrest⟩ := List.pairwise_cons.mp hsorted
      rw [readLoop]
      by_cases hhere : r.regID = regID
      · have hlater : ∀ r' ∈ rest, regID + 1 ≤ r'.regID := fun r' hr' => hhere ▸ hfirst r' hr'
        rw [if_pos hhere, ih hrest hlater]
        congr 1
        · simp [hhere]
        · refine List.map_congr_left fun j _ => ?_
          have hne : ¬r.regID = regID + (j + 1) := by omega
          simp [hne, Nat.add_assoc, Nat.add_comm 1]
      · have hlater : ∀ r' ∈ r :: rest, regID + 1 ≤ r'.regID := by
          intro r' hr'
          have hle := hl r List.mem_cons_self
          rcases List.mem_cons.mp hr' with rfl | hr'
          · omega
          · have hlt := hfirst r' hr'
            omega
        rw [if_neg hhere, ih hsorted hlater]
        congr 1
        · have hnone : ∀ r' ∈ rest, ¬r'.regID = regID := fun r' hr' => by
            have hle := hl r List.mem_cons_self
            have hlt := hfirst r' hr'
            omega
          have hrest : rest.find? (·.regID = regID) = none :=
            List.find?_eq_none.mpr fun r' hr' => by simpa using hnone r' hr'
          simpa [hhere] using hrest.symm
        · refine List.map_congr_left fun j _ => ?_
          simp [Nat.add_assoc, Nat.add_comm 1]

variable {conf : MBSlave} {m : RegMap}

theorem find?_dropWhile {l : List Register} {a k : Nat} (hk : a ≤ k) :
    (l.dropWhile fun r => r.regID < a).find? (·.regID = k) = l.find? (·.regID = k) := by
  induction l with
  | nil => rfl
  | cons r l ih =>
    by_cases hr : r.regID < a
    · have hne : ¬r.regID = k := by omega
      rw [List.dropWhile_cons_of_pos (by simpa using hr), ih, List.find?_cons_of_neg (by simpa using hne)]
    · rw [List.dropWhile_cons_of_neg (by simpa using hr)]

/-- The registers of a range are those that are found one by one. -/
theorem readRange_eq (m : RegMap) (reg : ModbusData) (count : Nat) (fn : ModbusByte) :
    readRange conf m reg count fn =
      if ∀ i < count, m.find (conf.requestID reg fn + i) = none then none
      else some ((List.range count).map fun i => m.find (conf.requestID reg fn + i)) := by
  unfold readRange
  dsimp only
  cases hfirst : (List.range count).find? fun i => (m.find (conf.requestID reg fn + i)).isSome with
  | none =>
    refine (if_pos fun i hi => ?_).symm
    simpa using List.find?_eq_none.mp hfirst i (List.mem_range.mpr hi)
  | some i =>
    obtain ⟨hfound, hi, hbefore⟩ := List.find?_range_eq_some.mp hfirst
    have hi := List.mem_range.mp hi
    dsimp only
    have hcount : List.range count = List.range i ++ (List.range (count - i)).map (i + ·) := by
      rw [← List.range_add, Nat.add_sub_of_le (Nat.le_of_lt hi)]
    rw [if_neg fun hnone => by simp [hnone i hi] at hfound, hcount, List.map_append, List.map_map,
      readLoop_eq (m.sorted.sublist (List.dropWhile_sublist _)) _
        fun r hr => le_of_mem_dropWhile m.sorted hr]
    refine congrArg some (congrArg₂ (· ++ ·) ?_ (List.map_congr_left fun j _ => ?_))
    · refine (List.eq_replicate_iff.mpr ⟨by simp, fun r hr => ?_⟩).symm
      obtain ⟨j, hj, rfl⟩ := List.mem_map.mp hr
      simpa using hbefore j (List.mem_range.mp hj)
    · rw [find?_dropWhile (Nat.le_add_right _ _), Function.comp_apply, ← Nat.add_assoc]
      rfl

theorem requestID_ofNat {start : ModbusData} {i : Nat} (hi : start.toNat + i < 65536)
    (fn : ModbusByte) :
    conf.requestID (.ofNat (start.toNat + i)) fn = conf.requestID start fn + i := by
  unfold MBSlave.requestID genRegID
  dsimp only
  rw [UInt16.toNat_ofNat', Nat.mod_eq_of_lt hi]
  omega

/-! ## Bits -/

open BitsBuffer

/-- Bits that are set one after the other from the first on. -/
theorem foldl_setByBitNum (vs : List ModbusData) (hvs : vs.length ≤ MAXPDULEN * BitsPerByte) :
    let b := vs.zipIdx.foldl (fun dat v => dat.setByBitNum (.ofNat v.2) (v.1 ≠ 0)) BitsBuffer.clear
    b.data.length = (vs.length + 7) / BitsPerByte ∧
      ∀ p < b.data.length * BitsPerByte, b.bit p = some (decide (p < vs.length ∧ vs.getD p 0 ≠ 0)) := by
  induction vs using List.reverseRecOn with
  | nil => exact ⟨rfl, fun p hp => absurd hp (Nat.not_lt_zero p)⟩
  | append_singleton vs v ih =>
    rw [List.length_append, List.length_singleton] at hvs ⊢
    have hlimit : vs.length < 2024 := hvs
    obtain ⟨hlength, hbits⟩ := ih (Nat.le_of_succ_le hvs)
    rw [List.zipIdx_append, List.foldl_append]
    dsimp only at hlength hbits ⊢
    generalize vs.zipIdx.foldl (fun dat v => dat.setByBitNum (.ofNat v.2) (v.1 ≠ 0)) clear = b
      at hlength hbits
    have hnum : (UInt16.ofNat vs.length).toNat = vs.length := by
      rw [UInt16.toNat_ofNat']
      omega
    have hplace : vs.length / BitsPerByte % 256 = vs.length / BitsPerByte := by
      unfold BitsPerByte
      omega
    have hnew : (b.setByBitNum (.ofNat vs.length) (v ≠ 0)).data.length =
        (vs.length + 1 + 7) / BitsPerByte := by
      rw [length_setByBitNum (by rw [hnum, hplace]; unfold BitsPerByte MAXPDULEN; omega), hnum, hplace,
        hlength]
      unfold BitsPerByte
      omega
    simp only [List.zipIdx_singleton, List.foldl_cons, List.foldl_nil, Nat.zero_add]
    refine ⟨hnew, fun p hp => ?_⟩
    rw [hnew] at hp
    have hbyte : p / BitsPerByte ≤ vs.length / BitsPerByte := by
      unfold BitsPerByte at hp ⊢
      omega
    rw [bit_setByBitNum (by rw [hnum]; exact hlimit), hnum, if_pos hbyte]
    rcases Nat.lt_trichotomy p vs.length with hlt | rfl | hgt
    · have hold : p < b.data.length * BitsPerByte := by
        unfold BitsPerByte at hlength ⊢
        omega
      rw [if_neg (Nat.ne_of_lt hlt), hbits p hold, Option.getD_some, List.getD_append _ _ _ _ hlt]
      simp [hlt, Nat.lt_succ_of_lt hlt]
    · rw [if_pos rfl, List.getD_append_right _ _ _ _ (Nat.le_refl _)]
      simp
    · have hnone : (b.bit p).getD false = false := by
        by_cases hold : p < b.data.length * BitsPerByte
        · rw [hbits p hold, Option.getD_some]
          simp [Nat.not_lt_of_lt hgt]
        · have hend : b.data.length ≤ p / BitsPerByte :=
            (Nat.le_div_iff_mul_le (by decide)).mpr (Nat.le_of_not_lt hold)
          rw [bit, List.getElem?_eq_none hend]
          rfl
      rw [if_neg (Nat.ne_of_gt hgt), hnone]
      have hpast : ¬p < vs.length + 1 := Nat.not_lt_of_le hgt
      simp [hpast]

/-! ## Whole ranges -/

section Range

variable (conf : MBSlave) (s : Sensors) (m : RegMap) (f : SlaveFunctionCode) {start count : ModbusData}

/-- What is read for the places of a range. -/
def rangeValue (start : ModbusData) (i : Nat) : ModbusData :=
  ((m.find (conf.requestID start f.code + i)).map fun r => readValue (real_read_it s r)).getD 0

/-- Something is found for a range. -/
def Found (start count : ModbusData) : Prop :=
  ∃ i < count.toNat, (m.find (conf.requestID start f.code + i)).isSome

instance : Decidable (Found conf m f start count) :=
  inferInstanceAs (Decidable (∃ i, i < count.toNat ∧
    (m.find (conf.requestID start f.code + i)).isSome))

theorem rangeValue_inside {i : Nat} (hi : start.toNat + i < 65536) :
    rangeValue conf s m f start i = singleRead conf s m f start i := by
  rw [rangeValue, singleRead, if_pos hi, real_read, requestID_ofNat hi]
  cases m.find (conf.requestID start f.code + i) <;> rfl

theorem registerAt_inside {i : Nat} (hi : start.toNat + i < 65536) :
    registerAt conf m f start i = m.find (conf.requestID start f.code + i) := by
  rw [registerAt, if_pos hi, requestID_ofNat hi]

theorem valuesOf_found (hfound : Found conf m f start count) :
    valuesOf (fun r => readValue (real_read_it s r)) count.toNat
        (readRange conf m start count.toNat f.code) =
      (erNoError, (List.range count.toNat).map (rangeValue conf s m f start)) := by
  obtain ⟨i, hi, hsome⟩ := hfound
  rw [readRange_eq, if_neg fun hnone => by simp [hnone i hi] at hsome, valuesOf, List.map_map]
  rfl

theorem valuesOf_not_found (hnone : ¬Found conf m f start count) :
    valuesOf (fun r => readValue (real_read_it s r)) count.toNat
        (readRange conf m start count.toNat f.code) =
      (erBadDataAddress, List.replicate count.toNat 0) := by
  rw [readRange_eq, if_pos fun i hi => Option.not_isSome_iff_eq_none.mp fun h => hnone ⟨i, hi, h⟩]
  rfl

variable (start) in
theorem readRegisters_eq (hcount : 2 ≤ count.toNat) (hlimit : count.toNat ≤ MAXDATALEN) :
    readRegisters conf s m f start count (.ofData []) = some
      (if Found conf m f start count then
        (erNoError, .ofData ((List.range count.toNat).map (rangeValue conf s m f start)))
      else (erBadDataAddress, .ofData [])) := by
  have hzero : count ≠ 0 := fun h => by simp [h] at hcount
  have hone : count ≠ 1 := fun h => by simp [h] at hcount
  have hbuf : ¬bufLength < count.toNat := by
    unfold bufLength MAXLENPACKET
    unfold MAXDATALEN at hlimit
    omega
  rw [readRegisters, if_neg hzero, if_neg hone, much_read]
  by_cases hfound : Found conf m f start count
  · rw [valuesOf_found conf s m f hfound, if_pos hfound]
    dsimp only
    rw [List.length_map, List.length_range, if_neg hbuf, if_pos rfl,
      WordsRet.foldl_addData (Nat.zero_le _), List.nil_append, List.take_of_length_le]
    rw [List.length_map, List.length_range]
    exact Nat.le_trans hlimit (by decide)
  · rw [valuesOf_not_found conf s m f hfound, if_neg hfound]
    dsimp only
    rw [List.length_replicate, if_neg hbuf]
    rfl

variable (start) in
theorem readStatus_eq (hcount : 2 ≤ count.toNat) (hlimit : count.toNat ≤ MAXPDULEN * BitsPerByte) :
    ∃ b, readStatus conf s m f start count .clear =
        (if Found conf m f start count then erNoError else erBadDataAddress, b) ∧
      (Found conf m f start count → b.data.length = (count.toNat + 7) / BitsPerByte ∧
        ∀ p < b.data.length * BitsPerByte,
          b.bit p = some (decide (p < count.toNat ∧ rangeValue conf s m f start p ≠ 0))) := by
  have hzero : count ≠ 0 := fun h => by simp [h] at hcount
  have hone : count ≠ 1 := fun h => by simp [h] at hcount
  rw [readStatus, if_neg hzero, if_neg hone, bits_read]
  by_cases hfound : Found conf m f start count
  · rw [valuesOf_found conf s m f hfound, if_pos hfound]
    have hlength : ((List.range count.toNat).map (rangeValue conf s m f start)).length =
        count.toNat := by simp
    obtain ⟨hbytes, hbits⟩ := foldl_setByBitNum
      ((List.range count.toNat).map (rangeValue conf s m f start)) (by rwa [hlength])
    rw [hlength] at hbytes hbits
    refine ⟨_, rfl, fun _ => ⟨hbytes, fun p hp => ?_⟩⟩
    rw [hbits p hp]
    refine congrArg some (decide_eq_decide.mpr (and_congr_right fun hlt => ?_))
    rw [List.getD_eq_getElem _ _ (by rwa [hlength])]
    simp
  · rw [valuesOf_not_found conf s m f hfound, if_neg hfound]
    exact ⟨_, rfl, fun h => absurd h hfound⟩

variable {conf s m f}

theorem EndsInside.rangeValue_eq (h : EndsInside conf m f start count) {i : Nat}
    (hi : i < count.toNat) : rangeValue conf s m f start i = singleRead conf s m f start i := by
  rcases Nat.lt_or_ge (start.toNat + i) 65536 with hinside | hpast
  · exact rangeValue_inside conf s m f hinside
  · rw [singleRead, if_neg (Nat.not_lt_of_le hpast), rangeValue]
    cases hfind : m.find (conf.requestID start f.code + i) with
    | none => rfl
    | some r => exact h.silent i hi hpast r hfind s

theorem EndsInside.found_iff (h : EndsInside conf m f start count) :
    Found conf m f start count ↔ ∃ i < count.toNat, (registerAt conf m f start i).isSome := by
  constructor
  · rintro ⟨i, hi, hsome⟩
    rcases Nat.lt_or_ge (start.toNat + i) 65536 with hinside | hpast
    · exact ⟨i, hi, by rwa [registerAt_inside conf m f hinside]⟩
    · exact h.found ⟨i, hi, hpast, hsome⟩
  · rintro ⟨i, hi, hsome⟩
    rcases Nat.lt_or_ge (start.toNat + i) 65536 with hinside | hpast
    · exact ⟨i, hi, by rwa [registerAt_inside conf m f hinside] at hsome⟩
    · rw [registerAt, if_neg (Nat.not_lt_of_le hpast)] at hsome
      cases hsome

theorem refused_iff (hfound : Found conf m f start count ↔
      ∃ i < count.toNat, (registerAt conf m f start i).isSome) :
    (if Found conf m f start count then erNoError else erBadDataAddress) = erBadDataAddress ↔
      ∀ i < count.toNat, registerAt conf m f start i = none := by
  have hnone : (∀ i < count.toNat, registerAt conf m f start i = none) ↔
      ¬Found conf m f start count := by
    rw [hfound]
    simp
  rw [hnone]
  split_ifs with h
  · exact iff_of_false (by decide) (not_not_intro h)
  · exact iff_of_true rfl h

theorem EndsInside.readsWords (h : EndsInside conf m f start count) (hcount : 2 ≤ count.toNat)
    (hlimit : count.toNat ≤ MAXDATALEN) : ReadsWords conf s m f start count := by
  have heq := readRegisters_eq conf s m f start hcount hlimit
  have hrefused := refused_iff h.found_iff
  by_cases hfound : Found conf m f start count
  · rw [if_pos hfound] at heq hrefused
    refine ⟨_, _, heq, hrefused, fun _ => ⟨rfl, ?_, fun addr => ?_⟩⟩
    · exact congrArg WordsRet.ofData
        (List.map_congr_left fun i hi => h.rangeValue_eq (List.mem_range.mp hi))
    · have hlength : ((List.range count.toNat).map (rangeValue conf s m f start)).length ≤
          MAXDATALEN := by simpa using hlimit
      exact (WordsRet.roundTrips (Nat.le_trans hlength (by decide))).mpr
        (Nat.le_trans hlength (by decide))
  · rw [if_neg hfound] at heq hrefused
    exact ⟨_, _, heq, hrefused, fun hne => absurd rfl hne⟩

theorem getByBitNum_ofNat (b : BitsBuffer) {p : Nat} (hp : p < b.data.length * BitsPerByte) :
    b.getByBitNum (.ofNat p) = b.bit p :=
  ((reads_iff (Nat.lt_of_lt_of_le hp (Nat.mul_le_mul_right _ b.fits))).mpr rfl).1

theorem EndsInside.readsBits (h : EndsInside conf m f start count) (hcount : 2 ≤ count.toNat)
    (hlimit : count.toNat ≤ MAXPDULEN * BitsPerByte) : ReadsBits conf s m f start count := by
  obtain ⟨b, heq, hbits⟩ := readStatus_eq conf s m f start hcount hlimit
  refine ⟨_, b, heq, refused_iff h.found_iff, fun hne => ?_⟩
  have hfound : Found conf m f start count :=
    Classical.byContradiction fun hnot => hne (if_neg hnot)
  obtain ⟨hbytes, hbits⟩ := hbits hfound
  refine ⟨if_pos hfound, hbytes, fun p hp => ?_, fun addr => BitsBuffer.roundTrips⟩
  rw [getByBitNum_ofNat b hp, hbits p hp]
  exact congrArg some (decide_eq_decide.mpr
    (and_congr_right fun hlt => by rw [h.rangeValue_eq hlt]))

/-- What the bits say of a range that is read as its registers are. -/
theorem endsInside_of_readsBits (h : ∀ s, ReadsBits conf s m f start count) (hcount : 2 ≤ count.toNat)
    (hlimit : count.toNat ≤ MAXPDULEN * BitsPerByte) : EndsInside conf m f start count := by
  have hread : ∀ s, Found conf m f start count →
      (∃ i < count.toNat, (registerAt conf m f start i).isSome) ∧
      ∀ i < count.toNat, rangeValue conf s m f start i ≠ 0 → singleRead conf s m f start i ≠ 0 := by
    intro s hfound
    obtain ⟨b, heq, hbits⟩ := readStatus_eq conf s m f start hcount hlimit
    obtain ⟨hbytes, hbits⟩ := hbits hfound
    obtain ⟨ret, reply, hreply, hrefused, hvalues⟩ := h s
    rw [heq, if_pos hfound] at hreply
    obtain ⟨rfl, rfl⟩ := Prod.mk.inj hreply
    have hsome : ¬∀ i < count.toNat, registerAt conf m f start i = none := fun hnone =>
      absurd (hrefused.mpr hnone) (by decide)
    obtain ⟨-, -, hvalues, -⟩ := hvalues (by decide)
    refine ⟨by simpa [Option.isSome_iff_ne_none] using hsome, fun i hi hne => ?_⟩
    have hp : i < b.data.length * BitsPerByte := by
      rw [hbytes]
      unfold BitsPerByte
      omega
    have hbit := (hvalues i hp).symm.trans ((getByBitNum_ofNat b hp).trans (hbits i hp))
    have hiff := decide_eq_decide.mp (Option.some.inj hbit)
    exact (hiff.mpr ⟨hi, hne⟩).2
  constructor
  · intro i hi hpast r hfind s
    refine Classical.byContradiction fun hne => ?_
    have hvalue : rangeValue conf s m f start i ≠ 0 := by
      rw [rangeValue, hfind]
      exact hne
    refine (hread s ⟨i, hi, by rw [hfind]; rfl⟩).2 i hi hvalue ?_
    rw [singleRead, if_neg (Nat.not_lt_of_le hpast)]
  · rintro ⟨i, hi, -, hsome⟩
    exact (hread ⟨fun _ => .ok false, fun _ => .ok 0, fun _ => .ok 0⟩ ⟨i, hi, hsome⟩).1

/-- A range of as many registers as can be asked for is read as its registers are, whatever the sensors
have, if and only if it ends with the last register of the function, or with no register after it that
would give anything. -/
theorem readsRange_iff (hcount : 2 ≤ count.toNat) (hlimit : count.toNat ≤ MAXPDULEN * BitsPerByte) :
    (∀ s, ReadsRange conf s m f start count) ↔ EndsInside conf m f start count :=
  ⟨fun h => endsInside_of_readsBits (fun s => (h s).2) hcount hlimit,
    fun h _ => ⟨h.readsWords hcount, h.readsBits hcount hlimit⟩⟩

end Range

/-- Register 1 of function 4, as it is kept for a slave that keeps the functions apart. -/
def inputRegister : RegMap :=
  SortedMap.insert .empty ⟨genRegID 1 4, ⟨⟨10, 0⟩, .AI, 1, .amRW, .vtUnknown, 0, 0⟩, none⟩

theorem readsRange_two :
    (∀ s, ReadsRange ⟨true, false, 0⟩ s inputRegister .fnReadInputRegisters 1 2) ↔
      EndsInside ⟨true, false, 0⟩ inputRegister .fnReadInputRegisters 1 2 :=
  readsRange_iff (by decide) (by decide)

/-- Register 65535 of function 3 does not exist, and what comes after it is register 1 of function 4. -/
theorem not_readsRange :
    ¬∀ (conf : MBSlave) (s : Sensors) (m : RegMap) (f : SlaveFunctionCode) (start count : ModbusData),
      2 ≤ count.toNat → count.toNat ≤ MAXPDULEN * BitsPerByte → ReadsRange conf s m f start count := by
  intro h
  have hwords := (h ⟨true, false, 0⟩ ⟨fun _ => .ok false, fun _ => .ok 7, fun _ => .ok 0⟩ inputRegister
    .fnReadOutputRegisters 65535 2 (by decide) (by decide)).1 (by decide)
  obtain ⟨ret, reply, hreply, hrefused, -⟩ := hwords
  have hret : ret = erNoError := congrArg Prod.fst (Option.some.inj hreply.symm)
  rw [hret] at hrefused
  exact absurd (hrefused.mpr (by decide)) (by decide)

end Uniset.ModbusSlave
