import Uniset.Modbus.RoundTrip

/-! The request and the reply of the device identification, the one reply whose data is not
counted in advance. -/

namespace Uniset.Modbus

open Uniset.Lib SlaveFunctionCode

theorem MEIMessageRDI.roundTrips {addr : ModbusAddr} {devID objID : ModbusByte} :
    MEIMessageRDI.RoundTrips ⟨addr, fnMEI.code, ⟨0x0E, devID, objID⟩, 0⟩ := by
  have hT : MEIMessageRDI.Transports ⟨addr, fnMEI.code, ⟨0x0E, devID, objID⟩, 0⟩
      [0x0E, devID, objID] := by
    apply MessageType.Transports.of_put rfl (n := 5) _ rfl (Nat.le_of_ble_eq_true rfl)
    intro mm
    refine ⟨rfl, fun hput => ?_⟩
    exact (Checked.safe_bind_ok rfl _).mpr ⟨(Checked.safe_require _ _).mpr (by decide), hput⟩
  apply hT.roundTrips
  · intro m hm
    obtain ⟨rest, hcopy⟩ := hm.value_copy 0 7
    rw [Nat.add_zero] at hcopy
    have hcrc := hm.value_crc
    rw [← hm.last] at hcrc
    apply MessageType.decodes_of_value rfl
    simp only [init, assert, Checked.value_bind, Checked.value_require, Checked.value_pure,
      Except.bind, hcopy, hcrc, hm.addr_eq, hm.func_eq]
    rfl
  · rfl
  · exact fun m hm => ⟨_, hm.value_getCrcAt rfl, hm.value_calcCRCTo rfl⟩

namespace MEIMessageRetRDI

/-- The bytes of the objects. -/
def flat (os : List RDIObjectInfo) : List ModbusByte :=
  os.flatMap fun o => o.id :: UInt8.ofNat o.val.length :: o.val

def size (os : List RDIObjectInfo) : Nat := (flat os).length

@[simp] theorem size_nil : size [] = 0 := rfl

@[simp] theorem size_cons (o : RDIObjectInfo) (os : List RDIObjectInfo) :
    size (o :: os) = 2 + o.val.length + size os := by
  simp only [size, flat, List.flatMap_cons, List.length_append, List.length_cons]
  omega

theorem size_append (os os' : List RDIObjectInfo) : size (os ++ os') = size os + size os' := by
  simp only [size, flat, List.flatMap_append, List.length_append]

/-- Each object takes two bytes at least. -/
theorem two_mul_length_le (os : List RDIObjectInfo) : 2 * os.length ≤ size os := by
  induction os with
  | nil => exact Nat.le_refl _
  | cons o os ih =>
    rw [size_cons, List.length_cons]
    omega

/-- A reply as it is after objects have been added. -/
structure Listed (r : MEIRet) : Prop where
  type : r.type = 0x0E
  objNum : r.objNum = UInt8.ofNat r.dlist.length
  bcnt : r.bcnt = size r.dlist
  room : r.dlist ≠ [] → size r.dlist.dropLast < MAXPDULEN

theorem listed_new (devID conformity mf objID : ModbusByte) :
    Listed (new devID conformity mf objID) := ⟨rfl, rfl, rfl, fun h => absurd rfl h⟩

theorem listed_addData {r : MEIRet} (h : Listed r) (o : RDIObjectInfo) : Listed (addData r o) := by
  unfold addData
  split_ifs with hfull
  · exact h
  · constructor
    · exact h.type
    · rfl
    · change r.bcnt + (o.val.length + 2) = size (r.dlist ++ [o])
      rw [size_append, size_cons, size_nil, h.bcnt]
      omega
    · intro _
      rw [List.dropLast_concat, ← h.bcnt]
      exact Nat.lt_of_not_le hfull

theorem listed_foldl (r : MEIRet) (h : Listed r) (os : List RDIObjectInfo) :
    Listed (os.foldl addData r) := by
  induction os generalizing r with
  | nil => exact h
  | cons o os ih => exact ih _ (listed_addData h o)

/-- All objects are put into the message when all but the last end before its limit. -/
theorem objects_eq {os : List RDIObjectInfo} {ind : Nat}
    (h : os ≠ [] → ind + size os.dropLast ≤ MAXLENPACKET) : objects ind os = flat os := by
  induction os generalizing ind with
  | nil => rfl
  | cons o os ih =>
    have hind : ind ≤ MAXLENPACKET := Nat.le_of_add_right_le (h (List.cons_ne_nil _ _))
    rw [objects, if_pos hind, ih]
    · rfl
    · intro hos
      have hle := h (List.cons_ne_nil _ _)
      rw [List.dropLast_cons_of_ne_nil hos, size_cons] at hle
      omega

variable {r : MEIRet} {addr : ModbusAddr} {m : ModbusMessage}

def bytes (r : MEIRet) : List ModbusByte :=
  r.type :: r.devID :: r.conformity :: r.mf :: r.objID :: r.objNum :: flat r.dlist

theorem Listed.objects_eq (h : Listed r) : objects 6 r.dlist = flat r.dlist := by
  apply MEIMessageRetRDI.objects_eq
  intro hne
  have hroom : size r.dlist.dropLast < 253 := h.room hne
  change 6 + _ ≤ 508
  omega

theorem Listed.toNat_objNum (h : Listed r) : r.objNum.toNat = r.dlist.length := by
  rw [h.objNum, UInt8.toNat_ofNat']
  apply Nat.mod_eq_of_lt
  by_cases hne : r.dlist = []
  · rw [hne]
    decide
  · have hroom : size r.dlist.dropLast < 253 := h.room hne
    have hle := two_mul_length_le r.dlist.dropLast
    rw [List.length_dropLast] at hle
    change r.dlist.length < 256
    omega

theorem bytes_length (h : Listed r) : (bytes r).length = 6 + r.bcnt := by
  rw [h.bcnt]
  simp only [bytes, List.length_cons, size]
  omega

theorem transports (h : Listed r) (hlen : r.bcnt ≤ 502) :
    MEIMessageRetRDI.Transports ⟨addr, fnMEI.code, r, 0⟩ (bytes r) := by
  apply MessageType.Transports.of_put rfl (n := 6 + (objects 6 r.dlist).length + szCRC)
  · intro mm
    rw [bytes, ← h.objects_eq]
    refine ⟨rfl, fun hput => ?_⟩
    refine (Checked.safe_bind_ok rfl _).mpr ⟨(Checked.safe_require _ _).mpr ?_, hput⟩
    simp only [szModbusHeader, szData, szCRC]
    omega
  · rw [bytes_length h, h.objects_eq, h.bcnt]
    rfl
  · rw [bytes_length h]
    change _ ≤ 508
    omega

/-- The objects at place `i` are read again if the length of each goes into a byte. -/
theorem value_readObjects {os : List RDIObjectInfo} {rest : List ModbusByte} {i : Nat}
    (hdrop : m.data.drop i = flat os ++ rest) (hdlen : i + size os < m.dlen)
    (hvals : ∀ o ∈ os, o.val.length ≤ 255) :
    (readObjects m os.length i).value = .ok (os, i + size os) := by
  induction os generalizing i with
  | nil => rfl
  | cons o os ih =>
    have hlen : (UInt8.ofNat o.val.length).toNat = o.val.length := by
      have := hvals o List.mem_cons_self
      rw [UInt8.toNat_ofNat']
      omega
    have hobject : m.data.drop i =
        o.id :: UInt8.ofNat o.val.length :: (o.val ++ (flat os ++ rest)) := by
      rw [hdrop, ← List.append_assoc]
      rfl
    have hbytes : m.data.drop (i + 2) = o.val ++ (flat os ++ rest) := by
      rw [← List.drop_drop, hobject]
      rfl
    have hid : (m.byte i).value = .ok o.id := by
      change Except.ok (m.data.getD i 0) = _
      rw [← Nat.add_zero i, getD_add, hobject]
      rfl
    have hbyte : (m.byte (i + 1)).value = .ok (UInt8.ofNat o.val.length) := by
      change Except.ok (m.data.getD (i + 1) 0) = _
      rw [getD_add, hobject]
      rfl
    have hval : (m.bytes (szModbusHeader + i + 2) o.val.length).value = .ok o.val := by
      change Except.ok ((m.frame.drop (szModbusHeader + i + 2)).take o.val.length) = _
      rw [Nat.add_assoc, Nat.add_comm]
      change Except.ok ((m.data.drop (i + 2)).take o.val.length) = _
      rw [hbytes, List.take_left]
    have hnext : m.data.drop (i + (o.val.length + 2)) = flat os ++ rest := by
      rw [Nat.add_comm o.val.length, ← Nat.add_assoc, ← List.drop_drop, hbytes, List.drop_left]
    rw [size_cons] at hdlen ⊢
    have hread := ih hnext (by omega) fun o ho => hvals o (List.mem_cons_of_mem _ ho)
    have hgo : ¬m.dlen ≤ i := by omega
    have hfits : ¬m.dlen < i + 1 + o.val.length := by omega
    simp only [List.length_cons, readObjects, if_neg hgo, Checked.value_bind,
      Checked.value_pure, Except.bind, hid, hbyte, hlen, if_neg hfits, hval, hread]
    congr 2
    omega

/-- Where objects are read, the value of each was counted in one byte. -/
theorem length_of_readObjects {n i : Nat} {os : List RDIObjectInfo} {last : Nat}
    (h : (readObjects m n i).value = .ok (os, last)) : ∀ o ∈ os, o.val.length ≤ 255 := by
  induction n generalizing i os last with
  | zero =>
    cases h
    exact nofun
  | succ n ih =>
    rw [readObjects] at h
    split_ifs at h with hend
    · cases h
      exact nofun
    · obtain ⟨id, -, h⟩ := Checked.value_bind_eq_ok.mp h
      obtain ⟨dlen, -, h⟩ := Checked.value_bind_eq_ok.mp h
      split_ifs at h
      · cases h
      · obtain ⟨val, hval, h⟩ := Checked.value_bind_eq_ok.mp h
        obtain ⟨⟨os', last'⟩, hos', h⟩ := Checked.value_bind_eq_ok.mp h
        cases h
        cases hval
        intro o ho
        cases ho with
        | head => exact Nat.le_trans (List.length_take_le _ _) (Nat.le_of_lt_succ dlen.toNat_lt)
        | tail _ ho => exact ih hos' o ho

/-- A message of objects that each fit is read again. -/
theorem value_init (h : Listed r) (hvals : ∀ o ∈ r.dlist, o.val.length ≤ 255)
    (hm : m.Carries addr fnMEI.code (bytes r)) :
    (init m).value = .ok ⟨addr, fnMEI.code, r, checkCRC (addr :: fnMEI.code :: bytes r)⟩ := by
  have hlen := bytes_length h
  have hdlen : m.dlen = 6 + r.bcnt + 2 := by rw [hm.dlen, hlen]; rfl
  obtain ⟨rest, hdata⟩ := hm.data
  have hdrop : m.data.drop 6 =
      flat r.dlist ++ (toMemory (checkCRC (addr :: fnMEI.code :: bytes r)) ++ rest) := by
    rw [hdata]
    rfl
  have hobjects := value_readObjects hdrop (by rw [← h.bcnt]; omega) hvals
  have hbyte : ∀ k < 6, (m.byte k).value = .ok ((bytes r).getD k 0) := fun k hk =>
    hm.value_byte (by omega)
  have hcrc := hm.value_crc
  rw [hlen, h.bcnt] at hcrc
  have hpre : (pre_init m).value = .ok { r with dlist := [], bcnt := 0 } := by
    have htype : ¬(bytes r).getD 0 0 ≠ 0x0E := not_not_intro h.type
    simp only [pre_init, assert, Checked.value_bind, Checked.value_require, Except.bind,
      hbyte 0 (by decide)]
    rw [if_neg htype, if_neg (by omega)]
    simp only [Checked.value_bind, Checked.value_pure, Except.bind, hbyte 1 (by decide),
      hbyte 2 (by decide), hbyte 3 (by decide), hbyte 4 (by decide), hbyte 5 (by decide)]
    rfl
  have hbody : ({ r with dlist := r.dlist, bcnt := 6 + size r.dlist - 6 } : MEIRet) = r := by
    rw [Nat.add_sub_cancel_left, ← h.bcnt]
  have hlong : ¬(0 < r.dlist.length ∧ m.dlen < 7) := by omega
  simp only [init, Checked.value_bind, Except.bind, hpre, h.toNat_objNum]
  rw [if_neg hlong]
  simp only [Checked.value_bind, Checked.value_pure, Except.bind, hobjects, hcrc, hm.addr_eq,
    hm.func_eq, hbody]

theorem length_of_init {v : Message MEIRet} (h : (init m).value = .ok v) :
    ∀ o ∈ v.body.dlist, o.val.length ≤ 255 := by
  obtain ⟨r, -, h⟩ := Checked.value_bind_eq_ok.mp h
  split_ifs at h
  · cases h
  · obtain ⟨⟨os, last⟩, hos, h⟩ := Checked.value_bind_eq_ok.mp h
    obtain ⟨crc, -, h⟩ := Checked.value_bind_eq_ok.mp h
    cases h
    exact length_of_readObjects hos

/-- Objects are read again if the length of each goes into a byte and all have room in the
message. -/
theorem roundTrips (h : Listed r) :
    MEIMessageRetRDI.RoundTrips ⟨addr, fnMEI.code, r, 0⟩ ↔
      (∀ o ∈ r.dlist, o.val.length ≤ 255) ∧ r.bcnt ≤ 502 := by
  constructor
  · intro hround
    obtain ⟨m, -, hsafe, ⟨init', v', hinit, hvalue, -, -, hbody⟩, -⟩ := hround .new
    cases hinit
    have hlist : v'.body.dlist = r.dlist := congrArg MEIRet.dlist hbody
    have hput := ((Checked.safe_bind_ok rfl _).mp hsafe).2
    have hwrite := (Checked.safe_require _ _).mp ((Checked.safe_bind_ok rfl _).mp hput).1
    have hroom : (bytes r).length + szCRC ≤ 510 := by
      rw [bytes, ← h.objects_eq]
      exact hwrite
    rw [bytes_length h] at hroom
    change 6 + r.bcnt + 2 ≤ 510 at hroom
    constructor
    · rw [← hlist]
      exact length_of_init hvalue
    · omega
  · rintro ⟨hvals, hlen⟩
    apply (transports h hlen).roundTrips
    · exact fun m hm => MessageType.decodes_of_value rfl (value_init h hvals hm)
    · exact congrArg (· + szCRC) (bytes_length h)
    · exact fun m hm => ⟨_, hm.value_getCrcLast, hm.value_calcCRCLast⟩

end MEIMessageRetRDI

/-- Of a date and a time only the header is read again. -/
theorem SetDateTimeMessage.roundTrips {addr : ModbusAddr} {dt : DateTime} :
    SetDateTimeMessage.RoundTrips ⟨addr, fnSetDateTime.code, dt, 0⟩ ↔
      dt = ⟨0, 0, 0, 0, 0, 0, 0⟩ := by
  have hT : SetDateTimeMessage.Transports ⟨addr, fnSetDateTime.code, dt, 0⟩
      [dt.hour, dt.min, dt.sec, dt.day, dt.mon, dt.year, dt.century] := by
    apply MessageType.Transports.of_put rfl (n := 9) _ rfl (Nat.le_of_ble_eq_true rfl)
    intro mm
    refine ⟨rfl, fun hput => ?_⟩
    exact (Checked.safe_bind_ok rfl _).mpr ⟨(Checked.safe_require _ _).mpr (by decide), hput⟩
  constructor
  · intro h
    obtain ⟨m, -, ⟨init', v', hinit, hvalue, -, -, hbody⟩, -⟩ := hT.of_roundTrips h
    cases hinit
    cases hvalue
    exact hbody.symm
  · rintro rfl
    apply hT.roundTrips
    · intro m hm
      apply MessageType.decodes_of_value rfl
      simp only [init, assert, Checked.value_bind, Checked.value_require, Checked.value_pure,
        Except.bind, hm.addr_eq, hm.func_eq]
      rfl
    · rfl
    · exact fun m hm => ⟨_, hm.value_getCrcAt rfl, hm.value_calcCRCTo rfl⟩

end Uniset.Modbus
