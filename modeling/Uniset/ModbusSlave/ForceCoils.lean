import Uniset.Modbus.BitsBuffer
import Uniset.ModbusSlave.MuchWrite

/-! Coils are written: one by a request, or as many as there are bits in the bytes of a request. -/

namespace Uniset.ModbusSlave

open Uniset.Modbus SlaveFunctionCode

def AnyAddr : ModbusAddr := 255

/-- A register that is asked to be written by one word. -/
structure CoilWrite where
  reg : ModbusData
  writes : List Write
  deriving DecidableEq

structure CoilsResult where
  code : mbErrCode
  reply : TwoWords
  coils : List CoilWrite
  deriving DecidableEq

variable (conf : MBSlave)

/-- Nothing is written for a register that does not exist.  The code is not used here. -/
def real_write (m : RegMap) (reg val : ModbusData) (fn : ModbusByte) : Option (List Write) :=
  match m.find (conf.requestID reg fn) with
  | none => some []
  | some r => (real_write_it [val] r 0 1).map Prod.fst

def coilValue (state : Bool) : ModbusData := if state then 1 else 0

/-- The bits `ks` of a byte, as far as the request has so many coils: the registers with what is
written to them, and the number of coils after it. -/
def byteLoop (query : WriteRequest ModbusByte) (b : ModbusByte) :
    List Nat → Nat → List (ModbusData × ModbusData) × Nat
  | [], nbit => ([], nbit)
  | k :: ks, nbit =>
    if nbit < query.quant.toNat then
      let rest := byteLoop query b ks (nbit + 1)
      ((.ofNat (query.start.toNat + nbit), coilValue (BitsBuffer.bitOf b k)) :: rest.1, rest.2)
    else ([], nbit)

def coilLoop (query : WriteRequest ModbusByte) :
    List ModbusByte → Nat → List (ModbusData × ModbusData) × Nat
  | [], nbit => ([], nbit)
  | b :: bs, nbit =>
    let here := byteLoop query b (List.range BitsPerByte) nbit
    let rest := coilLoop query bs here.2
    (here.1 ++ rest.1, rest.2)

/-- The bytes that the request says it has. -/
def bytesOf (query : WriteRequest ModbusByte) : List ModbusByte :=
  (List.range query.bcnt.toNat).map (query.data.getD · 0)

section Slave

variable (iomap : ModbusAddr → Option RegMap) (myaddr : ModbusAddr)

def regmapOf (addr : ModbusAddr) : Option RegMap :=
  iomap (if myaddr = AnyAddr then myaddr else addr)

def forceMultipleCoils (addr : ModbusAddr) (query : WriteRequest ModbusByte) (reply : TwoWords) :
    Option CoilsResult :=
  match regmapOf iomap myaddr addr with
  | none => some ⟨erTimeOut, reply, []⟩
  | some regmap => do
    let fn := conf.getOptimizeWriteFunction fnForceMultipleCoils.code
    let (calls, nbit) := coilLoop query (bytesOf query) 0
    let coils ← calls.mapM fun c => (real_write conf regmap c.1 c.2 fn).map (CoilWrite.mk c.1)
    let reply := if nbit = query.quant.toNat then ⟨query.start, query.quant⟩ else reply
    return ⟨erNoError, reply, coils⟩

/-- The number of bytes that the coils of a request take. -/
def bytesFor (quant : ModbusData) : Nat := (quant.toNat + 7) / BitsPerByte

/-- The coils of the request are written, in their order and no others, as each would be by itself. -/
def WritesCoils (regmap : RegMap) (query : WriteRequest ModbusByte) (coils : List CoilWrite) : Prop :=
  coils.length = query.quant.toNat ∧
    ∀ i < query.quant.toNat, ∃ w, coils[i]? = some w ∧
      w.reg.toNat = query.start.toNat + i ∧
      real_write conf regmap w.reg
          (coilValue (BitsBuffer.bitOf (query.data.getD (i / BitsPerByte) 0) (i % BitsPerByte)))
          (conf.getOptimizeWriteFunction fnForceMultipleCoils.code) = some w.writes

/-- A request for one of the addresses is answered with success only if its coils are written, and
with an error if its bytes are not as many as its coils take. -/
def ForcesCoils (addr : ModbusAddr) (query : WriteRequest ModbusByte) (reply : TwoWords) : Prop :=
  ∀ regmap, regmapOf iomap myaddr addr = some regmap →
    ∃ res, forceMultipleCoils conf iomap myaddr addr query reply = some res ∧
      (res.code = erNoError → res.reply = ⟨query.start, query.quant⟩ →
        WritesCoils conf regmap query res.coils) ∧
      (query.bcnt.toNat ≠ bytesFor query.quant → res.code ≠ erNoError ∧ res.coils = [])

end Slave

/-! ## The coils of the bytes -/

section Loop

variable (query : WriteRequest ModbusByte)

/-- The coil of a number, with its bit in the bytes from a place on. -/
def coilAt (bs : List ModbusByte) (place j : Nat) : ModbusData × ModbusData :=
  (.ofNat (query.start.toNat + j),
    coilValue (BitsBuffer.bitOf (bs.getD (j / BitsPerByte - place) 0) (j % BitsPerByte)))

theorem byteLoop_eq (b : ModbusByte) (k n nbit : Nat) (hnbit : nbit ≤ query.quant.toNat) :
    byteLoop query b (List.range' k n) nbit =
      let taken := min n (query.quant.toNat - nbit)
      ((List.range taken).map fun j =>
        (.ofNat (query.start.toNat + (nbit + j)), coilValue (BitsBuffer.bitOf b (k + j))), nbit + taken) := by
  induction n generalizing k nbit with
  | zero => simp [byteLoop]
  | succ n ih =>
    rw [List.range'_succ, byteLoop]
    by_cases hend : nbit < query.quant.toNat
    · have htaken : min (n + 1) (query.quant.toNat - nbit) =
          min n (query.quant.toNat - (nbit + 1)) + 1 := by omega
      rw [if_pos hend, ih _ _ hend]
      dsimp only
      rw [htaken, List.range_succ_eq_map, List.map_cons, List.map_map]
      simp only [Nat.add_zero, Function.comp_def, Nat.succ_eq_add_one, Nat.add_assoc,
        Nat.add_comm 1]
    · have htaken : min (n + 1) (query.quant.toNat - nbit) = 0 := by omega
      rw [if_neg hend, htaken]
      rfl

/-- The first coil of a byte, or the number of coils if there are not so many. -/
def firstCoil (q : Nat) : Nat := min (BitsPerByte * q) query.quant.toNat

theorem firstCoil_add (q : Nat) :
    firstCoil query q + min BitsPerByte (query.quant.toNat - firstCoil query q) =
      firstCoil query (q + 1) := by
  unfold firstCoil BitsPerByte
  omega

theorem coilAt_cons_here (b : ModbusByte) (bs : List ModbusByte) {q j : Nat}
    (hj : j < min BitsPerByte (query.quant.toNat - firstCoil query q)) :
    coilAt query (b :: bs) q (firstCoil query q + j) =
      (.ofNat (query.start.toNat + (firstCoil query q + j)),
        coilValue (BitsBuffer.bitOf b (0 + j))) := by
  have hplace : (firstCoil query q + j) / BitsPerByte - q = 0 ∧
      (firstCoil query q + j) % BitsPerByte = 0 + j := by
    unfold firstCoil BitsPerByte at *
    omega
  rw [coilAt, hplace.1, hplace.2]
  rfl

theorem coilAt_cons_later (b : ModbusByte) (bs : List ModbusByte) {q j : Nat}
    (hj : firstCoil query (q + 1) + j < query.quant.toNat) :
    coilAt query (b :: bs) q (firstCoil query (q + 1) + j) =
      coilAt query bs (q + 1) (firstCoil query (q + 1) + j) := by
  have hplace : (firstCoil query (q + 1) + j) / BitsPerByte - q =
      (firstCoil query (q + 1) + j) / BitsPerByte - (q + 1) + 1 := by
    unfold firstCoil BitsPerByte at *
    omega
  rw [coilAt, coilAt, hplace, List.getD_cons_succ]

/-- The bytes from one on are those of the coils from its first on. -/
theorem coilLoop_eq (bs : List ModbusByte) (q : Nat) :
    coilLoop query bs (firstCoil query q) =
      ((List.range (firstCoil query (q + bs.length) - firstCoil query q)).map fun j =>
        coilAt query bs q (firstCoil query q + j), firstCoil query (q + bs.length)) := by
  induction bs generalizing q with
  | nil => simp [coilLoop]
  | cons b bs ih =>
    have hle : firstCoil query q ≤ query.quant.toNat := Nat.min_le_right _ _
    have hnext := firstCoil_add query q
    have hlength : q + (b :: bs).length = q + 1 + bs.length := by
      rw [List.length_cons]
      omega
    have hlater : firstCoil query (q + 1) ≤ firstCoil query (q + 1 + bs.length) := by
      unfold firstCoil BitsPerByte
      omega
    have hall : firstCoil query (q + 1 + bs.length) - firstCoil query q =
        min BitsPerByte (query.quant.toNat - firstCoil query q) +
          (firstCoil query (q + 1 + bs.length) - firstCoil query (q + 1)) := by omega
    rw [coilLoop, List.range_eq_range', byteLoop_eq query b 0 _ _ hle]
    dsimp only
    rw [hnext, ih, hlength, hall, List.range_add, List.map_append, List.map_map]
    congr 2
    · exact List.map_congr_left fun j hj =>
        (coilAt_cons_here query b bs (List.mem_range.mp hj)).symm
    · refine List.map_congr_left fun j hj => ?_
      have hj := List.mem_range.mp hj
      have hquant : firstCoil query (q + 1 + bs.length) ≤ query.quant.toNat := Nat.min_le_right _ _
      rw [Function.comp_apply, ← Nat.add_assoc, hnext,
        coilAt_cons_later query b bs (by omega)]

/-- The coils of a request are those for which it has bits. -/
theorem coilLoop_bytesOf :
    coilLoop query (bytesOf query) 0 =
      ((List.range (firstCoil query query.bcnt.toNat)).map (coilAt query query.data 0),
        firstCoil query query.bcnt.toNat) := by
  have hloop := coilLoop_eq query (bytesOf query) 0
  have hzero : firstCoil query 0 = 0 := Nat.zero_min _
  simp only [hzero, Nat.zero_add, Nat.sub_zero] at hloop
  have hlength : (bytesOf query).length = query.bcnt.toNat := by simp [bytesOf]
  rw [hloop, hlength]
  congr 1
  refine List.map_congr_left fun j hj => ?_
  have hbyte : j / BitsPerByte < query.bcnt.toNat := by
    have hj := List.mem_range.mp hj
    unfold firstCoil at hj
    exact Nat.div_lt_of_lt_mul (Nat.lt_of_lt_of_le hj (Nat.min_le_left _ _))
  unfold coilAt bytesOf
  rw [Nat.sub_zero, List.getD_eq_getElem _ _ (by simpa using hbyte)]
  simp

end Loop

/-! ## Whether a request is carried out -/

/-- One word is there for every register. -/
theorem real_write_isSome (m : RegMap) (reg val : ModbusData) (fn : ModbusByte) :
    ∃ ws, real_write conf m reg val fn = some ws := by
  unfold real_write
  cases m.find (conf.requestID reg fn) with
  | none => exact ⟨[], rfl⟩
  | some r =>
    obtain ⟨next, hwrite, -⟩ := real_write_it_eq [val] (r := r) Nat.zero_lt_one rfl
    exact ⟨_, congrArg (Option.map Prod.fst) hwrite⟩

variable {conf}

variable {iomap : ModbusAddr → Option RegMap} {myaddr addr : ModbusAddr} {regmap : RegMap}

variable (conf) in
/-- Any request is answered with success, after the coils have been written that it has bits for. -/
theorem forceMultipleCoils_eq (hmap : regmapOf iomap myaddr addr = some regmap)
    (query : WriteRequest ModbusByte) (reply : TwoWords) :
    ∃ coils, forceMultipleCoils conf iomap myaddr addr query reply =
        some ⟨erNoError, if firstCoil query query.bcnt.toNat = query.quant.toNat then
          ⟨query.start, query.quant⟩ else reply, coils⟩ ∧
      coils.length = firstCoil query query.bcnt.toNat ∧
      ∀ i < firstCoil query query.bcnt.toNat, ∃ w, coils[i]? = some w ∧
        w.reg = .ofNat (query.start.toNat + i) ∧
        real_write conf regmap w.reg (coilAt query query.data 0 i).2
          (conf.getOptimizeWriteFunction fnForceMultipleCoils.code) = some w.writes := by
  choose ws hws using fun c : ModbusData × ModbusData => real_write_isSome conf regmap c.1 c.2
    (conf.getOptimizeWriteFunction fnForceMultipleCoils.code)
  let write := fun c : ModbusData × ModbusData => CoilWrite.mk c.1 (ws c)
  let calls := (List.range (firstCoil query query.bcnt.toNat)).map (coilAt query query.data 0)
  have hmapM : calls.mapM (fun c => some (write c)) = some (calls.map write) :=
    List.mapM_pure
  refine ⟨calls.map write, ?_, by simp [calls], fun i hi =>
    ⟨write (coilAt query query.data 0 i), ?_, rfl, hws _⟩⟩
  · simp only [forceMultipleCoils, hmap, coilLoop_bytesOf, hws, Option.map_some]
    rw [hmapM]
    rfl
  · simp [calls, List.getElem?_range hi]

/-- The coils of a request are written, and a request whose bytes are not as many as its coils take is
refused, if and only if they are as many, and no coil is after the last one. -/
theorem forcesCoils_iff (query : WriteRequest ModbusByte) (reply : TwoWords) :
    ForcesCoils conf iomap myaddr addr query reply ↔
      regmapOf iomap myaddr addr = none ∨
        query.bcnt.toNat = bytesFor query.quant ∧
          (query.quant.toNat = 0 ∨ query.start.toNat + query.quant.toNat ≤ 65536) := by
  cases hmap : regmapOf iomap myaddr addr with
  | none =>
    refine iff_of_true (fun regmap h => ?_) (.inl rfl)
    rw [hmap] at h
    cases h
  | some regmap =>
    obtain ⟨coils, heq, hlength, hcoils⟩ := forceMultipleCoils_eq conf hmap query reply
    rw [or_iff_right (Option.some_ne_none _)]
    constructor
    · intro h
      obtain ⟨res, hres, hsuccess, hrefused⟩ := h regmap hmap
      rw [heq] at hres
      obtain rfl := Option.some.inj hres
      have hbytes : query.bcnt.toNat = bytesFor query.quant :=
        Classical.byContradiction fun hne => (hrefused hne).1 rfl
      have hfirst : firstCoil query query.bcnt.toNat = query.quant.toNat := by
        rw [hbytes]
        unfold firstCoil bytesFor BitsPerByte
        omega
      refine ⟨hbytes, Classical.or_iff_not_imp_left.mpr fun hsome => ?_⟩
      obtain ⟨-, hall⟩ := hsuccess rfl (if_pos hfirst)
      obtain ⟨w, hw, hreg, -⟩ := hall (query.quant.toNat - 1) (by omega)
      have hlt := w.reg.toNat_lt
      omega
    · rintro ⟨hbytes, hlast⟩ regmap' h
      obtain rfl := Option.some.inj (hmap.symm.trans h)
      have hfirst : firstCoil query query.bcnt.toNat = query.quant.toNat := by
        rw [hbytes]
        unfold firstCoil bytesFor BitsPerByte
        omega
      rw [hfirst] at hlength hcoils
      refine ⟨_, heq, fun _ _ => ⟨hlength, fun i hi => ?_⟩, fun hne => absurd hbytes hne⟩
      obtain ⟨w, hw, hreg, hwrite⟩ := hcoils i hi
      refine ⟨w, hw, ?_, hwrite⟩
      rw [hreg, UInt16.toNat_ofNat', Nat.mod_eq_of_lt (by omega)]

/-- Nine coils in one byte: the first eight are written. -/
theorem not_forcesCoils :
    ¬∀ (conf : MBSlave) (iomap : ModbusAddr → Option RegMap) (myaddr addr : ModbusAddr)
      (query : WriteRequest ModbusByte) (reply : TwoWords),
      ForcesCoils conf iomap myaddr addr query reply := by
  intro h
  obtain ⟨res, hres, -, hrefused⟩ :=
    h ⟨false, false, 0⟩ (fun _ => some .empty) 1 1 ⟨10, 9, 1, [255]⟩ ⟨0, 0⟩ .empty rfl
  have hcode := congrArg (Option.map CoilsResult.code) hres
  exact (hrefused (by decide)).1 (Option.some.inj hcode).symm

end Uniset.ModbusSlave
