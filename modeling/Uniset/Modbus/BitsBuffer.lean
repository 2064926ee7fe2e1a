import Mathlib.Data.List.GetD
import Uniset.Modbus.Codec

/-! The buffer of bits as a bounded vector of them. -/

namespace Uniset.Modbus

namespace BitsBuffer

/-- `DataBits(d).b[bnum]`. -/
def bitOf (d : ModbusByte) (bnum : Nat) : Bool := d.toNat.testBit bnum

def getBit (b : BitsBuffer) (dnum bnum : ModbusByte) : Option Bool :=
  if dnum.toNat < b.data.length ∧ bnum.toNat < BitsPerByte then
    some (bitOf (b.data.getD dnum.toNat 0) bnum.toNat)
  else none

def getByBitNum (b : BitsBuffer) (num : ModbusData) : Option Bool :=
  let dnum : ModbusByte := .ofNat (num.toNat / BitsPerByte)
  let bnum : ModbusByte := .ofNat (num.toNat % BitsPerByte)
  b.getBit dnum bnum

/-- The vector: the bits of the bytes there are. -/
def bit (b : BitsBuffer) (p : Nat) : Option Bool :=
  b.data[p / BitsPerByte]?.map (bitOf · (p % BitsPerByte))

/-- Both ways of reading a position give `v`. -/
def Reads (b : BitsBuffer) (p : Nat) (v : Option Bool) : Prop :=
  b.getByBitNum (.ofNat p) = v ∧ b.getBit (.ofNat (p / BitsPerByte)) (.ofNat (p % BitsPerByte)) = v

end BitsBuffer

open BitsBuffer

namespace BitsOp

/-- What the call returns. -/
def returns (b : BitsBuffer) : BitsOp → Bool
  | .addData _ => ¬MAXPDULEN ≤ b.bcnt.toNat
  | .setBit dnum bnum _ => dnum.toNat < b.data.length ∧ bnum.toNat < BitsPerByte
  | .setByBitNum num _ => num.toNat / BitsPerByte % 256 < MAXPDULEN

/-- The bits that the call is to store. -/
def stores (b : BitsBuffer) : BitsOp → Nat → Option Bool
  | .addData d, p =>
    if p / BitsPerByte = b.data.length then some (bitOf d (p % BitsPerByte)) else none
  | .setBit dnum bnum state, p =>
    if p = dnum.toNat * BitsPerByte + bnum.toNat then some state else none
  | .setByBitNum num state, p => if p = num.toNat then some state else none

/-- The position is outside the buffer; the last call makes the buffer longer. -/
def Outside (b : BitsBuffer) : BitsOp → Prop
  | .addData _ => MAXPDULEN ≤ b.data.length
  | .setBit dnum bnum _ => b.data.length ≤ dnum.toNat ∨ BitsPerByte ≤ bnum.toNat
  | .setByBitNum num _ => MAXPDULEN * BitsPerByte ≤ num.toNat

/-- The call does to the buffer what it does to a bounded vector of bits. -/
structure Keeps (b : BitsBuffer) (op : BitsOp) : Prop where
  refused : op.Outside b → op.returns b = false ∧ op.apply b = b
  stored : op.returns b = true → ∀ p v, p < MAXPDULEN * BitsPerByte → op.stores b p = some v →
    (op.apply b).Reads p (some v)
  others : op.returns b = true → ∀ p v, p < MAXPDULEN * BitsPerByte → op.stores b p = none →
    b.Reads p v → (op.apply b).Reads p v ∨ v = none ∧ (op.apply b).Reads p (some false)

/-- Every call of a sequence does. -/
def KeepsAll : BitsBuffer → List BitsOp → Prop
  | _, [] => True
  | b, op :: ops => op.Keeps b ∧ KeepsAll (op.apply b) ops

end BitsOp

/-- The number of the byte that a bit is in is not cut to another one of the buffer. -/
def Exact (num : ModbusData) : Prop :=
  num.toNat < 256 * BitsPerByte ∨ MAXPDULEN ≤ num.toNat / BitsPerByte % 256

def BitsOp.Exact : BitsOp → Prop
  | .setByBitNum num _ => Modbus.Exact num
  | .addData _ | .setBit .. => True

namespace BitsBuffer

theorem toNat_one_shiftLeft {n : Nat} (hn : n < BitsPerByte) :
    ((1 : UInt8) <<< UInt8.ofNat n).toNat = 2 ^ n := by
  have hn : n < 8 := hn
  interval_cases n <;> rfl

theorem bitOf_withBit (d : ModbusByte) {n m : Nat} (state : Bool) (hn : n < BitsPerByte)
    (hm : m < BitsPerByte) :
    bitOf (withBit d n state) m = if m = n then state else bitOf d m := by
  have hone := toNat_one_shiftLeft hn
  have hm' : m < 8 := hm
  unfold bitOf withBit
  cases state with
  | true =>
    rw [if_pos rfl, UInt8.toNat_or, Nat.testBit_or, hone, Nat.testBit_two_pow]
    split_ifs with h
    · simp [h]
    · simp [Ne.symm h]
  | false =>
    have hlt : 2 ^ n < 2 ^ 8 := Nat.pow_lt_pow_right (by decide) hn
    have hsub : UInt8.size - 1 - 2 ^ n = 2 ^ 8 - (2 ^ n + 1) := by
      rw [show UInt8.size = 2 ^ 8 from rfl]
      omega
    rw [if_neg (by decide), UInt8.toNat_and, Nat.testBit_and, UInt8.toNat_not, hone, hsub,
      Nat.testBit_two_pow_sub_succ hlt, Nat.testBit_two_pow]
    split_ifs with h
    · simp [h]
    · simp [hm', Ne.symm h]

theorem bitOf_zero (n : Nat) : bitOf 0 n = false := Nat.zero_testBit n

variable {b : BitsBuffer} {p : Nat}

theorem getBit_eq {dnum bnum : ModbusByte} (h : bnum.toNat < BitsPerByte) :
    b.getBit dnum bnum = b.bit (dnum.toNat * BitsPerByte + bnum.toNat) := by
  have hdiv : (dnum.toNat * BitsPerByte + bnum.toNat) / BitsPerByte = dnum.toNat := by
    rw [show BitsPerByte = 8 from rfl] at h ⊢
    omega
  have hmod : (dnum.toNat * BitsPerByte + bnum.toNat) % BitsPerByte = bnum.toNat := by
    rw [show BitsPerByte = 8 from rfl] at h ⊢
    omega
  unfold getBit bit
  rw [hdiv, hmod]
  split_ifs with hin
  · rw [List.getElem?_eq_getElem hin.1, List.getD_eq_getElem _ _ hin.1]
    rfl
  · rw [List.getElem?_eq_none (by omega)]
    rfl

theorem getByBitNum_eq (b : BitsBuffer) (num : ModbusData) :
    b.getByBitNum num = b.bit (num.toNat % (256 * BitsPerByte)) := by
  have hmod : num.toNat % BitsPerByte < 256 :=
    (Nat.mod_lt _ (by decide)).trans (by decide : BitsPerByte < 256)
  have hb : (UInt8.ofNat (num.toNat % BitsPerByte)).toNat = num.toNat % BitsPerByte := by
    rw [UInt8.toNat_ofNat']
    exact Nat.mod_eq_of_lt hmod
  unfold getByBitNum
  have hlt : (UInt8.ofNat (num.toNat % BitsPerByte)).toNat < BitsPerByte := by
    rw [hb]
    exact Nat.mod_lt _ (by decide)
  rw [getBit_eq hlt, hb, UInt8.toNat_ofNat']
  congr 1
  rw [show BitsPerByte = 8 from rfl]
  omega

/-- A position of the buffer reads as the vector has it. -/
theorem reads_iff (hp : p < MAXPDULEN * BitsPerByte) {v : Option Bool} :
    b.Reads p v ↔ b.bit p = v := by
  have hp' : p < 2024 := hp
  have hnum : (UInt16.ofNat p).toNat % (256 * BitsPerByte) = p := by
    rw [UInt16.toNat_ofNat', show BitsPerByte = 8 from rfl]
    omega
  have hpair : b.getBit (.ofNat (p / BitsPerByte)) (.ofNat (p % BitsPerByte)) = b.bit p := by
    have h := getByBitNum_eq b (.ofNat p)
    unfold getByBitNum at h
    rwa [hnum, UInt16.toNat_ofNat', Nat.mod_eq_of_lt (by omega)] at h
  unfold Reads
  rw [getByBitNum_eq, hnum, hpair, and_self]

theorem eq_position_iff {k n : Nat} (hn : n < BitsPerByte) :
    p = k * BitsPerByte + n ↔ k = p / BitsPerByte ∧ p % BitsPerByte = n := by
  rw [show BitsPerByte = 8 from rfl] at hn ⊢
  omega

/-- The bytes with one bit of the byte at `k` changed. -/
theorem map_bitOf_modify (l : List ModbusByte) (k : Nat) {n : Nat} (hn : n < BitsPerByte)
    (state : Bool) (p : Nat) :
    ((l.modify k (withBit · n state))[p / BitsPerByte]?).map (bitOf · (p % BitsPerByte)) =
      if p = k * BitsPerByte + n then l[k]?.map fun _ => state
      else l[p / BitsPerByte]?.map (bitOf · (p % BitsPerByte)) := by
  have hmod : p % BitsPerByte < BitsPerByte := Nat.mod_lt _ (by decide)
  rw [List.getElem?_modify]
  simp only [eq_position_iff hn]
  by_cases hk : k = p / BitsPerByte
  · subst hk
    cases l[p / BitsPerByte]? with
    | none => split_ifs <;> rfl
    | some d =>
      simp only [if_true, true_and, Option.map_eq_map, Option.map_some]
      rw [bitOf_withBit d state hn hmod]
      split_ifs <;> rfl
  · rw [if_neg (fun h => hk h.1)]
    simp only [if_neg hk, Option.map_eq_map, Option.map_id']

theorem bit_addData (h : b.data.length < MAXPDULEN) (d : ModbusByte) :
    (b.addData d).bit p =
      if p / BitsPerByte = b.data.length then some (bitOf d (p % BitsPerByte)) else b.bit p := by
  unfold addData bit
  rw [dif_pos h]
  split_ifs with hp
  · rw [List.getElem?_append_right hp.ge, hp, Nat.sub_self]
    rfl
  · rw [List.getElem?_append]
    split_ifs with hlt
    · rfl
    · rw [List.getElem?_eq_none (by rw [List.length_singleton]; omega),
        List.getElem?_eq_none (by omega)]

theorem bit_setBit {dnum bnum : ModbusByte} (hd : dnum.toNat < b.data.length)
    (hb : bnum.toNat < BitsPerByte) (state : Bool) :
    (b.setBit dnum bnum state).bit p =
      if p = dnum.toNat * BitsPerByte + bnum.toNat then some state else b.bit p := by
  unfold setBit
  rw [if_pos ⟨hd, hb⟩]
  refine (map_bitOf_modify b.data _ hb state p).trans ?_
  rw [List.getElem?_eq_getElem hd]
  rfl

/-- The bits that were not there before are false. -/
theorem bit_setByBitNum {num : ModbusData} (h : num.toNat < MAXPDULEN * BitsPerByte)
    (state : Bool) :
    (b.setByBitNum num state).bit p =
      if p = num.toNat then some state
      else if p / BitsPerByte ≤ num.toNat / BitsPerByte then some ((b.bit p).getD false)
      else b.bit p := by
  have h' : num.toNat < 2024 := h
  have hcut : num.toNat / BitsPerByte % 256 = num.toNat / BitsPerByte := by
    rw [show BitsPerByte = 8 from rfl]
    omega
  have hfits : num.toNat / BitsPerByte < MAXPDULEN := by
    rw [show BitsPerByte = 8 from rfl, show MAXPDULEN = 253 from rfl]
    omega
  have hnum : num.toNat / BitsPerByte * BitsPerByte + num.toNat % BitsPerByte = num.toNat :=
    Nat.div_add_mod' _ _
  unfold setByBitNum
  dsimp only
  rw [dif_pos (by rwa [hcut])]
  have hmod : num.toNat % BitsPerByte < BitsPerByte := Nat.mod_lt _ (by decide)
  refine (map_bitOf_modify _ _ hmod state p).trans ?_
  rw [hcut, hnum]
  have hlen : num.toNat / BitsPerByte <
      (b.data ++ List.replicate (num.toNat / BitsPerByte + 1 - b.data.length) 0).length := by
    rw [List.length_append, List.length_replicate]
    omega
  split_ifs with hp hle
  · rw [List.getElem?_eq_getElem hlen]
    rfl
  · unfold bit
    rw [List.getElem?_append, List.getElem?_replicate]
    split_ifs with hold hnew
    · rw [List.getElem?_eq_getElem hold]
      rfl
    · rw [List.getElem?_eq_none (by omega)]
      exact congrArg some (bitOf_zero _)
    · omega
  · unfold bit
    rw [List.getElem?_append, List.getElem?_replicate]
    split_ifs with hold hnew
    · rfl
    · omega
    · rw [List.getElem?_eq_none (by omega)]

theorem length_setByBitNum {num : ModbusData} (h : num.toNat / BitsPerByte % 256 < MAXPDULEN)
    (state : Bool) :
    (b.setByBitNum num state).data.length =
      max b.data.length (num.toNat / BitsPerByte % 256 + 1) := by
  unfold setByBitNum
  dsimp only
  rw [dif_pos h, List.length_modify, List.length_append, List.length_replicate]
  omega

end BitsBuffer

namespace BitsOp

variable {b : BitsBuffer}

/-- What there is to show of a call. -/
theorem keeps_of_bit {op : BitsOp}
    (hout : op.Outside b → op.returns b = false ∧ op.apply b = b)
    (hbit : op.returns b = true → ∀ p, (op.apply b).bit p = (op.stores b p).or (b.bit p) ∨
      (op.stores b p).or (b.bit p) = none ∧ (op.apply b).bit p = some false) :
    op.Keeps b := by
  refine ⟨hout, fun hret p v hp hst => ?_, fun hret p v hp hst hv => ?_⟩
  · rw [reads_iff hp]
    rcases hbit hret p with h | ⟨hnone, -⟩
    · rw [h, hst]
      rfl
    · rw [hst] at hnone
      cases hnone
  · rw [reads_iff hp] at hv
    rw [reads_iff hp, reads_iff hp]
    have h := hbit hret p
    rw [hst, hv] at h
    exact h

/-- A call that is refused. -/
theorem keeps_of_refused {op : BitsOp} (hret : op.returns b = false) (happly : op.apply b = b) :
    op.Keeps b :=
  keeps_of_bit (fun _ => ⟨hret, happly⟩) fun h => by
    rw [hret] at h
    cases h

theorem keeps_addData (b : BitsBuffer) (d : ModbusByte) : (addData d).Keeps b := by
  by_cases hroom : b.data.length < MAXPDULEN
  · refine keeps_of_bit (fun h => absurd h (Nat.not_le_of_lt hroom)) fun _ p => .inl ?_
    refine (bit_addData hroom d).trans ?_
    change _ = Option.or (if _ then some _ else none) _
    split_ifs <;> rfl
  · have hfull : MAXPDULEN ≤ b.bcnt.toNat := by
      rw [toNat_bcnt]
      exact Nat.le_of_not_lt hroom
    exact keeps_of_refused (decide_eq_false (not_not_intro hfull)) (dif_neg hroom)

theorem keeps_setBit (b : BitsBuffer) (dnum bnum : ModbusByte) (state : Bool) :
    (setBit dnum bnum state).Keeps b := by
  by_cases hin : dnum.toNat < b.data.length ∧ bnum.toNat < BitsPerByte
  · refine keeps_of_bit (fun h => ?_) fun _ p => .inl ?_
    · have h : b.data.length ≤ dnum.toNat ∨ BitsPerByte ≤ bnum.toNat := h
      omega
    · refine (bit_setBit hin.1 hin.2 state).trans ?_
      change _ = Option.or (if _ then some _ else none) _
      split_ifs <;> rfl
  · exact keeps_of_refused (decide_eq_false hin) (if_neg hin)

theorem returns_setByBitNum {num : ModbusData} {state : Bool} :
    (setByBitNum num state).returns b = true ↔ num.toNat / BitsPerByte % 256 < MAXPDULEN :=
  decide_eq_true_iff

theorem keeps_setByBitNum {num : ModbusData} (h : Modbus.Exact num) (state : Bool) :
    (setByBitNum num state).Keeps b := by
  by_cases hret : num.toNat / BitsPerByte % 256 < MAXPDULEN
  · have hin : num.toNat < MAXPDULEN * BitsPerByte := by
      have hnum : num.toNat < 256 * BitsPerByte := h.resolve_right (Nat.not_le_of_lt hret)
      rw [show BitsPerByte = 8 from rfl, show MAXPDULEN = 253 from rfl] at *
      omega
    refine keeps_of_bit (fun hout => absurd hout (Nat.not_le_of_lt hin)) fun _ p => ?_
    have hbit := bit_setByBitNum (b := b) (p := p) hin state
    change BitsBuffer.bit _ p = Option.or (if _ then some _ else none) _ ∨
      Option.or (if _ then some _ else none) _ = none ∧ BitsBuffer.bit _ p = _
    rw [show apply b (setByBitNum num state) = b.setByBitNum num state from rfl, hbit]
    split_ifs
    · exact .inl rfl
    · cases b.bit p with
      | none => exact .inr ⟨rfl, rfl⟩
      | some v => exact .inl rfl
    · exact .inl rfl
  · exact keeps_of_refused (decide_eq_false hret) (dif_neg hret)

theorem keeps_iff (b : BitsBuffer) (op : BitsOp) : op.Keeps b ↔ op.Exact := by
  cases op with
  | addData d => exact iff_of_true (keeps_addData b d) trivial
  | setBit dnum bnum state => exact iff_of_true (keeps_setBit b dnum bnum state) trivial
  | setByBitNum num state =>
    refine ⟨fun h => ?_, fun h => keeps_setByBitNum h state⟩
    by_contra hcut
    obtain ⟨hlong, hret⟩ := not_or.mp hcut
    have hout : MAXPDULEN * BitsPerByte ≤ num.toNat :=
      (by decide : MAXPDULEN * BitsPerByte ≤ 256 * BitsPerByte).trans (Nat.le_of_not_lt hlong)
    have htrue : (setByBitNum num state).returns b = true :=
      returns_setByBitNum.mpr (Nat.lt_of_not_le hret)
    rw [(h.refused hout).1] at htrue
    cases htrue

theorem keepsAll_iff_exact (b : BitsBuffer) (ops : List BitsOp) :
    KeepsAll b ops ↔ ∀ op ∈ ops, op.Exact := by
  induction ops generalizing b with
  | nil => simp [KeepsAll]
  | cons op ops ih => simp [KeepsAll, keeps_iff, ih]

end BitsOp

/-- A number that is cut reads a bit of a byte of the buffer. -/
theorem getByBitNum_isSome_iff (num : ModbusData) :
    (∀ ops : List BitsOp, let b := ops.foldl BitsOp.apply .clear
      (b.getByBitNum num).isSome → num.toNat < b.data.length * BitsPerByte) ↔ Exact num := by
  constructor
  · intro h
    by_contra hcut
    obtain ⟨hlong, hin⟩ := not_or.mp hcut
    -- the last bit of the buffer is stored, and all of the bytes are there
    let b := BitsBuffer.clear.setByBitNum 2023 true
    have hlen : b.data.length = MAXPDULEN := length_setByBitNum (by decide) true
    have hsome : (b.getByBitNum num).isSome := by
      rw [getByBitNum_eq]
      unfold bit
      rw [Option.isSome_map, List.getElem?_eq_getElem (by
        rw [hlen]
        rw [show BitsPerByte = 8 from rfl] at *
        omega)]
      rfl
    have hlt : num.toNat < b.data.length * BitsPerByte := h [.setByBitNum 2023 true] hsome
    rw [hlen] at hlt
    exact hlong (hlt.trans (by decide))
  · intro h ops b hsome
    rw [getByBitNum_eq] at hsome
    unfold bit at hsome
    rw [Option.isSome_map, Option.isSome_iff_ne_none, ne_eq, List.getElem?_eq_none_iff] at hsome
    have hfits := b.fits
    unfold Exact at h
    rw [show BitsPerByte = 8 from rfl, show MAXPDULEN = 253 from rfl] at *
    omega

/-- Every call of a sequence does what it does to a bounded vector of bits, and reading does, too,
if the numbers of the bits are not cut. -/
theorem BitsBuffer.keepsAll_iff (ops : List BitsOp) (num : ModbusData) :
    (BitsOp.KeepsAll .clear ops ↔ ∀ op ∈ ops, op.Exact) ∧
    ((∀ ops : List BitsOp, let b := ops.foldl BitsOp.apply .clear
      (b.getByBitNum num).isSome → num.toNat < b.data.length * BitsPerByte) ↔ Exact num) :=
  ⟨BitsOp.keepsAll_iff_exact .clear ops, getByBitNum_isSome_iff num⟩

/-- Bit 2048 is outside the buffer, and bit 0 is stored. -/
theorem BitsBuffer.not_keepsAll : ¬∀ ops : List BitsOp, BitsOp.KeepsAll .clear ops := by
  intro h
  have hout : (BitsOp.setByBitNum 2048 true).Outside .clear := by
    change MAXPDULEN * BitsPerByte ≤ 2048
    decide
  cases ((h [.setByBitNum 2048 true]).1.refused hout).1

end Uniset.Modbus
