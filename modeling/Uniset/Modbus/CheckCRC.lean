import Uniset.Lib.Crc
import Uniset.Modbus.ModbusMessage

/-! The checksum of a frame: the table against the shifts it stands for, and what the checksum
sees. -/

namespace Uniset.Modbus

open Uniset.Lib Uniset.Lib.Crc

/-- `x^16 + x^15 + x^2 + 1`, the low bit for the highest power. -/
def polynomial : BitVec 16 := 0xa001

/-- The loop over the bits of a byte `ch` in the branch of `get_crc_16` without the table. -/
def shiftBits : Nat → UInt16 → ModbusByte → UInt16
  | 0, crc, _ => crc
  | i + 1, crc, ch =>
    shiftBits i (if (crc ^^^ ch.toUInt16) &&& 1 ≠ 0 then crc >>> 1 ^^^ 0xa001 else crc >>> 1)
      (ch >>> 1)

/-- `get_crc_16` without the table. -/
def get_crc_16_shifts (crc : UInt16) (buf : List ModbusByte) : UInt16 :=
  buf.foldl (shiftBits BitsPerByte) crc

/-- The bits of a byte in the order in which they are sent. -/
def byteBits (b : ModbusByte) : List Bool := (List.range 8).map b.toBitVec.getLsbD

def bits (buf : List ModbusByte) : List Bool := buf.flatMap byteBits

/-- The register after a byte has been added to it and shifted out. -/
def shifted (crc : UInt16) (b : ModbusByte) : BitVec 16 :=
  (step polynomial)^[8] (crc.toBitVec ^^^ b.toBitVec.setWidth 16)

theorem ofBits_byteBits {w : Nat} (b : ModbusByte) :
    ofBits (byteBits b) = b.toBitVec.setWidth w := by
  apply BitVec.eq_of_getLsbD_eq
  intro i hi
  rw [getLsbD_ofBits, BitVec.getLsbD_setWidth, byteBits]
  by_cases h8 : i < 8
  · rw [List.getD_eq_getElem _ _ (by simpa using h8)]
    simp
  · rw [List.getD_eq_default _ _ (by simpa using h8), b.toBitVec.getLsbD_of_ge i (by omega)]

theorem feed_byteBits (crc : UInt16) (b : ModbusByte) :
    feed polynomial crc.toBitVec (byteBits b) = shifted crc b := by
  rw [feed_eq polynomial _ (by simp [byteBits]), ofBits_byteBits]
  rfl

/-- The entries of the table are the numbers of their places shifted out. -/
theorem crc_16_tab_eq : ∀ i < 256,
    (crc_16_tab.getD i 0).toBitVec = (step polynomial)^[8] (BitVec.ofNat 16 i) := by
  decide +kernel

/-- A byte taken by the table. -/
theorem toBitVec_tab (crc : UInt16) (b : ModbusByte) :
    (crc >>> 8 ^^^ crc_16_tab.getD ((crc ^^^ b.toUInt16) &&& (0xff : UInt16)).toNat 0).toBitVec =
      shifted crc b := by
  let x : BitVec 16 := crc.toBitVec ^^^ b.toBitVec.setWidth 16
  have hlow : ((crc ^^^ b.toUInt16) &&& (0xff : UInt16)).toBitVec = x &&& 0xff#16 := rfl
  have hindex : ((crc ^^^ b.toUInt16) &&& (0xff : UInt16)).toNat = (x &&& 0xff#16).toNat := by
    rw [← hlow]
    rfl
  have hlt : (x &&& 0xff#16).toNat < 256 := by
    rw [BitVec.toNat_and]
    exact Nat.lt_succ_of_le Nat.and_le_right
  have hhigh : crc.toBitVec >>> 8 = x >>> 8 := by
    ext i hi
    simp only [x, BitVec.getElem_ushiftRight, BitVec.getLsbD_xor, BitVec.getLsbD_setWidth]
    rw [b.toBitVec.getLsbD_of_ge (8 + i) (by omega), Bool.and_false, Bool.xor_false]
  have hparts : x = (x >>> 8) <<< 8 ^^^ (x &&& 0xff#16) := by
    apply BitVec.eq_of_getLsbD_eq
    intro i hi
    rw [show 0xff#16 = (BitVec.allOnes 8).setWidth 16 from rfl]
    simp only [BitVec.getLsbD_xor, BitVec.getLsbD_shiftLeft, BitVec.getLsbD_ushiftRight,
      BitVec.getLsbD_and, BitVec.getLsbD_setWidth, BitVec.getLsbD_allOnes]
    by_cases h8 : i < 8
    · simp [h8, hi]
    · simp [h8, hi, Nat.add_sub_cancel' (Nat.le_of_not_lt h8)]
  have hshift : (step polynomial)^[8] ((x >>> 8) <<< 8) = x >>> 8 := by
    apply iterate_step_shiftLeft
    intro i hi hle
    rw [BitVec.getLsbD_ushiftRight]
    exact x.getLsbD_of_ge _ (by omega)
  change crc.toBitVec >>> 8 ^^^ (crc_16_tab.getD _ 0).toBitVec = _
  rw [hindex, crc_16_tab_eq _ hlt, BitVec.ofNat_toNat, BitVec.setWidth_eq, hhigh]
  change _ = (step polynomial)^[8] x
  conv_rhs => rw [hparts, iterate_step_xor, hshift]

theorem toBitVec_shiftBit (crc : UInt16) (ch : ModbusByte) :
    (if (crc ^^^ ch.toUInt16) &&& 1 ≠ 0 then crc >>> 1 ^^^ 0xa001 else crc >>> 1).toBitVec =
      step polynomial (crc.toBitVec ^^^ bit (ch.toBitVec.getLsbD 0)) := by
  have hshift : (crc.toBitVec ^^^ bit (ch.toBitVec.getLsbD 0)) >>> 1 = crc.toBitVec >>> 1 := by
    ext i hi
    simp [getLsbD_bit]
  have hlow : (crc ^^^ ch.toUInt16) &&& 1 ≠ 0 ↔
      (crc.toBitVec ^^^ bit (ch.toBitVec.getLsbD 0)).getLsbD 0 = true := by
    have hbit : (crc.toBitVec ^^^ bit (ch.toBitVec.getLsbD 0)).getLsbD 0 =
        (crc.toBitVec ^^^ ch.toBitVec.setWidth 16).getLsbD 0 := by
      rw [BitVec.getLsbD_xor, BitVec.getLsbD_xor, getLsbD_bit, BitVec.getLsbD_setWidth]
      rfl
    rw [hbit, Ne, ← UInt16.toBitVec_inj]
    change ¬(crc.toBitVec ^^^ ch.toBitVec.setWidth 16) &&& 1#16 = 0#16 ↔ _
    rw [BitVec.and_one_eq_setWidth_ofBool_getLsbD]
    cases (crc.toBitVec ^^^ ch.toBitVec.setWidth 16).getLsbD 0 <;> decide
  unfold step
  rw [hshift, ← apply_ite UInt16.toBitVec]
  simp only [← hlow]
  split
  · rfl
  · exact BitVec.xor_zero.symm

theorem toBitVec_shiftBits (n : Nat) (crc : UInt16) (ch : ModbusByte) :
    (shiftBits n crc ch).toBitVec =
      feed polynomial crc.toBitVec ((List.range n).map ch.toBitVec.getLsbD) := by
  induction n generalizing crc ch with
  | zero => rfl
  | succ n ih =>
    rw [shiftBits, ih, toBitVec_shiftBit, List.range_succ_eq_map, List.map_cons, List.map_map]
    have hnext : (ch >>> 1).toBitVec.getLsbD = ch.toBitVec.getLsbD ∘ Nat.succ := by
      funext i
      change (ch.toBitVec >>> 1).getLsbD i = _
      rw [BitVec.getLsbD_ushiftRight, Nat.add_comm]
      rfl
    rw [hnext]
    rfl

theorem toBitVec_get_crc_16 (crc : UInt16) (buf : List ModbusByte) :
    (get_crc_16 crc buf).toBitVec = feed polynomial crc.toBitVec (bits buf) := by
  induction buf generalizing crc with
  | nil => rfl
  | cons b buf ih =>
    change (get_crc_16 _ buf).toBitVec = feed _ _ (byteBits b ++ bits buf)
    rw [ih, toBitVec_tab, feed_append, feed_byteBits]

theorem get_crc_16_eq_shifts (crc : UInt16) (buf : List ModbusByte) :
    get_crc_16 crc buf = get_crc_16_shifts crc buf := by
  induction buf generalizing crc with
  | nil => rfl
  | cons b buf ih =>
    have hbyte : crc >>> 8 ^^^ crc_16_tab.getD ((crc ^^^ b.toUInt16) &&& (0xff : UInt16)).toNat 0 =
        shiftBits BitsPerByte crc b := by
      apply UInt16.toBitVec_inj.mp
      rw [toBitVec_tab, toBitVec_shiftBits]
      exact (feed_byteBits crc b).symm
    change get_crc_16 (crc >>> 8 ^^^ _) buf = get_crc_16_shifts (shiftBits BitsPerByte crc b) buf
    rw [hbyte, ih]

theorem bits_length (buf : List ModbusByte) : (bits buf).length = 8 * buf.length := by
  induction buf with
  | nil => rfl
  | cons b buf ih =>
    change (byteBits b ++ bits buf).length = _
    rw [List.length_append, ih, byteBits, List.length_map, List.length_range, List.length_cons]
    omega

theorem byteBits_inj {a b : ModbusByte} (h : byteBits a = byteBits b) : a = b := by
  have hbits : (ofBits (byteBits a) : BitVec 8) = ofBits (byteBits b) := congrArg ofBits h
  rw [ofBits_byteBits, ofBits_byteBits, BitVec.setWidth_eq, BitVec.setWidth_eq] at hbits
  exact UInt8.toBitVec_inj.mp hbits

theorem bits_inj {s t : List ModbusByte} (h : bits s = bits t) : s = t := by
  induction s generalizing t with
  | nil =>
    cases t with
    | nil => rfl
    | cons b t => cases h
  | cons a s ih =>
    cases t with
    | nil => cases h
    | cons b t =>
      have happend : byteBits a ++ bits s = byteBits b ++ bits t := h
      obtain ⟨hhead, htail⟩ := List.append_inj happend rfl
      rw [byteBits_inj hhead, ih htail]

theorem ofBits_toMemory (crc : UInt16) : ofBits (bits (toMemory crc)) = crc.toBitVec := by
  have hbits : bits (toMemory crc) = byteBits (byteAt crc.toNat 0) ++ byteBits (byteAt crc.toNat 1) :=
    rfl
  have hbyte : ∀ k i, i < 8 →
      (byteAt crc.toNat k).toBitVec.getLsbD i = crc.toNat.testBit (i + 8 * k) := by
    intro k i hi
    change (BitVec.ofNat 8 (crc.toNat / 256 ^ k % 256)).getLsbD i = _
    rw [BitVec.getLsbD_ofNat, show 256 = 2 ^ 8 from rfl, ← Nat.pow_mul, Nat.testBit_mod_two_pow,
      Nat.testBit_div_two_pow, decide_eq_true hi, Bool.true_and, Bool.true_and, Nat.add_comm]
  rw [hbits, ofBits_append, ofBits_byteBits, ofBits_byteBits]
  apply BitVec.eq_of_getLsbD_eq
  intro i hi
  rw [BitVec.getLsbD_xor, BitVec.getLsbD_shiftLeft, BitVec.getLsbD_setWidth,
    BitVec.getLsbD_setWidth, show (byteBits (byteAt crc.toNat 0)).length = 8 from rfl]
  change _ = crc.toNat.testBit i
  by_cases h8 : i < 8
  · rw [hbyte 0 i h8]
    simp [h8, hi]
  · rw [hbyte 1 (i - 8) (by omega), BitVec.getLsbD_of_ge _ i (Nat.le_of_not_lt h8)]
    simp [h8, hi, show i - 8 < 16 by omega, show i - 8 + 8 = i by omega]

/-- The table does what the shifts do; the checksum of a string with its own checksum behind it is
zero; and a string that is altered, but only within 16 bits that are sent one after another, has
another checksum. -/
theorem get_crc_16_detects (crc : UInt16) (buf : List ModbusByte) :
    get_crc_16 crc buf = get_crc_16_shifts crc buf ∧
    get_crc_16 crc (buf ++ toMemory (get_crc_16 crc buf)) = 0 ∧
    ∀ buf' : List ModbusByte, buf'.length = buf.length → buf' ≠ buf →
      ∀ k, (∀ i, (bits buf')[i]? ≠ (bits buf)[i]? → k ≤ i ∧ i < k + 16) →
        get_crc_16 crc buf' ≠ get_crc_16 crc buf := by
  refine ⟨get_crc_16_eq_shifts crc buf, ?_, fun buf' hlen hne k hburst heq => ?_⟩
  · apply UInt16.toBitVec_inj.mp
    rw [toBitVec_get_crc_16, bits, List.flatMap_append, feed_append]
    have hcrc := toBitVec_get_crc_16 crc buf
    rw [bits] at hcrc
    rw [← hcrc]
    exact feed_self polynomial _ rfl (ofBits_toMemory _)
  · have hpoly : ∃ i, i + 1 = 16 ∧ polynomial.getLsbD i = true := ⟨15, rfl, rfl⟩
    have hbits : (bits buf').length = (bits buf).length := by
      rw [bits_length, bits_length, hlen]
    apply feed_ne_of_burst hpoly crc.toBitVec hbits (fun h => hne (bits_inj h)) k hburst
    rw [← toBitVec_get_crc_16, ← toBitVec_get_crc_16, heq]

/-- One bit is altered. -/
theorem get_crc_16_detects_bit : get_crc_16 0xffff [1, 3] ≠ get_crc_16 0xffff [1, 2] := by
  refine (get_crc_16_detects 0xffff [1, 2]).2.2 [1, 3] rfl (by decide) 8 fun i hi => ?_
  have hin : ∀ i < 16, (bits [1, 3])[i]? ≠ (bits [1, 2])[i]? → 8 ≤ i ∧ i < 8 + 16 := by decide
  rcases Nat.lt_or_ge i 16 with hlt | hge
  · exact hin i hlt hi
  · exact absurd ((List.getElem?_eq_none hge).trans (List.getElem?_eq_none hge).symm) hi

end Uniset.Modbus
