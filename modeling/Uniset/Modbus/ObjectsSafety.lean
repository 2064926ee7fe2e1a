import Uniset.Modbus.DecodingSafety
import Uniset.Modbus.ReplyReception

/-! The objects of a device identification as they are read from the message that was received. -/

namespace Uniset.Modbus

open Uniset.Lib SlaveFunctionCode ModbusClient MEIMessageRetRDI

variable {m : ModbusMessage} {s : List ModbusByte} {N : Nat}

theorem readObjects_of_lt {n i : Nat} (hi : i < m.dlen) : readObjects m (n + 1) i = (do
    let id ← m.byte i
    let dlen ← m.byte (i + 1)
    if m.dlen < i + 1 + dlen.toNat then .throw erInvalidFormat
    else do
      let val ← m.bytes (szModbusHeader + i + 2) dlen.toNat
      let p ← readObjects m n (i + (dlen.toNat + 2))
      return (⟨id, val⟩ :: p.1, p.2)) := by
  rw [readObjects, if_neg (Nat.not_le_of_lt hi)]

/-- At the end of the message there are no more objects. -/
theorem readObjects_of_le (n : Nat) {i : Nat} (hi : m.dlen ≤ i) :
    readObjects m n i = return ([], i) := by
  cases n with
  | zero => rfl
  | succ n => rw [readObjects, if_pos hi]

variable (h : m.Holds (s.take N)) (hdlen : m.dlen = N) (hN : N ≤ s.length)
include h hdlen hN

/-- One object whose data is in the message. -/
theorem readObjects_succ {n i : Nat} (hi : i + 2 + (s.getD (i + 1) 0).toNat ≤ N) :
    ∃ o, (readObjects m (n + 1) i).value =
        (readObjects m n (i + 2 + (s.getD (i + 1) 0).toNat)).value.map (fun p => (o :: p.1, p.2)) ∧
      ((readObjects m (n + 1) i).Safe ↔
        (readObjects m n (i + 2 + (s.getD (i + 1) 0).toNat)).Safe) := by
  have hlen := List.length_take_of_le hN
  have hid : i < (s.take N).length := by omega
  have hcount : i + 1 < (s.take N).length := by omega
  have hbyte := h.value_byte hcount
  rw [getD_take (by omega)] at hbyte
  have hfits : ¬m.dlen < i + 1 + (s.getD (i + 1) 0).toNat := by omega
  have hdata : (m.bytes (szModbusHeader + i + 2) (s.getD (i + 1) 0).toNat).Safe := by
    rw [h.safe_bytes, hlen]
    simp only [szModbusHeader]
    omega
  have hplace : i + ((s.getD (i + 1) 0).toNat + 2) = i + 2 + (s.getD (i + 1) 0).toNat := by omega
  rw [readObjects_of_lt (by omega)]
  refine ⟨⟨(s.take N).getD i 0,
    (m.frame.drop (szModbusHeader + i + 2)).take (s.getD (i + 1) 0).toNat⟩, ?_, ?_⟩
  · rw [Checked.value_bind, h.value_byte hid, Except.bind, Checked.value_bind, hbyte, Except.bind,
      if_neg hfits, hplace, Checked.value_bind]
    change ((readObjects m n _ >>= _ : Codec _)).value = _
    rw [Checked.value_bind]
    cases (readObjects m n (i + 2 + (s.getD (i + 1) 0).toNat)).value <;> rfl
  · rw [Checked.safe_bind_ok (h.value_byte hid), and_iff_right ((h.safe_byte i).mpr hid),
      Checked.safe_bind_ok hbyte, and_iff_right ((h.safe_byte _).mpr hcount), if_neg hfits, hplace,
      Checked.safe_bind_ok rfl, and_iff_right hdata, Checked.safe_bind]
    exact and_iff_left fun _ _ => rfl

/-- The objects that the receiver's loop read are read, and then what the loop left. -/
theorem readObjects_loop (n : Nat) {i : Nat} (he : (objectsLoop s n i).1 ≤ N) :
    ∃ os, (readObjects m n i).value =
        (readObjects m (objectsLoop s n i).2 (objectsLoop s n i).1).value.map
          (fun p => (os ++ p.1, p.2)) ∧
      ((readObjects m n i).Safe ↔
        (readObjects m (objectsLoop s n i).2 (objectsLoop s n i).1).Safe) := by
  have hstay : ∀ n i, ∃ os : List RDIObjectInfo, (readObjects m n i).value =
      (readObjects m n i).value.map (fun p => (os ++ p.1, p.2)) ∧
        ((readObjects m n i).Safe ↔ (readObjects m n i).Safe) := fun n i =>
    ⟨[], by cases (readObjects m n i).value <;> rfl, Iff.rfl⟩
  induction n generalizing i with
  | zero => exact hstay 0 i
  | succ n ih =>
    by_cases hplace : i + 2 < MAXLENPACKET + szCRC
    · rw [objectsLoop_succ hplace] at he ⊢
      obtain ⟨o, hvalue, hsafe⟩ := readObjects_succ h hdlen hN (n := n)
        (Nat.le_trans (le_objectsLoop s n _) he)
      obtain ⟨os, hvalue', hsafe'⟩ := ih he
      refine ⟨o :: os, ?_, hsafe.trans hsafe'⟩
      rw [hvalue, hvalue']
      cases (readObjects m _ (objectsLoop s n _).1).value <;> rfl
    · rw [objectsLoop, if_neg hplace]
      exact hstay (n + 1) i

section Identification

variable (hf : m.func = fnMEI.code) (hkind : s.getD 0 0 = 0x0E)
  (he : (objectsLoop s (s.getD 5 0).toNat 6).1 ≤ N)
include hf hkind he

/-- What the receiver's loop left decides how the identification is read. -/
theorem init_objects :
    ((init m).Safe ↔
      (readObjects m (objectsLoop s (s.getD 5 0).toNat 6).2
        (objectsLoop s (s.getD 5 0).toNat 6).1).Safe ∧
      ∀ p, (readObjects m (objectsLoop s (s.getD 5 0).toNat 6).2
        (objectsLoop s (s.getD 5 0).toNat 6).1).value = .ok p → szModbusHeader + p.2 ≤ N) ∧
    ((∃ v, (init m).value = .ok v) ↔
      ∃ p, (readObjects m (objectsLoop s (s.getD 5 0).toNat 6).2
        (objectsLoop s (s.getD 5 0).toNat 6).1).value = .ok p) := by
  have hhead := le_objectsLoop s (s.getD 5 0).toNat 6
  have hlen := List.length_take_of_le hN
  have hpre := value_pre_init h (by omega) (by omega)
  have hpresafe := safe_pre_init h (by omega) (by omega) hf
  rw [getD_take (by omega), if_neg (not_not_intro hkind)] at hpre
  have hnum : (headOf (s.take N)).objNum = s.getD 5 0 := getD_take (by omega)
  have hlong : ¬(0 < (s.getD 5 0).toNat ∧ m.dlen < 7) := by
    rintro ⟨hpos, hshort⟩
    obtain ⟨n, hn⟩ := Nat.exists_eq_add_one.mpr hpos
    have hfirst := le_objectsLoop s n (6 + 2 + (s.getD (6 + 1) 0).toNat)
    rw [hn, objectsLoop_succ (by decide)] at he
    omega
  obtain ⟨os, hvalue, hsafe⟩ := readObjects_loop h hdlen hN (s.getD 5 0).toNat he
  have hunfold : (do
      let r ← pre_init m
      if 0 < r.objNum.toNat ∧ m.dlen < 7 then .throw erInvalidFormat
      else do
        let p ← readObjects m r.objNum.toNat 6
        let crc ← m.word (szModbusHeader + p.2)
        return ⟨m.addr, m.func, { r with dlist := p.1, bcnt := p.2 - 6 }, crc⟩) = init m := rfl
  rw [← hunfold, Checked.safe_bind_ok hpre, and_iff_right hpresafe, Checked.value_bind, hpre,
    Except.bind, hnum, if_neg hlong, Checked.safe_bind, hsafe, Checked.value_bind, hvalue]
  cases (readObjects m (objectsLoop s (s.getD 5 0).toNat 6).2
    (objectsLoop s (s.getD 5 0).toNat 6).1).value with
  | error err =>
    constructor
    · refine and_congr_right fun _ => iff_of_true (fun p hp => ?_) fun p hp => ?_
      · cases hp
      · cases hp
    · refine iff_of_false ?_ ?_
      · rintro ⟨v, hv⟩
        cases hv
      · rintro ⟨p, hp⟩
        cases hp
  | ok p =>
    constructor
    · refine and_congr_right fun _ => ?_
      have hword : (m.word (szModbusHeader + p.2)).Safe ↔ szModbusHeader + p.2 ≤ N := by
        rw [h.safe_word, hlen]
      constructor
      · intro hall p' hp'
        cases hp'
        exact hword.mp ((Checked.safe_bind _ _).mp (hall _ rfl)).1
      · intro hall p' hp'
        cases hp'
        exact (hword.mpr (hall _ rfl)).bind fun _ => Checked.safe_pure _
    · exact iff_of_true ⟨_, rfl⟩ ⟨_, rfl⟩

/-- All objects have been received: they are read, and the checksum behind them if it is there. -/
theorem init_complete (hleft : (objectsLoop s (s.getD 5 0).toNat 6).2 = 0) :
    ((init m).Safe ↔ szModbusHeader + (objectsLoop s (s.getD 5 0).toNat 6).1 ≤ N) ∧
      ∃ v, (init m).value = .ok v := by
  obtain ⟨hsafe, hvalue⟩ := init_objects h hdlen hN hf hkind he
  rw [hleft] at hsafe hvalue
  refine ⟨hsafe.trans ?_, hvalue.mpr ⟨_, rfl⟩⟩
  refine (and_iff_right rfl).trans ⟨fun hall => hall _ rfl, fun hle p hp => ?_⟩
  cases hp
  exact hle

/-- The message ends where the loop stopped: the checksum is looked for behind it. -/
theorem not_safe_init_of_end (hend : (objectsLoop s (s.getD 5 0).toNat 6).1 = N) :
    ¬(init m).Safe := by
  obtain ⟨hsafe, -⟩ := init_objects h hdlen hN hf hkind he
  rw [hsafe, hend, readObjects_of_le _ (Nat.le_of_eq hdlen)]
  rintro ⟨-, hall⟩
  have hle := hall _ rfl
  simp only [szModbusHeader] at hle
  omega

/-- The loop stopped for want of place: the checksum is read as the head of one more object. -/
theorem init_incomplete {left : Nat} (hleft : (objectsLoop s (s.getD 5 0).toNat 6).2 = left + 1)
    (hend : (objectsLoop s (s.getD 5 0).toNat 6).1 + 2 = N) :
    ((init m).Safe ↔ 2 ≤ (s.getD (N - 1) 0).toNat) ∧
      ((init m).Safe → ¬∃ v, (init m).value = .ok v) := by
  obtain ⟨hsafe, hvalue⟩ := init_objects h hdlen hN hf hkind he
  generalize (objectsLoop s (s.getD 5 0).toNat 6).1 = e at *
  have hlen := List.length_take_of_le hN
  have hid : e < (s.take N).length := by omega
  have hcount : e + 1 < (s.take N).length := by omega
  have hplace : N - 1 = e + 1 := by omega
  have hbyte := h.value_byte hcount
  rw [getD_take (by omega), ← hplace] at hbyte
  rw [hleft] at hsafe hvalue
  by_cases hbig : 2 ≤ (s.getD (N - 1) 0).toNat
  · have hthrow : (readObjects m (left + 1) e).value = .error erInvalidFormat := by
      rw [readObjects_of_lt (by omega), ← hplace, Checked.value_bind, h.value_byte hid, Except.bind,
        Checked.value_bind, hbyte, Except.bind, if_pos (by omega), Checked.value_throw]
    have hread : (readObjects m (left + 1) e).Safe := by
      rw [readObjects_of_lt (by omega), ← hplace, Checked.safe_bind_ok (h.value_byte hid),
        Checked.safe_bind_ok hbyte, if_pos (by omega)]
      exact ⟨(h.safe_byte e).mpr hid, (h.safe_byte _).mpr (by omega), rfl⟩
    rw [hthrow] at hsafe hvalue
    refine ⟨iff_of_true (hsafe.mpr ⟨hread, fun p hp => ?_⟩) hbig, fun _ hv => ?_⟩
    · cases hp
    · obtain ⟨p, hp⟩ := hvalue.mp hv
      cases hp
  · have hlast : (readObjects m (left + 1) e).value =
        .ok ([⟨(s.take N).getD e 0, (m.frame.drop (szModbusHeader + e + 2)).take
          (s.getD (N - 1) 0).toNat⟩], e + ((s.getD (N - 1) 0).toNat + 2)) := by
      rw [readObjects_of_lt (by omega), ← hplace, Checked.value_bind, h.value_byte hid, Except.bind,
        Checked.value_bind, hbyte, Except.bind, if_neg (by omega), readObjects_of_le _ (by omega)]
      rfl
    have hunsafe : ¬(init m).Safe := by
      rw [hsafe, hlast]
      rintro ⟨-, hall⟩
      have hle := hall _ rfl
      simp only [szModbusHeader] at hle
      omega
    exact ⟨iff_of_false hunsafe hbig, fun h => absurd h hunsafe⟩

end Identification

end Uniset.Modbus
