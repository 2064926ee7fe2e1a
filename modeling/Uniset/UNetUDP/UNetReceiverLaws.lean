import Uniset.UNetUDP.UNetReceiver
import Uniset.Lib.Word64

/-! What `receive` and one turn of `update` can do, and the rule for the loop of `update`. -/

namespace Uniset.UNetUDP

open Uniset.Lib

variable {b : BufferSize}

namespace UNetReceiver

/-! ### Moving a packet to its slot -/

@[simp] theorem movePack_self (cbuf : Fin b.val.toNat → UDPMessage) (w : Fin b.val.toNat)
    (num : UInt64) : movePack cbuf w num w = (cbuf w).setNum 0 := by
  by_cases h : w = b.slot num <;> simp [movePack, h]

theorem movePack_target {cbuf : Fin b.val.toNat → UDPMessage} {w : Fin b.val.toNat} {num : UInt64}
    (h : b.slot num ≠ w) : movePack cbuf w num (b.slot num) = cbuf w := by
  simp [movePack, h]

theorem movePack_other {cbuf : Fin b.val.toNat → UDPMessage} {w j : Fin b.val.toNat} {num : UInt64}
    (hw : j ≠ w) (hnum : j ≠ b.slot num) : movePack cbuf w num j = cbuf j := by
  simp [movePack, hw, hnum]

/-! ### The cases of `receive` -/

variable {r : UNetReceiver b} {pack : UDPMessage}

theorem receivePack_of_bad (h : pack.isOk = false) :
    r.receivePack pack =
      (.retError, { r with cbuf := Function.update r.cbuf (b.slot r.wnum) pack }) := by
  simp [receivePack, h]

theorem receivePack_of_disagree (hok : pack.isOk = true) (h : r.Disagree pack.header.num) :
    r.receivePack pack =
      (.retOK,
        { r with
          lostPackets := r.lostPackets +
            (if pack.header.num > r.wnum then pack.header.num - r.wnum - 1 else 1)
          rnum := pack.header.num
          wnum := pack.header.num + 1
          cbuf := movePack (Function.update r.cbuf (b.slot r.wnum) pack) (b.slot r.wnum)
            pack.header.num }) := by
  have hne : pack.header.num + 1 ≠ pack.header.num := by grind
  simp [receivePack, hok, h, hne]

theorem receivePack_of_expected (hok : pack.isOk = true) (h : ¬ r.Disagree pack.header.num)
    (hnum : pack.header.num = r.wnum) :
    r.receivePack pack =
      (.retOK,
        { r with
          cbuf := Function.update r.cbuf (b.slot r.wnum) pack
          wnum := r.wnum + 1
          rnum := if r.rnum = 0 then r.wnum else r.rnum }) := by
  rw [hnum] at h
  simp [receivePack, hok, h, hnum]

theorem receivePack_of_unexpected (hok : pack.isOk = true) (h : ¬ r.Disagree pack.header.num)
    (hnum : pack.header.num ≠ r.wnum) :
    r.receivePack pack =
      (.retOK,
        { r with
          cbuf := movePack (Function.update r.cbuf (b.slot r.wnum) pack) (b.slot r.wnum)
            pack.header.num
          wnum := if pack.header.num ≥ r.wnum then pack.header.num + 1 else r.wnum }) := by
  have hzero : (if r.rnum = 0 then (0 : UInt64) else r.rnum) = r.rnum := by grind
  simp [receivePack, hok, h, hnum, hzero]

/-- Every slot keeps its packet, or holds the one just received, with its number or with 0. -/
theorem receivePack_slot (r : UNetReceiver b) (pack : UDPMessage) (j : Fin b.val.toNat) :
    (r.receivePack pack).2.cbuf j = r.cbuf j ∨ (r.receivePack pack).2.cbuf j = pack ∨
      (r.receivePack pack).2.cbuf j = pack.setNum 0 := by
  have hmove : movePack (Function.update r.cbuf (b.slot r.wnum) pack) (b.slot r.wnum)
        pack.header.num j = r.cbuf j ∨
      movePack (Function.update r.cbuf (b.slot r.wnum) pack) (b.slot r.wnum)
        pack.header.num j = pack ∨
      movePack (Function.update r.cbuf (b.slot r.wnum) pack) (b.slot r.wnum)
        pack.header.num j = pack.setNum 0 := by
    by_cases hw : j = b.slot r.wnum
    · subst hw; simp
    · by_cases hnum : j = b.slot pack.header.num
      · subst hnum; simp [movePack_target hw]
      · simp [movePack_other hw hnum, hw]
  have hput : Function.update r.cbuf (b.slot r.wnum) pack j = r.cbuf j ∨
      Function.update r.cbuf (b.slot r.wnum) pack j = pack := by
    by_cases hw : j = b.slot r.wnum
    · subst hw; simp
    · simp [hw]
  cases hok : pack.isOk with
  | false => rw [receivePack_of_bad hok]; rcases hput with h | h <;> simp [h]
  | true =>
    by_cases hd : r.Disagree pack.header.num
    · rw [receivePack_of_disagree hok hd]; exact hmove
    · by_cases hnum : pack.header.num = r.wnum
      · rw [receivePack_of_expected hok hd hnum]; rcases hput with h | h <;> simp [h]
      · rw [receivePack_of_unexpected hok hd hnum]; exact hmove

/-- Only the slots of the write position and of the number received are written. -/
theorem receivePack_other {j : Fin b.val.toNat} (hw : j ≠ b.slot r.wnum)
    (hnum : j ≠ b.slot pack.header.num) : (r.receivePack pack).2.cbuf j = r.cbuf j := by
  have hput : Function.update r.cbuf (b.slot r.wnum) pack j = r.cbuf j :=
    Function.update_of_ne hw _ _
  have hmove : movePack (Function.update r.cbuf (b.slot r.wnum) pack) (b.slot r.wnum)
      pack.header.num j = r.cbuf j := (movePack_other hw hnum).trans hput
  cases hok : pack.isOk with
  | false => rw [receivePack_of_bad hok]; exact hput
  | true =>
    by_cases hd : r.Disagree pack.header.num
    · rw [receivePack_of_disagree hok hd]; exact hmove
    · by_cases hexp : pack.header.num = r.wnum
      · rw [receivePack_of_expected hok hd hexp]; exact hput
      · rw [receivePack_of_unexpected hok hd hexp]; exact hmove

theorem receivePack_slot_num (hok : pack.isOk = true)
    (h : b.slot pack.header.num ≠ b.slot r.wnum) :
    (r.receivePack pack).2.cbuf (b.slot pack.header.num) = pack := by
  have hmove : movePack (Function.update r.cbuf (b.slot r.wnum) pack) (b.slot r.wnum)
      pack.header.num (b.slot pack.header.num) = pack := by
    rw [movePack_target h, Function.update_self]
  by_cases hd : r.Disagree pack.header.num
  · rw [receivePack_of_disagree hok hd]; exact hmove
  · have hnum : pack.header.num ≠ r.wnum := fun hnum => h (by rw [hnum])
    rw [receivePack_of_unexpected hok hd hnum]; exact hmove

/-- The slot of the write position keeps the packet only if it is the expected one. -/
theorem receivePack_slot_wnum (hok : pack.isOk = true) :
    (r.receivePack pack).2.cbuf (b.slot r.wnum) =
      if pack.header.num = r.wnum ∧ ¬ r.Disagree pack.header.num then pack
      else pack.setNum 0 := by
  have hmove : movePack (Function.update r.cbuf (b.slot r.wnum) pack) (b.slot r.wnum)
      pack.header.num (b.slot r.wnum) = pack.setNum 0 := by
    rw [movePack_self, Function.update_self]
  by_cases hd : r.Disagree pack.header.num
  · rw [if_neg (fun h => h.2 hd), receivePack_of_disagree hok hd]
    exact hmove
  · by_cases hnum : pack.header.num = r.wnum
    · rw [if_pos ⟨hnum, hd⟩, receivePack_of_expected hok hd hnum]
      exact Function.update_self _ _ _
    · rw [if_neg (fun h => hnum h.1), receivePack_of_unexpected hok hd hnum]
      exact hmove

theorem receivePack_code (r : UNetReceiver b) (pack : UDPMessage) :
    (r.receivePack pack).1 = .retOK ↔ pack.isOk = true := by
  cases hok : pack.isOk with
  | false => simp [receivePack_of_bad hok]
  | true =>
    by_cases hd : r.Disagree pack.header.num
    · simp [receivePack_of_disagree hok hd]
    · by_cases hnum : pack.header.num = r.wnum
      · simp [receivePack_of_expected hok hd hnum]
      · simp [receivePack_of_unexpected hok hd hnum]

theorem receiveMessage_of_isOk {HostIsBigEndian : Bool} {msg : UDPMessage}
    (hpack : msg.ntoh HostIsBigEndian = some pack) (hok : pack.isOk = true) :
    r.receiveMessage HostIsBigEndian msg = some (.retOK, (r.receivePack pack).2) := by
  rw [receiveMessage, hpack, Option.map_some, ← (receivePack_code r pack).mpr hok]

/-- Without a reinitialisation a reading position that is set stays where it is. -/
theorem receivePack_rnum (hok : pack.isOk = true) (h : ¬ r.Disagree pack.header.num) :
    (r.receivePack pack).2.rnum = r.rnum ∨ r.rnum = 0 := by
  by_cases hnum : pack.header.num = r.wnum
  · rw [receivePack_of_expected hok h hnum]
    by_cases hzero : r.rnum = 0
    · exact .inr hzero
    · exact .inl (if_neg hzero)
  · rw [receivePack_of_unexpected hok h hnum]
    exact .inl rfl

theorem receivePack_lostPackets (hok : pack.isOk = true) (h : ¬ r.Disagree pack.header.num) :
    (r.receivePack pack).2.lostPackets = r.lostPackets := by
  by_cases hnum : pack.header.num = r.wnum
  · rw [receivePack_of_expected hok h hnum]
  · rw [receivePack_of_unexpected hok h hnum]

/-! ### The read position after a hole -/

theorem rnextFrom_spec (r : UNetReceiver b) (num : UInt64) (fuel : Nat) (i : UInt64)
    (hi : i ≤ r.wnum) (hfuel : r.wnum.toNat - i.toNat ≤ fuel) :
    i ≤ r.rnextFrom num fuel i ∧ r.rnextFrom num fuel i ≤ r.wnum ∧
      (∀ j, i ≤ j → j < r.rnextFrom num fuel i → (r.cbuf (b.slot j)).header.num ≤ num) ∧
      (r.rnextFrom num fuel i < r.wnum →
        num < (r.cbuf (b.slot (r.rnextFrom num fuel i))).header.num) := by
  induction fuel generalizing i with
  | zero =>
    have heq : i = r.wnum := by
      rw [UInt64.le_iff_toNat_le] at hi
      exact UInt64.toNat.inj (by omega)
    subst heq
    exact ⟨le_rfl, le_rfl, fun j hij hj => absurd hj (not_lt.mpr hij),
      fun hlt => absurd hlt (lt_irrefl _)⟩
  | succ fuel ih =>
    simp only [rnextFrom]
    by_cases hlt : i < r.wnum
    · rw [if_pos hlt]
      by_cases hgt : (r.cbuf (b.slot i)).header.num > num
      · rw [if_pos hgt]
        exact ⟨le_rfl, hi, fun j hij hj => absurd hj (not_lt.mpr hij), fun _ => hgt⟩
      · rw [if_neg hgt]
        have hstep : r.wnum.toNat - (i + 1).toNat ≤ fuel := by
          rw [toNat_succ hlt]
          omega
        obtain ⟨hle, hub, hskip, hstop⟩ := ih (i + 1) (succ_le hlt) hstep
        refine ⟨(lt_succ hlt).le.trans hle, hub, fun j hij hj => ?_, hstop⟩
        rcases eq_or_lt_of_le hij with rfl | hij
        · exact not_lt.mp hgt
        · exact hskip j (succ_le hij) hj
    · rw [if_neg hlt]
      exact ⟨hi, le_rfl, fun j hij hj => absurd (hij.trans_lt hj) hlt,
        fun h => absurd h (lt_irrefl _)⟩

/-- `rnext` goes forward, at most to the write position, over slots that hold no later number. -/
theorem rnext_spec {num : UInt64} (h : num < r.wnum) :
    num < r.rnext num ∧ r.rnext num ≤ r.wnum ∧
      (∀ j, num < j → j < r.rnext num → (r.cbuf (b.slot j)).header.num ≤ num) ∧
      (r.rnext num < r.wnum → num < (r.cbuf (b.slot (r.rnext num))).header.num) := by
  have hfuel : r.wnum.toNat - (num + 1).toNat ≤ (r.wnum - (num + 1)).toNat := by
    rw [UInt64.toNat_sub_of_le _ _ (succ_le h)]
  obtain ⟨hle, hub, hskip, hstop⟩ := r.rnextFrom_spec num _ (num + 1) (succ_le h) hfuel
  exact ⟨(lt_succ h).trans_le hle, hub, fun j hj hlt => hskip j (succ_le hj) hlt, hstop⟩

theorem rnextFrom_congr {r' : UNetReceiver b} (hcbuf : r'.cbuf = r.cbuf) (hwnum : r'.wnum = r.wnum) (num : UInt64)
    (fuel : Nat) (i : UInt64) : r'.rnextFrom num fuel i = r.rnextFrom num fuel i := by
  induction fuel generalizing i with
  | zero => simp only [rnextFrom, hwnum]
  | succ fuel ih => simp only [rnextFrom, hcbuf, hwnum, ih]

theorem rnext_congr {r' : UNetReceiver b} (hcbuf : r'.cbuf = r.cbuf) (hwnum : r'.wnum = r.wnum) (num : UInt64) :
    r'.rnext num = r.rnext num := by
  rw [rnext, rnext, rnextFrom_congr hcbuf hwnum, hwnum]

/-! ### The turns of `update` -/

theorem applyPacket_frame {sm sm' : SharedMemory} {r' : UNetReceiver b} {p : UDPMessage}
    (h : r.applyPacket sm p = some (r', sm')) :
    ∃ dmap amap, r' = { r with d_icache_map := dmap, a_icache_map := amap } := by
  simp only [applyPacket, Option.bind_eq_bind, Option.bind_eq_some_iff] at h
  obtain ⟨⟨dmap, _⟩, -, ⟨amap, _⟩, -, h⟩ := h
  cases h
  exact ⟨dmap, amap, rfl⟩

variable {r' : UNetReceiver b} {sm sm' : SharedMemory} {now : Nat} {applied : Option UDPMessage}

theorem turn_of_waiting (hnum : (r.cbuf (b.slot r.rnum)).header.num ≠ r.rnum)
    (htime : r.ptLostTimeout.checkTime now = false) : r.turn now sm = some .wait := by
  simp [turn, hnum, htime]

theorem turn_of_hole (hnum : (r.cbuf (b.slot r.rnum)).header.num ≠ r.rnum)
    (htime : r.ptLostTimeout.checkTime now = true) :
    r.turn now sm = some (.again
      { r with lostPackets := r.lostPackets + r.holeSub, rnum := r.rnext r.rnum } sm none) := by
  simp [turn, hnum, htime]

theorem turn_of_off (hnum : (r.cbuf (b.slot r.rnum)).header.num = r.rnum)
    (hoff : r.lockUpdate = true ∨ r.mode = .mDisabled) :
    r.turn now sm = some (.again (r.advance now) sm none) := by
  simp only [turn, hnum, ne_eq, not_true_eq_false, if_false]
  by_cases hlock : (r.advance now).lockUpdate = true
  · rw [if_pos hlock]
  · have hmode : (r.advance now).mode = .mDisabled := hoff.resolve_left hlock
    rw [if_neg hlock, if_pos hmode]

theorem turn_of_on (hnum : (r.cbuf (b.slot r.rnum)).header.num = r.rnum)
    (hon : ¬ (r.lockUpdate = true ∨ r.mode = .mDisabled)) :
    r.turn now sm = ((r.advance now).applyPacket sm (r.cbuf (b.slot r.rnum))).map
      fun out => .again out.1 out.2 (some (r.cbuf (b.slot r.rnum))) := by
  rw [not_or] at hon
  have hlock : ¬ (r.advance now).lockUpdate = true := hon.1
  have hmode : ¬ (r.advance now).mode = .mDisabled := hon.2
  simp only [turn, hnum, ne_eq, not_true_eq_false, if_false]
  rw [if_neg hlock, if_neg hmode]

/-- All a turn that does not wait can do: give up a hole, pass over a packet while updates are
locked or disabled, or apply it. -/
theorem turn_cases (h : r.turn now sm = some (.again r' sm' applied)) :
    ((r.cbuf (b.slot r.rnum)).header.num ≠ r.rnum ∧ r.ptLostTimeout.checkTime now = true ∧
      applied = none ∧ sm' = sm ∧
      r' = { r with lostPackets := r.lostPackets + r.holeSub, rnum := r.rnext r.rnum }) ∨
    ((r.cbuf (b.slot r.rnum)).header.num = r.rnum ∧ applied = none ∧ sm' = sm ∧
      (r.lockUpdate = true ∨ r.mode = .mDisabled) ∧ r' = r.advance now) ∨
    ((r.cbuf (b.slot r.rnum)).header.num = r.rnum ∧ applied = some (r.cbuf (b.slot r.rnum)) ∧
      r.lockUpdate = false ∧ r.mode ≠ .mDisabled ∧
      (r.advance now).applyPacket sm (r.cbuf (b.slot r.rnum)) = some (r', sm')) := by
  by_cases hnum : (r.cbuf (b.slot r.rnum)).header.num = r.rnum
  · by_cases hoff : r.lockUpdate = true ∨ r.mode = .mDisabled
    · rw [turn_of_off hnum hoff] at h
      cases h
      exact .inr (.inl ⟨hnum, rfl, rfl, hoff, rfl⟩)
    · rw [turn_of_on hnum hoff, Option.map_eq_some_iff] at h
      obtain ⟨⟨r₁, sm₁⟩, happly, h⟩ := h
      cases h
      rw [not_or] at hoff
      exact .inr (.inr ⟨hnum, rfl, Bool.eq_false_of_not_eq_true hoff.1, hoff.2, happly⟩)
  · cases htime : r.ptLostTimeout.checkTime now with
    | true =>
      rw [turn_of_hole hnum htime] at h
      cases h
      exact .inl ⟨hnum, rfl, rfl, rfl, rfl⟩
    | false =>
      rw [turn_of_waiting hnum htime] at h
      cases h

/-- The buffer, the write position and the settings stay as they are. -/
theorem turn_frame (h : r.turn now sm = some (.again r' sm' applied)) :
    r'.cbuf = r.cbuf ∧ r'.wnum = r.wnum ∧ r'.maxDifferens = r.maxDifferens ∧
      r'.lockUpdate = r.lockUpdate ∧ r'.mode = r.mode ∧ r'.ignoreCRC = r.ignoreCRC := by
  rcases turn_cases h with ⟨-, -, -, -, rfl⟩ | ⟨-, -, -, -, rfl⟩ | ⟨-, -, -, -, happly⟩
  · exact ⟨rfl, rfl, rfl, rfl, rfl, rfl⟩
  · exact ⟨rfl, rfl, rfl, rfl, rfl, rfl⟩
  · obtain ⟨dmap, amap, rfl⟩ := applyPacket_frame happly
    exact ⟨rfl, rfl, rfl, rfl, rfl, rfl⟩

/-- The read position, the counter of lost packets and the timer after a turn. -/
theorem turn_counters (h : r.turn now sm = some (.again r' sm' applied)) :
    ((r.cbuf (b.slot r.rnum)).header.num ≠ r.rnum ∧ r.ptLostTimeout.checkTime now = true ∧
      applied = none ∧ r'.rnum = r.rnext r.rnum ∧ r'.lostPackets = r.lostPackets + r.holeSub ∧
      r'.ptLostTimeout = r.ptLostTimeout) ∨
    ((r.cbuf (b.slot r.rnum)).header.num = r.rnum ∧
      (applied = if r.lockUpdate = true ∨ r.mode = .mDisabled then none
        else some (r.cbuf (b.slot r.rnum))) ∧
      r'.rnum = r.rnum + 1 ∧ r'.lostPackets = r.lostPackets ∧
      r'.ptLostTimeout = r.ptLostTimeout.reset now) := by
  rcases turn_cases h with ⟨hnum, htime, rfl, -, rfl⟩ | ⟨hnum, rfl, -, hoff, rfl⟩ |
    ⟨hnum, rfl, hlock, hmode, happly⟩
  · exact .inl ⟨hnum, htime, rfl, rfl, rfl, rfl⟩
  · exact .inr ⟨hnum, by rw [if_pos hoff], rfl, rfl, rfl⟩
  · obtain ⟨dmap, amap, rfl⟩ := applyPacket_frame happly
    exact .inr ⟨hnum, by simp [hlock, hmode], rfl, rfl, rfl⟩

theorem turn_applied {p : UDPMessage} (h : r.turn now sm = some (.again r' sm' (some p))) :
    p = r.cbuf (b.slot r.rnum) ∧ p.header.num = r.rnum ∧ r'.rnum = r.rnum + 1 ∧
      r.lockUpdate = false ∧ r.mode ≠ .mDisabled := by
  rcases turn_counters h with ⟨-, -, happ, -⟩ | ⟨hnum, happ, hrnum, -⟩
  · cases happ
  · split at happ
    · cases happ
    · rename_i hon
      cases happ
      rw [not_or] at hon
      exact ⟨rfl, hnum, hrnum, Bool.eq_false_of_not_eq_true hon.1, hon.2⟩

theorem turn_rnum (hlt : r.rnum < r.wnum) (h : r.turn now sm = some (.again r' sm' applied)) :
    r.rnum < r'.rnum ∧ r'.rnum ≤ r.wnum := by
  rcases turn_counters h with ⟨-, -, -, hrnum, -⟩ | ⟨-, -, hrnum, -⟩
  · rw [hrnum]
    exact ⟨(rnext_spec hlt).1, (rnext_spec hlt).2.1⟩
  · rw [hrnum]
    exact ⟨lt_succ hlt, succ_le hlt⟩

/-- What every turn preserves, the loop preserves. -/
theorem updateLoop_rule {clock : Nat → Nat}
    {I : Nat → UNetReceiver b → SharedMemory → List UDPMessage → Prop}
    (hturn : ∀ {k : Nat} {r r' : UNetReceiver b} {sm sm' : SharedMemory}
      {applied : Option UDPMessage} {ps : List UDPMessage}, I k r sm ps → r.rnum < r.wnum →
      r.turn (clock k) sm = some (.again r' sm' applied) → I (k + 1) r' sm' (ps ++ applied.toList))
    (fuel k : Nat) {r r' : UNetReceiver b} {sm sm' : SharedMemory} {ps qs : List UDPMessage}
    (hI : I k r sm ps) (h : r.updateLoop clock fuel k sm = some (r', sm', qs)) :
    ∃ k', I k' r' sm' (ps ++ qs) := by
  induction fuel generalizing k r sm ps qs with
  | zero =>
    cases h
    exact ⟨k, by simpa using hI⟩
  | succ fuel ih =>
    simp only [updateLoop] at h
    by_cases hlt : r.rnum < r.wnum
    · rw [if_pos hlt] at h
      cases hbody : r.turn (clock k) sm with
      | none => simp [hbody] at h
      | some t =>
        cases t with
        | wait =>
          simp only [hbody] at h
          cases h
          exact ⟨k, by simpa using hI⟩
        | again r₁ sm₁ applied =>
          simp only [hbody, Option.map_eq_some_iff] at h
          obtain ⟨⟨r₂, sm₂, rest⟩, hrest, h⟩ := h
          cases h
          rw [← List.append_assoc]
          exact ih (k + 1) (hturn hI hlt hbody) hrest
    · rw [if_neg hlt] at h
      cases h
      exact ⟨k, by simpa using hI⟩

/-- A loop whose turns all stay inside the arrays does so itself. -/
theorem updateLoop_isSome {clock : Nat → Nat} {I : UNetReceiver b → SharedMemory → Prop}
    (hturn : ∀ (now : Nat) (r : UNetReceiver b) (sm : SharedMemory), I r sm → r.rnum < r.wnum →
      ∃ t, r.turn now sm = some t ∧ ∀ r' sm' applied, t = .again r' sm' applied → I r' sm')
    (fuel k : Nat) {r : UNetReceiver b} {sm : SharedMemory} (hI : I r sm) :
    ∃ out, r.updateLoop clock fuel k sm = some out := by
  induction fuel generalizing k r sm with
  | zero => exact ⟨_, rfl⟩
  | succ fuel ih =>
    simp only [updateLoop]
    by_cases hlt : r.rnum < r.wnum
    · obtain ⟨t, ht, hagain⟩ := hturn (clock k) r sm hI hlt
      rw [if_pos hlt, ht]
      cases t with
      | wait => exact ⟨_, rfl⟩
      | again r' sm' applied =>
        obtain ⟨out, hout⟩ := ih (k + 1) (hagain r' sm' applied rfl)
        simp only [hout, Option.map_some]
        exact ⟨_, rfl⟩
    · rw [if_neg hlt]
      exact ⟨_, rfl⟩

/-- The rule for `update`. -/
theorem update_rule {clock : Nat → Nat}
    {I : Nat → UNetReceiver b → SharedMemory → List UDPMessage → Prop}
    (hturn : ∀ {k : Nat} {r r' : UNetReceiver b} {sm sm' : SharedMemory}
      {applied : Option UDPMessage} {ps : List UDPMessage}, I k r sm ps → r.rnum < r.wnum →
      r.turn (clock k) sm = some (.again r' sm' applied) → I (k + 1) r' sm' (ps ++ applied.toList))
    {r r' : UNetReceiver b} {sm sm' : SharedMemory} {qs : List UDPMessage} (hI : I 0 r sm [])
    (h : r.update clock sm = some (r', sm', qs)) : ∃ k, I k r' sm' qs := by
  unfold update at h
  split at h
  · cases h
    exact ⟨0, hI⟩
  · exact updateLoop_rule hturn _ 0 hI h

/-- A packet that stands at the reading position is the first one applied. -/
theorem update_first {clock : Nat → Nat} {ps : List UDPMessage} (hlt : r.rnum < r.wnum)
    (hstarted : ¬ (r.wnum = 1 ∧ r.rnum = 0)) (hnum : (r.cbuf (b.slot r.rnum)).header.num = r.rnum)
    (hlock : r.lockUpdate = false) (hmode : r.mode ≠ .mDisabled)
    (h : r.update clock sm = some (r', sm', ps)) : r.cbuf (b.slot r.rnum) ∈ ps := by
  rw [update, if_neg hstarted] at h
  have hfuel : 0 < (r.wnum - r.rnum).toNat := by
    rw [UInt64.toNat_sub_of_le _ _ hlt.le]
    exact Nat.sub_pos_of_lt (UInt64.lt_iff_toNat_lt.mp hlt)
  obtain ⟨fuel, hfuel⟩ := Nat.exists_eq_add_one.mpr hfuel
  rw [hfuel, updateLoop, if_pos hlt] at h
  cases hbody : r.turn (clock 0) sm with
  | none => simp [hbody] at h
  | some t =>
    cases t with
    | wait => simp [turn, hnum, advance, hlock, hmode] at hbody
    | again r₁ sm₁ applied =>
      simp only [hbody, Option.map_eq_some_iff] at h
      obtain ⟨⟨r₂, sm₂, rest⟩, -, h⟩ := h
      cases h
      rcases turn_counters hbody with ⟨hne, -⟩ | ⟨-, happ, -⟩
      · exact absurd hnum hne
      · simp [happ, hlock, hmode]

/-- A loop that meets no hole applies one packet after the other. -/
theorem updateLoop_full {clock : Nat → Nat} (fuel k : Nat) {ps : List UDPMessage}
    (hlen : r.wnum.toNat = r.rnum.toNat + fuel)
    (hfull : ∀ i < fuel, (r.cbuf (b.slot (r.rnum + UInt64.ofNat i))).header.num =
      r.rnum + UInt64.ofNat i)
    (hlock : r.lockUpdate = false) (hmode : r.mode ≠ .mDisabled)
    (h : r.updateLoop clock fuel k sm = some (r', sm', ps)) :
    ps = (List.range fuel).map fun i => r.cbuf (b.slot (r.rnum + UInt64.ofNat i)) := by
  induction fuel generalizing k r sm ps with
  | zero =>
    cases h
    rfl
  | succ fuel ih =>
    have hlt : r.rnum < r.wnum := by
      rw [UInt64.lt_iff_toNat_lt]
      omega
    have hnum : (r.cbuf (b.slot r.rnum)).header.num = r.rnum := by
      simpa using hfull 0 (Nat.succ_pos fuel)
    rw [updateLoop, if_pos hlt] at h
    cases hbody : r.turn (clock k) sm with
    | none => simp [hbody] at h
    | some t =>
      cases t with
      | wait => simp [turn, hnum, advance, hlock, hmode] at hbody
      | again r₁ sm₁ applied =>
        simp only [hbody, Option.map_eq_some_iff] at h
        obtain ⟨⟨r₂, sm₂, rest⟩, hrest, h⟩ := h
        cases h
        obtain ⟨hne, -⟩ | ⟨-, happ, hrnum, -⟩ := turn_counters hbody
        · exact absurd hnum hne
        · obtain ⟨hcbuf, hwnum, -, hlock₁, hmode₁, -⟩ := turn_frame hbody
          have hnext : ∀ i, r.rnum + 1 + UInt64.ofNat i = r.rnum + UInt64.ofNat (i + 1) := by
            intro i
            rw [UInt64.ofNat_add, UInt64.add_assoc, UInt64.add_comm 1]
            rfl
          have hps := ih (k + 1) (by rw [hwnum, hrnum, toNat_succ hlt]; omega)
            (fun i hi => by rw [hcbuf, hrnum, hnext]; exact hfull (i + 1) (Nat.succ_lt_succ hi))
            (hlock₁.trans hlock) (hmode₁ ▸ hmode) hrest
          rw [happ, if_neg (by simp [hlock, hmode]), hps, List.range_succ_eq_map, List.map_cons,
            List.map_map, hcbuf, hrnum]
          refine congrArg₂ List.cons ?_ (List.map_congr_left fun i _ => ?_)
          · simp
          · rw [hnext, Function.comp_apply]

theorem update_full {clock : Nat → Nat} {ps : List UDPMessage} (hlt : r.rnum < r.wnum)
    (hstarted : ¬ (r.wnum = 1 ∧ r.rnum = 0))
    (hfull : ∀ i < (r.wnum - r.rnum).toNat,
      (r.cbuf (b.slot (r.rnum + UInt64.ofNat i))).header.num = r.rnum + UInt64.ofNat i)
    (hlock : r.lockUpdate = false) (hmode : r.mode ≠ .mDisabled)
    (h : r.update clock sm = some (r', sm', ps)) :
    ps = (List.range (r.wnum - r.rnum).toNat).map
      fun i => r.cbuf (b.slot (r.rnum + UInt64.ofNat i)) := by
  rw [update, if_neg hstarted] at h
  refine updateLoop_full _ 0 ?_ hfull hlock hmode h
  rw [UInt64.toNat_sub_of_le _ _ hlt.le]
  rw [UInt64.lt_iff_toNat_lt] at hlt
  omega

/-- What `update` makes of the receiver when it applies the packets `ps`. -/
structure Updated (r r' : UNetReceiver b) (ps : List UDPMessage) : Prop where
  cbuf : r'.cbuf = r.cbuf
  wnum : r'.wnum = r.wnum
  maxDifferens : r'.maxDifferens = r.maxDifferens
  lockUpdate : r'.lockUpdate = r.lockUpdate
  mode : r'.mode = r.mode
  rnum_le : r.rnum ≤ r'.rnum
  le_wnum : r'.rnum = r.rnum ∨ r'.rnum ≤ r.wnum
  increasing : (ps.map fun p => p.header.num).Pairwise (· < ·)
  mem : ∀ p ∈ ps, p = r.cbuf (b.slot p.header.num) ∧ r.rnum ≤ p.header.num ∧
    p.header.num < r'.rnum ∧ r'.rnum ≤ r.wnum ∧ r.lockUpdate = false ∧ r.mode ≠ .mDisabled

theorem Updated.refl (r : UNetReceiver b) : Updated r r [] where
  cbuf := rfl
  wnum := rfl
  maxDifferens := rfl
  lockUpdate := rfl
  mode := rfl
  rnum_le := le_rfl
  le_wnum := .inl rfl
  increasing := List.Pairwise.nil
  mem := by simp

theorem Updated.turn {r₀ : UNetReceiver b} {ps : List UDPMessage} (hI : Updated r₀ r ps)
    (hlt : r.rnum < r.wnum) (h : r.turn now sm = some (.again r' sm' applied)) :
    Updated r₀ r' (ps ++ applied.toList) := by
  obtain ⟨hcbuf, hwnum, hmax, hlock, hmode, -⟩ := turn_frame h
  obtain ⟨hgt, hle⟩ := turn_rnum hlt h
  rw [hI.wnum] at hle
  have hps : ∀ p ∈ ps, p = r₀.cbuf (b.slot p.header.num) ∧ r₀.rnum ≤ p.header.num ∧
      p.header.num < r'.rnum ∧ r'.rnum ≤ r₀.wnum ∧ r₀.lockUpdate = false ∧
      r₀.mode ≠ .mDisabled := by
    intro p hp
    obtain ⟨hslot, hge, hbelow, -, hon⟩ := hI.mem p hp
    exact ⟨hslot, hge, hbelow.trans hgt, hle, hon⟩
  refine
    { cbuf := hcbuf.trans hI.cbuf
      wnum := hwnum.trans hI.wnum
      maxDifferens := hmax.trans hI.maxDifferens
      lockUpdate := hlock.trans hI.lockUpdate
      mode := hmode.trans hI.mode
      rnum_le := hI.rnum_le.trans hgt.le
      le_wnum := .inr hle
      increasing := ?_
      mem := ?_ }
  · cases applied with
    | none => simpa using hI.increasing
    | some p =>
      obtain ⟨-, hnum, -⟩ := turn_applied h
      simp only [Option.toList_some, List.map_append, List.pairwise_append, List.map_cons,
        List.map_nil, List.pairwise_singleton, List.mem_singleton, true_and]
      refine ⟨hI.increasing, ?_⟩
      intro n hn m hm
      obtain ⟨q, hq, rfl⟩ := List.mem_map.mp hn
      rw [hm, hnum]
      exact (hI.mem q hq).2.2.1
  · cases applied with
    | none => simpa using hps
    | some p =>
      obtain ⟨hslot, hnum, hrnum, hunlocked, henabled⟩ := turn_applied h
      intro q hq
      rcases List.mem_append.mp hq with hq | hq
      · exact hps q hq
      · obtain rfl : q = p := by simpa using hq
        refine ⟨?_, ?_, ?_, hle, ?_, ?_⟩
        · rw [hnum, ← hI.cbuf]; exact hslot
        · rw [hnum]; exact hI.rnum_le
        · rw [hnum]; exact hgt
        · rw [← hI.lockUpdate]; exact hunlocked
        · rw [← hI.mode]; exact henabled

theorem update_spec {clock : Nat → Nat} {ps : List UDPMessage}
    (h : r.update clock sm = some (r', sm', ps)) : Updated r r' ps := by
  obtain ⟨-, hI⟩ := update_rule (I := fun _ r₁ _ qs => Updated r r₁ qs)
    (fun hI hlt h => hI.turn hlt h) (.refl r) h
  exact hI

/-- Without a packet so far `update` applies nothing. -/
theorem update_started {clock : Nat → Nat} {ps : List UDPMessage} {p : UDPMessage}
    (h : r.update clock sm = some (r', sm', ps)) (hp : p ∈ ps) : ¬ (r.wnum = 1 ∧ r.rnum = 0) := by
  intro hnone
  rw [update, if_pos hnone] at h
  cases h
  cases hp

end UNetReceiver

end Uniset.UNetUDP
