import Uniset.ModbusSlave.MBSlave

/-! Whether each sensor is found in the register, the bit or the words that it was configured with. -/

namespace Uniset.ModbusSlave

open Uniset.Lib Uniset.Modbus SlaveFunctionCode

variable {conf : MBSlave} {m m' : RegMap} {it : Item}

/-- The sensor that is bound to a bit. -/
def BitRegProperty.get (b : BitRegProperty) (nbit : Int) : Option IOProperty :=
  if h : 0 ≤ nbit ∧ nbit < 16 then b ⟨nbit.toNat, by omega⟩ else none

theorem BitRegProperty.get_set (b : BitRegProperty) (nbit k : Int) (p : IOProperty) :
    BitRegProperty.get (b.set nbit p) k =
      if k = nbit ∧ 0 ≤ k ∧ k < 16 then some p else BitRegProperty.get b k := by
  by_cases hk : 0 ≤ k ∧ k < 16
  · have hcast : ((k.toNat : Nat) : Int) = k := Int.toNat_of_nonneg hk.1
    rw [get, get, dif_pos hk, dif_pos hk, set, hcast]
    simp only [hk, and_true]
  · simp only [get, dif_neg hk, if_neg fun h : k = nbit ∧ 0 ≤ k ∧ k < 16 => hk h.2]

theorem BitRegProperty.check_of_get {b : BitRegProperty} {nbit : Int} {p : IOProperty}
    (h : BitRegProperty.get b nbit = some p) : b.check p.si = true := by
  unfold get at h
  split_ifs at h with hk
  refine List.any_eq_true.mpr ⟨⟨nbit.toNat, by omega⟩, List.mem_finRange _, ?_⟩
  rw [h]
  simp

/-- What a register has for a whole word, or for a bit. -/
def Register.held (r : Register) : Option Int → Option IOProperty
  | none => if r.bitreg.isNone then some r.prop else none
  | some nbit => r.bitreg.bind fun b => BitRegProperty.get b nbit

def RegMap.held (m : RegMap) (regID : Nat) (nbit : Option Int) : Option IOProperty :=
  (m.find regID).bind fun r => r.held nbit

theorem held_insert (m : RegMap) (r : Register) (regID : Nat) (nbit : Option Int) :
    RegMap.held (m.insert r) regID nbit =
      if r.regID = regID then r.held nbit else RegMap.held m regID nbit := by
  unfold RegMap.held
  rw [SortedMap.find_insert]
  split_ifs <;> rfl

/-- A register that is kept for a sensor: a word, or a bit of one. -/
structure Part where
  mbreg : ModbusData
  nbit : Option Int
  prop : IOProperty

namespace Item

def parts (it : Item) : List Part :=
  if it.nbit ≠ -1 then [⟨it.mbreg, some it.nbit, it.bit⟩]
  else (List.range it.wsize).map fun i => ⟨it.mbreg + UInt16.ofNat i, none, it.word i⟩

theorem parts_ne_nil (it : Item) : it.parts ≠ [] := by
  have hsize := VType.one_le_wsize (it.vtype.getD .vtUnknown)
  unfold parts wsize
  split_ifs
  · exact List.cons_ne_nil _ _
  · simp only [ne_eq, List.map_eq_nil_iff, List.range_eq_nil]
    omega

variable (conf) in
/-- The identifier of the register that is kept for a part of a sensor. -/
def partID (it : Item) (part : Part) : Nat := genRegID part.mbreg (it.mbfunc' conf)

end Item

/-- The sensors that a request with this function is for. -/
def MBSlave.selects (conf : MBSlave) (it : Item) (fn : ModbusByte) : Prop :=
  conf.checkMBFunc = true → conf.getOptimizeWriteFunction fn = it.mbfunc' conf

/-- The registers of a sensor are found by the requests that are for it. -/
def Reachable (conf : MBSlave) (m : RegMap) (it : Item) : Prop :=
  ∀ fn, conf.selects it fn → ∀ part ∈ it.parts,
    RegMap.held m (conf.requestID part.mbreg (conf.getOptimizeWriteFunction fn)) part.nbit =
      some part.prop

/-- Where a sensor is put nothing else has been, the first word of a value apart, for which this is
looked at. -/
def Free (conf : MBSlave) (it : Item) (m : RegMap) : Prop :=
  if it.nbit ≠ -1 then
    0 ≤ it.nbit ∧ RegMap.held m (genRegID it.mbreg (it.mbfunc' conf)) (some it.nbit) = none
  else
    ∀ i, 0 < i → i < it.wsize → ∀ nbit p,
      RegMap.held m (genRegID (it.mbreg + UInt16.ofNat i) (it.mbfunc' conf)) nbit = some p →
      nbit = none ∧ p = it.word i

variable (conf) in
/-- The sensors are put where nothing has been, one after the other. -/
def FreeFrom : RegMap → List Item → Prop
  | _, [] => True
  | m, it :: items => Free conf it m ∧ ∀ m', initItem conf it m = some m' → FreeFrom m' items

/-- Registers are looked up for the function that they are kept for. -/
def MBSlave.LooksUpKept (conf : MBSlave) : Prop :=
  conf.checkMBFunc = true ∨
    conf.getOptimizeWriteFunction conf.default_mbfunc = conf.default_mbfunc

/-! ## What one sensor changes -/

theorem wordID_inj {i j : Nat} (hi : i < it.wsize) (hj : j < it.wsize)
    (h : genRegID (it.mbreg + UInt16.ofNat i) (it.mbfunc' conf) =
      genRegID (it.mbreg + UInt16.ofNat j) (it.mbfunc' conf)) : i = j := by
  have hsize := VType.wsize_le (it.vtype.getD .vtUnknown)
  unfold Item.wsize at hi hj
  rcases genRegID_eq_iff.mp h with ⟨hreg, -⟩ | ⟨-, -, hfn⟩ | ⟨-, -, hfn⟩
  · have hnat := congrArg UInt16.toNat hreg
    simp only [UInt16.toNat_add, UInt16.toNat_ofNat'] at hnat
    omega
  · omega
  · omega

theorem held_addWords_of_ne (is : List Nat) {regID : Nat}
    (h : ∀ i ∈ is, genRegID (it.mbreg + UInt16.ofNat i) (it.mbfunc' conf) ≠ regID)
    (nbit : Option Int) :
    RegMap.held (addWords conf it is m) regID nbit = RegMap.held m regID nbit := by
  induction is generalizing m with
  | nil => rfl
  | cons i is ih =>
    obtain ⟨hi, his⟩ := List.forall_mem_cons.mp h
    rw [addWords, ih his, held_insert, Item.wordRegister_regID, if_neg hi]

theorem held_addWords {is : List Nat} (hsize : ∀ i ∈ is, i < it.wsize) (hnodup : is.Nodup) {i : Nat}
    (hi : i ∈ is) (nbit : Option Int) :
    RegMap.held (addWords conf it is m)
        (genRegID (it.mbreg + UInt16.ofNat i) (it.mbfunc' conf)) nbit =
      if nbit = none then some (it.word i) else none := by
  induction is generalizing m with
  | nil => cases hi
  | cons j is ih =>
    obtain ⟨hj, his⟩ := List.forall_mem_cons.mp hsize
    obtain ⟨hnot, hnodup⟩ := List.nodup_cons.mp hnodup
    rcases List.mem_cons.mp hi with rfl | hi
    · have hne : ∀ k ∈ is, genRegID (it.mbreg + UInt16.ofNat k) (it.mbfunc' conf) ≠
          genRegID (it.mbreg + UInt16.ofNat i) (it.mbfunc' conf) :=
        fun k hk heq => hnot (wordID_inj (his k hk) hj heq ▸ hk)
      rw [addWords, held_addWords_of_ne is hne, held_insert, Item.wordRegister_regID, if_pos rfl]
      cases nbit <;> rfl
    · exact ih his hnodup hi

theorem held_set (r : Register) (b : BitRegProperty) {nbit : Int} (hrange : ¬16 ≤ nbit)
    (p : IOProperty) (k : Option Int) :
    { r with bitreg := some (BitRegProperty.set b nbit p) : Register }.held k =
      if k = some nbit ∧ 0 ≤ nbit then some p
      else { r with bitreg := some b : Register }.held k := by
  cases k with
  | none => simp [Register.held]
  | some k =>
    simp only [Register.held, Option.bind_some, BitRegProperty.get_set, Option.some.injEq]
    refine ite_congr (propext ⟨fun ⟨hk, hlow, _⟩ => ⟨hk, hk ▸ hlow⟩, fun ⟨hk, hlow⟩ => ?_⟩)
      (fun _ => rfl) fun _ => rfl
    exact ⟨hk, hk ▸ hlow, by omega⟩

theorem initItem_word (hword : it.nbit = -1) (h : initItem conf it m = some m') :
    m.find (genRegID it.mbreg (it.mbfunc' conf)) = none ∧
      m' = addWords conf it (List.range it.wsize) m := by
  unfold initItem at h
  rw [if_neg (not_not_intro hword)] at h
  split_ifs at h with hadded
  exact ⟨Option.not_isSome_iff_eq_none.mp hadded, (Option.some.inj h).symm⟩

theorem initItem_bit (hbit : it.nbit ≠ -1) (h : initItem conf it m = some m') :
    (∀ regID nbit, RegMap.held m' regID nbit =
      if regID = genRegID it.mbreg (it.mbfunc' conf) ∧ nbit = some it.nbit ∧ 0 ≤ it.nbit then
        some it.bit
      else RegMap.held m regID nbit) ∧
    RegMap.held m (genRegID it.mbreg (it.mbfunc' conf)) none = none ∧
    ∀ nbit p, RegMap.held m (genRegID it.mbreg (it.mbfunc' conf)) (some nbit) = some p →
      p.si ≠ it.si := by
  unfold initItem at h
  rw [if_pos hbit] at h
  unfold initBit at h
  extract_lets regID at h
  split_ifs at h with hrange
  cases hfind : m.find regID with
  | none =>
    have hheld : ∀ nbit, RegMap.held m regID nbit = none := fun nbit => by
      rw [RegMap.held, hfind, Option.bind_none]
    rw [hfind] at h
    obtain rfl := Option.some.inj h
    refine ⟨fun k nbit => ?_, hheld none, fun nbit p hp => ?_⟩
    · rw [held_insert, held_set ⟨regID, { it.bit with mbreg := 0 }, none⟩ _ hrange]
      by_cases hk : regID = k
      · have hempty : ∀ nbit, Register.held ⟨regID, { it.bit with mbreg := 0 },
            some fun _ => none⟩ nbit = none := fun nbit => by
          cases nbit <;> simp [Register.held, BitRegProperty.get]
        rw [if_pos hk, hempty, ← hk, hheld]
        exact ite_congr (propext (and_iff_right rfl).symm) (fun _ => rfl) fun _ => rfl
      · rw [if_neg hk, if_neg fun h => hk h.1.symm]
    · rw [hheld] at hp
      cases hp
  | some r =>
    have hkey := (SortedMap.mem_of_find hfind).2
    rw [hfind] at h
    dsimp only at h
    cases hbits : r.bitreg with
    | none =>
      rw [hbits] at h
      cases h
    | some b =>
      rw [hbits] at h
      dsimp only at h
      split_ifs at h with hcheck
      obtain rfl := Option.some.inj h
      refine ⟨fun k nbit => ?_, ?_, fun nbit p hp => ?_⟩
      · have hsame : { r with bitreg := some b : Register } = r := by rw [← hbits]
        have hheld : RegMap.held m regID nbit = r.held nbit := by
          rw [RegMap.held, hfind, Option.bind_some]
        rw [held_insert, held_set r b hrange, hsame]
        by_cases hk : regID = k
        · rw [if_pos (hkey.trans hk), ← hk, hheld]
          exact ite_congr (propext (and_iff_right rfl).symm) (fun _ => rfl) fun _ => rfl
        · rw [if_neg fun h => hk (hkey.symm.trans h), if_neg fun h => hk h.1.symm]
      · rw [RegMap.held, hfind]
        simp [Register.held, hbits]
      · rw [RegMap.held, hfind] at hp
        simp only [Register.held, hbits, Option.bind_some] at hp
        exact fun hsi => hcheck (hsi ▸ BitRegProperty.check_of_get hp)

/-- A part of a sensor can no longer be found: what is kept in its place is something else. -/
def Lost (m : RegMap) (regID : Nat) (nbit : Option Int) (p : IOProperty) : Prop :=
  (∃ n, nbit = some n ∧ n < 0) ∨ (∃ q, RegMap.held m regID nbit = some q ∧ q ≠ p) ∨
    nbit ≠ none ∧ ∃ q, RegMap.held m regID none = some q

theorem Lost.held_ne {regID : Nat} {nbit : Option Int} {p : IOProperty} (h : Lost m regID nbit p) :
    RegMap.held m regID nbit ≠ some p := by
  rcases h with ⟨n, rfl, hn⟩ | ⟨q, hq, hne⟩ | ⟨hbit, q, hq⟩
  · unfold RegMap.held
    cases m.find regID with
    | none => simp
    | some r =>
      have hget : ∀ b, BitRegProperty.get b n = none := fun b => by
        rw [BitRegProperty.get, dif_neg (by omega)]
      simp [Register.held, hget]
  · rw [hq]
    exact fun heq => hne (Option.some.inj heq)
  · unfold RegMap.held at hq ⊢
    cases hfind : m.find regID with
    | none => simp [hfind] at hq
    | some r =>
      cases nbit with
      | none => exact absurd rfl hbit
      | some n =>
        cases hbits : r.bitreg with
        | none => simp [Register.held, hbits]
        | some b => simp [hfind, Register.held, hbits] at hq

theorem mem_parts_bit (hbit : it.nbit ≠ -1) (part : Part) :
    part ∈ it.parts ↔ part = ⟨it.mbreg, some it.nbit, it.bit⟩ := by
  rw [Item.parts, if_pos hbit, List.mem_singleton]

theorem mem_parts_word (hword : it.nbit = -1) (part : Part) :
    part ∈ it.parts ↔ ∃ i < it.wsize, ⟨it.mbreg + UInt16.ofNat i, none, it.word i⟩ = part := by
  rw [Item.parts, if_neg (not_not_intro hword)]
  simp

/-- What is kept after a sensor has been added was kept before, or is a part of the sensor. -/
theorem held_initItem (h : initItem conf it m = some m') {regID : Nat} {nbit : Option Int}
    {p : IOProperty} (hp : RegMap.held m' regID nbit = some p) :
    RegMap.held m regID nbit = some p ∨
      ∃ part ∈ it.parts, it.partID conf part = regID ∧ part.nbit = nbit ∧ part.prop = p := by
  by_cases hword : it.nbit = -1
  · obtain ⟨-, rfl⟩ := initItem_word hword h
    by_cases hkey : ∃ i < it.wsize, genRegID (it.mbreg + UInt16.ofNat i) (it.mbfunc' conf) = regID
    · obtain ⟨i, hi, rfl⟩ := hkey
      rw [held_addWords (fun i hi => List.mem_range.mp hi) List.nodup_range
        (List.mem_range.mpr hi)] at hp
      split_ifs at hp with hnone
      exact .inr ⟨_, (mem_parts_word hword _).mpr ⟨i, hi, rfl⟩, rfl, hnone.symm, Option.some.inj hp⟩
    · rw [held_addWords_of_ne _ fun i hi heq => hkey ⟨i, List.mem_range.mp hi, heq⟩] at hp
      exact .inl hp
  · obtain ⟨hheld, -, -⟩ := initItem_bit hword h
    rw [hheld] at hp
    split_ifs at hp with hplace
    · exact .inr ⟨_, (mem_parts_bit hword _).mpr rfl, hplace.1.symm, hplace.2.1.symm,
        Option.some.inj hp⟩
    · exact .inl hp

/-- What is kept stays kept when a sensor is put where nothing has been. -/
theorem Free.held_mono (hfree : Free conf it m) (h : initItem conf it m = some m') {regID : Nat}
    {nbit : Option Int} {p : IOProperty} (hp : RegMap.held m regID nbit = some p) :
    RegMap.held m' regID nbit = some p := by
  unfold Free at hfree
  by_cases hword : it.nbit = -1
  · rw [if_neg (not_not_intro hword)] at hfree
    obtain ⟨hfirst, rfl⟩ := initItem_word hword h
    by_cases hkey : ∃ i < it.wsize, genRegID (it.mbreg + UInt16.ofNat i) (it.mbfunc' conf) = regID
    · obtain ⟨i, hi, rfl⟩ := hkey
      rcases Nat.eq_zero_or_pos i with rfl | hpos
      · rw [RegMap.held, show it.mbreg + UInt16.ofNat 0 = it.mbreg from UInt16.add_zero _, hfirst]
          at hp
        cases hp
      · obtain ⟨rfl, rfl⟩ := hfree i hpos hi nbit p hp
        rw [held_addWords (fun i hi => List.mem_range.mp hi) List.nodup_range
          (List.mem_range.mpr hi), if_pos rfl]
    · rwa [held_addWords_of_ne _ fun i hi heq => hkey ⟨i, List.mem_range.mp hi, heq⟩]
  · rw [if_pos hword] at hfree
    obtain ⟨hheld, -, -⟩ := initItem_bit hword h
    rw [hheld, if_neg, hp]
    rintro ⟨rfl, rfl, -⟩
    rw [hfree.2] at hp
    cases hp

theorem Free.lost_mono (hfree : Free conf it m) (h : initItem conf it m = some m') {regID : Nat}
    {nbit : Option Int} {p : IOProperty} (hlost : Lost m regID nbit p) : Lost m' regID nbit p :=
  hlost.imp_right (.imp (fun ⟨q, hq, hne⟩ => ⟨q, hfree.held_mono h hq, hne⟩)
    fun ⟨hbit, q, hq⟩ => ⟨hbit, q, hfree.held_mono h hq⟩)

theorem Free.held_parts (hfree : Free conf it m) (h : initItem conf it m = some m') :
    ∀ part ∈ it.parts, RegMap.held m' (it.partID conf part) part.nbit = some part.prop := by
  intro part hpart
  unfold Free at hfree
  by_cases hword : it.nbit = -1
  · obtain ⟨-, rfl⟩ := initItem_word hword h
    obtain ⟨i, hi, rfl⟩ := (mem_parts_word hword part).mp hpart
    exact held_addWords (fun i hi => List.mem_range.mp hi) List.nodup_range
      (List.mem_range.mpr hi) none
  · rw [if_pos hword] at hfree
    obtain ⟨hheld, -, -⟩ := initItem_bit hword h
    rw [(mem_parts_bit hword part).mp hpart, hheld, if_pos ⟨rfl, rfl, hfree.1⟩]

/-- Otherwise a part of a sensor is lost: one of this sensor, or one that has been kept so far. -/
theorem lost_of_not_free (hfree : ¬Free conf it m) (h : initItem conf it m = some m') :
    (∃ part ∈ it.parts, Lost m' (it.partID conf part) part.nbit part.prop) ∨
      ∃ regID nbit p, RegMap.held m regID nbit = some p ∧ Lost m' regID nbit p := by
  unfold Free at hfree
  by_cases hword : it.nbit = -1
  · rw [if_neg (not_not_intro hword)] at hfree
    push Not at hfree
    obtain ⟨i, -, hi, nbit, p, hp, hother⟩ := hfree
    obtain ⟨-, rfl⟩ := initItem_word hword h
    have hheld := fun nbit => @held_addWords conf m it _
      (fun i hi => List.mem_range.mp hi) List.nodup_range _ (List.mem_range.mpr hi) nbit
    refine .inr ⟨_, nbit, p, hp, .inr ?_⟩
    by_cases hnone : nbit = none
    · exact .inl ⟨it.word i, by rw [hheld, if_pos hnone], fun heq => hother hnone heq.symm⟩
    · exact .inr ⟨hnone, it.word i, by rw [hheld, if_pos rfl]⟩
  · rw [if_pos hword] at hfree
    by_cases hlow : 0 ≤ it.nbit
    · obtain ⟨p, hp⟩ := Option.ne_none_iff_exists'.mp fun hnone => hfree ⟨hlow, hnone⟩
      obtain ⟨hheld, -, hother⟩ := initItem_bit hword h
      refine .inr ⟨_, _, p, hp, .inr (.inl ⟨it.bit, by rw [hheld, if_pos ⟨rfl, rfl, hlow⟩], ?_⟩)⟩
      rintro rfl
      exact hother _ _ hp rfl
    · exact .inl ⟨_, (mem_parts_bit hword _).mpr rfl, .inl ⟨it.nbit, rfl, by omega⟩⟩

/-! ## All the sensors -/

/-- What is kept is part of a sensor. -/
def Owned (conf : MBSlave) (items : List Item) (m : RegMap) : Prop :=
  ∀ regID nbit p, RegMap.held m regID nbit = some p →
    ∃ it ∈ items, ∃ part ∈ it.parts, it.partID conf part = regID ∧ part.nbit = nbit ∧ part.prop = p

def AllHeld (conf : MBSlave) (items : List Item) (m : RegMap) : Prop :=
  ∀ it ∈ items, ∀ part ∈ it.parts, RegMap.held m (it.partID conf part) part.nbit = some part.prop

def SomeLost (conf : MBSlave) (items : List Item) (m : RegMap) : Prop :=
  ∃ it ∈ items, ∃ part ∈ it.parts, Lost m (it.partID conf part) part.nbit part.prop

theorem SomeLost.not_allHeld {items : List Item} (h : SomeLost conf items m) :
    ¬AllHeld conf items m :=
  fun hall => by
    obtain ⟨it, hit, part, hpart, hlost⟩ := h
    exact hlost.held_ne (hall it hit part hpart)

theorem owned_empty : Owned conf [] .empty := by
  intro regID nbit p hp
  simp [RegMap.held, SortedMap.empty, SortedMap.find] at hp

theorem owned_initItem {items : List Item} (howned : Owned conf items m)
    (h : initItem conf it m = some m') : Owned conf (items ++ [it]) m' := by
  intro regID nbit p hp
  rcases held_initItem h hp with hp | ⟨part, hpart, hplace⟩
  · obtain ⟨it', hit', hpart⟩ := howned regID nbit p hp
    exact ⟨it', List.mem_append_left _ hit', hpart⟩
  · exact ⟨it, List.mem_append_right _ List.mem_cons_self, part, hpart, hplace⟩

theorem allHeld_initItem {items : List Item} (hall : AllHeld conf items m) (hfree : Free conf it m)
    (h : initItem conf it m = some m') : AllHeld conf (items ++ [it]) m' := by
  intro it' hit' part hpart
  rcases List.mem_append.mp hit' with hit' | hit'
  · exact hfree.held_mono h (hall it' hit' part hpart)
  · obtain rfl := List.mem_singleton.mp hit'
    exact hfree.held_parts h part hpart

theorem someLost_initItem {items : List Item} (howned : Owned conf items m)
    (hlost : SomeLost conf items m ∨ ¬Free conf it m) (h : initItem conf it m = some m') :
    SomeLost conf (items ++ [it]) m' := by
  by_cases hfree : Free conf it m
  · obtain ⟨it', hit', part, hpart, hlost⟩ := hlost.resolve_right (not_not_intro hfree)
    exact ⟨it', List.mem_append_left _ hit', part, hpart, hfree.lost_mono h hlost⟩
  · rcases lost_of_not_free hfree h with ⟨part, hpart, hlost⟩ | ⟨regID, nbit, p, hp, hlost⟩
    · exact ⟨it, List.mem_append_right _ List.mem_cons_self, part, hpart, hlost⟩
    · obtain ⟨it', hit', part, hpart, rfl, rfl, rfl⟩ := howned regID nbit p hp
      exact ⟨it', List.mem_append_left _ hit', part, hpart, hlost⟩

/-- Sensors that are put one by one where nothing has been are all kept; otherwise one is lost, for
good. -/
theorem initItems_run {done items : List Item} (howned : Owned conf done m)
    (h : items.foldlM (fun m it => initItem conf it m) m = some m') :
    Owned conf (done ++ items) m' ∧
      (AllHeld conf done m → FreeFrom conf m items → AllHeld conf (done ++ items) m') ∧
      (SomeLost conf done m ∨ ¬FreeFrom conf m items → SomeLost conf (done ++ items) m') := by
  induction items generalizing done m with
  | nil =>
    obtain rfl := Option.some.inj h
    rw [List.append_nil]
    exact ⟨howned, fun hall _ => hall, fun hlost => hlost.resolve_right (not_not_intro trivial)⟩
  | cons it items ih =>
    obtain ⟨m₁, hitem, hitems⟩ := Option.bind_eq_some_iff.mp h
    obtain ⟨howned', hall', hlost'⟩ := ih (owned_initItem howned hitem) hitems
    rw [List.append_assoc, List.singleton_append] at howned' hall' hlost'
    refine ⟨howned', fun hall hfree => ?_, fun hlost => ?_⟩
    · exact hall' (allHeld_initItem hall hfree.1 hitem) (hfree.2 m₁ hitem)
    · by_cases hfree : FreeFrom conf m₁ items
      · refine hlost' (.inl (someLost_initItem howned (hlost.imp_right fun hnot hitfree => ?_) hitem))
        refine hnot ⟨hitfree, fun m₂ hm₂ => ?_⟩
        obtain rfl := Option.some.inj (hitem.symm.trans hm₂)
        exact hfree
      · exact hlost' (.inr hfree)

theorem allHeld_initItems_iff {items : List Item} (h : initItems conf items = some m) :
    AllHeld conf items m ↔ FreeFrom conf .empty items := by
  obtain ⟨-, hall, hlost⟩ := initItems_run owned_empty h
  refine ⟨fun hheld => ?_, hall fun it hit => absurd hit List.not_mem_nil⟩
  by_contra hfree
  exact (hlost (.inr hfree)).not_allHeld hheld

theorem getOptimizeWriteFunction_idem (conf : MBSlave) (fn : ModbusByte) :
    conf.getOptimizeWriteFunction (conf.getOptimizeWriteFunction fn) =
      conf.getOptimizeWriteFunction fn := by
  unfold MBSlave.getOptimizeWriteFunction
  split_ifs <;> first | rfl | contradiction

/-- A function that is replaced is far from the one that it is replaced by. -/
theorem genRegID_ne_optimized {fn : ModbusByte} (h : conf.getOptimizeWriteFunction fn ≠ fn)
    (r r' : ModbusData) : genRegID r (conf.getOptimizeWriteFunction fn) ≠ genRegID r' fn := by
  unfold MBSlave.getOptimizeWriteFunction at h ⊢
  intro hsame
  split_ifs at h hsame with hopt hsingle hcoil
  · exact h rfl
  · subst hsingle
    rcases genRegID_eq_iff.mp hsame with ⟨-, hfn⟩ | ⟨-, -, hfn⟩ | ⟨-, -, hfn⟩
    all_goals revert hfn; decide
  · subst hcoil
    rcases genRegID_eq_iff.mp hsame with ⟨-, hfn⟩ | ⟨-, -, hfn⟩ | ⟨-, -, hfn⟩
    all_goals revert hfn; decide
  · exact h rfl

/-- There is a request for each sensor. -/
theorem exists_selects (conf : MBSlave) (it : Item) : ∃ fn, conf.selects it fn :=
  ⟨it.mbfunc' conf, fun _ => getOptimizeWriteFunction_idem conf _⟩

theorem requestID_eq_partID (hkept : conf.LooksUpKept) {fn : ModbusByte} (hfn : conf.selects it fn)
    (part : Part) :
    conf.requestID part.mbreg (conf.getOptimizeWriteFunction fn) = it.partID conf part := by
  unfold MBSlave.requestID Item.partID
  by_cases hcheck : conf.checkMBFunc = true
  · rw [if_pos hcheck, hfn hcheck]
  · rw [if_neg hcheck, Item.mbfunc', if_neg hcheck, hkept.resolve_left hcheck]

theorem not_held_requestID {items : List Item} (howned : Owned conf items m)
    (hkept : ¬conf.LooksUpKept) (mbreg : ModbusData) (fn : ModbusByte) (nbit : Option Int)
    (p : IOProperty) : RegMap.held m (conf.requestID mbreg fn) nbit ≠ some p := by
  obtain ⟨hcheck, hopt⟩ := not_or.mp hkept
  intro hp
  obtain ⟨it, -, part, -, hkey, -⟩ := howned _ _ _ hp
  unfold MBSlave.requestID Item.partID Item.mbfunc' at hkey
  rw [if_neg hcheck, if_neg hcheck] at hkey
  exact genRegID_ne_optimized hopt _ _ hkey

/-- Every sensor that is accepted can be reached by the requests that are for it if and only if each
was put where nothing had been, and registers are looked up for the function they are kept for. -/
theorem reachable_iff {items : List Item} (h : initItems conf items = some m) :
    (∀ it ∈ items, Reachable conf m it) ↔
      (items ≠ [] → conf.LooksUpKept) ∧ FreeFrom conf .empty items := by
  have howned : Owned conf items m := (initItems_run owned_empty h).1
  constructor
  · intro hreach
    have hkept : items ≠ [] → conf.LooksUpKept := by
      intro hne
      obtain ⟨it, hit⟩ := List.exists_mem_of_ne_nil items hne
      obtain ⟨fn, hfn⟩ := exists_selects conf it
      obtain ⟨part, hpart⟩ := List.exists_mem_of_ne_nil _ it.parts_ne_nil
      by_contra hkept
      exact not_held_requestID howned hkept _ _ _ _ (hreach it hit fn hfn part hpart)
    refine ⟨hkept, (allHeld_initItems_iff h).mp fun it hit part hpart => ?_⟩
    obtain ⟨fn, hfn⟩ := exists_selects conf it
    rw [← requestID_eq_partID (hkept (List.ne_nil_of_mem hit)) hfn part]
    exact hreach it hit fn hfn part hpart
  · intro ⟨hkept, hfree⟩ it hit fn hfn part hpart
    rw [requestID_eq_partID (hkept (List.ne_nil_of_mem hit)) hfn part]
    exact (allHeld_initItems_iff h).mpr hfree it hit part hpart

/-- A sensor for one bit of a register. -/
def bitItem (id : ObjectId) (mbreg : ModbusData) (nbit : Int) : Item :=
  ⟨⟨id, 0⟩, .DI, mbreg, none, .amRW, nbit, none, 0⟩

theorem reachable_two :
    ∃ m, initItems ⟨false, false, 0⟩ [bitItem 10 5 0, bitItem 11 5 1] = some m ∧
      ((∀ it ∈ [bitItem 10 5 0, bitItem 11 5 1], Reachable ⟨false, false, 0⟩ m it) ↔
        ([bitItem 10 5 0, bitItem 11 5 1] ≠ [] → MBSlave.LooksUpKept ⟨false, false, 0⟩) ∧
          FreeFrom ⟨false, false, 0⟩ .empty [bitItem 10 5 0, bitItem 11 5 1]) :=
  ⟨_, rfl, @reachable_iff ⟨false, false, 0⟩ _ [bitItem 10 5 0, bitItem 11 5 1] rfl⟩

/-- A bit is given to a second sensor, and the first one is lost. -/
theorem not_reachable_first :
    ∃ m, initItems ⟨false, false, 0⟩ [bitItem 10 5 0, bitItem 11 5 0] = some m ∧
      ¬∀ it ∈ [bitItem 10 5 0, bitItem 11 5 0], Reachable ⟨false, false, 0⟩ m it := by
  refine ⟨_, rfl, fun h => ?_⟩
  have hfirst := h (bitItem 10 5 0) List.mem_cons_self 3
    (fun hcheck => absurd hcheck (by decide)) ⟨5, some 0, (bitItem 10 5 0).bit⟩ List.mem_cons_self
  revert hfirst
  decide

end Uniset.ModbusSlave
