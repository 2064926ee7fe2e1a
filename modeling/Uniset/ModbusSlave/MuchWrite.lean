import Mathlib.Data.List.TakeWhile
import Uniset.ModbusSlave.RegisterMap

/-! Several registers are written by one request. -/

namespace Uniset.ModbusSlave

open Uniset.Lib Uniset.Modbus Uniset.Processes SlaveFunctionCode

/-- What a sensor is given to process: the last two are the bits of a float and of a double. -/
inductive Value
  | processingAsDI (set : Bool)
  | processingAsAI (val : Int)
  | processingFasAI (fval : UInt32)
  | processingDasAI (fval : UInt64)
  deriving DecidableEq

/-- A sensor, or the one bound to a bit of a register, is given a value from a place in the request. -/
structure Write where
  place : Nat
  nbit : Option (Fin 16)
  prop : IOProperty
  value : Value
  deriving DecidableEq

def dword (lo hi : ModbusData) : UInt32 := lo.toUInt32 ||| hi.toUInt32 <<< 16

/-- The value in the words of a sensor. -/
def valueOf (p : IOProperty) (raw : List ModbusData) : Value :=
  let v := fun i => raw.getD i 0
  match p.vtype with
  | .vtUnknown =>
    if p.stype = .DI ∨ p.stype = .DO then .processingAsDI (v 0 ≠ 0)
    else .processingAsAI (v 0).toInt16.toInt
  | .vtUnsigned => .processingAsAI (v 0).toNat
  | .vtSigned => .processingAsAI (v 0).toInt16.toInt
  | .vtI2 => .processingAsAI (dword (v 0) (v 1)).toInt32.toInt
  | .vtI2r => .processingAsAI (dword (v 1) (v 0)).toInt32.toInt
  | .vtU2 => .processingAsAI (dword (v 0) (v 1)).toNat
  | .vtU2r => .processingAsAI (dword (v 1) (v 0)).toNat
  | .vtF2 => .processingFasAI (dword (v 0) (v 1))
  | .vtF2r => .processingFasAI (dword (v 1) (v 0))
  | .vtF4 =>
    .processingDasAI ((dword (v 0) (v 1)).toUInt64 ||| (dword (v 2) (v 3)).toUInt64 <<< 32)
  | .vtByte => .processingAsAI (if p.nbyte = 1 then (v 0).toNat % 256 else (v 0).toNat / 256)

variable (dat : List ModbusData)

/-- Words of the request; `none` if there are not so many. -/
def readWords (i n : Nat) : Option (List ModbusData) :=
  if i + n ≤ dat.length then some ((dat.drop i).take n) else none

/-- The value that a sensor is given, if any, and the place after it for a value of several words.  The
place of any other value does not change. -/
def real_write_prop (p : IOProperty) (i count : Nat) : Option (List Value × Nat) := do
  let mbval ← readWords dat i 1
  if p.amode = .amRO then return ([], i)
  else if p.vtype.wsize = 1 then return ([valueOf p mbval], i)
  else if count < i + p.vtype.wsize then return ([], i + p.vtype.wsize)
  else
    let d ← readWords dat i p.vtype.wsize
    return ([valueOf p d], i + p.vtype.wsize)

def bitOf (val : ModbusData) (n : Fin 16) : ModbusData := if val.toNat.testBit n then 1 else 0

/-- The sensors of a register's bits are given them. -/
def real_bitreg_write_it (b : BitRegProperty) (i : Nat) (val : ModbusData) : Option (List Write) :=
  (List.finRange 16).foldlM (fun ws n =>
    match b n with
    | none => some ws
    | some p =>
      (real_write_prop [bitOf val n] p 0 1).map fun r => ws ++ r.1.map (⟨i, some n, p, ·⟩)) []

def real_write_it (r : Register) (i count : Nat) : Option (List Write × Nat) :=
  match r.bitreg with
  | some b => do
    let val ← readWords dat i 1
    let ws ← real_bitreg_write_it b i (val.headD 0)
    return (ws, i)
  | none => (real_write_prop dat r.prop i count).map fun res =>
      (res.1.map (⟨i, none, r.prop, ·⟩), res.2)

/-- The loop over the registers of a map and the words of a request.  It must not go beyond the end of
the map: `none` if it does. -/
def writeLoop (count : Nat) : Nat → List Register → Nat → Nat → Option (List Write)
  | 0, _, _, _ => some []
  | _ + 1, [], _, _ => some []
  | fuel + 1, r :: rest, regID, i =>
    if count ≤ i then some []
    else if r.regID = regID then do
      let (ws, next) ← real_write_it dat r i count
      let sub := if next - i = 0 then 1 else next - i
      if (r :: rest).length < sub then none
      else
        let more ← writeLoop count fuel ((r :: rest).drop sub) (regID + sub) (i + sub)
        return ws ++ more
    else writeLoop count fuel (r :: rest) (regID + 1) (i + 1)

variable (conf : MBSlave)

def much_write (m : RegMap) (reg : ModbusData) (fn : ModbusByte) :
    Option (mbErrCode × List Write) :=
  let regID := conf.requestID reg fn
  match (List.range dat.length).find? fun i => (m.find (regID + i)).isSome with
  | none => some (erBadDataAddress, [])
  | some i =>
    let it := m.entries.dropWhile fun r => r.regID < regID + i
    (writeLoop dat dat.length dat.length it (regID + i) i).map fun ws => (erNoError, ws)

def writeOutputRegisters (m : RegMap) (start : ModbusData) : Option (mbErrCode × List Write) :=
  much_write dat conf m start (conf.getOptimizeWriteFunction fnWriteOutputRegisters.code)

/-! ## The writes of one register -/

theorem readWords_of_le {i n : Nat} (h : i + n ≤ dat.length) :
    readWords dat i n = some ((dat.drop i).take n) := if_pos h

theorem real_write_prop_eq {p : IOProperty} {i count : Nat} (hi : i < count)
    (hcount : count = dat.length) :
    real_write_prop dat p i count =
      if p.amode = .amRO then some ([], i)
      else if p.vtype.wsize = 1 then some ([valueOf p ((dat.drop i).take p.vtype.wsize)], i)
      else if i + p.vtype.wsize ≤ count then
        some ([valueOf p ((dat.drop i).take p.vtype.wsize)], i + p.vtype.wsize)
      else some ([], i + p.vtype.wsize) := by
  unfold real_write_prop
  rw [readWords_of_le dat (hcount ▸ hi)]
  by_cases hmode : p.amode = .amRO
  · simp [hmode]
  · by_cases hone : p.vtype.wsize = 1
    · simp [hmode, hone]
    · by_cases hfits : i + p.vtype.wsize ≤ count
      · simp [hmode, hone, hfits, Nat.not_lt_of_le hfits, readWords_of_le dat (hcount ▸ hfits)]
      · simp [hmode, hone, hfits, Nat.lt_of_not_le hfits]

/-- The writes of the bits of a register that are for a sensor. -/
def bitWrites (b : BitRegProperty) (i : Nat) (val : ModbusData) (sel : IOProperty → Prop)
    [DecidablePred sel] : List Write :=
  (List.finRange 16).flatMap fun n =>
    match b n with
    | none => []
    | some p => if sel p then [⟨i, some n, p, valueOf p [bitOf val n]⟩] else []

/-- A sensor that can be written by one word. -/
def WritesOne (p : IOProperty) : Prop := p.amode ≠ .amRO ∧ p.vtype.wsize = 1

instance : DecidablePred WritesOne := fun p =>
  inferInstanceAs (Decidable (p.amode ≠ .amRO ∧ p.vtype.wsize = 1))

theorem real_bitreg_write_it_eq (b : BitRegProperty) (i : Nat) (val : ModbusData) :
    real_bitreg_write_it b i val = some (bitWrites b i val WritesOne) := by
  have hfold : ∀ (ns : List (Fin 16)) (ws : List Write),
      ns.foldlM (fun ws n =>
        match b n with
        | none => some ws
        | some p => (real_write_prop [bitOf val n] p 0 1).map fun r =>
            ws ++ r.1.map (⟨i, some n, p, ·⟩)) ws =
      some (ws ++ ns.flatMap fun n =>
        match b n with
        | none => []
        | some p => if WritesOne p then [⟨i, some n, p, valueOf p [bitOf val n]⟩] else []) := by
    intro ns
    induction ns with
    | nil =>
      intro ws
      simp
    | cons n ns ih =>
      intro ws
      rw [List.foldlM_cons, List.flatMap_cons]
      cases hbit : b n with
      | none => exact ih ws
      | some p =>
        have hsize := VType.one_le_wsize p.vtype
        have hwrite : real_write_prop [bitOf val n] p 0 1 = some
            (if WritesOne p then [valueOf p [bitOf val n]] else [],
              if p.amode = .amRO ∨ p.vtype.wsize = 1 then 0 else p.vtype.wsize) := by
          rw [real_write_prop_eq _ Nat.zero_lt_one rfl]
          by_cases hmode : p.amode = .amRO
          · simp [hmode, WritesOne]
          · by_cases hone : p.vtype.wsize = 1
            · simp [hmode, hone, WritesOne]
            · have hlong : 1 < p.vtype.wsize := by omega
              simp [hmode, hone, WritesOne, hlong]
        simp only [hwrite, Option.map_some, Option.bind_eq_bind, Option.bind_some]
        rw [ih, List.append_assoc]
        by_cases hone : WritesOne p
        · simp [hone]
        · simp [hone]
  exact hfold (List.finRange 16) []

/-- Where the next register is after a register at `i`, and how far that is. -/
def Register.step (r : Register) : Nat :=
  if r.bitreg.isSome ∨ r.prop.amode = .amRO then 1 else r.prop.vtype.wsize

theorem Register.one_le_step (r : Register) : 1 ≤ r.step := by
  unfold step
  split_ifs
  · exact Nat.le_refl 1
  · exact VType.one_le_wsize _

/-- What is written for a register at `i`. -/
def writesOf (count i : Nat) (r : Register) : List Write :=
  match r.bitreg with
  | some b => bitWrites b i (dat.getD i 0) WritesOne
  | none =>
    if r.prop.amode ≠ .amRO ∧ (r.prop.vtype.wsize = 1 ∨ i + r.prop.vtype.wsize ≤ count) then
      [⟨i, none, r.prop, valueOf r.prop ((dat.drop i).take r.prop.vtype.wsize)⟩]
    else []

theorem real_write_it_eq {r : Register} {i count : Nat} (hi : i < count)
    (hcount : count = dat.length) :
    ∃ next, real_write_it dat r i count = some (writesOf dat count i r, next) ∧
      (if next - i = 0 then 1 else next - i) = r.step := by
  unfold real_write_it writesOf Register.step
  cases hbits : r.bitreg with
  | some b =>
    have hhead : ((dat.drop i).take 1).headD 0 = dat.getD i 0 := by
      simp [List.getD_eq_getElem?_getD, List.headD_eq_head?_getD, List.head?_take]
    have hread : readWords dat i 1 = some ((dat.drop i).take 1) :=
      readWords_of_le dat (hcount ▸ hi)
    refine ⟨i, ?_, by simp⟩
    simp only [hread, Option.bind_eq_bind, Option.bind_some, hhead, real_bitreg_write_it_eq]
    rfl
  | none =>
    have hsize := VType.one_le_wsize r.prop.vtype
    simp only [real_write_prop_eq dat hi hcount]
    by_cases hmode : r.prop.amode = .amRO
    · exact ⟨i, by simp [hmode], by simp [hmode]⟩
    · by_cases hone : r.prop.vtype.wsize = 1
      · exact ⟨i, by simp [hmode, hone], by simp [hmode, hone]⟩
      · by_cases hfits : i + r.prop.vtype.wsize ≤ count
        · refine ⟨i + r.prop.vtype.wsize, by simp [hmode, hone, hfits], ?_⟩
          simp [hmode, Nat.ne_of_gt hsize]
        · refine ⟨i + r.prop.vtype.wsize, by simp [hmode, hone, hfits], ?_⟩
          simp [hmode, Nat.ne_of_gt hsize]

/-! ## The registers of a range -/

/-- The loop as a walk over the registers, of which some are passed over. -/
def walk (base : Nat) : Nat → List Register → Option (List Write)
  | 0, [] => some []
  | _ + 1, [] => none
  | skip + 1, _ :: l => walk base skip l
  | 0, r :: l =>
    if base + dat.length ≤ r.regID then some []
    else (walk base (r.step - 1) l).map (writesOf dat dat.length (r.regID - base) r ++ ·)

theorem walk_skip (base skip : Nat) (l : List Register) :
    walk dat base skip l = if l.length < skip then none else walk dat base 0 (l.drop skip) := by
  induction l generalizing skip with
  | nil => cases skip <;> simp [walk]
  | cons r l ih =>
    cases skip with
    | zero => simp
    | succ skip => simp [walk, ih]

theorem le_regID_of_mem_drop {r r' : Register} {l : List Register} (k : Nat)
    (hsorted : (r :: l).Pairwise fun a b => a.regID < b.regID) (h : r' ∈ (r :: l).drop k) :
    r.regID + k ≤ r'.regID := by
  induction l generalizing r k with
  | nil =>
    cases k with
    | zero => simp_all
    | succ k => simp at h
  | cons a l ih =>
    obtain ⟨hfirst, hrest⟩ := List.pairwise_cons.mp hsorted
    cases k with
    | zero =>
      rcases List.mem_cons.mp h with rfl | h
      · exact Nat.le_refl _
      · exact Nat.le_of_lt (hfirst r' h)
    | succ k =>
      have hnext := ih k hrest h
      have hlt := hfirst a List.mem_cons_self
      omega

theorem writeLoop_eq_walk (base fuel : Nat) {l : List Register} {i : Nat}
    (hfuel : dat.length ≤ i + fuel) (hsorted : l.Pairwise fun a b => a.regID < b.regID)
    (hl : ∀ r ∈ l, base + i ≤ r.regID) :
    writeLoop dat dat.length fuel l (base + i) i = walk dat base 0 l := by
  induction fuel generalizing l i with
  | zero =>
    cases l with
    | nil => rfl
    | cons r l =>
      have hr := hl r List.mem_cons_self
      rw [writeLoop, walk, if_pos (by omega)]
  | succ fuel ih =>
    cases l with
    | nil => rfl
    | cons r l =>
      have hr := hl r List.mem_cons_self
      rw [writeLoop, walk]
      by_cases hend : dat.length ≤ i
      · rw [if_pos hend, if_pos (by omega)]
      · rw [if_neg hend]
        by_cases hhere : r.regID = base + i
        · obtain ⟨next, hwrite, hstep⟩ := real_write_it_eq dat (r := r) (Nat.lt_of_not_le hend) rfl
          have hone := r.one_le_step
          have hdrop : (r :: l).drop r.step = l.drop (r.step - 1) := by
            obtain ⟨k, hk⟩ := Nat.exists_eq_add_of_le' hone
            rw [hk]
            rfl
          have hplace : r.regID - base = i := by omega
          have hnext := ih (l := (r :: l).drop r.step) (i := i + r.step) (by omega)
            (hsorted.sublist (List.drop_sublist _ _)) fun r' hr' => by
              have hle := le_regID_of_mem_drop _ hsorted hr'
              omega
          rw [if_pos hhere, if_neg (by omega), hwrite, walk_skip, hplace]
          dsimp only [Option.bind_eq_bind, Option.bind_some]
          rw [hstep, Nat.add_assoc, hnext, hdrop, List.length_cons]
          by_cases hlong : l.length < r.step - 1
          · rw [if_pos hlong, if_pos (by omega)]
            rfl
          · rw [if_neg hlong, if_neg (by omega)]
            cases walk dat base 0 (l.drop (r.step - 1)) <;> rfl
        · have hnext := ih (l := r :: l) (i := i + 1) (by omega) hsorted fun r' hr' => by
            have hle := le_regID_of_mem_drop 0 hsorted hr'
            omega
          rw [if_neg hhere, Nat.add_assoc, hnext, walk]

variable {conf} {m : RegMap} {reg : ModbusData} {fn : ModbusByte}

theorem dropWhile_eq_dropWhile {l : List Register} {a b : Nat}
    (hnone : ∀ r ∈ l, a ≤ r.regID → b ≤ r.regID) (hab : a ≤ b) :
    (l.dropWhile fun r => r.regID < b) = l.dropWhile fun r => r.regID < a := by
  induction l with
  | nil => rfl
  | cons r l ih =>
    by_cases hr : r.regID < a
    · rw [List.dropWhile_cons_of_pos (by simpa using Nat.lt_of_lt_of_le hr hab),
        List.dropWhile_cons_of_pos (by simpa using hr)]
      exact ih fun r hr => hnone r (List.mem_cons_of_mem _ hr)
    · have hle := hnone r List.mem_cons_self (Nat.le_of_not_lt hr)
      rw [List.dropWhile_cons_of_neg (by simpa using hle),
        List.dropWhile_cons_of_neg (by simpa using hr)]

theorem le_of_mem_dropWhile {l : List Register} (hsorted : l.Pairwise fun a b => a.regID < b.regID)
    {a : Nat} {r : Register} (hr : r ∈ l.dropWhile fun r => r.regID < a) : a ≤ r.regID := by
  induction l with
  | nil => cases hr
  | cons b l ih =>
    obtain ⟨hfirst, hrest⟩ := List.pairwise_cons.mp hsorted
    by_cases hb : b.regID < a
    · rw [List.dropWhile_cons_of_pos (by simpa using hb)] at hr
      exact ih hrest hr
    · rw [List.dropWhile_cons_of_neg (by simpa using hb)] at hr
      have hle := le_regID_of_mem_drop 0 hsorted hr
      omega

/-- What is written is what the walk over the registers from the first of the request writes. -/
theorem much_write_eq :
    (much_write dat conf m reg fn).map Prod.snd =
      walk dat (conf.requestID reg fn) 0
        (m.entries.dropWhile fun r => r.regID < conf.requestID reg fn) := by
  have hfound : ∀ r ∈ m.entries, (m.find r.regID).isSome := fun r hr => by
    rw [SortedMap.find_key hr]
    rfl
  unfold much_write
  extract_lets regID
  cases hfirst : (List.range dat.length).find? fun i => (m.find (regID + i)).isSome with
  | none =>
    have hnone := List.find?_eq_none.mp hfirst
    cases hl : m.entries.dropWhile fun r => r.regID < regID with
    | nil => rfl
    | cons r l =>
      have hr : r ∈ m.entries.dropWhile fun r => r.regID < regID := hl ▸ List.mem_cons_self
      have hle := le_of_mem_dropWhile m.sorted hr
      have hmem := hfound r ((List.dropWhile_sublist _).mem hr)
      have hfar : regID + dat.length ≤ r.regID := by
        by_contra hnear
        refine hnone (r.regID - regID) (List.mem_range.mpr (by omega)) ?_
        rwa [Nat.add_sub_of_le hle]
      rw [walk, if_pos hfar]
      rfl
  | some i =>
    have hbefore : ∀ r ∈ m.entries, regID ≤ r.regID → regID + i ≤ r.regID := by
      intro r hr hle
      by_contra hlt
      have hnot := (List.find?_eq_some_iff_getElem.mp hfirst).2
      obtain ⟨j, hj, hjth, hnot⟩ := hnot
      rw [List.getElem_range] at hjth
      have hprev := hnot (r.regID - regID) (by omega)
      rw [List.getElem_range, Nat.add_sub_of_le hle, hfound r hr] at hprev
      cases hprev
    have hloop := writeLoop_eq_walk dat regID dat.length (i := i)
      (l := m.entries.dropWhile fun r => r.regID < regID + i) (by omega)
      (m.sorted.sublist (List.dropWhile_sublist _)) fun r hr => le_of_mem_dropWhile m.sorted hr
    dsimp only
    rw [hloop, dropWhile_eq_dropWhile hbefore (Nat.le_add_right _ _), Option.map_map]
    exact Option.map_id'

/-! ## What is to be written -/

/-- All the registers of a sensor, which are at `i` in the range, are in it, and it may be written. -/
def Covered (reg : ModbusData) (count i : Nat) (p : IOProperty) : Prop :=
  p.amode ≠ .amRO ∧ p.wnum = 0 ∧ p.mbreg.toNat = reg.toNat + i ∧ i + p.vtype.wsize ≤ count ∧
    p.mbreg.toNat + p.vtype.wsize ≤ 65536

instance (reg : ModbusData) (count i : Nat) : DecidablePred (Covered reg count i) := fun p =>
  inferInstanceAs (Decidable (p.amode ≠ .amRO ∧ p.wnum = 0 ∧ p.mbreg.toNat = reg.toNat + i ∧
    i + p.vtype.wsize ≤ count ∧ p.mbreg.toNat + p.vtype.wsize ≤ 65536))

/-- A sensor that is covered is given its own words. -/
def coveredWrites (reg : ModbusData) (base : Nat) (r : Register) : List Write :=
  let i := r.regID - base
  if base ≤ r.regID ∧ r.regID < base + dat.length then
    match r.bitreg with
    | some b =>
      bitWrites b i (dat.getD i 0) fun p => Covered reg dat.length i p ∧ p.vtype.wsize = 1
    | none =>
      if Covered reg dat.length i r.prop then
        [⟨i, none, r.prop, valueOf r.prop ((dat.drop i).take r.prop.vtype.wsize)⟩]
      else []
  else []

/-- The identifier of the first register that is to be written. -/
def MBSlave.writeID (conf : MBSlave) (reg : ModbusData) (fn : ModbusByte) : Nat :=
  genRegID reg (conf.getOptimizeWriteFunction (if conf.checkMBFunc then fn else conf.default_mbfunc))

/-- The sensors that are covered by a request are written one by one. -/
def coveredBy (conf : MBSlave) (m : RegMap) (reg : ModbusData) (fn : ModbusByte) : List Write :=
  m.entries.flatMap (coveredWrites dat reg (conf.writeID reg fn))

/-- Nothing is to be written for a register. -/
def Untouched (reg : ModbusData) (count i : Nat) (r : Register) : Prop :=
  match r.bitreg with
  | some b => ∀ n p, b n = some p → p.vtype.wsize = 1 → ¬Covered reg count i p
  | none => ¬Covered reg count i r.prop

/-- A register has the first word of a sensor that is covered, if it is written. -/
def BeginsCovered (reg : ModbusData) (count i : Nat) (r : Register) : Prop :=
  match r.bitreg with
  | some b => ∀ n p, b n = some p → WritesOne p → Covered reg count i p
  | none => r.prop.amode ≠ .amRO → (r.prop.vtype.wsize = 1 ∨ i + r.prop.vtype.wsize ≤ count) →
      Covered reg count i r.prop

/-- The registers of a range, of which those of a value of several words are passed over. -/
def Aligned (reg : ModbusData) (base count : Nat) : Nat → List Register → Prop
  | skip, [] => skip = 0
  | skip + 1, r :: l =>
    (r.regID < base + count → Untouched reg count (r.regID - base) r) ∧ Aligned reg base count skip l
  | 0, r :: l =>
    base + count ≤ r.regID ∨
      BeginsCovered reg count (r.regID - base) r ∧ Aligned reg base count (r.step - 1) l

theorem mem_bitWrites {b : BitRegProperty} {i : Nat} {val : ModbusData} {sel : IOProperty → Prop}
    [DecidablePred sel] {w : Write} :
    w ∈ bitWrites b i val sel ↔
      ∃ n p, b n = some p ∧ sel p ∧ w = ⟨i, some n, p, valueOf p [bitOf val n]⟩ := by
  unfold bitWrites
  rw [List.mem_flatMap]
  constructor
  · rintro ⟨n, -, hw⟩
    cases hbit : b n with
    | none => simp [hbit] at hw
    | some p =>
      by_cases hsel : sel p
      · exact ⟨n, p, hbit, hsel, by simpa [hbit, hsel] using hw⟩
      · simp [hbit, hsel] at hw
  · rintro ⟨n, p, hbit, hsel, hw⟩
    exact ⟨n, List.mem_finRange n, by simp [hbit, hsel, hw]⟩

theorem bitWrites_congr_iff {b : BitRegProperty} {i : Nat} {val : ModbusData}
    {sel sel' : IOProperty → Prop} [DecidablePred sel] [DecidablePred sel'] :
    bitWrites b i val sel = bitWrites b i val sel' ↔ ∀ n p, b n = some p → (sel p ↔ sel' p) := by
  constructor
  · intro heq n p hbit
    have hmem : ∀ (q : IOProperty → Prop) [DecidablePred q],
        ⟨i, some n, p, valueOf p [bitOf val n]⟩ ∈ bitWrites b i val q ↔ q p := fun q _ => by
      rw [mem_bitWrites]
      constructor
      · rintro ⟨n', p', hbit', hq, hw⟩
        cases hw
        exact hq
      · exact fun hq => ⟨n, p, hbit, hq, rfl⟩
    rw [← hmem sel, ← hmem sel', heq]
  · intro h
    unfold bitWrites
    refine congrArg (List.flatMap · _) (funext fun n => ?_)
    cases hbit : b n with
    | none => rfl
    | some p => simp only [h n p hbit]

theorem writesOf_eq_iff {reg : ModbusData} {base : Nat} {r : Register} (hbase : base ≤ r.regID)
    (hend : r.regID < base + dat.length) :
    writesOf dat dat.length (r.regID - base) r = coveredWrites dat reg base r ↔
      BeginsCovered reg dat.length (r.regID - base) r := by
  have hin : base ≤ r.regID ∧ r.regID < base + dat.length := ⟨hbase, hend⟩
  unfold writesOf coveredWrites BeginsCovered
  rw [if_pos hin]
  cases r.bitreg with
  | some b =>
    dsimp only
    rw [bitWrites_congr_iff]
    refine forall₃_congr fun n p hbit => ⟨fun h hone => (h.mp hone).1, fun h => ⟨fun hone => ?_, ?_⟩⟩
    · exact ⟨h hone, hone.2⟩
    · exact fun ⟨hcov, hsize⟩ => ⟨hcov.1, hsize⟩
  | none =>
    dsimp only
    by_cases hcov : Covered reg dat.length (r.regID - base) r.prop
    · rw [if_pos hcov, if_pos ⟨hcov.1, .inr hcov.2.2.2.1⟩]
      exact iff_of_true rfl fun _ _ => hcov
    · rw [if_neg hcov]
      by_cases hwrite : r.prop.amode ≠ .amRO ∧
          (r.prop.vtype.wsize = 1 ∨ r.regID - base + r.prop.vtype.wsize ≤ dat.length)
      · rw [if_pos hwrite]
        exact iff_of_false (List.cons_ne_nil _ _) fun h => hcov (h hwrite.1 hwrite.2)
      · rw [if_neg hwrite]
        exact iff_of_true rfl fun hmode hsize => absurd ⟨hmode, hsize⟩ hwrite

theorem coveredWrites_eq_nil_iff {reg : ModbusData} {base : Nat} {r : Register}
    (hbase : base ≤ r.regID) : coveredWrites dat reg base r = [] ↔
      (r.regID < base + dat.length → Untouched reg dat.length (r.regID - base) r) := by
  unfold coveredWrites Untouched
  by_cases hend : r.regID < base + dat.length
  · have hin : base ≤ r.regID ∧ r.regID < base + dat.length := ⟨hbase, hend⟩
    rw [if_pos hin, forall_prop_of_true hend]
    cases r.bitreg with
    | some b =>
      dsimp only
      rw [List.eq_nil_iff_forall_not_mem]
      constructor
      · exact fun h n p hbit hsize hcov => h _ (mem_bitWrites.mpr ⟨n, p, hbit, ⟨hcov, hsize⟩, rfl⟩)
      · intro h w hw
        obtain ⟨n, p, hbit, ⟨hcov, hsize⟩, -⟩ := mem_bitWrites.mp hw
        exact h n p hbit hsize hcov
    | none => simp
  · rw [if_neg fun h => hend h.2]
    exact iff_of_true rfl fun h => absurd h hend

theorem place_of_mem_bitWrites {b : BitRegProperty} {i : Nat} {val : ModbusData}
    {sel : IOProperty → Prop} [DecidablePred sel] {w : Write} (hw : w ∈ bitWrites b i val sel) :
    w.place = i := by
  obtain ⟨n, p, -, -, rfl⟩ := mem_bitWrites.mp hw
  rfl

theorem place_of_mem_writesOf {r : Register} {count i : Nat} {w : Write}
    (hw : w ∈ writesOf dat count i r) : w.place = i := by
  unfold writesOf at hw
  cases hbits : r.bitreg with
  | some b =>
    rw [hbits] at hw
    exact place_of_mem_bitWrites hw
  | none =>
    rw [hbits] at hw
    dsimp only at hw
    split_ifs at hw
    · rw [List.mem_singleton.mp hw]
    · cases hw

theorem place_of_mem_coveredWrites {reg : ModbusData} {base : Nat} {r : Register} {w : Write}
    (hw : w ∈ coveredWrites dat reg base r) : w.place = r.regID - base := by
  unfold coveredWrites at hw
  cases hbits : r.bitreg with
  | some b =>
    rw [hbits] at hw
    dsimp only at hw
    split_ifs at hw
    · exact place_of_mem_bitWrites hw
    · cases hw
  | none =>
    rw [hbits] at hw
    dsimp only at hw
    split_ifs at hw
    · rw [List.mem_singleton.mp hw]
    · cases hw
    · cases hw

theorem place_of_mem_walk {base skip : Nat} {l : List Register} {ws : List Write}
    (h : walk dat base skip l = some ws) :
    ∀ w ∈ ws, ∃ r ∈ l, w.place = r.regID - base := by
  induction l generalizing skip ws with
  | nil =>
    cases skip with
    | zero => cases h; simp
    | succ skip => cases h
  | cons r l ih =>
    intro w hw
    cases skip with
    | succ skip =>
      obtain ⟨r', hr', hplace⟩ := ih h w hw
      exact ⟨r', List.mem_cons_of_mem _ hr', hplace⟩
    | zero =>
      rw [walk] at h
      split_ifs at h
      · cases h
        cases hw
      · obtain ⟨more, hmore, rfl⟩ := Option.map_eq_some_iff.mp h
        rcases List.mem_append.mp hw with hw | hw
        · exact ⟨r, List.mem_cons_self, place_of_mem_writesOf dat hw⟩
        · obtain ⟨r', hr', hplace⟩ := ih hmore w hw
          exact ⟨r', List.mem_cons_of_mem _ hr', hplace⟩

/-- Writes at a place come before those at the places after it. -/
theorem append_eq_append_iff_of_place {i : Nat} {xs xs' ys ys' : List Write}
    (hxs : ∀ w ∈ xs, w.place = i) (hxs' : ∀ w ∈ xs', w.place = i) (hys : ∀ w ∈ ys, w.place ≠ i)
    (hys' : ∀ w ∈ ys', w.place ≠ i) : xs ++ ys = xs' ++ ys' ↔ xs = xs' ∧ ys = ys' := by
  refine ⟨fun h => ?_, fun ⟨hx, hy⟩ => by rw [hx, hy]⟩
  have hfilter := congrArg (List.filter fun w => w.place = i) h
  rw [List.filter_append, List.filter_append, List.filter_eq_self.mpr (by simpa using hxs),
    List.filter_eq_nil_iff.mpr (by simpa using hys), List.filter_eq_self.mpr (by simpa using hxs'),
    List.filter_eq_nil_iff.mpr (by simpa using hys'), List.append_nil, List.append_nil] at hfilter
  exact ⟨hfilter, List.append_cancel_left (hfilter ▸ h)⟩

/-- The walk writes what is to be written if and only if the registers are aligned. -/
theorem walk_eq_iff {base skip : Nat} {l : List Register}
    (hsorted : l.Pairwise fun a b => a.regID < b.regID) (hbase : ∀ r ∈ l, base ≤ r.regID) :
    walk dat base skip l = some (l.flatMap (coveredWrites dat reg base)) ↔
      Aligned reg base dat.length skip l := by
  induction l generalizing skip with
  | nil => cases skip <;> simp [walk, Aligned]
  | cons r l ih =>
    obtain ⟨hfirst, hrest⟩ := List.pairwise_cons.mp hsorted
    obtain ⟨hr, hl⟩ := List.forall_mem_cons.mp hbase
    have hlater : ∀ w ∈ l.flatMap (coveredWrites dat reg base), w.place ≠ r.regID - base := by
      intro w hw
      obtain ⟨r', hr', hw⟩ := List.mem_flatMap.mp hw
      have hlt := hfirst r' hr'
      have hle := hl r' hr'
      rw [place_of_mem_coveredWrites dat hw]
      omega
    have hwalk : ∀ {skip ws}, walk dat base skip l = some ws → ∀ w ∈ ws, w.place ≠ r.regID - base := by
      intro skip ws h w hw
      obtain ⟨r', hr', hplace⟩ := place_of_mem_walk dat h w hw
      have hlt := hfirst r' hr'
      have hle := hl r' hr'
      omega
    rw [List.flatMap_cons]
    cases skip with
    | succ skip =>
      rw [walk, Aligned, ← ih hrest hl, ← coveredWrites_eq_nil_iff dat hr]
      constructor
      · intro h
        obtain ⟨hnil, heq⟩ := (append_eq_append_iff_of_place (by simp)
          (fun w hw => place_of_mem_coveredWrites dat hw) (hwalk h) hlater).mp (List.nil_append _)
        exact ⟨hnil.symm, h.trans (congrArg some heq)⟩
      · intro ⟨hnil, h⟩
        rw [h, hnil, List.nil_append]
    | zero =>
      rw [walk, Aligned]
      by_cases hend : base + dat.length ≤ r.regID
      · have hnone : (coveredWrites dat reg base r ++ l.flatMap (coveredWrites dat reg base)) = [] := by
          rw [← List.flatMap_cons, List.flatMap_eq_nil_iff]
          intro r' hr'
          have hle := le_regID_of_mem_drop 0 hsorted hr'
          exact (coveredWrites_eq_nil_iff dat (hbase r' hr')).mpr fun hlt => by omega
        rw [if_pos hend, hnone]
        exact iff_of_true rfl (.inl hend)
      · rw [if_neg hend, or_iff_right hend, ← writesOf_eq_iff dat hr (Nat.lt_of_not_le hend),
          ← ih hrest hl]
        constructor
        · intro h
          obtain ⟨more, hmore, happend⟩ := Option.map_eq_some_iff.mp h
          obtain ⟨hhere, heq⟩ := (append_eq_append_iff_of_place
            (fun w hw => place_of_mem_writesOf dat hw)
            (fun w hw => place_of_mem_coveredWrites dat hw) (hwalk hmore) hlater).mp happend
          exact ⟨hhere, hmore.trans (congrArg some heq)⟩
        · intro ⟨hhere, h⟩
          rw [h, hhere]
          rfl

/-! ## The registers that are kept -/

theorem find_addWords {it : Item} {is : List Nat} {regID : Nat}
    (h : ((addWords conf it is m).find regID).isSome) :
    (m.find regID).isSome ∨ ∃ mbreg, genRegID mbreg (it.mbfunc' conf) = regID := by
  induction is generalizing m with
  | nil => exact .inl h
  | cons i is ih =>
    rcases ih h with h | hkey
    · rw [SortedMap.find_insert] at h
      split_ifs at h with hkey
      · exact .inr ⟨_, hkey⟩
      · exact .inl h
    · exact .inr hkey

theorem find_initItem {it : Item} {m' : RegMap} (h : initItem conf it m = some m') {regID : Nat}
    (hfind : (m'.find regID).isSome) :
    (m.find regID).isSome ∨ ∃ mbreg, genRegID mbreg (it.mbfunc' conf) = regID := by
  unfold initItem at h
  split_ifs at h with hbit
  · unfold initBit at h
    extract_lets id at h
    split_ifs at h
    cases hold : m.find id with
    | none =>
      rw [hold] at h
      obtain rfl := Option.some.inj h
      rw [SortedMap.find_insert] at hfind
      split_ifs at hfind with hkey
      · exact .inr ⟨_, hkey⟩
      · exact .inl hfind
    | some r =>
      rw [hold] at h
      dsimp only at h
      cases hbits : r.bitreg with
      | none =>
        rw [hbits] at h
        cases h
      | some b =>
        rw [hbits] at h
        dsimp only at h
        split_ifs at h
        obtain rfl := Option.some.inj h
        rw [SortedMap.find_insert] at hfind
        split_ifs at hfind with hkey
        · exact .inr ⟨_, (SortedMap.mem_of_find hold).2.symm.trans hkey⟩
        · exact .inl hfind
  · obtain rfl := Option.some.inj h
    exact find_addWords hfind

theorem find_initItems {items : List Item} (h : initItems conf items = some m) {regID : Nat}
    (hfind : (m.find regID).isSome) :
    ∃ it ∈ items, ∃ mbreg, genRegID mbreg (it.mbfunc' conf) = regID := by
  have hrun : ∀ (items : List Item) (m₀ : RegMap),
      items.foldlM (fun m it => initItem conf it m) m₀ = some m →
      (m₀.find regID).isSome ∨ ∃ it ∈ items, ∃ mbreg, genRegID mbreg (it.mbfunc' conf) = regID := by
    intro items
    induction items with
    | nil =>
      intro m₀ h
      obtain rfl := Option.some.inj h
      exact .inl hfind
    | cons it items ih =>
      intro m₀ h
      obtain ⟨m₁, hitem, hitems⟩ := Option.bind_eq_some_iff.mp h
      rcases ih m₁ hitems with hfind | ⟨it', hit', hkey⟩
      · exact (find_initItem hitem hfind).imp_right fun hkey => ⟨it, List.mem_cons_self, hkey⟩
      · exact .inr ⟨it', List.mem_cons_of_mem _ hit', hkey⟩
  refine (hrun items .empty h).resolve_left fun hnone => ?_
  simp [SortedMap.empty, SortedMap.find] at hnone

/-- A function that is replaced has its registers before those of the one that it is replaced by. -/
theorem genRegID_add_lt_optimized (hopt : conf.getOptimizeWriteFunction fn ≠ fn)
    (r r' : ModbusData) {count : Nat} (hcount : count < 65536) :
    genRegID r fn + count ≤ genRegID r' (conf.getOptimizeWriteFunction fn) := by
  have hr := r.toNat_lt
  unfold MBSlave.getOptimizeWriteFunction at hopt ⊢
  split_ifs at hopt ⊢ with hoff hsingle hcoil
  · exact absurd rfl hopt
  · subst hsingle
    change 65535 + r.toNat + 65535 * 6 + 1 + count ≤ 65535 + r'.toNat + 65535 * 16 + 1
    omega
  · subst hcoil
    change 65535 + r.toNat + 65535 * 5 + 1 + count ≤ 65535 + r'.toNat + 65535 * 15 + 1
    omega
  · exact absurd rfl hopt

/-- The registers of a request can be written together. -/
def WritableTogether (conf : MBSlave) (m : RegMap) (reg : ModbusData) (fn : ModbusByte)
    (count : Nat) : Prop :=
  (conf.LooksUpKept → Aligned reg (conf.writeID reg fn) count 0
    (m.entries.dropWhile fun r => r.regID < conf.writeID reg fn)) ∧
  (¬conf.LooksUpKept → ∀ r ∈ m.entries, conf.writeID reg fn ≤ r.regID →
    r.regID < conf.writeID reg fn + count →
    Untouched reg count (r.regID - conf.writeID reg fn) r)

theorem requestID_eq_writeID (hkept : conf.LooksUpKept) (reg : ModbusData) (fn : ModbusByte) :
    conf.requestID reg (conf.getOptimizeWriteFunction fn) =
      conf.writeID reg (conf.getOptimizeWriteFunction fn) := by
  unfold MBSlave.requestID MBSlave.writeID
  by_cases hcheck : conf.checkMBFunc = true
  · simp only [if_pos hcheck, getOptimizeWriteFunction_idem]
  · simp only [if_neg hcheck, hkept.resolve_left hcheck]

theorem coveredBy_eq_dropWhile (m : RegMap) (reg : ModbusData) (fn : ModbusByte) :
    coveredBy dat conf m reg fn =
      (m.entries.dropWhile fun r => r.regID < conf.writeID reg fn).flatMap
        (coveredWrites dat reg (conf.writeID reg fn)) := by
  have hbefore : (m.entries.takeWhile fun r => r.regID < conf.writeID reg fn).flatMap
      (coveredWrites dat reg (conf.writeID reg fn)) = [] := by
    refine List.flatMap_eq_nil_iff.mpr fun r hr => if_neg fun h => ?_
    have hlt := List.mem_takeWhile_imp hr
    exact absurd h.1 (Nat.not_le_of_lt (by simpa using hlt))
  unfold coveredBy
  conv_lhs => rw [← List.takeWhile_append_dropWhile
    (p := fun r : Register => r.regID < conf.writeID reg fn) (l := m.entries),
    List.flatMap_append, hbefore, List.nil_append]

/-- Nothing is found where the registers of another function are looked up. -/
theorem walk_requestID {items : List Item} (h : initItems conf items = some m)
    (hkept : ¬conf.LooksUpKept) (hquant : dat.length < 65536) :
    walk dat (conf.requestID reg fn) 0
      (m.entries.dropWhile fun r => r.regID < conf.requestID reg fn) = some [] := by
  obtain ⟨hcheck, hopt⟩ := not_or.mp hkept
  cases hl : m.entries.dropWhile fun r => r.regID < conf.requestID reg fn with
  | nil => rfl
  | cons r l =>
    have hr : r ∈ m.entries :=
      (List.dropWhile_sublist _).mem (hl ▸ List.mem_cons_self : r ∈ m.entries.dropWhile _)
    have hfound : (m.find r.regID).isSome := by
      rw [SortedMap.find_key hr]
      rfl
    obtain ⟨it, -, mbreg, hkey⟩ := find_initItems h hfound
    have hfar := genRegID_add_lt_optimized hopt reg mbreg hquant
    rw [Item.mbfunc', if_neg hcheck] at hkey
    rw [walk, if_pos]
    rw [MBSlave.requestID, if_neg hcheck, ← hkey]
    exact hfar

/-- The sensors that are covered by a request, and no others, are given their values if and only if
the registers can be written together.  The number of registers is one of 16 bits. -/
theorem writeOutputRegisters_iff {items : List Item} (h : initItems conf items = some m)
    (hquant : dat.length < 65536) (start : ModbusData) :
    (writeOutputRegisters dat conf m start).map Prod.snd =
        some (coveredBy dat conf m start
          (conf.getOptimizeWriteFunction fnWriteOutputRegisters.code)) ↔
      WritableTogether conf m start (conf.getOptimizeWriteFunction fnWriteOutputRegisters.code)
        dat.length := by
  rw [writeOutputRegisters, much_write_eq]
  by_cases hkept : conf.LooksUpKept
  · have hsorted := m.sorted.sublist (List.dropWhile_sublist fun r => r.regID <
      conf.writeID start (conf.getOptimizeWriteFunction fnWriteOutputRegisters.code))
    rw [requestID_eq_writeID hkept, coveredBy_eq_dropWhile,
      walk_eq_iff dat hsorted fun r hr => le_of_mem_dropWhile m.sorted hr]
    exact ⟨fun haligned => ⟨fun _ => haligned, fun hnot => absurd hkept hnot⟩, fun h => h.1 hkept⟩
  · rw [walk_requestID dat h hkept hquant, Option.some.injEq, eq_comm, coveredBy,
      List.flatMap_eq_nil_iff]
    constructor
    · intro hnone
      exact ⟨fun h => absurd h hkept, fun _ r hr hbase =>
        (coveredWrites_eq_nil_iff dat hbase).mp (hnone r hr)⟩
    · intro htogether r hr
      by_cases hbase : conf.writeID start
          (conf.getOptimizeWriteFunction fnWriteOutputRegisters.code) ≤ r.regID
      · exact (coveredWrites_eq_nil_iff dat hbase).mpr (htogether.2 hkept r hr hbase)
      · exact if_neg fun h => hbase h.1

/-- A sensor for whole registers. -/
def wordItem (id : ObjectId) (mbreg : ModbusData) (vtype : Option VType) : Item :=
  ⟨⟨id, 0⟩, .AI, mbreg, none, .amRW, -1, vtype, 0⟩

theorem writeOutputRegisters_three :
    ∃ m, initItems ⟨false, false, 0⟩ [wordItem 10 5 (some .vtI2), wordItem 11 7 none] = some m ∧
      ((writeOutputRegisters [1, 0, 3] ⟨false, false, 0⟩ m 5).map Prod.snd =
          some (coveredBy [1, 0, 3] ⟨false, false, 0⟩ m 5
            (MBSlave.getOptimizeWriteFunction ⟨false, false, 0⟩ fnWriteOutputRegisters.code)) ↔
        WritableTogether ⟨false, false, 0⟩ m 5
          (MBSlave.getOptimizeWriteFunction ⟨false, false, 0⟩ fnWriteOutputRegisters.code) 3) :=
  ⟨_, rfl, @writeOutputRegisters_iff [1, 0, 3] ⟨false, false, 0⟩ _
    [wordItem 10 5 (some .vtI2), wordItem 11 7 none] rfl (by decide) 5⟩

/-- A request that starts inside of a value gives the sensor words that are not its own, and the sensor
after it nothing. -/
theorem writeOutputRegisters_inside :
    ∃ m, initItems ⟨false, false, 0⟩ [wordItem 10 5 (some .vtI2), wordItem 11 7 none] = some m ∧
      (writeOutputRegisters [1, 2] ⟨false, false, 0⟩ m 6).map Prod.snd ≠
        some (coveredBy [1, 2] ⟨false, false, 0⟩ m 6
          (MBSlave.getOptimizeWriteFunction ⟨false, false, 0⟩ fnWriteOutputRegisters.code)) :=
  ⟨_, rfl, by decide⟩

end Uniset.ModbusSlave
