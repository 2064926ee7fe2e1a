import Uniset.Lib.Pieces
import Uniset.ModbusMaster.MBConfig

/-! Registers that follow each other are put into one query, up to a number of them. -/

namespace Uniset.ModbusMaster

open Uniset.Lib Uniset.Modbus SlaveFunctionCode

/-- The registers that go into the query of a register, numbered; how many it then has; and the
registers for the next queries. -/
def glue (maxQueryCount : Nat) (q_count regID : Nat) :
    List RegInfo → List RegInfo × Nat × List RegInfo
  | [] => ([], q_count, [])
  | r :: rest =>
    if 1 < r.regID - regID then ([], q_count, r :: rest)
    else
      let glued := { r with q_num := q_count, q_count := 0 }
      -- the limit is looked at after a register has been added
      if maxQueryCount ≤ q_count + 1 then ([glued], q_count + 1, rest)
      else
        let (more, count, rest) := glue maxQueryCount (q_count + 1) r.regID rest
        (glued :: more, count, rest)

/-- A function that writes one register is replaced for a query of several. -/
def correctFunction (q_count : Nat) (mbfunc : ModbusByte) : ModbusByte :=
  if 1 < q_count ∧ mbfunc = fnWriteOutputSingleRegister.code then fnWriteOutputRegisters.code
  else if 1 < q_count ∧ mbfunc = fnForceSingleCoil.code then fnForceMultipleCoils.code
  else mbfunc

/-- The outer loop, which begins at most one query a register. -/
def formQueries (maxQueryCount : Nat) : Nat → List RegInfo → List RegInfo
  | 0, regs => regs
  | _ + 1, [] => []
  | n + 1, beg :: rest =>
    let (glued, q_count, rest) := glue maxQueryCount 1 beg.regID rest
    { beg with
      q_count := q_count
      q_num := 0
      mbfunc := correctFunction q_count beg.mbfunc } :: glued ++ formQueries maxQueryCount n rest

def rtuQueryOptimizationForRegMap (maxQueryCount : Nat) (regmap : List RegInfo) : List RegInfo :=
  if regmap.length ≤ 1 then regmap else formQueries maxQueryCount regmap.length regmap

/-- One register comes after another in the numbers of registers. -/
def Follows (a b : RegInfo) : Prop := b.regID - a.regID ≤ 1

instance : DecidableRel Follows := fun a b => inferInstanceAs (Decidable (b.regID - a.regID ≤ 1))

/-- A register of a query of `q_count`. -/
def numbered (q_count : Nat) : Nat → RegInfo → RegInfo
  | 0, r => { r with q_count := q_count, q_num := 0, mbfunc := correctFunction q_count r.mbfunc }
  | i + 1, r => { r with q_num := i + 1, q_count := 0 }

def asQuery (g : List RegInfo) : List RegInfo := g.mapIdx (numbered g.length)

variable {maxQueryCount : Nat}

theorem glue_eq (count : Nat) (beg : RegInfo) (l : List RegInfo) (hcount : 1 ≤ count) :
    glue maxQueryCount count beg.regID l =
      ((leading Follows (max maxQueryCount (count + 1) - count) beg l).1.mapIdx fun i r =>
          { r with q_num := count + i, q_count := 0 },
        count + (leading Follows (max maxQueryCount (count + 1) - count) beg l).1.length,
        (leading Follows (max maxQueryCount (count + 1) - count) beg l).2) := by
  induction l generalizing count beg with
  | nil => cases h : max maxQueryCount (count + 1) - count <;> rfl
  | cons r rest ih =>
    obtain ⟨room, hroom⟩ : ∃ room, max maxQueryCount (count + 1) - count = room + 1 :=
      Nat.exists_eq_succ_of_ne_zero (by omega)
    rw [hroom, glue, leading]
    by_cases hgap : 1 < r.regID - beg.regID
    · have hends : ¬Follows beg r := Nat.not_le_of_lt hgap
      rw [if_pos hgap, if_neg hends]
      rfl
    · have hfollows : Follows beg r := Nat.le_of_not_lt hgap
      rw [if_neg hgap, if_pos hfollows]
      by_cases hlimit : maxQueryCount ≤ count + 1
      · have hzero : room = 0 := by omega
        subst hzero
        rw [if_pos hlimit]
        cases rest <;> rfl
      · have hnext : max maxQueryCount (count + 1 + 1) - (count + 1) = room := by omega
        have hih := ih (count + 1) r (by omega)
        rw [hnext] at hih
        rw [if_neg hlimit, hih]
        simp only [List.mapIdx_cons, List.length_cons, Nat.add_zero]
        simp only [Nat.add_assoc, Nat.add_comm 1]

theorem formQueries_eq (n : Nat) (l : List RegInfo) (hn : l.length ≤ n) :
    formQueries maxQueryCount n l = (pieces Follows (max maxQueryCount 2) l).flatMap asQuery := by
  induction n generalizing l with
  | zero =>
    cases List.eq_nil_of_length_eq_zero (Nat.le_zero.mp hn)
    rw [pieces_nil]
    rfl
  | succ n ih =>
    cases l with
    | nil =>
      rw [pieces_nil]
      rfl
    | cons beg l =>
      have hrest := length_rest_le Follows (max maxQueryCount 2 - 1) beg l
      rw [formQueries, glue_eq 1 beg l (Nat.le_refl 1), pieces_cons, List.flatMap_cons,
        ← ih _ (Nat.le_trans hrest (Nat.le_of_succ_le_succ hn))]
      simp only [asQuery, List.mapIdx_cons, List.length_cons, Nat.add_comm 1]
      rfl

theorem correctFunction_ne {q_count : Nat} (h : 1 < q_count) (f : ModbusByte) :
    correctFunction q_count f ≠ fnWriteOutputSingleRegister.code ∧
      correctFunction q_count f ≠ fnForceSingleCoil.code := by
  unfold correctFunction
  split_ifs with hsingle hcoil
  · decide
  · decide
  · exact ⟨fun hf => hsingle ⟨h, hf⟩, fun hf => hcoil ⟨h, hf⟩⟩

@[simp] theorem correctFunction_correctFunction (q_count : Nat) (f : ModbusByte) :
    correctFunction q_count (correctFunction q_count f) = correctFunction q_count f := by
  by_cases h : 1 < q_count
  · obtain ⟨hsingle, hcoil⟩ := correctFunction_ne h f
    rw [correctFunction, if_neg fun hf => hsingle hf.2, if_neg fun hf => hcoil hf.2]
  · rw [correctFunction, if_neg fun hf => h hf.1, if_neg fun hf => h hf.1]

@[simp] theorem correctFunction_one (f : ModbusByte) : correctFunction 1 f = f := by
  simp [correctFunction]

@[simp] theorem length_asQuery (g : List RegInfo) : (asQuery g).length = g.length :=
  List.length_mapIdx

theorem asQuery_asQuery (g : List RegInfo) : asQuery (asQuery g) = asQuery g := by
  rw [asQuery, length_asQuery, asQuery, List.mapIdx_mapIdx]
  refine List.mapIdx_eq_mapIdx_iff.mpr fun i hi => ?_
  cases i with
  | zero => simp [numbered]
  | succ i => rfl

/-- A register without what the queries are made by. -/
def bare (r : RegInfo) : RegInfo := { r with q_num := 0, q_count := 0, mbfunc := 0 }

theorem asQuery_map_bare (g : List RegInfo) : (asQuery g).map bare = g.map bare := by
  refine List.ext_getElem (by simp) fun i _ _ => ?_
  simp only [asQuery, List.getElem_map, List.getElem_mapIdx]
  cases i with
  | zero => rfl
  | succ i => rfl

/-! ## The queries of the registers -/

/-- The registers, as they were configured and as they are now, cut where a query begins. -/
def queries (regs optimized : List RegInfo) : List (List (RegInfo × RegInfo)) :=
  (regs.zip optimized).splitBy fun _ r => r.2.q_count = 0

def NextRegister (a b : RegInfo) : Prop :=
  b.mbreg.toNat = a.mbreg.toNat + 1 ∧ b.mbfunc = a.mbfunc

/-- Each value has as many registers as it needs. -/
def Whole : List RegInfo → Prop
  | [] => True
  | r :: rest => (∀ p ∈ r.slst, p.rnum ≤ rest.length + 1) ∧ Whole rest

/-- Registers for one query: of one function, as they are configured, and with numbers that follow
each other. -/
structure IsQuery (maxQueryCount : Nat) (g : List (RegInfo × RegInfo)) : Prop where
  marked : g.map (fun r => (r.2.q_num, r.2.q_count)) =
    (List.range g.length).map fun i => (i, if i = 0 then g.length else 0)
  count_le : g.length ≤ maxQueryCount
  next : (g.map Prod.fst).IsChain NextRegister
  addresses : 1 < g.length → ∀ r ∈ g.head?, r.2.mbfunc ≠ fnWriteOutputSingleRegister.code ∧
    r.2.mbfunc ≠ fnForceSingleCoil.code
  whole : Whole (g.map Prod.fst)

structure Optimized (maxQueryCount : Nat) (regs optimized : List RegInfo) : Prop where
  kept : optimized.map bare = regs.map bare
  all : (queries regs optimized).flatten = regs.zip optimized
  isQuery : ∀ g ∈ queries regs optimized, IsQuery maxQueryCount g
  again : rtuQueryOptimizationForRegMap maxQueryCount optimized = optimized

/-- No register of a value but its first one is at a place that is a multiple of `n`. -/
def Uncut (n : Nat) : List (RegInfo × Nat) → Prop
  | [] => True
  | r :: rest =>
    (∀ p ∈ r.1.slst, p.rnum ≤ (rest.takeWhile fun r => r.2 % n ≠ 0).length + 1) ∧ Uncut n rest

/-- Registers that can be put together. -/
structure Groupable (maxQueryCount : Nat) (regs : List RegInfo) : Prop where
  count : 2 ≤ maxQueryCount ∨ regs.IsChain fun a b => ¬Follows a b
  next : (places Follows regs).IsChain fun a b =>
    b.2 % max maxQueryCount 2 ≠ 0 → NextRegister a.1 b.1
  uncut : Uncut (max maxQueryCount 2) (places Follows regs)

theorem zip_asQuery_cons (beg : RegInfo) (rest : List RegInfo) :
    (beg :: rest).zip (asQuery (beg :: rest)) = (beg, numbered (rest.length + 1) 0 beg) ::
      rest.zip (rest.mapIdx fun i => numbered (rest.length + 1) (i + 1)) := by
  rw [asQuery, List.mapIdx_cons]
  rfl

theorem isQuery_asQuery_iff {g : List RegInfo} (hg : g ≠ []) :
    IsQuery maxQueryCount (g.zip (asQuery g)) ↔
      g.length ≤ maxQueryCount ∧ g.IsChain NextRegister ∧ Whole g := by
  have hfst : (g.zip (asQuery g)).map Prod.fst = g :=
    List.map_fst_zip (Nat.le_of_eq (length_asQuery g).symm)
  have hlength : (g.zip (asQuery g)).length = g.length := by simp
  refine ⟨fun h => ⟨hlength ▸ h.count_le, hfst ▸ h.next, hfst ▸ h.whole⟩,
    fun ⟨hcount, hnext, hwhole⟩ => ⟨?_, hlength ▸ hcount, hfst.symm ▸ hnext, ?_, hfst.symm ▸ hwhole⟩⟩
  · refine List.ext_getElem (by simp) fun i _ _ => ?_
    simp only [asQuery, List.getElem_map, List.getElem_zip, List.getElem_mapIdx, List.getElem_range,
      List.length_zip, List.length_mapIdx, Nat.min_self]
    cases i with
    | zero => rfl
    | succ i => rfl
  · intro hmany r hr
    cases g with
    | nil => exact absurd rfl hg
    | cons beg g =>
      rw [hlength] at hmany
      rw [zip_asQuery_cons] at hr
      obtain rfl := Option.some.inj hr
      exact correctFunction_ne hmany beg.mbfunc

theorem queries_asQuery {gs : List (List RegInfo)} (hgs : [] ∉ gs) :
    queries gs.flatten (gs.flatMap asQuery) = gs.map fun g => g.zip (asQuery g) := by
  have hzip : gs.flatten.zip (gs.flatMap asQuery) = (gs.map fun g => g.zip (asQuery g)).flatten := by
    clear hgs
    induction gs with
    | nil => rfl
    | cons g gs ih =>
      rw [List.flatten_cons, List.flatMap_cons, List.zip_append (length_asQuery g).symm, ih]
      rfl
  rw [queries, hzip]
  refine splitBy_flatten_heads fun g hg => ?_
  obtain ⟨g, hmem, rfl⟩ := List.mem_map.mp hg
  cases g with
  | nil => exact absurd hmem hgs
  | cons beg rest =>
    refine ⟨(beg, numbered (rest.length + 1) 0 beg),
      rest.zip (rest.mapIdx fun i => numbered (rest.length + 1) (i + 1)), ?_, rfl, fun r hr => ?_⟩
    · exact zip_asQuery_cons beg rest
    · obtain ⟨i, hi, hr⟩ := List.mem_mapIdx.mp (List.of_mem_zip hr).2
      rw [← hr]
      rfl

/-- A register alone in its map keeps the marks that it was given at first. -/
def Marked (regs : List RegInfo) : Prop :=
  2 ≤ regs.length ∨ ∀ r ∈ regs, r.q_num = 0 ∧ r.q_count = 1

theorem rtuQueryOptimizationForRegMap_eq {regs : List RegInfo} (h : Marked regs) :
    rtuQueryOptimizationForRegMap maxQueryCount regs =
      (pieces Follows (max maxQueryCount 2) regs).flatMap asQuery := by
  unfold rtuQueryOptimizationForRegMap
  split_ifs with hshort
  · have hmarks := h.resolve_left (Nat.not_le_of_lt (Nat.lt_succ_of_le hshort))
    cases regs with
    | nil => rw [pieces_nil, List.flatMap_nil]
    | cons r rest =>
      obtain rfl : rest = [] :=
        List.eq_nil_of_length_eq_zero (Nat.le_zero.mp (Nat.le_of_succ_le_succ hshort))
      obtain ⟨hnum, hcount⟩ := hmarks r List.mem_cons_self
      have hr : r = numbered 1 0 r := by
        cases r
        simp_all [numbered]
      have hlead : leading Follows (max maxQueryCount 2 - 1) r [] = ([], []) := by
        cases max maxQueryCount 2 - 1 <;> rfl
      rw [pieces_cons, hlead, pieces_nil]
      exact congrArg (fun r => [r]) hr
  · exact formQueries_eq regs.length regs (Nat.le_refl _)

theorem optimized_map_regID {gs : List (List RegInfo)} {β : Type} {f : RegInfo → β}
    (hf : ∀ r, f (bare r) = f r) : (gs.flatMap asQuery).map f = gs.flatten.map f := by
  have hbare : (gs.flatMap asQuery).map bare = gs.flatten.map bare := by
    rw [List.map_flatMap, List.map_flatten, List.flatMap_def]
    exact congrArg List.flatten (List.map_congr_left fun g _ => asQuery_map_bare g)
  have hcongr := congrArg (List.map f) hbare
  rwa [List.map_map, List.map_map, show f ∘ bare = f from funext hf] at hcongr

theorem pieces_flatMap_asQuery (n : Nat) (regs : List RegInfo) :
    pieces Follows n ((pieces Follows n regs).flatMap asQuery) =
      (pieces Follows n regs).map asQuery := by
  have hkeys : ∀ l, (pieces Follows n l).map List.length =
      (pieces (fun a b : Nat => b - a ≤ 1) n (l.map RegInfo.regID)).map List.length := by
    intro l
    rw [pieces_map Follows RegInfo.regID fun _ _ => Iff.rfl, List.map_map]
    exact List.map_congr_left fun g _ => (List.length_map RegInfo.regID).symm
  have hids : ((pieces Follows n regs).flatMap asQuery).map RegInfo.regID =
      regs.map RegInfo.regID := by
    rw [optimized_map_regID fun _ => rfl, pieces_flatten]
  refine List.eq_iff_flatten_eq.mpr ⟨?_, ?_⟩
  · rw [pieces_flatten, List.flatMap_def]
  · rw [hkeys, hids, ← hkeys, List.map_map]
    exact List.map_congr_left fun g _ => (length_asQuery g).symm

theorem rtuQueryOptimizationForRegMap_again {regs : List RegInfo} (h : Marked regs) :
    rtuQueryOptimizationForRegMap maxQueryCount (rtuQueryOptimizationForRegMap maxQueryCount regs) =
      rtuQueryOptimizationForRegMap maxQueryCount regs := by
  by_cases hshort : regs.length ≤ 1
  · have hsame : rtuQueryOptimizationForRegMap maxQueryCount regs = regs := if_pos hshort
    rw [hsame, hsame]
  · have heq := @rtuQueryOptimizationForRegMap_eq maxQueryCount regs h
    have hlength : ((pieces Follows (max maxQueryCount 2) regs).flatMap asQuery).length =
        regs.length := by
      have hids := congrArg List.length (@optimized_map_regID
        (pieces Follows (max maxQueryCount 2) regs) _ RegInfo.regID fun _ => rfl)
      rwa [List.length_map, List.length_map, pieces_flatten] at hids
    have hmarked : Marked ((pieces Follows (max maxQueryCount 2) regs).flatMap asQuery) :=
      .inl (hlength ▸ Nat.lt_of_not_le hshort)
    rw [heq, rtuQueryOptimizationForRegMap_eq hmarked, pieces_flatMap_asQuery, List.flatMap_map]
    simp only [asQuery_asQuery]

theorem takeWhile_inside {n : Nat} {l rest : List (RegInfo × Nat)} (hl : ∀ r ∈ l, r.2 % n ≠ 0)
    (hrest : ∀ r ∈ rest.head?, r.2 % n = 0) :
    (l ++ rest).takeWhile (fun r => r.2 % n ≠ 0) = l := by
  have hstop : rest.takeWhile (fun r => r.2 % n ≠ 0) = [] := by
    cases rest with
    | nil => rfl
    | cons r rest => simp [hrest r rfl]
  rw [List.takeWhile_append_of_pos (by simpa using hl), hstop, List.append_nil]

theorem uncut_append_iff {n : Nat} (a : RegInfo × Nat) {l rest : List (RegInfo × Nat)}
    (hl : ∀ r ∈ l, r.2 % n ≠ 0) (hrest : ∀ r ∈ rest.head?, r.2 % n = 0) :
    Uncut n (a :: l ++ rest) ↔ Whole ((a :: l).map Prod.fst) ∧ Uncut n rest := by
  have hinside := takeWhile_inside hl hrest
  induction l generalizing a with
  | nil =>
    rw [List.nil_append] at hinside
    rw [List.cons_append, List.nil_append, Uncut, hinside]
    simp [Whole]
  | cons b l ih =>
    have htail := (List.forall_mem_cons.mp hl).2
    have hnext : Uncut n (b :: l ++ rest) ↔ Whole ((b :: l).map Prod.fst) ∧ Uncut n rest :=
      ih b htail (takeWhile_inside htail hrest)
    have hfirst : Whole ((a :: b :: l).map Prod.fst) ↔
        (∀ p ∈ a.1.slst, p.rnum ≤ (b :: l).length + 1) ∧ Whole ((b :: l).map Prod.fst) := by
      rw [List.map_cons, Whole, List.length_map]
    rw [List.cons_append, Uncut, hinside, hnext, hfirst, and_assoc]

theorem uncut_flatten_iff {n : Nat} {gs : List (List (RegInfo × Nat))} (hgs : ∀ g ∈ gs, Placed n g) :
    Uncut n gs.flatten ↔ ∀ g ∈ gs, Whole (g.map Prod.fst) := by
  induction gs with
  | nil => simp [Uncut]
  | cons g gs ih =>
    obtain ⟨⟨a, more, rfl, -, hmore⟩, hrest⟩ := List.forall_mem_cons.mp hgs
    have hbegins : ∀ r ∈ gs.flatten.head?, r.2 % n = 0 := by
      cases gs with
      | nil => simp
      | cons g gs =>
        obtain ⟨b, more, rfl, hb, -⟩ := hrest g List.mem_cons_self
        simpa using hb
    rw [List.flatten_cons, uncut_append_iff a hmore hbegins, ih hrest, List.forall_mem_cons]

/-- The registers of a map are put together as they should be if and only if they can be. -/
theorem optimized_iff {regs : List RegInfo} (hmarked : Marked regs) (hmax : 1 ≤ maxQueryCount) :
    Optimized maxQueryCount regs (rtuQueryOptimizationForRegMap maxQueryCount regs) ↔
      Groupable maxQueryCount regs := by
  obtain ⟨gs, hflatten, hpieces, hplaced⟩ :=
    places_pieces Follows (n := max maxQueryCount 2) (by omega) regs
  have hnil := ne_nil_of_mem_pieces Follows (max maxQueryCount 2) regs
  have heq := @rtuQueryOptimizationForRegMap_eq maxQueryCount regs hmarked
  have hqueries := queries_asQuery hnil
  rw [pieces_flatten, ← heq] at hqueries
  have hisQuery : (∀ g ∈ queries regs (rtuQueryOptimizationForRegMap maxQueryCount regs),
      IsQuery maxQueryCount g) ↔ ∀ g ∈ pieces Follows (max maxQueryCount 2) regs,
        g.length ≤ maxQueryCount ∧ g.IsChain NextRegister ∧ Whole g := by
    rw [hqueries, List.forall_mem_map]
    exact forall₂_congr fun g hg =>
      isQuery_asQuery_iff (ne_of_mem_of_not_mem hg hnil)
  have hnext := isChain_flatten_placed (R := NextRegister) hplaced
  have huncut := uncut_flatten_iff hplaced
  have hcount : (∀ g ∈ pieces Follows (max maxQueryCount 2) regs, g.length ≤ maxQueryCount) ↔
      (2 ≤ maxQueryCount ∨ regs.IsChain fun a b => ¬Follows a b) := by
    by_cases hmany : 2 ≤ maxQueryCount
    · refine iff_of_true (fun g hg => ?_) (.inl hmany)
      have hle := length_le_of_mem_pieces Follows (by omega) regs g hg
      omega
    · obtain rfl : maxQueryCount = 1 := by omega
      rw [or_iff_right hmany, isChain_not_follows_iff, ← hflatten, ← hpieces]
      simp only [List.forall_mem_flatten, List.forall_mem_map, List.length_map]
      refine forall₂_congr fun g hg => ?_
      obtain ⟨a, more, rfl, ha, hmore⟩ := hplaced g hg
      cases more with
      | nil => simpa using ha
      | cons b more =>
        have hb := hmore b List.mem_cons_self
        refine iff_of_false (Nat.not_le_of_lt (by simp)) fun h => ?_
        exact hb (h b (List.mem_cons_of_mem a List.mem_cons_self))
  rw [← List.forall_mem_map (P := fun g => List.IsChain NextRegister g), hpieces, hflatten] at hnext
  rw [← List.forall_mem_map (P := Whole), hpieces, hflatten] at huncut
  constructor
  · intro h
    have hall := hisQuery.mp h.isQuery
    exact ⟨hcount.mp fun g hg => (hall g hg).1, hnext.mpr fun g hg => (hall g hg).2.1,
      huncut.mpr fun g hg => (hall g hg).2.2⟩
  · intro h
    refine ⟨?_, ?_, hisQuery.mpr fun g hg => ⟨hcount.mpr h.count g hg, hnext.mp h.next g hg,
      huncut.mp h.uncut g hg⟩, rtuQueryOptimizationForRegMap_again hmarked⟩
    · rw [heq, optimized_map_regID fun _ => rfl, pieces_flatten]
    · exact List.flatten_splitBy _ _

/-! ## The maps of a device -/

/-- A register with a value of several words. -/
def HasValue (r : RegInfo) : Prop := ∃ p ∈ r.slst, 1 < p.rnum

/-- A register with a value of several words, or with the marks of a new register. -/
def Fresh (r : RegInfo) : Prop := HasValue r ∨ (r.q_num = 0 ∧ r.q_count = 1)

/-- What holds of a register that is alone in its map. -/
def Alone (P : RegInfo → Prop) (m : RegMap) : Prop :=
  2 ≤ m.entries.length ∨ ∀ r ∈ m.entries, P r

theorem Alone.insert {P : RegInfo → Prop} {m : RegMap} {r : RegInfo}
    (h : 2 ≤ m.entries.length ∨ ((m.insert r).entries = [r] → P r)) : Alone P (m.insert r) := by
  rcases m.insert_alone r with hmany | halone
  · exact .inl hmany
  · rcases h with hmany | hr
    · have hle := m.length_le_insert r
      rw [halone] at hle
      exact absurd (Nat.le_trans hmany hle) (by simp)
    · refine .inr fun b hb => ?_
      rw [halone] at hb
      exact List.mem_singleton.mp hb ▸ hr halone

theorem addReg_cases (m : RegMap) (id : Nat) (mbreg : ModbusData) (it : Item) :
    m.find id = some (addReg m id mbreg it) ∨
      addReg m id mbreg it = ⟨it.default, mbreg, it.mbfunc, [], id, 0, 1, false, false, true⟩ := by
  unfold addReg
  cases m.find id with
  | none => exact .inr rfl
  | some r => exact .inl rfl

theorem addReg_regID (m : RegMap) (id : Nat) (mbreg : ModbusData) (it : Item) :
    (addReg m id mbreg it).regID = id := by
  rcases addReg_cases m id mbreg it with hfound | hnew
  · exact (SortedMap.mem_of_find hfound).2
  · rw [hnew]

theorem Alone.addWords {m : RegMap} (h : Alone HasValue m) (hm : m.entries ≠ []) (conf : MBConfig)
    (it : Item) (mbfunc : ModbusByte) (is : List Nat) :
    Alone HasValue (addWords conf it mbfunc is m) := by
  induction is generalizing m with
  | nil => exact h
  | cons i is ih =>
    rw [ModbusMaster.addWords]
    refine ih (.insert (h.imp_right fun hvalue halone => ?_)) (fun hnil => ?_)
    · obtain ⟨b, hb⟩ := List.exists_mem_of_ne_nil _ hm
      have hkey := SortedMap.key_eq_of_insert_eq_singleton hb halone
      have hfound := SortedMap.find_key hb
      rw [hkey, addReg_regID] at hfound
      rw [show (addReg m _ _ it) = b from by rw [addReg, hfound, Option.getD_some]]
      exact hvalue b hb
    · have hle := m.length_le_insert
        { addReg m (genRegID (it.mbreg + UInt16.ofNat i) mbfunc) (it.mbreg + UInt16.ofNat i) it with
          q_num := i + 1
          q_count := 1
          mbfunc := mbfunc
          mb_initOK := conf.defaultMBinitOK
          sm_initOK := false }
      rw [hnil] at hle
      exact hm (List.eq_nil_of_length_eq_zero (Nat.le_zero.mp hle))

theorem mem_addProp {plist : List RSProperty} (p : RSProperty) {q : RSProperty} (h : q ∈ plist) :
    q ∈ addProp plist p := by
  unfold addProp
  split_ifs
  · exact h
  · exact List.mem_append_left _ h

theorem valueWords_mem (conf : MBConfig) (it : Item) (ri : RegInfo) :
    ∃ p ∈ (initReg conf it ri).slst, p.rnum = valueWords it (initReg conf it ri) := by
  have hfound : ((addProp ri.slst it.p).find? (·.si = it.p.si)).isSome := by
    rw [List.find?_isSome]
    unfold addProp
    split_ifs with hany
    · simpa using hany
    · exact ⟨it.p, List.mem_append_right _ List.mem_cons_self, by simp⟩
  obtain ⟨p, hp⟩ := Option.isSome_iff_exists.mp hfound
  exact ⟨p, List.mem_of_find?_eq_some hp, (congrArg (fun o => (o.getD it.p).rnum) hp).symm⟩

theorem fresh_initReg {conf : MBConfig} {it : Item} {ri : RegInfo} (h : Fresh ri) :
    Fresh (initReg conf it ri) := by
  refine h.imp (fun ⟨p, hp, hnum⟩ => ⟨p, mem_addProp it.p hp, hnum⟩) fun hmarks => ?_
  unfold initReg initFlags
  split_ifs <;> exact hmarks

theorem fresh_addReg {m : RegMap} (h : ∀ r ∈ m.entries, Fresh r) (id : Nat) (mbreg : ModbusData)
    (it : Item) : Fresh (addReg m id mbreg it) := by
  rcases addReg_cases m id mbreg it with hfound | hnew
  · exact h _ (SortedMap.mem_of_find hfound).1
  · rw [hnew]
    exact .inr ⟨rfl, rfl⟩

/-- The map with the register of a sensor and the further words of its value. -/
theorem alone_words {conf : MBConfig} {it : Item} {m : RegMap} (h : Alone Fresh m) (id : Nat)
    {p1 : RegInfo} {rnum : Nat} (hp1 : p1 = initReg conf it (addReg m id it.mbreg it))
    (hrnum : rnum = valueWords it p1) (p2 : RegInfo)
    (hp2 : p2 = if 1 < rnum then { p1 with q_count := rnum, q_num := 1 } else p1) :
    Alone Fresh (addWords conf it p2.mbfunc ((List.range rnum).drop 1) (m.insert p2)) ∧
      (2 ≤ (addWords conf it p2.mbfunc ((List.range rnum).drop 1) (m.insert p2)).entries.length ∨
        Fresh p2) := by
  by_cases hvalue : 1 < rnum
  · rw [if_pos hvalue] at hp2
    have hp2value : HasValue p2 := by
      obtain ⟨p, hp, hnum⟩ := valueWords_mem conf it (addReg m id it.mbreg it)
      rw [← hp1, ← hrnum] at hnum
      exact ⟨p, by rwa [hp2, hp1], hnum ▸ hvalue⟩
    have hinsert : Alone HasValue (m.insert p2) := .insert (.inr fun _ => hp2value)
    have hne : (m.insert p2).entries ≠ [] := fun hnil => by
      rcases m.insert_alone p2 with hmany | halone
      · simp [hnil] at hmany
      · simp [hnil] at halone
    have hwords := hinsert.addWords hne conf it p2.mbfunc ((List.range rnum).drop 1)
    exact ⟨hwords.imp_right fun hall r hr => .inl (hall r hr), .inr (.inl hp2value)⟩
  · rw [if_neg hvalue] at hp2
    have hnil : (List.range rnum).drop 1 = [] := List.drop_eq_nil_of_le (by simpa using hvalue)
    rw [hnil, hp2]
    have hfresh : 2 ≤ m.entries.length ∨ Fresh p1 :=
      h.imp_right fun hall => hp1 ▸ fresh_initReg (fresh_addReg hall id it.mbreg it)
    exact ⟨.insert (hfresh.imp_right fun hp _ => hp),
      hfresh.imp_left fun hmany => Nat.le_trans hmany (m.length_le_insert p1)⟩

theorem alone_regMap {dev : RTUDevice} (hdev : ∀ d ∈ dev.pollmap, Alone Fresh d.2)
    (pollfactor : Nat) : Alone Fresh (dev.regMap pollfactor) := by
  unfold RTUDevice.regMap
  cases hlookup : dev.pollmap.lookup pollfactor with
  | none => exact .inr (by simp [SortedMap.empty])
  | some m =>
    obtain ⟨before, after, hsplit, -⟩ := List.lookup_eq_some_iff.mp hlookup
    exact hdev (pollfactor, m) (by simp [hsplit])

theorem alone_setRegMap {dev : RTUDevice} (hdev : ∀ d ∈ dev.pollmap, Alone Fresh d.2)
    (pollfactor : Nat) {m : RegMap} (hm : Alone Fresh m) :
    ∀ d ∈ (dev.setRegMap pollfactor m).pollmap, Alone Fresh d.2 :=
  List.forall_mem_cons.mpr ⟨hm, fun d hd => hdev d (List.mem_of_mem_filter hd)⟩

theorem alone_initItem {conf : MBConfig} {it : Item} {dev dev' : RTUDevice}
    (h : initItem conf it dev = some dev') (hdev : ∀ d ∈ dev.pollmap, Alone Fresh d.2) :
    ∀ d ∈ dev'.pollmap, Alone Fresh d.2 := by
  unfold initItem at h
  extract_lets rmap dev₁ rID ri p1 rnum p2 words ii at h
  have hrmap := alone_regMap hdev it.pollfactor
  have hdev₁ := alone_setRegMap hdev it.pollfactor hrmap
  obtain ⟨hwords, hp2⟩ : Alone Fresh words ∧ (2 ≤ words.entries.length ∨ Fresh p2) :=
    alone_words hrmap rID rfl rfl p2 rfl
  split_ifs at h with hchange hdup hover hconf hfunc hpre
  · cases h
    refine alone_setRegMap hdev₁ it.pollfactor (.insert (hwords.elim .inl fun hall => ?_))
    have hri : Fresh p2 → Fresh ((words.find rID).getD p2) := by
      intro hp2
      cases hfound : words.find rID with
      | none => exact hp2
      | some r => exact hall r (SortedMap.mem_of_find hfound).1
    exact hp2.imp_right fun hp2 _ => hri hp2
  · cases h
    exact alone_setRegMap hdev₁ it.pollfactor hwords

theorem alone_initItems {conf : MBConfig} {items : List Item} {dev : RTUDevice}
    (h : initItems conf items = some dev) : ∀ d ∈ dev.pollmap, Alone Fresh d.2 := by
  have hrun : ∀ (items : List Item) (dev₀ : RTUDevice), (∀ d ∈ dev₀.pollmap, Alone Fresh d.2) →
      items.foldlM (fun dev it => initItem conf it dev) dev₀ = some dev →
      ∀ d ∈ dev.pollmap, Alone Fresh d.2 := by
    intro items
    induction items with
    | nil =>
      intro dev₀ hdev₀ h
      cases h
      exact hdev₀
    | cons it items ih =>
      intro dev₀ hdev₀ h
      obtain ⟨dev₁, hitem, hitems⟩ := Option.bind_eq_some_iff.mp h
      exact ih dev₁ (alone_initItem hitem hdev₀) hitems
  exact hrun items ⟨[], []⟩ (by simp) h

/-- The registers of each map that a device is configured with are put together as they should be if
and only if they can be. -/
theorem initItems_optimized_iff {conf : MBConfig} {items : List Item} {dev : RTUDevice}
    (h : initItems conf items = some dev) (hmax : 1 ≤ maxQueryCount) (pollfactor : Nat) :
    Optimized maxQueryCount (dev.regMap pollfactor).entries
        (rtuQueryOptimizationForRegMap maxQueryCount (dev.regMap pollfactor).entries) ↔
      Groupable maxQueryCount (dev.regMap pollfactor).entries := by
  rcases alone_regMap (alone_initItems h) pollfactor with hmany | hall
  · exact optimized_iff (.inl hmany) hmax
  · by_cases hmarked : Marked (dev.regMap pollfactor).entries
    · exact optimized_iff hmarked hmax
    · obtain ⟨hshort, hmarks⟩ := not_or.mp hmarked
      push Not at hmarks
      obtain ⟨r, hr, hmarks⟩ := hmarks
      obtain ⟨p, hp, hnum⟩ := (hall r hr).resolve_right fun hfresh => hmarks hfresh.1 hfresh.2
      have halone : (dev.regMap pollfactor).entries = [r] := by
        obtain ⟨b, hb⟩ := List.length_eq_one_iff.mp
          (Nat.le_antisymm (Nat.le_of_lt_succ (Nat.lt_of_not_le hshort)) (List.length_pos_of_mem hr))
        rw [hb] at hr ⊢
        rw [List.mem_singleton.mp hr]
      rw [halone]
      refine iff_of_false (fun hopt => ?_) fun hgroup => ?_
      · have hwhole := (hopt.isQuery [(r, r)] List.mem_cons_self).whole
        exact absurd (hwhole.1 p hp) (Nat.not_le_of_lt hnum)
      · exact absurd (hgroup.uncut.1 p hp) (Nat.not_le_of_lt hnum)

/-- The settings of a sensor for one register that is read. -/
def readItem (id : ObjectId) (mbreg : ModbusData) : Item :=
  { p := ⟨⟨id, 0⟩, none, .vtUnknown, 1, 0, 0, 0⟩
    mbreg := mbreg
    mbfunc := fnReadOutputRegisters.code
    pollfactor := 0
    default := 0
    sm_initOK := false
    init_mbval_changed := none
    preinit := false
    init_mbreg := none
    init_mbfunc := none }

theorem initItems_optimized_three :
    ∃ dev, initItems ⟨true, false⟩ [readItem 10 1, readItem 11 2, readItem 12 3] = some dev ∧
      (Optimized 2 (dev.regMap 0).entries
          (rtuQueryOptimizationForRegMap 2 (dev.regMap 0).entries) ↔
        Groupable 2 (dev.regMap 0).entries) :=
  ⟨_, rfl, @initItems_optimized_iff _ ⟨true, false⟩
    [readItem 10 1, readItem 11 2, readItem 12 3] _ rfl (by decide) 0⟩

/-- Queries for one register at most get two. -/
theorem not_optimized_two :
    ∃ dev, initItems ⟨true, false⟩ [readItem 10 1, readItem 11 2] = some dev ∧
      ¬Optimized 1 (dev.regMap 0).entries
        (rtuQueryOptimizationForRegMap 1 (dev.regMap 0).entries) := by
  refine ⟨_, rfl, fun h => ?_⟩
  have hcount := fun g hg => (h.isQuery g hg).count_le
  revert hcount
  decide

end Uniset.ModbusMaster
