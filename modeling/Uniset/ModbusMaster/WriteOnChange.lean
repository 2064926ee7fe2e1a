import Uniset.ModbusMaster.MBExchange

/-! Registers that are written when their values change, while these go on changing. -/

namespace Uniset.ModbusMaster

open Uniset.Lib Uniset.Modbus ExchangeMode SlaveFunctionCode
open MBExchange (words length_words getD_words setWords_mbval setWords_flags)

/-- What the device knows of a register since it changed last. -/
inductive Status
  | unwritten
  | changed
  | acknowledged
  deriving DecidableEq

/-- Where the thread that polls is: before a register whose mark is tested, or is to be written;
before a query is sent; or before the mark is taken away, after an answer. -/
inductive PollPc
  | test (it : Nat)
  | build (it : Nat)
  | send (it : Nat) (msg : List ModbusData)
  | clear (it : Nat) (msg : List ModbusData)

structure Writing where
  regs : Nat → RegInfo
  pc : PollPc
  status : Nat → Status

/-- Which registers a value has, from its first one on; each register is of one value. -/
structure Layout where
  first : Nat → Nat
  wsize : Nat → Nat
  first_le : ∀ k, first k ≤ k
  lt_first : ∀ k, k < first k + wsize (first k)
  first_words : ∀ f i, i < wsize f → first (f + i) = f

inductive WriteStep
  | poll (enabled ok goesOn : Bool)
  | update (f : Nat) (v : Nat → ModbusData)
  | unavailable (k : Nat)

/-- What an answer says of a register in the query. -/
def acknowledge (regs : Nat → RegInfo) (it : Nat) (msg : List ModbusData) (status : Nat → Status)
    (k : Nat) : Status :=
  if it ≤ k ∧ k < it + msg.length ∧ dataOf (regs it).mbfunc (regs k) = msg.getD (k - it) 0 then
    .acknowledged
  else status k

/-- The thread that polls goes on; `enabled` is whether the modes let it, `ok` whether there is an
answer, and `goesOn` whether the pass does after an error. -/
def pollStep (size : Nat) (s : Writing) (enabled ok goesOn : Bool) : Writing :=
  match s.pc with
  | .test it =>
    if size ≤ it then { s with pc := .test 0 }
    else if (s.regs it).mbval_changed then { s with pc := .build it }
    else { s with pc := .test (it + 1) }
  | .build it =>
    if !enabled then { s with pc := .test (it + 1) }
    else
      match ask emNone emNone s.regs it with
      | .inr (.write _ _ msg) => { s with pc := .send it msg, regs := clearRest s.regs it }
      | _ => { s with pc := .test (it + 1) }
  | .send it msg =>
    if ok then { s with pc := .clear it msg, status := acknowledge s.regs it msg s.status }
    else { s with pc := .test (if goesOn then it + (s.regs it).q_count else size) }
  | .clear it _ =>
    { s with pc := .test (it + (s.regs it).q_count), regs := clearFirst s.regs it }

/-- The words of a value, and the registers that change with it. -/
def updateStep (L : Layout) (s : Writing) (f : Nat) (v : Nat → ModbusData) : Writing :=
  { s with
    regs := setWords s.regs f (words v f (L.wsize f))
    status := fun k =>
      if f ≤ k ∧ k < f + L.wsize f ∧ v k ≠ (s.regs k).mbval then .changed else s.status k }

def writeStep (L : Layout) (size : Nat) (s : Writing) : WriteStep → Writing
  | .poll enabled ok goesOn => pollStep size s enabled ok goesOn
  | .update f v => updateStep L s f v
  | .unavailable k => { s with regs := Function.update s.regs k { s.regs k with sm_initOK := false } }

/-- No change is lost: where the first register of a value has no mark, the device has acknowledged
the changes of all its registers; and no register is sent that it has acknowledged. -/
structure NoLoss (L : Layout) (s : Writing) : Prop where
  kept : ∀ k, (s.regs (L.first k)).mbval_changed = false → s.status k ≠ .changed
  needed : ∀ it msg, s.pc = .send it msg →
    ∀ k, it ≤ k → k < it + msg.length → s.status k ≠ .acknowledged

/-- A register is in the query that has been made and is not done with. -/
def InFlight (s : Writing) (k : Nat) : Prop :=
  match s.pc with
  | .test _ => False
  | .build _ => False
  | .send it _ => it ≤ k ∧ k < it + (s.regs it).q_count
  | .clear it _ => it ≤ k ∧ k < it + (s.regs it).q_count

/-- A query takes the registers of a value together, has room for its registers, does not have the
function that keeps the marks, and has no other value in it that has been changed or written. -/
structure Sendable (L : Layout) (s : Writing) (it : Nat) : Prop where
  whole : ∀ k, it ≤ k ∧ k < it + (s.regs it).q_count ↔
    it ≤ L.first k ∧ L.first k < it + (s.regs it).q_count
  room : (dataFrom s.regs it).length = (s.regs it).q_count
  function : (s.regs it).mbfunc ≠ fnForceMultipleCoils.code
  alone : ∀ k, it ≤ k → k < it + (s.regs it).q_count → L.first k ≠ it → s.status k = .unwritten

/-- No register changes while it is in a query that is being sent, and a value that is acknowledged
changes in all of its registers. -/
def Steady (L : Layout) (s : Writing) : WriteStep → Prop
  | .poll enabled _ _ => ∀ it, s.pc = .build it → enabled = true →
      (∃ q, ask emNone emNone s.regs it = .inr q) → Sendable L s it
  | .update f v => (∀ k, f ≤ k → k < f + L.wsize f → InFlight s k → v k = (s.regs k).mbval) ∧
      (s.status f = .acknowledged → ∀ j k, f ≤ j → j < f + L.wsize f → f ≤ k → k < f + L.wsize f →
        v j ≠ (s.regs j).mbval → v k ≠ (s.regs k).mbval)
  | .unavailable _ => True

variable {L : Layout} {s : Writing} {it : Nat} {msg : List ModbusData}

/-- A query that has been made, of whole values, has what the registers have. -/
structure InQuery (L : Layout) (regs : Nat → RegInfo) (it : Nat) (msg : List ModbusData) : Prop where
  mark : (regs it).mbval_changed = true
  whole : ∀ k, it ≤ k ∧ k < it + (regs it).q_count ↔
    it ≤ L.first k ∧ L.first k < it + (regs it).q_count
  length : msg.length = (regs it).q_count
  pos : 0 < (regs it).q_count
  function : (regs it).mbfunc ≠ fnForceMultipleCoils.code
  same : ∀ k, it ≤ k → k < it + (regs it).q_count →
    dataOf (regs it).mbfunc (regs k) = msg.getD (k - it) 0
  rest : ∀ k, it ≤ k → k < it + (regs it).q_count → k ≠ it → (regs k).mbval_changed = false

def PcInv (L : Layout) (s : Writing) : Prop :=
  match s.pc with
  | .test _ => True
  | .build it => (s.regs it).mbval_changed = true
  | .send it msg => InQuery L s.regs it msg ∧
      ∀ k, it ≤ k → k < it + (s.regs it).q_count → s.status k ≠ .acknowledged
  | .clear it msg => InQuery L s.regs it msg ∧
      ∀ k, it ≤ k → k < it + (s.regs it).q_count → s.status k = .acknowledged

/-- A register with a mark is one whose query has just been answered, or its value has changes, or
nothing of it has been acknowledged yet; the registers of a value are acknowledged together. -/
structure WriteInv (L : Layout) (s : Writing) : Prop where
  kept : ∀ k, (s.regs (L.first k)).mbval_changed = false → s.status k ≠ .changed
  marked : ∀ k, (s.regs k).mbval_changed = true → (∃ msg, s.pc = .clear k msg) ∨
    ∃ j, (j = k ∨ L.first j = k) ∧ s.status j ≠ .acknowledged
  together : ∀ k, s.status k = .acknowledged ↔ s.status (L.first k) = .acknowledged
  pc : PcInv L s

theorem InQuery.first_it (h : InQuery L s.regs it msg) : L.first it = it :=
  Nat.le_antisymm (L.first_le it) ((h.whole it).mp ⟨le_rfl, Nat.lt_add_of_pos_right h.pos⟩).1

theorem Layout.first_first (L : Layout) (k : Nat) : L.first (L.first k) = L.first k :=
  L.first_words (L.first k) 0 (by have hlt := L.lt_first k; have hle := L.first_le k; omega)

theorem WriteInv.nothing_lost (h : WriteInv L s) : NoLoss L s := by
  refine ⟨h.kept, fun it msg hpc k hle hlt => ?_⟩
  have hinv := h.pc
  unfold PcInv at hinv
  rw [hpc] at hinv
  exact hinv.2 k hle (hinv.1.length ▸ hlt)

/-- What is marked before a query is made has not been acknowledged. -/
theorem WriteInv.status_build (h : WriteInv L s) (hpc : s.pc = .build it)
    (hsend : Sendable L s it) {k : Nat} (hle : it ≤ k) (hlt : k < it + (s.regs it).q_count) :
    s.status k ≠ .acknowledged := by
  have hmark : (s.regs it).mbval_changed = true := by
    have hinv := h.pc
    unfold PcInv at hinv
    rwa [hpc] at hinv
  have hfirst : L.first it = it :=
    Nat.le_antisymm (L.first_le it) ((hsend.whole it).mp ⟨le_rfl, hle.trans_lt hlt⟩).1
  by_cases hk : L.first k = it
  · rcases h.marked it hmark with ⟨msg, hclear⟩ | ⟨j, hj, hstatus⟩
    · cases hpc.symm.trans hclear
    · have hj' : L.first j = it := hj.elim (fun heq => heq ▸ hfirst) id
      rwa [Ne, h.together, hj', ← hk, ← h.together] at hstatus
  · rw [hsend.alone k hle hlt hk]
    nofun

/-! ## The steps of the thread that polls -/

/-- The thread is somewhere where nothing is in flight. -/
theorem WriteInv.of_test (h : WriteInv L s) (hpc : ∀ k msg, s.pc ≠ .clear k msg) {pc : PollPc}
    (hpc' : PcInv L { s with pc := pc }) : WriteInv L { s with pc := pc } :=
  ⟨h.kept, fun k hk => .inr ((h.marked k hk).resolve_left fun ⟨msg, hclear⟩ => hpc k msg hclear),
    h.together, hpc'⟩

theorem clearRest_other {regs : Nat → RegInfo} {k : Nat} :
    clearRest regs it k = { regs k with mbval_changed := (clearRest regs it k).mbval_changed } ∧
      ((clearRest regs it k).mbval_changed = true → (regs k).mbval_changed = true) := by
  unfold clearRest
  split_ifs
  · exact ⟨rfl, nofun⟩
  · exact ⟨rfl, id⟩

theorem clearRest_it {regs : Nat → RegInfo} : clearRest regs it it = regs it :=
  if_neg fun h => lt_irrefl it h.2.1

theorem dataOf_congr (mbfunc : ModbusByte) {r r' : RegInfo} (h : r.mbval = r'.mbval) :
    dataOf mbfunc r = dataOf mbfunc r' := by
  unfold dataOf
  rw [h]

/-- A query with registers after its first one has a function that writes them all. -/
theorem ask_several {exchangeMode mode : ExchangeMode} {regs : Nat → RegInfo} {mbfunc : ModbusByte}
    {mbreg : ModbusData} (hask : ask exchangeMode mode regs it = .inr (.write mbfunc mbreg msg)) :
    0 < (regs it).q_count ∧ (1 < (regs it).q_count → (regs it).mbfunc ≠ fnForceMultipleCoils.code →
      (regs it).mbfunc = fnWriteOutputRegisters.code) := by
  unfold ask at hask
  dsimp only at hask
  split_ifs at hask with hskip henabled hcount hread hwrite hsingle hinit
  · cases hask
  · refine ⟨Nat.pos_of_ne_zero hcount, fun hmany hcoils => ?_⟩
    have hnot : isWriteSingle (regs it).mbfunc ≠ true := fun h => hsingle ⟨h, by omega⟩
    simp only [isWriteSingle, isWriteFunction, decide_eq_true_eq, ne_eq, not_or] at hnot hwrite
    tauto

theorem WriteInv.build (h : WriteInv L s) (hpc : s.pc = .build it) {mbfunc : ModbusByte}
    {mbreg : ModbusData} (hask : ask emNone emNone s.regs it = .inr (.write mbfunc mbreg msg))
    (hsend : Sendable L s it) :
    WriteInv L { s with pc := .send it msg, regs := clearRest s.regs it } := by
  have hmark : (s.regs it).mbval_changed = true := by
    have hinv := h.pc
    unfold PcInv at hinv
    rwa [hpc] at hinv
  obtain ⟨hpos, hseveral⟩ := ask_several hask
  obtain rfl : msg = dataFrom s.regs it := by
    obtain ⟨-, -, ⟨-, hq⟩ | ⟨-, -, hq⟩⟩ := ask_eq_inr hask
    · cases hq
    · cases hq
      rfl
  refine ⟨fun k hk => ?_, fun k hk => ?_, h.together, ⟨?_, ?_, ?_, ?_, ?_, fun k hle hlt => ?_,
    fun k hle hlt hne => ?_⟩, fun k hle hlt => ?_⟩
  · dsimp only at hk
    unfold clearRest at hk
    split_ifs at hk with hin
    · obtain ⟨hle, hlt⟩ := (hsend.whole k).mpr ⟨hin.2.1.le, hin.2.2⟩
      rw [hsend.alone k hle hlt hin.2.1.ne']
      nofun
    · exact h.kept k hk
  · refine .inr ((h.marked k (clearRest_other.2 hk)).resolve_left fun ⟨msg', hclear⟩ => ?_)
    cases hpc.symm.trans hclear
  · dsimp only
    rw [clearRest_it]
    exact hmark
  · dsimp only
    rw [clearRest_it]
    exact hsend.whole
  · dsimp only
    rw [clearRest_it]
    exact hsend.room
  · dsimp only
    rw [clearRest_it]
    exact hpos
  · dsimp only
    rw [clearRest_it]
    exact hsend.function
  · dsimp only at hlt ⊢
    rw [clearRest_it] at hlt ⊢
    have hplace : k - it < (dataFrom s.regs it).length := by
      rw [hsend.room]
      omega
    have hget : (dataFrom s.regs it)[k - it]? = some ((dataFrom s.regs it).getD (k - it) 0) := by
      rw [List.getD_eq_getElem?_getD, List.getElem?_eq_getElem hplace]
      rfl
    rw [dataFrom_get hget, Nat.add_sub_cancel' hle]
    refine dataOf_congr _ ?_
    rw [clearRest_other.1]
  · dsimp only at hlt
    rw [clearRest_it] at hlt
    have hafter : it < k := lt_of_le_of_ne hle hne.symm
    have hclears : clearRest s.regs it k = { s.regs k with mbval_changed := false } :=
      if_pos ⟨hseveral (by omega) hsend.function, hafter, hlt⟩
    dsimp only
    rw [hclears]
  · dsimp only at hlt
    rw [clearRest_it] at hlt
    exact h.status_build hpc hsend hle hlt

theorem WriteInv.answered (h : WriteInv L s) (hpc : s.pc = .send it msg) :
    WriteInv L { s with pc := .clear it msg, status := acknowledge s.regs it msg s.status } := by
  have hquery : InQuery L s.regs it msg := by
    have hinv := h.pc
    unfold PcInv at hinv
    rw [hpc] at hinv
    exact hinv.1
  have hknown : ∀ k, acknowledge s.regs it msg s.status k =
      if it ≤ k ∧ k < it + (s.regs it).q_count then .acknowledged else s.status k := fun k => by
    unfold acknowledge
    rw [hquery.length]
    split_ifs with hack hin hin
    · rfl
    · exact absurd ⟨hack.1, hack.2.1⟩ hin
    · exact absurd ⟨hin.1, hin.2, hquery.same k hin.1 hin.2⟩ hack
    · rfl
  refine ⟨fun k hk => ?_, fun k hk => ?_, fun k => ?_, hquery, fun k hle hlt => ?_⟩
  · dsimp only
    rw [hknown]
    split_ifs
    · nofun
    · exact h.kept k hk
  · by_cases hit : k = it
    · exact .inl ⟨msg, by rw [hit]⟩
    · rcases h.marked k hk with ⟨msg', hclear⟩ | ⟨j, hj, hstatus⟩
      · cases hpc.symm.trans hclear
      · refine .inr ⟨j, hj, ?_⟩
        dsimp only
        rw [hknown, if_neg]
        · exact hstatus
        · intro hin
          have hk' : it ≤ k ∧ k < it + (s.regs it).q_count := by
            rcases hj with rfl | hfirst
            · exact hin
            · rw [← hfirst, ← hquery.whole]
              exact hin
          have hclean := hquery.rest k hk'.1 hk'.2 hit
          cases hclean.symm.trans hk
  · dsimp only
    simp only [hknown, ← hquery.whole k]
    split_ifs
    · exact Iff.rfl
    · exact h.together k
  · dsimp only
    rw [hknown, if_pos ⟨hle, hlt⟩]

theorem WriteInv.cleared (h : WriteInv L s) (hpc : s.pc = .clear it msg) {pc : PollPc}
    (hpc' : ∃ j, pc = .test j) : WriteInv L { s with pc := pc, regs := clearFirst s.regs it } := by
  have hinv := h.pc
  unfold PcInv at hinv
  rw [hpc] at hinv
  obtain ⟨hquery, hacked⟩ := hinv
  obtain ⟨j, rfl⟩ := hpc'
  refine ⟨fun k hk => ?_, fun k hk => ?_, h.together, trivial⟩
  · by_cases hfirst : L.first k = it
    · have hin := (hquery.whole k).mpr (by
        rw [hfirst]
        exact ⟨le_rfl, Nat.lt_add_of_pos_right hquery.pos⟩)
      rw [hacked k hin.1 hin.2]
      nofun
    · have hsame : clearFirst s.regs it (L.first k) = s.regs (L.first k) :=
        if_neg fun h => hfirst h.2
      dsimp only at hk
      rw [hsame] at hk
      exact h.kept k hk
  · have hne : k ≠ it := fun heq => by
      have hclears : clearFirst s.regs it k = { s.regs k with mbval_changed := false } :=
        if_pos ⟨hquery.function, heq⟩
      dsimp only at hk
      rw [hclears] at hk
      cases hk
    have hsame : clearFirst s.regs it k = s.regs k := if_neg fun h => hne h.2
    dsimp only at hk
    rw [hsame] at hk
    refine .inr ((h.marked k hk).resolve_left fun ⟨msg', hclear⟩ => hne ?_)
    cases hpc.symm.trans hclear
    rfl

theorem WriteInv.poll (h : WriteInv L s) (size : Nat) (enabled ok goesOn : Bool)
    (hsteady : Steady L s (.poll enabled ok goesOn)) :
    WriteInv L (pollStep size s enabled ok goesOn) := by
  unfold pollStep
  cases hpc : s.pc with
  | test it =>
    have hnot : ∀ k msg, s.pc ≠ .clear k msg := fun k msg hclear => by cases hpc.symm.trans hclear
    dsimp only
    split_ifs with hend hmark
    · exact h.of_test hnot trivial
    · exact h.of_test hnot hmark
    · exact h.of_test hnot trivial
  | build it =>
    have hnot : ∀ k msg, s.pc ≠ .clear k msg := fun k msg hclear => by cases hpc.symm.trans hclear
    dsimp only
    split_ifs with hdisabled
    · exact h.of_test hnot trivial
    · cases hask : ask emNone emNone s.regs it with
      | inl b => exact h.of_test hnot trivial
      | inr q =>
        cases q with
        | read mbfunc mbreg count => exact h.of_test hnot trivial
        | write mbfunc mbreg msg =>
          exact h.build hpc hask (hsteady it hpc (by simpa using hdisabled) ⟨_, hask⟩)
  | send it msg =>
    dsimp only
    split_ifs with hok
    · exact h.answered hpc
    all_goals exact h.of_test (fun k msg hclear => by cases hpc.symm.trans hclear) trivial
  | clear it msg => exact h.cleared hpc ⟨_, rfl⟩

/-! ## A value changes -/

/-- The marks after a value has changed. -/
theorem setWords_changed (regs : Nat → RegInfo) (f n : Nat) (v : Nat → ModbusData) (k : Nat) :
    (setWords regs f (words v f n) k).mbval_changed = true ↔
      ((regs k).mbval_changed = true ∨ (f ≤ k ∧ k < f + n ∧ v k ≠ (regs k).mbval)) ∨
        k = f ∧ ∃ i < n, (regs (f + i)).mbval_changed = true ∨ v (f + i) ≠ (regs (f + i)).mbval := by
  have hset : ∀ j, (putWords regs f (words v f n) RegInfo.setMBVal j).mbval_changed =
      ((regs j).mbval_changed || (decide (f ≤ j ∧ j < f + n) && decide (v j ≠ (regs j).mbval))) :=
    fun j => by
      unfold putWords
      rw [length_words]
      by_cases hj : f ≤ j ∧ j < f + n
      · rw [if_pos hj, getD_words v hj.1 hj.2]
        simp [RegInfo.setMBVal, hj, ne_comm]
      · rw [if_neg hj]
        simp [hj]
  by_cases hk : k = f
  · subst hk
    simp only [setWords, Function.update_self, hset, length_words, Bool.or_eq_true,
      List.any_eq_true, List.mem_range, Bool.and_eq_true, decide_eq_true_eq, true_and, and_assoc]
    refine or_congr_right (exists_congr fun i => and_congr_right fun hi => or_congr_right ?_)
    simp [hi]
  · simp only [setWords, Function.update_of_ne hk, hset, hk, Bool.or_eq_true, Bool.and_eq_true,
      decide_eq_true_eq, false_and, or_false, and_assoc]

theorem InQuery.unchanged {regs regs' : Nat → RegInfo} (h : InQuery L regs it msg)
    (hflags : ∀ k, (regs' k).q_count = (regs k).q_count ∧ (regs' k).mbfunc = (regs k).mbfunc)
    (hmark : (regs' it).mbval_changed = true)
    (hsame : ∀ k, it ≤ k → k < it + (regs it).q_count → (regs' k).mbval = (regs k).mbval ∧
      (k ≠ it → (regs' k).mbval_changed = (regs k).mbval_changed)) :
    InQuery L regs' it msg := by
  obtain ⟨hcount, hfunc⟩ := hflags it
  refine ⟨hmark, ?_, ?_, ?_, ?_, fun k hle hlt => ?_, fun k hle hlt hne => ?_⟩
  · rw [hcount]
    exact h.whole
  · rw [hcount]
    exact h.length
  · rw [hcount]
    exact h.pos
  · rw [hfunc]
    exact h.function
  · rw [hcount] at hlt
    rw [hfunc, ← h.same k hle hlt]
    exact dataOf_congr _ (hsame k hle hlt).1
  · rw [hcount] at hlt
    rw [(hsame k hle hlt).2 hne]
    exact h.rest k hle hlt hne

/-- A query that is in flight is not touched by a change of another value. -/
theorem InQuery.update {f : Nat} {v : Nat → ModbusData} (h : InQuery L s.regs it msg)
    (hsteady : ∀ k, f ≤ k → k < f + L.wsize f → it ≤ k → k < it + (s.regs it).q_count →
      v k = (s.regs k).mbval) :
    InQuery L (setWords s.regs f (words v f (L.wsize f))) it msg ∧
      ∀ k, it ≤ k → k < it + (s.regs it).q_count →
        ¬(f ≤ k ∧ k < f + L.wsize f ∧ v k ≠ (s.regs k).mbval) := by
  have hnone : ∀ k, it ≤ k → k < it + (s.regs it).q_count →
      ¬(f ≤ k ∧ k < f + L.wsize f ∧ v k ≠ (s.regs k).mbval) :=
    fun k hle hlt hin => hin.2.2 (hsteady k hin.1 hin.2.1 hle hlt)
  refine ⟨h.unchanged (fun k => ?_) ?_ (fun k hle hlt => ⟨?_, fun hne => ?_⟩), hnone⟩
  · obtain ⟨hcount, hfunc, -⟩ := setWords_flags s.regs f (words v f (L.wsize f)) k
    exact ⟨hcount, hfunc⟩
  · exact (setWords_changed ..).mpr (.inl (.inl h.mark))
  · rw [setWords_mbval, length_words]
    split_ifs with hin
    · rw [getD_words v hin.1 hin.2]
      exact hsteady k hin.1 hin.2 hle hlt
    · rfl
  · rw [h.rest k hle hlt hne, ← Bool.not_eq_true, setWords_changed]
    rintro ((hmark | hin) | ⟨rfl, i, hi, hword⟩)
    · cases (h.rest k hle hlt hne).symm.trans hmark
    · exact hnone k hle hlt hin
    · -- the words of a value that begins in the query are all in it
      have hfirst := L.first_words k i hi
      obtain ⟨hle', hlt'⟩ := (h.whole (k + i)).mpr (by rw [hfirst]; exact ⟨hle, hlt⟩)
      have hne' : k + i ≠ it := fun heq => hne (by rw [← hfirst, heq, h.first_it])
      rcases hword with hmark | hvalue
      · cases (h.rest (k + i) hle' hlt' hne').symm.trans hmark
      · exact hnone (k + i) hle' hlt' ⟨Nat.le_add_right k i, Nat.add_lt_add_left hi k, hvalue⟩

theorem Layout.first_eq_iff (hf : 0 < L.wsize f) (k : Nat) :
    L.first k = f ↔ f ≤ k ∧ k < f + L.wsize f := by
  constructor
  · rintro rfl
    exact ⟨L.first_le k, L.lt_first k⟩
  · rintro ⟨hle, hlt⟩
    obtain ⟨i, rfl⟩ := Nat.exists_eq_add_of_le hle
    exact L.first_words f i (Nat.lt_of_add_lt_add_left hlt)

/-- The registers of a value that is acknowledged change together. -/
theorem WriteInv.together_update (h : WriteInv L s) {f : Nat} {v : Nat → ModbusData}
    (hsteady : Steady L s (.update f v)) (k : Nat) :
    (updateStep L s f v).status k = .acknowledged ↔
      (updateStep L s f v).status (L.first k) = .acknowledged := by
  have hstatus : ∀ j, (updateStep L s f v).status j = .acknowledged ↔
      s.status j = .acknowledged ∧ ¬(f ≤ j ∧ j < f + L.wsize f ∧ v j ≠ (s.regs j).mbval) := fun j => by
    dsimp only [updateStep]
    split_ifs with hin
    · exact iff_of_false nofun fun h => h.2 hin
    · exact (and_iff_left hin).symm
  rw [hstatus, hstatus, ← h.together]
  refine and_congr_right fun hack => not_congr ?_
  by_cases hf : 0 < L.wsize f
  · rw [← and_assoc, ← and_assoc, ← Layout.first_eq_iff hf, ← Layout.first_eq_iff hf, L.first_first]
    refine and_congr_right fun hk => ?_
    have hfirst := (Layout.first_eq_iff hf f).mp (L.first_words f 0 hf)
    obtain ⟨hle, hlt⟩ := (Layout.first_eq_iff hf k).mp hk
    rw [h.together, hk] at hack
    rw [hk]
    exact ⟨hsteady.2 hack k f hle hlt hfirst.1 hfirst.2, hsteady.2 hack f k hfirst.1 hfirst.2 hle hlt⟩
  · exact iff_of_false (by omega) (by omega)

theorem WriteInv.update (h : WriteInv L s) {f : Nat} {v : Nat → ModbusData}
    (hsteady : Steady L s (.update f v)) : WriteInv L (updateStep L s f v) := by
  have hchanged : ∀ k, f ≤ k ∧ k < f + L.wsize f ∧ v k ≠ (s.regs k).mbval →
      (updateStep L s f v).status k = .changed := fun k hin => if_pos hin
  have hknown : ∀ j, s.status j ≠ .acknowledged →
      (updateStep L s f v).status j ≠ .acknowledged := fun j hj => by
    dsimp only [updateStep]
    split_ifs
    · nofun
    · exact hj
  have hwords : ∀ i < L.wsize f, v (f + i) ≠ (s.regs (f + i)).mbval →
      f ≤ f + i ∧ f + i < f + L.wsize f ∧ v (f + i) ≠ (s.regs (f + i)).mbval := fun i hi hv =>
    ⟨Nat.le_add_right f i, Nat.add_lt_add_left hi f, hv⟩
  refine ⟨fun k hk => ?_, fun k hk => ?_, h.together_update hsteady, ?_⟩
  · have hunmarked := mt (setWords_changed s.regs f (L.wsize f) v (L.first k)).mpr
      (Bool.not_eq_true _ ▸ hk)
    obtain ⟨hold, hvalue⟩ := not_or.mp hunmarked
    have hnot : ¬(f ≤ k ∧ k < f + L.wsize f ∧ v k ≠ (s.regs k).mbval) := fun hin => by
      obtain ⟨i, rfl⟩ := Nat.exists_eq_add_of_le hin.1
      have hi : i < L.wsize f := Nat.lt_of_add_lt_add_left hin.2.1
      exact hvalue ⟨L.first_words f i hi, i, hi, .inr hin.2.2⟩
    have hsame : (updateStep L s f v).status k = s.status k := if_neg hnot
    rw [hsame]
    exact h.kept k (by simpa using (not_or.mp hold).1)
  · rcases (setWords_changed s.regs f (L.wsize f) v k).mp hk with (hmark | hin) | ⟨rfl, i, hi, hword⟩
    · exact (h.marked k hmark).imp_right fun ⟨j, hj, hstatus⟩ => ⟨j, hj, hknown j hstatus⟩
    · exact .inr ⟨k, .inl rfl, by rw [hchanged k hin]; nofun⟩
    · have hfirst := L.first_words k i hi
      rcases hword with hmark | hvalue
      · rcases h.marked (k + i) hmark with ⟨msg, hclear⟩ | ⟨j, hj, hstatus⟩
        · have hquery : InQuery L s.regs (k + i) msg := by
            have hinv := h.pc
            unfold PcInv at hinv
            rw [hclear] at hinv
            exact hinv.1
          have hplace : k + i = k := hquery.first_it.symm.trans hfirst
          exact .inl ⟨msg, by rw [← hplace]; exact hclear⟩
        · refine .inr ⟨j, .inr ?_, hknown j hstatus⟩
          rcases hj with rfl | hj
          · exact hfirst
          · have hplace := L.first_first j
            rw [hj, hfirst] at hplace
            exact hj.trans hplace.symm
      · exact .inr ⟨k + i, .inr hfirst, by rw [hchanged _ (hwords i hi hvalue)]; nofun⟩
  · have hinv := h.pc
    unfold PcInv updateStep
    unfold PcInv at hinv
    have hquiet := hsteady.1
    unfold InFlight at hquiet
    cases hpc : s.pc with
    | test it => trivial
    | build it =>
      rw [hpc] at hinv
      exact (setWords_changed ..).mpr (.inl (.inl hinv))
    | send it msg =>
      rw [hpc] at hinv hquiet
      refine ⟨(hinv.1.update fun k hle hlt h₁ h₂ => hquiet k hle hlt ⟨h₁, h₂⟩).1,
        fun k hle hlt => hknown k (hinv.2 k hle ?_)⟩
      rwa [(setWords_flags s.regs f _ it).1] at hlt
    | clear it msg =>
      rw [hpc] at hinv hquiet
      obtain ⟨hquery, hnone⟩ := hinv.1.update fun k hle hlt h₁ h₂ => hquiet k hle hlt ⟨h₁, h₂⟩
      refine ⟨hquery, fun k hle hlt => ?_⟩
      dsimp only at hlt ⊢
      rw [(setWords_flags s.regs f _ it).1] at hlt
      rw [if_neg (hnone k hle hlt)]
      exact hinv.2 k hle hlt

/-! ## Whole runs -/

theorem WriteInv.step {step : WriteStep} (h : WriteInv L s) (size : Nat) (hsteady : Steady L s step) :
    WriteInv L (writeStep L size s step) := by
  cases step with
  | poll enabled ok goesOn => exact h.poll size enabled ok goesOn hsteady
  | update f v => exact h.update hsteady
  | unavailable k =>
    have hregs : ∀ j, (writeStep L size s (.unavailable k)).regs j =
        { s.regs j with sm_initOK := ((writeStep L size s (.unavailable k)).regs j).sm_initOK } :=
      fun j => by
        by_cases hj : j = k
        · subst hj
          simp [writeStep]
        · simp [writeStep, hj]
    refine ⟨fun j hj => ?_, fun j hj => ?_, h.together, ?_⟩
    · rw [hregs] at hj
      exact h.kept j hj
    · rw [hregs] at hj
      exact h.marked j hj
    · have hkeeps : ∀ it msg, InQuery L s.regs it msg →
          InQuery L (writeStep L size s (.unavailable k)).regs it msg := fun it msg hquery => by
        refine hquery.unchanged (fun j => ?_) ?_ fun j _ _ => ?_
        · rw [hregs]
          exact ⟨rfl, rfl⟩
        · rw [hregs]
          exact hquery.mark
        · rw [hregs]
          exact ⟨rfl, fun _ => rfl⟩
      have hinv := h.pc
      unfold PcInv at hinv ⊢
      change (match s.pc with | .test _ => _ | .build _ => _ | .send _ _ => _ | .clear _ _ => _)
      cases hpc : s.pc with
      | test it => trivial
      | build it =>
        rw [hpc] at hinv
        dsimp only
        rw [hregs]
        exact hinv
      | send it msg =>
        rw [hpc] at hinv
        refine ⟨hkeeps it msg hinv.1, fun j hle hlt => hinv.2 j hle ?_⟩
        rwa [hregs] at hlt
      | clear it msg =>
        rw [hpc] at hinv
        refine ⟨hkeeps it msg hinv.1, fun j hle hlt => hinv.2 j hle ?_⟩
        rwa [hregs] at hlt

/-- In every run in which no register changes while it is being sent no change is lost. -/
theorem noLoss {size : Nat} {regs : Nat → RegInfo} {steps : List WriteStep}
    (h : Guarded (writeStep L size) (Steady L) ⟨regs, .test 0, fun _ => .unwritten⟩ steps) :
    ∀ t ∈ List.scanl (writeStep L size) ⟨regs, .test 0, fun _ => .unwritten⟩ steps, NoLoss L t := by
  have hstart : WriteInv L ⟨regs, .test 0, fun _ => .unwritten⟩ :=
    ⟨fun _ _ => nofun, fun k _ => .inr ⟨k, .inl rfl, nofun⟩, fun _ => Iff.rfl, trivial⟩
  intro t ht
  exact (h.forall_visited (fun s step hs hstep => hs.step size hstep) hstart t ht).nothing_lost

/-- The values have two registers each. -/
def Layout.pairs : Layout where
  first k := k - k % 2
  wsize f := if f % 2 = 0 then 2 else 0
  first_le := by omega
  lt_first k := by
    have heven : (k - k % 2) % 2 = 0 := by omega
    rw [if_pos heven]
    omega
  first_words f i hi := by
    split_ifs at hi
    · omega
    · exact absurd hi (Nat.not_lt_zero i)

/-- The words of a value that are written by one query, without marks. -/
def twoWords : Nat → RegInfo
  | 0 => ⟨0, 10, 16, [], 0, 0, 2, true, true, false⟩
  | k => ⟨0, 10 + UInt16.ofNat k, 16, [], k, k, 0, true, true, false⟩

/-- The value changes and is written; it changes again, is not answered, and is written once more. -/
def twoChanges : List WriteStep :=
  [.update 0 fun k => if k = 0 then 7 else 8, .poll true true true, .poll true true true,
    .poll true true true, .poll true true true, .poll true true true,
    .update 0 fun k => if k = 0 then 9 else 10, .poll true true true, .poll true true true,
    .poll true false true, .poll true true true, .poll true true true, .poll true true true,
    .poll true true true]

theorem sendable_pairs {regs : Nat → RegInfo} {status : Nat → Status}
    (hcount : (regs 0).q_count = 2) (hfunction : (regs 0).mbfunc = 16) :
    Sendable .pairs ⟨regs, .build 0, status⟩ 0 where
  whole k := by
    simp only [hcount, Layout.pairs]
    omega
  room := by
    simp only [dataFrom, hcount, hfunction]
    rfl
  function := by
    rw [hfunction]
    decide
  alone k _ hlt hne := by
    simp only [hcount, Layout.pairs] at hlt hne
    omega

theorem noLoss_sent : (twoWords 0).q_count = 2 ∧
    ∀ t ∈ List.scanl (writeStep .pairs 2) ⟨twoWords, .test 0, fun _ => .unwritten⟩ twoChanges,
      NoLoss .pairs t := by
  refine ⟨rfl, noLoss ⟨⟨fun _ _ _ hflight => hflight.elim, nofun⟩, nofun, fun it hpc _ _ => ?_, nofun, nofun,
    nofun, ⟨fun _ _ _ hflight => hflight.elim, fun _ _ k _ _ _ hlt _ => ?_⟩, nofun,
    fun it hpc _ _ => ?_, nofun, nofun, nofun, fun it hpc _ _ => ?_, nofun, trivial⟩⟩
  · cases hpc
    exact sendable_pairs rfl rfl
  · have hlt' : k < 2 := hlt
    interval_cases k <;> decide
  · cases hpc
    exact sendable_pairs rfl rfl
  · cases hpc
    exact sendable_pairs rfl rfl

/-- Each register has a value of its own. -/
def Layout.single : Layout := ⟨id, fun _ => 1, fun _ => le_rfl, Nat.lt_succ_self, fun f i hi => by
  rw [Nat.lt_one_iff.mp hi]
  rfl⟩

/-- A register that has no mark, in a map of its own. -/
def unmarked : Nat → RegInfo := fun _ => ⟨0, 10, 6, [], 0, 0, 1, true, true, false⟩

/-- The value changes once more before the answer, after which there is no mark. -/
theorem not_noLoss_window : ¬∀ t ∈ List.scanl (writeStep .single 1)
    ⟨unmarked, .test 0, fun _ => .unwritten⟩
    [.update 0 fun _ => 7, .poll true true true, .poll true true true, .update 0 fun _ => 8,
      .poll true true true, .poll true true true], NoLoss .single t := by
  intro h
  have hlast := (h _ (foldl_mem_scanl ..)).kept 0 rfl
  exact hlast rfl

end Uniset.ModbusMaster
