import Mathlib.Algebra.Order.Floor.Semiring
import Mathlib.Data.List.Nodup
import Mathlib.Data.List.Range
import Mathlib.Data.Rat.Floor
import Uniset.Lib.GuardedRun

/-! The buffer of records that are written by one copy. -/

namespace Uniset.DBServer

open Lib

/-- The records are numbered in the order in which they are added. -/
structure Record (α : Type*) where
  number : Nat
  fields : α

structure InsertConfig where
  ibufMaxSize : Nat
  ibufOverflowCleanFactor : ℚ
  lastRemove : Bool
  one_le : 1 ≤ ibufMaxSize
  nonneg : 0 ≤ ibufOverflowCleanFactor
  le_one : ibufOverflowCleanFactor ≤ 1

/-- `lroundf` of the product, which is taken as it is. -/
def InsertConfig.delnum (cfg : InsertConfig) (ibufSize : Nat) : Nat :=
  ⌊ibufSize * cfg.ibufOverflowCleanFactor + 1 / 2⌋₊

structure Overflow (α : Type*) where
  before : List (Record α)
  removed : List (Record α)
  kept : List (Record α)

/-- The newest records are removed, or the oldest ones. -/
def Overflow.Right (cfg : InsertConfig) (o : Overflow α) : Prop :=
  o.kept =
    if cfg.lastRemove then o.before.take (o.before.length - cfg.delnum o.before.length)
    else o.before.drop (cfg.delnum o.before.length)

/-- The buffer, with the copies that were successful and what was removed. -/
structure InsertBuffer (α : Type*) where
  ibuf : List (Record α)
  ibufSize : Nat
  added : Nat
  copies : List (List (Record α))
  overflows : List (Overflow α)

namespace InsertBuffer

variable {α : Type*}

def empty : InsertBuffer α := ⟨[], 0, 0, [], []⟩

variable (cfg : InsertConfig)

/-- An iterator does not move over the ends of the buffer. -/
def clean (s : InsertBuffer α) : Option (InsertBuffer α) :=
  let delnum := cfg.delnum s.ibufSize
  let size := s.ibuf.length
  if delnum ≤ size then
    let beg := if cfg.lastRemove then 0 else delnum
    let stop := if cfg.lastRemove then size - delnum else size
    let kept := if beg ≠ size then s.ibuf.take beg ++ s.ibuf.drop stop else s.ibuf
    let removed := if beg ≠ size then (s.ibuf.take stop).drop beg else []
    some { s with
      ibuf := kept
      ibufSize := if delnum < s.ibufSize then s.ibufSize - delnum else 0
      overflows := s.overflows ++ [⟨s.ibuf, removed, kept⟩] }
  else none

/-- What is in the buffer is copied when there is a connection. -/
def write (connect_ok copied : Bool) (s : InsertBuffer α) : InsertBuffer α :=
  if s.ibufSize = 0 then s
  else if !connect_ok then s
  else if copied then { s with ibuf := [], ibufSize := 0, copies := s.copies ++ [s.ibuf] }
  else s

def flushInsertBuffer (connect_ok copied : Bool) (s : InsertBuffer α) : Option (InsertBuffer α) :=
  (if s.ibufSize > cfg.ibufMaxSize then s.clean cfg else some s).map (write connect_ok copied)

def push (fields : α) (s : InsertBuffer α) : InsertBuffer α :=
  { s with
    ibuf := s.ibuf ++ [⟨s.added, fields⟩]
    ibufSize := s.ibufSize + 1
    added := s.added + 1 }

def addRecord (fields : α) (connect_ok copied : Bool) (s : InsertBuffer α) :
    Option (InsertBuffer α) :=
  let s := s.push fields
  if s.ibufSize ≥ cfg.ibufMaxSize then s.flushInsertBuffer cfg connect_ok copied else some s

end InsertBuffer

/-- The calls, with the state of the connection and the result of a copy. -/
inductive InsertCall (α : Type*)
  | addRecord (fields : α) (connect_ok copied : Bool)
  | flushInsertBuffer (connect_ok copied : Bool)

namespace InsertBuffer

variable {α : Type*} (cfg : InsertConfig)

def step (s : Option (InsertBuffer α)) (c : InsertCall α) : Option (InsertBuffer α) :=
  s.bind fun s =>
    match c with
    | .addRecord fields connect_ok copied => s.addRecord cfg fields connect_ok copied
    | .flushInsertBuffer connect_ok copied => s.flushInsertBuffer cfg connect_ok copied

structure Exact (s : InsertBuffer α) : Prop where
  size : s.ibufSize = s.ibuf.length
  overflows : ∀ o ∈ s.overflows, o.Right cfg
  accounted : (((s.copies.flatten ++ s.overflows.flatMap (·.removed)) ++ s.ibuf).map (·.number)).Perm
    (List.range s.added)

/-- No record is added to a full buffer. -/
def Fits (s : Option (InsertBuffer α)) (c : InsertCall α) : Prop :=
  ∀ t ∈ s,
    match c with
    | .addRecord .. => t.ibufSize < cfg.ibufMaxSize
    | .flushInsertBuffer .. => t.ibufSize ≤ cfg.ibufMaxSize

variable {cfg}

theorem exact_empty : (empty : InsertBuffer α).Exact cfg where
  size := rfl
  overflows := nofun
  accounted := .refl _

theorem Exact.push {s : InsertBuffer α} (h : s.Exact cfg) (fields : α) :
    (s.push fields).Exact cfg where
  size := by simp [InsertBuffer.push, h.size]
  overflows := h.overflows
  accounted := by
    have hperm := h.accounted.append_right [s.added]
    simpa [InsertBuffer.push, List.range_succ] using hperm

theorem Exact.write {s : InsertBuffer α} (h : s.Exact cfg) (connect_ok copied : Bool) :
    (s.write connect_ok copied).Exact cfg := by
  unfold InsertBuffer.write
  split_ifs
  · exact h
  · exact h
  · refine ⟨rfl, h.overflows, List.Perm.trans (List.Perm.map _ ?_) h.accounted⟩
    simp only [List.flatten_append, List.flatten_singleton, List.append_nil, List.append_assoc]
    exact List.perm_append_comm.append_left _
  · exact h

/-- A list without repetitions is no end of itself after a start of it. -/
theorem take_ne_drop {l : List β} (hnodup : l.Nodup) (hne : l ≠ []) (k : Nat) :
    l.take k ≠ l.drop k := by
  intro heq
  have hsplit := List.take_append_drop k l
  have hdisjoint := hnodup
  rw [← hsplit, heq, List.nodup_append] at hdisjoint
  cases hdrop : l.drop k with
  | nil => exact hne (by rw [← hsplit, heq, hdrop]; rfl)
  | cons a _ =>
    have ha : a ∈ l.drop k := hdrop ▸ List.mem_cons_self
    exact hdisjoint.2.2 a ha a ha rfl

theorem delnum_le (cfg : InsertConfig) (n : Nat) : cfg.delnum n ≤ n := by
  have hle : (n * cfg.ibufOverflowCleanFactor : ℚ) ≤ n :=
    mul_le_of_le_one_right (Nat.cast_nonneg n) cfg.le_one
  have hlt : (n * cfg.ibufOverflowCleanFactor + 1 / 2 : ℚ) < (n + 1 : ℕ) := by
    push_cast
    linarith
  exact Nat.lt_succ_iff.mp ((Nat.floor_lt' (Nat.succ_ne_zero n)).mpr hlt)

theorem Exact.nodup {s : InsertBuffer α} (h : s.Exact cfg) : s.ibuf.Nodup := by
  have hnodup := h.accounted.nodup_iff.mpr (List.nodup_range)
  rw [List.map_append, List.nodup_append] at hnodup
  exact .of_map _ hnodup.2.1

/-- What is cleaned is what should be kept. -/
theorem Exact.not_right {s : InsertBuffer α} (h : s.Exact cfg) (hover : cfg.ibufMaxSize < s.ibufSize)
    (hclean : s.clean cfg = some t) : ∃ o ∈ t.overflows, ¬o.Right cfg := by
  have hne : s.ibuf ≠ [] := by
    intro hnil
    rw [h.size, hnil] at hover
    exact absurd hover (Nat.not_lt_zero _)
  have hpos : 0 ≠ s.ibuf.length := fun h0 => hne (List.length_eq_zero_iff.mp h0.symm)
  have hle := delnum_le cfg s.ibuf.length
  unfold clean at hclean
  simp only [h.size, hle, if_true, Option.some.injEq] at hclean
  subst hclean
  refine ⟨_, List.mem_append_right _ List.mem_cons_self, ?_⟩
  unfold Overflow.Right
  cases cfg.lastRemove with
  | true => simpa [hpos] using (take_ne_drop h.nodup hne _).symm
  | false =>
    by_cases hall : cfg.delnum s.ibuf.length = s.ibuf.length
    · simpa [hall] using hne
    · simpa [hall] using take_ne_drop h.nodup hne _

theorem write_overflows (s : InsertBuffer α) (connect_ok copied : Bool) :
    (s.write connect_ok copied).overflows = s.overflows := by
  unfold write
  split_ifs <;> rfl

/-- A flush is right when there is nothing to clean. -/
theorem Exact.flush_iff {s : InsertBuffer α} (h : s.Exact cfg) (connect_ok copied : Bool) :
    (∃ t, s.flushInsertBuffer cfg connect_ok copied = some t ∧ t.Exact cfg) ↔
      s.ibufSize ≤ cfg.ibufMaxSize := by
  constructor
  · rintro ⟨t, ht, hexact⟩
    by_contra hover
    rw [not_le] at hover
    rw [flushInsertBuffer, if_pos hover, Option.map_eq_some_iff] at ht
    obtain ⟨u, hclean, rfl⟩ := ht
    obtain ⟨o, ho, hwrong⟩ := h.not_right hover hclean
    exact hwrong (hexact.overflows o ((write_overflows ..).symm ▸ ho))
  · intro hfits
    refine ⟨s.write connect_ok copied, ?_, h.write connect_ok copied⟩
    rw [flushInsertBuffer, if_neg (Nat.not_lt.mpr hfits), Option.map_some]

/-- A step is right when it fits. -/
theorem step_iff (o : Option (InsertBuffer α)) (c : InsertCall α)
    (h : ∃ s, o = some s ∧ s.Exact cfg) :
    (∃ t, step cfg o c = some t ∧ t.Exact cfg) ↔ Fits cfg o c := by
  obtain ⟨s, rfl, hs⟩ := h
  have hfits : Fits cfg (some s) c ↔
      match c with
      | .addRecord .. => s.ibufSize < cfg.ibufMaxSize
      | .flushInsertBuffer .. => s.ibufSize ≤ cfg.ibufMaxSize := by
    simp only [Fits, Option.mem_some_iff, forall_eq']
  rw [hfits]
  cases c with
  | addRecord fields connect_ok copied =>
    have hpush := hs.push fields
    change (∃ t, s.addRecord cfg fields connect_ok copied = some t ∧ t.Exact cfg) ↔ _
    unfold addRecord
    simp only
    split_ifs with hfull
    · exact hpush.flush_iff connect_ok copied
    · exact iff_of_true ⟨_, rfl, hpush⟩ (Nat.lt_of_succ_lt (not_le.mp hfull))
  | flushInsertBuffer connect_ok copied => exact hs.flush_iff connect_ok copied

/-- In every state of a run the buffer and the overflows are right exactly when no record is added to
a full buffer. -/
theorem insertBuffer_exact_iff (cfg : InsertConfig) (calls : List (InsertCall α)) :
    (∀ o ∈ calls.scanl (step cfg) (some empty), ∃ s, o = some s ∧ s.Exact cfg) ↔
      Guarded (step cfg) (Fits cfg) (some empty) calls :=
  forall_visited_iff_guarded step_iff ⟨_, rfl, exact_empty⟩ calls

/-- One record, half of what is too much. -/
def halfKept : InsertConfig where
  ibufMaxSize := 1
  ibufOverflowCleanFactor := 1 / 2
  lastRemove := true
  one_le := le_rfl
  nonneg := by norm_num
  le_one := by norm_num

theorem halfKept_delnum : halfKept.delnum 2 = 1 := by
  rw [InsertConfig.delnum, halfKept, Nat.floor_eq_iff (by norm_num)]
  norm_num

/-- The newest record is kept and the oldest one is removed. -/
theorem not_insertBuffer_exact :
    ¬∀ calls : List (InsertCall Unit), ∀ o ∈ calls.scanl (step halfKept) (some empty),
      ∃ s, o = some s ∧ s.Exact halfKept := by
  intro h
  obtain ⟨s, hs, hexact⟩ := h [.addRecord () false false, .addRecord () false false] _
    (foldl_mem_scanl _ _ _)
  have hrun : [InsertCall.addRecord () false false, .addRecord () false false].foldl (step halfKept)
      (some empty) = some ⟨[⟨1, ()⟩], 1, 2, [], [⟨[⟨0, ()⟩, ⟨1, ()⟩], [⟨0, ()⟩], [⟨1, ()⟩]⟩]⟩ := by
    have hmax : halfKept.ibufMaxSize = 1 := rfl
    have hlast : halfKept.lastRemove = true := rfl
    simp [step, addRecord, push, empty, flushInsertBuffer, clean, write, halfKept_delnum, hmax, hlast]
  cases hs.symm.trans hrun
  have hright := hexact.overflows _ List.mem_cons_self
  have hlast : halfKept.lastRemove = true := rfl
  simp [Overflow.Right, hlast, halfKept_delnum] at hright

end InsertBuffer

end Uniset.DBServer
