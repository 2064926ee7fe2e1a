import Uniset.Lib.GuardedRun
import Uniset.Processes.USensorInfo
import Mathlib.Logic.Function.Basic

/-! Sensors that share an OPC UA variable, each with the bits of its mask. -/

namespace Uniset.OPCUAExchange

open Uniset.Lib

open Uniset.Processes (IOType)

abbrev Bits := BitVec 32

/-- The lowest bit of a mask; the mask is shifted at most so many times. -/
def firstBitIn : Nat → Bits → Nat
  | 0, _ => 0
  | n + 1, mask => if mask = 0 ∨ mask.getLsbD 0 then 0 else firstBitIn n (mask >>> 1) + 1

def firstBit (mask : Bits) : Nat := firstBitIn 32 mask

def setBits (value set mask : Bits) (offset : Nat) : Bits :=
  if mask = 0 then value else (value &&& ~~~mask) ||| ((set <<< offset) &&& mask)

def forceSetBits (value set mask : Bits) (offset : Nat) : Bits :=
  if mask = 0 then set else setBits value set mask offset

def getBits (value mask : Bits) (offset : Nat) : Bits :=
  if mask = 0 then value else (value &&& mask) >>> offset

inductive IntType
  | byte
  | int16
  | uint16
  | int32
  | uint32
  | int64
  | uint64
  deriving DecidableEq

namespace IntType

def width : IntType → Nat
  | byte => 8
  | int16 | uint16 => 16
  | int32 | uint32 => 32
  | int64 | uint64 => 64

def signed : IntType → Bool
  | byte | uint16 | uint32 | uint64 => false
  | int16 | int32 | int64 => true

variable (t : IntType)

/-- The scalar that is written for an `int32_t`. -/
def scalar (val : Bits) : BitVec t.width := val.signExtend t.width

/-- The `int32_t` that is made of a scalar that has been read. -/
def result (v : BitVec t.width) : Bits := if t.signed then v.signExtend 32 else v.setWidth 32

end IntType

inductive ExchangeMode
  | emNone
  | emWriteOnly
  | emReadOnly
  | emSkipSaveToSM
  | emSkipExchange
  deriving DecidableEq

open ExchangeMode

/-- A sensor with its part of the variable. -/
structure OPCAttribute where
  id : ObjectId
  stype : IOType
  mask : Bits
  tick : Nat
  deriving DecidableEq

namespace OPCAttribute

def isOutput (a : OPCAttribute) : Bool := a.stype = .AO ∨ a.stype = .DO

def offset (a : OPCAttribute) : Nat := firstBit a.mask

/-- What is put into the bits for a value of the sensor. -/
def ofValue (a : OPCAttribute) (value : Bits) : Bits :=
  if a.stype = .DO then if value ≠ 0 then 1 else 0 else value

end OPCAttribute

/-- The sensors of a variable.  `ticks` are the keys of the write groups, in the order in which they
are gone through. -/
structure Config where
  type : IntType
  iolist : List OPCAttribute
  ticks : List Nat
  mask_ne : ∀ a ∈ iolist, a.mask ≠ 0
  mask_fits : ∀ a ∈ iolist, ∀ k, a.mask.getLsbD k = true → k < type.width
  disjoint : iolist.Pairwise fun a b => a.mask &&& b.mask = 0

/-- What is kept for the sensors, by their places in the list, and the variable on the server.
`reported` is not in the code: the last value of a sensor that has come from `SharedMemory`. -/
structure Exchange (c : Config) where
  val : Nat → Bits
  wval : Nat → BitVec c.type.width
  rval : Nat → Bits
  good : Nat → Bool
  var : BitVec c.type.width
  reported : Nat → Option Bits

inductive ExchangeStep (c : Config)
  | sensorInfo (id : ObjectId) (value : Bits)
  | updateFromSM (values : Nat → Option Bits)
  | serverSets (v : BitVec c.type.width)
  | write (mode : ExchangeMode) (writeOn : Bool) (tick : Nat) (applied : Nat → Bool)
  | read (mode : ExchangeMode) (current : Bool) (status : Nat → Option Bool)

namespace Config

variable (c : Config)

/-- The entries of a write group, in the order in which they have been added. -/
def group (k : Nat) : List Nat :=
  (List.range c.iolist.length).filter fun i =>
    (c.iolist[i]?.map fun a => a.isOutput && a.tick = k).getD false

/-- The entries that are written at a tick. -/
def due (tick : Nat) : List Nat :=
  (c.ticks.filter fun k => k = 0 ∨ tick % k = 0).flatMap c.group

end Config

namespace Exchange

variable {c : Config} (s : Exchange c)

/-- A value of an output. -/
def setOutput (i : Nat) (a : OPCAttribute) (value : Bits) : Exchange c :=
  { s with
    val := Function.update s.val i (forceSetBits (s.val i) (a.ofValue value) a.mask a.offset)
    reported := Function.update s.reported i (some (a.ofValue value)) }

/-- The first sensor of the list with the identifier. -/
def sensorInfo (id : ObjectId) (value : Bits) : Exchange c :=
  match c.iolist.findIdx? fun a => a.id = id with
  | none => s
  | some i =>
    match c.iolist[i]? with
    | none => s
    | some a => if a.isOutput then s.setOutput i a value else s

def updateOutput (values : Nat → Option Bits) (s : Exchange c) (i : Nat) : Exchange c :=
  match c.iolist[i]?, values i with
  | some a, some value => if a.isOutput then s.setOutput i a value else s
  | _, _ => s

/-- Every output gets its value, where that can be had. -/
def updateFromSM (values : Nat → Option Bits) : Exchange c :=
  (List.range c.iolist.length).foldl (updateOutput values) s

def updateToChannel : Exchange c :=
  { s with wval := fun i =>
      if (c.iolist[i]?.map OPCAttribute.isOutput).getD false then c.type.scalar (s.val i)
      else s.wval i }

/-- The writing half of `channelExchange`.  The server takes the entries one after the other. -/
def writeEntries (tick : Nat) (applied : Nat → Bool) : Exchange c :=
  { s with var := ((c.due tick).filter applied).foldl (fun _ i => s.wval i) s.var }

def writes (mode : ExchangeMode) : Bool := mode ≠ emSkipExchange ∧ mode ≠ emReadOnly

def reads (mode : ExchangeMode) : Bool := mode ≠ emSkipExchange ∧ mode ≠ emWriteOnly

def write (mode : ExchangeMode) (writeOn : Bool) (tick : Nat) (applied : Nat → Bool) : Exchange c :=
  if writes mode then
    if writeOn then s.updateToChannel.writeEntries tick applied else s.updateToChannel
  else s

/-- The reading half: what has not been read stays as it was. -/
def readEntries (status : Nat → Option Bool) : Exchange c :=
  { s with
    rval := fun i => if status i = some true then c.type.result s.var else s.rval i
    good := fun i => (status i).getD (s.good i) }

def updateFromChannel : Exchange c :=
  { s with val := fun i =>
      match c.iolist[i]? with
      | none => s.val i
      | some a =>
        if s.good i then
          if a.stype = .AI then getBits (s.rval i) a.mask a.offset
          else if a.stype = .DI then getBits (if s.rval i ≠ 0 then 1 else 0) a.mask a.offset
          else s.val i
        else s.val i }

def read (mode : ExchangeMode) (current : Bool) (status : Nat → Option Bool) : Exchange c :=
  if reads mode then
    if current then (s.readEntries status).updateFromChannel else s.readEntries status
  else s

def step : ExchangeStep c → Exchange c
  | .sensorInfo id value => s.sensorInfo id value
  | .updateFromSM values => s.updateFromSM values
  | .serverSets v => { s with var := v }
  | .write mode writeOn tick applied => s.write mode writeOn tick applied
  | .read mode current status => s.read mode current status

end Exchange

/-- All outputs are written, and the server takes them all. -/
def Config.Complete (c : Config) : ExchangeStep c → Prop
  | .write mode writeOn tick applied => Exchange.writes mode = true ∧ writeOn = true ∧
      ∀ i a, c.iolist[i]? = some a → a.isOutput = true → i ∈ c.due tick ∧ applied i = true
  | _ => False

/-- An input gets the value of the variable. -/
def Config.Reads (c : Config) (i : Nat) : ExchangeStep c → Prop
  | .read mode current status => Exchange.reads mode = true ∧ current = true ∧ status i = some true
  | _ => False

/-- Each sensor has its own bits of the variable. -/
structure Shares {c : Config} (s : Exchange c) (step : ExchangeStep c) : Prop where
  analog : ∀ i a, c.iolist[i]? = some a → a.stype = .AI → c.Reads i step →
    (s.step step).val i = (c.type.result s.var &&& a.mask) >>> firstBit a.mask
  discrete : ∀ i a, c.iolist[i]? = some a → a.stype = .DI → c.Reads i step →
    ((s.step step).val i ≠ 0 ↔ c.type.result s.var &&& a.mask ≠ 0)
  written : c.Complete step → ∀ i a value, c.iolist[i]? = some a → a.isOutput = true →
    s.reported i = some value →
      c.type.result (s.step step).var &&& a.mask = (value <<< firstBit a.mask) &&& a.mask

/-- The entry that is written last. -/
def Config.lastWritten (c : Config) : ExchangeStep c → Option Nat
  | .write _ _ tick _ => (c.due tick).getLast?
  | _ => none

/-- For a discrete sensor the variable has a bit of the mask just when it is not 0 and the mask has the
lowest bit; and no output but the one that is written last has bits to be written. -/
structure Alone {c : Config} (s : Exchange c) (step : ExchangeStep c) : Prop where
  discrete : ∀ i a, c.iolist[i]? = some a → a.stype = .DI → c.Reads i step →
    (c.type.result s.var ≠ 0 ∧ a.mask.getLsbD 0 = true ↔ c.type.result s.var &&& a.mask ≠ 0)
  written : c.Complete step → ∀ i a value, c.iolist[i]? = some a → a.isOutput = true →
    s.reported i = some value → c.lastWritten step ≠ some i →
      (value <<< firstBit a.mask) &&& a.mask = 0

/-! ## Bits -/

theorem forceSetBits_and {mask : Bits} (h : mask ≠ 0) (value set : Bits) (offset : Nat) :
    forceSetBits value set mask offset &&& mask = (set <<< offset) &&& mask := by
  unfold forceSetBits setBits
  rw [if_neg h, if_neg h]
  refine BitVec.eq_of_getLsbD_eq fun i hi => ?_
  simp only [BitVec.getLsbD_and, BitVec.getLsbD_or, BitVec.getLsbD_not, hi, decide_true,
    Bool.true_and]
  cases mask.getLsbD i <;> simp

/-- Where there were no bits but those of the mask, there are none. -/
theorem forceSetBits_and_not {mask : Bits} (h : mask ≠ 0) {value : Bits}
    (hvalue : value &&& ~~~mask = 0) (set : Bits) (offset : Nat) :
    forceSetBits value set mask offset &&& ~~~mask = 0 := by
  unfold forceSetBits setBits
  rw [if_neg h, if_neg h, hvalue]
  refine BitVec.eq_of_getLsbD_eq fun i hi => ?_
  simp only [BitVec.getLsbD_and, BitVec.getLsbD_or, BitVec.getLsbD_not, hi, decide_true,
    Bool.true_and]
  cases mask.getLsbD i <;> simp

/-- The bits that a type has room for come back from the server. -/
theorem result_scalar {t : IntType} {mask : Bits}
    (h : ∀ k, mask.getLsbD k = true → k < t.width) (x : Bits) :
    t.result (t.scalar x) &&& mask = x &&& mask := by
  refine BitVec.eq_of_getLsbD_eq fun i hi => ?_
  rw [BitVec.getLsbD_and, BitVec.getLsbD_and]
  cases hbit : mask.getLsbD i with
  | false => simp
  | true =>
    have hlt := h i hbit
    unfold IntType.result IntType.scalar
    split_ifs
    · simp only [BitVec.getLsbD_signExtend, hi, hlt, decide_true, if_true, Bool.true_and]
    · simp only [BitVec.getLsbD_signExtend, BitVec.getLsbD_setWidth, hi, hlt, decide_true, if_true,
        Bool.true_and]

theorem and_of_disjoint {x mask mask' : Bits} (hx : x &&& ~~~mask = 0) (h : mask &&& mask' = 0) :
    x &&& mask' = 0 := by
  refine BitVec.eq_of_getLsbD_eq fun i hi => ?_
  have hx := congrArg (BitVec.getLsbD · i) hx
  have h := congrArg (BitVec.getLsbD · i) h
  simp only [BitVec.getLsbD_and, BitVec.getLsbD_not, hi, decide_true, Bool.true_and] at hx h ⊢
  cases hmask : mask.getLsbD i <;> simp_all

/-- A discrete sensor gets the lowest bit of its mask, if anything is set. -/
theorem getBits_bool_ne_zero {mask : Bits} (h : mask ≠ 0) (v : Bits) :
    getBits (if v ≠ 0 then 1 else 0) mask (firstBit mask) ≠ 0 ↔
      v ≠ 0 ∧ mask.getLsbD 0 = true := by
  have hone : (1 : Bits) &&& mask = if mask.getLsbD 0 then 1 else 0 := by
    cases hbit : mask.getLsbD 0 with
    | false =>
      refine BitVec.eq_of_getLsbD_eq fun i hi => ?_
      rw [BitVec.getLsbD_and]
      cases i with
      | zero =>
        rw [hbit]
        rfl
      | succ i => simp
    | true =>
      refine BitVec.eq_of_getLsbD_eq fun i hi => ?_
      rw [BitVec.getLsbD_and]
      cases i with
      | zero =>
        rw [hbit]
        rfl
      | succ i => simp
  unfold getBits
  rw [if_neg h]
  by_cases hv : v = 0
  · simp [hv]
  · rw [if_pos hv, hone]
    cases hbit : mask.getLsbD 0 with
    | false => simp
    | true =>
      have hfirst : firstBit mask = 0 := by
        unfold firstBit firstBitIn
        rw [if_pos (.inr hbit)]
      rw [hfirst, if_pos rfl]
      exact ⟨fun _ => ⟨hv, rfl⟩, fun _ => by decide⟩

/-! ## One step -/

variable {c : Config} {s : Exchange c}

/-- An output has its bits and no others. -/
structure Tracks (s : Exchange c) : Prop where
  own : ∀ i a, c.iolist[i]? = some a → a.isOutput = true → s.val i &&& ~~~a.mask = 0
  reported : ∀ i a value, c.iolist[i]? = some a → a.isOutput = true → s.reported i = some value →
    s.val i &&& a.mask = (value <<< firstBit a.mask) &&& a.mask

theorem tracks_setOutput (h : Tracks s) {i : Nat} {a : OPCAttribute} (ha : c.iolist[i]? = some a)
    (hout : a.isOutput = true) (value : Bits) : Tracks (s.setOutput i a value) := by
  have hmask := c.mask_ne a (List.mem_of_getElem? ha)
  refine ⟨fun j b hb houtb => ?_, fun j b v hb houtb hv => ?_⟩
  · unfold Exchange.setOutput
    dsimp only
    by_cases hj : j = i
    · subst hj
      obtain rfl := Option.some.inj (ha.symm.trans hb)
      rw [Function.update_self]
      exact forceSetBits_and_not hmask (h.own j a ha hout) _ _
    · rw [Function.update_of_ne hj]
      exact h.own j b hb houtb
  · unfold Exchange.setOutput at hv ⊢
    dsimp only at hv ⊢
    by_cases hj : j = i
    · subst hj
      obtain rfl := Option.some.inj (ha.symm.trans hb)
      rw [Function.update_self] at hv ⊢
      obtain rfl := Option.some.inj hv
      exact forceSetBits_and hmask _ _ _
    · rw [Function.update_of_ne hj] at hv ⊢
      exact h.reported j b v hb houtb hv

theorem tracks_sensorInfo (h : Tracks s) (id : ObjectId) (value : Bits) :
    Tracks (s.sensorInfo id value) := by
  unfold Exchange.sensorInfo
  split
  · exact h
  · split
    · exact h
    · rename_i i _ _ a ha
      split_ifs with hout
      · exact tracks_setOutput h ha hout value
      · exact h

theorem tracks_updateFromSM (h : Tracks s) (values : Nat → Option Bits) :
    Tracks (s.updateFromSM values) := by
  unfold Exchange.updateFromSM
  generalize List.range c.iolist.length = is
  induction is generalizing s with
  | nil => exact h
  | cons i is ih =>
    rw [List.foldl_cons]
    refine ih ?_
    unfold Exchange.updateOutput
    split
    · rename_i a value ha _
      split_ifs with hout
      · exact tracks_setOutput h ha hout value
      · exact h
    · exact h

/-- Only inputs get values that have been read. -/
theorem updateFromChannel_output {i : Nat} {a : OPCAttribute} (ha : c.iolist[i]? = some a)
    (hout : a.isOutput = true) : s.updateFromChannel.val i = s.val i := by
  unfold Exchange.updateFromChannel
  dsimp only
  rw [ha]
  dsimp only
  have hout : a.stype = .AO ∨ a.stype = .DO := of_decide_eq_true hout
  rcases hout with h | h <;> simp [h]

theorem tracks_step (h : Tracks s) (step : ExchangeStep c) : Tracks (s.step step) := by
  cases step with
  | sensorInfo id value => exact tracks_sensorInfo h id value
  | updateFromSM values => exact tracks_updateFromSM h values
  | serverSets v => exact ⟨h.own, h.reported⟩
  | write mode writeOn tick applied =>
    change Tracks (s.write mode writeOn tick applied)
    unfold Exchange.write
    split_ifs <;> exact ⟨h.own, h.reported⟩
  | read mode current status =>
    change Tracks (s.read mode current status)
    unfold Exchange.read
    split_ifs
    · refine ⟨fun i a ha hout => ?_, fun i a value ha hout hv => ?_⟩
      · rw [updateFromChannel_output ha hout]
        exact h.own i a ha hout
      · rw [updateFromChannel_output ha hout]
        exact h.reported i a value ha hout hv
    · exact ⟨h.own, h.reported⟩
    · exact h

theorem foldl_last {α : Type*} {β : Type*} (f : α → β) (is : List α) (v : β) :
    is.foldl (fun _ i => f i) v = (is.getLast?.map f).getD v := by
  induction is generalizing v with
  | nil => rfl
  | cons i is ih =>
    rw [List.foldl_cons, ih]
    cases is with
    | nil => rfl
    | cons j is => rw [List.getLast?_cons_cons, List.getLast?_eq_some_getLast (by simp)]; rfl

theorem output_of_due {tick i : Nat} (h : i ∈ c.due tick) :
    ∃ a, c.iolist[i]? = some a ∧ a.isOutput = true := by
  obtain ⟨k, -, hk⟩ := List.mem_flatMap.mp h
  obtain ⟨-, hi⟩ := List.mem_filter.mp hk
  cases ha : c.iolist[i]? with
  | none => rw [ha] at hi; cases hi
  | some a =>
    rw [ha] at hi
    exact ⟨a, rfl, ((Bool.and_eq_true _ _).mp hi).1⟩

/-- The last entry makes the variable. -/
theorem var_of_complete {step : ExchangeStep c} (h : c.Complete step) :
    (s.step step).var = ((c.lastWritten step).map fun i => c.type.scalar (s.val i)).getD s.var := by
  cases step with
  | sensorInfo id value => exact h.elim
  | updateFromSM values => exact h.elim
  | serverSets v => exact h.elim
  | read mode current status => exact h.elim
  | write mode writeOn tick applied =>
    obtain ⟨hmode, rfl, hall⟩ := h
    have hfilter : (c.due tick).filter applied = c.due tick :=
      List.filter_eq_self.mpr fun i hi => by
        obtain ⟨a, ha, hout⟩ := output_of_due hi
        exact (hall i a ha hout).2
    change (s.write mode true tick applied).var = _
    unfold Exchange.write Exchange.writeEntries
    rw [if_pos hmode, if_pos rfl, hfilter]
    dsimp only
    rw [foldl_last]
    unfold Config.lastWritten
    dsimp only
    cases hlast : (c.due tick).getLast? with
    | none => rfl
    | some j =>
      obtain ⟨a, ha, hout⟩ := output_of_due (List.mem_of_getLast? hlast)
      simp [Exchange.updateToChannel, ha, hout]

theorem written_iff (h : Tracks s) {step : ExchangeStep c} (hstep : c.Complete step) {i : Nat}
    {a : OPCAttribute} {value : Bits} (ha : c.iolist[i]? = some a) (hout : a.isOutput = true)
    (hvalue : s.reported i = some value) :
    c.type.result (s.step step).var &&& a.mask = (value <<< firstBit a.mask) &&& a.mask ↔
      (c.lastWritten step ≠ some i → (value <<< firstBit a.mask) &&& a.mask = 0) := by
  have hfits := c.mask_fits a (List.mem_of_getElem? ha)
  rw [var_of_complete hstep]
  cases hlast : c.lastWritten step with
  | none =>
    -- an output is written, so that there is a last one
    exfalso
    cases step with
    | write mode writeOn tick applied =>
      have hmem := (hstep.2.2 i a ha hout).1
      have hnil : c.due tick = [] := List.getLast?_eq_none_iff.mp hlast
      rw [hnil] at hmem
      cases hmem
    | sensorInfo id value => exact hstep.elim
    | updateFromSM values => exact hstep.elim
    | serverSets v => exact hstep.elim
    | read mode current status => exact hstep.elim
  | some j =>
    rw [Option.map_some, Option.getD_some, result_scalar hfits]
    by_cases hj : j = i
    · subst hj
      rw [h.reported j a value ha hout hvalue]
      exact ⟨fun _ hne => absurd rfl hne, fun _ => rfl⟩
    · have hjout : ∃ b, c.iolist[j]? = some b ∧ b.isOutput = true := by
        cases step with
        | write mode writeOn tick applied => exact output_of_due (List.mem_of_getLast? hlast)
        | sensorInfo id value => exact hstep.elim
        | updateFromSM values => exact hstep.elim
        | serverSets v => exact hstep.elim
        | read mode current status => exact hstep.elim
      obtain ⟨b, hb, houtb⟩ := hjout
      have hdisjoint : b.mask &&& a.mask = 0 := by
        obtain ⟨hi, rfl⟩ := List.getElem?_eq_some_iff.mp ha
        obtain ⟨hj', rfl⟩ := List.getElem?_eq_some_iff.mp hb
        have hpairs := List.pairwise_iff_getElem.mp c.disjoint
        rcases Nat.lt_or_gt_of_ne hj with hlt | hlt
        · exact hpairs j i hj' hi hlt
        · rw [BitVec.and_comm]
          exact hpairs i j hi hj' hlt
      rw [and_of_disjoint (h.own j b hb houtb) hdisjoint]
      exact ⟨fun heq _ => heq.symm, fun hzero => (hzero fun heq => hj (Option.some.inj heq)).symm⟩

theorem reads_val {step : ExchangeStep c} {i : Nat} {a : OPCAttribute} (hstep : c.Reads i step)
    (ha : c.iolist[i]? = some a) :
    (a.stype = .AI → (s.step step).val i = getBits (c.type.result s.var) a.mask a.offset) ∧
      (a.stype = .DI → (s.step step).val i =
        getBits (if c.type.result s.var ≠ 0 then 1 else 0) a.mask a.offset) := by
  cases step with
  | sensorInfo id value => exact hstep.elim
  | updateFromSM values => exact hstep.elim
  | serverSets v => exact hstep.elim
  | write mode writeOn tick applied => exact hstep.elim
  | read mode current status =>
    obtain ⟨hmode, rfl, hstatus⟩ := hstep
    have hstep : (s.step (.read mode true status)) = (s.readEntries status).updateFromChannel := by
      change s.read mode true status = _
      unfold Exchange.read
      rw [if_pos hmode, if_pos rfl]
    have hgood : (s.readEntries status).good i = true := by simp [Exchange.readEntries, hstatus]
    have hrval : (s.readEntries status).rval i = c.type.result s.var := if_pos hstatus
    rw [hstep]
    unfold Exchange.updateFromChannel
    dsimp only
    rw [ha]
    dsimp only
    rw [if_pos hgood, hrval]
    refine ⟨fun htype => if_pos htype, fun htype => ?_⟩
    rw [if_neg (by rw [htype]; decide), if_pos htype]

/-- The sensors share the variable in a step if and only if all but one leave it alone. -/
theorem shares_iff_alone (h : Tracks s) (step : ExchangeStep c) : Shares s step ↔ Alone s step := by
  have hdiscrete : ∀ i a, c.iolist[i]? = some a → a.stype = .DI → c.Reads i step →
      ((s.step step).val i ≠ 0 ↔ c.type.result s.var ≠ 0 ∧ a.mask.getLsbD 0 = true) :=
    fun i a ha htype hreads => by
      rw [(reads_val hreads ha).2 htype]
      exact getBits_bool_ne_zero (c.mask_ne a (List.mem_of_getElem? ha)) _
  constructor
  · intro hshares
    refine ⟨fun i a ha htype hreads => ?_, fun hstep i a value ha hout hvalue => ?_⟩
    · rw [← hdiscrete i a ha htype hreads]
      exact hshares.discrete i a ha htype hreads
    · exact (written_iff h hstep ha hout hvalue).mp (hshares.written hstep i a value ha hout hvalue)
  · intro halone
    refine ⟨fun i a ha htype hreads => ?_, fun i a ha htype hreads => ?_,
      fun hstep i a value ha hout hvalue => ?_⟩
    · rw [(reads_val hreads ha).1 htype]
      exact if_neg (c.mask_ne a (List.mem_of_getElem? ha))
    · rw [hdiscrete i a ha htype hreads]
      exact halone.discrete i a ha htype hreads
    · exact (written_iff h hstep ha hout hvalue).mpr (halone.written hstep i a value ha hout hvalue)

/-- As `initIOItem` leaves the sensors: no bits, and nothing reported yet. -/
def Exchange.init (wval : Nat → BitVec c.type.width) (rval : Nat → Bits) (var : BitVec c.type.width) :
    Exchange c :=
  ⟨fun _ => 0, wval, rval, fun _ => true, var, fun _ => none⟩

/-- In a run the sensors share the variable if and only if in every step all but one leave it
alone. -/
theorem shares_iff_alone_run (c : Config) (wval : Nat → BitVec c.type.width) (rval : Nat → Bits)
    (var : BitVec c.type.width) (steps : List (ExchangeStep c)) :
    Guarded Exchange.step Shares (Exchange.init wval rval var) steps ↔
      Guarded Exchange.step Alone (Exchange.init wval rval var) steps := by
  have hinit : Tracks (Exchange.init wval rval var) :=
    ⟨fun i a _ _ => BitVec.zero_and, nofun⟩
  constructor
  · intro hrun
    exact hrun.of_invariant (I := Tracks)
      (fun s step hs hstep => ⟨(shares_iff_alone hs step).mp hstep, tracks_step hs step⟩) hinit
  · intro hrun
    exact hrun.of_invariant (I := Tracks)
      (fun s step hs hstep => ⟨(shares_iff_alone hs step).mpr hstep, tracks_step hs step⟩) hinit

/-- Two outputs that share a variable. -/
def twoOutputs : Config where
  type := .int32
  iolist := [⟨1, .AO, 0xF, 0⟩, ⟨2, .AO, 0xF0, 0⟩]
  ticks := [0]
  mask_ne := by decide
  mask_fits := fun _ _ _ hk => BitVec.lt_of_getLsbD hk
  disjoint := by decide

/-- The bits of the first output are lost when the second is written. -/
theorem not_shares_twoOutputs :
    ¬Guarded Exchange.step Shares (Exchange.init (c := twoOutputs) (fun _ => 0) (fun _ => 0) 0)
      [.sensorInfo 1 5, .sensorInfo 2 6, .write emNone true 1 fun _ => true] := by
  rintro ⟨-, -, h, -⟩
  have hcomplete : twoOutputs.Complete (.write emNone true 1 fun _ => true) := by
    refine ⟨rfl, rfl, fun i a ha _ => ⟨?_, rfl⟩⟩
    have hlt : i < 2 := (List.getElem?_eq_some_iff.mp ha).1
    have hdue : twoOutputs.due 1 = [0, 1] := by decide
    rw [hdue]
    simp only [List.mem_cons, List.not_mem_nil, or_false]
    omega
  have hfirst := h.written hcomplete 0 ⟨1, .AO, 0xF, 0⟩ 5 rfl (by decide) (by decide)
  exact absurd hfirst (by decide)

end Uniset.OPCUAExchange
