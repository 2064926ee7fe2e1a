import Uniset.Modbus.ModbusTypes
import Uniset.ModbusMaster.MBConfig

/-! The exchange of one register, or of several in one query, with its device. -/

namespace Uniset.ModbusMaster

open Uniset.Modbus SlaveFunctionCode

inductive ExchangeMode
  | emNone
  | emWriteOnly
  | emReadOnly
  | emSkipSaveToSM
  | emSkipExchange
  deriving DecidableEq

open ExchangeMode

/-- Whether what is exchanged goes between the registers and the sensors. -/
def isUpdateSM (exchangeMode mdev : ExchangeMode) (wrFunc : Bool) : Bool :=
  if exchangeMode = emSkipExchange ∨ mdev = emSkipExchange then wrFunc
  else if wrFunc ∧ (exchangeMode = emReadOnly ∨ mdev = emReadOnly) then false
  else if ¬wrFunc ∧ (exchangeMode = emWriteOnly ∨ mdev = emWriteOnly) then false
  else if ¬wrFunc ∧ (exchangeMode = emSkipSaveToSM ∨ mdev = emSkipSaveToSM) then false
  else true

/-- The mode of the process is looked at, that of the device is not. -/
def isPollEnabled (exchangeMode : ExchangeMode) (wrFunc : Bool) : Bool :=
  if exchangeMode = emWriteOnly ∧ ¬wrFunc then false
  else if exchangeMode = emReadOnly ∧ wrFunc then false
  else if exchangeMode = emSkipExchange then false
  else true

inductive Query
  | read (mbfunc : ModbusByte) (mbreg count : ModbusData)
  | write (mbfunc : ModbusByte) (mbreg : ModbusData) (data : List ModbusData)
  deriving DecidableEq

/-- What the client gets for a query: an error, or the bytes of data in the reply. -/
abbrev Reply := Except mbErrCode (List ModbusByte)

def isReadCoils (mbfunc : ModbusByte) : Bool :=
  mbfunc = fnReadCoilStatus.code ∨ mbfunc = fnReadInputStatus.code

def isReadRegisters (mbfunc : ModbusByte) : Bool :=
  mbfunc = fnReadOutputRegisters.code ∨ mbfunc = fnReadInputRegisters.code

def isRead (mbfunc : ModbusByte) : Bool := isReadCoils mbfunc || isReadRegisters mbfunc

/-- Functions that write one register, or one coil. -/
def isWriteSingle (mbfunc : ModbusByte) : Bool :=
  mbfunc = fnWriteOutputSingleRegister.code ∨ mbfunc = fnForceSingleCoil.code

def isCoil (mbfunc : ModbusByte) : Bool :=
  mbfunc = fnForceSingleCoil.code ∨ mbfunc = fnForceMultipleCoils.code

/-- What goes into a query for a register. -/
def dataOf (mbfunc : ModbusByte) (r : RegInfo) : ModbusData :=
  if isCoil mbfunc then if r.mbval = 0 then 0 else 1 else r.mbval

/-- The values that are written from a register on.  A query of registers has no room for more than
`MAXDATALEN`. -/
def dataFrom (regs : Nat → RegInfo) (it : Nat) : List ModbusData :=
  let p := regs it
  let data := (List.range p.q_count).map fun i => dataOf p.mbfunc (regs (it + i))
  if p.mbfunc = fnWriteOutputRegisters.code then data.take MAXDATALEN else data

/-- The query for the register at `it`, or, if there is none, what is returned without it. -/
def ask (exchangeMode mode : ExchangeMode) (regs : Nat → RegInfo) (it : Nat) : Bool ⊕ Query :=
  let p := regs it
  if mode = emSkipExchange then .inl false
  else if !isPollEnabled exchangeMode (isWriteFunction p.mbfunc) then .inl true
  else if p.q_count = 0 then .inl false
  else if isRead p.mbfunc then .inr (.read p.mbfunc p.mbreg (UInt16.ofNat p.q_count))
  else if isWriteFunction p.mbfunc then
    if isWriteSingle p.mbfunc ∧ p.q_count ≠ 1 then .inl false
    else if !p.sm_initOK then .inl true
    else .inr (.write p.mbfunc p.mbreg (dataFrom regs it))
  else .inl false

def bitsOf (bs : List ModbusByte) : List ModbusData :=
  bs.flatMap fun b => (List.range BitsPerByte).map fun k => if b.toNat.testBit k then 1 else 0

/-- The values a reply carries. -/
def carried (mbfunc : ModbusByte) (bs : List ModbusByte) : List ModbusData :=
  if isReadCoils mbfunc then bitsOf bs else unswapped bs (bs.length / sizeofModbusData)

/-- The values that are taken from a reply.  Only for registers is it checked how many there are. -/
def values (p : RegInfo) : Reply → Except mbErrCode (List ModbusData)
  | .error err => .error err
  | .ok bs =>
    if isReadCoils p.mbfunc then .ok ((carried p.mbfunc bs).take p.q_count)
    else if (carried p.mbfunc bs).length ≠ (UInt16.ofNat p.q_count).toNat then
      .error erBadDataValue
    else .ok ((List.range p.q_count).map fun i => (carried p.mbfunc bs).getD i 0)

/-- The registers from the one at `it` on get values from the device. -/
def store (regs : Nat → RegInfo) (it : Nat) (vs : List ModbusData) (k : Nat) : RegInfo :=
  if it ≤ k ∧ k < it + vs.length then
    { regs k with mbval := vs.getD (k - it) 0, mb_initOK := true }
  else regs k

/-- The registers of a query but the first have no changes any more, before it is sent. -/
def clearRest (regs : Nat → RegInfo) (it : Nat) (k : Nat) : RegInfo :=
  if (regs it).mbfunc = fnWriteOutputRegisters.code ∧ it < k ∧ k < it + (regs it).q_count then
    { regs k with mbval_changed := false }
  else regs k

/-- The first register has no changes any more when the query has been sent. -/
def clearFirst (regs : Nat → RegInfo) (it : Nat) (k : Nat) : RegInfo :=
  if (regs it).mbfunc ≠ fnForceMultipleCoils.code ∧ k = it then
    { regs k with mbval_changed := false }
  else regs k

/-- The registers and the iterator after an exchange, and what is returned or thrown. -/
structure Polled where
  regs : Nat → RegInfo
  it : Nat
  result : Except mbErrCode Bool

/-- The query is sent and its reply is taken in.  The iterator is moved to the last register that
has been dealt with; `none` if it leaves the map, which has `size` registers. -/
def exchange (size : Nat) (regs : Nat → RegInfo) (it : Nat) (reply : Reply) : Option Polled :=
  let p := regs it
  if isRead p.mbfunc then
    match values p reply with
    | .error err => some ⟨regs, it, .error err⟩
    | .ok vs =>
      if it + vs.length ≤ size ∧ 0 < it + vs.length then
        some ⟨store regs it vs, it + vs.length - 1, .ok true⟩
      else none
  else if it + p.q_count ≤ size then
    let last := it + p.q_count - 1
    match reply with
    | .error err => some ⟨clearRest regs it, last, .error err⟩
    | .ok _ => some ⟨clearFirst (clearRest regs it) it, last, .ok true⟩
  else none

def pollRTU (exchangeMode mode : ExchangeMode) (size : Nat) (regs : Nat → RegInfo) (it : Nat)
    (reply : Reply) : Option Polled :=
  match ask exchangeMode mode regs it with
  | .inl answered => some ⟨regs, it, .ok answered⟩
  | .inr _ => exchange size regs it reply

/-! ## What is asked for -/

theorem isWriteFunction_of_isRead {mbfunc : ModbusByte} (h : isRead mbfunc = true) :
    isWriteFunction mbfunc = false := by
  have hcases : mbfunc = fnReadCoilStatus.code ∨ mbfunc = fnReadInputStatus.code ∨
      mbfunc = fnReadOutputRegisters.code ∨ mbfunc = fnReadInputRegisters.code := by
    simpa [isRead, isReadCoils, isReadRegisters, or_assoc] using h
  rcases hcases with rfl | rfl | rfl | rfl <;> rfl

/-- A query is sent in a mode that lets the device and the function of the register be exchanged. -/
theorem ask_eq_inr {exchangeMode mode : ExchangeMode} {regs : Nat → RegInfo} {it : Nat} {q : Query}
    (h : ask exchangeMode mode regs it = .inr q) :
    mode ≠ emSkipExchange ∧ isPollEnabled exchangeMode (isWriteFunction (regs it).mbfunc) = true ∧
      (isRead (regs it).mbfunc = true ∧
          q = .read (regs it).mbfunc (regs it).mbreg (UInt16.ofNat (regs it).q_count) ∨
        isWriteFunction (regs it).mbfunc = true ∧ (regs it).sm_initOK = true ∧
          q = .write (regs it).mbfunc (regs it).mbreg (dataFrom regs it)) := by
  unfold ask at h
  dsimp only at h
  split_ifs at h with hskip henabled hcount hread hwrite hsingle hinit
  · exact ⟨hskip, by simpa using henabled, .inl ⟨hread, (Sum.inr.inj h).symm⟩⟩
  · exact ⟨hskip, by simpa using henabled,
      .inr ⟨hwrite, by simpa using hinit, (Sum.inr.inj h).symm⟩⟩

theorem isPollEnabled_true {exchangeMode : ExchangeMode} {wrFunc : Bool}
    (h : isPollEnabled exchangeMode wrFunc = true) : exchangeMode ≠ emSkipExchange ∧
      (exchangeMode = emReadOnly → wrFunc = false) ∧ (exchangeMode = emWriteOnly → wrFunc = true) := by
  cases exchangeMode <;> cases wrFunc <;> simp_all [isPollEnabled]

theorem dataFrom_get {regs : Nat → RegInfo} {it i : Nat} {v : ModbusData}
    (h : (dataFrom regs it)[i]? = some v) : v = dataOf (regs it).mbfunc (regs (it + i)) := by
  have hmap : ∀ i, ((List.range (regs it).q_count).map fun i =>
      dataOf (regs it).mbfunc (regs (it + i)))[i]? = some v →
      v = dataOf (regs it).mbfunc (regs (it + i)) := fun i hi => by
    obtain ⟨hlt, hv⟩ := List.getElem?_eq_some_iff.mp hi
    simpa using hv.symm
  unfold dataFrom at h
  dsimp only at h
  split_ifs at h
  · rw [List.getElem?_take] at h
    split_ifs at h
    exact hmap i h
  · exact hmap i h

end Uniset.ModbusMaster
