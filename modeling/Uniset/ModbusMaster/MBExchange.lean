import Uniset.ModbusMaster.PollCycle

/-! The exchange with the devices, as it goes on while sensors and modes change. -/

namespace Uniset.ModbusMaster

open Uniset.Modbus ExchangeMode

/-- A register that is read before it is written, of the values of a sensor in `rnum` registers. -/
structure PreInit where
  dev : Nat
  ri : Nat
  rnum : Nat
  mbreg : ModbusData
  mbfunc : ModbusByte
  initOK : Bool
  deriving DecidableEq

/-- The registers are numbered in each device.  `value` is what the sensors in `SharedMemory` make
of them, `cached` what they made when the exchange was told of them; `initPos` is where the loop
over the list is, while it goes on. -/
structure MBExchange where
  force_out : Bool
  ask_every_reg : Nat → Bool
  exchangeMode : ExchangeMode
  mode : Nat → ExchangeMode
  regs : Nat → Nat → RegInfo
  value : Nat → Nat → ModbusData
  cached : Nat → Nat → ModbusData
  initRegList : List PreInit
  allInitOK : Bool
  initPos : Option Nat

def RegInfo.setMBVal (r : RegInfo) (nv : ModbusData) : RegInfo :=
  { r with mbval := nv, mbval_changed := r.mbval_changed || r.mbval ≠ nv }

/-- Values in registers that follow each other. -/
def putWords {α : Type} (f : Nat → α) (k : Nat) (vs : List ModbusData) (put : α → ModbusData → α)
    (j : Nat) : α :=
  if k ≤ j ∧ j < k + vs.length then put (f j) (vs.getD (j - k) 0) else f j

/-- The words of a value are set, and its first register has the mark of a change of any. -/
def setWords (regs : Nat → RegInfo) (k : Nat) (vs : List ModbusData) : Nat → RegInfo :=
  let set := putWords regs k vs RegInfo.setMBVal
  Function.update set k { set k with
    mbval_changed := (set k).mbval_changed ||
      (List.range vs.length).any fun i => (set (k + i)).mbval_changed
    sm_initOK := true }

inductive ExchangeStep
  | setExchangeMode (m : ExchangeMode)
  | setMode (d : Nat) (m : ExchangeMode)
  | initValues
  | sensorInfo (d k : Nat) (vs : List ModbusData) (ok : Bool)
  | updateSM (d k n : Nat) (ok : Bool)
  | newChannel
  | firstInitRegisters
  | preInitRead (reply : Reply) (vs : List ModbusData) (ok : Bool)
  | poll (d pollfactor it size : Nat) (reply : Reply)

namespace MBExchange

def setRegs (s : MBExchange) (d : Nat) (regs : Nat → RegInfo) : MBExchange :=
  { s with regs := Function.update s.regs d regs }

/-- What has been told of a sensor, or is asked for. -/
def setCached (s : MBExchange) (d k : Nat) (vs : List ModbusData) : MBExchange :=
  { s with cached := Function.update s.cached d (putWords (s.cached d) k vs fun _ v => v) }

def setValue (s : MBExchange) (d k : Nat) (vs : List ModbusData) : MBExchange :=
  { s with value := Function.update s.value d (putWords (s.value d) k vs fun _ v => v) }

def words (f : Nat → ModbusData) (k n : Nat) : List ModbusData :=
  (List.range n).map fun i => f (k + i)

/-- Whether a register and its sensor are brought together. -/
def updates (s : MBExchange) (d k : Nat) : Bool :=
  isUpdateSM s.exchangeMode (s.mode d) (isWriteFunction (s.regs d k).mbfunc) &&
    (s.regs d k).mb_initOK

/-- A value in `n` registers and its sensor are brought together; `ok` if `SharedMemory` can be
reached.  What is read goes to the sensor, and the registers stay. -/
def updateRSProperty (s : MBExchange) (d k n : Nat) (force ok : Bool) : MBExchange :=
  if !s.updates d k then s
  else if !ok then s.setRegs d (Function.update (s.regs d) k { s.regs d k with sm_initOK := false })
  else if isWriteFunction (s.regs d k).mbfunc then
    let s := if force then s.setCached d k (words (s.value d) k n) else s
    s.setRegs d (setWords (s.regs d) k (words (s.cached d) k n))
  else s

/-- The values are asked for, and all the registers count as initialised. -/
def initValues (s : MBExchange) : MBExchange :=
  { s with
    cached := s.value
    regs := fun d k => { s.regs d k with sm_initOK := true } }

/-- A sensor has another value, of which the exchange is told. -/
def sensorInfo (s : MBExchange) (d k : Nat) (vs : List ModbusData) (ok : Bool) : MBExchange :=
  let r := s.regs d k
  let s := s.setValue d k vs
  if s.force_out || !isWriteFunction r.mbfunc || !r.mb_initOK then s
  else (s.setCached d k vs).updateRSProperty d k vs.length false ok

/-- The loop begins, which is to find that all has been read. -/
def firstInitRegisters (s : MBExchange) : MBExchange :=
  if s.initPos = none ∧ !s.allInitOK then
    { s with allInitOK := true, initPos := if s.initRegList = [] then none else some 0 }
  else s

/-- The loop goes on to the next register, or it is over. -/
def nextInit (s : MBExchange) (i : Nat) : MBExchange :=
  { s with initPos := if i + 1 < s.initRegList.length then some (i + 1) else none }

/-- A reply is taken for the values of so many registers. -/
def accepted (mbfunc : ModbusByte) (count : Nat) : Reply → Bool
  | .error _ => false
  | .ok bs => isReadCoils mbfunc || (carried mbfunc bs).length = (UInt16.ofNat count).toNat

/-- A register has been read: its sensor gets the value, and the register is updated from it. -/
def setRead (s : MBExchange) (i : Nat) (e : PreInit) (vs : List ModbusData) : MBExchange :=
  let s := { s with initRegList := s.initRegList.set i { e with initOK := true } }
  let s := s.setValue e.dev e.ri vs
  let s := s.setRegs e.dev
    (Function.update (s.regs e.dev) e.ri { s.regs e.dev e.ri with mb_initOK := true })
  s.updateRSProperty e.dev e.ri e.rnum true true

/-- One register of the list; the last of them tells whether all has been read. -/
def preInitRead (s : MBExchange) (reply : Reply) (vs : List ModbusData) (ok : Bool) : MBExchange :=
  match s.initPos with
  | none => s
  | some i =>
    match s.initRegList[i]? with
    | none => { s with initPos := none }
    | some e =>
      if e.initOK then { s with allInitOK := true }.nextInit i
      else if !isRead e.mbfunc then { s with allInitOK := false }.nextInit i
      else if !accepted e.mbfunc e.rnum reply then
        if s.ask_every_reg e.dev then { s with allInitOK := false }.nextInit i
        else { s with allInitOK := false, initPos := none }
      else if ok then ({ s with allInitOK := true }.setRead i e vs).nextInit i
      else { s with allInitOK := false }.nextInit i

/-- A register comes up in a pass, when the loop over the list is not going on. -/
def polls (s : MBExchange) (d pollfactor it : Nat) : Bool :=
  s.initPos = none && asks ⟨s.exchangeMode, s.mode d, s.ask_every_reg d, pollfactor⟩ (s.regs d) it

def poll (s : MBExchange) (d pollfactor it size : Nat) (reply : Reply) : MBExchange :=
  if s.polls d pollfactor it then
    match exchange size (s.regs d) it reply with
    | some polled => s.setRegs d polled.regs
    | none => s
  else s

def step (s : MBExchange) : ExchangeStep → MBExchange
  | .setExchangeMode m => { s with exchangeMode := m }
  | .setMode d m => { s with mode := Function.update s.mode d m }
  | .initValues => s.initValues
  | .sensorInfo d k vs ok => s.sensorInfo d k vs ok
  | .updateSM d k n ok => s.updateRSProperty d k n s.force_out ok
  | .newChannel => if s.initPos = none then { s with allInitOK := false } else s
  | .firstInitRegisters => s.firstInitRegisters
  | .preInitRead reply vs ok => s.preInitRead reply vs ok
  | .poll d pollfactor it size reply => s.poll d pollfactor it size reply

/-- The register that is to be read next, if it has not been. -/
def reading (s : MBExchange) : Option PreInit :=
  match s.initPos.bind (s.initRegList[·]?) with
  | some e => if !e.initOK && isRead e.mbfunc then some e else none
  | none => none

/-- The query a step sends, and the device it goes to. -/
def sent (s : MBExchange) : ExchangeStep → Option (Nat × Query)
  | .preInitRead _ _ _ =>
    s.reading.map fun e => (e.dev, .read e.mbfunc e.mbreg (UInt16.ofNat e.rnum))
  | .poll d pollfactor it _ _ =>
    if s.polls d pollfactor it then
      match ask s.exchangeMode (s.mode d) (s.regs d) it with
      | .inl _ => none
      | .inr q => some (d, q)
    else none
  | _ => none

/-- The device of which something that has been read is saved. -/
def saved (s : MBExchange) : ExchangeStep → Option Nat
  | .preInitRead reply _ ok =>
    match s.reading with
    | some e => if accepted e.mbfunc e.rnum reply && ok then some e.dev else none
    | none => none
  | .updateSM d k _ ok =>
    if s.updates d k && !isWriteFunction (s.regs d k).mbfunc && ok then some d else none
  | _ => none

@[simp] theorem length_words (f : Nat → ModbusData) (k n : Nat) : (words f k n).length = n := by
  simp [words]

theorem getD_words (f : Nat → ModbusData) {k n j : Nat} (hk : k ≤ j) (hj : j < k + n) :
    (words f k n).getD (j - k) 0 = f j := by
  have hplace : j - k < n := by omega
  simp [words, List.getD_eq_getElem?_getD, hplace, Nat.add_sub_cancel' hk]

theorem setWords_mbval (regs : Nat → RegInfo) (k : Nat) (vs : List ModbusData) (j : Nat) :
    (setWords regs k vs j).mbval =
      if k ≤ j ∧ j < k + vs.length then vs.getD (j - k) 0 else (regs j).mbval := by
  unfold setWords
  by_cases hj : j = k
  · subst hj
    simp only [Function.update_self, putWords]
    split_ifs <;> rfl
  · simp only [Function.update_of_ne hj, putWords]
    split_ifs <;> rfl

theorem setWords_flags (regs : Nat → RegInfo) (k : Nat) (vs : List ModbusData) (j : Nat) :
    (setWords regs k vs j).q_count = (regs j).q_count ∧
      (setWords regs k vs j).mbfunc = (regs j).mbfunc ∧
      ((regs j).sm_initOK = true → (setWords regs k vs j).sm_initOK = true) := by
  unfold setWords
  by_cases hj : j = k
  · subst hj
    simp only [Function.update_self, putWords]
    split_ifs <;> exact ⟨rfl, rfl, fun _ => trivial⟩
  · simp only [Function.update_of_ne hj, putWords]
    split_ifs <;> exact ⟨rfl, rfl, id⟩

theorem setWords_mbfunc (regs : Nat → RegInfo) (k : Nat) (vs : List ModbusData) (j : Nat) :
    (setWords regs k vs j).mbfunc = (regs j).mbfunc := (setWords_flags regs k vs j).2.1

/-- What an update of one register leaves as it is. -/
theorem update_regs_same {α : Type} (f : RegInfo → α) (regs : Nat → Nat → RegInfo) {d k : Nat}
    {r : RegInfo} (h : f r = f (regs d k)) (d' j : Nat) :
    f (Function.update regs d (Function.update (regs d) k r) d' j) = f (regs d' j) := by
  by_cases hd : d' = d
  · subst hd
    by_cases hj : j = k
    · subst hj
      simpa using h
    · simp [hj]
  · simp [hd]

theorem sent_poll {s : MBExchange} {d pollfactor it size d' : Nat} {reply : Reply} {q : Query}
    (h : s.sent (.poll d pollfactor it size reply) = some (d', q)) :
    d' = d ∧ s.polls d pollfactor it = true ∧
      ask s.exchangeMode (s.mode d) (s.regs d) it = .inr q := by
  unfold sent at h
  dsimp only at h
  split_ifs at h with hpolls
  cases hask : ask s.exchangeMode (s.mode d) (s.regs d) it with
  | inl b =>
    rw [hask] at h
    cases h
  | inr q' =>
    rw [hask] at h
    cases h
    exact ⟨rfl, hpolls, rfl⟩

/-- What can happen to the register that is read next: there is none; it has been read before; it is
not read; or it is. -/
theorem preInitRead_cases (s : MBExchange) (reply : Reply) (vs : List ModbusData) (ok : Bool) :
    s.initPos.bind (s.initRegList[·]?) = none ∧
      s.preInitRead reply vs ok = { s with initPos := none } ∨
    (∃ i e, s.initPos = some i ∧ s.initRegList[i]? = some e ∧ e.initOK = true ∧
      s.preInitRead reply vs ok = { s with allInitOK := true }.nextInit i) ∨
    (∃ i e pos, s.initPos = some i ∧ s.initRegList[i]? = some e ∧ e.initOK = false ∧
      (pos = none ∨ pos = (s.nextInit i).initPos) ∧
      s.preInitRead reply vs ok = { s with allInitOK := false, initPos := pos }) ∨
    ∃ i e, s.initPos = some i ∧ s.initRegList[i]? = some e ∧ s.reading = some e ∧
      (accepted e.mbfunc e.rnum reply && ok) = true ∧ s.preInitRead reply vs ok =
        ({ s with allInitOK := true }.setRead i e vs).nextInit i := by
  unfold preInitRead
  cases hpos : s.initPos with
  | none => exact .inl ⟨rfl, by cases s; cases hpos; rfl⟩
  | some i =>
    cases he : s.initRegList[i]? with
    | none => exact .inl ⟨he, by simp only [he]⟩
    | some e =>
      simp only [he]
      by_cases hinit : e.initOK = true
      · rw [if_pos hinit]
        exact .inr (.inl ⟨i, e, rfl, he, hinit, rfl⟩)
      · rw [if_neg hinit]
        have hinit' : e.initOK = false := by simpa using hinit
        by_cases hread : isRead e.mbfunc = true
        · rw [if_neg (by simp [hread])]
          by_cases haccepted : accepted e.mbfunc e.rnum reply = true
          · rw [if_neg (by simp [haccepted])]
            cases ok with
            | true =>
              refine .inr (.inr (.inr ⟨i, e, rfl, he, ?_, by rw [haccepted]; rfl, if_pos rfl⟩))
              simp [reading, hpos, he, hinit', hread]
            | false => exact .inr (.inr (.inl ⟨i, e, _, rfl, he, hinit', .inr rfl, rfl⟩))
          · rw [if_pos (by simpa using haccepted)]
            split_ifs
            · exact .inr (.inr (.inl ⟨i, e, _, rfl, he, hinit', .inr rfl, rfl⟩))
            · exact .inr (.inr (.inl ⟨i, e, none, rfl, he, hinit', .inl rfl, rfl⟩))
        · rw [if_pos (by simpa using hread)]
          exact .inr (.inr (.inl ⟨i, e, _, rfl, he, hinit', .inr rfl, rfl⟩))

end MBExchange

end Uniset.ModbusMaster
