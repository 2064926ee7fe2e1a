import Mathlib.Logic.Function.Basic
import Mathlib.Data.List.Nodup
import Uniset.Core
import Uniset.Lib.GuardedRun

/-! The two channels of a node: `receiverEvent` decides which of its receivers updates
SharedMemory. -/

namespace Uniset.UNetUDP

open Uniset.Lib

/-- Receivers are told apart by their address. -/
abbrev ReceiverId := Nat

inductive UNetReceiver.Event
  | evOK | evTimeout
  deriving DecidableEq

/-- The part of a receiver that watches over the connection. -/
structure Channel where
  lockUpdate : Bool
  ptRecvTimeout : PassiveTimer
  ptPrepare : PassiveTimer
  trTimeout : Trigger
  deriving DecidableEq

namespace Channel

def isRecvOK (now : Nat) (c : Channel) : Bool := !c.ptRecvTimeout.checkTime now

def setLockUpdate (now : Nat) (st : Bool) (c : Channel) : Channel :=
  { c with lockUpdate := st, ptPrepare := if st then c.ptPrepare else c.ptPrepare.reset now }

/-- A packet was accepted. -/
def received (now : Nat) (c : Channel) : Channel :=
  { c with ptRecvTimeout := c.ptRecvTimeout.reset now }

def resetTimeout (now : Nat) (c : Channel) : Channel :=
  { c with ptRecvTimeout := c.ptRecvTimeout.reset now, trTimeout := (c.trTimeout.change false).2 }

/-- The event `checkConnection` sends, if any.  While the receiver prepares it sends none. -/
def checkConnection (now : Nat) (c : Channel) : Option UNetReceiver.Event × Channel :=
  let tout := c.ptRecvTimeout.checkTime now
  if c.ptPrepare.checkTime now then
    let (changed, trTimeout) := c.trTimeout.change tout
    (if changed then some (if tout then .evTimeout else .evOK) else none, { c with trTimeout })
  else (none, c)

@[simp] theorem setLockUpdate_lockUpdate (now : Nat) (st : Bool) (c : Channel) :
    (c.setLockUpdate now st).lockUpdate = st := rfl

@[simp] theorem setLockUpdate_isRecvOK (now now' : Nat) (st : Bool) (c : Channel) :
    (c.setLockUpdate now st).isRecvOK now' = c.isRecvOK now' := rfl

@[simp] theorem received_lockUpdate (now : Nat) (c : Channel) :
    (c.received now).lockUpdate = c.lockUpdate := rfl

@[simp] theorem resetTimeout_lockUpdate (now : Nat) (c : Channel) :
    (c.resetTimeout now).lockUpdate = c.lockUpdate := rfl

@[simp] theorem checkConnection_lockUpdate (now : Nat) (c : Channel) :
    (c.checkConnection now).2.lockUpdate = c.lockUpdate := by
  unfold checkConnection
  split <;> rfl

@[simp] theorem checkConnection_isRecvOK (now now' : Nat) (c : Channel) :
    (c.checkConnection now).2.isRecvOK now' = c.isRecvOK now' := by
  unfold checkConnection
  split <;> rfl

/-- A loss is reported only by a channel that is not connected, and time does not mend it. -/
theorem not_isRecvOK_of_timeout {now now' : Nat} {c : Channel} (hle : now ≤ now')
    (h : (c.checkConnection now).1 = some .evTimeout) : c.isRecvOK now' = false := by
  have htout : c.ptRecvTimeout.checkTime now = true := by
    unfold checkConnection at h
    by_contra htout
    simp only [Bool.not_eq_true] at htout
    simp only [htout] at h
    split at h
    · split at h <;> simp at h
    · simp at h
  simp only [isRecvOK, c.ptRecvTimeout.checkTime_mono hle htout, Bool.not_true]

end Channel

/-- The receivers of a node. -/
structure ReceiverInfo where
  r1 : Option ReceiverId
  r2 : Option ReceiverId
  channelSwitchCount : Nat
  deriving DecidableEq

/-- `r && r->isRecvOK()` -/
def isRecvOK (now : Nat) (rcv : ReceiverId → Channel) : Option ReceiverId → Bool
  | none => false
  | some r => (rcv r).isRecvOK now

/-- `r->setLockUpdate(st)` -/
def setLockUpdate (now : Nat) (st : Bool) (r : ReceiverId) (rcv : ReceiverId → Channel) :
    ReceiverId → Channel :=
  Function.update rcv r ((rcv r).setLockUpdate now st)

/-- An event of one of the receivers of a node, `mine`.  The branches for the two channels differ
only in which one is `mine`, and in which of the two is set first. -/
def ReceiverInfo.event (now : Nat) (ev : UNetReceiver.Event) (mine : ReceiverId)
    (other : Option ReceiverId) (it : ReceiverInfo) (rcv : ReceiverId → Channel) :
    ReceiverInfo × (ReceiverId → Channel) :=
  match ev with
  | .evTimeout =>
    match other with
    | none => (it, rcv)
    | some other =>
      if !isRecvOK now rcv (some other) then (it, rcv)
      else
        ({ it with channelSwitchCount := it.channelSwitchCount + 1 },
          setLockUpdate now false other (setLockUpdate now true mine rcv))
  | .evOK =>
    if !isRecvOK now rcv other then
      let rcv := setLockUpdate now false mine rcv
      let rcv := match other with
        | none => rcv
        | some other => setLockUpdate now true other rcv
      -- the first channel to come up is not a switch
      (if it.channelSwitchCount > 0 then
        { it with channelSwitchCount := it.channelSwitchCount + 1 } else it, rcv)
    else (it, rcv)

/-- The loop over `recvlist`: the first node that has the receiver handles the event. -/
def recvlistEvent (now : Nat) (r : ReceiverId) (ev : UNetReceiver.Event) :
    List ReceiverInfo → (ReceiverId → Channel) → List ReceiverInfo × (ReceiverId → Channel)
  | [], rcv => ([], rcv)
  | it :: rest, rcv =>
    if it.r1 = some r then
      let (it, rcv) := it.event now ev r it.r2 rcv
      (it :: rest, rcv)
    else if it.r2 = some r then
      let (it, rcv) := it.event now ev r it.r1 rcv
      (it :: rest, rcv)
    else
      let (rest, rcv) := recvlistEvent now r ev rest rcv
      (it :: rest, rcv)

structure UNetExchange where
  recvlist : List ReceiverInfo
  rcv : ReceiverId → Channel

namespace UNetExchange

def receiverEvent (now : Nat) (r : ReceiverId) (ev : UNetReceiver.Event) (ex : UNetExchange) :
    UNetExchange :=
  let (recvlist, rcv) := recvlistEvent now r ev ex.recvlist ex.rcv
  { recvlist, rcv }

/-- `checkConnection` of a receiver, its event included.  The clock is read again for the
handler. -/
def checkConnection (now now' : Nat) (r : ReceiverId) (ex : UNetExchange) :
    Option UNetReceiver.Event × UNetExchange :=
  let (ev, c) := (ex.rcv r).checkConnection now
  let ex := { ex with rcv := Function.update ex.rcv r c }
  (ev, match ev with
    | none => ex
    | some ev => ex.receiverEvent now' r ev)

/-- What happens to the channels of an exchange. -/
inductive Action
  | received (r : ReceiverId) (now : Nat)
  | resetTimeout (r : ReceiverId) (now : Nat)
  | checkConnection (r : ReceiverId) (now now' : Nat)
  | receiverEvent (r : ReceiverId) (ev : UNetReceiver.Event) (now : Nat)

def step (ex : UNetExchange) : Action → UNetExchange
  | .received r now => { ex with rcv := Function.update ex.rcv r ((ex.rcv r).received now) }
  | .resetTimeout r now => { ex with rcv := Function.update ex.rcv r ((ex.rcv r).resetTimeout now) }
  | .checkConnection r now now' => (ex.checkConnection now now' r).2
  | .receiverEvent r ev now => ex.receiverEvent now r ev

end UNetExchange

end Uniset.UNetUDP
