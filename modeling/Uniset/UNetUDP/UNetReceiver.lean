import Mathlib.Logic.Function.Basic
import Uniset.UNetUDP.UDPPacket
import Uniset.Core
import Uniset.Lib.Writes

/-! What the UNetUDP exchange sees of SharedMemory: which sensors take a value
from it, and the value last set on each. -/

namespace Uniset.UNetUDP

open Uniset.Lib

structure SharedMemory where
  accepts : ObjectId → Bool
  value : ObjectId → Int32

namespace SharedMemory

/-- Every sensor takes values, and none has got one. -/
def initial : SharedMemory := ⟨fun _ => true, fun _ => 0⟩

/-- `none` when the sensor throws: unknown, readonly or denied. -/
def localSetValue (sm : SharedMemory) (sid : ObjectId) (value : Int32) : Option SharedMemory :=
  if sm.accepts sid then some { sm with value := Function.update sm.value sid value } else none

/-- The values of a packet set one after the other.  A sensor that throws is passed over. -/
def writeAll (sm : SharedMemory) (l : List (ObjectId × Int32)) : SharedMemory :=
  l.foldl (fun sm w => (sm.localSetValue w.1 w.2).getD sm) sm

/-- What the packet says stands in the memory already. -/
def Holds (sm : SharedMemory) (l : List (ObjectId × Int32)) : Prop :=
  ∀ sid val, sm.accepts sid = true → lastWrite l sid = some val → sm.value sid = val

theorem writeAll_concat (sm : SharedMemory) (l : List (ObjectId × Int32)) (w : ObjectId × Int32) :
    sm.writeAll (l ++ [w]) = ((sm.writeAll l).localSetValue w.1 w.2).getD (sm.writeAll l) := by
  simp [writeAll]

@[simp] theorem writeAll_accepts (sm : SharedMemory) (l : List (ObjectId × Int32)) :
    (sm.writeAll l).accepts = sm.accepts := by
  induction l using List.reverseRecOn with
  | nil => rfl
  | append_singleton l w ih =>
    rw [writeAll_concat, localSetValue]
    split <;> exact ih

theorem writeAll_value (sm : SharedMemory) (l : List (ObjectId × Int32)) (sid : ObjectId) :
    (sm.writeAll l).value sid =
      if sm.accepts sid = true then (lastWrite l sid).getD (sm.value sid) else sm.value sid := by
  induction l using List.reverseRecOn with
  | nil => simp [writeAll]
  | append_singleton l w ih =>
    rw [writeAll_concat, lastWrite_concat]
    by_cases hsid : w.1 = sid
    · subst hsid
      cases hacc : sm.accepts w.1 with
      | true => simp [localSetValue, hacc]
      | false => simp [localSetValue, hacc, ih]
    · cases hacc : sm.accepts w.1 with
      | true =>
        have hne : sid ≠ w.1 := fun h => hsid h.symm
        simp [localSetValue, hacc, hsid, Function.update_of_ne hne, ih]
      | false => simp [localSetValue, hacc, hsid, ih]

theorem holds_writeAll (sm : SharedMemory) (l : List (ObjectId × Int32)) :
    (sm.writeAll l).Holds l := by
  intro sid val hacc hlast
  rw [writeAll_accepts] at hacc
  rw [writeAll_value, if_pos hacc, hlast, Option.getD_some]

theorem Holds.writeAll_eq {sm : SharedMemory} {l : List (ObjectId × Int32)} (h : sm.Holds l) :
    sm.writeAll l = sm := by
  have hvalue : (sm.writeAll l).value = sm.value := by
    funext sid
    rw [writeAll_value]
    split
    · rename_i hacc
      cases hlast : lastWrite l sid with
      | none => rfl
      | some val => exact (h sid val hacc hlast).symm
    · rfl
  calc sm.writeAll l = ⟨(sm.writeAll l).accepts, (sm.writeAll l).value⟩ := rfl
    _ = sm := by rw [writeAll_accepts, hvalue]

/-- Writes elsewhere do not disturb what holds. -/
theorem Holds.writeAll {sm : SharedMemory} {l l' : List (ObjectId × Int32)} (h : sm.Holds l)
    (hdisj : DisjointWrites l l') : (sm.writeAll l').Holds l := by
  intro sid val hacc hlast
  rw [writeAll_accepts] at hacc
  rw [writeAll_value, if_pos hacc, hdisj.lastWrite_eq_none hlast, Option.getD_none]
  exact h sid val hacc hlast

end SharedMemory

end Uniset.UNetUDP

/-! The receiver of the UNetUDP exchange.  Packets are put into a circular buffer at
the index of their number; `receive` moves the write position `wnum`, `update`
applies what it finds at the read position `rnum` to SharedMemory. -/

namespace Uniset.UNetUDP

/-- The buffer is never empty: `setBufferSize` ignores 0. -/
abbrev BufferSize := { sz : UInt64 // 0 < sz }

/-- `num % cbufSize` -/
def BufferSize.slot (b : BufferSize) (num : UInt64) : Fin b.val.toNat :=
  ⟨(num % b.val).toNat, by
    rw [UInt64.toNat_mod]
    exact Nat.mod_lt _ (UInt64.lt_iff_toNat_lt.mp b.property)⟩

theorem BufferSize.slot_eq_iff (b : BufferSize) (m n : UInt64) :
    b.slot m = b.slot n ↔ m.toNat % b.val.toNat = n.toNat % b.val.toNat := by
  simp [slot, UInt64.toNat_mod]

inductive Mode
  | mEnabled | mDisabled
  deriving DecidableEq

inductive ReceiveRetCode
  | retOK | retError | retNoData
  deriving DecidableEq

/-- The identifiers of the cached iterators, and the crc of the data last applied. -/
structure CacheInfo where
  crc : UInt16
  items : List ObjectId
  deriving DecidableEq

abbrev CacheMap := Int → Option CacheInfo

structure UNetReceiver (b : BufferSize) where
  cbuf : Fin b.val.toNat → UDPMessage
  wnum : UInt64
  rnum : UInt64
  maxDifferens : UInt64
  lostPackets : UInt64
  ptLostTimeout : PassiveTimer
  lockUpdate : Bool
  mode : Mode
  ignoreCRC : Bool
  d_icache_map : CacheMap
  a_icache_map : CacheMap

/-- The parameters set before the receiver starts. -/
structure ReceiverConf where
  maxDifferens : UInt64
  lostTimeout : Nat
  ignoreCRC : Bool
  lockUpdate : Bool
  mode : Mode

/-- What UNetExchange sets when the configuration says nothing. -/
def ReceiverConf.default : ReceiverConf := ⟨100, 200, false, false, .mEnabled⟩

def BufferSize.default : BufferSize := ⟨100, by decide⟩

/-- A receiver that has got nothing yet. -/
def UNetReceiver.new (HostIsBigEndian : Bool) (b : BufferSize) (conf : ReceiverConf) (now : Nat) :
    UNetReceiver b where
  cbuf := fun _ => .new HostIsBigEndian
  wnum := 1
  rnum := 0
  maxDifferens := conf.maxDifferens
  lostPackets := 0
  ptLostTimeout := .setTiming conf.lostTimeout now
  lockUpdate := conf.lockUpdate
  mode := conf.mode
  ignoreCRC := conf.ignoreCRC
  d_icache_map := fun _ => none
  a_icache_map := fun _ => none

/-! ### Receiving -/

/-- `size_t(abs(long(a - b)))` -/
def absDiff (a b : UInt64) : UInt64 :=
  if (a - b).toNat < 2 ^ 63 then a - b else 0 - (a - b)

namespace UNetReceiver

variable {b : BufferSize}

/-- The number is too far from the expected one, or the reader too far behind. -/
def Disagree (r : UNetReceiver b) (num : UInt64) : Prop :=
  absDiff num r.wnum > r.maxDifferens ∨ absDiff r.wnum r.rnum ≥ b.val - 2

instance (r : UNetReceiver b) (num : UInt64) : Decidable (r.Disagree num) :=
  inferInstanceAs (Decidable (_ ∨ _))

/-- `cbuf[num % cbufSize] = (*pack); pack->header.num = 0;` with `pack` at slot `w`. -/
def movePack (cbuf : Fin b.val.toNat → UDPMessage) (w : Fin b.val.toNat) (num : UInt64) :
    Fin b.val.toNat → UDPMessage :=
  let moved := Function.update cbuf (b.slot num) (cbuf w)
  Function.update moved w ((moved w).setNum 0)

/-- `receive` from the point where the message stands in the slot of `wnum`, already in the
byte order of the host. -/
def receivePack (pack : UDPMessage) (r : UNetReceiver b) : ReceiveRetCode × UNetReceiver b :=
  let w := b.slot r.wnum
  let num := pack.header.num
  let cbuf := Function.update r.cbuf w pack
  if !pack.isOk then (.retError, { r with cbuf })
  else if r.Disagree num then
    (.retOK,
      { r with
        lostPackets := r.lostPackets + (if num > r.wnum then num - r.wnum - 1 else 1)
        rnum := num
        wnum := num + 1
        cbuf := if num + 1 ≠ num then movePack cbuf w num else cbuf })
  else
    let cbuf := if num ≠ r.wnum then movePack cbuf w num else cbuf
    (.retOK,
      { r with
        cbuf
        wnum := if num ≠ r.wnum then (if num ≥ r.wnum then num + 1 else r.wnum) else r.wnum + 1
        -- the number is read back from the slot `pack` points to
        rnum := if r.rnum = 0 then (cbuf w).header.num else r.rnum })

/-- `receive` of a whole message; `none` when the conversion leaves an array. -/
def receiveMessage (HostIsBigEndian : Bool) (msg : UDPMessage) (r : UNetReceiver b) :
    Option (ReceiveRetCode × UNetReceiver b) :=
  (msg.ntoh HostIsBigEndian).map fun pack => r.receivePack pack

/-! ### Updating SharedMemory -/

def rnextFrom (r : UNetReceiver b) (num : UInt64) : Nat → UInt64 → UInt64
  | 0, _ => r.wnum
  | fuel + 1, i =>
    if i < r.wnum then
      if (r.cbuf (b.slot i)).header.num > num then i else rnextFrom r num fuel (i + 1)
    else r.wnum

def rnext (r : UNetReceiver b) (num : UInt64) : UInt64 :=
  r.rnextFrom num (r.wnum - (num + 1)).toNat (num + 1)

end UNetReceiver

/-- `getDCache` and `getACache`: the cache of a packet, filled anew from the identifiers of the
packet when their count differs. -/
def CacheMap.get (c : CacheMap) (dID : Int) (count : Nat) (idAt : Nat → Option ObjectId) :
    Option CacheInfo :=
  let info := (c dID).getD ⟨0, []⟩
  if count = info.items.length then some info
  else ((List.range count).mapM idAt).map fun items => ⟨0, items⟩

/-- One item of a packet.  An exception of SharedMemory forgets the crc. -/
def setItem (i : Nat) (sid : ObjectId) (val : Int32) (st : CacheInfo × SharedMemory) :
    Option (CacheInfo × SharedMemory) :=
  if h : i < st.1.items.length then
    let info := if st.1.items[i] ≠ sid then { st.1 with items := st.1.items.set i sid } else st.1
    match st.2.localSetValue sid val with
    | some sm => some (info, sm)
    | none => some ({ info with crc := 0 }, st.2)
  else none

def setItems (item : Nat → Option (ObjectId × Int32)) :
    Nat → CacheInfo × SharedMemory → Option (CacheInfo × SharedMemory)
  | 0, st => some st
  | n + 1, st => do
    let st ← setItems item n st
    let (sid, val) ← item n
    setItem n sid val st

/-- Processing the data of one kind in a packet: nothing is done when the crc is the one
remembered in the cache. -/
def applyItems (ignoreCRC : Bool) (c : CacheMap) (sm : SharedMemory) (dID : Int) (crc : UInt16)
    (count : Nat) (idAt : Nat → Option ObjectId) (item : Nat → Option (ObjectId × Int32)) :
    Option (CacheMap × SharedMemory) := do
  let info ← c.get dID count idAt
  if crc = 0 ∨ info.crc ≠ crc ∨ ignoreCRC then
    let (info, sm) ← setItems item count ({ info with crc }, sm)
    some (Function.update c dID (some info), sm)
  else some (Function.update c dID (some info), sm)

namespace UDPMessage

def dItemId (p : UDPMessage) (i : Nat) : Option ObjectId := (p.dIdAt i).map Int32.toInt

def dItem (p : UDPMessage) (i : Nat) : Option (ObjectId × Int32) :=
  some (p.dID i, if p.dValue i then 1 else 0)

def aItemId (p : UDPMessage) (i : Nat) : Option ObjectId := (p.aDat i).map fun d => d.id.toInt

def aItem (p : UDPMessage) (i : Nat) : Option (ObjectId × Int32) :=
  (p.aDat i).map fun d => (d.id.toInt, d.val.toInt32)

end UDPMessage

def applyDigital (ignoreCRC : Bool) (c : CacheMap) (sm : SharedMemory) (p : UDPMessage) :
    Option (CacheMap × SharedMemory) :=
  applyItems ignoreCRC c sm p.getDataID p.header.dcrc p.header.dcount.toNat p.dItemId p.dItem

def applyAnalog (ignoreCRC : Bool) (c : CacheMap) (sm : SharedMemory) (p : UDPMessage) :
    Option (CacheMap × SharedMemory) :=
  applyItems ignoreCRC c sm p.getDataID p.header.acrc p.header.acount.toNat p.aItemId p.aItem

/-- How one turn of the loop of `update` ends. -/
inductive Turn (b : BufferSize)
  | wait
  | again (r : UNetReceiver b) (sm : SharedMemory) (applied : Option UDPMessage)

namespace UNetReceiver

variable {b : BufferSize}

def applyPacket (r : UNetReceiver b) (sm : SharedMemory) (p : UDPMessage) :
    Option (UNetReceiver b × SharedMemory) := do
  let (d_icache_map, sm) ← applyDigital r.ignoreCRC r.d_icache_map sm p
  let (a_icache_map, sm) ← applyAnalog r.ignoreCRC r.a_icache_map sm p
  some ({ r with d_icache_map, a_icache_map }, sm)

/-- What `update` adds to the counter of lost packets at a hole. -/
def holeSub (r : UNetReceiver b) : UInt64 :=
  let p := r.cbuf (b.slot r.rnum)
  if p.header.num > r.rnum then p.header.num - r.rnum else 1

/-- `ptLostTimeout.reset(); rnum++;` -/
def advance (now : Nat) (r : UNetReceiver b) : UNetReceiver b :=
  { r with ptLostTimeout := r.ptLostTimeout.reset now, rnum := r.rnum + 1 }

/-- The body of the loop of `update`. -/
def turn (now : Nat) (r : UNetReceiver b) (sm : SharedMemory) : Option (Turn b) :=
  let p := r.cbuf (b.slot r.rnum)
  if p.header.num ≠ r.rnum then
    if r.ptLostTimeout.checkTime now then
      some (.again
        { r with lostPackets := r.lostPackets + r.holeSub, rnum := r.rnext r.rnum } sm none)
    else some .wait
  else
    let r := r.advance now
    if r.lockUpdate then some (.again r sm none)
    else if r.mode = .mDisabled then some (.again r sm none)
    else (r.applyPacket sm p).map fun (r, sm) => .again r sm (some p)

/-- `while( rnum < wnum )`; the clock is read anew in every turn.  The packets applied are
listed in their order. -/
def updateLoop (clock : Nat → Nat) : Nat → Nat → UNetReceiver b → SharedMemory →
    Option (UNetReceiver b × SharedMemory × List UDPMessage)
  | 0, _, r, sm => some (r, sm, [])
  | fuel + 1, k, r, sm =>
    if r.rnum < r.wnum then
      match r.turn (clock k) sm with
      | none => none
      | some .wait => some (r, sm, [])
      | some (.again r sm applied) =>
        (updateLoop clock fuel (k + 1) r sm).map fun (r, sm, ps) => (r, sm, applied.toList ++ ps)
    else some (r, sm, [])

def update (clock : Nat → Nat) (r : UNetReceiver b) (sm : SharedMemory) :
    Option (UNetReceiver b × SharedMemory × List UDPMessage) :=
  if r.wnum = 1 ∧ r.rnum = 0 then some (r, sm, [])
  else r.updateLoop clock (r.wnum - r.rnum).toNat 0 sm

def setLockUpdate (st : Bool) (r : UNetReceiver b) : UNetReceiver b := { r with lockUpdate := st }

end UNetReceiver

end Uniset.UNetUDP
