import Mathlib.Logic.Function.Basic
import Uniset.Core
import Uniset.Lib.Bytes

/-! The datagram of the UNetUDP exchange: its fields, its image in memory and the
conversion to the byte order of the host.  An access outside an array of the
message is `none`. -/

namespace Uniset.UNetUDP

open Uniset.Lib

def UNETUDP_MAGICNUM : BitVec 7 := 3
def MaxACount : Nat := 2000
def MaxDCount : Nat := 4000
def MaxDDataCount : Nat := 1 + MaxDCount / 8

structure UDPHeader where
  be_order : Bool
  version : BitVec 7
  num : UInt64
  nodeID : Int64
  procID : Int64
  dcount : UInt16
  acount : UInt16
  dcrc : UInt16
  acrc : UInt16
  deriving DecidableEq

@[ext] structure UDPAData where
  id : Int32
  val : Int64
  deriving DecidableEq

@[ext] structure UDPMessage where
  header : UDPHeader
  a_dat : Fin MaxACount → UDPAData
  d_id : Fin MaxDCount → Int32
  d_dat : Fin MaxDDataCount → UInt8

/-- A freshly constructed message, on a host of the given byte order. -/
def UDPHeader.new (HostIsBigEndian : Bool) : UDPHeader :=
  ⟨HostIsBigEndian, UNETUDP_MAGICNUM, 0, 0, 0, 0, 0, 0, 0⟩

def UDPMessage.new (HostIsBigEndian : Bool) : UDPMessage where
  header := .new HostIsBigEndian
  a_dat := fun _ => ⟨-1, 0⟩
  d_id := fun _ => 0
  d_dat := fun _ => 0

namespace UDPMessage

@[simp] theorem new_num (host : Bool) : (new host).header.num = 0 := rfl

/-- The message with another packet number. -/
def setNum (m : UDPMessage) (n : UInt64) : UDPMessage :=
  { m with header := { m.header with num := n } }

@[simp] theorem setNum_num (m : UDPMessage) (n : UInt64) : (m.setNum n).header.num = n := rfl

theorem setNum_self (m : UDPMessage) : m.setNum m.header.num = m := rfl

def isOk (m : UDPMessage) : Bool := m.header.version == UNETUDP_MAGICNUM

/-! ### Access to the data -/

def aDat (m : UDPMessage) (i : Nat) : Option UDPAData :=
  if h : i < MaxACount then some (m.a_dat ⟨i, h⟩) else none

def dIdAt (m : UDPMessage) (i : Nat) : Option Int32 :=
  if h : i < MaxDCount then some (m.d_id ⟨i, h⟩) else none

/-- The guarded accessor: an index past the array has the default identifier. -/
def dID (m : UDPMessage) (index : Nat) : ObjectId :=
  if h : index < MaxDCount then (m.d_id ⟨index, h⟩).toInt else DefaultObjectId

def dValue (m : UDPMessage) (index : Nat) : Bool :=
  if h : index < MaxDCount then
    (m.d_dat ⟨index / 8, by simp only [MaxDDataCount, MaxDCount] at *; omega⟩
      &&& (1 <<< UInt8.ofNat (index % 8))) != 0
  else false

/-- The key of the receiver's caches: the first analog sensor, else the first digital
one, else the packet number. -/
def getDataID (m : UDPMessage) : Int :=
  if m.header.acount > 0 then (m.a_dat ⟨0, by decide⟩).id.toInt
  else if m.header.dcount > 0 then (m.d_id ⟨0, by decide⟩).toInt
  else m.header.num.toInt64.toInt

end UDPMessage

/-! ### Byte order -/

def BE16_TO_H (x : UInt16) : UInt16 := UInt16.ofNat (reverseBytes 2 x.toNat)
def BE32_TO_H (x : Int32) : Int32 := (UInt32.ofNat (reverseBytes 4 x.toUInt32.toNat)).toInt32
def BE_TO_H (x : UInt64) : UInt64 := UInt64.ofNat (reverseBytes 8 x.toNat)
def BE_TO_H_long (x : Int64) : Int64 := (BE_TO_H x.toUInt64).toInt64

/-- The header in the byte order of the host.  The macros of the two orders swap
the same bytes. -/
def UDPHeader.toHost (HostIsBigEndian : Bool) (h : UDPHeader) : UDPHeader :=
  if h.be_order = HostIsBigEndian then h
  else
    { be_order := HostIsBigEndian
      version := h.version
      num := BE_TO_H h.num
      nodeID := BE_TO_H_long h.nodeID
      procID := BE_TO_H_long h.procID
      dcount := BE16_TO_H h.dcount
      acount := BE16_TO_H h.acount
      dcrc := BE16_TO_H h.dcrc
      acrc := BE16_TO_H h.acrc }

/-- A loop `for n < count` that rewrites the elements of an array of length `len`. -/
def rewriteArray {α : Type} {len : Nat} (f : α → α) : Nat → (Fin len → α) → Option (Fin len → α)
  | 0, a => some a
  | n + 1, a => do
    let a ← rewriteArray f n a
    if h : n < len then some (Function.update a ⟨n, h⟩ (f (a ⟨n, h⟩))) else none

def UDPAData.swap (d : UDPAData) : UDPAData := ⟨BE32_TO_H d.id, BE_TO_H_long d.val⟩

def UDPMessage.ntoh (HostIsBigEndian : Bool) (m : UDPMessage) : Option UDPMessage :=
  if m.header.be_order = HostIsBigEndian then some m
  else do
    let header := m.header.toHost HostIsBigEndian
    let a_dat ← rewriteArray UDPAData.swap header.acount.toNat m.a_dat
    let d_id ← rewriteArray BE32_TO_H header.dcount.toNat m.d_id
    some { header, a_dat, d_id, d_dat := m.d_dat }

theorem rewriteArray_isSome_iff {α : Type} {len : Nat} (f : α → α) (n : Nat) (a : Fin len → α) :
    (rewriteArray f n a).isSome ↔ n ≤ len := by
  induction n with
  | zero => simp [rewriteArray]
  | succ n ih =>
    cases h : rewriteArray f n a with
    | none =>
      have hn : ¬ n ≤ len := fun hn => by simpa [h] using ih.mpr hn
      simp only [rewriteArray, h, Option.bind_eq_bind, Option.bind_none, Option.isSome_none,
        Bool.false_eq_true, false_iff]
      omega
    | some b =>
      simp only [rewriteArray, h, Option.bind_eq_bind, Option.bind_some]
      split <;> simp <;> omega

namespace UDPMessage

variable {HostIsBigEndian : Bool} {m m' : UDPMessage}

/-- Whether the counts of a header in host order stay inside the arrays. -/
def CountsFit (h : UDPHeader) : Prop := h.acount.toNat ≤ MaxACount ∧ h.dcount.toNat ≤ MaxDCount

theorem ntoh_header (h : m.ntoh HostIsBigEndian = some m') :
    m'.header = m.header.toHost HostIsBigEndian := by
  unfold ntoh at h
  split at h
  · rename_i heq
    cases h
    simp [UDPHeader.toHost, heq]
  · simp only [Option.bind_eq_bind, Option.bind_eq_some_iff] at h
    obtain ⟨_, -, _, -, h⟩ := h
    cases h
    rfl

theorem ntoh_isOk (h : m.ntoh HostIsBigEndian = some m') : m'.isOk = m.isOk := by
  have hversion : m'.header.version = m.header.version := by
    rw [ntoh_header h, UDPHeader.toHost]
    split <;> rfl
  rw [isOk, isOk, hversion]

theorem ntoh_isSome_iff :
    (m.ntoh HostIsBigEndian).isSome ↔
      (m.header.be_order ≠ HostIsBigEndian → CountsFit (m.header.toHost HostIsBigEndian)) := by
  unfold ntoh
  split
  · rename_i heq
    simp [heq]
  · rename_i hne
    have ha := rewriteArray_isSome_iff UDPAData.swap
      (m.header.toHost HostIsBigEndian).acount.toNat m.a_dat
    have hd := rewriteArray_isSome_iff BE32_TO_H
      (m.header.toHost HostIsBigEndian).dcount.toNat m.d_id
    simp only [ne_eq, hne, not_false_eq_true, true_imp_iff, CountsFit, ← ha, ← hd]
    generalize rewriteArray UDPAData.swap _ m.a_dat = ra
    generalize rewriteArray BE32_TO_H _ m.d_id = rd
    cases ra <;> cases rd <;> simp

end UDPMessage

end Uniset.UNetUDP
