import Mathlib.Data.Nat.ModEq
import Mathlib.Tactic.Ring

/-! Fixed-width numbers as sequences of bytes: reading, writing and reversing
the byte order. -/

namespace Uniset.Lib

/-- The `k`-th byte of a number, the least significant one first. -/
def byteAt (x k : Nat) : UInt8 := UInt8.ofNat (x / 256 ^ k % 256)

/-- The number whose bytes are `f 0, …, f (n - 1)`, the least significant first. -/
def ofBytes (f : Nat → UInt8) : Nat → Nat
  | 0 => 0
  | n + 1 => ofBytes f n + (f n).toNat * 256 ^ n

/-- The place of the `k`-th least significant of `n` bytes in memory. -/
def bytePlace (big : Bool) (n k : Nat) : Nat := if big then n - 1 - k else k

def readBytes (big : Bool) (mem : Nat → UInt8) (off n : Nat) : Nat :=
  ofBytes (fun k => mem (off + bytePlace big n k)) n

/-- The byte at place `k` when `x` is stored in `n` bytes. -/
def storedByte (big : Bool) (n x k : Nat) : UInt8 := byteAt x (bytePlace big n k)

/-- The number with its `n` bytes in the opposite order. -/
def reverseBytes (n x : Nat) : Nat := ofBytes (fun k => byteAt x (n - 1 - k)) n

@[simp] theorem byteAt_toNat (x k : Nat) : (byteAt x k).toNat = x / 256 ^ k % 256 := by
  simp [byteAt]

theorem ofBytes_congr {f g : Nat → UInt8} {n : Nat} (h : ∀ k < n, f k = g k) :
    ofBytes f n = ofBytes g n := by
  induction n with
  | zero => rfl
  | succ n ih =>
    simp only [ofBytes]
    rw [ih fun k hk => h k (Nat.lt_succ_of_lt hk), h n (Nat.lt_succ_self n)]

theorem ofBytes_byteAt (x n : Nat) : ofBytes (byteAt x) n = x % 256 ^ n := by
  induction n with
  | zero => simp [ofBytes, Nat.mod_one]
  | succ n ih =>
    rw [ofBytes, ih, byteAt_toNat, Nat.mod_pow_succ, Nat.mul_comm]

theorem bytePlace_lt {big : Bool} {n k : Nat} (h : k < n) : bytePlace big n k < n := by
  cases big <;> simp [bytePlace] <;> omega

theorem bytePlace_bytePlace {big : Bool} {n k : Nat} (h : k < n) :
    bytePlace big n (bytePlace big n k) = k := by
  cases big <;> simp [bytePlace]; omega

theorem readBytes_congr {big : Bool} {mem mem' : Nat → UInt8} {off n : Nat}
    (h : ∀ k < n, mem (off + k) = mem' (off + k)) :
    readBytes big mem off n = readBytes big mem' off n :=
  ofBytes_congr fun _ hk => h _ (bytePlace_lt hk)

/-- What was stored in `n` bytes is read back. -/
theorem readBytes_stored {big : Bool} {mem : Nat → UInt8} {off n x : Nat}
    (hx : x < 256 ^ n) (hmem : ∀ k < n, mem (off + k) = storedByte big n x k) :
    readBytes big mem off n = x := by
  have hbytes : ∀ k < n, mem (off + bytePlace big n k) = byteAt x k := by
    intro k hk
    rw [hmem _ (bytePlace_lt hk), storedByte, bytePlace_bytePlace hk]
  rw [readBytes, ofBytes_congr hbytes, ofBytes_byteAt, Nat.mod_eq_of_lt hx]

theorem ofBytes_lt (f : Nat → UInt8) (n : Nat) : ofBytes f n < 256 ^ n := by
  induction n with
  | zero => exact Nat.one_pos
  | succ n ih =>
    have hbyte : (f n).toNat < 256 := (f n).toNat_lt
    calc ofBytes f n + (f n).toNat * 256 ^ n
        < 256 ^ n + (f n).toNat * 256 ^ n := Nat.add_lt_add_right ih _
      _ = ((f n).toNat + 1) * 256 ^ n := by ring
      _ ≤ 256 * 256 ^ n := Nat.mul_le_mul_right _ hbyte
      _ = 256 ^ (n + 1) := by ring

theorem ofBytes_mod (f : Nat → UInt8) (n m : Nat) : ofBytes f (n + m) % 256 ^ n = ofBytes f n := by
  induction m with
  | zero => exact Nat.mod_eq_of_lt (ofBytes_lt f n)
  | succ m ih =>
    rw [← Nat.add_assoc, ofBytes, Nat.pow_add, Nat.mul_comm (256 ^ n), ← Nat.mul_assoc,
      Nat.add_mul_mod_self_right, ih]

/-- The bytes of a number are those that it was made of. -/
theorem byteAt_ofBytes (f : Nat → UInt8) {n k : Nat} (hk : k < n) : byteAt (ofBytes f n) k = f k := by
  refine UInt8.toNat_inj.mp ?_
  obtain ⟨m, rfl⟩ := Nat.exists_eq_add_of_lt hk
  have hbyte : (f k).toNat < 256 := (f k).toNat_lt
  rw [byteAt_toNat, ← Nat.mod_mul_right_div_self, ← Nat.pow_succ, Nat.add_right_comm, ofBytes_mod,
    ofBytes, Nat.add_mul_div_right _ _ (Nat.pow_pos (by decide)), Nat.div_eq_of_lt (ofBytes_lt f k),
    Nat.zero_add]

theorem byteAt_div (x m k : Nat) : byteAt (x / 256 ^ m) k = byteAt x (m + k) := by
  rw [byteAt, byteAt, Nat.div_div_eq_div_mul, Nat.pow_add]

theorem reverseBytes_reverseBytes {n x : Nat} (hx : x < 256 ^ n) :
    reverseBytes n (reverseBytes n x) = x := by
  have hbytes : ∀ k < n, byteAt (reverseBytes n x) (n - 1 - k) = byteAt x k := by
    intro k hk
    rw [reverseBytes, byteAt_ofBytes _ (by omega)]
    congr 1
    omega
  calc reverseBytes n (reverseBytes n x) = ofBytes (byteAt x) n := ofBytes_congr hbytes
    _ = x := by rw [ofBytes_byteAt, Nat.mod_eq_of_lt hx]

/-- The first bytes of a number in the opposite order are its last ones. -/
theorem reverseBytes_mod (n m x : Nat) :
    reverseBytes (n + m) x % 256 ^ n = reverseBytes n (x / 256 ^ m) := by
  rw [reverseBytes, ofBytes_mod]
  refine ofBytes_congr fun k hk => ?_
  rw [byteAt_div]
  congr 1
  omega

theorem reverseBytes_lt (n x : Nat) : reverseBytes n x < 256 ^ n := ofBytes_lt _ n

/-! ### The bytes of a number in memory -/

def stored (big : Bool) (n x : Nat) : List UInt8 := (List.range n).map (storedByte big n x)

@[simp] theorem length_stored (big : Bool) (n x : Nat) : (stored big n x).length = n := by
  simp [stored]

theorem getElem?_stored (big : Bool) (x : Nat) {n k : Nat} (h : k < n) :
    (stored big n x)[k]? = some (storedByte big n x k) := by
  rw [stored, List.getElem?_map, List.getElem?_range h]
  rfl

theorem stored_inj {big : Bool} {n x y : Nat} (hx : x < 256 ^ n) (hy : y < 256 ^ n) :
    stored big n x = stored big n y ↔ x = y := by
  refine ⟨fun h => ?_, fun h => h ▸ rfl⟩
  have hbytes : ∀ k < n, storedByte big n y k = storedByte big n x k := fun k hk =>
    Option.some.inj (by rw [← getElem?_stored big y hk, ← getElem?_stored big x hk, h])
  have hread : readBytes big (storedByte big n y) 0 n = x :=
    readBytes_stored hx fun k hk => by rw [Nat.zero_add, hbytes k hk]
  rw [← hread]
  exact readBytes_stored hy fun k _ => by rw [Nat.zero_add]

theorem byteAt_xor (x y k : Nat) : byteAt (x ^^^ y) k = byteAt x k ^^^ byteAt y k := by
  apply UInt8.toNat_inj.mp
  rw [UInt8.toNat_xor, byteAt_toNat, byteAt_toNat, byteAt_toNat]
  apply Nat.eq_of_testBit_eq
  intro i
  have hpow : 256 ^ k = 2 ^ (8 * k) := (Nat.pow_mul 2 8 k).symm
  have hmod : ∀ z : Nat, z % 256 = z % 2 ^ 8 := fun _ => rfl
  rw [hpow, hmod, hmod, hmod, Nat.testBit_xor, Nat.testBit_mod_two_pow, Nat.testBit_mod_two_pow,
    Nat.testBit_mod_two_pow, Nat.testBit_div_two_pow, Nat.testBit_div_two_pow, Nat.testBit_div_two_pow,
    Nat.testBit_xor]
  cases decide (i < 8) with
  | true => simp
  | false => rfl

/-- A number below 256² leaves all but two bytes side by side at zero. -/
theorem storedByte_eq_zero {big : Bool} {n x k : Nat} (hx : x < 256 ^ 2) (hk : k < n)
    (hplace : ¬ (bytePlace big n 0 = k ∨ bytePlace big n 1 = k)) : storedByte big n x k = 0 := by
  have hge : 2 ≤ bytePlace big n k := by
    unfold bytePlace at hplace ⊢
    cases big <;> simp at hplace ⊢ <;> omega
  apply UInt8.toNat_inj.mp
  have hdiv : x / 256 ^ bytePlace big n k = 0 :=
    Nat.div_eq_of_lt (hx.trans_le (Nat.pow_le_pow_right (by decide) hge))
  rw [storedByte, byteAt_toNat, hdiv]
  rfl

end Uniset.Lib
