import Mathlib.Order.Defs.LinearOrder

/-! Counters of 64 bits, as far as they do not wrap, and their remainders where they do. -/

namespace Uniset.Lib

instance linearOrderUInt64 : LinearOrder UInt64 where
  le_refl _ := UInt64.le_refl _
  le_trans _ _ _ := UInt64.le_trans
  lt_iff_le_not_ge a b := by
    simp only [UInt64.le_iff_toNat_le, UInt64.lt_iff_toNat_lt]
    omega
  le_antisymm _ _ := UInt64.le_antisymm
  le_total := UInt64.le_total
  toDecidableLE := inferInstance
  toDecidableEq := inferInstance
  toDecidableLT := inferInstance

theorem toNat_succ {i w : UInt64} (h : i < w) : (i + 1).toNat = i.toNat + 1 := by
  have hw := w.toNat_lt
  rw [UInt64.lt_iff_toNat_lt] at h
  rw [UInt64.toNat_add]
  simp only [UInt64.toNat_one]
  omega

theorem succ_le {i w : UInt64} (h : i < w) : i + 1 ≤ w := by
  rw [UInt64.le_iff_toNat_le, toNat_succ h]
  exact UInt64.lt_iff_toNat_lt.mp h

theorem lt_succ {i w : UInt64} (h : i < w) : i < i + 1 := by
  rw [UInt64.lt_iff_toNat_lt, toNat_succ h]
  exact Nat.lt_succ_self _

/-- A counter counts on unless it wraps. -/
theorem toNat_add_one_iff (n : UInt64) : (n + 1).toNat = n.toNat + 1 ↔ n + 1 ≠ 0 := by
  have hn := n.toNat_lt
  have hsucc : (n + 1).toNat = (n.toNat + 1) % 2 ^ 64 := by
    rw [UInt64.toNat_add]
    rfl
  constructor
  · intro h hzero
    rw [hzero] at h
    cases h
  · intro h
    have hnat : (n + 1).toNat ≠ 0 := fun hzero => h (UInt64.toNat_inj.mp hzero)
    omega

/-- The wrap is not felt by the remainders of a divisor of the range. -/
theorem toNat_sub_add_mod {n : Nat} (hdvd : n ∣ UInt64.size) (a b : UInt64) :
    ((a - b).toNat + b.toNat) % n = a.toNat % n := by
  have hb := b.toNat_lt
  change n ∣ 2 ^ 64 at hdvd
  calc
    ((a - b).toNat + b.toNat) % n = ((2 ^ 64 - b.toNat + a.toNat) % 2 ^ 64 % n + b.toNat) % n := by
      rw [UInt64.toNat_sub, Nat.mod_add_mod]
    _ = (2 ^ 64 - b.toNat + a.toNat + b.toNat) % n := by
      rw [Nat.mod_mod_of_dvd _ hdvd, Nat.mod_add_mod]
    _ = (a.toNat + 2 ^ 64) % n := by
      congr 1
      omega
    _ = a.toNat % n := by
      rw [Nat.add_mod, Nat.mod_eq_zero_of_dvd hdvd, Nat.add_zero, Nat.mod_mod]

end Uniset.Lib
