import Mathlib.Algebra.Order.Ring.Nat
import Mathlib.Tactic.IntervalCases
import Uniset.Launcher.ProcessInfo

/-! The delays before the attempts to start a process again. -/

namespace Uniset.Launcher

/-- The delay before each attempt is doubled up to the most one; it never ends, nor gets shorter. -/
structure BacksOff (delay : Nat → Option Nat) (restartDelay maxRestartDelay n : Nat) : Prop where
  exact : delay n = some (min (restartDelay * 2 ^ (n - 1)) maxRestartDelay)
  pos : 0 < restartDelay → delay n ≠ some 0
  mono : ∀ k, 1 ≤ k → k ≤ n → ∀ d ∈ delay k, ∀ d' ∈ delay n, d ≤ d'

/-- The first delay is not over the most one, the power is that of an `int`, and a product that wraps
is over the most one all the same. -/
structure BackoffFits (restartDelay maxRestartDelay n : Nat) : Prop where
  cap : restartDelay ≤ maxRestartDelay
  width : n ≤ 32
  product : n < 32 → restartDelay * 2 ^ (n - 1) < 2 ^ 64 ∨
    maxRestartDelay ≤ restartDelay * 2 ^ (n - 1) % 2 ^ 64
  /-- the power is negative -/
  sign : n = 32 → restartDelay = 0 ∨ restartDelay = 2 ^ 32 ∨
    maxRestartDelay ≤ restartDelay * 2 ^ 31 ∧ 0 < restartDelay * 2 ^ 31 % 2 ^ 64 ∧
      maxRestartDelay ≤ 2 ^ 64 - restartDelay * 2 ^ 31 % 2 ^ 64

variable {restartDelay maxRestartDelay n : Nat}

/-- The power as a `size_t`. -/
theorem toNat_shiftedOne {k : Nat} (hk : k < 32) :
    (shiftedOne k).map (fun power => (power.signExtend 64).toNat) =
      some (if k = 31 then 2 ^ 64 - 2 ^ 31 else 2 ^ k) := by
  interval_cases k <;> decide

theorem delayBefore_one (restartDelay maxRestartDelay : Nat) :
    delayBefore restartDelay maxRestartDelay 1 = some restartDelay := rfl

theorem delayBefore_none (h : 32 < n) : delayBefore restartDelay maxRestartDelay n = none := by
  unfold delayBefore shiftedOne
  rw [if_pos (by omega), if_neg (by omega)]
  rfl

theorem delayBefore_eq (hone : 1 < n) (hn : n ≤ 32) :
    delayBefore restartDelay maxRestartDelay n = some (min
      (restartDelay * (if n = 32 then 2 ^ 64 - 2 ^ 31 else 2 ^ (n - 1)) % 2 ^ 64)
      maxRestartDelay) := by
  have hpower := toNat_shiftedOne (k := n - 1) (by omega)
  obtain ⟨power, hsome, hpower⟩ := Option.map_eq_some_iff.mp hpower
  unfold delayBefore
  rw [if_pos hone, hsome]
  have hproduct : (BitVec.ofNat 64 restartDelay * power.signExtend 64).toNat =
      restartDelay * (if n = 32 then 2 ^ 64 - 2 ^ 31 else 2 ^ (n - 1)) % 2 ^ 64 := by
    rw [BitVec.toNat_mul, hpower, BitVec.toNat_ofNat, Nat.mod_mul_mod]
    congr 2
    exact if_congr (by omega) rfl rfl
  dsimp only [Option.map_some]
  rw [hproduct, min_comm, min_def]
  congr 1
  split_ifs <;> omega

theorem delayBefore_le_cap (hone : 1 < n) {d : Nat}
    (hd : d ∈ delayBefore restartDelay maxRestartDelay n) : d ≤ maxRestartDelay := by
  by_cases hn : n ≤ 32
  · rw [delayBefore_eq hone hn, Option.mem_some_iff] at hd
    omega
  · rw [delayBefore_none (by omega)] at hd
    cases hd

/-- A product that wraps is capped as it would be by itself when it is over the cap still. -/
theorem min_wrapped_iff {p m : Nat} (hm : m < 2 ^ 64) :
    min (p % 2 ^ 64) m = min p m ↔ p < 2 ^ 64 ∨ m ≤ p % 2 ^ 64 := by
  omega

theorem mod_of_add_mod {x y : Nat} (h : (x + y) % 2 ^ 64 = 0) :
    x % 2 ^ 64 = (2 ^ 64 - y % 2 ^ 64) % 2 ^ 64 := by
  omega

theorem negated_mod (r : Nat) :
    r * (2 ^ 64 - 2 ^ 31) % 2 ^ 64 = (2 ^ 64 - r * 2 ^ 31 % 2 ^ 64) % 2 ^ 64 := by
  apply mod_of_add_mod
  rw [← Nat.mul_add, Nat.sub_add_cancel (by omega), Nat.mul_mod_left]

/-- The product with the power that has become negative. -/
theorem min_negated_iff {r m : Nat} (hcap : r ≤ m) (hm : m < 2 ^ 64) :
    min (r * (2 ^ 64 - 2 ^ 31) % 2 ^ 64) m = min (r * 2 ^ 31) m ↔
      r = 0 ∨ r = 2 ^ 32 ∨ m ≤ r * 2 ^ 31 ∧ 0 < r * 2 ^ 31 % 2 ^ 64 ∧
        m ≤ 2 ^ 64 - r * 2 ^ 31 % 2 ^ 64 := by
  rw [negated_mod]
  omega

theorem delayBefore_eq_iff (hone : 1 < n) (hn : n ≤ 32) (hcap : restartDelay ≤ maxRestartDelay)
    (hmax : maxRestartDelay < 2 ^ 64) :
    delayBefore restartDelay maxRestartDelay n =
        some (min (restartDelay * 2 ^ (n - 1)) maxRestartDelay) ↔
      BackoffFits restartDelay maxRestartDelay n := by
  rw [delayBefore_eq hone hn, Option.some_inj]
  split_ifs with hsign
  · subst hsign
    rw [min_negated_iff hcap hmax]
    exact ⟨fun h => ⟨hcap, hn, fun h => absurd h (lt_irrefl 32), fun _ => h⟩, fun h => h.sign rfl⟩
  · rw [min_wrapped_iff hmax]
    have hlt : n < 32 := by omega
    exact ⟨fun h => ⟨hcap, hn, fun _ => h, fun h => absurd h hsign⟩, fun h => h.product hlt⟩

/-- Delays that are right do not get shorter: up to one that is below the cap all products fit. -/
theorem BackoffFits.mono (h : BackoffFits restartDelay maxRestartDelay n)
    (hexact : delayBefore restartDelay maxRestartDelay n =
      some (min (restartDelay * 2 ^ (n - 1)) maxRestartDelay))
    {k : Nat} (hk : 1 ≤ k) (hkn : k ≤ n) {d : Nat}
    (hd : d ∈ delayBefore restartDelay maxRestartDelay k) :
    d ≤ min (restartDelay * 2 ^ (n - 1)) maxRestartDelay := by
  have hpow : restartDelay * 2 ^ (k - 1) ≤ restartDelay * 2 ^ (n - 1) :=
    Nat.mul_le_mul_left _ (Nat.pow_le_pow_right two_pos (by omega))
  rcases Nat.eq_or_lt_of_le hkn with rfl | hlt
  · rw [hexact] at hd
    exact (Option.mem_some_iff.mp hd).ge
  rcases Nat.eq_or_lt_of_le hk with rfl | hone
  · obtain rfl : restartDelay = d := Option.mem_some_iff.mp hd
    exact le_min (by simpa using hpow) h.cap
  · refine le_min ?_ (delayBefore_le_cap hone hd)
    have hwidth := h.width
    rw [delayBefore_eq hone (by omega), if_neg (by omega), Option.mem_some_iff] at hd
    calc
      d ≤ restartDelay * 2 ^ (k - 1) % 2 ^ 64 := hd ▸ min_le_left _ _
      _ ≤ restartDelay * 2 ^ (k - 1) := Nat.mod_le _ _
      _ ≤ restartDelay * 2 ^ (n - 1) := hpow

theorem BacksOff.cap (hn : 1 ≤ n)
    (h : BacksOff (delayBefore restartDelay maxRestartDelay) restartDelay maxRestartDelay n) :
    restartDelay ≤ maxRestartDelay :=
  (h.mono 1 le_rfl hn restartDelay rfl _ h.exact).trans (min_le_right _ _)

theorem backsOff_iff (hn : 1 ≤ n) (hmax : maxRestartDelay < 2 ^ 64) :
    BacksOff (delayBefore restartDelay maxRestartDelay) restartDelay maxRestartDelay n ↔
      BackoffFits restartDelay maxRestartDelay n := by
  constructor
  · intro h
    have hwidth : n ≤ 32 := by
      by_contra hwide
      have hnone := h.exact
      rw [delayBefore_none (by omega)] at hnone
      cases hnone
    have hcap := h.cap hn
    rcases Nat.eq_or_lt_of_le hn with rfl | hone
    · exact ⟨hcap, hwidth, fun _ => .inl (by omega), fun h => absurd h (by decide)⟩
    · exact (delayBefore_eq_iff hone hwidth hcap hmax).mp h.exact
  · intro h
    have hexact : delayBefore restartDelay maxRestartDelay n =
        some (min (restartDelay * 2 ^ (n - 1)) maxRestartDelay) := by
      rcases Nat.eq_or_lt_of_le hn with rfl | hone
      · rw [delayBefore_one, Nat.sub_self, pow_zero, mul_one, min_eq_left h.cap]
      · exact (delayBefore_eq_iff hone h.width h.cap hmax).mpr h
    refine ⟨hexact, fun hpos => ?_, fun k hk hkn d hd d' hd' => ?_⟩
    · have hproduct : 0 < restartDelay * 2 ^ (n - 1) := Nat.mul_pos hpos (Nat.two_pow_pos _)
      have hcap := h.cap
      rw [hexact, Ne, Option.some_inj]
      omega
    · rw [hexact, Option.mem_some_iff] at hd'
      exact hd' ▸ h.mono hexact hk hkn hd

namespace ProcessConf

/-- Before the attempt `n` both delays are as they are meant when the settings fit, and not else. -/
theorem backoff_iff (conf : ProcessConf) (n : Nat) (hn : 1 ≤ n)
    (hmax : conf.maxRestartDelay_msec < 2 ^ 64) :
    (BacksOff conf.backoff conf.restartDelay_msec conf.maxRestartDelay_msec n ∧
      BacksOff conf.retryBackoff conf.restartDelay_msec conf.maxRestartDelay_msec n) ↔
      BackoffFits conf.restartDelay_msec conf.maxRestartDelay_msec n := by
  have hiff := @backsOff_iff conf.restartDelay_msec conf.maxRestartDelay_msec n hn hmax
  exact ⟨fun h => hiff.mp h.1, fun h => ⟨hiff.mpr h, hiff.mpr h⟩⟩

theorem default_backoff_five :
    BacksOff default.backoff 1000 30000 5 ∧ BacksOff default.retryBackoff 1000 30000 5 :=
  (backoff_iff default 5 (by decide) (by decide)).mpr
    ⟨by decide, by decide, fun _ => .inl (by decide), fun h => absurd h (by decide)⟩

/-- The attempt 33 shifts an `int` by its width. -/
theorem not_default_backoff : ¬BacksOff default.backoff 1000 30000 33 := by
  intro h
  exact absurd h.exact (by decide)

end ProcessConf

end Uniset.Launcher
