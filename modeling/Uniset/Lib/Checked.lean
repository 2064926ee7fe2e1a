import Mathlib.Tactic.ByContra
import Mathlib.Tactic.SplitIfs

/-! Computations that may throw and that record which of their accesses to memory go wrong. -/

namespace Uniset.Lib

/-- What a computation returns or throws, and the faults on the way. -/
structure Checked (φ ε α : Type) where
  value : Except ε α
  faults : List φ

namespace Checked

variable {φ ε ε' α β : Type}

def bind (x : Checked φ ε α) (f : α → Checked φ ε β) : Checked φ ε β :=
  match x.value with
  | .error e => ⟨.error e, x.faults⟩
  | .ok a => ⟨(f a).value, x.faults ++ (f a).faults⟩

instance : Monad (Checked φ ε) where
  pure a := ⟨.ok a, []⟩
  bind := bind

def throw (e : ε) : Checked φ ε α := ⟨.error e, []⟩

/-- The same with another error for the one that is thrown. -/
def mapError (g : ε → ε') (x : Checked φ ε α) : Checked φ ε' α := ⟨x.value.mapError g, x.faults⟩

/-- Goes on in either case. -/
def require (p : Prop) [Decidable p] (fault : φ) : Checked φ ε Unit :=
  ⟨.ok (), if p then [] else [fault]⟩

/-- No access goes wrong. -/
def Safe (x : Checked φ ε α) : Prop := x.faults = []

instance [DecidableEq φ] (x : Checked φ ε α) : Decidable x.Safe :=
  inferInstanceAs (Decidable (x.faults = []))

@[simp] theorem value_pure (a : α) : (Pure.pure a : Checked φ ε α).value = .ok a := rfl

@[simp] theorem value_throw (e : ε) : (throw e : Checked φ ε α).value = .error e := rfl

@[simp] theorem value_mapError (g : ε → ε') (x : Checked φ ε α) :
    (x.mapError g).value = x.value.mapError g := rfl

theorem value_mapError_ok {x : Checked φ ε α} {a : α} (h : x.value = .ok a) (g : ε → ε') :
    (x.mapError g).value = .ok a :=
  congrArg (Except.mapError g) h

@[simp] theorem value_bind (x : Checked φ ε α) (f : α → Checked φ ε β) :
    (x >>= f).value = x.value.bind fun a => (f a).value := by
  obtain ⟨value, faults⟩ := x
  cases value with
  | error e => rfl
  | ok a => rfl

theorem bind_assoc {γ : Type} (x : Checked φ ε α) (f : α → Checked φ ε β)
    (g : β → Checked φ ε γ) : x >>= f >>= g = x >>= fun a => f a >>= g := by
  obtain ⟨value, faults⟩ := x
  cases value with
  | error e => rfl
  | ok a =>
    change bind ⟨(f a).value, faults ++ (f a).faults⟩ g =
      ⟨(bind (f a) g).value, faults ++ (bind (f a) g).faults⟩
    generalize f a = y
    obtain ⟨value, faults'⟩ := y
    cases value with
    | error e => rfl
    | ok b => exact congrArg _ (List.append_assoc _ _ _)

/-- A sequence returns what its second part returns on the result of the first. -/
theorem value_bind_eq_ok {x : Checked φ ε α} {f : α → Checked φ ε β} {b : β} :
    (x >>= f).value = .ok b ↔ ∃ a, x.value = .ok a ∧ (f a).value = .ok b := by
  rw [value_bind]
  cases x.value with
  | error e => exact ⟨nofun, fun ⟨_, h, _⟩ => nomatch h⟩
  | ok a =>
    constructor
    · exact fun h => ⟨a, rfl, h⟩
    · rintro ⟨a', ha, h⟩
      cases ha
      exact h

@[simp] theorem value_ite (p : Prop) [Decidable p] (x y : Checked φ ε α) :
    (if p then x else y).value = if p then x.value else y.value := by
  split_ifs <;> rfl

@[simp] theorem value_require (p : Prop) [Decidable p] (fault : φ) :
    (require p fault : Checked φ ε Unit).value = .ok () := rfl

@[simp] theorem safe_pure (a : α) : (Pure.pure a : Checked φ ε α).Safe := rfl

@[simp] theorem safe_throw (e : ε) : (throw e : Checked φ ε α).Safe := rfl

@[simp] theorem safe_mapError (g : ε → ε') (x : Checked φ ε α) :
    (x.mapError g).Safe ↔ x.Safe := Iff.rfl

theorem Safe.mapError {x : Checked φ ε α} (h : x.Safe) (g : ε → ε') : (x.mapError g).Safe := h

@[simp] theorem safe_require (p : Prop) [Decidable p] (fault : φ) :
    (require p fault : Checked φ ε Unit).Safe ↔ p := by
  constructor
  · intro h
    by_contra hp
    exact List.cons_ne_nil fault [] ((if_neg hp).symm.trans h)
  · exact fun hp => if_pos hp

/-- A sequence is safe if its first part is and what follows on its result. -/
theorem safe_bind (x : Checked φ ε α) (f : α → Checked φ ε β) :
    (x >>= f).Safe ↔ x.Safe ∧ ∀ a, x.value = .ok a → (f a).Safe := by
  obtain ⟨value, faults⟩ := x
  cases value with
  | error e =>
    constructor
    · intro h
      exact ⟨h, nofun⟩
    · exact And.left
  | ok a =>
    constructor
    · intro h
      obtain ⟨hx, hf⟩ := List.append_eq_nil_iff.mp h
      refine ⟨hx, fun a' ha => ?_⟩
      cases ha
      exact hf
    · intro h
      exact List.append_eq_nil_iff.mpr ⟨h.1, h.2 a rfl⟩

theorem Safe.bind {x : Checked φ ε α} {f : α → Checked φ ε β} (hx : x.Safe)
    (hf : ∀ a, (f a).Safe) : (x >>= f).Safe :=
  (safe_bind x f).mpr ⟨hx, fun a _ => hf a⟩

theorem safe_bind_ok {x : Checked φ ε α} {a : α} (hx : x.value = .ok a)
    (f : α → Checked φ ε β) : (x >>= f).Safe ↔ x.Safe ∧ (f a).Safe := by
  rw [safe_bind]
  apply and_congr_right
  intro _
  constructor
  · intro h
    exact h a hx
  · intro h a' ha
    rw [hx] at ha
    cases ha
    exact h

end Checked

end Uniset.Lib
