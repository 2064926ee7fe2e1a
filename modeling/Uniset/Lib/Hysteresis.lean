import Mathlib.Tactic.Common

/-! A switch with hysteresis.  Some values put it off, some put it on, and the rest leave it
as it is.  Where a value does both, it is put off. -/

universe u v

namespace Uniset.Lib

structure Hysteresis (α : Type u) (σ : Type v) where
  off : α → Prop
  on : α → Prop
  [decOff : DecidablePred off]
  [decOn : DecidablePred on]
  offState : σ
  onState : σ

attribute [instance] Hysteresis.decOff Hysteresis.decOn

namespace Hysteresis

variable {α : Type u} {σ : Type v} (H : Hysteresis α σ)

def next (s : σ) (v : α) : σ :=
  if H.off v then H.offState else if H.on v then H.onState else s

/-- A value that says nothing of the state. -/
def Inside (v : α) : Prop := ¬H.off v ∧ ¬H.on v

/-- A value that says two things at once. -/
def Torn (v : α) : Prop := H.off v ∧ H.on v

instance : DecidablePred H.Torn := fun _ => inferInstanceAs (Decidable (_ ∧ _))

/-- The state given by the last value that is not inside, the values from the latest on. -/
def last (s : σ) : List α → σ
  | [] => s
  | v :: vs => if H.off v then H.offState else if H.on v then H.onState else last s vs

/-- The state `s` is the one that the history asks for. -/
structure Agrees (s₀ : σ) (v : α) (vs : List α) (s : σ) : Prop where
  off : H.off v → s = H.offState
  on : H.on v → s = H.onState
  inside : H.Inside v → s = H.last s₀ vs

variable {H} {s s₀ : σ} {v : α} {vs : List α}

theorem last_cons (v : α) (vs : List α) : H.last s₀ (v :: vs) = H.next (H.last s₀ vs) v := rfl

/-- A value that stays changes nothing. -/
theorem next_next (s : σ) (v : α) : H.next (H.next s v) v = H.next s v := by
  unfold next
  split_ifs <;> rfl

theorem agrees_iff (hne : H.offState ≠ H.onState) :
    H.Agrees s₀ v vs s ↔ ¬H.Torn v ∧ s = H.last s₀ (v :: vs) := by
  constructor
  · rintro ⟨hoff, hon, hinside⟩
    refine ⟨fun ⟨h, h'⟩ => hne ((hoff h).symm.trans (hon h')), ?_⟩
    unfold last
    split_ifs with h h'
    · exact hoff h
    · exact hon h'
    · exact hinside ⟨h, h'⟩
  · rintro ⟨htorn, rfl⟩
    unfold last
    refine ⟨fun h => if_pos h, fun h => ?_, fun h => ?_⟩
    · rw [if_neg fun hoff => htorn ⟨hoff, h⟩, if_pos h]
    · rw [if_neg h.1, if_neg h.2]

/-- A switch that starts off agrees with its first value unless that puts it on. -/
theorem agrees_start_iff (hne : H.offState ≠ H.onState) :
    H.Agrees H.offState v [] H.offState ↔ ¬H.on v := by
  constructor
  · exact fun h hon => hne (h.on hon)
  · exact fun hon => ⟨fun _ => rfl, fun h => absurd h hon, fun _ => rfl⟩

end Hysteresis

end Uniset.Lib
