import Mathlib.Logic.Basic

/-! Commands of structured languages, on states of any type.  A command ends
with a signal that says where control goes next, and is given a bound on the
passes of its loops; it has no result when a loop needs more.  One command
follows another when from related states both end, for every bound, with one
signal and in related states. -/

universe u v w

namespace Uniset.Lib

/-- Where control goes when a command ends. -/
inductive Signal
  | next
  | brk
  | cont
  | ret
  | fail
  deriving DecidableEq, Repr

abbrev Cmd (S : Type u) := Nat → S → Option (Signal × S)

namespace Cmd

variable {S : Type u} {T : Type v} {A : Type w}

def raise (g : Signal) : Cmd S := fun _ s => some (g, s)

def update (f : S → Option S) : Cmd S := fun _ s =>
  match f s with
  | some s' => some (.next, s')
  | none => some (.fail, s)

/-- Goes on with what is read off the state, and fails when that is undefined. -/
def read (f : S → Option A) (k : A → Cmd S) : Cmd S := fun n s =>
  match f s with
  | some a => k a n s
  | none => some (.fail, s)

def seq (c d : Cmd S) : Cmd S := fun n s =>
  match c n s with
  | some (.next, s') => d n s'
  | r => r

def ite (p : S → Option Bool) (c d : Cmd S) : Cmd S := read p fun b => if b then c else d

/-- What follows a pass of a loop's body: `k` when the pass ends or goes on early. -/
def afterPass (k : S → Option (Signal × S)) : Option (Signal × S) → Option (Signal × S)
  | some (.next, s) => k s
  | some (.cont, s) => k s
  | some (.brk, s) => some (.next, s)
  | r => r

def passes (p : S → Option Bool) (c : S → Option (Signal × S)) (u : S → Option S) :
    Nat → S → Option (Signal × S)
  | 0, _ => none
  | k + 1, s =>
    match p s with
    | some true => afterPass (fun s' =>
        match u s' with
        | some s'' => passes p c u k s''
        | none => some (.fail, s')) (c s)
    | some false => some (.next, s)
    | none => some (.fail, s)

/-- A loop that tests before each pass and steps by `u` after it. -/
def loop (p : S → Option Bool) (c : Cmd S) (u : S → Option S) : Cmd S :=
  fun n => passes p (c n) u n

def passesDo (c : S → Option (Signal × S)) (p : S → Option Bool) : Nat → S → Option (Signal × S)
  | 0, _ => none
  | k + 1, s => afterPass (fun s' =>
      match p s' with
      | some true => passesDo c p k s'
      | some false => some (.next, s')
      | none => some (.fail, s')) (c s)

/-- A loop that tests after each pass whether to make another. -/
def doLoop (c : Cmd S) (p : S → Option Bool) : Cmd S := fun n => passesDo (c n) p n

def onBreak (g : Signal) (c : Cmd S) : Cmd S := fun n s =>
  match c n s with
  | some (.brk, s') => some (g, s')
  | r => r

/-- A command that ends where it breaks. -/
abbrev catchBreak (c : Cmd S) : Cmd S := onBreak .next c

/-- A command that must not break. -/
abbrev noBreak (c : Cmd S) : Cmd S := onBreak .fail c

/-- A command run between entering a scope and leaving it; what leaving does
depends on the state before the scope and the state in which it ends. -/
def within (enter : S → Option S) (leave : S → S → S) (c : Cmd S) : Cmd S := fun n s =>
  match enter s with
  | some s₁ => (c n s₁).map (Prod.map id (leave s))
  | none => some (.fail, s)

/-- An update followed by a command is a scope that leaving does not change. -/
theorem seq_update (f : S → Option S) (c : Cmd S) :
    seq (update f) c = within f (fun _ s' => s') c := by
  funext n s
  simp only [seq, update, within]
  cases f s with
  | none => rfl
  | some s₁ => exact Option.map_id.symm ▸ rfl

theorem seq_raise_next (c : Cmd S) : seq c (raise .next) = c := by
  funext n s
  simp only [seq, raise]
  rcases c n s with _ | ⟨_ | _ | _ | _ | _, s'⟩ <;> rfl

/-! ### More passes -/

/-- A result found within a bound is found within every larger one. -/
def Stable (c : Cmd S) : Prop := ∀ n m s r, n ≤ m → c n s = some r → c m s = some r

theorem Stable.unique {c : Cmd S} (hc : Stable c) {n m : Nat} {s : S} {r r' : Signal × S}
    (h : c n s = some r) (h' : c m s = some r') : r = r' := by
  obtain hle | hle := Nat.le_total n m
  · exact Option.some.inj ((hc n m s r hle h).symm.trans h')
  · exact Option.some.inj (h.symm.trans (hc m n s r' hle h'))

theorem Stable.raise (g : Signal) : Stable (Cmd.raise g : Cmd S) :=
  fun _ _ _ _ _ h => h

theorem Stable.update (f : S → Option S) : Stable (Cmd.update f) :=
  fun _ _ _ _ _ h => h

theorem Stable.read (f : S → Option A) {k : A → Cmd S} (hk : ∀ a, Stable (k a)) :
    Stable (Cmd.read f k) := by
  intro n m s r hle h
  simp only [Cmd.read] at h ⊢
  cases hf : f s with
  | none => simpa [hf] using h
  | some a =>
    rw [hf] at h
    exact hk a n m s r hle h

theorem Stable.ite (p : S → Option Bool) {c d : Cmd S} (hc : Stable c) (hd : Stable d) :
    Stable (Cmd.ite p c d) := by
  apply Stable.read
  intro b
  cases b with
  | true => exact hc
  | false => exact hd

theorem Stable.seq {c d : Cmd S} (hc : Stable c) (hd : Stable d) : Stable (Cmd.seq c d) := by
  intro n m s r hle h
  simp only [Cmd.seq] at h ⊢
  cases hn : c n s with
  | none => simp [hn] at h
  | some o =>
    obtain ⟨g, s'⟩ := o
    rw [hn] at h
    rw [hc n m s _ hle hn]
    cases g with
    | next => exact hd n m s' r hle h
    | brk => exact h
    | cont => exact h
    | ret => exact h
    | fail => exact h

theorem Stable.onBreak (g : Signal) {c : Cmd S} (hc : Stable c) : Stable (Cmd.onBreak g c) := by
  intro n m s r hle h
  simp only [Cmd.onBreak] at h ⊢
  cases hn : c n s with
  | none => simp [hn] at h
  | some o => rwa [hc n m s o hle hn, ← hn]

theorem Stable.within (enter : S → Option S) (leave : S → S → S) {c : Cmd S} (hc : Stable c) :
    Stable (Cmd.within enter leave c) := by
  intro n m s r hle h
  simp only [Cmd.within] at h ⊢
  cases he : enter s with
  | none => simpa [he] using h
  | some s₁ =>
    simp only [he, Option.map_eq_some_iff] at h ⊢
    obtain ⟨o, ho, hr⟩ := h
    exact ⟨o, hc n m s₁ o hle ho, hr⟩

theorem afterPass_le {k k' : S → Option (Signal × S)} {o : Option (Signal × S)} {r : Signal × S}
    (hk : ∀ s r, k s = some r → k' s = some r) (h : afterPass k o = some r) :
    afterPass k' o = some r := by
  match o, h with
  | some (.next, s), h => exact hk s r h
  | some (.cont, s), h => exact hk s r h
  | some (.brk, s), h => exact h
  | some (.ret, s), h => exact h
  | some (.fail, s), h => exact h

theorem passes_le {p : S → Option Bool} {c c' : S → Option (Signal × S)} {u : S → Option S}
    (hc : ∀ s r, c s = some r → c' s = some r) :
    ∀ {k j s r}, k ≤ j → passes p c u k s = some r → passes p c' u j s = some r
  | 0, _, _, _, _, h => by simp [passes] at h
  | k + 1, 0, _, _, hle, _ => absurd hle (Nat.not_succ_le_zero k)
  | k + 1, j + 1, s, r, hle, h => by
    have hle : k ≤ j := Nat.le_of_succ_le_succ hle
    simp only [passes] at h ⊢
    cases hp : p s with
    | none => simpa [hp] using h
    | some b =>
      cases b with
      | false => simpa [hp] using h
      | true =>
        simp only [hp] at h ⊢
        cases ho : c s with
        | none => simp [ho, afterPass] at h
        | some o =>
          rw [hc s o ho]
          rw [ho] at h
          refine afterPass_le (fun s' r h => ?_) h
          cases hu : u s' with
          | none => simpa [hu] using h
          | some s'' =>
            rw [hu] at h
            exact passes_le hc hle h

theorem Stable.loop (p : S → Option Bool) {c : Cmd S} (hc : Stable c) (u : S → Option S) :
    Stable (Cmd.loop p c u) :=
  fun n m _ _ hle h => passes_le (fun s r h => hc n m s r hle h) hle h

theorem passesDo_le {p : S → Option Bool} {c c' : S → Option (Signal × S)}
    (hc : ∀ s r, c s = some r → c' s = some r) :
    ∀ {k j s r}, k ≤ j → passesDo c p k s = some r → passesDo c' p j s = some r
  | 0, _, _, _, _, h => by simp [passesDo] at h
  | k + 1, 0, _, _, hle, _ => absurd hle (Nat.not_succ_le_zero k)
  | k + 1, j + 1, s, r, hle, h => by
    have hle : k ≤ j := Nat.le_of_succ_le_succ hle
    simp only [passesDo] at h ⊢
    cases ho : c s with
    | none => simp [ho, afterPass] at h
    | some o =>
      rw [hc s o ho]
      rw [ho] at h
      refine afterPass_le (fun s' r h => ?_) h
      cases hp : p s' with
      | none => simpa [hp] using h
      | some b =>
        cases b with
        | false => simpa [hp] using h
        | true =>
          rw [hp] at h
          exact passesDo_le hc hle h

theorem Stable.doLoop {c : Cmd S} (hc : Stable c) (p : S → Option Bool) : Stable (Cmd.doLoop c p) :=
  fun n m _ _ hle h => passesDo_le (fun s r h => hc n m s r hle h) hle h

/-- A loop whose test holds and whose passes come back to where they began has
no result. -/
theorem loop_eq_none {p : S → Option Bool} {c : Cmd S} {u : S → Option S} {s : S}
    (hp : p s = some true) (hc : ∀ n, c n s = some (.next, s)) (hu : u s = some s) (n : Nat) :
    loop p c u n s = none := by
  suffices ∀ k, passes p (c n) u k s = none from this n
  intro k
  induction k with
  | zero => rfl
  | succ k ih => simp only [passes, hp, hc n, afterPass, hu, ih]

/-! ### One command following another -/

/-- The results match: what has no result is matched by what has none, a
failure by anything, and every other end by an end with its signal. -/
def Matched (Q : S → T → Prop) : Option (Signal × S) → Option (Signal × T) → Prop
  | none, o => o = none
  | some (.fail, _), _ => True
  | some (g, s), o => ∃ t, o = some (g, t) ∧ Q s t

/-- From states related by `P` the second command ends as the first, and in
states related by `Q`, unless the first one fails. -/
def Follows (P Q : S → T → Prop) (c : Cmd S) (d : Cmd T) : Prop :=
  ∀ n s t, P s t → Matched Q (c n s) (d n t)

theorem Matched.of_end {Q : S → T → Prop} {g : Signal} {s : S} {t : T} (h : Q s t) :
    Matched Q (some (g, s)) (some (g, t)) := by
  cases g with
  | fail => trivial
  | next => exact ⟨t, rfl, h⟩
  | brk => exact ⟨t, rfl, h⟩
  | cont => exact ⟨t, rfl, h⟩
  | ret => exact ⟨t, rfl, h⟩

/-- Matched results fail, are both missing, or end alike. -/
theorem Matched.cases {Q : S → T → Prop} {o : Option (Signal × S)} {o' : Option (Signal × T)}
    (h : Matched Q o o') : (o = none ∧ o' = none) ∨ (∃ s, o = some (.fail, s)) ∨
      ∃ g s t, o = some (g, s) ∧ o' = some (g, t) ∧ Q s t := by
  match o, h with
  | none, h => exact .inl ⟨rfl, h⟩
  | some (.fail, s), _ => exact .inr (.inl ⟨s, rfl⟩)
  | some (.next, s), ⟨t, ho, hQ⟩ => exact .inr (.inr ⟨_, s, t, rfl, ho, hQ⟩)
  | some (.brk, s), ⟨t, ho, hQ⟩ => exact .inr (.inr ⟨_, s, t, rfl, ho, hQ⟩)
  | some (.cont, s), ⟨t, ho, hQ⟩ => exact .inr (.inr ⟨_, s, t, rfl, ho, hQ⟩)
  | some (.ret, s), ⟨t, ho, hQ⟩ => exact .inr (.inr ⟨_, s, t, rfl, ho, hQ⟩)

variable {P Q R : S → T → Prop}

theorem Follows.mono {P' Q' : S → T → Prop} {c : Cmd S} {d : Cmd T} (h : Follows P Q c d)
    (hP : ∀ s t, P' s t → P s t) (hQ : ∀ s t, Q s t → Q' s t) : Follows P' Q' c d := by
  intro n s t hs
  obtain ⟨ho, ho'⟩ | ⟨s', ho⟩ | ⟨g, s', t', ho, ho', hq⟩ := (h n s t (hP s t hs)).cases
  · rw [ho, ho']
    rfl
  · rw [ho]
    trivial
  · rw [ho, ho']
    exact .of_end (hQ s' t' hq)

theorem Follows.raise (g : Signal) : Follows Q Q (Cmd.raise g) (Cmd.raise g) :=
  fun _ _ _ h => .of_end h

theorem Follows.update {f : S → Option S} {f' : T → Option T}
    (h : ∀ s t s', P s t → f s = some s' → ∃ t', f' t = some t' ∧ Q s' t') :
    Follows P Q (Cmd.update f) (Cmd.update f') := by
  intro n s t hs
  simp only [Cmd.update]
  cases hf : f s with
  | none => trivial
  | some s' =>
    obtain ⟨t', ht, hq⟩ := h s t s' hs hf
    rw [ht]
    exact .of_end hq

theorem Follows.read_left {f : S → Option A} {k : A → Cmd S} {d : Cmd T}
    (h : ∀ a, Follows (fun s t => P s t ∧ f s = some a) Q (k a) d) :
    Follows P Q (Cmd.read f k) d := by
  intro n s t hs
  simp only [Cmd.read]
  cases hf : f s with
  | none => trivial
  | some a => exact h a n s t ⟨hs, hf⟩

theorem Follows.read {f : S → Option A} {f' : T → Option A} {k : A → Cmd S} {k' : A → Cmd T}
    (hf : ∀ s t a, P s t → f s = some a → f' t = some a) (h : ∀ a, Follows P Q (k a) (k' a)) :
    Follows P Q (Cmd.read f k) (Cmd.read f' k') := by
  apply Follows.read_left
  rintro a n s t ⟨hs, ha⟩
  simp only [Cmd.read, hf s t a hs ha]
  exact h a n s t hs

theorem Follows.ite {p : S → Option Bool} {p' : T → Option Bool} {c d : Cmd S} {c' d' : Cmd T}
    (hp : ∀ s t b, P s t → p s = some b → p' t = some b) (hc : Follows P Q c c')
    (hd : Follows P Q d d') : Follows P Q (Cmd.ite p c d) (Cmd.ite p' c' d') := by
  apply Follows.read hp
  intro b
  cases b with
  | true => exact hc
  | false => exact hd

theorem Follows.seq {c d : Cmd S} {c' d' : Cmd T} (hc : Follows P Q c c') (hd : Follows Q Q d d') :
    Follows P Q (Cmd.seq c d) (Cmd.seq c' d') := by
  intro n s t hs
  simp only [Cmd.seq]
  obtain ⟨ho, ho'⟩ | ⟨s', ho⟩ | ⟨g, s', t', ho, ho', hq⟩ := (hc n s t hs).cases
  · rw [ho, ho']
    rfl
  · rw [ho]
    trivial
  · rw [ho, ho']
    cases g with
    | next => exact hd n s' t' hq
    | brk => exact .of_end hq
    | cont => exact .of_end hq
    | ret => exact .of_end hq
    | fail => trivial

/-- A command that must not break is followed by one that, where it ends
normally, breaks of its own accord and is caught. -/
theorem Follows.caught {c : Cmd S} {d : Cmd T} (h : Follows P Q c d) :
    Follows P Q (noBreak c) (catchBreak (Cmd.seq d (Cmd.raise .brk))) := by
  intro n s t hs
  simp only [onBreak, Cmd.seq]
  obtain ⟨ho, ho'⟩ | ⟨s', ho⟩ | ⟨g, s', t', ho, ho', hq⟩ := (h n s t hs).cases
  · rw [ho, ho']
    rfl
  · rw [ho]
    trivial
  · rw [ho, ho']
    cases g with
    | next => exact ⟨t', rfl, hq⟩
    | brk => trivial
    | cont => exact ⟨t', rfl, hq⟩
    | ret => exact ⟨t', rfl, hq⟩
    | fail => trivial

theorem Follows.noBreak_left {c : Cmd S} {d : Cmd T} (h : Follows P Q c d) :
    Follows P Q (noBreak c) d := by
  intro n s t hs
  simp only [onBreak]
  obtain ⟨ho, ho'⟩ | ⟨s', ho⟩ | ⟨g, s', t', ho, ho', hq⟩ := (h n s t hs).cases
  · rw [ho, ho']
    rfl
  · rw [ho]
    trivial
  · rw [ho, ho']
    cases g with
    | brk => trivial
    | next => exact .of_end hq
    | cont => exact .of_end hq
    | ret => exact .of_end hq
    | fail => trivial

theorem Follows.within {enter : S → Option S} {enter' : T → Option T} {leave : S → S → S}
    {leave' : T → T → T} {c : Cmd S} {d : Cmd T}
    (he : ∀ s t s₁, P s t → enter s = some s₁ → ∃ t₁, enter' t = some t₁ ∧ R s₁ t₁)
    (hc : Follows R R c d)
    (hl : ∀ s t s' t', P s t → R s' t' → Q (leave s s') (leave' t t')) :
    Follows P Q (Cmd.within enter leave c) (Cmd.within enter' leave' d) := by
  intro n s t hs
  simp only [Cmd.within]
  cases hs₁ : enter s with
  | none => trivial
  | some s₁ =>
    obtain ⟨t₁, ht₁, hr⟩ := he s t s₁ hs hs₁
    rw [ht₁]
    obtain ⟨ho, ho'⟩ | ⟨s', ho⟩ | ⟨g, s', t', ho, ho', hq⟩ := (hc n s₁ t₁ hr).cases
    · simp only [ho, ho']
      rfl
    · simp only [ho]
      trivial
    · simp only [ho, ho']
      exact .of_end (hl s t s' t' hs hq)

theorem Matched.afterPass {o : Option (Signal × S)} {o' : Option (Signal × T)}
    {k : S → Option (Signal × S)} {k' : T → Option (Signal × T)} (h : Matched Q o o')
    (hk : ∀ s t, Q s t → Matched Q (k s) (k' t)) :
    Matched Q (afterPass k o) (afterPass k' o') := by
  obtain ⟨ho, ho'⟩ | ⟨s', ho⟩ | ⟨g, s', t', ho, ho', hq⟩ := h.cases
  · rw [ho, ho']
    rfl
  · rw [ho]
    trivial
  · rw [ho, ho']
    cases g with
    | next => exact hk s' t' hq
    | cont => exact hk s' t' hq
    | brk => exact ⟨t', rfl, hq⟩
    | ret => exact ⟨t', rfl, hq⟩
    | fail => trivial

/-- Two loops make the same passes when their tests agree and their bodies and
steps keep the states related. -/
theorem Follows.loop {p : S → Option Bool} {p' : T → Option Bool} {c : Cmd S} {d : Cmd T}
    {u : S → Option S} {u' : T → Option T}
    (hp : ∀ s t b, Q s t → p s = some b → p' t = some b) (hc : Follows Q Q c d)
    (hu : ∀ s t s', Q s t → u s = some s' → ∃ t', u' t = some t' ∧ Q s' t') :
    Follows Q Q (Cmd.loop p c u) (Cmd.loop p' d u') := by
  intro n s t hs
  suffices ∀ k s t, Q s t → Matched Q (passes p (c n) u k s) (passes p' (d n) u' k t) from
    this n s t hs
  intro k
  induction k with
  | zero => exact fun _ _ _ => rfl
  | succ k ih =>
    intro s t hs
    simp only [passes]
    cases hb : p s with
    | none => trivial
    | some b =>
      rw [hp s t b hs hb]
      cases b with
      | false => exact .of_end hs
      | true =>
        refine (hc n s t hs).afterPass fun s' t' hs' => ?_
        cases hu' : u s' with
        | none => trivial
        | some s'' =>
          obtain ⟨t'', ht'', hq⟩ := hu s' t' s'' hs' hu'
          rw [ht'']
          exact ih s'' t'' hq

theorem Follows.doLoop {p : S → Option Bool} {p' : T → Option Bool} {c : Cmd S} {d : Cmd T}
    (hc : Follows Q Q c d) (hp : ∀ s t b, Q s t → p s = some b → p' t = some b) :
    Follows Q Q (Cmd.doLoop c p) (Cmd.doLoop d p') := by
  intro n s t hs
  suffices ∀ k s t, Q s t → Matched Q (passesDo (c n) p k s) (passesDo (d n) p' k t) from
    this n s t hs
  intro k
  induction k with
  | zero => exact fun _ _ _ => rfl
  | succ k ih =>
    intro s t hs
    refine (hc n s t hs).afterPass fun s' t' hs' => ?_
    cases hb : p s' with
    | none => trivial
    | some b =>
      rw [hp s' t' b hs' hb]
      cases b with
      | true => exact ih s' t' hs'
      | false => exact .of_end hs'

end Cmd

end Uniset.Lib
