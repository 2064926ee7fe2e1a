import Mathlib.Data.List.Infix
import Mathlib.Logic.Function.Basic
import Mathlib.Tactic.Common
import Uniset.Core

/-! The calls of an interface to objects of other processes. A reference is asked for by name once
and kept, until a call through it fails. -/

namespace Uniset.UInterface

/-- The number of an object and of its node. -/
abbrev Id := ObjectId × ObjectId

/-- What the naming service may answer. -/
inductive Naming (ρ : Type*)
  | ref (r : Option ρ)
  | transient
  | notFound
  | notExist
  | commFailure
  | system

/-- Where a reference is looked for: in a file, or on the naming service of some node, if there is one. -/
inductive Place (ρ : Type*)
  | ior (sior : Option (Option ρ))
  | noContext
  | context (names : Nat → Naming ρ)

inductive ResolveError
  | timeOut
  | resolveNameError

inductive UserError
  | nameNotFound (err : String)
  | ioBadParam (err : String)
  | accessDenied (err : String)

/-- A call through a reference is answered, if only by `Undefined`, or fails in one of the ways of the
middleware, or the object throws an error of its own. -/
inductive Reply (α : Type*)
  | answer (a : α)
  | undefined
  | failed
  | thrown (e : UserError)

inductive Result (α : Type*)
  | returned (a : α)
  | undefined
  | thrown (e : UserError)
  | orepFailed
  | resolveFailed
  | timeOut

/-- What comes to one of the turns of a call. -/
structure Turn (ρ α : Type*) where
  place : Place ρ
  reply : ρ → Reply α

/-- A reference was given for an object, or a call was sent through it. -/
inductive Event (ρ : Type*)
  | given (id : Id) (r : ρ)
  | sent (id : Id) (r : ρ) (answered : Bool)

/-- The events are there with the latest first. -/
structure State (ρ : Type*) where
  mcache : UInt64 → Option ρ
  events : List (Event ρ)

structure Conf where
  key : Id → UInt64
  repeatCount : Nat
  localNode : ObjectId

variable {ρ α : Type*}

/-- The loop of `resolve`. Its time-out is caught right behind it, as any error. -/
def resolveNames (names : Nat → Naming ρ) : Nat → Nat → Except ResolveError ρ
  | 0, _ => .error .resolveNameError
  | n + 1, i =>
    match names i with
    | .ref (some r) => .ok r
    | .ref none => .error .resolveNameError
    | .transient => resolveNames names n (i + 1)
    | .notFound => .error .resolveNameError
    | .notExist => .error .resolveNameError
    | .commFailure => .error .resolveNameError
    | .system => .error .timeOut

def Place.find (repeatCount : Nat) : Place ρ → Except ResolveError (Option ρ)
  | .ior (some r) => .ok r
  | .ior none => .error .resolveNameError
  | .noContext => .error .resolveNameError
  | .context names => (resolveNames names repeatCount 0).map some

namespace State

def erase (s : State ρ) (k : UInt64) : State ρ := { s with mcache := Function.update s.mcache k none }

def log (s : State ρ) (e : Event ρ) : State ρ := { s with events := e :: s.events }

/-- An empty reference is kept too, but not found again. -/
def cache (s : State ρ) (k : UInt64) (r : Option ρ) : State ρ :=
  { s with mcache := Function.update s.mcache k r }

end State

variable (c : Conf)

def resolve (s : State ρ) (id : Id) (place : Place ρ) : Except ResolveError (Option ρ) × State ρ :=
  if id.1 = DefaultObjectId ∨ id.2 = DefaultObjectId then (.error .resolveNameError, s)
  else
    let s := s.erase (c.key id)
    match place.find c.repeatCount with
    | .error e => (.error e, s)
    | .ok none => (.ok none, s.cache (c.key id) none)
    | .ok (some r) => (.ok (some r), (s.cache (c.key id) (some r)).log (.given id r))

/-- The reference of a turn: the one at hand, or else it is asked for. -/
def reference (s : State ρ) (id : Id) (place : Place ρ) :
    Option ρ → Except ResolveError (Option ρ) × State ρ
  | some r => (.ok (some r), s)
  | none => resolve c s id place

/-- The turns of a call from turn `i` on. An empty reference fails at the first use. -/
def callTurns (turns : Nat → Turn ρ α) (id : Id) : Nat → Nat → Option ρ → State ρ → Result α × State ρ
  | 0, _, _, s => (.timeOut, s)
  | n + 1, i, oref, s =>
    match reference c s id (turns i).place oref with
    | (.error .timeOut, s) => (.timeOut, s)
    | (.error .resolveNameError, s) => (.resolveFailed, s)
    | (.ok none, s) => callTurns turns id n (i + 1) none s
    | (.ok (some r), s) =>
      match (turns i).reply r with
      | .answer a => (.returned a, s.log (.sent id r true))
      -- nothing catches it
      | .undefined => (.undefined, s.log (.sent id r true))
      | .thrown e => (.thrown e, s.log (.sent id r false))
      | .failed => callTurns turns id n (i + 1) none (s.log (.sent id r false))

/-- The object has answered, be it that there is no value. -/
def Result.Answered : Result α → Prop
  | .returned _ | .undefined => True
  | _ => False

/-- What all the calls have in common. After anything but an answer the reference of `erased` is
given up. `send` and `sendText` do not if `resolve` timed out, which has given up that of the object
itself. -/
def callErasing (erased : Id) (s : State ρ) (id : Id) (turns : Nat → Turn ρ α) : Result α × State ρ :=
  match callTurns c turns id c.repeatCount 0 (s.mcache (c.key id)) s with
  | (.returned a, s) => (.returned a, s)
  | (.undefined, s) => (.undefined, s)
  | (result, s) => (result, s.erase (c.key erased))

/-- `getValue`, `setValue`, `askRemoteSensor`, `send` and the others. -/
def call (s : State ρ) (id : Id) (turns : Nat → Turn ρ α) : Result α × State ρ :=
  if id.1 = DefaultObjectId ∨ id.2 = DefaultObjectId then (.orepFailed, s)
  else callErasing c id s id turns

/-- The object a text is for, the node of which may be left out. -/
def textId (name node : ObjectId) : Id := (name, if node = DefaultObjectId then c.localNode else node)

/-- `sendText` of a message. With no node, another reference is given up than the one used. -/
def sendText (s : State ρ) (name node : ObjectId) (turns : Nat → Turn ρ α) : Result α × State ρ :=
  if name = DefaultObjectId then (.orepFailed, s)
  else callErasing c (name, node) s (textId c name node) turns

/-- Another node is asked through the reference at hand, which is kept whatever comes of it: this is
no event. -/
def isExist (s : State ρ) (id : Id) (place : Place ρ) : State ρ :=
  if id.2 = c.localNode then s else (reference c s id place (s.mcache (c.key id))).2

inductive Op (ρ α : Type*)
  | call (id : Id) (turns : Nat → Turn ρ α)
  | sendText (name node : ObjectId) (turns : Nat → Turn ρ α)
  | isExist (id : Id) (place : Place ρ)
  | resolve (id : Id) (place : Place ρ)

def Op.id : Op ρ α → Id
  | .call id _ => id
  | .sendText name node _ => textId c name node
  | .isExist id _ => id
  | .resolve id _ => id

def step (s : State ρ) : Op ρ α → State ρ
  | .call id turns => (call c s id turns).2
  | .sendText name node turns => (sendText c s name node turns).2
  | .isExist id place => isExist c s id place
  | .resolve id place => (resolve c s id place).2

def run (ops : List (Op ρ α)) : State ρ := ops.foldl (step c) ⟨fun _ => none, []⟩

def Event.id : Event ρ → Id
  | .given id _ => id
  | .sent id _ _ => id

/-- The last event about the object is that the reference was given for it, or that a call through it
was answered. -/
def Trusted (events : List (Event ρ)) (id : Id) (r : ρ) : Prop :=
  events.find? (·.id = id) = some (.given id r) ∨ events.find? (·.id = id) = some (.sent id r true)

/-- No call is sent through a reference that was not given for its object, or failed since. -/
def Sound (events : List (Event ρ)) : Prop :=
  ∀ id r answered before, .sent id r answered :: before <:+ events → Trusted before id r

/-! ## Which references are used -/

section

variable {c} {used : Id → Prop} {id : Id} {r : ρ} {s : State ρ}

theorem trusted_cons_of_ne {e : Event ρ} {events : List (Event ρ)} {id' : Id} (h : e.id ≠ id') :
    Trusted (e :: events) id' r ↔ Trusted events id' r := by
  unfold Trusted
  rw [List.find?_cons_of_neg (by simpa using h)]

theorem sound_cons {e : Event ρ} {events : List (Event ρ)} (h : Sound events)
    (he : ∀ id r answered, e = .sent id r answered → Trusted events id r) : Sound (e :: events) := by
  intro id r answered before hbefore
  rcases List.suffix_cons_iff.mp hbefore with heq | hbefore
  · obtain ⟨hhead, htail⟩ := List.cons.inj heq
    exact htail ▸ he id r answered hhead.symm
  · exact h id r answered before hbefore

/-- All references that are kept may be used, but for the object of the call that goes on. -/
structure GoodBut (c : Conf) (used : Id → Prop) (id : Id) (s : State ρ) : Prop where
  sound : Sound s.events
  kept : ∀ id', used id' → c.key id' ≠ c.key id → ∀ r, s.mcache (c.key id') = some r →
    Trusted s.events id' r

theorem GoodBut.erase (h : GoodBut c used id s) (k : UInt64) : GoodBut c used id (s.erase k) := by
  refine ⟨h.sound, fun id' hid' hne r hr => h.kept id' hid' hne r ?_⟩
  change Function.update s.mcache k none (c.key id') = some r at hr
  rw [Function.update_apply] at hr
  split_ifs at hr
  exact hr

theorem GoodBut.cache (h : GoodBut c used id s) (o : Option ρ) :
    GoodBut c used id (s.cache (c.key id) o) := by
  refine ⟨h.sound, fun id' hid' hne r hr => h.kept id' hid' hne r ?_⟩
  change Function.update s.mcache (c.key id) o (c.key id') = some r at hr
  rwa [Function.update_of_ne hne] at hr

theorem GoodBut.log {e : Event ρ} (h : GoodBut c used id s) (he : e.id = id)
    (hsent : ∀ r answered, e = .sent id r answered → Trusted s.events id r) :
    GoodBut c used id (s.log e) := by
  refine ⟨sound_cons h.sound fun id' r answered heq => ?_, fun id' hid' hne r hr => ?_⟩
  · obtain rfl : id' = id := by rw [← he, heq]; rfl
    exact hsent r answered heq
  · exact (trusted_cons_of_ne fun heq => hne (by rw [← heq, he])).mpr (h.kept id' hid' hne r hr)

/-- The reference that is kept for the object may be used. -/
def Kept (c : Conf) (id : Id) (s : State ρ) (o : Option ρ) : Prop :=
  ∀ r, o = some r → s.mcache (c.key id) = some r ∧ Trusted s.events id r

theorem resolve_good (h : GoodBut c used id s) (place : Place ρ) :
    GoodBut c used id (resolve c s id place).2 ∧
      ∀ o, (resolve c s id place).1 = .ok o → Kept c id (resolve c s id place).2 o := by
  unfold resolve
  split_ifs
  · exact ⟨h, fun o ho => by cases ho⟩
  dsimp only
  split
  next => exact ⟨h.erase _, fun o ho => by cases ho⟩
  next =>
    refine ⟨(h.erase _).cache none, fun o ho => ?_⟩
    rw [← Except.ok.inj ho]
    intro r hr
    cases hr
  next r _ =>
    refine ⟨((h.erase _).cache (some r)).log rfl fun _ _ heq => ?_, fun o ho => ?_⟩
    · cases heq
    · rw [← Except.ok.inj ho]
      rintro r' ⟨⟩
      refine ⟨Function.update_self .., .inl ?_⟩
      exact List.find?_cons_of_pos (by simp [Event.id])

/-- What is kept for the object afterwards was given just now, or nothing was done. -/
theorem resolve_kept (place : Place ρ)
    (h : ∀ r, s.mcache (c.key id) = some r → Trusted s.events id r) :
    ∀ r, (resolve c s id place).2.mcache (c.key id) = some r →
      Trusted (resolve c s id place).2.events id r := by
  unfold resolve
  split_ifs
  · exact h
  dsimp only
  split
  next =>
    intro r hr
    exact absurd hr (by simp [State.erase])
  next =>
    intro r hr
    exact absurd hr (by simp [State.cache])
  next r' _ =>
    intro r hr
    obtain rfl : r' = r := by simpa [State.log, State.cache] using hr
    exact .inl (List.find?_cons_of_pos (by simp [Event.id]))

theorem callTurns_good (turns : Nat → Turn ρ α) (n i : Nat) (oref : Option ρ)
    (h : GoodBut c used id s) (hkept : Kept c id s oref) :
    GoodBut c used id (callTurns c turns id n i oref s).2 ∧
      ((callTurns c turns id n i oref s).1.Answered →
        ∃ r, Kept c id (callTurns c turns id n i oref s).2 (some r)) := by
  induction n generalizing i oref s with
  | zero => exact ⟨h, False.elim⟩
  | succ n ih =>
    have href : GoodBut c used id (reference c s id (turns i).place oref).2 ∧
        ∀ o, (reference c s id (turns i).place oref).1 = .ok o →
          Kept c id (reference c s id (turns i).place oref).2 o := by
      cases oref with
      | none => exact resolve_good h (turns i).place
      | some r => exact ⟨h, fun o ho => Except.ok.inj ho ▸ hkept⟩
    unfold callTurns
    revert href
    rcases reference c s id (turns i).place oref with ⟨(_ | _) | (_ | r), s'⟩
    · exact fun href => ⟨href.1, False.elim⟩
    · exact fun href => ⟨href.1, False.elim⟩
    · -- an empty reference fails
      exact fun href => ih (i + 1) none href.1 fun r hr => by cases hr
    · rintro ⟨hgood, hkept'⟩
      obtain ⟨hcache, htrusted⟩ := hkept' (some r) rfl r rfl
      have hsent : ∀ answered, GoodBut c used id (s'.log (.sent id r answered)) := fun answered =>
        hgood.log rfl fun r' _ heq => by cases heq; exact htrusted
      have hanswered : Kept c id (s'.log (.sent id r true)) (some r) := by
        rintro r' ⟨⟩
        exact ⟨hcache, .inr (List.find?_cons_of_pos (by simp [Event.id]))⟩
      dsimp only
      split
      next => exact ⟨hsent true, fun _ => ⟨r, hanswered⟩⟩
      next => exact ⟨hsent true, fun _ => ⟨r, hanswered⟩⟩
      next => exact ⟨hsent false, False.elim⟩
      next => exact ih (i + 1) none (hsent false) fun r hr => by cases hr

/-- Every reference that is kept may be used. -/
structure Good (c : Conf) (used : Id → Prop) (s : State ρ) : Prop where
  sound : Sound s.events
  kept : ∀ id, used id → ∀ r, s.mcache (c.key id) = some r → Trusted s.events id r

theorem Good.goodBut (h : Good c used s) (id : Id) : GoodBut c used id s :=
  ⟨h.sound, fun id' hid' _ => h.kept id' hid'⟩

variable (hinj : ∀ id id', used id → used id' → c.key id = c.key id' → id = id')

include hinj

theorem GoodBut.good (hid : used id) (h : GoodBut c used id s)
    (hkept : ∀ r, s.mcache (c.key id) = some r → Trusted s.events id r) : Good c used s := by
  refine ⟨h.sound, fun id' hid' r hr => ?_⟩
  by_cases heq : c.key id' = c.key id
  · obtain rfl := hinj id' id hid' hid heq
    exact hkept r hr
  · exact h.kept id' hid' heq r hr

theorem callErasing_good (hid : used id) (h : Good c used s) (turns : Nat → Turn ρ α) :
    Good c used (callErasing c id s id turns).2 := by
  have hcall := callTurns_good turns c.repeatCount 0 (s.mcache (c.key id)) (h.goodBut id)
    fun r hr => ⟨hr, h.kept id hid r hr⟩
  unfold callErasing
  revert hcall
  generalize callTurns c turns id c.repeatCount 0 (s.mcache (c.key id)) s = out
  obtain ⟨result, s'⟩ := out
  have herase : GoodBut c used id s' → Good c used (s'.erase (c.key id)) := fun h' =>
    GoodBut.good hinj hid (h'.erase _) fun r hr => by
      change Function.update s'.mcache (c.key id) none (c.key id) = some r at hr
      rw [Function.update_self] at hr
      cases hr
  rintro ⟨hgood, hreturned⟩
  have hanswered : result.Answered → Good c used s' := fun h => by
    obtain ⟨r, hr⟩ := hreturned h
    obtain ⟨hcache, htrusted⟩ := hr r rfl
    refine GoodBut.good hinj hid hgood fun r' hr' => ?_
    obtain rfl := Option.some.inj (hcache.symm.trans hr')
    exact htrusted
  cases result with
  | returned a => exact hanswered trivial
  | undefined => exact hanswered trivial
  | thrown e => exact herase hgood
  | orepFailed => exact herase hgood
  | resolveFailed => exact herase hgood
  | timeOut => exact herase hgood

theorem step_good (op : Op ρ α) (hid : used (op.id c)) (h : Good c used s)
    (hnode : ∀ name node turns, op = .sendText name node turns → node ≠ DefaultObjectId) :
    Good c used (step c s op) := by
  cases op with
  | call id turns =>
    rw [step, call]
    split_ifs
    · exact h
    · exact callErasing_good hinj hid h turns
  | sendText name node turns =>
    have hne := hnode name node turns rfl
    rw [step, sendText]
    split_ifs
    · exact h
    · rw [Op.id, textId, if_neg hne] at hid
      rw [textId, if_neg hne]
      exact callErasing_good hinj hid h turns
  | isExist id place =>
    rw [step, isExist]
    split_ifs
    · exact h
    · unfold reference
      split
      next => exact h
      next =>
        exact GoodBut.good hinj hid (resolve_good (h.goodBut id) place).1
          (resolve_kept place (h.kept id hid))
  | resolve id place =>
    exact GoodBut.good hinj hid (resolve_good (h.goodBut id) place).1
      (resolve_kept place (h.kept id hid))

theorem run_good {ops : List (Op ρ α)} (hused : ∀ op ∈ ops, used (op.id c))
    (hnode : ∀ name node turns, .sendText name node turns ∈ ops → node ≠ DefaultObjectId) :
    Good c used (run c ops) := by
  induction ops using List.reverseRecOn with
  | nil =>
    refine ⟨fun _ _ _ _ h => ?_, fun _ _ _ h => by cases h⟩
    cases List.suffix_nil.mp h
  | append_singleton ops op ih =>
    rw [run, List.foldl_append, List.foldl_cons, List.foldl_nil]
    have hops := ih (fun op hop => hused op (List.mem_append_left _ hop))
      (fun name node turns h => hnode name node turns (List.mem_append_left _ h))
    refine step_good hinj op (hused op List.mem_concat_self) hops ?_
    rintro name node turns rfl
    exact hnode name node turns List.mem_concat_self

end

section

variable {c} {s : State ρ} {id : Id} {turns : Nat → Turn ρ α} {moved : ρ} {a : α}

/-- The object is answering now, through a reference that is given for it, and through no other. -/
structure Moved (c : Conf) (id : Id) (turns : Nat → Turn ρ α) (moved : ρ) (a : α) : Prop where
  known : id.1 ≠ DefaultObjectId ∧ id.2 ≠ DefaultObjectId
  given : ∀ i, (turns i).place.find c.repeatCount = .ok (some moved)
  answers : ∀ i, (turns i).reply moved = .answer a
  fails : ∀ i r, r ≠ moved → (turns i).reply r = .failed

namespace Moved

variable (h : Moved c id turns moved a)

include h

theorem resolve_eq (s : State ρ) (i : Nat) : resolve c s id (turns i).place =
    (.ok (some moved),
      ((s.erase (c.key id)).cache (c.key id) (some moved)).log (.given id moved)) := by
  rw [resolve, if_neg (not_or.mpr h.known), h.given i]

/-- A turn with no reference at hand is answered. -/
theorem callTurns_none (s : State ρ) (n i : Nat) : ∃ s', callTurns c turns id (n + 1) i none s =
    (.returned a, s') ∧ s'.mcache (c.key id) = some moved := by
  refine ⟨(((s.erase (c.key id)).cache (c.key id) (some moved)).log (.given id moved)).log
    (.sent id moved true), ?_, Function.update_self ..⟩
  rw [callTurns, reference, h.resolve_eq s i]
  dsimp only
  rw [h.answers i]

theorem callTurns_moved (s : State ρ) (n i : Nat) : callTurns c turns id (n + 1) i (some moved) s =
    (.returned a, s.log (.sent id moved true)) := by
  rw [callTurns, reference]
  dsimp only
  rw [h.answers i]

theorem callTurns_other {r : ρ} (hr : r ≠ moved) (s : State ρ) (n i : Nat) :
    callTurns c turns id (n + 1) i (some r) s =
      callTurns c turns id n (i + 1) none (s.log (.sent id r false)) := by
  rw [callTurns, reference]
  dsimp only
  rw [h.fails i r hr]

/-- No reference is kept that would fail. -/
theorem callErasing_of_fresh (erased : Id) (hcount : 1 ≤ c.repeatCount)
    (hs : s.mcache (c.key id) = none ∨ s.mcache (c.key id) = some moved) :
    (callErasing c erased s id turns).1 = .returned a ∧
      (callErasing c erased s id turns).2.mcache (c.key id) = some moved := by
  obtain ⟨n, hn⟩ := Nat.exists_eq_add_of_le' hcount
  unfold callErasing
  rw [hn]
  rcases hs with hs | hs
  · obtain ⟨s', hcall, hkept⟩ := h.callTurns_none s n 0
    rw [hs, hcall]
    exact ⟨rfl, hkept⟩
  · rw [hs, h.callTurns_moved s n 0]
    exact ⟨rfl, hs⟩

theorem callErasing_of_two (erased : Id) (hcount : 2 ≤ c.repeatCount) (s : State ρ) :
    (callErasing c erased s id turns).1 = .returned a := by
  by_cases hs : s.mcache (c.key id) = none ∨ s.mcache (c.key id) = some moved
  · exact (h.callErasing_of_fresh erased (by omega) hs).1
  · obtain ⟨hnone, hmoved⟩ := not_or.mp hs
    obtain ⟨r, hr⟩ := Option.ne_none_iff_exists'.mp hnone
    obtain ⟨n, hn⟩ := Nat.exists_eq_add_of_le' hcount
    have hne : r ≠ moved := fun heq => hmoved (heq ▸ hr)
    obtain ⟨s', hcall, -⟩ := h.callTurns_none (s.log (.sent id r false)) n 1
    unfold callErasing
    rw [hn, hr, h.callTurns_other hne s (n + 1) 0, hcall]

theorem callErasing_of_one (erased : Id) (hcount : c.repeatCount = 1) {r : ρ} (hr : r ≠ moved)
    (hs : s.mcache (c.key id) = some r) : callErasing c erased s id turns =
      (.timeOut, (s.log (.sent id r false)).erase (c.key erased)) := by
  unfold callErasing
  rw [hcount, hs, h.callTurns_other hr s 0 0]
  rfl

end Moved

/-- The state after a number of the same calls. -/
def again (c : Conf) (erased id : Id) (turns : Nat → Turn ρ α) : Nat → State ρ → State ρ
  | 0, s => s
  | n + 1, s => again c erased id turns n (callErasing c erased s id turns).2

/-- With two turns every call is answered. With one, a call whose reference fails is not, and neither
is any later one unless that reference was given up. -/
theorem Moved.again_answered_iff (h : Moved c id turns moved a) (erased : Id) (n : Nat) (s : State ρ) :
    (callErasing c erased (again c erased id turns n s) id turns).1 = .returned a ↔
      2 ≤ c.repeatCount ∨ c.repeatCount = 1 ∧ ((∀ r, s.mcache (c.key id) = some r → r = moved) ∨
        1 ≤ n ∧ c.key erased = c.key id) := by
  by_cases htwo : 2 ≤ c.repeatCount
  · exact iff_of_true (h.callErasing_of_two erased htwo _) (.inl htwo)
  by_cases hone : c.repeatCount = 1
  swap
  · have hzero : c.repeatCount = 0 := by omega
    refine iff_of_false (fun hcall => ?_) (by omega)
    rw [callErasing, hzero] at hcall
    cases hcall
  have hfresh : ∀ s : State ρ, (s.mcache (c.key id) = none ∨ s.mcache (c.key id) = some moved) ↔
      ∀ r, s.mcache (c.key id) = some r → r = moved := by
    intro s
    cases s.mcache (c.key id) <;> simp
  induction n generalizing s with
  | zero =>
    by_cases hs : ∀ r, s.mcache (c.key id) = some r → r = moved
    · exact iff_of_true (h.callErasing_of_fresh erased hone.ge ((hfresh s).mpr hs)).1
        (.inr ⟨hone, .inl hs⟩)
    · obtain ⟨r, hr⟩ := not_forall.mp hs
      obtain ⟨hr, hne⟩ := Classical.not_imp.mp hr
      rw [again, h.callErasing_of_one erased hone hne hr]
      exact iff_of_false (fun hcall => by cases hcall) (by simp [hone, hs])
  | succ n ih =>
    refine (ih _).trans ?_
    by_cases hs : ∀ r, s.mcache (c.key id) = some r → r = moved
    · have hnext := (h.callErasing_of_fresh erased hone.ge ((hfresh s).mpr hs)).2
      refine iff_of_true (.inr ⟨hone, .inl ?_⟩) (.inr ⟨hone, .inl hs⟩)
      exact (hfresh _).mp (.inr hnext)
    · obtain ⟨r, hr⟩ := not_forall.mp hs
      obtain ⟨hr, hne⟩ := Classical.not_imp.mp hr
      rw [h.callErasing_of_one erased hone hne hr]
      have hnext : (∀ r', Function.update s.mcache (c.key erased) none (c.key id) = some r' →
          r' = moved) ↔ c.key erased = c.key id := by
        rw [Function.update_apply]
        split_ifs with heq
        · exact iff_of_true (fun r' hr' => by cases hr') heq.symm
        · exact iff_of_false hs (Ne.symm heq)
      simp only [State.erase, State.log, hnext, hs, false_or, or_iff_left_of_imp And.right,
        Nat.le_add_left, true_and]

/-- A reference is kept for the object that is not the one it answers through. -/
def OldKept (c : Conf) (s : State ρ) (id : Id) (moved : ρ) : Prop :=
  ∃ r, s.mcache (c.key id) = some r ∧ r ≠ moved

/-- When an object answers through a new reference only, each later call to it is answered if a call
may take two turns. If it may take one, the first call fails if an old reference is kept, and the calls
behind it are answered; but of texts sent without a node all fail, unless two keys are the same. -/
theorem moved_answered_iff (name node : ObjectId) (n : Nat) (s : State ρ)
    (h : Moved c (textId c name node) turns moved a) :
    ((call c (again c (textId c name node) (textId c name node) turns n s) (textId c name node)
        turns).1 = .returned a ↔
      2 ≤ c.repeatCount ∨ c.repeatCount = 1 ∧ (OldKept c s (textId c name node) moved → 1 ≤ n)) ∧
    ((sendText c (again c (name, node) (textId c name node) turns n s) name node turns).1 =
        .returned a ↔
      2 ≤ c.repeatCount ∨ c.repeatCount = 1 ∧ (OldKept c s (textId c name node) moved →
        1 ≤ n ∧ c.key (name, node) = c.key (textId c name node))) := by
  have hold : (∀ r, s.mcache (c.key (textId c name node)) = some r → r = moved) ↔
      ¬OldKept c s (textId c name node) moved := by
    simp only [OldKept, not_exists, not_and, not_not]
  constructor
  · rw [call, if_neg (not_or.mpr h.known)]
    exact (h.again_answered_iff _ n s).trans (by rw [hold, imp_iff_not_or, and_iff_left rfl])
  · have hname : name ≠ DefaultObjectId := h.known.1
    rw [sendText, if_neg hname]
    exact (h.again_answered_iff (name, node) n s).trans (by rw [hold, imp_iff_not_or])

end

/-- For the object 7, which has moved from 10 to 20. -/
def demoConf : Conf where
  key id := UInt64.ofNat (id.1.toNat * 4294967296 + (id.2 + 1).toNat)
  repeatCount := 1
  localNode := 3

def demoTurns (_ : Nat) : Turn Nat Int where
  place := .context fun _ => .ref (some 20)
  reply r := if r = 20 then .answer 1 else .failed

/-- It answers that there is no value. -/
def undefinedTurns (_ : Nat) : Turn Nat Int where
  place := .noContext
  reply _ := .undefined

theorem moved_answered_iff_seven :
    (sendText demoConf (again demoConf (7, -1) (7, 3) demoTurns 9 ⟨fun _ => some 10, []⟩) 7 (-1)
      demoTurns).1 ≠ .returned 1 := by
  have h : Moved demoConf (textId demoConf 7 (-1)) demoTurns 20 1 :=
    ⟨by decide, fun _ => rfl, fun _ => rfl, fun _ _ hr => if_neg hr⟩
  refine fun hcall => ?_
  rcases (moved_answered_iff 7 (-1) 9 ⟨fun _ => some 10, []⟩ h).2.mp hcall with hcount | ⟨-, hold⟩
  · exact absurd hcount (by decide)
  · exact absurd (hold ⟨10, rfl, by decide⟩).2 (by decide)

end Uniset.UInterface
