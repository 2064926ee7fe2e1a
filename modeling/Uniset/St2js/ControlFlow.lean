import Uniset.St2js.JavaScript

/-! Where the printed JavaScript does what the Structured Text does.  A third
meaning of the statements keeps only the values on which both agree, and fails
where the two part. -/

namespace Uniset.St2js

open Lib Lib.Cmd

/-! ### The common run -/

/-- The printed loop compares with `<=` whatever the step, and evaluates its end
and its step again. -/
def countsAlike (D : Division) (x : Ident) (stop : Scalar) (b k : Int) (s : Store) : Option Bool :=
  match s x, stop.eval D s with
  | some v, some b' =>
    if b' = b ∧ goesOn b k v = decide (v ≤ b) then some (goesOn b k v) else none
  | _, _ => none

def advanceAlike (D : Division) (x : Ident) (step : Scalar) (k : Int) (s : Store) : Option Store :=
  match s x, step.eval D s with
  | some v, some k' => if k' = k then some (s.set x (some (v + k))) else none
  | _, _ => none

/-- After the loop its variable is one both agree on only if the last value is
the one it had before. -/
def leaveFor (x : Ident) (s s' : Store) : Store := s'.set x (if s x = s' x then s x else none)

def startAlike (D : Division) (ref : Ident → Ident) (x : Ident) (start : Scalar) (s : Store) :
    Option Int :=
  if ref x = x then start.eval D (s.set x none) else none

def forAlike (D : Division) (ref : Ident → Ident) (x : Ident) (start stop step : Scalar)
    (body : Cmd Store) : Cmd Store :=
  read (startAlike D ref x start) fun a => read (stop.eval D) fun b => read (step.eval D) fun k =>
    within (fun s => some (s.set x (some a))) (leaveFor x)
      (loop (countsAlike D x stop b k) body (advanceAlike D x step k))

mutual

def IRStatement.alike (D : Division) (ref : Ident → Ident) : Statement → Cmd Store
  | .basic a => a.exec D
  | .ifElse c t es el => ite (c.test D) (alikeList D ref t) (alikeElsif D ref (alikeElse D ref el) es)
  | .case c bs el => read (c.eval D) fun a =>
      alikeCase D ref a (noBreak (alikeElse D ref el)) bs
  | .forLoop x start stop step body => forAlike D ref x start stop (stepOf step)
      (alikeList D ref body)
  | .whileLoop c body => loop (c.test D) (alikeList D ref body) some
  | .repeatLoop c body => doLoop (alikeList D ref body) fun s => (c.test D s).map not
  | .exit => raise .brk
  | .continue => raise .cont
  | .return => raise .ret

def alikeList (D : Division) (ref : Ident → Ident) : List Statement → Cmd Store
  | [] => raise .next
  | s :: ss => seq (s.alike D ref) (alikeList D ref ss)

def alikeElsif (D : Division) (ref : Ident → Ident) (otherwise : Cmd Store) :
    List (Scalar × List Statement) → Cmd Store
  | [] => otherwise
  | (c, b) :: es => ite (c.test D) (alikeList D ref b) (alikeElsif D ref otherwise es)

/-- An `EXIT` that leaves the branch of a `CASE` parts the two. -/
def alikeCase (D : Division) (ref : Ident → Ident) (a : Int) (otherwise : Cmd Store) :
    List (List Scalar × List Statement) → Cmd Store
  | [] => otherwise
  | (vs, b) :: bs => ite (selects D a vs) (noBreak (alikeList D ref b))
      (alikeCase D ref a otherwise bs)

def alikeElse (D : Division) (ref : Ident → Ident) : Option (List Statement) → Cmd Store
  | none => raise .next
  | some b => alikeList D ref b

end

mutual

theorem alike_stable (D : Division) (ref : Ident → Ident) : ∀ s : Statement, Stable (s.alike D ref)
  | .basic _ => .update _
  | .ifElse _ t es el => .ite _ (alikeList_stable D ref t)
      (alikeElsif_stable D ref (alikeElse_stable D ref el) es)
  | .case _ bs el => .read _ fun a =>
      alikeCase_stable D ref a (.onBreak _ (alikeElse_stable D ref el)) bs
  | .forLoop _ _ _ _ body => .read _ fun _ => .read _ fun _ => .read _ fun _ =>
      .within _ _ (.loop _ (alikeList_stable D ref body) _)
  | .whileLoop _ body => .loop _ (alikeList_stable D ref body) _
  | .repeatLoop _ body => .doLoop (alikeList_stable D ref body) _
  | .exit => .raise _
  | .continue => .raise _
  | .return => .raise _

theorem alikeList_stable (D : Division) (ref : Ident → Ident) : ∀ ss : List Statement,
    Stable (alikeList D ref ss)
  | [] => .raise _
  | s :: ss => .seq (alike_stable D ref s) (alikeList_stable D ref ss)

theorem alikeElsif_stable (D : Division) (ref : Ident → Ident) {otherwise : Cmd Store}
    (h : Stable otherwise) : ∀ es : List (Scalar × List Statement),
      Stable (alikeElsif D ref otherwise es)
  | [] => h
  | (_, b) :: es => .ite _ (alikeList_stable D ref b) (alikeElsif_stable D ref h es)

theorem alikeCase_stable (D : Division) (ref : Ident → Ident) (a : Int) {otherwise : Cmd Store}
    (h : Stable otherwise) : ∀ bs : List (List Scalar × List Statement),
      Stable (alikeCase D ref a otherwise bs)
  | [] => h
  | (_, b) :: bs => .ite _ (.onBreak _ (alikeList_stable D ref b)) (alikeCase_stable D ref a h bs)

theorem alikeElse_stable (D : Division) (ref : Ident → Ident) : ∀ el : Option (List Statement),
    Stable (alikeElse D ref el)
  | none => .raise _
  | some b => alikeList_stable D ref b

end

/-! ### Stores that agree -/

/-- The second store has the values of the first under the printed names. -/
def Agrees (ref : Ident → Ident) (s t : Store) : Prop := ∀ x a, s x = some a → t (ref x) = some a

variable {D : Division} {ref : Ident → Ident} {s t s' t' : Store}

theorem Agrees.set (href : Function.Injective ref) (h : Agrees ref s t) (x : Ident)
    {v v' : Option Int} (hv : ∀ a, v = some a → v' = some a) :
    Agrees ref (s.set x v) (t.set (ref x) v') := by
  intro y a hy
  by_cases hyx : y = x
  · subst hyx
    simp only [Store.set, Function.update_self] at hy ⊢
    exact hv a hy
  · simp only [Store.set, Function.update_of_ne hyx] at hy
    simp only [Store.set, Function.update_of_ne (href.ne hyx)]
    exact h y a hy

/-- A variable printed as it is. -/
theorem Agrees.set_bare (href : Function.Injective ref) {x : Ident} (hx : ref x = x)
    (h : Agrees ref s t) {v v' : Option Int} (hv : ∀ a, v = some a → v' = some a) :
    Agrees ref (s.set x v) (t.set x v') := by
  have hset := h.set href x hv
  rwa [hx] at hset

theorem Agrees.eval (h : Agrees ref s t) {e : Scalar} {a : Int} (ha : e.eval D s = some a) :
    (emitExpression ref e).eval D t = some a := by
  induction e generalizing a with
  | literal v => exact ha
  | varRef x => exact h x a ha
  | binaryOp op l r ihl ihr =>
    simp only [Scalar.eval, emitExpression] at ha ⊢
    cases hl : l.eval D s with
    | none => simp [hl] at ha
    | some v =>
      rw [hl] at ha
      rw [ihl hl]
      dsimp only at ha ⊢
      split_ifs with h₁ h₂
      · rwa [if_pos h₁] at ha
      · rwa [if_neg h₁, if_pos h₂] at ha
      · rw [if_neg h₁, if_neg h₂] at ha
        obtain ⟨w, hw, rfl⟩ := Option.map_eq_some_iff.1 ha
        rw [ihr hw]
        rfl
  | unaryOp op e ih =>
    simp only [Scalar.eval, emitExpression] at ha ⊢
    obtain ⟨w, hw, rfl⟩ := Option.map_eq_some_iff.1 ha
    rw [ih hw]
    rfl

theorem Agrees.test (h : Agrees ref s t) {e : Scalar} {b : Bool} (hb : e.test D s = some b) :
    (emitExpression ref e).test D t = some b := by
  obtain ⟨a, ha, rfl⟩ := Option.map_eq_some_iff.1 hb
  simp [Scalar.test, h.eval ha]

theorem emitExpression_id (e : Scalar) : emitExpression id e = e := by
  induction e with
  | literal v => rfl
  | varRef x => rfl
  | binaryOp op l r ihl ihr => rw [emitExpression, ihl, ihr]
  | unaryOp op e ih => rw [emitExpression, ih]

theorem Agrees.eval_id (h : Agrees id s t) {e : Scalar} {a : Int} (ha : e.eval D s = some a) :
    e.eval D t = some a := by
  rw [← emitExpression_id e]
  exact h.eval ha

theorem Agrees.test_id (h : Agrees id s t) {e : Scalar} {b : Bool} (hb : e.test D s = some b) :
    e.test D t = some b := by
  rw [← emitExpression_id e]
  exact h.test hb

theorem Agrees.selects (h : Agrees id s t) {a : Int} {vs : List Scalar} {b : Bool}
    (hb : selects D a vs s = some b) : selects D a vs t = some b := by
  induction vs with
  | nil => exact hb
  | cons e es ih =>
    simp only [St2js.selects] at hb ⊢
    cases he : e.eval D s with
    | none => simp [he] at hb
    | some v =>
      rw [he] at hb
      rw [h.eval_id he]
      dsimp only at hb ⊢
      split_ifs with hv
      · rwa [if_pos hv] at hb
      · rw [if_neg hv] at hb
        exact ih hb

theorem startAlike_eq {x : Ident} {start : Scalar} {a : Int}
    (ha : startAlike D ref x start s = some a) : ref x = x ∧ start.eval D (s.set x none) = some a := by
  simp only [startAlike] at ha
  split_ifs at ha with hx
  exact ⟨hx, ha⟩

theorem countsAlike_eq {x : Ident} {stop : Scalar} {b k : Int} {r : Bool}
    (hr : countsAlike D x stop b k s = some r) :
    ∃ v, s x = some v ∧ stop.eval D s = some b ∧ r = goesOn b k v ∧ r = decide (v ≤ b) := by
  simp only [countsAlike] at hr
  split at hr
  case h_1 v b' hv hb =>
    split_ifs at hr with h
    obtain ⟨rfl, hgo⟩ := h
    cases hr
    exact ⟨v, hv, hb, rfl, hgo⟩
  case h_2 => cases hr

theorem advanceAlike_eq {x : Ident} {step : Scalar} {k : Int}
    (hs : advanceAlike D x step k s = some s') :
    ∃ v, s x = some v ∧ step.eval D s = some k ∧ s' = s.set x (some (v + k)) := by
  simp only [advanceAlike] at hs
  split at hs
  case h_1 v k' hv hk =>
    split_ifs at hs with h
    subst h
    cases hs
    exact ⟨v, hv, hk, rfl⟩
  case h_2 => cases hs

theorem leaveFor_self {x : Ident} {a : Int} (ha : leaveFor x s s' x = some a) :
    s x = some a ∧ s' x = some a := by
  simp only [leaveFor, Store.set, Function.update_self] at ha
  split_ifs at ha with h
  exact ⟨ha, h ▸ ha⟩

/-! ### Structured Text follows the common run -/

theorem Agrees.refl (s : Store) : Agrees id s s := fun _ _ h => h

theorem Agrees.set_none (s : Store) (x : Ident) : Agrees id (s.set x none) s := by
  intro y a hy
  by_cases hyx : y = x
  · simp [Store.set, hyx] at hy
  · simpa [Store.set, hyx] using hy

theorem forAlike_follows {x : Ident} {start stop step : Scalar} {c d : Cmd Store}
    (hc : Follows (Agrees id) (Agrees id) c d) :
    Follows (Agrees id) (Agrees id) (forAlike D ref x start stop step c)
      (forCmd D x start stop step d) := by
  apply Follows.read (fun s t a h ha => ?_) fun a => ?_
  · obtain ⟨-, ha⟩ := startAlike_eq ha
    exact h.eval_id ((Agrees.set_none s x).eval_id ha)
  apply Follows.read (fun s t b h hb => h.eval_id hb) fun b => ?_
  apply Follows.read (fun s t k h hk => h.eval_id hk) fun k => ?_
  rw [seq_update]
  apply Follows.within (R := Agrees id)
  · rintro s t _ h ⟨⟩
    exact ⟨_, rfl, h.set Function.injective_id x fun _ hv => hv⟩
  · apply Follows.loop
    · intro s t r h hr
      obtain ⟨v, hv, -, rfl, -⟩ := countsAlike_eq hr
      have htx : t x = some v := h x v hv
      simp [counts, htx]
    · exact hc
    · intro s t s' h hs
      obtain ⟨v, hv, -, rfl⟩ := advanceAlike_eq hs
      have htx : t x = some v := h x v hv
      exact ⟨_, by rw [advance, htx]; rfl, h.set Function.injective_id x fun _ hv => hv⟩
  · intro s t s' t' _ h' y a hy
    by_cases hyx : y = x
    · subst hyx
      exact h' y a (leaveFor_self hy).2
    · refine h' y a ?_
      simpa [leaveFor, Store.set, hyx] using hy

mutual

theorem exec_follows (D : Division) (ref : Ident → Ident) : ∀ s : Statement,
    Follows (Agrees id) (Agrees id) (s.alike D ref) (s.exec D)
  | .basic a => by
    apply Follows.update
    intro s t s' h hs
    obtain ⟨v, hv, rfl⟩ := Option.map_eq_some_iff.1 hs
    exact ⟨_, by rw [h.eval_id hv]; rfl, h.set Function.injective_id _ fun _ hv => hv⟩
  | .ifElse c t es el => Follows.ite (fun _ _ _ h => h.test_id) (execList_follows D ref t)
      (execElsif_follows D ref (execElse_follows D ref el) es)
  | .case c bs el => Follows.read (fun _ _ _ h => h.eval_id) fun a =>
      execCase_follows D ref a (execElse_follows D ref el).noBreak_left bs
  | .forLoop _ _ _ _ body => forAlike_follows (execList_follows D ref body)
  | .whileLoop c body => Follows.loop (fun _ _ _ h => h.test_id) (execList_follows D ref body)
      fun _ t _ h hs => ⟨t, rfl, Option.some.inj hs ▸ h⟩
  | .repeatLoop c body => by
    apply Follows.doLoop (execList_follows D ref body)
    intro s t b h hb
    obtain ⟨r, hr, rfl⟩ := Option.map_eq_some_iff.1 hb
    rw [h.test_id hr]
    rfl
  | .exit => Follows.raise .brk
  | .continue => Follows.raise .cont
  | .return => Follows.raise .ret

theorem execList_follows (D : Division) (ref : Ident → Ident) : ∀ ss : List Statement,
    Follows (Agrees id) (Agrees id) (alikeList D ref ss) (execList D ss)
  | [] => Follows.raise .next
  | s :: ss => (exec_follows D ref s).seq (execList_follows D ref ss)

theorem execElsif_follows (D : Division) (ref : Ident → Ident) {c d : Cmd Store}
    (h : Follows (Agrees id) (Agrees id) c d) : ∀ es : List (Scalar × List Statement),
    Follows (Agrees id) (Agrees id) (alikeElsif D ref c es) (execElsif D d es)
  | [] => h
  | (_, b) :: es => Follows.ite (fun _ _ _ h => h.test_id) (execList_follows D ref b)
      (execElsif_follows D ref h es)

theorem execCase_follows (D : Division) (ref : Ident → Ident) (a : Int) {c d : Cmd Store}
    (h : Follows (Agrees id) (Agrees id) c d) : ∀ bs : List (List Scalar × List Statement),
    Follows (Agrees id) (Agrees id) (alikeCase D ref a c bs) (execCase D a d bs)
  | [] => h
  | (_, b) :: bs => Follows.ite (fun _ _ _ h => h.selects) (execList_follows D ref b).noBreak_left
      (execCase_follows D ref a h bs)

theorem execElse_follows (D : Division) (ref : Ident → Ident) : ∀ el : Option (List Statement),
    Follows (Agrees id) (Agrees id) (alikeElse D ref el) (execElse D el)
  | none => Follows.raise .next
  | some b => execList_follows D ref b

end

/-! ### JavaScript follows the common run -/

theorem test_le (D : Division) {x : Ident} {e : Scalar} {v b : Int} (hv : t x = some v)
    (hb : e.eval D t = some b) :
    (Scalar.binaryOp .le (.varRef x) e).test D t = some (decide (v ≤ b)) := by
  by_cases h : v ≤ b <;> simp [Scalar.test, Scalar.eval, hv, hb, BinaryOp.apply, truth, h]

theorem test_not (D : Division) (e : Scalar) :
    (Scalar.unaryOp .not e).test D t = (e.test D t).map not := by
  simp only [Scalar.test, Scalar.eval]
  cases e.eval D t with
  | none => rfl
  | some a => by_cases h : a = 0 <;> simp [UnaryOp.apply, truth, h]

theorem forLet_follows (href : Function.Injective ref) {x : Ident} {start stop step : Scalar}
    {c d : Cmd Store} (hc : Follows (Agrees ref) (Agrees ref) c d) :
    Follows (Agrees ref) (Agrees ref) (forAlike D ref x start stop step c)
      (within (enterLet D x (emitExpression ref start)) (leaveLet x)
        (loop ((Scalar.binaryOp .le (.varRef x) (emitExpression ref stop)).test D) d
          (increment D x (emitExpression ref step)))) := by
  by_cases hx : ref x = x
  case neg =>
    intro n s t _
    simp [forAlike, Cmd.read, startAlike, hx, Matched]
  apply Follows.read_left fun a => ?_
  apply Follows.read_left fun b => ?_
  apply Follows.read_left fun k => ?_
  apply Follows.within (R := Agrees ref)
  · rintro s t _ ⟨⟨⟨h, ha⟩, -⟩, -⟩ ⟨⟩
    have hlet : Agrees ref (s.set x none) (t.set x none) := h.set_bare href hx fun _ hv => hv
    refine ⟨_, ?_, h.set_bare href hx fun _ hv => hv⟩
    rw [enterLet, hlet.eval (startAlike_eq ha).2]
    rfl
  · apply Follows.loop
    · intro s t r h hr
      obtain ⟨v, hv, hb, -, rfl⟩ := countsAlike_eq hr
      have htx : t x = some v := hx ▸ h x v hv
      exact test_le D htx (h.eval hb)
    · exact hc
    · intro s t s' h hs
      obtain ⟨v, hv, hk, rfl⟩ := advanceAlike_eq hs
      have htx : t x = some v := hx ▸ h x v hv
      refine ⟨t.set x (some (v + k)), ?_, h.set_bare href hx fun _ hv => hv⟩
      rw [increment, htx, h.eval hk]
  · rintro s t s' t' ⟨⟨⟨h, -⟩, -⟩, -⟩ h'
    refine h'.set_bare href hx fun a ha => ?_
    split_ifs at ha
    exact hx ▸ h x a ha

/-- The labels printed for a branch compare as its values do, and lead to its body. -/
theorem labels_follow (a : Int) {vs : List Scalar} {c₁ c₂ : Cmd Store} {otherwise : Cmd Store}
    {ls : List Line} (h₁ : Follows (Agrees ref) (Agrees ref) c₁ (catchBreak (execLines D ls)))
    (h₂ : Follows (Agrees ref) (Agrees ref) c₂ (catchBreak (execSwitch D a otherwise ls))) :
    Follows (Agrees ref) (Agrees ref) (ite (selects D a vs) c₁ c₂)
      (catchBreak (execSwitch D a otherwise (emitLabels ref vs ++ ls))) := by
  induction vs with
  | nil => exact h₂
  | cons v vs ih =>
    intro n s t h
    cases hv : v.eval D s with
    | none => simp [Cmd.ite, Cmd.read, selects, hv, Matched]
    | some b =>
      have hlabel : (emitExpression ref v).eval D t = some b := h.eval hv
      by_cases hb : b = a
      · have hrun := h₁ n s t h
        rw [← execLines_labels D ref vs ls] at hrun
        simpa [emitLabels, execSwitch, Cmd.ite, Cmd.read, selects, onBreak, hlabel, hv, hb] using hrun
      · have hrun := ih n s t h
        simpa [emitLabels, execSwitch, Cmd.ite, Cmd.read, selects, onBreak, hlabel, hv, hb] using hrun

theorem default_follows (a : Int) {el : Option (List Statement)}
    (h : ∀ b ∈ el, Follows (Agrees ref) (Agrees ref) (alikeList D ref b) (execJs D (emitBody ref b))) :
    Follows (Agrees ref) (Agrees ref) (noBreak (alikeElse D ref el))
      (catchBreak (execSwitch D a (raise .next) (emitDefault ref el))) := by
  cases el with
  | none =>
    intro n s t h
    exact ⟨t, rfl, h⟩
  | some b =>
    simp only [emitDefault, execSwitch]
    rw [execSwitch_stmts, execLines_body]
    exact (h b rfl).caught

mutual

theorem js_follows (D : Division) (href : Function.Injective ref) : ∀ s : Statement,
    Follows (Agrees ref) (Agrees ref) (s.alike D ref) ((emitStatement ref s).exec D)
  | .basic a => by
    apply Follows.update
    intro s t s' h hs
    obtain ⟨v, hv, rfl⟩ := Option.map_eq_some_iff.1 hs
    exact ⟨_, by rw [h.eval hv]; rfl, h.set href _ fun _ hv => hv⟩
  | .ifElse c t es el => Follows.ite (fun _ _ _ h => h.test) (jsList_follows D href t)
      (jsElsif_follows D href (jsElse_follows D href el) es)
  | .case c bs el => Follows.read (fun _ _ _ h => h.eval) fun a =>
      jsCase_follows D href a (default_follows a (jsDefault_follows D href el)) bs
  | .forLoop _ _ _ _ body => forLet_follows href (jsList_follows D href body)
  | .whileLoop c body => Follows.loop (fun _ _ _ h => h.test) (jsList_follows D href body)
      fun _ t _ h hs => ⟨t, rfl, Option.some.inj hs ▸ h⟩
  | .repeatLoop c body => by
    apply Follows.doLoop (jsList_follows D href body)
    intro s t b h hb
    obtain ⟨r, hr, rfl⟩ := Option.map_eq_some_iff.1 hb
    rw [test_not, h.test hr]
    rfl
  | .exit => Follows.raise .brk
  | .continue => Follows.raise .cont
  | .return => Follows.raise .ret

theorem jsList_follows (D : Division) (href : Function.Injective ref) : ∀ ss : List Statement,
    Follows (Agrees ref) (Agrees ref) (alikeList D ref ss) (execJs D (emitBody ref ss))
  | [] => Follows.raise .next
  | s :: ss => (js_follows D href s).seq (jsList_follows D href ss)

theorem jsElsif_follows (D : Division) (href : Function.Injective ref) {c : Cmd Store}
    {otherwise : List Js} (h : Follows (Agrees ref) (Agrees ref) c (execJs D otherwise)) :
    ∀ es : List (Scalar × List Statement), Follows (Agrees ref) (Agrees ref)
      (alikeElsif D ref c es) (execJs D (emitElsif ref otherwise es))
  | [] => h
  | (_, b) :: es => by
    simp only [emitElsif, execJs, seq_raise_next]
    exact Follows.ite (fun _ _ _ h => h.test) (jsList_follows D href b) (jsElsif_follows D href h es)

theorem jsElse_follows (D : Division) (href : Function.Injective ref) :
    ∀ el : Option (List Statement),
      Follows (Agrees ref) (Agrees ref) (alikeElse D ref el) (execJs D (emitElse ref el))
  | none => Follows.raise .next
  | some b => jsList_follows D href b

theorem jsDefault_follows (D : Division) (href : Function.Injective ref) :
    ∀ el : Option (List Statement), ∀ b ∈ el,
      Follows (Agrees ref) (Agrees ref) (alikeList D ref b) (execJs D (emitBody ref b))
  | some b, _, rfl => jsList_follows D href b

theorem jsCase_follows (D : Division) (href : Function.Injective ref) (a : Int) {c : Cmd Store}
    {otherwise : List Line} (h : Follows (Agrees ref) (Agrees ref) c
      (catchBreak (execSwitch D a (raise .next) otherwise))) :
    ∀ bs : List (List Scalar × List Statement), Follows (Agrees ref) (Agrees ref)
      (alikeCase D ref a c bs)
      (catchBreak (execSwitch D a (raise .next) (emitBranches ref otherwise bs)))
  | [] => h
  | (vs, b) :: bs => by
    apply labels_follow
    · rw [execLines_body]
      exact (jsList_follows D href b).caught
    · rw [execSwitch_stmts]
      exact jsCase_follows D href a h bs

end

/-! ### Statements in their places -/

def firstHasValues : List (List Scalar × List Statement) → Bool
  | [] => true
  | (vs, _) :: _ => !vs.isEmpty

mutual

/-- `EXIT` stands in a loop or a `CASE`, `CONTINUE` in a loop, and the first
branch of a `CASE` has a value. -/
def IRStatement.placed (inLoop inCase : Bool) : Statement → Bool
  | .basic _ => true
  | .ifElse _ t es el => placedList inLoop inCase t &&
      (placedElsif inLoop inCase es && placedElse inLoop inCase el)
  | .case _ bs el => firstHasValues bs && (placedBranches inLoop bs && placedElse inLoop true el)
  | .forLoop _ _ _ _ body => placedList true inCase body
  | .whileLoop _ body => placedList true inCase body
  | .repeatLoop _ body => placedList true inCase body
  | .exit => inLoop || inCase
  | .continue => inLoop
  | .return => true

def placedList (inLoop inCase : Bool) : List Statement → Bool
  | [] => true
  | s :: ss => s.placed inLoop inCase && placedList inLoop inCase ss

def placedElsif (inLoop inCase : Bool) : List (Scalar × List Statement) → Bool
  | [] => true
  | (_, b) :: es => placedList inLoop inCase b && placedElsif inLoop inCase es

def placedBranches (inLoop : Bool) : List (List Scalar × List Statement) → Bool
  | [] => true
  | (_, b) :: bs => placedList inLoop true b && placedBranches inLoop bs

def placedElse (inLoop inCase : Bool) : Option (List Statement) → Bool
  | none => true
  | some b => placedList inLoop inCase b

end

theorem legalLines_labels (inLoop : Bool) (vs : List Scalar) (ls : List Line) :
    legalLines inLoop (emitLabels ref vs ++ ls) = legalLines inLoop ls := by
  induction vs with
  | nil => rfl
  | cons v vs ih => exact ih

theorem legalLines_body (inLoop : Bool) (b : List Js) (ls : List Line) :
    legalLines inLoop (b.map .stmt ++ .stmt .brk :: ls) =
      (legalJs inLoop true b && legalLines inLoop ls) := by
  induction b with
  | nil => simp [legalLines, legalJs, Js.legal]
  | cons s ss ih => simp [legalLines, legalJs, ih, Bool.and_assoc]

theorem startsWithLabel_branches (bs : List (List Scalar × List Statement))
    (el : Option (List Statement)) :
    startsWithLabel (emitBranches ref (emitDefault ref el) bs) = firstHasValues bs := by
  match bs, el with
  | [], none => rfl
  | [], some _ => rfl
  | ([], []) :: _, _ => rfl
  | ([], _ :: _) :: _, _ => rfl
  | (_ :: _, _) :: _, _ => rfl

mutual

theorem legal_emitStatement (ref : Ident → Ident) (inLoop inCase : Bool) : ∀ s : Statement,
    (emitStatement ref s).legal inLoop inCase = s.placed inLoop inCase
  | .basic _ => rfl
  | .ifElse _ t es el => by
    simp only [emitStatement, Js.legal, IRStatement.placed, legal_emitBody ref inLoop inCase t,
      legal_emitElsif ref inLoop inCase _ es, legal_emitElse ref inLoop inCase el]
  | .case _ bs el => by
    simp only [emitStatement, Js.legal, IRStatement.placed, startsWithLabel_branches,
      legal_emitBranches ref inLoop _ bs, legal_emitDefault ref inLoop el]
  | .forLoop _ _ _ _ body => legal_emitBody ref true inCase body
  | .whileLoop _ body => legal_emitBody ref true inCase body
  | .repeatLoop _ body => legal_emitBody ref true inCase body
  | .exit => rfl
  | .continue => rfl
  | .return => rfl

theorem legal_emitBody (ref : Ident → Ident) (inLoop inCase : Bool) : ∀ ss : List Statement,
    legalJs inLoop inCase (emitBody ref ss) = placedList inLoop inCase ss
  | [] => rfl
  | s :: ss => by
    simp only [emitBody, legalJs, placedList, legal_emitStatement ref inLoop inCase s,
      legal_emitBody ref inLoop inCase ss]

theorem legal_emitElsif (ref : Ident → Ident) (inLoop inCase : Bool) (otherwise : List Js) :
    ∀ es : List (Scalar × List Statement), legalJs inLoop inCase (emitElsif ref otherwise es) =
      (placedElsif inLoop inCase es && legalJs inLoop inCase otherwise)
  | [] => by simp [emitElsif, placedElsif]
  | (_, b) :: es => by
    simp [emitElsif, legalJs, Js.legal, placedElsif, legal_emitBody ref inLoop inCase b,
      legal_emitElsif ref inLoop inCase otherwise es, Bool.and_assoc]

theorem legal_emitElse (ref : Ident → Ident) (inLoop inCase : Bool) :
    ∀ el : Option (List Statement),
      legalJs inLoop inCase (emitElse ref el) = placedElse inLoop inCase el
  | none => rfl
  | some b => legal_emitBody ref inLoop inCase b

theorem legal_emitBranches (ref : Ident → Ident) (inLoop : Bool) (otherwise : List Line) :
    ∀ bs : List (List Scalar × List Statement), legalLines inLoop (emitBranches ref otherwise bs) =
      (placedBranches inLoop bs && legalLines inLoop otherwise)
  | [] => by simp [emitBranches, placedBranches]
  | (vs, b) :: bs => by
    simp only [emitBranches, legalLines_labels, legalLines_body, placedBranches,
      legal_emitBody ref inLoop true b, legal_emitBranches ref inLoop otherwise bs, Bool.and_assoc]

theorem legal_emitDefault (ref : Ident → Ident) (inLoop : Bool) : ∀ el : Option (List Statement),
    legalLines inLoop (emitDefault ref el) = placedElse inLoop true el
  | none => rfl
  | some b => by
    simp only [emitDefault, legalLines, legalLines_body, placedElse, legal_emitBody ref inLoop true b,
      Bool.and_true]

end

/-! ### The meaning is preserved -/

def Store.of (σ : Ident → Int) : Store := fun x => some (σ x)

/-- Run from the store, the command comes to its end or to a return. -/
def Ends (c : Cmd Store) (s s' : Store) : Prop :=
  ∃ n g, (g = .next ∨ g = .ret) ∧ c n s = some (g, s')

/-- Started with the same values under the printed names, the JavaScript ends
exactly when the Structured Text does, and with the same values. -/
def Preserves (D : Division) (ref : Ident → Ident) (ss : List Statement) (σ : Ident → Int) : Prop :=
  ∀ t : Store, (∀ x, t (ref x) = some (σ x)) →
    (∀ s', Ends (execList D ss) (.of σ) s' →
      ∃ t', Ends (runJs D (emitBody ref ss)) t t' ∧ ∀ x, t' (ref x) = s' x) ∧
    ∀ t', Ends (runJs D (emitBody ref ss)) t t' →
      ∃ s', Ends (execList D ss) (.of σ) s' ∧ ∀ x, t' (ref x) = s' x

/-- The names are kept apart, every statement has its place, and the common run
neither fails nor ends with a value that the two do not share. -/
structure Alike (D : Division) (ref : Ident → Ident) (ss : List Statement) (σ : Ident → Int) :
    Prop where
  injective : Function.Injective ref
  placed : placedList false false ss = true
  runs : ∀ n g s', alikeList D ref ss n (.of σ) = some (g, s') → g ≠ .fail ∧ ∀ x, (s' x).isSome

theorem Agrees.same (hs : Agrees id s t) (ht : Agrees ref s t') (h : ∀ x, (s x).isSome) (x : Ident) :
    t' (ref x) = t x := by
  obtain ⟨a, ha⟩ := Option.isSome_iff_exists.1 (h x)
  have htx : t x = some a := hs x a ha
  rw [htx, ht x a ha]

/-- What the common run has to say of a bound holds on both sides. -/
theorem Alike.at_bound {ss : List Statement} {σ : Ident → Int} (h : Alike D ref ss σ) {t : Store}
    (ht : ∀ x, t (ref x) = some (σ x)) (n : Nat) :
    (execList D ss n (.of σ) = none ∧ runJs D (emitBody ref ss) n t = none) ∨
      ∃ g s' t', execList D ss n (.of σ) = some (g, s') ∧
        runJs D (emitBody ref ss) n t = some (g, t') ∧ ∀ x, t' (ref x) = s' x := by
  have hlegal : legalJs false false (emitBody ref ss) = true := by
    rw [legal_emitBody, h.placed]
  have hjs : Agrees ref (.of σ) t := by
    rintro x a ⟨⟩
    exact ht x
  rw [runJs, if_pos hlegal]
  have hst' := (execList_follows D ref ss n _ _ (Agrees.refl (.of σ))).cases
  have hjs' := (jsList_follows D h.injective ss n _ _ hjs).cases
  obtain ⟨ho, hex⟩ | ⟨s', ho⟩ | ⟨g, s', u, ho, hex, hs⟩ := hst'
  · obtain ⟨-, hrun⟩ | ⟨s', ho'⟩ | ⟨g, s', u, ho', -, -⟩ := hjs'
    · exact .inl ⟨hex, hrun⟩
    · simp [ho] at ho'
    · simp [ho] at ho'
  · exact absurd rfl (h.runs n _ s' ho).1
  · obtain ⟨ho', -⟩ | ⟨s'', ho'⟩ | ⟨g', s'', t', ho', hrun, ht'⟩ := hjs'
    · simp [ho] at ho'
    · exact absurd rfl (h.runs n _ s'' ho').1
    · obtain ⟨rfl, rfl⟩ : g = g' ∧ s' = s'' := by simpa [ho] using ho'
      exact .inr ⟨g, u, t', hex, hrun, hs.same ht' (h.runs n g s' ho).2⟩

/-- One bound is enough to find that a run is alike on both sides. -/
theorem Alike.of_run {ss : List Statement} {σ : Ident → Int} (href : Function.Injective ref)
    (hplaced : placedList false false ss = true) {n : Nat} {g : Signal} {s : Store}
    (hrun : alikeList D ref ss n (.of σ) = some (g, s)) (hg : g ≠ .fail) (hs : ∀ x, (s x).isSome) :
    Alike D ref ss σ where
  injective := href
  placed := hplaced
  runs := by
    intro m g' s' hm
    obtain ⟨rfl, rfl⟩ : g' = g ∧ s' = s := by
      simpa using (alikeList_stable D ref ss).unique hm hrun
    exact ⟨hg, hs⟩

theorem Ends.unique {c : Cmd Store} (hc : Stable c) {s₁ s₂ : Store} (h₁ : Ends c s s₁)
    (h₂ : Ends c s s₂) : s₁ = s₂ := by
  obtain ⟨n, g, -, h₁⟩ := h₁
  obtain ⟨m, g', -, h₂⟩ := h₂
  have heq : (g, s₁) = (g', s₂) := hc.unique h₁ h₂
  exact congrArg Prod.snd heq

section Programs

def integers : Division where
  div := Int.tdiv
  mod := Int.tmod

/-- Loops, an `EXIT` beside a `CASE` with a range and a `CONTINUE` inside it, and
a loop variable that is assigned again once its loop is over. -/
def mixed : List Statement :=
  [.forLoop ['i'] (.literal 1) (.literal 5) none
    [.case (.varRef ['i']) [([.literal 1], [.basic ⟨['s'], .literal 1⟩]),
        ((CaseMatch.range 2 3).values,
          [.basic ⟨['s'], .binaryOp .add (.varRef ['s']) (.varRef ['i'])⟩])] (some [.continue]),
      .ifElse (.binaryOp .gt (.varRef ['s']) (.literal 3)) [.exit] [] none],
    .basic ⟨['i'], .literal 0⟩,
    .repeatLoop (.binaryOp .gt (.varRef ['s']) (.literal 7))
      [.basic ⟨['s'], .binaryOp .add (.varRef ['s']) (.literal 1)⟩]]

theorem mixed_alike : Alike integers id mixed fun _ => 0 := by
  refine Alike.of_run Function.injective_id (by decide) (n := 5) (g := .next) rfl (by decide) ?_
  intro x
  by_cases hi : x = ['i']
  · subst hi
    decide
  by_cases hs : x = ['s']
  · subst hs
    decide
  simp [Store.set, Store.of, leaveFor, hi, hs]

def exitInCase : List Statement :=
  [.whileLoop (.literal 1) [.case (.literal 1) [([.literal 1], [.exit])] none]]

def downward : List Statement :=
  [.forLoop ['i'] (.literal 2) (.literal 1) (some (.unaryOp .neg (.literal 1)))
      [.basic ⟨['s'], .binaryOp .add (.varRef ['s']) (.literal 1)⟩],
    .basic ⟨['i'], .literal 0⟩]

def counter : List Statement := [.forLoop ['i'] (.literal 1) (.literal 1) none []]

theorem exitInCase_never (n : Nat) : runJs integers (emitBody id exitInCase) n (.of fun _ => 0) = none := by
  have hloop := loop_eq_none (p := (Scalar.literal 1).test integers)
    (c := execJs integers (emitBody id [.case (.literal 1) [([.literal 1], [.exit])] none]))
    (u := some) (s := Store.of fun _ => 0) rfl (fun _ => rfl) rfl n
  change seq (loop _ _ some) (raise .next) n _ = none
  rw [seq_raise_next]
  exact hloop

end Programs

end Uniset.St2js
