import Uniset.LogicProcessor.Propagation

/-! The state in which a schema is left by the values set on its external inputs. -/

universe u

namespace Uniset.LogicProcessor

open Relation Uniset.Lib

variable {π : Type u} [DecidableEq π]

namespace Heap

/-- The value that the calls leave on the input `n` of `e`, if they set it. -/
def lastSet (h : Heap π) (e : π) (n : Nat) : List (Call π) → Option Int
  | [] => none
  | c :: calls => (lastSet h e n calls).or
      (if c.el = e ∧ (h e).gate.SamePort n c.num then some c.value else none)

variable {h h' h0 : Heap π} {c : Call π} {calls inner : List (Call π)} {e : π} {n : Nat}

theorem lastSet_eq_none_iff : h.lastSet e n calls = none ↔ ∀ c ∈ calls, h.Apart e n c := by
  induction calls with
  | nil => simp [lastSet]
  | cons c calls ih => simp [lastSet, Option.or_eq_none_iff, ih, Apart, and_comm]

theorem lastSet_append (hinner : ∀ c ∈ inner, h.Apart e n c) :
    h.lastSet e n (inner ++ calls) = h.lastSet e n calls := by
  induction inner with
  | nil => rfl
  | cons c inner ih =>
    have hc : ¬(c.el = e ∧ (h e).gate.SamePort n c.num) := hinner c List.mem_cons_self
    rw [List.cons_append, lastSet, ih fun d hd => hinner d (List.mem_cons_of_mem c hd), if_neg hc,
      Option.or_none]

theorem SameNet.lastSet_eq (hh : SameNet h h') :
    h'.lastSet e n calls = h.lastSet e n calls := by
  induction calls with
  | nil => rfl
  | cons c calls ih => simp only [lastSet, ih, (hh.kind e).samePort]

omit [DecidableEq π] in
theorem SameNet.apart_iff (hh : SameNet h h') : h'.Apart e n c ↔ h.Apart e n c := by
  simp only [Apart, (hh.kind e).samePort]

/-- The calls that a call makes do not come to an input without links. -/
theorem apart_of_mem_take (hport : ∀ a, ¬h.FeedsPort a e n) {d : Call π}
    (hd : d ∈ (h.take c).2) : h.Apart e n d := by
  obtain ⟨-, it, hit, rfl⟩ := mem_take_iff.mp hd
  rintro ⟨rfl, hsame⟩
  exact hport c.el ⟨it, hit, rfl, hsame.symm⟩

/-- An input from outside: its last value is still to be set, or it has been taken. -/
def Holds (e : π) (n : Nat) (v : Int) (h : Heap π) (calls : List (Call π)) : Prop :=
  (∀ a, ¬h.FeedsPort a e n) ∧ (h.lastSet e n calls = some v ∨
    (h.lastSet e n calls = none ∧ (h e).gate.Takes n v))

theorem Holds.turn {v : Int} (hholds : Holds e n v h (c :: calls)) :
    Holds e n v (h.take c).1 ((h.take c).2 ++ calls) := by
  obtain ⟨hport, hvalue⟩ := hholds
  have hnet := sameNet_take h c
  refine ⟨fun a => by rw [hnet.feedsPort_iff]; exact hport a, ?_⟩
  rw [hnet.lastSet_eq, lastSet_append fun d => apart_of_mem_take hport]
  rcases hvalue with hlast | ⟨hnone, htakes⟩
  · cases hrest : h.lastSet e n calls with
    | some w =>
      rw [lastSet, hrest, Option.some_or] at hlast
      exact .inl hlast
    | none =>
      refine .inr ⟨rfl, ?_⟩
      rw [lastSet, hrest, Option.none_or] at hlast
      split_ifs at hlast with hcalled
      · obtain ⟨rfl, hsame⟩ := hcalled
        cases hlast
        refine Gate.takes_of_samePort ?_ takes_take_self
        rw [(hnet.kind c.el).samePort]
        exact hsame.symm
  · have hapart := lastSet_eq_none_iff.mp hnone
    exact .inr ⟨lastSet_eq_none_iff.mpr fun d hd => hapart d (List.mem_cons_of_mem c hd),
      (takes_take_iff (hapart c List.mem_cons_self)).mpr htakes⟩

/-- An input that is not set holds what it held at the start. -/
def Untouched (h0 : Heap π) (e : π) (n : Nat) (h : Heap π) (calls : List (Call π)) : Prop :=
  (∀ c ∈ calls, h.Apart e n c) ∧ ∀ v, (h e).gate.Takes n v ↔ (h0 e).gate.Takes n v

theorem Untouched.turn (huntouched : Untouched h0 e n h (c :: calls))
    (hinner : ∀ d ∈ (h.take c).2, h.Apart e n d) :
    Untouched h0 e n (h.take c).1 ((h.take c).2 ++ calls) := by
  obtain ⟨hapart, hsame⟩ := huntouched
  refine ⟨fun d hd => ?_, fun v => ?_⟩
  · rw [(sameNet_take h c).apart_iff]
    exact (List.mem_append.mp hd).elim (hinner d) fun hd => hapart d (List.mem_cons_of_mem c hd)
  · rw [takes_take_iff (hapart c List.mem_cons_self)]
    exact hsame v

/-! Which elements a run comes to, in a schema of memoryless elements. -/

/-- The state of a run over memoryless elements, none of which had announced its output when the
run began with the calls `ops`. -/
structure Evaluating (h0 : Heap π) (ops : List (Call π)) (h : Heap π) (calls : List (Call π)) :
    Prop where
  net : SameNet h0 h
  /-- What no call has come to is as it was. -/
  kept : ∀ e, (h e).init_out = true → (h e).gate = (h0 e).gate
  called : ∀ c ∈ ops, (h c.el).init_out = false ∨ ∃ d ∈ calls, d.el = c.el
  told : ∀ a e, h.Child a e →
    (h a).init_out = true ∨ (h e).init_out = false ∨ ∃ d ∈ calls, d.el = e
  reason : ∀ e, (h e).init_out = false ∨ (∃ d ∈ calls, d.el = e) →
    (∃ c ∈ ops, c.el = e) ∨ ∃ a, h.Child a e ∧ (h a).init_out = false
  untouched : ∀ a e n, h.FeedsPort a e n → (h a).init_out = false ∨ Untouched h0 e n h calls

theorem Evaluating.turn {ops : List (Call π)} (hw : h.Wired)
    (hgates : ∀ e, (h0 e).gate.Memoryless) (hrun : Evaluating h0 ops h (c :: calls)) :
    Evaluating h0 ops (h.take c).1 ((h.take c).2 ++ calls) := by
  have hnet := sameNet_take h c
  have hgate : (h c.el).gate.Memoryless := (hrun.net.kind c.el).memoryless.mpr (hgates c.el)
  have hinit := Gate.setIn_init_out (h c.el).init_out c.num c.value hgate
  have hself : ((h.take c).1 c.el).init_out = false := init_out_take_self.trans hinit.1
  have hmono : ∀ e, (h e).init_out = false → ((h.take c).1 e).init_out = false := by
    intro e he
    by_cases hel : e = c.el
    · rw [hel, hself]
    · rw [take_of_ne hel, he]
  -- a call that waited has just been made, or still waits
  have hwaits : ∀ e, (∃ d ∈ c :: calls, d.el = e) →
      ((h.take c).1 e).init_out = false ∨ ∃ d ∈ (h.take c).2 ++ calls, d.el = e := by
    rintro e ⟨d, hd, rfl⟩
    rcases List.mem_cons.mp hd with rfl | hd
    · exact .inl hself
    · exact .inr ⟨d, List.mem_append_right _ hd, rfl⟩
  refine ⟨hrun.net.trans hnet, fun e he => ?_, fun d hd => ?_, fun a e hae => ?_, fun e he => ?_,
    fun a e n hfeeds => ?_⟩
  · have hel : e ≠ c.el := by
      rintro rfl
      rw [hself] at he
      cases he
    rw [take_of_ne hel] at he ⊢
    exact hrun.kept e he
  · exact (hrun.called d hd).elim (fun h => .inl (hmono _ h)) (hwaits d.el)
  · rw [hnet.child_eq] at hae
    by_cases ha : a = c.el
    · subst ha
      cases hannounced : ((h c.el).gate.setIn (h c.el).init_out c.num c.value).2.2 with
      | true =>
        obtain ⟨it, hit, rfl⟩ := hae
        exact .inr (.inr ⟨_, List.mem_append_left _ (mem_take_iff.mpr ⟨hannounced, it, hit, rfl⟩),
          rfl⟩)
      | false =>
        rcases hrun.told c.el e hae with htrue | hfalse | hwait
        · rw [hinit.2 hannounced] at htrue
          cases htrue
        · exact .inr (.inl (hmono e hfalse))
        · exact .inr (hwaits e hwait)
    · rw [take_of_ne ha]
      rcases hrun.told a e hae with htrue | hfalse | hwait
      · exact .inl htrue
      · exact .inr (.inl (hmono e hfalse))
      · exact .inr (hwaits e hwait)
  · have hold : (∃ d ∈ ops, d.el = e) ∨ (∃ a, h.Child a e ∧ (h a).init_out = false) →
        (∃ d ∈ ops, d.el = e) ∨ ∃ a, (h.take c).1.Child a e ∧
          ((h.take c).1 a).init_out = false := by
      rw [hnet.child_eq]
      exact Or.imp_right fun ⟨a, hae, ha⟩ => ⟨a, hae, hmono a ha⟩
    by_cases hel : e = c.el
    · exact hold (hrun.reason e (.inr ⟨c, List.mem_cons_self, hel.symm⟩))
    · rcases he with hfalse | ⟨d, hd, rfl⟩
      · rw [take_of_ne hel] at hfalse
        exact hold (hrun.reason e (.inl hfalse))
      · rcases List.mem_append.mp hd with hd | hd
        · rw [hnet.child_eq]
          exact .inr ⟨c.el, child_of_mem_take hd, hself⟩
        · exact hold (hrun.reason d.el (.inr ⟨d, List.mem_cons_of_mem c hd, rfl⟩))
  · rw [hnet.feedsPort_iff] at hfeeds
    by_cases ha : a = c.el
    · rw [ha]
      exact .inl hself
    · rcases hrun.untouched a e n hfeeds with hfalse | huntouched
      · exact .inl (hmono a hfalse)
      · refine .inr (huntouched.turn fun d hd => ?_)
        obtain ⟨-, it, hit, rfl⟩ := mem_take_iff.mp hd
        rintro ⟨rfl, hsame⟩
        exact ha (hw.single hfeeds ⟨it, hit, rfl, hsame.symm⟩)

omit [DecidableEq π] in
theorem Evaluating.start {ops : List (Call π)} (hext : ∀ c ∈ ops, h.External c)
    (hinit : ∀ e, (h e).init_out = true) : Evaluating h ops h ops where
  net := .refl h
  kept _ _ := rfl
  called c hc := .inr ⟨c, hc, rfl⟩
  told a e _ := .inl (hinit a)
  reason e he := by
    refine .inl (he.resolve_left fun hfalse => ?_)
    rw [hinit e] at hfalse
    cases hfalse
  untouched a e n hfeeds := by
    refine .inr ⟨fun c hc => ?_, fun _ => .rfl⟩
    rintro ⟨rfl, hsame⟩
    obtain ⟨it, hit, hel, hport⟩ := hfeeds
    exact hext c hc a ⟨it, hit, hel, hport.trans hsame⟩

/-! The values set from outside, one after the other. -/

variable [Fintype π]

def setAll (h : Heap π) (ops : List (Call π)) : Option (Heap π) :=
  ops.foldlM (fun h c => h.setIn (Fintype.card π) c) h

theorem turns_setAll {ops : List (Call π)} (hset : h.setAll ops = some h') :
    Turns (h, ops) (h', []) := by
  induction ops generalizing h with
  | nil =>
    cases hset
    exact .refl
  | cons c ops ih =>
    simp only [setAll, List.foldlM_cons, Option.bind_eq_bind, Option.bind_eq_some_iff] at hset
    obtain ⟨u, hu, hset⟩ := hset
    exact (turns_setIn hu ops).trans (ih hset)

theorem exists_setAll (hacyclic : Acyclic h.Child) (ops : List (Call π)) :
    ∃ h', h.setAll ops = some h' := by
  obtain ⟨h', hset, -⟩ := foldlM_sameLinks (fun h c => h.setIn (Fintype.card π) c) ops
    (h := h) fun c _ u hu => exists_setIn fun l hl => by
      rw [hu.child_eq] at hl
      exact hacyclic.length_le hl
  exact ⟨h', hset⟩

/-- What the values set from outside leave behind. -/
structure SettledBy (h : Heap π) (ops : List (Call π)) (h' : Heap π) : Prop where
  net : SameNet h h'
  current : ∀ a, ∀ it ∈ (h a).outs, h.Current a it → h'.Current a it
  computed : ∀ e, h.Computed e → h'.Computed e
  holds : ∀ e n v, (∀ a, ¬h.FeedsPort a e n) → h.lastSet e n ops = some v →
    (h' e).gate.Takes n v
  untouched : ∀ e n, (∀ a, ¬h.FeedsPort a e n) → h.lastSet e n ops = none →
    ∀ v, (h' e).gate.Takes n v ↔ (h e).gate.Takes n v

section run

variable (hw : h.Wired) {ops : List (Call π)} (hext : ∀ c ∈ ops, h.External c)
  (hkeep : h.AllKeep ops) (hset : h.setAll ops = some h')

include hw hext hkeep hset

theorem settledBy : SettledBy h ops h' := by
  have hturns := turns_setAll hset
  have hp : h.Pending ops := .of_external hext
  have hnet : SameNet h h' := (turns_induction (P := fun _ _ => True)
    (fun _ _ _ _ => trivial) hturns hw hp hkeep trivial).1
  refine ⟨hnet, fun a it hit hcurrent => ?_, fun e hcomputed => ?_, fun e n v hport hlast => ?_,
    fun e n hport hnone => ?_⟩
  · have hend := (turns_induction (P := fun u calls => it ∈ (u a).outs ∧ u.Told calls a it)
      (fun hw hp hkeeps hP => ⟨by rw [(sameNet_take _ _).outs]; exact hP.1,
        hP.2.turn hw hp hkeeps hP.1⟩) hturns hw hp hkeep ⟨hit, .inl hcurrent⟩).2
    exact hend.2.resolve_right (by simp)
  · exact (turns_induction (P := fun u _ => u.Computed e) (fun _ _ _ hP => hP.take) hturns hw hp
      hkeep hcomputed).2
  · have hend := (turns_induction (P := Holds e n v) (fun _ _ _ hP => hP.turn) hturns hw hp hkeep
      ⟨hport, .inl hlast⟩).2
    exact (hend.2.resolve_left (by simp [lastSet])).2
  · have hend := (turns_induction
      (P := fun u calls => (∀ a, ¬u.FeedsPort a e n) ∧ Untouched h e n u calls)
      (fun _ _ _ hP => ⟨fun a => by rw [(sameNet_take _ _).feedsPort_iff]; exact hP.1 a,
        hP.2.turn fun d hd => apart_of_mem_take hP.1 hd⟩) hturns hw hp hkeep
      ⟨hport, lastSet_eq_none_iff.mp hnone, fun _ => .rfl⟩).2
    exact hend.2.2

theorem evaluated (hstart : ∀ e, (h e).init_out = true ∧ (h e).gate.Memoryless) :
    Evaluating h ops h' [] :=
  (turns_induction (P := Evaluating h ops) (fun hw _ _ hP => hP.turn hw fun e => (hstart e).2)
    (turns_setAll hset) hw (.of_external hext) hkeep (.start hext fun e => (hstart e).1)).2

end run

omit [DecidableEq π] [Fintype π] in
theorem Evaluating.init_out_iff {ops : List (Call π)} (he : Evaluating h0 ops h []) (e : π) :
    (h e).init_out = false ↔
      (∃ c ∈ ops, c.el = e) ∨ ∃ a, h0.Child a e ∧ (h a).init_out = false := by
  rw [← he.net.child_eq]
  constructor
  · intro hfalse
    exact he.reason e (.inl hfalse)
  · rintro (⟨c, hc, rfl⟩ | ⟨a, hae, ha⟩)
    · exact (he.called c hc).resolve_right (by simp)
    · rcases he.told a e hae with htrue | hfalse | hwait
      · rw [ha] at htrue
        cases htrue
      · exact hfalse
      · simp at hwait

omit [Fintype π] in
theorem exists_call_of_lastSet {ops ops' : List (Call π)}
    (hsame : ∀ e n, h.lastSet e n ops' = h.lastSet e n ops) (hcall : ∃ c ∈ ops, c.el = e) :
    ∃ c ∈ ops', c.el = e := by
  obtain ⟨c, hc, rfl⟩ := hcall
  by_contra hnone
  have hlast : h.lastSet c.el c.num ops = none := by
    rw [← hsame, lastSet_eq_none_iff]
    exact fun d hd hcalled => hnone ⟨d, hd, hcalled.1⟩
  exact lastSet_eq_none_iff.mp hlast c hc ⟨rfl, .inl rfl⟩

/-- Induction from the sources to the elements they feed. -/
theorem outputs_eq {ops ops' : List (Call π)} {h1 h2 : Heap π} (hw : h.Wired)
    (hstart : ∀ e, (h e).init_out = true ∧ (h e).gate.Memoryless)
    (hsame : ∀ e n, h.lastSet e n ops' = h.lastSet e n ops)
    (hs1 : SettledBy h ops h1) (he1 : Evaluating h ops h1 [])
    (hs2 : SettledBy h ops' h2) (he2 : Evaluating h ops' h2 []) (e : π) :
    (h2 e).init_out = (h1 e).init_out ∧ (h2 e).gate.getOut = (h1 e).gate.getOut := by
  induction e using hw.acyclic.swap.wellFounded.induction with
  | _ e ih =>
    have hinit : (h2 e).init_out = false ↔ (h1 e).init_out = false := by
      rw [he1.init_out_iff, he2.init_out_iff]
      refine or_congr ⟨exists_call_of_lastSet fun e n => (hsame e n).symm,
        exists_call_of_lastSet hsame⟩ ?_
      exact exists_congr fun a => and_congr_right fun hae => by rw [(ih a hae).1]
    refine ⟨Bool.eq_iff_iff.mpr (by simpa using not_congr hinit), ?_⟩
    cases h1e : (h1 e).init_out with
    | true =>
      have h2e : (h2 e).init_out = true := by
        rw [← Bool.not_eq_false, hinit, h1e]
        exact Bool.true_eq_false_eq_False
      rw [he1.kept e h1e, he2.kept e h2e]
    | false =>
      have hcomputes : ∀ {u ops}, SettledBy h ops u → (u e).init_out = false →
          (u e).gate.Computes := fun hs hfalse =>
        (hs.computed e (.inl (hstart e).1)).resolve_left (by simp [hfalse])
      refine Gate.getOut_eq_of_takes ((hs2.net.kind e).symm.trans (hs1.net.kind e))
        ((hs2.net.kind e).memoryless.mpr (hstart e).2) (fun n w => ?_)
        (hcomputes hs2 (hinit.mpr h1e)) (hcomputes hs1 h1e)
      have hkind := (hs2.net.kind e).symm.trans (hs1.net.kind e)
      by_cases hport : ∃ a, h.FeedsPort a e n
      · obtain ⟨a, hfeeds⟩ := hport
        have hae := hfeeds.child
        cases ha : (h1 a).init_out with
        | false =>
          -- both have taken the output of the source, which is the same
          have htakes : ∀ {u ops}, SettledBy h ops u → (u a).init_out = false →
              (u e).gate.Takes n (u a).gate.getOut := by
            intro u ops hs hfalse
            obtain ⟨it, hit, rfl, hsamePort⟩ := hfeeds
            have hcurrent := hs.current a it hit (.inl (hstart a).1)
            exact Gate.takes_of_samePort ((hs.net.kind it.el).samePort.mpr hsamePort)
              (hcurrent.resolve_left (by simp [hfalse]))
          have ha2 : (h2 a).init_out = false := by rw [(ih a hae).1, ha]
          exact Gate.takes_iff_of_common hkind ((ih a hae).2 ▸ htakes hs2 ha2) (htakes hs1 ha) w
        | true =>
          have huntouched : ∀ {u ops}, Evaluating h ops u [] → (u a).init_out = true →
              ((u e).gate.Takes n w ↔ (h e).gate.Takes n w) := by
            intro u ops he htrue
            have hfeeds' := he.net.feedsPort_iff.mpr hfeeds
            exact ((he.untouched a e n hfeeds').resolve_left (by simp [htrue])).2 w
          have ha2 : (h2 a).init_out = true := by rw [(ih a hae).1, ha]
          rw [huntouched he1 ha, huntouched he2 ha2]
      · have hport' := not_exists.mp hport
        cases hlast : h.lastSet e n ops with
        | some v =>
          exact Gate.takes_iff_of_common hkind
            (hs2.holds e n v hport' ((hsame e n).trans hlast)) (hs1.holds e n v hport' hlast) w
        | none =>
          rw [hs1.untouched e n hport' hlast w,
            hs2.untouched e n hport' ((hsame e n).trans hlast) w]

/-- Whatever is set on the inputs from outside, every link carries the output that its source has
announced, every element has the output that its inputs ask for and every outer input holds what
was set on it last.  Where no element has a memory, the outputs do not depend on the order. -/
theorem settled_by_inputs (h : Heap π) (hw : h.Wired) (ops : List (Call π))
    (hext : ∀ c ∈ ops, h.External c) (hkeep : h.AllKeep ops) :
    ∃ h', h.setAll ops = some h' ∧
      (∀ a, ∀ it ∈ (h a).outs, h.Current a it → h'.Current a it) ∧
      (∀ e, h.Computed e → h'.Computed e) ∧
      (∀ c ∈ ops, ∀ v, h.lastSet c.el c.num ops = some v → (h' c.el).gate.Takes c.num v) ∧
      ((∀ e, (h e).init_out = true ∧ (h e).gate.Memoryless) →
        ∀ ops', (∀ c ∈ ops', h.External c) → h.AllKeep ops' →
          (∀ e n, h.lastSet e n ops' = h.lastSet e n ops) →
          ∃ h'', h.setAll ops' = some h'' ∧
            ∀ e, (h'' e).gate.getOut = (h' e).gate.getOut) := by
  obtain ⟨h', hset⟩ := exists_setAll hw.acyclic ops
  have hs := settledBy hw hext hkeep hset
  refine ⟨h', hset, hs.current, hs.computed, fun c hc v hlast => hs.holds _ _ v (hext c hc) hlast,
    fun hstart ops' hext' hkeep' hsame => ?_⟩
  obtain ⟨h'', hset'⟩ := exists_setAll hw.acyclic ops'
  have he := evaluated hw hext hkeep hset hstart
  have he' := evaluated hw hext' hkeep' hset' hstart
  exact ⟨h'', hset', fun e =>
    (outputs_eq hw hstart hsame hs he (settledBy hw hext' hkeep' hset') he' e).2⟩

/-- A `NOT` before an `OR` of two inputs, the second from outside. -/
def inverted : Heap (Fin 2)
  | 0 => { (Element.newTNOT "1" false : Element (Fin 2)) with outs := [⟨1, 1⟩] }
  | 1 => .newTOR "2" 2 false

theorem inverted_links {a : Fin 2} {it : ChildInfo (Fin 2)} (hit : it ∈ (inverted a).outs) :
    a = 0 ∧ it = ⟨1, 1⟩ := by
  match a, hit with
  | 0, hit => exact ⟨rfl, List.mem_singleton.mp hit⟩
  | 1, hit => cases hit

theorem inverted_wired : inverted.Wired where
  acyclic x hx := by
    have hlt : ∀ y, TransGen inverted.Child x y → x < y := by
      intro y hy
      induction hy with
      | single hchild =>
        obtain ⟨it, hit, rfl⟩ := hchild
        obtain ⟨rfl, rfl⟩ := inverted_links hit
        decide
      | tail _ hchild ih =>
        obtain ⟨it, hit, rfl⟩ := hchild
        obtain ⟨rfl, rfl⟩ := inverted_links hit
        exact absurd ih (Fin.not_lt_zero x)
    exact absurd (hlt x hx) (lt_irrefl x)
  single := by
    rintro a a' e n ⟨it, hit, -, -⟩ ⟨it', hit', -, -⟩
    rw [(inverted_links hit).1, (inverted_links hit').1]

theorem inverted_external {c : Call (Fin 2)} (hc : c.el = 0 ∨ c.el = 1 ∧ c.num = 2) :
    inverted.External c := by
  rintro a ⟨it, hit, hel, hport⟩
  obtain ⟨rfl, rfl⟩ := inverted_links hit
  rcases hc with h0 | ⟨h1, hnum⟩
  · rw [h0] at hel
    exact absurd hel (by decide)
  · rw [h1, hnum] at hport
    exact absurd hport (by decide)

theorem settled_inverted :
    ∃ h', inverted.setAll [⟨0, 1, 1⟩, ⟨1, 2, 1⟩, ⟨0, 1, 0⟩] = some h' ∧ h'.Current 0 ⟨1, 1⟩ := by
  obtain ⟨h', hset, hcurrent, -⟩ := settled_by_inputs inverted inverted_wired
    [⟨0, 1, 1⟩, ⟨1, 2, 1⟩, ⟨0, 1, 0⟩] (by simp [inverted_external])
    (allKeep_of_gates fun e myout c t f => by
      match e with
      | 0 => simp [inverted, Element.newTNOT]
      | 1 => simp [inverted, Element.newTOR])
  exact ⟨h', hset, hcurrent 0 ⟨1, 1⟩ (by decide) (.inl rfl)⟩

/-- A `NOT` that starts with the output 1, a link from it, and an `OR` that has no part in it. -/
def unannounced : Heap (Fin 3)
  | 0 => { (Element.newTNOT "1" true : Element (Fin 3)) with outs := [⟨1, 1⟩] }
  | 1 => .newTOR "2" 2 false
  | 2 => .newTOR "3" 1 false

/-- A `SEL_R` that sets an `RS`. -/
def latched : Heap (Fin 2)
  | 0 => { (Element.newTSEL_R "1" false 0 1 : Element (Fin 2)) with outs := [⟨1, 1⟩] }
  | 1 => .newTRS "2" false false

/-- Two links to one input. -/
def doubled : Heap (Fin 3)
  | 0 => { (Element.newTOR "1" 1 false : Element (Fin 3)) with outs := [⟨2, 1⟩] }
  | 1 => { (Element.newTOR "2" 1 false : Element (Fin 3)) with outs := [⟨2, 1⟩] }
  | 2 => .newTOR "3" 1 false

/-- An output that has not been announced is not at the child; an `RS` remembers an order; and of
two links to one input the later wins. -/
theorem not_settled_by_inputs :
    (∃ h', unannounced.setAll [⟨2, 1, 1⟩] = some h' ∧
      ¬(h' 1).gate.Takes 1 (h' 0).gate.getOut) ∧
    (∃ h' h'', latched.setAll [⟨0, 1, 1⟩, ⟨0, 2, 0⟩] = some h' ∧
      latched.setAll [⟨0, 2, 0⟩, ⟨0, 1, 1⟩] = some h'' ∧
      (h' 1).gate.getOut ≠ (h'' 1).gate.getOut) ∧
    ∃ h', doubled.setAll [⟨0, 1, 1⟩, ⟨1, 1, 0⟩] = some h' ∧
      ¬(h' 2).gate.Takes 1 (h' 0).gate.getOut := by
  refine ⟨⟨_, rfl, fun htakes => ?_⟩, ⟨_, _, rfl, rfl, by decide⟩, ⟨_, rfl, fun htakes => ?_⟩⟩
  · exact absurd (htakes ⟨1, 0⟩ rfl) (by decide)
  · exact absurd (htakes ⟨1, 0⟩ rfl) (by decide)

/-- What `Keeps` leaves out: a `SEL_R` goes from 5 to 1, its child still holds 5. -/
def selected : Heap (Fin 2)
  | 0 => { (Element.newTSEL_R "1" true 0 1 : Element (Fin 2)) with outs := [⟨1, 2⟩] }
  | 1 => .newTSEL_R "2" true 0 1

example : (selected.setAll [⟨0, 2, 5⟩, ⟨0, 2, 1⟩]).map
    (fun h => ((h 0).gate.getOut, (h 1).gate.getOut)) = some (1, 5) := by decide

end Heap

end Uniset.LogicProcessor
