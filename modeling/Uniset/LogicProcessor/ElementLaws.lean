import Uniset.LogicProcessor.Element

/-! What `setIn` does to the element it is called for. -/

namespace Uniset.LogicProcessor

namespace InputInfo

theorem find?_store {num n : Nat} {value : Int} {ins : List InputInfo} :
    (store num value ins).find? (fun it => it.num = n) =
      if n = num then (ins.find? fun it => it.num = n).map fun it => { it with value := value }
      else ins.find? fun it => it.num = n := by
  induction ins with
  | nil => simp [store]
  | cons it ins ih =>
    unfold store
    by_cases hnum : it.num = num
    · by_cases hn : n = num
      · simp [hnum, hn]
      · simp [hnum, hn, Ne.symm hn]
    · by_cases hn : it.num = n
      · simp [hn, hn ▸ hnum]
      · simp only [if_neg hnum, List.find?_cons, hn, decide_false, ih]

theorem find?_eq_none {n : Nat} {ins : List InputInfo} (h : n ∉ ins.map num) :
    (ins.find? fun it => it.num = n) = none := by
  apply List.find?_eq_none.mpr
  intro it hit hn
  simp only [decide_eq_true_eq] at hn
  exact h (hn ▸ List.mem_map_of_mem hit)

/-- The inputs are told by their numbers and what is found under each. -/
theorem eq_of_find? {ins ins' : List InputInfo} (hnum : ins.map num = ins'.map num)
    (hnodup : (ins.map num).Nodup)
    (hfind : ∀ n, (ins.find? fun it => it.num = n) = ins'.find? fun it => it.num = n) :
    ins = ins' := by
  induction ins generalizing ins' with
  | nil => exact (List.map_eq_nil_iff.mp hnum.symm).symm
  | cons it ins ih =>
    cases ins' with
    | nil => simp at hnum
    | cons it' ins' =>
      simp only [List.map_cons, List.cons.injEq] at hnum
      have hit : it = it' := by simpa [hnum.1] using hfind it.num
      subst hit
      obtain ⟨hnew, hrest⟩ := List.nodup_cons.mp hnodup
      rw [ih hnum.2 hrest fun n => ?_]
      by_cases hn : it.num = n
      · subst hn
        rw [find?_eq_none hnew, find?_eq_none (hnum.2 ▸ hnew)]
      · simpa [hn] using hfind n

end InputInfo

namespace Gate

/-- An element of this kind has one input, whatever number it is called by. -/
def single : Gate → Bool
  | .TNOT _ => true
  | .TA2D _ _ => true
  | .TDelay _ _ _ => true
  | _ => false

def SamePort (g : Gate) (n n' : Nat) : Prop := n = n' ∨ g.single

instance decidableSamePort (g : Gate) (n n' : Nat) : Decidable (g.SamePort n n') :=
  inferInstanceAs (Decidable (_ ∨ _))

/-- The same element with other values in it. -/
def SameKind : Gate → Gate → Prop
  | .TOR ins _, .TOR ins' _ => ins.ins.map InputInfo.num = ins'.ins.map InputInfo.num
  | .TAND ins _, .TAND ins' _ => ins.ins.map InputInfo.num = ins'.ins.map InputInfo.num
  | .TNOT _, .TNOT _ => True
  | .TA2D _ fvalue, .TA2D _ fvalue' => fvalue = fvalue'
  | .TSEL_R _ _ _ _, .TSEL_R _ _ _ _ => True
  | .TRS _ dominantReset _ _, .TRS _ dominantReset' _ _ => dominantReset = dominantReset'
  | .TDelay _ delay _, .TDelay _ delay' _ => delay = delay'
  | _, _ => False

/-- The element has taken the value on the input.  Where an input is kept, it holds the value;
the others show it in what they have made of it. -/
def Takes (g : Gate) (num : Nat) (value : Int) : Prop :=
  match g with
  | .TOR ins _ => ∀ it, ins.find num = some it → it.value = value
  | .TAND ins _ => ∀ it, ins.find num = some it → it.value = value
  | .TNOT myout => myout = decide (value = 0)
  | .TA2D myout fvalue => myout = decide (fvalue = value)
  | .TSEL_R _ control_inp true_inp false_inp =>
    (num = 1 → control_inp = decide (value ≠ 0)) ∧ (num = 2 → true_inp = value) ∧
      (num = 3 → false_inp = value)
  | .TRS _ _ set_inp reset_inp =>
    (num = 1 → set_inp = decide (value ≠ 0)) ∧ (num = 2 → reset_inp = decide (value ≠ 0))
  | .TDelay myout _ timing =>
    (value = 0 → myout = false ∧ timing = 0) ∧ (value ≠ 0 → myout = true ∨ timing ≠ 0)

/-- The output is the one that the inputs kept ask for.  `TNOT` and `TA2D` keep no input. -/
def Computes : Gate → Prop
  | .TOR ins myout => myout = true ↔ ∃ it ∈ ins.ins, it.value ≠ 0
  | .TAND ins myout => myout = true ↔ ∀ it ∈ ins.ins, it.value ≠ 0
  | .TSEL_R myout control_inp true_inp false_inp =>
    myout = if control_inp then true_inp else false_inp
  | _ => True

def Memoryless : Gate → Prop
  | .TRS _ _ _ _ => False
  | .TDelay _ _ _ => False
  | _ => True

/-- The call changes a `TSEL_R` from an output other than 0 and 1 to the output 1. -/
def LosesChange (g : Gate) (num : Nat) (value : Int) : Prop :=
  match g with
  | .TSEL_R myout _ _ _ => myout ≠ 0 ∧ myout ≠ 1 ∧ (g.setIn false num value).1.getOut = 1
  | _ => False

variable {g g' : Gate} {init_out : Bool} {n n' : Nat} {v v' : Int}

theorem SamePort.symm (h : SamePort g n n') : SamePort g n' n := h.imp_left Eq.symm

theorem SamePort.trans {n'' : Nat} (h : SamePort g n n') (h' : SamePort g n' n'') :
    SamePort g n n'' := by
  rcases h with rfl | hsingle
  · exact h'
  · exact .inr hsingle

theorem SameKind.refl (g : Gate) : SameKind g g := by cases g <;> simp [SameKind]

theorem SameKind.symm (h : SameKind g g') : SameKind g' g := by
  cases g <;> cases g' <;> first | exact h.elim | exact Eq.symm h | trivial

theorem SameKind.trans {g'' : Gate} (h : SameKind g g') (h' : SameKind g' g'') :
    SameKind g g'' := by
  cases g <;> cases g' <;> first
    | exact h.elim
    | (cases g'' <;> first | exact h'.elim | exact Eq.trans h h' | trivial)

theorem SameKind.single_eq (h : SameKind g g') : g'.single = g.single := by
  cases g <;> cases g' <;> first | exact h.elim | rfl

theorem SameKind.samePort (h : SameKind g g') : SamePort g' n n' ↔ SamePort g n n' := by
  rw [SamePort, SamePort, h.single_eq]

theorem SameKind.memoryless (h : SameKind g g') : Memoryless g' ↔ Memoryless g := by
  cases g <;> cases g' <;> first | exact h.elim | exact Iff.rfl

theorem setIn_sameKind (g : Gate) (init_out : Bool) (n : Nat) (v : Int) :
    SameKind g (g.setIn init_out n v).1 := by
  cases g with
  | TOR ins myout =>
    simp only [setIn]
    split_ifs
    · exact .refl _
    · exact (InputInfo.map_num_store n v ins.ins).symm
  | TAND ins myout =>
    simp only [setIn]
    split_ifs
    · exact .refl _
    · exact (InputInfo.map_num_store n v ins.ins).symm
  | TDelay myout delay timing =>
    simp only [setIn]
    split_ifs <;> rfl
  | _ => simp [setIn, SameKind]

theorem find_store {ins : InputList} :
    (ins.store n v).find n' =
      if n' = n then (ins.find n').map fun it => { it with value := v } else ins.find n' :=
  InputInfo.find?_store

theorem setIn_takes (g : Gate) (init_out : Bool) (n : Nat) (v : Int) :
    Takes (g.setIn init_out n v).1 n v := by
  cases g with
  | TOR ins myout =>
    simp only [setIn]
    split_ifs with hheld
    · intro it hit
      simp only [InputList.holds, hit, Option.any_some, Bool.and_eq_true, decide_eq_true_eq] at hheld
      exact hheld.1
    · intro it hit
      simp only [find_store, if_true, Option.map_eq_some_iff] at hit
      obtain ⟨old, -, rfl⟩ := hit
      rfl
  | TAND ins myout =>
    simp only [setIn]
    split_ifs with hheld
    · intro it hit
      simp only [InputList.holds, hit, Option.any_some, Bool.and_eq_true, decide_eq_true_eq] at hheld
      exact hheld.1
    · intro it hit
      simp only [find_store, if_true, Option.map_eq_some_iff] at hit
      obtain ⟨old, -, rfl⟩ := hit
      rfl
  | TNOT myout => rfl
  | TA2D myout fvalue => rfl
  | TSEL_R myout control_inp true_inp false_inp =>
    exact ⟨fun hn => if_pos hn, fun hn => if_pos hn, fun hn => if_pos hn⟩
  | TRS myout dominantReset set_inp reset_inp =>
    exact ⟨fun hn => if_pos hn, fun hn => if_pos hn⟩
  | TDelay myout delay timing =>
    simp only [setIn]
    split_ifs with hv hdelay hout
    · exact ⟨fun _ => ⟨rfl, rfl⟩, fun hne => absurd hv hne⟩
    · exact ⟨fun h0 => absurd h0 hv, fun _ => .inl rfl⟩
    · exact ⟨fun h0 => absurd h0 hv, fun _ => .inl hout⟩
    · exact ⟨fun h0 => absurd h0 hv, fun _ => .inr (by omega)⟩

theorem takes_of_samePort (h : SamePort g n n') (htakes : Takes g n v) : Takes g n' v := by
  rcases h with rfl | hsingle
  · exact htakes
  · cases g <;> first | exact htakes | cases hsingle

/-- A call leaves the other inputs as they are. -/
theorem setIn_takes_iff (h : ¬SamePort g n n') :
    Takes (g.setIn init_out n v).1 n' v' ↔ Takes g n' v' := by
  obtain ⟨hne, hsingle⟩ := not_or.mp h
  cases g with
  | TOR ins myout =>
    simp only [setIn]
    split_ifs with hheld
    · rfl
    · simp only [Takes, find_store, if_neg (Ne.symm hne)]
  | TAND ins myout =>
    simp only [setIn]
    split_ifs with hheld
    · rfl
    · simp only [Takes, find_store, if_neg (Ne.symm hne)]
  | TSEL_R myout control_inp true_inp false_inp =>
    simp only [setIn, Takes]
    refine and_congr ?_ (and_congr ?_ ?_)
    · exact forall_congr' fun hn => by rw [if_neg fun h1 => hne (h1.trans hn.symm)]
    · exact forall_congr' fun hn => by rw [if_neg fun h1 => hne (h1.trans hn.symm)]
    · exact forall_congr' fun hn => by rw [if_neg fun h1 => hne (h1.trans hn.symm)]
  | TRS myout dominantReset set_inp reset_inp =>
    simp only [setIn, Takes]
    refine and_congr ?_ ?_
    · exact forall_congr' fun hn => by rw [if_neg fun h1 => hne (h1.trans hn.symm)]
    · exact forall_congr' fun hn => by rw [if_neg fun h1 => hne (h1.trans hn.symm)]
  | TNOT myout => exact absurd rfl hsingle
  | TA2D myout fvalue => exact absurd rfl hsingle
  | TDelay myout delay timing => exact absurd rfl hsingle

theorem setIn_computes (h : init_out = true ∨ Computes g) :
    Computes (g.setIn init_out n v).1 := by
  cases g with
  | TOR ins myout =>
    simp only [setIn]
    split_ifs with hheld
    · simp only [Bool.and_eq_true, Bool.not_eq_true'] at hheld
      exact h.resolve_left (by simp [hheld.2])
    · simp [Computes]
  | TAND ins myout =>
    simp only [setIn]
    split_ifs with hheld
    · simp only [Bool.and_eq_true, Bool.not_eq_true'] at hheld
      exact h.resolve_left (by simp [hheld.2])
    · simp [Computes]
  | TSEL_R myout control_inp true_inp false_inp => rfl
  | TNOT myout => trivial
  | TA2D myout fvalue => trivial
  | TRS myout dominantReset set_inp reset_inp => trivial
  | TDelay myout delay timing =>
    simp only [setIn]
    split_ifs <;> trivial

theorem announce_spec (init_out changed : Bool) :
    (announce init_out changed).1 = false ∧
      ((announce init_out changed).2 = false → init_out = false ∧ changed = false) := by
  cases init_out <;> cases changed <;> simp [announce]

/-- All but `TDelay` end a call in one of two ways: the input held the value already, or the
element has compared its output with the one before. -/
inductive Ends (g : Gate) (init_out : Bool) (n : Nat) (v : Int) : Gate × Bool × Bool → Prop
  | held : init_out = false → Ends g init_out n v (g, init_out, false)
  | compared {g' : Gate} {changed : Bool} :
    (changed = false → ¬LosesChange g n v → g'.getOut = g.getOut) →
    Ends g init_out n v (g', announce init_out changed)

theorem ends_held {ins : InputList} {b : Gate × Bool × Bool}
    (hcompared : Ends g init_out n v b) :
    Ends g init_out n v (if ins.holds n v && !init_out then (g, init_out, false) else b) := by
  split_ifs with hheld
  · simp only [Bool.and_eq_true, Bool.not_eq_true'] at hheld
    exact .held hheld.2
  · exact hcompared

theorem setIn_ends (init_out : Bool) (n : Nat) (v : Int)
    (hdelay : ∀ myout delay timing, g ≠ .TDelay myout delay timing) :
    Ends g init_out n v (g.setIn init_out n v) := by
  cases g with
  | TOR ins myout =>
    refine ends_held (.compared fun hsame _ => ?_)
    simp only [decide_eq_false_iff_not, not_not] at hsame
    rw [hsame]
    rfl
  | TAND ins myout =>
    refine ends_held (.compared fun hsame _ => ?_)
    simp only [decide_eq_false_iff_not, not_not] at hsame
    rw [hsame]
    rfl
  | TNOT myout =>
    refine .compared fun hsame _ => ?_
    simp only [decide_eq_false_iff_not, not_not] at hsame
    simp only [getOut, ← hsame]
  | TA2D myout fvalue =>
    refine .compared fun hsame _ => ?_
    simp only [decide_eq_false_iff_not, not_not] at hsame
    simp only [getOut, ← hsame]
  | TRS myout dominantReset set_inp reset_inp =>
    refine .compared fun hsame _ => ?_
    simp only [decide_eq_false_iff_not, not_not] at hsame
    simp only [getOut, ← hsame]
  | TSEL_R myout control_inp true_inp false_inp =>
    refine .compared fun hsame hkeeps => ?_
    -- the `bool` differs from the output only when that is neither 0 nor 1
    have hprev : (if myout = 0 then (0 : Int) else 1) =
        ((TSEL_R myout control_inp true_inp false_inp).setIn false n v).1.getOut := by
      simpa [setIn, getOut] using hsame
    change ((TSEL_R myout control_inp true_inp false_inp).setIn false n v).1.getOut = myout
    by_cases h0 : myout = 0
    · rw [← hprev, if_pos h0, h0]
    · rw [if_neg h0] at hprev
      rw [← hprev]
      by_contra hne
      exact hkeeps ⟨h0, Ne.symm hne, hprev.symm⟩
  | TDelay myout delay timing => exact absurd rfl (hdelay myout delay timing)

/-- A call is told to the children, or changes no output that they have been told. -/
theorem setIn_announces (init_out : Bool) (hkeeps : ¬LosesChange g n v) :
    (g.setIn init_out n v).2.2 = true ∨ (g.setIn init_out n v).2.1 = true ∨
      (init_out = false ∧ (g.setIn init_out n v).1.getOut = g.getOut) := by
  by_cases hdelay : ∀ myout delay timing, g ≠ .TDelay myout delay timing
  · have hends := setIn_ends init_out n v hdelay
    generalize g.setIn init_out n v = result at hends
    cases hends with
    | held hinit => exact .inr (.inr ⟨hinit, rfl⟩)
    | @compared g' changed hsame =>
      cases htold : (announce init_out changed).2 with
      | true => exact .inl rfl
      | false =>
        have hspec := (announce_spec _ _).2 htold
        exact .inr (.inr ⟨hspec.1, hsame hspec.2 hkeeps⟩)
  · push Not at hdelay
    obtain ⟨myout, delay, timing, rfl⟩ := hdelay
    cases init_out with
    | true =>
      refine .inr (.inl ?_)
      simp only [setIn]
      split_ifs <;> rfl
    | false =>
      simp only [setIn]
      split_ifs
      · cases myout <;> simp [getOut]
      · cases myout <;> simp [getOut]
      · simp
      · simp [getOut]

theorem setIn_init_out (init_out : Bool) (n : Nat) (v : Int) (hgate : Memoryless g) :
    (g.setIn init_out n v).2.1 = false ∧
    ((g.setIn init_out n v).2.2 = false → init_out = false) := by
  have hends := setIn_ends (g := g) init_out n v (by
    rintro myout delay timing rfl
    exact hgate)
  generalize g.setIn init_out n v = result at hends
  cases hends with
  | held hinit => exact ⟨hinit, fun _ => hinit⟩
  | compared _ => exact ⟨(announce_spec _ _).1, fun h => ((announce_spec _ _).2 h).1⟩

/-- With the same numbers, something is found under a number on both sides or on neither. -/
theorem find_cases {ins ins' : InputList}
    (hnum : ins.ins.map InputInfo.num = ins'.ins.map InputInfo.num) (n : Nat) :
    (ins.find n = none ∧ ins'.find n = none) ∨
      ∃ v v', ins.find n = some ⟨n, v⟩ ∧ ins'.find n = some ⟨n, v'⟩ := by
  by_cases hmem : n ∈ ins.ins.map InputInfo.num
  · have hsome : ∀ {l : InputList}, n ∈ l.ins.map InputInfo.num → ∃ v, l.find n = some ⟨n, v⟩ := by
      intro l hmem
      cases hfind : l.find n with
      | none =>
        obtain ⟨it, hit, rfl⟩ := List.mem_map.mp hmem
        simpa using List.find?_eq_none.mp hfind it hit
      | some it =>
        have hn : it.num = n := by simpa using List.find?_some hfind
        exact ⟨it.value, by rw [← hn]⟩
    obtain ⟨v, hv⟩ := hsome hmem
    obtain ⟨v', hv'⟩ := hsome (hnum ▸ hmem)
    exact .inr ⟨v, v', hv, hv'⟩
  · exact .inl ⟨InputInfo.find?_eq_none hmem, InputInfo.find?_eq_none (hnum ▸ hmem)⟩

theorem takes_iff_of_find {ins ins' : InputList}
    (hnum : ins.ins.map InputInfo.num = ins'.ins.map InputInfo.num)
    (htakes : ∀ it, ins.find n = some it → it.value = v)
    (htakes' : ∀ it, ins'.find n = some it → it.value = v) (w : Int) :
    (∀ it, ins.find n = some it → it.value = w) ↔
      ∀ it, ins'.find n = some it → it.value = w := by
  rcases find_cases hnum n with ⟨hnone, hnone'⟩ | ⟨x, x', hx, hx'⟩
  · simp [hnone, hnone']
  · have hsame : x = x' := (htakes _ hx).trans (htakes' _ hx').symm
    simp [hx, hx', hsame]

theorem ins_eq_of_takes {ins ins' : InputList}
    (hnum : ins.ins.map InputInfo.num = ins'.ins.map InputInfo.num)
    (htakes : ∀ n w, (∀ it, ins.find n = some it → it.value = w) ↔
      ∀ it, ins'.find n = some it → it.value = w) : ins.ins = ins'.ins := by
  refine InputInfo.eq_of_find? hnum ins.nodup fun n => ?_
  change ins.find n = ins'.find n
  rcases find_cases hnum n with ⟨hnone, hnone'⟩ | ⟨x, x', hx, hx'⟩
  · rw [hnone, hnone']
  · have hsame : x = x' := by simpa [hx, hx'] using htakes n x'
    rw [hx, hx', hsame]

/-- Two elements of a kind that have taken one value on an input hold the same there. -/
theorem takes_iff_of_common (hkind : SameKind g g') (htakes : Takes g n v)
    (htakes' : Takes g' n v) (w : Int) : Takes g n w ↔ Takes g' n w := by
  cases g <;> cases g' <;> try exact hkind.elim
  case TOR.TOR ins myout ins' myout' => exact takes_iff_of_find hkind htakes htakes' w
  case TAND.TAND ins myout ins' myout' => exact takes_iff_of_find hkind htakes htakes' w
  case TNOT.TNOT myout myout' =>
    have hsame : myout = myout' := Eq.trans htakes (Eq.symm htakes')
    rw [hsame]
  case TA2D.TA2D myout fvalue myout' fvalue' =>
    cases hkind
    have hsame : myout = myout' := Eq.trans htakes (Eq.symm htakes')
    rw [hsame]
  case TSEL_R.TSEL_R =>
    refine and_congr ?_ (and_congr ?_ ?_)
    · exact forall_congr' fun hn => by rw [htakes.1 hn, htakes'.1 hn]
    · exact forall_congr' fun hn => by rw [htakes.2.1 hn, htakes'.2.1 hn]
    · exact forall_congr' fun hn => by rw [htakes.2.2 hn, htakes'.2.2 hn]
  case TRS.TRS =>
    refine and_congr ?_ ?_
    · exact forall_congr' fun hn => by rw [htakes.1 hn, htakes'.1 hn]
    · exact forall_congr' fun hn => by rw [htakes.2 hn, htakes'.2 hn]
  case TDelay.TDelay =>
    unfold Takes at *
    grind

/-- Two elements of a memoryless kind that hold the same on every input have the same output. -/
theorem getOut_eq_of_takes (hkind : SameKind g g') (hgate : Memoryless g)
    (htakes : ∀ n w, Takes g n w ↔ Takes g' n w) (hcomputes : Computes g)
    (hcomputes' : Computes g') : g.getOut = g'.getOut := by
  cases g <;> cases g' <;> try exact hkind.elim
  case TOR.TOR ins myout ins' myout' =>
    have hsame : (myout = true) = (myout' = true) := by
      rw [propext hcomputes, propext hcomputes', ins_eq_of_takes hkind htakes]
    simp only [getOut, hsame]
  case TAND.TAND ins myout ins' myout' =>
    have hsame : (myout = true) = (myout' = true) := by
      rw [propext hcomputes, propext hcomputes', ins_eq_of_takes hkind htakes]
    simp only [getOut, hsame]
  case TNOT.TNOT myout myout' =>
    have hzero : myout = true ↔ myout' = true := by simpa [Takes] using htakes 0 0
    simp only [getOut, hzero]
  case TA2D.TA2D myout fvalue myout' fvalue' =>
    cases hkind
    have hvalue : myout = true ↔ myout' = true := by simpa [Takes] using htakes 0 fvalue
    simp only [getOut, hvalue]
  case TSEL_R.TSEL_R myout c t f myout' c' t' f' =>
    have hc : c = c' := by
      have hzero : c = false ↔ c' = false := by simpa [Takes] using htakes 1 0
      cases c <;> cases c' <;> simp at hzero ⊢
    have ht : t = t' := by simpa [Takes] using htakes 2 t'
    have hf : f = f' := by simpa [Takes] using htakes 3 f'
    simp only [getOut]
    rw [show myout = _ from hcomputes, show myout' = _ from hcomputes', hc, ht, hf]
  case TRS.TRS => exact hgate.elim
  case TDelay.TDelay => exact hgate.elim

end Gate

end Uniset.LogicProcessor
