import Uniset.Processes.IOControllerLaws
import Uniset.Lib.GuardedRun

/-! The dependent sensors after every operation: each is blocked exactly when the value of
its parent is not the one that allows it, and shows what that makes of it. -/

namespace Uniset.Processes

open Uniset.Lib

/-- The flag of `c` is the one that the value of `p` gives it. -/
def Follows (io : IOStateList) (p c : ObjectId) : Prop :=
  (io c).blocked = decide ((io p).value ≠ (io c).d_value)

instance (io : IOStateList) (p c : ObjectId) : Decidable (Follows io p c) :=
  inferInstanceAs (Decidable (_ = _))

namespace IOController

variable {ic : IOController} {io io' : IOStateList} {p c : ObjectId} {cs : List ObjectId}

/-- The value that a sensor is about to show, changed by `sup_id`, reaches the dependents in
the list: whose flag turns accepts the supplier, and so on below.  The first that does not
must show the same with either flag, and must be the last that turns. -/
inductive Delivered (ic : IOController) (io : IOStateList) (sup_id : ObjectId) :
    Int → List ObjectId → Prop
  | nil (value : Int) : Delivered ic io sup_id value []
  | same {value : Int} {c : ObjectId} {cs : List ObjectId}
      (hflag : (io c).blocked = decide (value ≠ (io c).d_value))
      (hrest : Delivered ic io sup_id value cs) : Delivered ic io sup_id value (c :: cs)
  | turned {value : Int} {c : ObjectId} {cs : List ObjectId}
      (hflag : (io c).blocked ≠ decide (value ≠ (io c).d_value))
      (haccepts : ic.conf.Accepts (io c) sup_id)
      (hbelow : Delivered ic io sup_id ((io c).turn.shown (io c).real_value)
        (ic.slots.children c))
      (hrest : Delivered ic io sup_id value cs) : Delivered ic io sup_id value (c :: cs)
  | refused {value : Int} {c : ObjectId} {cs : List ObjectId}
      (hflag : (io c).blocked ≠ decide (value ≠ (io c).d_value))
      (hrefuses : ¬ic.conf.Accepts (io c) sup_id)
      (hharmless : (io c).turn.Recomputed)
      (hlast : ∀ d ∈ cs, (io d).blocked = decide (value ≠ (io d).d_value)) :
      Delivered ic io sup_id value (c :: cs)

theorem Delivered.of_follows {value : Int} {sup_id : ObjectId}
    (h : ∀ d ∈ cs, (io d).blocked = decide (value ≠ (io d).d_value)) :
    Delivered ic io sup_id value cs := by
  induction cs with
  | nil => exact .nil value
  | cons c cs ih =>
    exact .same (h c List.mem_cons_self) (ih fun d hd => h d (List.mem_cons_of_mem _ hd))

theorem slot_local (p c : ObjectId) (io : IOStateList) (y : ObjectId) (hy : y ≠ c) :
    (ic.slot p c io).1 y = io y := by
  rw [slot_fst, Function.update_of_ne hy]

theorem slot_same (h : Follows io p c) : ic.slot p c io = (io, .ok false) := by
  simp [slot, ControllerConf.checkDepend_same h]

theorem slot_turned (h : ¬Follows io p c) (ha : ic.conf.Accepts (io c) (io p).supplier) :
    ic.slot p c io =
      (Function.update io c ((io c).turn.assign (io c).real_value (io p).supplier).1,
        .ok ((io c).turn.assign (io c).real_value (io p).supplier).2) := by
  simp only [slot, ControllerConf.checkDepend_accepts h ha]

theorem slot_refused (h : ¬Follows io p c) (ha : ¬ic.conf.Accepts (io c) (io p).supplier) :
    ∃ e, ic.slot p c io = (Function.update io c (io c).turn, .error e) := by
  obtain ⟨e, he⟩ := ControllerConf.checkDepend_refuses h ha
  exact ⟨e, by simp only [slot, he]⟩

theorem not_follows_turn (h : ¬Follows io p c) :
    (io c).turn.blocked = decide ((io p).value ≠ (io c).turn.d_value) := by
  have hbool : ∀ a b : Bool, a ≠ b → (!a) = b := by decide
  exact hbool _ _ h

theorem visitList_of_follows (h : ∀ d ∈ cs, Follows io p d) :
    ic.slots.visitList ic.slot p cs io = io := by
  induction cs with
  | nil => rfl
  | cons c cs ih =>
    rw [Forest.visitList_skip (slot_same (h c List.mem_cons_self))]
    exact ih fun d hd => h d (List.mem_cons_of_mem _ hd)

theorem visitList_commit {out : USensorInfo × Bool}
    (h : ic.slot p c io = (Function.update io c out.1, .ok out.2)) :
    ic.slots.visitList ic.slot p (c :: cs) io =
      ic.slots.visitList ic.slot p cs (ic.commit io c out) := by
  unfold commit
  cases hemit : out.2 with
  | false =>
    rw [hemit] at h
    exact Forest.visitList_skip h
  | true =>
    rw [hemit] at h
    exact Forest.visitList_descend h

theorem commit_self (out : USensorInfo × Bool) : ic.commit io c out c = out.1 := by
  unfold commit
  split_ifs
  · rw [emit, Forest.visit_frame slot_local c fun d hd => Forest.not_within_parent hd,
      Function.update_self]
  · exact Function.update_self ..

theorem commit_frame {y : ObjectId} (hy : ¬ic.slots.Within c y) (out : USensorInfo × Bool) :
    ic.commit io c out y = io y := by
  have hne : y ≠ c := fun heq => hy (heq ▸ Forest.Within.refl _)
  unfold commit
  split_ifs
  · rw [emit, Forest.visit_frame slot_local c fun d hd h => hy (h.head hd),
      Function.update_of_ne hne]
  · exact Function.update_of_ne hne ..

/-- What a visit of the children `cs` of `p` leaves behind. -/
structure Propagated (ic : IOController) (p : ObjectId) (cs : List ObjectId)
    (io io' : IOStateList) : Prop where
  follows : ∀ c ∈ cs, Follows io' p c
  recomputed : ∀ c ∈ cs, ∀ y, ic.slots.Within c y → (io' y).Recomputed
  keeps : ∀ c ∈ cs, ∀ y, ic.slots.Within c y → ∀ z ∈ ic.slots.children y,
    Follows io y z → Follows io' y z

/-- Below a sensor with a new record, whether its signal is emitted or not. -/
structure Committed (ic : IOController) (c : ObjectId) (io io' : IOStateList) : Prop where
  recomputed : ∀ d ∈ ic.slots.children c, ∀ y, ic.slots.Within d y → (io' y).Recomputed
  keeps : ∀ y, ic.slots.Within c y → ∀ z ∈ ic.slots.children y, Follows io y z → Follows io' y z

theorem ne_of_within_child {d y : ObjectId} (hd : d ∈ ic.slots.children c)
    (hy : ic.slots.Within d y) : y ≠ c := by
  rintro rfl
  exact Forest.not_within_parent hd hy

theorem ne_of_child_of_within {y z : ObjectId} (hy : ic.slots.Within c y)
    (hz : z ∈ ic.slots.children y) : z ≠ c := by
  rintro rfl
  exact Forest.not_within_parent hz hy

theorem commit_committed {out : USensorInfo × Bool}
    (hrec : ∀ d ∈ ic.slots.children c, ∀ y, ic.slots.Within d y → (io y).Recomputed)
    (hquiet : out.2 = false → ∀ z ∈ ic.slots.children c, Follows io c z →
      (io z).blocked = decide (out.1.value ≠ (io z).d_value))
    (hprop : out.2 = true → Propagated ic c (ic.slots.children c) (Function.update io c out.1)
      (ic.emit c (Function.update io c out.1))) :
    Committed ic c io (ic.commit io c out) := by
  have hfollows : ∀ y, ic.slots.Within c y → y ≠ c → ∀ z ∈ ic.slots.children y,
      Follows io y z → Follows (Function.update io c out.1) y z := by
    intro y hy hne z hz h
    unfold Follows at h ⊢
    rwa [Function.update_of_ne hne, Function.update_of_ne (ne_of_child_of_within hy hz)]
  cases hemit : out.2 with
  | false =>
    have hcommit : ic.commit io c out = Function.update io c out.1 := by simp [commit, hemit]
    rw [hcommit]
    refine ⟨fun d hd y hy => ?_, fun y hy z hz h => ?_⟩
    · rw [Function.update_of_ne (ne_of_within_child hd hy)]
      exact hrec d hd y hy
    · by_cases hne : y = c
      · subst hne
        unfold Follows
        rw [Function.update_self, Function.update_of_ne (ne_of_child_of_within hy hz)]
        exact hquiet hemit z hz h
      · exact hfollows y hy hne z hz h
  | true =>
    have hcommit : ic.commit io c out = ic.emit c (Function.update io c out.1) := by
      simp [commit, hemit]
    have hp := hprop hemit
    rw [hcommit]
    refine ⟨hp.recomputed, fun y hy z hz h => ?_⟩
    rcases Forest.within_iff.mp hy with rfl | ⟨d, hd, hdy⟩
    · exact hp.follows z hz
    · exact hp.keeps d hd y hdy z hz (hfollows y hy (ne_of_within_child hd hdy) z hz h)

/-- A flag that turns without a signal leaves the value, and so the flags below. -/
theorem turned_committed (sup_id : ObjectId)
    (hrec : ∀ d ∈ ic.slots.children c, ∀ y, ic.slots.Within d y → (io y).Recomputed)
    (hprop : Propagated ic c (ic.slots.children c)
      (Function.update io c ((io c).turn.assign (io c).real_value sup_id).1)
      (ic.emit c (Function.update io c ((io c).turn.assign (io c).real_value sup_id).1))) :
    Committed ic c io (ic.commit io c ((io c).turn.assign (io c).real_value sup_id)) := by
  refine commit_committed hrec (fun hquiet z _ hz => ?_) fun _ => hprop
  have hsame : ((io c).turn.assign (io c).real_value sup_id).1.value = (io c).value :=
    USensorInfo.assign_value_of_not_emitted _ _ _ hquiet
  rw [hsame]
  exact hz

theorem Propagated.cons {io₂ : IOStateList} (hsub : ∀ d ∈ c :: cs, d ∈ ic.slots.children p)
    (hnodup : (c :: cs).Nodup) (hframe : ∀ y, ¬ic.slots.Within c y → io₂ y = io y)
    (hfollows : Follows io₂ p c) (hrec : (io₂ c).Recomputed) (hbelow : Committed ic c io io₂)
    (hrest : Propagated ic p cs io₂ (ic.slots.visitList ic.slot p cs io₂)) :
    Propagated ic p (c :: cs) io (ic.slots.visitList ic.slot p cs io₂) := by
  have hc : c ∈ ic.slots.children p := hsub c List.mem_cons_self
  have hd : ∀ d ∈ cs, d ∈ ic.slots.children p := fun d hd => hsub d (List.mem_cons_of_mem _ hd)
  have hne : ∀ d ∈ cs, c ≠ d := fun d hd heq => (List.nodup_cons.mp hnodup).1 (heq ▸ hd)
  have hstays : ∀ y, ic.slots.Within c y →
      ic.slots.visitList ic.slot p cs io₂ y = io₂ y := fun y hy =>
    Forest.visitList_frame slot_local
      (fun d hmem => Forest.siblings_apart hc (hd d hmem) (hne d hmem) hy) io₂
  have hparent : ic.slots.visitList ic.slot p cs io₂ p = io₂ p :=
    Forest.visitList_frame slot_local (fun d hmem => Forest.not_within_parent (hd d hmem)) io₂
  refine ⟨?_, ?_, ?_⟩
  · rintro d hmem
    rcases List.mem_cons.mp hmem with rfl | hmem
    · unfold Follows at hfollows ⊢
      rwa [hparent, hstays _ (Forest.Within.refl _)]
    · exact hrest.follows d hmem
  · rintro d hmem y hy
    rcases List.mem_cons.mp hmem with rfl | hmem
    · rw [hstays y hy]
      rcases Forest.within_iff.mp hy with rfl | ⟨e, he, hey⟩
      · exact hrec
      · exact hbelow.recomputed e he y hey
    · exact hrest.recomputed d hmem y hy
  · rintro d hmem y hy z hz h
    rcases List.mem_cons.mp hmem with rfl | hmem
    · have h₂ := hbelow.keeps y hy z hz h
      unfold Follows at h₂ ⊢
      rwa [hstays y hy, hstays z (hy.tail hz)]
    · refine hrest.keeps d hmem y hy z hz ?_
      have hapart : ∀ w, ic.slots.Within d w → io₂ w = io w := fun w hw =>
        hframe w (Forest.siblings_apart (hd d hmem) hc (hne d hmem).symm hw)
      unfold Follows at h ⊢
      rwa [hapart y hy, hapart z (hy.tail hz)]

theorem Propagated.of_follows (hfollows : ∀ d ∈ cs, Follows io p d)
    (hrec : ∀ d ∈ cs, ∀ y, ic.slots.Within d y → (io y).Recomputed) :
    Propagated ic p cs io (ic.slots.visitList ic.slot p cs io) := by
  rw [visitList_of_follows hfollows]
  exact ⟨hfollows, hrec, fun _ _ _ _ _ _ h => h⟩

/-- A value that is delivered leaves every dependent below right. -/
theorem Delivered.propagated {io₀ : IOStateList} {sup_id : ObjectId} {value : Int}
    (h : Delivered ic io₀ sup_id value cs) :
    ∀ {p io}, (∀ d ∈ cs, d ∈ ic.slots.children p) → cs.Nodup → (io p).value = value →
      (io p).supplier = sup_id → (∀ d ∈ cs, ∀ y, ic.slots.Within d y → io y = io₀ y) →
      (∀ d ∈ cs, ∀ y, ic.slots.Within d y → (io y).Plain ∧ (io y).Recomputed) →
      Propagated ic p cs io (ic.slots.visitList ic.slot p cs io) := by
  induction h with
  | nil value =>
    intro p io _ _ _ _ _ _
    exact .of_follows (fun _ h => nomatch h) fun _ h => nomatch h
  | @same value c cs hflag hrest ih =>
    intro p io hsub hnodup hvalue hsup hio hgood
    have hfollows : Follows io p c := by
      rw [Follows, hio c List.mem_cons_self c (.refl c), hvalue, hflag]
    have hagain : ic.slots.visitList ic.slot p (c :: cs) io = ic.slots.visitList ic.slot p cs io :=
      Forest.visitList_skip (slot_same hfollows)
    have hrec : ∀ y, ic.slots.Within c y → (io y).Recomputed := fun y hy =>
      (hgood c List.mem_cons_self y hy).2
    rw [hagain]
    refine .cons hsub hnodup (fun _ _ => rfl) hfollows (hrec c (.refl c))
      ⟨fun d hd y hy => hrec y (hy.head hd), fun _ _ _ _ h => h⟩ ?_
    exact ih (fun d hd => hsub d (List.mem_cons_of_mem _ hd)) (List.nodup_cons.mp hnodup).2 hvalue
      hsup (fun d hd => hio d (List.mem_cons_of_mem _ hd))
      fun d hd => hgood d (List.mem_cons_of_mem _ hd)
  | @turned value c cs hflag haccepts _ _ ihbelow ihrest =>
    intro p io hsub hnodup hvalue hsup hio hgood
    have hc : io c = io₀ c := hio c List.mem_cons_self c (.refl c)
    have hturns : ¬Follows io p c := by rwa [Follows, hc, hvalue]
    have ha : ic.conf.Accepts (io c) (io p).supplier := by rwa [hc, hsup]
    have hplain : (io c).turn.Plain := (hgood c List.mem_cons_self c (.refl c)).1
    set out := (io c).turn.assign (io c).real_value (io p).supplier with hout
    have hshown : out.1.value = (io c).turn.shown (io c).real_value := hplain.assign_value _ _
    have hsupplier : out.1.supplier = sup_id := by rw [hout, USensorInfo.assign_eq, ← hsup]
    have hbelow : Committed ic c io (ic.commit io c out) := by
      refine turned_committed _ (fun d hd y hy => (hgood c List.mem_cons_self y (hy.head hd)).2) ?_
      rw [← hout, emit, Forest.visit_eq]
      refine ihbelow (fun _ hd => hd) (ic.slots.children_nodup c) ?_ ?_ (fun d hd y hy => ?_)
        fun d hd y hy => ?_
      · rw [Function.update_self, hshown, hc]
      · rw [Function.update_self, hsupplier]
      · rw [Function.update_of_ne (ne_of_within_child hd hy)]
        exact hio c List.mem_cons_self y (hy.head hd)
      · rw [Function.update_of_ne (ne_of_within_child hd hy)]
        exact hgood c List.mem_cons_self y (hy.head hd)
    have hframe : ∀ y, ¬ic.slots.Within c y → ic.commit io c out y = io y := fun y hy =>
      commit_frame hy out
    have hp : ic.commit io c out p = io p :=
      hframe p (Forest.not_within_parent (hsub c List.mem_cons_self))
    have hapart : ∀ d ∈ cs, ∀ y, ic.slots.Within d y → ic.commit io c out y = io y := by
      intro d hd y hy
      have hne : d ≠ c := fun heq => (List.nodup_cons.mp hnodup).1 (heq ▸ hd)
      exact hframe y (Forest.siblings_apart (hsub d (List.mem_cons_of_mem _ hd))
        (hsub c List.mem_cons_self) hne hy)
    rw [visitList_commit (slot_turned hturns ha)]
    refine .cons hsub hnodup hframe ?_ ?_ hbelow ?_
    · rw [Follows, commit_self, hp, USensorInfo.assign_eq]
      exact not_follows_turn hturns
    · rw [commit_self]
      exact USensorInfo.recomputed_of_shown hshown
    · refine ihrest (fun d hd => hsub d (List.mem_cons_of_mem _ hd)) (List.nodup_cons.mp hnodup).2
        (by rw [hp, hvalue]) (by rw [hp, hsup]) (fun d hd y hy => ?_) fun d hd y hy => ?_
      · rw [hapart d hd y hy]
        exact hio d (List.mem_cons_of_mem _ hd) y hy
      · rw [hapart d hd y hy]
        exact hgood d (List.mem_cons_of_mem _ hd) y hy
  | @refused value c cs hflag hrefuses hharmless hlast =>
    intro p io hsub hnodup hvalue hsup hio hgood
    have hc : io c = io₀ c := hio c List.mem_cons_self c (.refl c)
    have hturns : ¬Follows io p c := by rwa [Follows, hc, hvalue]
    have ha : ¬ic.conf.Accepts (io c) (io p).supplier := by rwa [hc, hsup]
    obtain ⟨e, he⟩ := slot_refused hturns ha
    set io₂ := Function.update io c (io c).turn with hio₂
    have hother : ∀ y, y ≠ c → io₂ y = io y := fun y hy => Function.update_of_ne hy ..
    have hself : io₂ c = (io c).turn := Function.update_self ..
    have hp : io₂ p = io p := hother p fun heq =>
      Forest.not_within_parent (hsub c List.mem_cons_self) (heq ▸ Forest.Within.refl _)
    have hapart : ∀ d ∈ cs, ∀ y, ic.slots.Within d y → io₂ y = io y := by
      intro d hd y hy
      have hne : d ≠ c := fun heq => (List.nodup_cons.mp hnodup).1 (heq ▸ hd)
      refine hother y fun heq => ?_
      exact Forest.siblings_apart (hsub d (List.mem_cons_of_mem _ hd))
        (hsub c List.mem_cons_self) hne (heq ▸ hy) (Forest.Within.refl c)
    -- the exception skips the rest, and a visit of the rest would change nothing
    have hrest : ∀ d ∈ cs, Follows io₂ p d := by
      intro d hd
      rw [Follows, hp, hapart d hd d (.refl d), hio d (List.mem_cons_of_mem _ hd) d (.refl d),
        hvalue]
      exact hlast d hd
    rw [Forest.visitList_error he, ← visitList_of_follows hrest]
    refine .cons hsub hnodup (fun y hy => hother y fun heq => hy (heq ▸ Forest.Within.refl _))
      ?_ ?_ ⟨fun d hd y hy => ?_, fun y hy z hz h => ?_⟩ (.of_follows hrest fun d hd y hy => ?_)
    · rw [Follows, hself, hp]
      exact not_follows_turn hturns
    · rw [hself, hc]
      exact hharmless
    · rw [hother y (ne_of_within_child hd hy)]
      exact (hgood c List.mem_cons_self y (hy.head hd)).2
    · have hvalues : (io₂ y).value = (io y).value := by
        by_cases hy : y = c
        · rw [hy, hself]
          rfl
        · rw [hother y hy]
      rwa [Follows, hvalues, hother z (ne_of_child_of_within hy hz)]
    · rw [hapart d hd y hy]
      exact (hgood d (List.mem_cons_of_mem _ hd) y hy).2

/-- From `d` downwards every record is as it has to be. -/
def Right (ic : IOController) (io : IOStateList) (d : ObjectId) : Prop :=
  ∀ y, ic.slots.Within d y → (io y).Recomputed ∧ ∀ z ∈ ic.slots.children y, Follows io y z

theorem Right.child {d : ObjectId} (h : Right ic io c) (hd : d ∈ ic.slots.children c) :
    Follows io c d ∧ Right ic io d :=
  ⟨(h c (.refl c)).2 d hd, fun y hy => h y (hy.head hd)⟩

theorem Right.congr {d : ObjectId} (h : Right ic io d)
    (heq : ∀ y, ic.slots.Within d y → io' y = io y) : Right ic io' d := by
  intro y hy
  rw [heq y hy]
  refine ⟨(h y hy).1, fun z hz => ?_⟩
  have hfollows := (h y hy).2 z hz
  unfold Follows at hfollows ⊢
  rwa [heq y hy, heq z (hy.tail hz)]

theorem delivered_of_commit {io₀ : IOStateList} {out : USensorInfo × Bool}
    (ih : ∀ {io : IOStateList},
      (∀ d ∈ ic.slots.children c, ∀ y, ic.slots.Within d y → io y = io₀ y ∧ (io y).Plain) →
      (∀ d ∈ ic.slots.children c, Follows (ic.emit c io) c d ∧ Right ic (ic.emit c io) d) →
      Delivered ic io₀ (io c).supplier (io c).value (ic.slots.children c))
    (hio : ∀ d ∈ ic.slots.children c, ∀ y, ic.slots.Within d y → io y = io₀ y ∧ (io y).Plain)
    (hright : ∀ d ∈ ic.slots.children c,
      Follows (ic.commit io c out) c d ∧ Right ic (ic.commit io c out) d) :
    Delivered ic io₀ out.1.supplier out.1.value (ic.slots.children c) := by
  cases hemit : out.2 with
  | false =>
    have hcommit : ic.commit io c out = Function.update io c out.1 := by simp [commit, hemit]
    rw [hcommit] at hright
    refine .of_follows fun d hd => ?_
    have hne : d ≠ c := ne_of_within_child hd (.refl d)
    have hfollows := (hright d hd).1
    rwa [Follows, Function.update_self, Function.update_of_ne hne,
      (hio d hd d (.refl d)).1] at hfollows
  | true =>
    have hcommit : ic.commit io c out = ic.emit c (Function.update io c out.1) := by
      simp [commit, hemit]
    rw [hcommit] at hright
    have hdelivered := ih (fun d hd y hy => ?_) hright
    · rwa [Function.update_self] at hdelivered
    · rw [Function.update_of_ne (ne_of_within_child hd hy)]
      exact hio d hd y hy

/-- The loop over the dependents leaves them right only if the value is delivered to them. -/
theorem delivered_of_visitList {io₀ : IOStateList} {sup_id : ObjectId} {value : Int}
    (ih : ∀ c ∈ cs, ∀ {io : IOStateList},
      (∀ d ∈ ic.slots.children c, ∀ y, ic.slots.Within d y → io y = io₀ y ∧ (io y).Plain) →
      (∀ d ∈ ic.slots.children c, Follows (ic.emit c io) c d ∧ Right ic (ic.emit c io) d) →
      Delivered ic io₀ (io c).supplier (io c).value (ic.slots.children c))
    (hsub : ∀ d ∈ cs, d ∈ ic.slots.children p) (hnodup : cs.Nodup) (hvalue : (io p).value = value)
    (hsup : (io p).supplier = sup_id)
    (hio : ∀ d ∈ cs, ∀ y, ic.slots.Within d y → io y = io₀ y ∧ (io y).Plain)
    (hright : ∀ d ∈ cs, Follows (ic.slots.visitList ic.slot p cs io) p d ∧
      Right ic (ic.slots.visitList ic.slot p cs io) d) :
    Delivered ic io₀ sup_id value cs := by
  induction cs generalizing io with
  | nil => exact .nil value
  | cons c cs ihcs =>
    have hc : io c = io₀ c := (hio c List.mem_cons_self c (.refl c)).1
    have hpc := hsub c List.mem_cons_self
    have hpd : ∀ d ∈ cs, d ∈ ic.slots.children p := fun d hd => hsub d (List.mem_cons_of_mem _ hd)
    have hne : ∀ d ∈ cs, d ≠ c := fun d hd heq => (List.nodup_cons.mp hnodup).1 (heq ▸ hd)
    have hrest : ∀ {io₂ : IOStateList}, (∀ y, ¬ic.slots.Within c y → io₂ y = io y) →
        (∀ d ∈ cs, Follows (ic.slots.visitList ic.slot p cs io₂) p d ∧
          Right ic (ic.slots.visitList ic.slot p cs io₂) d) →
        Delivered ic io₀ sup_id value cs := by
      intro io₂ hframe hright₂
      have hp : io₂ p = io p := hframe p (Forest.not_within_parent hpc)
      refine ihcs (fun d hd => ih d (List.mem_cons_of_mem _ hd)) hpd
        (List.nodup_cons.mp hnodup).2 (by rw [hp, hvalue]) (by rw [hp, hsup])
        (fun d hd y hy => ?_) hright₂
      rw [hframe y (Forest.siblings_apart (hpd d hd) hpc (hne d hd) hy)]
      exact hio d (List.mem_cons_of_mem _ hd) y hy
    by_cases hfollows : Follows io p c
    · rw [Forest.visitList_skip (slot_same hfollows)] at hright
      have hflag : (io₀ c).blocked = decide (value ≠ (io₀ c).d_value) := by
        rw [← hc, ← hvalue]
        exact hfollows
      exact .same hflag (hrest (fun _ _ => rfl) fun d hd => hright d (List.mem_cons_of_mem _ hd))
    · have hflag : (io₀ c).blocked ≠ decide (value ≠ (io₀ c).d_value) := by
        rw [← hc, ← hvalue]
        exact hfollows
      by_cases ha : ic.conf.Accepts (io c) (io p).supplier
      · rw [visitList_commit (slot_turned hfollows ha)] at hright
        set out := (io c).turn.assign (io c).real_value (io p).supplier with hout
        have hplain : (io c).turn.Plain := (hio c List.mem_cons_self c (.refl c)).2
        have hshown : out.1.value = (io₀ c).turn.shown (io₀ c).real_value :=
          hc ▸ hplain.assign_value _ _
        have hsupplier : out.1.supplier = sup_id := by rw [hout, USensorInfo.assign_eq, ← hsup]
        have hrightc : Right ic (ic.commit io c out) c :=
          (hright c List.mem_cons_self).2.congr fun y hy =>
            (Forest.visitList_frame slot_local (fun d hd =>
              Forest.siblings_apart hpc (hpd d hd) (hne d hd).symm hy) _).symm
        have hbelow := delivered_of_commit (ih c List.mem_cons_self)
          (fun d hd y hy => hio c List.mem_cons_self y (hy.head hd))
          fun d hd => hrightc.child hd
        rw [hshown, hsupplier] at hbelow
        refine .turned hflag (by rwa [hc, hsup] at ha) hbelow ?_
        exact hrest (fun y hy => commit_frame hy out) fun d hd =>
          hright d (List.mem_cons_of_mem _ hd)
      · obtain ⟨e, he⟩ := slot_refused hfollows ha
        rw [Forest.visitList_error he] at hright
        refine .refused hflag (by rwa [hc, hsup] at ha) ?_ fun d hd => ?_
        · have hrec := ((hright c List.mem_cons_self).2 c (.refl c)).1
          rwa [Function.update_self, hc] at hrec
        · have hfd := (hright d (List.mem_cons_of_mem _ hd)).1
          have hpne : p ≠ c := fun heq =>
            Forest.not_within_parent hpc (heq ▸ Forest.Within.refl _)
          rwa [Follows, Function.update_of_ne (hne d hd), Function.update_of_ne hpne,
            (hio d (List.mem_cons_of_mem _ hd) d (.refl d)).1, hvalue] at hfd

theorem delivered_of_emit {io₀ : IOStateList} (x : ObjectId) :
    ∀ {io : IOStateList},
      (∀ d ∈ ic.slots.children x, ∀ y, ic.slots.Within d y → io y = io₀ y ∧ (io y).Plain) →
      (∀ d ∈ ic.slots.children x, Follows (ic.emit x io) x d ∧ Right ic (ic.emit x io) d) →
      Delivered ic io₀ (io x).supplier (io x).value (ic.slots.children x) := by
  refine Forest.induction (F := ic.slots) (P := fun x => ∀ {io : IOStateList},
    (∀ d ∈ ic.slots.children x, ∀ y, ic.slots.Within d y → io y = io₀ y ∧ (io y).Plain) →
    (∀ d ∈ ic.slots.children x, Follows (ic.emit x io) x d ∧ Right ic (ic.emit x io) d) →
    Delivered ic io₀ (io x).supplier (io x).value (ic.slots.children x)) (fun x ih io hio h => ?_) x
  rw [emit, Forest.visit_eq] at h
  exact delivered_of_visitList ih (fun _ hd => hd) (ic.slots.children_nodup x) rfl rfl hio h

/-- Every dependent sensor is right. -/
def Settled (ic : IOController) (io : IOStateList) : Prop :=
  ∀ p, ∀ c ∈ ic.slots.children p, Follows io p c ∧ (io c).Recomputed

theorem Settled.right {d : ObjectId} (h : Settled ic io) (hd : d ∈ ic.slots.children p) :
    Right ic io d := by
  intro y hy
  refine ⟨?_, fun z hz => (h y z hz).1⟩
  rcases Relation.ReflTransGen.cases_tail hy with rfl | ⟨q, -, hq⟩
  · exact (h p _ hd).2
  · exact (h q y hq).2

theorem Committed.follows {sid : ObjectId} {out : USensorInfo × Bool}
    (h : Committed ic sid io (ic.commit io sid out)) (hc : c ∈ ic.slots.children p) (hne : c ≠ sid)
    (hfollows : Follows io p c) : Follows (ic.commit io sid out) p c := by
  by_cases hwithin : ic.slots.Within sid c
  · -- the parent of `c` lies below the sensor too, or is the sensor
    rcases Relation.ReflTransGen.cases_tail hwithin with heq | ⟨q, hq, hqc⟩
    · exact absurd heq hne
    · cases ic.slots.parent_unique hqc hc
      exact h.keeps _ hq c hc hfollows
  · have hp : ¬ic.slots.Within sid p := fun hp => hwithin (hp.tail hc)
    rwa [Follows, commit_frame hwithin, commit_frame hp]

theorem Committed.recomputed_of {sid : ObjectId} {out : USensorInfo × Bool}
    (h : Committed ic sid io (ic.commit io sid out)) (hne : c ≠ sid) (hrec : (io c).Recomputed) :
    (ic.commit io sid out c).Recomputed := by
  by_cases hwithin : ic.slots.Within sid c
  · rcases Forest.within_iff.mp hwithin with heq | ⟨d, hd, hdc⟩
    · exact absurd heq hne
    · exact h.recomputed d hd c hdc
  · rwa [commit_frame hwithin]

/-- A new record of a sensor leaves the controller settled exactly when it is right itself and
its value is delivered, or needs no delivery. -/
theorem commit_settled_iff {sid : ObjectId} {out : USensorInfo × Bool} (h : Settled ic io)
    (hplain : ∀ y, (io y).Plain) (hblocked : out.1.blocked = (io sid).blocked)
    (hd_value : out.1.d_value = (io sid).d_value) :
    Settled ic (ic.commit io sid out) ↔
      ((∃ p, sid ∈ ic.slots.children p) → out.1.Recomputed) ∧
        if out.2 = true then
          Delivered ic io out.1.supplier out.1.value (ic.slots.children sid)
        else
          ∀ z ∈ ic.slots.children sid, (io z).blocked = decide (out.1.value ≠ (io z).d_value) := by
  have hio : ∀ d ∈ ic.slots.children sid, ∀ y, ic.slots.Within d y → io y = io y ∧ (io y).Plain :=
    fun _ _ y _ => ⟨rfl, hplain y⟩
  constructor
  · intro hsettled
    refine ⟨fun ⟨p, hp⟩ => ?_, ?_⟩
    · have hrec := (hsettled p sid hp).2
      rwa [commit_self] at hrec
    · split_ifs with hemit
      · exact delivered_of_commit (delivered_of_emit sid) hio fun d hd =>
          ⟨(hsettled sid d hd).1, hsettled.right hd⟩
      · have hcommit : ic.commit io sid out = Function.update io sid out.1 := by
          simp [commit, hemit]
        intro z hz
        have hfollows := (hsettled sid z hz).1
        have hne : z ≠ sid := ne_of_within_child hz (.refl z)
        rwa [hcommit, Follows, Function.update_self, Function.update_of_ne hne] at hfollows
  · rintro ⟨hown, hbelow⟩
    have hcommitted : Committed ic sid io (ic.commit io sid out) := by
      refine commit_committed (fun d hd y hy => (h.right hd y hy).1) (fun hquiet z hz _ => ?_)
        fun hemit => ?_
      · rw [if_neg (by simp [hquiet])] at hbelow
        exact hbelow z hz
      · rw [if_pos hemit] at hbelow
        have hother : ∀ d ∈ ic.slots.children sid, ∀ y, ic.slots.Within d y →
            Function.update io sid out.1 y = io y := fun d hd y hy =>
          Function.update_of_ne (ne_of_within_child hd hy) ..
        rw [emit, Forest.visit_eq]
        refine hbelow.propagated (fun _ hd => hd) (ic.slots.children_nodup sid)
          (by rw [Function.update_self]) (by rw [Function.update_self]) hother fun d hd y hy => ?_
        rw [hother d hd y hy]
        exact ⟨hplain y, (h.right hd y hy).1⟩
    intro p c hc
    by_cases hself : c = sid
    · subst hself
      have hp : ic.commit io c out p = io p := commit_frame (Forest.not_within_parent hc) out
      rw [Follows, hp, commit_self, hblocked, hd_value]
      exact ⟨(h p c hc).1, hown ⟨p, hc⟩⟩
    · exact ⟨hcommitted.follows hc hself (h p c hc).1, hcommitted.recomputed_of hself (h p c hc).2⟩

/-- Where a value that is not signalled has not moved, delivery decides. -/
theorem commit_settled_iff_delivered {sid : ObjectId} (out : USensorInfo × Bool)
    (h : Settled ic io) (hplain : ∀ y, (io y).Plain) (hblocked : out.1.blocked = (io sid).blocked)
    (hd_value : out.1.d_value = (io sid).d_value) (hrec : out.1.Recomputed)
    (hquiet : out.2 = false → out.1.value = (io sid).value) :
    Settled ic (ic.commit io sid out) ↔
      Delivered ic io out.1.supplier out.1.value (ic.slots.children sid) := by
  rw [commit_settled_iff h hplain hblocked hd_value]
  split_ifs with hemit
  · exact ⟨fun hd => hd.2, fun hd => ⟨fun _ => hrec, hd⟩⟩
  · have hfollows : ∀ z ∈ ic.slots.children sid,
        (io z).blocked = decide (out.1.value ≠ (io z).d_value) := by
      rw [hquiet (by simpa using hemit)]
      exact fun z hz => (h sid z hz).1
    exact ⟨fun _ => .of_follows hfollows, fun _ => ⟨fun _ => hrec, hfollows⟩⟩

/-- The condition under which an operation leaves the controller settled. -/
def Delivers (ic : IOController) (io : IOStateList) : ControllerOp → Prop
  | .setValue sid value sup_id =>
    sid ≠ DefaultObjectId ∧ sid ∈ ic.slots.nodes →
    ic.conf.Accepts (io sid) (ic.supplierOf sup_id) →
      Delivered ic io (ic.supplierOf sup_id) ((io sid).shown value) (ic.slots.children sid)
  | .freezeValue sid set value sup_id =>
    sid ≠ DefaultObjectId ∧ sid ∈ ic.slots.nodes →
    ic.conf.Accepts (io sid) (ic.supplierOf sup_id) →
      Delivered ic io (ic.supplierOf sup_id)
        (((io sid).assignFrozen set value).shown (io sid).real_value) (ic.slots.children sid)
  | .setUndefinedState sid undefined _ =>
    sid ∈ ic.slots.nodes → (io sid).readonly = false →
      ((∃ p, sid ∈ ic.slots.children p) → (io sid).frozen = false → undefined = false →
        (io sid).undefinedValue undefined =
          if (io sid).blocked then (io sid).d_off_value else (io sid).real_value) ∧
      if (io sid).undefined = undefined then
        ∀ z ∈ ic.slots.children sid,
          (io z).blocked = decide ((io sid).undefinedValue undefined ≠ (io z).d_value)
      else
        Delivered ic io (io sid).supplier ((io sid).undefinedValue undefined)
          (ic.slots.children sid)

theorem step_settled_iff (op : ControllerOp) (h : Settled ic io) (hplain : ∀ y, (io y).Plain) :
    Settled ic (ic.step io op) ↔ Delivers ic io op := by
  cases op with
  | setValue sid value sup_id =>
    rw [step_setValue]
    split_ifs with hfound ha
    · set out := (io sid).assign value (ic.supplierOf sup_id) with hout
      have hshown : out.1.value = (io sid).shown value := (hplain sid).assign_value value _
      have hsupplier : out.1.supplier = ic.supplierOf sup_id := by rw [hout, USensorInfo.assign_eq]
      have hsettled := commit_settled_iff_delivered out h hplain
        (by rw [hout, USensorInfo.assign_eq]) (by rw [hout, USensorInfo.assign_eq])
        (USensorInfo.recomputed_of_shown hshown) (USensorInfo.assign_value_of_not_emitted _ _ _)
      rw [hsettled, hshown, hsupplier]
      exact ⟨fun hd _ _ => hd, fun hd => hd hfound ha⟩
    · exact ⟨fun _ _ ha' => absurd ha' ha, fun _ => h⟩
    · exact ⟨fun _ hfound' => absurd hfound' hfound, fun _ => h⟩
  | freezeValue sid set value sup_id =>
    rw [step_freezeValue]
    split_ifs with hfound ha
    · set usi := (io sid).assignFrozen set value with husi
      set out := usi.assign (io sid).real_value (ic.supplierOf sup_id) with hout
      have hshown : out.1.value = usi.shown (io sid).real_value :=
        USensorInfo.assignFrozen_shown set value _
      have hsupplier : out.1.supplier = ic.supplierOf sup_id := by rw [hout, USensorInfo.assign_eq]
      have hsettled := commit_settled_iff_delivered out h hplain
        (by rw [hout, USensorInfo.assign_eq, husi, USensorInfo.assignFrozen])
        (by rw [hout, USensorInfo.assign_eq, husi, USensorInfo.assignFrozen])
        (USensorInfo.recomputed_of_shown hshown) (USensorInfo.assign_value_of_not_emitted _ _ _)
      rw [hsettled, hshown, hsupplier]
      exact ⟨fun hd _ _ => hd, fun hd => hd hfound ha⟩
    · exact ⟨fun _ _ ha' => absurd ha' ha, fun _ => h⟩
    · exact ⟨fun _ hfound' => absurd hfound' hfound, fun _ => h⟩
  | setUndefinedState sid undefined sup_id =>
    rw [step_setUndefinedState, USensorInfo.assignUndefined_eq]
    split_ifs with hfound hwritable
    · rw [commit_settled_iff h hplain rfl rfl]
      simp only [Delivers, hfound, hwritable, true_implies]
      refine and_congr Iff.rfl ?_
      by_cases hsame : (io sid).undefined = undefined
      · rw [if_pos hsame, if_neg (by simp [hsame])]
      · rw [if_neg hsame, if_pos (by simpa using hsame)]
    · exact ⟨fun _ _ hwritable' => absurd hwritable' hwritable, fun _ => h⟩
    · exact ⟨fun _ hfound' => absurd hfound' hfound, fun _ => h⟩

/-- While the controller is activated: the sensors already checked are right, the values of
all follow the flags they have. -/
structure Activating (ic : IOController) (io : IOStateList) (done : List ObjectId) : Prop where
  plain : ∀ y, (io y).Plain
  recomputed : ∀ y, (io y).Recomputed
  follows : ∀ p, ∀ c ∈ ic.slots.children p, c ∈ done → Follows io p c

/-- What connects the signals with the configuration in the records. -/
def Linked (ic : IOController) (io : IOStateList) : Prop :=
  ∀ p c, c ∈ ic.slots.children p ↔
    c ∈ ic.slots.nodes ∧ (io c).depend_sid = p ∧ p ≠ DefaultObjectId ∧ p ∈ ic.slots.nodes

theorem Linked.of_sensorRuns (h : Linked ic io) (hruns : SensorRuns io io') : Linked ic io' := by
  intro p c
  rw [h p c, (hruns c).depend_sid]

theorem initIOList_linked (conf : ControllerConf) (its : List SensorConf)
    (hacyclic : DependsAcyclic its) (lst ioList : MapOrder its) :
    Linked (initIOList conf its hacyclic lst ioList) (readList its) := by
  intro p c
  simp only [initIOList, init_depends_signals, Forest.reorder, Forest.ofParent,
    Forest.mem_childrenOf, lst.2.mem_iff, ioList.2.mem_iff, dependOf]
  split_ifs with h
  · constructor
    · rintro ⟨hc, hp⟩
      cases hp
      exact ⟨hc, rfl, h.1, h.2⟩
    · rintro ⟨hc, hp, -, -⟩
      exact ⟨hc, congrArg some hp⟩
  · constructor
    · exact fun hc => nomatch hc.2
    · rintro ⟨-, rfl, hne, hp⟩
      exact absurd ⟨hne, hp⟩ h

/-- The records of a configured controller. -/
theorem readList_activating (ic : IOController) (its : List SensorConf) :
    Activating ic (readList its) [] where
  plain sid hfrozen _ := by
    unfold readList getSensorInfo at hfrozen ⊢
    simp only [Option.isSome_eq_false_iff, Option.isNone_iff_eq_none] at hfrozen
    simp [hfrozen]
  recomputed sid hfrozen _ := by
    unfold readList getSensorInfo at hfrozen ⊢
    simp only [Option.isSome_eq_false_iff, Option.isNone_iff_eq_none] at hfrozen
    simp [hfrozen]
  follows _ _ _ h := nomatch h

/-- The check of a sensor by the activation: where its flag turns, its value is delivered. -/
def CheckDelivers (ic : IOController) (io : IOStateList) (sid : ObjectId) : Prop :=
  ∀ p, sid ∈ ic.slots.children p → ¬Follows io p sid →
    Delivered (ic.activateAcl (io sid)) io (io p).supplier
      ((io sid).turn.shown (io sid).real_value) (ic.slots.children sid)

theorem activateAcl_slots (usi : USensorInfo) : (ic.activateAcl usi).slots = ic.slots := by
  unfold activateAcl
  cases usi.acl <;> rfl

/-- The check of a sensor `c` that hangs below `p`. -/
theorem checkDepend_cases (h : ic.checkDepend p c io = .ok io') :
    (Follows io p c ∧ io' = io) ∨
    (¬Follows io p c ∧ ic.conf.Accepts (io c) (io p).supplier ∧
      io' = ic.commit io c ((io c).turn.assign (io c).real_value (io p).supplier)) := by
  unfold checkDepend at h
  by_cases hfollows : Follows io p c
  · rw [slot_same hfollows] at h
    cases h
    exact .inl ⟨hfollows, rfl⟩
  · by_cases ha : ic.conf.Accepts (io c) (io p).supplier
    · rw [slot_turned hfollows ha] at h
      cases h
      exact .inr ⟨hfollows, ha, rfl⟩
    · obtain ⟨e, he⟩ := slot_refused hfollows ha
      rw [he] at h
      cases h

theorem Activating.check {done : List ObjectId} (h : Activating ic io done)
    (hp : c ∈ ic.slots.children p)
    (hdelivers : ¬Follows io p c → Delivered ic io (io p).supplier
      ((io c).turn.shown (io c).real_value) (ic.slots.children c))
    (hcheck : ic.checkDepend p c io = .ok io') : Activating ic io' (c :: done) := by
  rcases checkDepend_cases hcheck with ⟨hfollows, rfl⟩ | ⟨hturns, ha, rfl⟩
  · refine ⟨h.plain, h.recomputed, fun q d hd hmem => ?_⟩
    rcases List.mem_cons.mp hmem with rfl | hmem
    · obtain rfl := ic.slots.parent_unique hd hp
      exact hfollows
    · exact h.follows q d hd hmem
  · set out := (io c).turn.assign (io c).real_value (io p).supplier with hout
    have hshown : out.1.value = (io c).turn.shown (io c).real_value :=
      (h.plain c).turn_assign_value _
    have hsupplier : out.1.supplier = (io p).supplier := by rw [hout, USensorInfo.assign_eq]
    have hstep : out.1 = ic.conf.step (io c) (.checkDepend (io p).value (io p).supplier) := by
      rw [ControllerConf.step_checkDepend, if_neg (show ¬_ = decide _ from hturns), if_pos ha]
    have hother : ∀ d ∈ ic.slots.children c, ∀ y, ic.slots.Within d y →
        Function.update io c out.1 y = io y := fun d hd y hy =>
      Function.update_of_ne (ne_of_within_child hd hy) ..
    have hbelow : Committed ic c io (ic.commit io c out) := by
      refine turned_committed _ (fun _ _ y _ => h.recomputed y) ?_
      rw [← hout, emit, Forest.visit_eq]
      refine (hdelivers hturns).propagated (fun _ hd => hd) (ic.slots.children_nodup c)
        (by rw [Function.update_self, hshown]) (by rw [Function.update_self, hsupplier]) hother
        fun d hd y hy => ?_
      rw [hother d hd y hy]
      exact ⟨h.plain y, h.recomputed y⟩
    refine ⟨fun y => (sensorRuns_commit _ hstep y).plain (h.plain y), fun y => ?_,
      fun q d hd hmem => ?_⟩
    · by_cases hy : y = c
      · rw [hy, commit_self]
        exact USensorInfo.recomputed_of_shown hshown
      · exact hbelow.recomputed_of hy (h.recomputed y)
    · by_cases hdc : d = c
      · subst hdc
        obtain rfl := ic.slots.parent_unique hd hp
        rw [Follows, commit_frame (Forest.not_within_parent hd), commit_self, hout,
          USensorInfo.assign_eq]
        exact not_follows_turn hturns
      · exact hbelow.follows hd hdc (h.follows q d hd ((List.mem_cons.mp hmem).resolve_left hdc))

/-- Every check of the activation delivers its value. -/
def ActivationDelivers : IOController × IOStateList → List ObjectId → Prop
  | _, [] => True
  | (ic, io), sid :: sids =>
    CheckDelivers ic io sid ∧
      ∀ next, activateSensor (ic, io) sid = .ok next → ActivationDelivers next sids

theorem Activating.activateAcl {done : List ObjectId} (h : Activating ic io done)
    (usi : USensorInfo) : Activating (ic.activateAcl usi) io done where
  plain := h.plain
  recomputed := h.recomputed
  follows := by
    rw [activateAcl_slots]
    exact h.follows

theorem Linked.activateAcl (h : Linked ic io) (usi : USensorInfo) :
    Linked (ic.activateAcl usi) io := by
  unfold Linked
  rw [activateAcl_slots]
  exact h

theorem sensorRuns_checkDepend (h : ic.checkDepend p c io = .ok io') : SensorRuns io io' := by
  rcases checkDepend_cases h with ⟨-, rfl⟩ | ⟨hturns, ha, rfl⟩
  · exact fun _ => Relation.ReflTransGen.refl
  · refine sensorRuns_commit (.checkDepend (io p).value (io p).supplier) ?_
    rw [ControllerConf.step_checkDepend, if_neg (show ¬_ = decide _ from hturns), if_pos ha]

theorem activateSensor_activating {done : List ObjectId} {sid : ObjectId} {ic' : IOController}
    (h : Activating ic io done) (hlinked : Linked ic io) (hmem : sid ∈ ic.slots.nodes)
    (hdelivers : CheckDelivers ic io sid) (hok : activateSensor (ic, io) sid = .ok (ic', io')) :
    Activating ic' io' (sid :: done) ∧ Linked ic' io' ∧ ic'.slots = ic.slots := by
  have hslots : (ic.activateAcl (io sid)).slots = ic.slots := activateAcl_slots _
  simp only [activateSensor, hslots] at hok
  split_ifs at hok with hdepend
  · have hp : sid ∈ ic.slots.children (io sid).depend_sid :=
      (hlinked _ _).mpr ⟨hmem, rfl, hdepend.1, hdepend.2⟩
    cases hcheck : (ic.activateAcl (io sid)).checkDepend (io sid).depend_sid sid io with
    | error e =>
      rw [hcheck] at hok
      cases hok
    | ok io₂ =>
      rw [hcheck] at hok
      cases hok
      have hpa : sid ∈ (ic.activateAcl (io sid)).slots.children (io sid).depend_sid := by
        rwa [hslots]
      refine ⟨(h.activateAcl (io sid)).check hpa (fun hturns => ?_) hcheck,
        (hlinked.activateAcl (io sid)).of_sensorRuns (sensorRuns_checkDepend hcheck), hslots⟩
      rw [hslots]
      exact hdelivers _ hp hturns
  · cases hok
    have ha := h.activateAcl (io sid)
    refine ⟨⟨ha.plain, ha.recomputed, fun p c hc hmem => ?_⟩, hlinked.activateAcl (io sid), hslots⟩
    rcases List.mem_cons.mp hmem with rfl | hdone
    · rw [hslots] at hc
      obtain ⟨-, rfl, hne, hnode⟩ := (hlinked _ _).mp hc
      exact absurd ⟨hne, hnode⟩ hdepend
    · exact ha.follows p c hc hdone

theorem foldlM_activateSensor {sids done : List ObjectId} {ic' : IOController}
    (h : Activating ic io done) (hlinked : Linked ic io) (hsub : sids ⊆ ic.slots.nodes)
    (hdelivers : ActivationDelivers (ic, io) sids)
    (hok : sids.foldlM activateSensor (ic, io) = .ok (ic', io')) :
    Activating ic' io' (sids.reverse ++ done) ∧ Linked ic' io' ∧ ic'.slots = ic.slots := by
  induction sids generalizing ic io done with
  | nil =>
    cases hok
    exact ⟨h, hlinked, rfl⟩
  | cons sid sids ih =>
    rw [List.foldlM_cons] at hok
    cases hnext : activateSensor (ic, io) sid with
    | error e =>
      rw [hnext] at hok
      cases hok
    | ok next =>
      obtain ⟨ic₂, io₂⟩ := next
      rw [hnext] at hok
      obtain ⟨hact, hlinked₂, hslots⟩ := activateSensor_activating h hlinked
        (hsub List.mem_cons_self) hdelivers.1 hnext
      obtain ⟨hact', hlinked', hslots'⟩ := ih hact hlinked₂
        (fun d hd => hslots ▸ hsub (List.mem_cons_of_mem _ hd)) (hdelivers.2 _ hnext) hok
      rw [List.reverse_cons, List.append_assoc]
      exact ⟨hact', hlinked', hslots'.trans hslots⟩

/-- In the words of the records. -/
def DependentsRight (ic : IOController) (io : IOStateList) : Prop :=
  ∀ sid ∈ ic.slots.nodes, (io sid).depend_sid ≠ DefaultObjectId →
    (io sid).depend_sid ∈ ic.slots.nodes →
      (io sid).blocked = decide ((io (io sid).depend_sid).value ≠ (io sid).d_value) ∧
      (io sid).Recomputed

instance (ic : IOController) (io : IOStateList) : Decidable (DependentsRight ic io) :=
  inferInstanceAs (Decidable (∀ sid ∈ ic.slots.nodes, _ → _ → _ ∧ _))

theorem Linked.settled_iff (h : Linked ic io) : Settled ic io ↔ DependentsRight ic io := by
  constructor
  · exact fun hs sid hmem hne hnode => hs _ sid ((h _ _).mpr ⟨hmem, rfl, hne, hnode⟩)
  · intro hs p c hc
    obtain ⟨hmem, rfl, hne, hnode⟩ := (h _ _).mp hc
    exact hs c hmem hne hnode

/-- A discrete sensor and two analog sensors that depend on it, the last of them readonly
or not. -/
def pairOf (readonly : Bool) : List SensorConf :=
  [⟨1, .DI, 1, false, none, none, none, none⟩,
    ⟨3, .AI, 7, false, none, none, none, some ⟨1, none, none⟩⟩,
    ⟨2, .AI, 5, readonly, none, none, none, some ⟨1, none, none⟩⟩]

/-- A hash map that has room for all of them is gone through backwards. -/
def backwards (readonly : Bool) : MapOrder (pairOf readonly) :=
  ⟨[2, 3, 1], (by decide : ([2, 3, 1] : List ObjectId).Perm [1, 3, 2])⟩

theorem pairOf_acyclic (readonly : Bool) : DependsAcyclic (pairOf readonly) := by
  refine Forest.acyclic_of_rank (fun x => if x = 1 then 1 else 0) fun c hc p hp => ?_
  have hids : readIds (pairOf readonly) = [1, 3, 2] := rfl
  have hone : dependOf (pairOf readonly) 1 = none := rfl
  have htwo : dependOf (pairOf readonly) 2 = some 1 := rfl
  have hthree : dependOf (pairOf readonly) 3 = some 1 := rfl
  rw [hids] at hc
  simp only [List.mem_cons, List.not_mem_nil, or_false] at hc
  rcases hc with rfl | rfl | rfl
  · rw [hone] at hp
    cases hp
  · rw [hthree] at hp
    cases hp
    decide
  · rw [htwo] at hp
    cases hp
    decide

theorem CheckDelivers.of_follows {sid : ObjectId}
    (h : ∀ p, sid ∈ ic.slots.children p → Follows io p sid) : CheckDelivers ic io sid :=
  fun p hp hturns => absurd (h p hp) hturns

/-- Whatever the configuration and the orders of its sensors in the maps, once the activation has
delivered the values of all sensors, every dependent sensor is right after every operation if and only if each operation delivers
the value it sets. -/
theorem dependents_right (conf : ControllerConf) (its : List SensorConf)
    (hacyclic : DependsAcyclic its) (lst ioList : MapOrder its) {ic : IOController}
    {io : IOStateList}
    (hactivated :
      (initIOList conf its hacyclic lst ioList).activateInit (readList its) = .ok (ic, io))
    (hdelivered :
      ActivationDelivers (initIOList conf its hacyclic lst ioList, readList its) ioList.1)
    (ops : List ControllerOp) :
    (∀ io' ∈ List.scanl ic.step io ops, DependentsRight ic io') ↔
      Guarded ic.step ic.Delivers io ops := by
  obtain ⟨hactivating, hlinked, hslots⟩ := foldlM_activateSensor
    (readList_activating _ its) (initIOList_linked conf its hacyclic lst ioList)
    (List.Subset.refl _) hdelivered hactivated
  have hsettled : Settled ic io := by
    intro p c hc
    have hmem : c ∈ (initIOList conf its hacyclic lst ioList).slots.nodes :=
      hslots ▸ ic.slots.children_subset p hc
    exact ⟨hactivating.follows p c hc (by simpa using hmem), hactivating.recomputed c⟩
  refine forall_visited_iff_guarded_of_invariant
    (I := fun io => (∀ y, (io y).Plain) ∧ Linked ic io) (fun io op hI _ _ => ?_)
    (fun io op hI hP => ?_)
    ⟨hactivating.plain, hlinked⟩ (hlinked.settled_iff.mp hsettled) ops
  · have hruns : SensorRuns io (ic.step io op) := step_sensorRuns io op
    exact ⟨fun y => (hruns y).plain (hI.1 y), hI.2.of_sensorRuns hruns⟩
  · have hlinked' : Linked ic (ic.step io op) := hI.2.of_sensorRuns (step_sensorRuns io op)
    rw [← hlinked'.settled_iff]
    exact step_settled_iff op (hI.2.settled_iff.mpr hP) hI.1

theorem dependents_right_pair :
    ∃ ic io,
      (initIOList (.unrestricted 10) (pairOf false) (pairOf_acyclic false) (backwards false)
        (backwards false)).activateInit (readList (pairOf false)) = .ok (ic, io) ∧
      ∀ io' ∈ List.scanl ic.step io [.setValue 1 0 DefaultObjectId, .setValue 3 8 DefaultObjectId,
        .setValue 1 1 DefaultObjectId], DependentsRight ic io' := by
  have hparent : ∀ {p c},
      c ∈ (initIOList (.unrestricted 10) (pairOf false) (pairOf_acyclic false) (backwards false)
        (backwards false)).slots.children p → dependOf (pairOf false) c = some p :=
    fun h => (Forest.mem_childrenOf.mp h).2
  have hdelivered : ActivationDelivers
      (initIOList (.unrestricted 10) (pairOf false) (pairOf_acyclic false) (backwards false)
        (backwards false), readList (pairOf false)) (backwards false).1 := by
    refine ⟨.of_follows fun p hp => ?_, fun next hnext => ?_⟩
    · cases hparent hp
      decide
    · cases hnext
      refine ⟨.of_follows fun p hp => ?_, fun next hnext => ?_⟩
      · cases hparent hp
        decide
      · cases hnext
        refine ⟨.of_follows fun p hp => ?_, fun _ _ => trivial⟩
        cases hparent hp
  refine ⟨_, _, rfl, (dependents_right _ _ (pairOf_acyclic false) _ _ rfl hdelivered _).mpr
    ⟨fun _ _ => ?_, fun _ _ => ?_, fun _ _ => ?_, trivial⟩⟩
  · exact .turned (by decide) (by decide) (.nil _) (.turned (by decide) (by decide) (.nil _) (.nil _))
  · exact .nil _
  · exact .turned (by decide) (by decide) (.nil _) (.turned (by decide) (by decide) (.nil _) (.nil _))

/-- The exception of the readonly sensor keeps the signal from the other one. -/
theorem dependents_not_right :
    ∃ ic io,
      (initIOList (.unrestricted 10) (pairOf true) (pairOf_acyclic true) (backwards true)
        (backwards true)).activateInit (readList (pairOf true)) = .ok (ic, io) ∧
      ¬∀ io' ∈ List.scanl ic.step io [.setValue 1 0 DefaultObjectId], DependentsRight ic io' :=
  ⟨_, _, rfl, by decide⟩

end IOController

end Uniset.Processes
