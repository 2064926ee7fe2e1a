import Mathlib.Data.List.Basic
import Mathlib.Data.List.Infix
import Mathlib.Data.List.Perm.Basic
import Mathlib.Logic.Function.Basic
import Mathlib.Tactic.Common

/-! A trigger of several outputs, of which at most one is on. The caller knows of the outputs what
`act` told it. -/

namespace Uniset.Various

variable {κ V : Type*}

/-- `acts` are the calls of `act`, the latest first. -/
structure TriggerOUT (κ V : Type*) where
  keys : List κ := []
  value : κ → V
  acts : List (κ × V) := []

variable [DecidableEq κ]

namespace TriggerOUT

variable (t : TriggerOUT κ V)

def act (out : κ) (val : V) : TriggerOUT κ V := { t with acts := (out, val) :: t.acts }

def store (out : κ) (val : V) : TriggerOUT κ V := { t with value := Function.update t.value out val }

/-- The map is not ordered: a walk may meet its keys in any order. -/
def walk (order : List κ) : List κ := if order.Perm t.keys then order else t.keys

theorem mem_walk {order : List κ} {k : κ} : k ∈ t.walk order ↔ k ∈ t.keys := by
  unfold walk
  split
  next h => exact h.mem_iff
  next => rfl

variable {t}

/-- What every turn of a walk keeps. -/
theorem foldl_walk {P : TriggerOUT κ V → Prop} {f : TriggerOUT κ V → κ → TriggerOUT κ V}
    (hkeys : ∀ t out, (f t out).keys = t.keys) (hstep : ∀ t out, out ∈ t.keys → P t → P (f t out))
    (order : List κ) (h : P t) : P ((t.walk order).foldl f t) := by
  have hmem : ∀ k ∈ t.walk order, k ∈ t.keys := fun k => t.mem_walk.mp
  revert hmem
  generalize t.walk order = l
  induction l generalizing t with
  | nil => exact fun _ => h
  | cons out l ih =>
    intro hmem
    refine ih (hstep t out (hmem out List.mem_cons_self) h) fun k hk => ?_
    rw [hkeys]
    exact hmem k (List.mem_cons_of_mem out hk)

end TriggerOUT

variable [Zero V]

/-- What a caller shows that does as it is told, the latest call first. -/
def shown : List (κ × V) → κ → V
  | [] => fun _ => 0
  | (k, v) :: acts => Function.update (shown acts) k v

omit [DecidableEq κ] in
def AtMostOne (f : κ → V) : Prop := ∀ i j, f i ≠ 0 → f j ≠ 0 → i = j

namespace TriggerOUT

variable (t : TriggerOUT κ V)

def getState (out : κ) : V := if out ∈ t.keys then t.value out else 0

/-- The caller shows what the trigger has. -/
def Agrees : Prop := ∀ k, shown t.acts k = t.getState k

/-- At no call of `act` did the caller show more than one output on. -/
def Exclusive : Prop := ∀ acts, acts <:+ t.acts → AtMostOne (shown acts)

/-- Every output but one is off. -/
def OffBut (num : κ) : Prop := ∀ k, k ≠ num → t.getState k = 0

def AgreesBut (num : κ) : Prop := ∀ k, k ≠ num → shown t.acts k = t.getState k

@[simp] theorem shown_act (out k : κ) (val : V) :
    shown (t.act out val).acts k = if k = out then val else shown t.acts k :=
  Function.update_apply ..

@[simp] theorem getState_act (out k : κ) (val : V) : (t.act out val).getState k = t.getState k := rfl

theorem getState_store_of_mem {out : κ} (h : out ∈ t.keys) (val : V) (k : κ) :
    (t.store out val).getState k = if k = out then val else t.getState k := by
  change (if k ∈ t.keys then Function.update t.value out val k else 0) = _
  unfold getState
  rw [Function.update_apply]
  by_cases hk : k = out
  · rw [if_pos (hk ▸ h), if_pos hk, if_pos hk]
  · rw [if_neg hk, if_neg hk]

theorem getState_of_not_mem {k : κ} (h : k ∉ t.keys) : t.getState k = 0 := if_neg h

theorem getState_of_mem {k : κ} (h : k ∈ t.keys) : t.getState k = t.value k := if_pos h

variable {t}

namespace Exclusive

theorem now (h : t.Exclusive) : AtMostOne (shown t.acts) := h t.acts List.suffix_rfl

theorem act {out : κ} {val : V} (h : t.Exclusive)
    (hone : AtMostOne (shown (t.act out val).acts)) : (t.act out val).Exclusive := by
  intro acts hacts
  rcases List.suffix_cons_iff.mp hacts with rfl | hacts
  · exact hone
  · exact h acts hacts

/-- An output may be told what it shows, or to go off. -/
theorem act_of_shown {out : κ} {val : V} (h : t.Exclusive) (hval : val ≠ 0 → val = shown t.acts out) :
    (t.act out val).Exclusive := by
  have hon : ∀ k, shown (t.act out val).acts k ≠ 0 → shown t.acts k ≠ 0 := by
    intro k hk
    rw [shown_act] at hk
    split_ifs at hk with heq
    · rw [heq, ← hval hk]
      exact hk
    · exact hk
  exact h.act fun i j hi hj => h.now i j (hon i hi) (hon j hj)

/-- With all the others off, an output may be told anything. -/
theorem act_of_offBut {num : κ} (h : t.Exclusive) (hagrees : t.AgreesBut num)
    (hoff : t.OffBut num) (val : V) : (t.act num val).Exclusive := by
  have hnum : ∀ k, shown (t.act num val).acts k ≠ 0 → k = num := by
    intro k hk
    by_contra hne
    rw [shown_act, if_neg hne, hagrees k hne, hoff k hne] at hk
    exact hk rfl
  exact h.act fun i j hi hj => (hnum i hi).trans (hnum j hj).symm

end Exclusive

/-- Once the last output is told, the caller agrees with the trigger again. -/
theorem AgreesBut.agrees_act {num : κ} (h : t.AgreesBut num) :
    (t.act num (t.getState num)).Agrees := by
  intro k
  rw [shown_act, getState_act]
  split_ifs with hk
  · rw [hk]
  · exact h k hk

/-- A value that goes off is told to the caller. -/
theorem store_act_agrees {out k : κ} {val : V} (hout : out ∈ t.keys)
    (h : k ≠ out → shown t.acts k = t.getState k) :
    shown ((t.store out val).act out val).acts k = ((t.store out val).act out val).getState k := by
  rw [shown_act, getState_act, getState_store_of_mem t hout]
  split_ifs with hk
  · rfl
  · exact h hk

variable (t) in
def insert (num : κ) (val : V) : TriggerOUT κ V :=
  { t with keys := t.keys.insert num, value := Function.update t.value num val }

variable (t) in
def remove (num : κ) : TriggerOUT κ V := { t with keys := t.keys.filter (· ≠ num) }

variable (t) in
def update (order : List κ) : TriggerOUT κ V :=
  (t.walk order).foldl (fun t out => t.act out (t.value out)) t

variable (t) in
def reset (order : List κ) : TriggerOUT κ V :=
  (t.walk order).foldl (fun t out => (t.store out 0).act out 0) t

theorem getState_insert (num : κ) (val : V) (k : κ) :
    (t.insert num val).getState k = if k = num then val else t.getState k := by
  change (if k ∈ t.keys.insert num then Function.update t.value num val k else 0) = _
  unfold getState
  rw [Function.update_apply]
  by_cases hk : k = num
  · rw [if_pos (hk ▸ List.mem_insert_self), if_pos hk, if_pos hk]
  · simp only [List.mem_insert_iff, hk, false_or, if_false]

/-- The caller shows what the trigger has, and never more than one output on. -/
structure Inv (t : TriggerOUT κ V) : Prop where
  agrees : t.Agrees
  exclusive : t.Exclusive

namespace Inv

theorem remove {num : κ} (h : t.Inv) (hoff : t.getState num = 0) : (t.remove num).Inv := by
  refine ⟨fun k => (h.agrees k).trans ?_, h.exclusive⟩
  unfold getState at *
  simp only [TriggerOUT.remove, List.mem_filter, decide_eq_true_eq]
  by_cases hk : k = num
  · rw [if_neg (c := k ∈ t.keys ∧ k ≠ num) fun hmem => hmem.2 hk, hk]
    exact hoff
  · simp only [hk, ne_eq, not_false_eq_true, and_true]

theorem update (h : t.Inv) (order : List κ) : (t.update order).Inv := by
  refine foldl_walk (P := Inv) (f := fun t out => t.act out (t.value out)) (fun _ _ => rfl) ?_ order h
  intro s out hout hs
  have hval : s.value out = shown s.acts out := by
    rw [hs.agrees, getState_of_mem s hout]
  refine ⟨fun k => ?_, hs.exclusive.act_of_shown fun _ => hval⟩
  rw [shown_act, getState_act]
  split_ifs with hk
  · rw [hval, hs.agrees, hk]
  · exact hs.agrees k

theorem reset (h : t.Inv) (order : List κ) : (t.reset order).Inv := by
  refine foldl_walk (P := Inv) (f := fun t out => (t.store out 0).act out 0) (fun _ _ => rfl) ?_ order h
  intro s out hout hs
  exact ⟨fun k => store_act_agrees hout fun _ => hs.agrees k,
    Exclusive.act_of_shown (t := s.store out 0) hs.exclusive fun h => absurd rfl h⟩

end Inv

end TriggerOUT

namespace TriggerOUT

variable [DecidableEq V] (t : TriggerOUT κ V)

def resetOut (outIgnore : κ) (t : TriggerOUT κ V) (out : κ) : TriggerOUT κ V :=
  if out ≠ outIgnore ∧ t.value out ≠ 0 then (t.store out 0).act out 0 else t

def resetOuts (order : List κ) (outIgnore : κ) : TriggerOUT κ V :=
  (t.walk order).foldl (resetOut outIgnore) t

def set (order : List κ) (out : κ) (val : V) : TriggerOUT κ V :=
  if out ∈ t.keys then
    let s := t.resetOuts order out
    if s.value out ≠ val then (s.store out val).act out val else s.store out val
  else t

def add (order order' : List κ) (num : κ) (val : V) : TriggerOUT κ V :=
  (((t.insert num val).set order num val).resetOuts order' num).act num val

inductive Op (κ V : Type*)
  | add (order order' : List κ) (num : κ) (val : V)
  | set (order : List κ) (out : κ) (val : V)
  | remove (num : κ)
  | update (order : List κ)
  | reset (order : List κ)

def apply : TriggerOUT κ V → Op κ V → TriggerOUT κ V
  | t, .add order order' num val => t.add order order' num val
  | t, .set order out val => t.set order out val
  | t, .remove num => t.remove num
  | t, .update order => t.update order
  | t, .reset order => t.reset order

def run (ops : List (Op κ V)) : TriggerOUT κ V := ops.foldl apply { value := fun _ => 0 }

/-- No output is taken out while it is on. -/
def Guarded (ops : List (Op κ V)) : Prop :=
  ∀ before num after, ops = before ++ .remove num :: after → (run before).getState num = 0

variable {t}

theorem keys_resetOut (outIgnore : κ) (t : TriggerOUT κ V) (out : κ) :
    (resetOut outIgnore t out).keys = t.keys := by
  unfold resetOut
  split_ifs <;> rfl

theorem resetOuts_agrees {k : κ} (order : List κ) (outIgnore : κ)
    (h : shown t.acts k = t.getState k) :
    shown (t.resetOuts order outIgnore).acts k = (t.resetOuts order outIgnore).getState k := by
  refine foldl_walk (P := fun s => shown s.acts k = s.getState k) (keys_resetOut outIgnore) ?_ order h
  intro s out hout hs
  unfold resetOut
  split_ifs
  · exact store_act_agrees hout fun _ => hs
  · exact hs

theorem resetOuts_exclusive (order : List κ) (outIgnore : κ) (h : t.Exclusive) :
    (t.resetOuts order outIgnore).Exclusive := by
  refine foldl_walk (keys_resetOut outIgnore) ?_ order h
  intro s out _ hs
  unfold resetOut
  split_ifs
  · exact Exclusive.act_of_shown (t := s.store out 0) hs fun h => absurd rfl h
  · exact hs

theorem keys_resetOuts (order : List κ) (outIgnore : κ) :
    (t.resetOuts order outIgnore).keys = t.keys :=
  foldl_walk (P := fun s => s.keys = t.keys) (keys_resetOut outIgnore)
    (fun s out _ hs => (keys_resetOut outIgnore s out).trans hs) order rfl

theorem value_resetOuts (order : List κ) (outIgnore : κ) :
    (t.resetOuts order outIgnore).value outIgnore = t.value outIgnore := by
  refine foldl_walk (P := fun s => s.value outIgnore = t.value outIgnore)
    (keys_resetOut outIgnore) ?_ order rfl
  intro s out _ hs
  unfold resetOut
  split_ifs with hout
  · exact (Function.update_of_ne (Ne.symm hout.1) 0 s.value).trans hs
  · exact hs

theorem value_resetOut_self {k outIgnore : κ} (h : k ≠ outIgnore) :
    (resetOut outIgnore t k).value k = 0 := by
  unfold resetOut
  split_ifs with hon
  · exact Function.update_self ..
  · exact not_not.mp fun hne => hon ⟨h, hne⟩

/-- Once off, an output is not turned on by the rest of the walk. -/
theorem value_foldl_resetOut {k : κ} (outIgnore : κ) (outs : List κ) (h : t.value k = 0) :
    (outs.foldl (resetOut outIgnore) t).value k = 0 := by
  induction outs generalizing t with
  | nil => exact h
  | cons out outs ih =>
    refine ih ?_
    unfold resetOut
    split_ifs
    · change Function.update t.value out 0 k = 0
      rw [Function.update_apply, h, ite_self]
    · exact h

theorem resetOuts_offBut (order : List κ) (outIgnore : κ) :
    (t.resetOuts order outIgnore).OffBut outIgnore := by
  intro k hk
  have hkeys : (t.resetOuts order outIgnore).keys = t.keys := keys_resetOuts order outIgnore
  by_cases hmem : k ∈ t.keys
  · rw [getState_of_mem _ (hkeys ▸ hmem)]
    obtain ⟨before, after, hsplit⟩ := List.append_of_mem (t.mem_walk.mpr hmem : k ∈ t.walk order)
    rw [resetOuts, hsplit, List.foldl_append, List.foldl_cons]
    exact value_foldl_resetOut outIgnore after (value_resetOut_self hk)
  · exact getState_of_not_mem _ (hkeys ▸ hmem)

theorem set_of_value_eq {out : κ} {val : V} (order : List κ) (hmem : out ∈ t.keys)
    (hval : t.value out = val) : t.set order out val = t.resetOuts order out := by
  have heq : (t.resetOuts order out).value out = val := (value_resetOuts order out).trans hval
  unfold set
  rw [if_pos hmem, if_neg (not_not.mpr heq), ← heq, store, Function.update_eq_self]

theorem add_eq (order order' : List κ) (num : κ) (val : V) :
    t.add order order' num val =
      (((t.insert num val).resetOuts order num).resetOuts order' num).act num val := by
  unfold add
  rw [set_of_value_eq order List.mem_insert_self (Function.update_self ..)]

theorem added_agrees {k : κ} (order order' : List κ) {num : κ} (val : V)
    (h : shown t.acts k = (t.insert num val).getState k) :
    shown (((t.insert num val).resetOuts order num).resetOuts order' num).acts k =
      (((t.insert num val).resetOuts order num).resetOuts order' num).getState k :=
  resetOuts_agrees order' num (resetOuts_agrees order num h)

namespace Inv

theorem set (h : t.Inv) (order : List κ) (out : κ) (val : V) : (t.set order out val).Inv := by
  unfold TriggerOUT.set
  dsimp only
  split_ifs with hmem hval
  · have hmem' : out ∈ (t.resetOuts order out).keys := by
      rw [keys_resetOuts]
      exact hmem
    have hagrees : ∀ k, shown (t.resetOuts order out).acts k = (t.resetOuts order out).getState k :=
      fun k => resetOuts_agrees order out (h.agrees k)
    refine ⟨fun k => store_act_agrees hmem' fun _ => hagrees k, ?_⟩
    refine Exclusive.act_of_offBut (t := (t.resetOuts order out).store out val)
      (resetOuts_exclusive order out h.exclusive) (fun k hk => ?_) (fun k hk => ?_) val
    · rw [getState_store_of_mem _ hmem', if_neg hk]
      exact hagrees k
    · rw [getState_store_of_mem _ hmem', if_neg hk]
      exact resetOuts_offBut order out k hk
  · have heq : (t.resetOuts order out).value out = val := not_not.mp hval
    rw [heq.symm, TriggerOUT.store, Function.update_eq_self]
    exact ⟨fun k => resetOuts_agrees order out (h.agrees k),
      resetOuts_exclusive order out h.exclusive⟩
  · exact h

/-- The value an output is added with is told last, after the others are off. -/
theorem add (h : t.Inv) (order order' : List κ) (num : κ) (val : V) :
    (t.add order order' num val).Inv := by
  have hagrees : AgreesBut (((t.insert num val).resetOuts order num).resetOuts order' num) num := by
    refine fun k hk => added_agrees order order' val ?_
    rw [getState_insert, if_neg hk]
    exact h.agrees k
  have hmem : num ∈ (((t.insert num val).resetOuts order num).resetOuts order' num).keys := by
    rw [keys_resetOuts, keys_resetOuts]
    exact List.mem_insert_self
  have hval : (((t.insert num val).resetOuts order num).resetOuts order' num).getState num = val := by
    rw [getState_of_mem _ hmem, value_resetOuts, value_resetOuts]
    exact Function.update_self ..
  rw [add_eq]
  refine ⟨?_, Exclusive.act_of_offBut ?_ hagrees (resetOuts_offBut order' num) val⟩
  · have := AgreesBut.agrees_act hagrees
    rwa [hval] at this
  · exact resetOuts_exclusive order' num (resetOuts_exclusive order num h.exclusive)

theorem apply (h : t.Inv) (op : Op κ V) (hguard : ∀ num, op = .remove num → t.getState num = 0) :
    (t.apply op).Inv := by
  cases op with
  | add order order' num val => exact h.add order order' num val
  | set order out val => exact h.set order out val
  | remove num => exact h.remove (hguard num rfl)
  | update order => exact h.update order
  | reset order => exact h.reset order

theorem run {ops : List (Op κ V)} (h : Guarded ops) : (run ops).Inv := by
  induction ops using List.reverseRecOn with
  | nil =>
    refine ⟨fun k => (if_neg List.not_mem_nil).symm, fun acts hacts => ?_⟩
    rw [List.suffix_nil.mp hacts]
    exact fun i j hi => absurd rfl hi
  | append_singleton ops op ih =>
    rw [TriggerOUT.run, List.foldl_append]
    refine apply (ih fun before num after heq => ?_) op fun num hop => ?_
    · refine h before num (after ++ [op]) ?_
      rw [heq, List.append_assoc, List.cons_append]
    · exact h ops num [] (hop ▸ rfl)

end Inv

/-- What is no output of the trigger is not told anything. -/
theorem shown_resetOuts_of_not_mem {k : κ} (order : List κ) (outIgnore : κ) (h : k ∉ t.keys) :
    shown (t.resetOuts order outIgnore).acts k = shown t.acts k := by
  refine (foldl_walk (P := fun s => s.keys = t.keys ∧ shown s.acts k = shown t.acts k)
    (keys_resetOut outIgnore) ?_ order ⟨rfl, rfl⟩).2
  intro s out hout ⟨hkeys, hs⟩
  refine ⟨(keys_resetOut outIgnore s out).trans hkeys, ?_⟩
  unfold resetOut
  split_ifs
  · rw [shown_act, if_neg fun (heq : k = out) => h (heq ▸ hkeys ▸ hout)]
    exact hs
  · exact hs

theorem shown_add_remove {num j : κ} (order order' : List κ) (val : V) (h : j ≠ num) :
    shown ((t.remove num).add order order' j val).acts num = shown t.acts num := by
  have hnot : num ∉ ((t.remove num).insert j val).keys := by
    simp only [insert, remove, List.mem_insert_iff, List.mem_filter, decide_eq_true_eq, h.symm,
      ne_eq, not_true_eq_false, and_false, or_self, not_false_eq_true]
  rw [add_eq, shown_act, if_neg h.symm, shown_resetOuts_of_not_mem order' j, shown_resetOuts_of_not_mem
    order j hnot]
  · rfl
  · rw [keys_resetOuts]
    exact hnot

/-- The caller shows what the trigger has, at every time, exactly if no output is taken out that is
on, and then it never shows two outputs on. After taking out one that is on, it shows two as soon as
another is added on. -/
theorem agrees_iff_guarded (ops : List (Op κ V)) :
    ((∀ before, before <+: ops → (run before).Agrees) ↔ Guarded ops) ∧
      (Guarded ops → (run ops).Exclusive ∧
        ∀ num j val order order', (run ops).getState num ≠ 0 → j ≠ num → val ≠ 0 →
          ¬ AtMostOne (shown (run (ops ++ [.remove num, .add order order' j val])).acts)) := by
  refine ⟨⟨fun h before num after hops => ?_, fun h before hbefore => ?_⟩, fun h => ?_⟩
  · have hold := h before ⟨_, hops.symm⟩ num
    have hnew := h (before ++ [.remove num]) ⟨after, by rw [hops, List.append_assoc]; rfl⟩ num
    rw [run, List.foldl_append] at hnew
    rw [← hold]
    refine hnew.trans (getState_of_not_mem _ ?_)
    simp only [List.foldl_cons, List.foldl_nil, apply, remove, List.mem_filter, decide_eq_true_eq,
      ne_eq, not_true_eq_false, and_false, not_false_eq_true]
  · obtain ⟨rest, rfl⟩ := hbefore
    refine (Inv.run fun before num after hops => ?_).agrees
    refine h before num (after ++ rest) ?_
    rw [hops, List.append_assoc, List.cons_append]
  · have hinv := Inv.run h
    refine ⟨hinv.exclusive, fun num j val order order' hon hne hval hone => hne ?_⟩
    refine hone j num ?_ ?_
    · rw [run, List.foldl_append, List.foldl_cons, List.foldl_cons, List.foldl_nil, apply, apply,
        add_eq, shown_act, if_pos rfl]
      exact hval
    · rw [run, List.foldl_append, List.foldl_cons, List.foldl_cons, List.foldl_nil, apply, apply,
        shown_add_remove order order' val hne]
      exact (hinv.agrees num).symm ▸ hon

end TriggerOUT

end Uniset.Various
