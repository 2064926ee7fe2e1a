import Uniset.Log.LogAgregator
import Uniset.Lib.Acyclic
import Uniset.Lib.GuardedRun
import Mathlib.Data.List.Chain

/-! What reaches the listener of an aggregator. -/

namespace Uniset.Log

open Uniset.Lib

open Relation

namespace Logs

variable (s : Logs)

def Child (a b : Nat) : Prop := ∃ name, (name, .agregator b) ∈ s.lmap a

/-- The aggregator is in the tree of the root. -/
def Within : Nat → Nat → Prop := ReflTransGen s.Child

def HasLog (a l : Nat) : Prop := ∃ name, (name, .log l) ∈ s.lmap a

/-- The log is in the tree of the root. -/
def Reachable (root l : Nat) : Prop := ∃ a, s.Within root a ∧ s.HasLog a l

/-- The logs that come with a stream. -/
def Below : Stream → Nat → Prop
  | .log l, l' => l' = l
  | .agregator b, l' => s.Reachable b l'

/-- Every text of a log in the tree comes to the listener of the root, and once. -/
def Delivers (root : Nat) : Prop :=
  ∀ l, s.Reachable root l → ∀ text, (s.write l text).heard root = s.heard root ++ [text]

/-- What is added to an aggregator in the tree, other than to the root itself, brings only logs that
the root is connected to. -/
def Connected (root : Nat) : LogStep → Prop
  | .create a logname => a < s.agregators → s.getLog a logname = none →
      a = root ∨ ¬s.Within root a
  | .add a stream lname => a < s.agregators → s.Exists stream →
      s.find a (s.nameOf stream lname) = none →
        a = root ∨ ¬s.Within root a ∨ ∀ l, s.Below stream l → l ∈ s.conmap root
  | _ => True

end Logs

/-- What is there is connected to what is there, and once. -/
structure Kept (s : Logs) : Prop where
  connected : ∀ a l, l ∈ s.conmap a ↔ a ∈ s.slots l
  nodup : ∀ l, (s.slots l).Nodup
  slots : ∀ l, s.logs ≤ l → s.slots l = []
  entries : ∀ a, ∀ e ∈ s.lmap a, a < s.agregators ∧ s.Exists e.2

variable {s : Logs}

/-! ## Texts -/

theorem heard_foldl_logOnEvent (slots : List Nat) (text : Name) (root : Nat) :
    (slots.foldl (fun s a => s.logOnEvent a text) s).heard root =
      s.heard root ++ List.replicate (slots.count root) text := by
  induction slots generalizing s with
  | nil => simp
  | cons a slots ih =>
    rw [List.foldl_cons, ih]
    unfold Logs.logOnEvent
    dsimp only
    by_cases ha : root = a
    · subst ha
      rw [Function.update_self, List.count_cons_self, List.replicate_succ, List.append_assoc]
      rfl
    · rw [Function.update_of_ne ha, List.count_cons_of_ne (Ne.symm ha)]

theorem Kept.delivers_iff (h : Kept s) (root : Nat) :
    s.Delivers root ↔ ∀ l, s.Reachable root l → l ∈ s.conmap root := by
  refine forall_congr' fun l => imp_congr_right fun _ => ?_
  have hcount : (s.slots l).count root = 1 ↔ l ∈ s.conmap root := by
    rw [h.connected root l, (h.nodup l).count]
    split_ifs with hmem <;> simp [hmem]
  rw [← hcount]
  unfold Logs.write
  simp only [heard_foldl_logOnEvent]
  constructor
  · intro hall
    have hlen := congrArg List.length (List.append_cancel_left (hall []))
    simpa using hlen
  · intro hone text
    rw [hone]
    rfl

/-! ## Connections -/

theorem Kept.connect (h : Kept s) {a l : Nat} (hl : l < s.logs) (hnew : l ∉ s.conmap a) :
    Kept (s.connect a l) where
  connected a' l' := by
    unfold Logs.connect
    dsimp only
    by_cases ha : a' = a
    · subst ha
      rw [Function.update_self]
      by_cases hl' : l' = l
      · subst hl'
        rw [Function.update_self]
        simp
      · rw [Function.update_of_ne hl', ← h.connected a' l']
        simp [hl']
    · rw [Function.update_of_ne ha]
      by_cases hl' : l' = l
      · subst hl'
        rw [Function.update_self, h.connected a' l']
        simp [ha]
      · rw [Function.update_of_ne hl']
        exact h.connected a' l'
  nodup l' := by
    unfold Logs.connect
    dsimp only
    by_cases hl' : l' = l
    · subst hl'
      rw [Function.update_self, List.nodup_append]
      refine ⟨h.nodup l', List.nodup_singleton a, fun x hx y hy heq => hnew ?_⟩
      rw [h.connected a l', ← List.mem_singleton.mp hy, ← heq]
      exact hx
    · rw [Function.update_of_ne hl']
      exact h.nodup l'
  slots l' hl' := by
    unfold Logs.connect
    dsimp only
    rw [Function.update_of_ne (Nat.ne_of_gt (Nat.lt_of_lt_of_le hl hl'))]
    exact h.slots l' hl'
  entries := h.entries

theorem Kept.connectOnce (h : Kept s) (a : Nat) {l : Nat} (hl : l < s.logs) :
    Kept (s.connectOnce a l) := by
  unfold Logs.connectOnce
  split_ifs with hmem
  · exact h
  · exact h.connect hl hmem

theorem mem_conmap_connectOnce {a l a' l' : Nat} :
    l' ∈ (s.connectOnce a l).conmap a' ↔ l' ∈ s.conmap a' ∨ a' = a ∧ l' = l := by
  unfold Logs.connectOnce
  split_ifs with hmem
  · refine ⟨.inl, fun hor => hor.elim id ?_⟩
    rintro ⟨rfl, rfl⟩
    exact hmem
  · unfold Logs.connect
    dsimp only
    by_cases ha : a' = a
    · subst ha
      rw [Function.update_self]
      simp
    · rw [Function.update_of_ne ha]
      simp [ha]

/-- The other data of a state in which only connections have been added. -/
structure SameTree (s s' : Logs) : Prop where
  logs : s'.logs = s.logs
  agregators : s'.agregators = s.agregators
  lmap : s'.lmap = s.lmap

theorem SameTree.exists {s s' : Logs} (h : SameTree s s') {stream : Stream}
    (hexists : s.Exists stream) : s'.Exists stream := by
  cases stream with
  | log l => exact Nat.lt_of_lt_of_eq hexists h.logs.symm
  | agregator b => exact Nat.lt_of_lt_of_eq hexists h.agregators.symm

theorem sameTree_connectOnce (s : Logs) (a l : Nat) : SameTree s (s.connectOnce a l) := by
  unfold Logs.connectOnce
  split_ifs <;> exact ⟨rfl, rfl, rfl⟩

/-- The loop of `addLogAgregator`. -/
theorem foldl_connectOnce (h : Kept s) (a : Nat) {lst : List ILog}
    (hlst : ∀ l ∈ lst, l.log < s.logs) :
    let s' := lst.foldl (fun s l => s.connectOnce a l.log) s
    Kept s' ∧ SameTree s s' ∧
      ∀ a' l', l' ∈ s'.conmap a' ↔ l' ∈ s.conmap a' ∨ a' = a ∧ ∃ l ∈ lst, l.log = l' := by
  induction lst generalizing s with
  | nil => exact ⟨h, ⟨rfl, rfl, rfl⟩, fun a' l' => by simp⟩
  | cons l lst ih =>
    rw [List.forall_mem_cons] at hlst
    obtain ⟨hlogs, hagregators, hlmap⟩ := sameTree_connectOnce s a l.log
    obtain ⟨hkept, htree, hconmap⟩ :=
      ih (h.connectOnce a hlst.1) fun l' hl' => hlogs ▸ hlst.2 l' hl'
    refine ⟨hkept, ⟨htree.logs.trans hlogs, htree.agregators.trans hagregators,
      htree.lmap.trans hlmap⟩, fun a' l' => ?_⟩
    rw [List.foldl_cons, hconmap, mem_conmap_connectOnce, or_assoc]
    refine or_congr_right ?_
    rw [List.exists_mem_cons_iff, and_or_left, @eq_comm _ l']

/-! ## The tree -/

theorem mem_setEntry {a : Nat} {lname : Name} {stream : Stream} {x : Nat} {e : Name × Stream} :
    e ∈ (s.setEntry a lname stream).lmap x ↔
      (x = a → e.1 ≠ lname) ∧ e ∈ s.lmap x ∨ x = a ∧ e = (lname, stream) := by
  unfold Logs.setEntry
  dsimp only
  by_cases hx : x = a
  · subst hx
    rw [Function.update_self]
    simp [and_comm]
  · rw [Function.update_of_ne hx]
    simp [hx]

theorem Kept.setEntry (h : Kept s) {a : Nat} (ha : a < s.agregators) (lname : Name)
    {stream : Stream} (hexists : s.Exists stream) : Kept (s.setEntry a lname stream) where
  connected := h.connected
  nodup := h.nodup
  slots := h.slots
  entries x e he := by
    rcases mem_setEntry.mp he with ⟨-, hold⟩ | ⟨rfl, rfl⟩
    · exact h.entries x e hold
    · exact ⟨ha, hexists⟩

variable {root a : Nat} {lname : Name} {stream : Stream}

/-- The way to the aggregator does not lead through what it has. -/
theorem within_setEntry_self (h : s.Within root a) :
    (s.setEntry a lname stream).Within root a := by
  refine ReflTransGen.head_induction_on h .refl ?_
  rintro x y ⟨name, hchild⟩ - ih
  by_cases hx : x = a
  · rw [hx]
    exact .refl
  · exact .head ⟨name, mem_setEntry.mpr (.inl ⟨fun heq => absurd heq hx, hchild⟩)⟩ ih

theorem within_of_setEntry {x : Nat} (h : (s.setEntry a lname stream).Within root x) :
    s.Within root x ∨ s.Within root a ∧ ∃ b, stream = .agregator b ∧ s.Within b x := by
  induction h with
  | refl => exact .inl .refl
  | tail _ hstep ih =>
    obtain ⟨name, hmem⟩ := hstep
    rcases mem_setEntry.mp hmem with ⟨-, hold⟩ | ⟨rfl, hnew⟩
    · exact ih.imp (fun hroot => hroot.tail ⟨name, hold⟩) fun ⟨hroot, b, heq, hb⟩ =>
        ⟨hroot, b, heq, hb.tail ⟨name, hold⟩⟩
    · have heq : stream = .agregator _ := (Prod.mk.inj hnew).2.symm
      exact .inr ⟨ih.elim id And.left, _, heq, .refl⟩

/-- What is added to an aggregator in the tree comes into the tree, and nothing else. -/
theorem reachable_of_setEntry {l : Nat} (h : (s.setEntry a lname stream).Reachable root l) :
    s.Reachable root l ∨ s.Within root a ∧ s.Below stream l := by
  obtain ⟨x, hx, name, hlog⟩ := h
  rcases mem_setEntry.mp hlog with ⟨-, hold⟩ | ⟨rfl, hnew⟩
  · rcases within_of_setEntry hx with hroot | ⟨hroot, b, rfl, hb⟩
    · exact .inl ⟨x, hroot, name, hold⟩
    · exact .inr ⟨hroot, x, hb, name, hold⟩
  · have heq : stream = .log l := (Prod.mk.inj hnew).2.symm
    subst heq
    exact .inr ⟨(within_of_setEntry hx).elim id And.left, rfl⟩

/-- Where no entry is replaced the tree keeps what it has. -/
theorem reachable_setEntry (hfree : ∀ e ∈ s.lmap a, e.1 ≠ lname) {l : Nat}
    (hroot : s.Within root a) (h : s.Below stream l) :
    (s.setEntry a lname stream).Reachable root l := by
  have hkeep : ∀ x, ∀ e ∈ s.lmap x, e ∈ (s.setEntry a lname stream).lmap x := fun x e he =>
    mem_setEntry.mpr (.inl ⟨fun hx => hfree e (hx ▸ he), he⟩)
  have hnew : (lname, stream) ∈ (s.setEntry a lname stream).lmap a :=
    mem_setEntry.mpr (.inr ⟨rfl, rfl⟩)
  cases stream with
  | log l' =>
    obtain rfl : l = l' := h
    exact ⟨a, within_setEntry_self hroot, lname, hnew⟩
  | agregator b =>
    obtain ⟨x, hx, name, hlog⟩ := h
    have hbelow : (s.setEntry a lname (.agregator b)).Within b x :=
      ReflTransGen.mono (fun y z ⟨name, hmem⟩ => ⟨name, hkeep y _ hmem⟩) b x hx
    exact ⟨x, (within_setEntry_self hroot).trans (.head ⟨lname, hnew⟩ hbelow), name, hkeep x _ hlog⟩

/-! ## The list of the logs -/

theorem makeLogNameList_sound {fuel : Nat} {pref : Name} {x : ILog}
    (h : x ∈ s.makeLogNameList fuel a pref) : ∃ b, s.HasLog b x.log := by
  induction fuel generalizing a pref with
  | zero => exact absurd h List.not_mem_nil
  | succ fuel ih =>
    unfold Logs.makeLogNameList at h
    obtain ⟨⟨name, stream⟩, hmem, hx⟩ := List.mem_flatMap.mp h
    cases stream with
    | agregator b => exact ih hx
    | log l =>
      obtain rfl := List.mem_singleton.mp hx
      exact ⟨a, name, hmem⟩

theorem makeLogNameList_complete {path : List Nat} {fuel : Nat} (hfuel : path.length < fuel)
    (hpath : (a :: path).IsChain s.Child) {l : Nat}
    (hlog : s.HasLog ((a :: path).getLast (List.cons_ne_nil _ _)) l) (pref : Name) :
    ∃ x ∈ s.makeLogNameList fuel a pref, x.log = l := by
  induction path generalizing a fuel pref with
  | nil =>
    obtain ⟨fuel, rfl⟩ := Nat.exists_eq_succ_of_ne_zero (Nat.ne_of_gt hfuel)
    obtain ⟨name, hmem⟩ := hlog
    exact ⟨_, List.mem_flatMap.mpr ⟨(name, .log l), hmem, List.mem_singleton_self _⟩, rfl⟩
  | cons b path ih =>
    obtain ⟨fuel, rfl⟩ := Nat.exists_eq_succ_of_ne_zero (Nat.ne_of_gt (Nat.zero_lt_of_lt hfuel))
    obtain ⟨⟨name, hmem⟩, hrest⟩ := List.isChain_cons_cons.mp hpath
    rw [List.getLast_cons (List.cons_ne_nil _ _)] at hlog
    obtain ⟨x, hx, hxl⟩ := ih (Nat.lt_of_succ_lt_succ hfuel) hrest hlog
      (pref ++ s.agName a ++ [sep])
    exact ⟨x, List.mem_flatMap.mpr ⟨(name, .agregator b), hmem, hx⟩, hxl⟩

/-- In a tree the list has all logs that are reachable. -/
theorem getLogList_complete (h : Kept s) (htree : Acyclic s.Child) {l : Nat}
    (hl : s.Reachable a l) : ∃ x ∈ s.getLogList a, x.log = l := by
  obtain ⟨b, hb, hlog⟩ := hl
  obtain ⟨path, hpath, hlast⟩ := List.exists_isChain_cons_of_relationReflTransGen hb
  have hparent : ∀ x y, s.Child x y → x < s.agregators ∧ y < s.agregators := by
    rintro x y ⟨name, hmem⟩
    exact h.entries x _ hmem
  have ha : a < s.agregators := by
    rcases ReflTransGen.cases_head hb with rfl | ⟨c, hc, -⟩
    · obtain ⟨name, hmem⟩ := hlog
      exact (h.entries _ _ hmem).1
    · exact (hparent a c hc).1
  have hsub : a :: path ⊆ List.range s.agregators := fun x hx => List.mem_range.mpr <|
    List.IsChain.induction (· < s.agregators) (a :: path) hpath
      (fun y z hchild _ => (hparent y z hchild).2) (fun _ => ha) x hx
  have hlen : (a :: path).length ≤ s.agregators := by
    simpa using htree.length_le_of_subset hpath hsub
  obtain ⟨x, hx, hxl⟩ := makeLogNameList_complete hlen hpath
    (hlast ▸ hlog) []
  exact ⟨x, (List.mem_insertionSort _).mpr hx, hxl⟩

/-! ## Steps -/

theorem Kept.newLog (h : Kept s) (name : Name) : Kept (s.newLog name) where
  connected := h.connected
  nodup := h.nodup
  slots l hl := h.slots l (Nat.le_of_succ_le hl)
  entries a e he := by
    obtain ⟨ha, hexists⟩ := h.entries a e he
    refine ⟨ha, ?_⟩
    obtain ⟨lname, stream⟩ := e
    cases stream with
    | log l => exact Nat.lt_succ_of_lt hexists
    | agregator b => exact hexists

theorem Kept.newAgregator (h : Kept s) (name : Name) : Kept (s.newAgregator name) where
  connected := h.connected
  nodup := h.nodup
  slots := h.slots
  entries a e he := by
    obtain ⟨ha, hexists⟩ := h.entries a e he
    refine ⟨Nat.lt_succ_of_lt ha, ?_⟩
    obtain ⟨lname, stream⟩ := e
    cases stream with
    | log l => exact hexists
    | agregator b => exact Nat.lt_succ_of_lt hexists

theorem Kept.not_mem_conmap_new (h : Kept s) (a : Nat) : s.logs ∉ s.conmap a := by
  rw [h.connected, h.slots s.logs (Nat.le_refl _)]
  exact List.not_mem_nil

theorem Kept.create (h : Kept s) {a : Nat} (ha : a < s.agregators) (logname : Name) :
    Kept (s.create a logname) := by
  unfold Logs.create
  split
  · exact h
  · exact (((h.newLog logname).connect (Nat.lt_succ_self _) (h.not_mem_conmap_new a)).setEntry ha
      logname (Nat.lt_succ_self s.logs))

theorem getLogList_lt (h : Kept s) (b : Nat) : ∀ l ∈ s.getLogList b, l.log < s.logs := by
  intro l hl
  obtain ⟨c, name, hmem⟩ := makeLogNameList_sound ((List.mem_insertionSort _).mp hl)
  exact (h.entries c _ hmem).2

theorem Kept.add (h : Kept s) {a : Nat} (ha : a < s.agregators) {stream : Stream}
    (hexists : s.Exists stream) (lname : Name) : Kept (s.add a stream lname) := by
  unfold Logs.add
  cases stream with
  | log l =>
    dsimp only
    unfold Logs.addLog
    split
    · exact h
    · have hsame := sameTree_connectOnce s a l
      exact (h.connectOnce a hexists).setEntry (hsame.agregators ▸ ha) _ (hsame.exists hexists)
  | agregator b =>
    dsimp only
    unfold Logs.addLogAgregator
    split
    · exact h
    · obtain ⟨hkept, hsame, -⟩ := foldl_connectOnce h a (getLogList_lt h b)
      exact hkept.setEntry (hsame.agregators ▸ ha) _ (hsame.exists hexists)

theorem foldl_logOnEvent_other (slots : List Nat) (text : Name) :
    ∃ heard, slots.foldl (fun s a => s.logOnEvent a text) s = { s with heard } := by
  induction slots generalizing s with
  | nil => exact ⟨s.heard, rfl⟩
  | cons a slots ih => exact ih (s := s.logOnEvent a text)

theorem Kept.setHeard (h : Kept s) (heard : Nat → List Name) : Kept { s with heard } :=
  ⟨h.connected, h.nodup, h.slots, h.entries⟩

theorem Kept.step (h : Kept s) (step : LogStep) : Kept (s.step step) := by
  cases step with
  | newLog name => exact h.newLog name
  | newAgregator name => exact h.newAgregator name
  | create a logname =>
    unfold Logs.step
    dsimp only
    split_ifs with ha
    · exact h.create ha logname
    · exact h
  | add a stream lname =>
    unfold Logs.step
    dsimp only
    split_ifs with hadd
    · exact h.add hadd.1 hadd.2 lname
    · exact h
  | write l text =>
    obtain ⟨heard, hheard⟩ := foldl_logOnEvent_other (s := s) (s.slots l) text
    change Kept ((s.slots l).foldl (fun s a => s.logOnEvent a text) s)
    rw [hheard]
    exact h.setHeard heard

/-! ## Delivery -/

theorem within_congr {s' : Logs} (hlmap : s'.lmap = s.lmap) : s'.Within = s.Within := by
  have hchild : s'.Child = s.Child := by
    funext x y
    unfold Logs.Child
    rw [hlmap]
  unfold Logs.Within
  rw [hchild]

theorem reachable_congr {s' : Logs} (hlmap : s'.lmap = s.lmap) : s'.Reachable = s.Reachable := by
  funext x l
  unfold Logs.Reachable Logs.HasLog
  rw [within_congr hlmap, hlmap]

theorem below_congr {s' : Logs} (hlmap : s'.lmap = s.lmap) (stream : Stream) :
    s'.Below stream = s.Below stream := by
  cases stream with
  | log l => rfl
  | agregator b => exact congrFun (reachable_congr hlmap) b

/-- A stream comes into the tree: `s'` is the state when what it brings has been connected to the
aggregator to which it is added. -/
theorem delivers_setEntry_iff {s' : Logs} (hlmap : s'.lmap = s.lmap) (h : Kept s)
    (h' : Kept (s'.setEntry a lname stream)) (hdelivers : s.Delivers root)
    (hfree : ∀ b, stream = .agregator b → ∀ e ∈ s.lmap a, e.1 ≠ lname)
    (hkeep : ∀ l ∈ s.conmap root, l ∈ s'.conmap root)
    (hself : a = root → ∀ l, s.Below stream l → l ∈ s'.conmap root)
    (hother : a ≠ root → ∀ l ∈ s'.conmap root, l ∈ s.conmap root) :
    (s'.setEntry a lname stream).Delivers root ↔
      a = root ∨ ¬s.Within root a ∨ ∀ l, s.Below stream l → l ∈ s.conmap root := by
  rw [h'.delivers_iff]
  rw [h.delivers_iff] at hdelivers
  change (∀ l, (s'.setEntry a lname stream).Reachable root l → l ∈ s'.conmap root) ↔ _
  constructor
  · intro hall
    by_cases ha : a = root
    · exact .inl ha
    refine .inr (or_iff_not_imp_left.mpr fun hroot l hbelow => ?_)
    have hwithin : s'.Within root a := within_congr hlmap ▸ not_not.mp hroot
    have hreach : (s'.setEntry a lname stream).Reachable root l := by
      cases stream with
      | log l' =>
        obtain rfl : l = l' := hbelow
        exact ⟨a, within_setEntry_self hwithin, lname, mem_setEntry.mpr (.inr ⟨rfl, rfl⟩)⟩
      | agregator b =>
        refine reachable_setEntry (hlmap ▸ hfree b rfl) hwithin ?_
        rw [below_congr hlmap]
        exact hbelow
    exact hother ha l (hall l hreach)
  · intro hor l hreach
    rcases reachable_of_setEntry hreach with hold | ⟨hroot, hbelow⟩
    · rw [reachable_congr hlmap] at hold
      exact hkeep l (hdelivers l hold)
    · rw [within_congr hlmap] at hroot
      rw [below_congr hlmap] at hbelow
      rcases hor with ha | hnot | hall
      · exact hself ha l hbelow
      · exact absurd hroot hnot
      · exact hkeep l (hall l hbelow)

theorem Delivers.congr {s' : Logs} (h : Kept s) (h' : Kept s') (hlmap : s'.lmap = s.lmap)
    (hconmap : s'.conmap = s.conmap) : s'.Delivers root ↔ s.Delivers root := by
  rw [h.delivers_iff, h'.delivers_iff, reachable_congr hlmap, hconmap]

theorem find_eq_none {lname : Name} (h : s.find a lname = none) : ∀ e ∈ s.lmap a, e.1 ≠ lname := by
  intro e he heq
  have hne := List.lookup_eq_none_iff.mp h e he
  rw [heq] at hne
  simp at hne

theorem delivers_create_iff (h : Kept s) (hdelivers : s.Delivers root) (ha : a < s.agregators)
    (logname : Name) : (s.create a logname).Delivers root ↔
      (s.getLog a logname = none → a = root ∨ ¬s.Within root a) := by
  have hkept := h.create ha logname
  cases hget : s.getLog a logname with
  | some found =>
    have hsame : s.create a logname = s := by simp [Logs.create, hget]
    rw [hsame]
    exact iff_of_true hdelivers fun hnone => nomatch hnone
  | none =>
    have hcreate : s.create a logname =
        ((s.newLog logname).connect a s.logs).setEntry a logname (.log s.logs) := by
      simp [Logs.create, hget]
    rw [hcreate] at hkept ⊢
    have hmem : ∀ a' l, l ∈ ((s.newLog logname).connect a s.logs).conmap a' ↔
        l ∈ s.conmap a' ∨ a' = a ∧ l = s.logs := by
      intro a' l
      change l ∈ Function.update s.conmap a (s.conmap a ++ [s.logs]) a' ↔ _
      by_cases ha' : a' = a
      · subst ha'
        rw [Function.update_self]
        simp
      · rw [Function.update_of_ne ha']
        simp [ha']
    have hlmap : ((s.newLog logname).connect a s.logs).lmap = s.lmap := rfl
    have hiff := delivers_setEntry_iff hlmap h hkept hdelivers
      (fun b heq => nomatch heq) (fun l hl => (hmem root l).mpr (.inl hl))
      (fun heq l hl => (hmem root l).mpr (.inr ⟨heq.symm, hl⟩))
      (fun hne l hl => ((hmem root l).mp hl).resolve_right fun hand => hne hand.1.symm)
    refine hiff.trans ⟨fun hor _ => hor.imp_right fun hnot => hnot.elim id fun hall => ?_,
      fun himp => (himp rfl).imp_right .inl⟩
    exact absurd (hall s.logs rfl) (h.not_mem_conmap_new root)

theorem delivers_add_iff (h : Kept s) (htree : Acyclic s.Child) (hdelivers : s.Delivers root)
    (ha : a < s.agregators) (hexists : s.Exists stream) (lname : Name) :
    (s.add a stream lname).Delivers root ↔ (s.find a (s.nameOf stream lname) = none →
      a = root ∨ ¬s.Within root a ∨ ∀ l, s.Below stream l → l ∈ s.conmap root) := by
  have hkept := h.add ha hexists lname
  cases hfind : s.find a (s.nameOf stream lname) with
  | some found =>
    have hsame : s.add a stream lname = s := by
      cases stream <;> simp [Logs.add, Logs.addLog, Logs.addLogAgregator, hfind]
    rw [hsame]
    exact iff_of_true hdelivers fun hnone => nomatch hnone
  | none =>
    refine Iff.trans ?_ (forall_prop_of_true rfl).symm
    have hfree := find_eq_none hfind
    cases stream with
    | log l =>
      have hadd : s.add a (.log l) lname =
          (s.connectOnce a l).setEntry a (s.nameOf (.log l) lname) (.log l) := by
        simp [Logs.add, Logs.addLog, hfind]
      rw [hadd] at hkept ⊢
      refine delivers_setEntry_iff (sameTree_connectOnce s a l).lmap h hkept hdelivers
        (fun _ _ => hfree) (fun l' hl' => mem_conmap_connectOnce.mpr (.inl hl')) ?_ ?_
      · intro heq l' hl'
        exact mem_conmap_connectOnce.mpr (.inr ⟨heq.symm, hl'⟩)
      · intro hne l' hl'
        exact (mem_conmap_connectOnce.mp hl').resolve_right fun hand => hne hand.1.symm
    | agregator b =>
      obtain ⟨-, hsame, hconmap⟩ := foldl_connectOnce h a (getLogList_lt h b)
      have hadd : s.add a (.agregator b) lname =
          ((s.getLogList b).foldl (fun s l => s.connectOnce a l.log) s).setEntry a
            (s.nameOf (.agregator b) lname) (.agregator b) := by
        simp [Logs.add, Logs.addLogAgregator, hfind]
      rw [hadd] at hkept ⊢
      refine delivers_setEntry_iff hsame.lmap h hkept hdelivers
        (fun _ _ => hfree) (fun l' hl' => (hconmap root l').mpr (.inl hl')) ?_ ?_
      · intro heq l' hl'
        exact (hconmap root l').mpr (.inr ⟨heq.symm, getLogList_complete h htree hl'⟩)
      · intro hne l' hl'
        exact ((hconmap root l').mp hl').resolve_right fun hand => hne hand.1.symm

theorem delivers_step_iff (h : Kept s) (htree : Acyclic s.Child) (hdelivers : s.Delivers root)
    (step : LogStep) : (s.step step).Delivers root ↔ s.Connected root step := by
  cases step with
  | newLog name =>
    exact iff_of_true ((Delivers.congr h (h.newLog name) rfl rfl).mpr hdelivers) trivial
  | newAgregator name =>
    exact iff_of_true ((Delivers.congr h (h.newAgregator name) rfl rfl).mpr hdelivers) trivial
  | write l text =>
    refine iff_of_true ?_ trivial
    obtain ⟨heard, hheard⟩ := foldl_logOnEvent_other (s := s) (s.slots l) text
    change ((s.slots l).foldl (fun s a => s.logOnEvent a text) s).Delivers root
    rw [hheard]
    exact (Delivers.congr h (h.setHeard heard) rfl rfl).mpr hdelivers
  | create a logname =>
    unfold Logs.step Logs.Connected
    dsimp only
    by_cases ha : a < s.agregators
    · rw [if_pos ha, delivers_create_iff h hdelivers ha logname]
      exact ⟨fun himp _ => himp, fun himp => himp ha⟩
    · rw [if_neg ha]
      exact iff_of_true hdelivers fun hlt => absurd hlt ha
  | add a stream lname =>
    unfold Logs.step Logs.Connected
    dsimp only
    by_cases hadd : a < s.agregators ∧ s.Exists stream
    · rw [if_pos hadd, delivers_add_iff h htree hdelivers hadd.1 hadd.2 lname]
      exact ⟨fun himp _ _ => himp, fun himp => himp hadd.1 hadd.2⟩
    · rw [if_neg hadd]
      exact iff_of_true hdelivers fun ha hexists => absurd ⟨ha, hexists⟩ hadd

theorem kept_init : Kept .init :=
  ⟨fun _ _ => by simp [Logs.init], fun _ => List.nodup_nil, fun _ _ => rfl,
    fun _ _ he => absurd he List.not_mem_nil⟩

/-- In all states of a run the texts of the logs in the tree come to the listener of the root once
if and only if nothing is added below the root that the root is not connected to. -/
theorem delivers_iff_connected (root : Nat) (steps : List LogStep)
    (htree : ∀ s ∈ List.scanl Logs.step .init steps, Acyclic s.Child) :
    (∀ s ∈ List.scanl Logs.step .init steps, s.Delivers root) ↔
      Guarded Logs.step (fun s => s.Connected root) .init steps := by
  refine forall_visited_iff_guarded_within (I := Kept) (fun s step h => h.step step)
    (fun s step h htree hdelivers => delivers_step_iff h htree hdelivers step) kept_init ?_ steps
    htree
  rintro l ⟨a, -, name, hmem⟩
  exact absurd hmem List.not_mem_nil

/-- Every aggregator has been made before those that it has. -/
def Rising (s : Logs) : Prop :=
  ∀ a < s.agregators, ∀ b < s.agregators, ∀ e ∈ s.lmap a, e.2 = .agregator b → a < b

instance (s : Logs) : Decidable (Rising s) := by
  unfold Rising
  infer_instance

theorem Rising.acyclic (hrising : Rising s) (h : Kept s) : Acyclic s.Child := by
  refine Acyclic.of_rank id ?_
  rintro a b ⟨name, hmem⟩
  obtain ⟨ha, hb⟩ := h.entries a _ hmem
  exact hrising a ha b hb _ hmem rfl

theorem kept_run {s : Logs} {steps : List LogStep} (h : s ∈ List.scanl Logs.step .init steps) :
    Kept s :=
  Guarded.forall_visited (G := fun _ _ => True) (fun _ step hkept _ => hkept.step step) kept_init
    (Guarded.of_forall fun _ _ => trivial) s h

theorem not_within_of_empty (h : s.lmap root = []) (hne : a ≠ root) : ¬s.Within root a := by
  intro hwithin
  rcases ReflTransGen.cases_head hwithin with heq | ⟨b, ⟨name, hmem⟩, -⟩
  · exact hne heq.symm
  · rw [h] at hmem
    exact absurd hmem List.not_mem_nil

/-- An aggregator that has a log when it is added to the root. -/
def filledBefore : List LogStep :=
  [.newAgregator ['r'], .newAgregator ['a'], .create 1 ['l'], .add 0 (.agregator 1) []]

/-- And one that gets it later. -/
def filledAfter : List LogStep :=
  [.newAgregator ['r'], .newAgregator ['a'], .add 0 (.agregator 1) [], .create 1 ['l']]

theorem delivers_filledBefore : (List.foldl Logs.step .init filledBefore).Delivers 0 := by
  have hrising : ∀ s ∈ List.scanl Logs.step .init filledBefore, Rising s := by decide
  have hacyclic : ∀ s ∈ List.scanl Logs.step .init filledBefore, Acyclic s.Child :=
    fun s hs => (hrising s hs).acyclic (kept_run hs)
  refine (delivers_iff_connected 0 filledBefore hacyclic).mpr
    ⟨trivial, trivial, fun _ _ => .inr ?_, fun _ _ _ => .inl rfl, trivial⟩ _ (foldl_mem_scanl ..)
  exact not_within_of_empty rfl (by decide)

/-- The log is in the tree, and its texts do not come. -/
theorem not_delivers_filledAfter :
    ¬∀ s ∈ List.scanl Logs.step .init filledAfter, s.Delivers 0 := by
  intro hall
  have htext := hall _ (foldl_mem_scanl ..) 0
    ⟨1, .single ⟨['a'], by decide⟩, ['l'], by decide⟩ ['t']
  exact absurd htext (by decide)

end Uniset.Log
