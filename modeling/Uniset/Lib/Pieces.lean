import Mathlib.Data.List.Basic
import Mathlib.Data.List.Chain
import Mathlib.Data.List.SplitBy

/-! A list cut into pieces in which each element follows the one before, of at most `n` elements. -/

universe u v

namespace Uniset.Lib

variable {α : Type u} (follows : α → α → Prop) [DecidableRel follows]

/-- The elements that follow `a`, one after the other, but at most `room`; and the others. -/
def leading : Nat → α → List α → List α × List α
  | _, _, [] => ([], [])
  | 0, _, b :: l => ([], b :: l)
  | room + 1, a, b :: l =>
    if follows a b then (b :: (leading room b l).1, (leading room b l).2) else ([], b :: l)

theorem leading_append (room : Nat) (a : α) (l : List α) :
    (leading follows room a l).1 ++ (leading follows room a l).2 = l := by
  induction l generalizing room a with
  | nil => cases room <;> rfl
  | cons b l ih =>
    cases room with
    | zero => rfl
    | succ room =>
      unfold leading
      split
      · exact congrArg (b :: ·) (ih room b)
      · rfl

theorem length_leading_le (room : Nat) (a : α) (l : List α) :
    (leading follows room a l).1.length ≤ room := by
  induction l generalizing room a with
  | nil => cases room <;> exact Nat.zero_le _
  | cons b l ih =>
    cases room with
    | zero => exact Nat.le_refl _
    | succ room =>
      unfold leading
      split
      · exact Nat.succ_le_succ (ih room b)
      · exact Nat.zero_le _

theorem length_rest_le (room : Nat) (a : α) (l : List α) :
    (leading follows room a l).2.length ≤ l.length := by
  conv_rhs => rw [← leading_append follows room a l, List.length_append]
  exact Nat.le_add_left _ _

/-- The pieces of a list. -/
def pieces (n : Nat) : List α → List (List α)
  | [] => []
  | a :: l => (a :: (leading follows (n - 1) a l).1) :: pieces n (leading follows (n - 1) a l).2
termination_by l => l.length
decreasing_by exact Nat.lt_succ_of_le (length_rest_le follows (n - 1) a l)

@[simp] theorem pieces_nil (n : Nat) : pieces follows n [] = [] := by
  rw [pieces]

theorem pieces_cons (n : Nat) (a : α) (l : List α) : pieces follows n (a :: l) =
    (a :: (leading follows (n - 1) a l).1) ::
      pieces follows n (leading follows (n - 1) a l).2 := by
  rw [pieces]

theorem pieces_flatten (n : Nat) (l : List α) : (pieces follows n l).flatten = l := by
  induction l using pieces.induct follows n with
  | case1 => rw [pieces_nil, List.flatten_nil]
  | case2 a l ih =>
    rw [pieces_cons, List.flatten_cons, ih, List.cons_append, leading_append]

theorem isChain_of_forall_mem {P : α → Prop} (a : α) {l : List α} (h : ∀ b ∈ l, P b) :
    (a :: l).IsChain fun _ b => P b := by
  induction l generalizing a with
  | nil => exact .singleton a
  | cons b l ih =>
    obtain ⟨hb, hl⟩ := List.forall_mem_cons.mp h
    exact .cons_cons hb (ih b hl)

/-- Pieces are found again by their first elements. -/
theorem splitBy_flatten_heads {P : α → Bool} {gs : List (List α)}
    (hgs : ∀ g ∈ gs, ∃ a more, g = a :: more ∧ P a = false ∧ ∀ b ∈ more, P b = true) :
    (gs.flatten.splitBy fun _ b => P b) = gs := by
  refine List.splitBy_flatten (fun hnil => ?_) (fun g hg => ?_) ?_
  · obtain ⟨a, more, heq, -⟩ := hgs [] hnil
    cases heq
  · obtain ⟨a, more, rfl, -, hmore⟩ := hgs g hg
    exact isChain_of_forall_mem a hmore
  · induction gs with
    | nil => exact .nil
    | cons g gs ih =>
      obtain ⟨⟨a, more, rfl, -⟩, hrest⟩ := List.forall_mem_cons.mp hgs
      refine List.isChain_cons.mpr ⟨fun g' hg' => ?_, ih hrest⟩
      obtain ⟨a', more', rfl, ha', -⟩ := hrest g' (List.mem_of_mem_head? hg')
      exact ⟨List.cons_ne_nil _ _, List.cons_ne_nil _ _, ha'⟩

theorem ne_nil_of_mem_pieces (n : Nat) (l : List α) : [] ∉ pieces follows n l := by
  induction l using pieces.induct follows n with
  | case1 => simp
  | case2 a l ih =>
    rw [pieces_cons]
    simp [ih]

theorem length_le_of_mem_pieces {n : Nat} (hn : 0 < n) (l : List α) :
    ∀ g ∈ pieces follows n l, g.length ≤ n := by
  induction l using pieces.induct follows n with
  | case1 => simp
  | case2 a l ih =>
    have hlead := length_leading_le follows (n - 1) a l
    rw [pieces_cons]
    refine List.forall_mem_cons.mpr ⟨?_, ih⟩
    rw [List.length_cons]
    omega

section Keys

variable {κ : Type v} (key : α → κ) {R : κ → κ → Prop} [DecidableRel R]
  (hkey : ∀ a b, follows a b ↔ R (key a) (key b))

include hkey

theorem leading_map (room : Nat) (a : α) (l : List α) :
    leading R room (key a) (l.map key) =
      ((leading follows room a l).1.map key, (leading follows room a l).2.map key) := by
  induction l generalizing room a with
  | nil => cases room <;> rfl
  | cons b l ih =>
    cases room with
    | zero => rfl
    | succ room =>
      by_cases hfollows : follows a b
      · simp only [List.map_cons, leading, if_pos hfollows, if_pos ((hkey a b).mp hfollows), ih]
      · simp only [List.map_cons, leading, if_neg hfollows, if_neg (mt (hkey a b).mpr hfollows)]
        rfl

/-- The pieces only depend on the keys. -/
theorem pieces_map (n : Nat) (l : List α) :
    pieces R n (l.map key) = (pieces follows n l).map (·.map key) := by
  induction l using pieces.induct follows n with
  | case1 => simp
  | case2 a l ih =>
    rw [List.map_cons, pieces_cons, pieces_cons, leading_map follows key hkey, ih]
    rfl

end Keys

/-- The elements of a list with their places among those that follow each other. -/
def placesAfter : α → Nat → List α → List (α × Nat)
  | _, _, [] => []
  | a, k, b :: l =>
    (b, if follows a b then k + 1 else 0) :: placesAfter b (if follows a b then k + 1 else 0) l

def places : List α → List (α × Nat)
  | [] => []
  | a :: l => (a, 0) :: placesAfter follows a 0 l

/-- What follows the leading elements begins again, unless there was no room for more. -/
theorem placesAfter_leading (room : Nat) (a : α) (k : Nat) (l : List α) :
    ∃ more, more.map Prod.fst = (leading follows room a l).1 ∧
      (∀ p ∈ more, k < p.2 ∧ p.2 ≤ k + room) ∧
      ((leading follows room a l).2 = [] ∧ placesAfter follows a k l = more ∨
        ∃ b rest k', (leading follows room a l).2 = b :: rest ∧ (k' = 0 ∨ k' = k + room + 1) ∧
          placesAfter follows a k l = more ++ (b, k') :: placesAfter follows b k' rest) := by
  induction l generalizing room a k with
  | nil =>
    refine ⟨[], ?_, by simp, .inl ⟨?_, rfl⟩⟩
    · cases room <;> rfl
    · cases room <;> rfl
  | cons b l ih =>
    cases room with
    | zero =>
      refine ⟨[], rfl, by simp, .inr ⟨b, l, _, rfl, ?_, rfl⟩⟩
      by_cases hfollows : follows a b
      · exact .inr (if_pos hfollows)
      · exact .inl (if_neg hfollows)
    | succ room =>
      by_cases hfollows : follows a b
      · obtain ⟨more, hmore, hplaces, hrest⟩ := ih room b (k + 1)
        refine ⟨(b, k + 1) :: more, ?_, ?_, ?_⟩
        · rw [leading, if_pos hfollows, List.map_cons, hmore]
        · intro p hp
          rcases List.mem_cons.mp hp with rfl | hp
          · exact ⟨Nat.lt_succ_self k, by dsimp only; omega⟩
          · have hp := hplaces p hp
            omega
        · simp only [leading, placesAfter, if_pos hfollows]
          rcases hrest with ⟨hend, hafter⟩ | ⟨c, rest, k', hnext, hk', hafter⟩
          · exact .inl ⟨hend, congrArg _ hafter⟩
          · exact .inr ⟨c, rest, k', hnext, hk'.imp_right (by omega), congrArg _ hafter⟩
      · refine ⟨[], ?_, by simp, .inr ⟨b, l, 0, ?_, .inl rfl, ?_⟩⟩
        · rw [leading, if_neg hfollows]
          rfl
        · rw [leading, if_neg hfollows]
        · rw [placesAfter, if_neg hfollows]
          rfl

/-- A piece with the places of its elements, all but the first of which are inside of it. -/
def Placed (n : Nat) (g : List (α × Nat)) : Prop :=
  ∃ a more, g = a :: more ∧ a.2 % n = 0 ∧ ∀ p ∈ more, p.2 % n ≠ 0

theorem placesAfter_pieces {n : Nat} (hn : 0 < n) (a : α) (k : Nat) (l : List α) (hk : k % n = 0) :
    ∃ gs : List (List (α × Nat)), gs.flatten = (a, k) :: placesAfter follows a k l ∧
      gs.map (·.map Prod.fst) = pieces follows n (a :: l) ∧ ∀ g ∈ gs, Placed n g := by
  induction hlen : l.length using Nat.strongRecOn generalizing a k l with
  | ind m ih =>
    obtain ⟨more, hmore, hplaces, hrest⟩ := placesAfter_leading follows (n - 1) a k l
    have hplaced : Placed n ((a, k) :: more) := by
      refine ⟨(a, k), more, rfl, hk, fun p hp => ?_⟩
      obtain ⟨hlow, hhigh⟩ := hplaces p hp
      intro hzero
      have hinside : (p.2 - k) % n = 0 := Nat.sub_mod_eq_zero_of_mod_eq (hzero.trans hk.symm)
      rw [Nat.mod_eq_of_lt (by omega)] at hinside
      omega
    have hpieces := pieces_cons follows n a l
    rcases hrest with ⟨hend, hafter⟩ | ⟨b, rest, k', hnext, hk', hafter⟩
    · refine ⟨[(a, k) :: more], ?_, ?_, ?_⟩
      · rw [hafter, List.flatten_singleton]
      · rw [hpieces, hend, pieces_nil, ← hmore]
        rfl
      · simpa using hplaced
    · have hshorter : rest.length < m := by
        have hle := length_rest_le follows (n - 1) a l
        rw [hnext, List.length_cons] at hle
        omega
      have hbegins : k' % n = 0 := by
        rcases hk' with rfl | rfl
        · exact Nat.zero_mod n
        · rw [Nat.add_assoc, Nat.sub_add_cancel hn, Nat.add_mod_right, hk]
      obtain ⟨gs, hflatten, hfst, hgs⟩ := ih _ hshorter b k' rest hbegins rfl
      refine ⟨((a, k) :: more) :: gs, ?_, ?_, ?_⟩
      · rw [List.flatten_cons, hflatten, hafter, List.cons_append]
      · rw [hpieces, hnext, List.map_cons, hfst, List.map_cons, hmore]
      · exact List.forall_mem_cons.mpr ⟨hplaced, hgs⟩

/-- A piece begins at each element whose place is a multiple of `n`. -/
theorem places_pieces {n : Nat} (hn : 0 < n) (l : List α) :
    ∃ gs : List (List (α × Nat)), gs.flatten = places follows l ∧
      gs.map (·.map Prod.fst) = pieces follows n l ∧ ∀ g ∈ gs, Placed n g := by
  cases l with
  | nil => exact ⟨[], rfl, by simp, by simp⟩
  | cons a l => exact placesAfter_pieces follows hn a 0 l (Nat.zero_mod n)

theorem isChain_flatten_placed {n : Nat} {R : α → α → Prop} {gs : List (List (α × Nat))}
    (hgs : ∀ g ∈ gs, Placed n g) :
    (gs.flatten.IsChain fun a b => b.2 % n ≠ 0 → R a.1 b.1) ↔
      ∀ g ∈ gs, (g.map Prod.fst).IsChain R := by
  induction gs with
  | nil => simp
  | cons g gs ih =>
    obtain ⟨hg, hgs⟩ := List.forall_mem_cons.mp hgs
    rw [List.flatten_cons, List.isChain_append, ih hgs, List.forall_mem_cons]
    refine ⟨fun ⟨hfirst, hrest, _⟩ => ⟨?_, hrest⟩, fun ⟨hfirst, hrest⟩ => ⟨?_, hrest, ?_⟩⟩
    · obtain ⟨a, more, rfl, -, hmore⟩ := hg
      exact (List.isChain_map _).mpr
        (hfirst.imp_of_mem_tail_imp fun p q _ hq hR => hR (hmore q hq))
    · exact ((List.isChain_map _).mp hfirst).imp fun a b hR _ => hR
    · intro a _ b hb hinside
      cases gs with
      | nil => cases hb
      | cons g' gs =>
        obtain ⟨c, more, rfl, hc, -⟩ := hgs g' List.mem_cons_self
        cases hb
        exact absurd hc hinside

theorem isChain_not_follows_iff (l : List α) :
    (l.IsChain fun a b => ¬follows a b) ↔ ∀ p ∈ places follows l, p.2 % 2 = 0 := by
  have hafter : ∀ (l : List α) a k, k % 2 = 0 → (((a :: l).IsChain fun a b => ¬follows a b) ↔
      ∀ p ∈ placesAfter follows a k l, p.2 % 2 = 0) := by
    intro l
    induction l with
    | nil =>
      intro a k _
      simp [placesAfter]
    | cons b l ih =>
      intro a k hk
      rw [List.isChain_cons_cons, placesAfter, List.forall_mem_cons]
      by_cases hfollows : follows a b
      · refine iff_of_false (fun h => h.1 hfollows) fun h => ?_
        have hodd := h.1
        rw [if_pos hfollows] at hodd
        omega
      · rw [if_neg hfollows, ih b 0 rfl]
        exact and_congr_left fun _ => iff_of_true hfollows rfl
  cases l with
  | nil => simp [places]
  | cons a l =>
    rw [hafter l a 0 rfl, places, List.forall_mem_cons]
    exact (and_iff_right rfl).symm

end Uniset.Lib
