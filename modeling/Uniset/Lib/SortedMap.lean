import Mathlib.Order.Defs.LinearOrder
import Mathlib.Data.List.Nodup
import Mathlib.Order.Lattice

/-! Entries in the order of their keys, one for each key. -/

universe u v

namespace Uniset.Lib

/-- A list of entries whose keys grow. -/
structure SortedMap (α : Type u) {κ : Type v} [LT κ] (key : α → κ) where
  entries : List α
  sorted : entries.Pairwise fun a b => key a < key b

namespace SortedMap

variable {α : Type u} {κ : Type v} [LinearOrder κ] {key : α → κ}

def empty : SortedMap α key := ⟨[], .nil⟩

/-- The entry takes the place of the one with its key, if there is one. -/
def insertEntry (key : α → κ) (a : α) : List α → List α
  | [] => [a]
  | b :: l =>
    if key a < key b then a :: b :: l
    else if key b < key a then b :: insertEntry key a l
    else a :: l

theorem mem_insertEntry {a b : α} {l : List α} (h : b ∈ insertEntry key a l) : b = a ∨ b ∈ l := by
  induction l with
  | nil => simpa [insertEntry] using h
  | cons c l ih =>
    unfold insertEntry at h
    split_ifs at h with hlt hgt
    · exact List.mem_cons.mp h
    · rcases List.mem_cons.mp h with rfl | h
      · exact .inr List.mem_cons_self
      · exact (ih h).imp_right (List.mem_cons_of_mem c)
    · exact (List.mem_cons.mp h).imp_right (List.mem_cons_of_mem c)

theorem sorted_insertEntry {a : α} {l : List α} (h : l.Pairwise fun a b => key a < key b) :
    (insertEntry key a l).Pairwise fun a b => key a < key b := by
  induction l with
  | nil => exact List.pairwise_singleton _ a
  | cons c l ih =>
    obtain ⟨hfirst, hrest⟩ := List.pairwise_cons.mp h
    unfold insertEntry
    split_ifs with hlt hgt
    · refine List.pairwise_cons.mpr ⟨fun b hb => ?_, h⟩
      rcases List.mem_cons.mp hb with rfl | hb
      · exact hlt
      · exact lt_trans hlt (hfirst b hb)
    · refine List.pairwise_cons.mpr ⟨fun b hb => ?_, ih hrest⟩
      rcases mem_insertEntry hb with rfl | hb
      · exact hgt
      · exact hfirst b hb
    · have hkey : key a = key c := le_antisymm (not_lt.mp hgt) (not_lt.mp hlt)
      refine List.pairwise_cons.mpr ⟨fun b hb => ?_, hrest⟩
      rw [hkey]
      exact hfirst b hb

def insert (m : SortedMap α key) (a : α) : SortedMap α key :=
  ⟨insertEntry key a m.entries, sorted_insertEntry m.sorted⟩

def find (m : SortedMap α key) (k : κ) : Option α := m.entries.find? fun a => key a = k

theorem nodup_keys (m : SortedMap α key) : (m.entries.map key).Nodup :=
  List.pairwise_map.mpr (m.sorted.imp fun h => ne_of_lt h)

theorem find_key {m : SortedMap α key} {a : α} (h : a ∈ m.entries) : m.find (key a) = some a := by
  cases hfind : m.find (key a) with
  | none =>
    have hne := List.find?_eq_none.mp hfind a h
    simp at hne
  | some b =>
    have hkey : key b = key a := by simpa using List.find?_some hfind
    have hb := List.mem_of_find?_eq_some hfind
    rw [List.inj_on_of_nodup_map m.nodup_keys hb h hkey]

theorem find?_insertEntry {a : α} {l : List α} (h : l.Pairwise fun a b => key a < key b) (k : κ) :
    ((insertEntry key a l).find? fun b => key b = k) =
      if key a = k then some a else l.find? fun b => key b = k := by
  induction l with
  | nil =>
    by_cases hkey : key a = k
    · simp [insertEntry, hkey]
    · simp [insertEntry, hkey]
  | cons c l ih =>
    obtain ⟨-, hrest⟩ := List.pairwise_cons.mp h
    unfold insertEntry
    by_cases hkey : key a = k
    · rw [hkey] at ih ⊢
      rcases lt_trichotomy k (key c) with hlt | heq | hgt
      · simp [hlt, hkey]
      · simp [← heq, hkey]
      · simp [hgt, not_lt_of_gt hgt, ne_of_lt hgt, ih hrest]
    · rw [if_neg hkey] at ih ⊢
      rcases lt_trichotomy (key a) (key c) with hlt | heq | hgt
      · simp [hlt, hkey]
      · simp [heq, heq ▸ hkey]
      · simp only [if_neg (not_lt_of_gt hgt), if_pos hgt, List.find?_cons, ih hrest]

theorem find_insert (m : SortedMap α key) (a : α) (k : κ) :
    (m.insert a).find k = if key a = k then some a else m.find k :=
  find?_insertEntry m.sorted k

theorem length_le_insert (m : SortedMap α key) (a : α) :
    m.entries.length ≤ (m.insert a).entries.length := by
  have hentry : ∀ l : List α, l.length ≤ (insertEntry key a l).length := by
    intro l
    induction l with
    | nil => exact Nat.zero_le _
    | cons b l ih =>
      unfold insertEntry
      split_ifs
      · exact Nat.le_succ _
      · exact Nat.succ_le_succ ih
      · exact Nat.le_refl _
  exact hentry m.entries

/-- An entry is alone in a map, or has come to another one. -/
theorem insert_alone (m : SortedMap α key) (a : α) :
    2 ≤ (m.insert a).entries.length ∨ (m.insert a).entries = [a] := by
  by_cases hmany : 2 ≤ m.entries.length
  · exact .inl (Nat.le_trans hmany (length_le_insert m a))
  · obtain ⟨entries, sorted⟩ := m
    have hshort : entries.length ≤ 1 := Nat.le_of_lt_succ (Nat.lt_of_not_le hmany)
    clear hmany
    match entries, sorted, hshort with
    | [], _, _ => exact .inr rfl
    | [b], _, _ =>
      unfold insert insertEntry
      split_ifs with hlt hgt
      · exact .inl (Nat.le_refl 2)
      · exact .inl (Nat.le_refl 2)
      · exact .inr rfl

theorem mem_keys_iff {m : SortedMap α key} {k : κ} :
    k ∈ m.entries.map key ↔ (m.find k).isSome := by
  simp [find]

theorem mem_of_find {m : SortedMap α key} {k : κ} {a : α} (h : m.find k = some a) :
    a ∈ m.entries ∧ key a = k :=
  ⟨List.mem_of_find?_eq_some h, by simpa using List.find?_some h⟩

theorem key_eq_of_insert_eq_singleton {m : SortedMap α key} {a b : α} (hb : b ∈ m.entries)
    (h : (m.insert a).entries = [a]) : key b = key a := by
  have hkeys : key b ∈ (m.insert a).entries.map key := by
    rw [mem_keys_iff, find_insert]
    split_ifs
    · rfl
    · rw [find_key hb]
      rfl
  rw [h] at hkeys
  exact List.mem_singleton.mp hkeys

theorem mem_insert_iff {s : SortedMap κ id} {a b : κ} :
    b ∈ (s.insert a).entries ↔ b = a ∨ b ∈ s.entries := by
  have hfind : ∀ s : SortedMap κ id, b ∈ s.entries ↔ (s.find b).isSome := fun s => by
    rw [← mem_keys_iff, List.map_id]
  rw [hfind, hfind, find_insert]
  by_cases h : a = b
  · simp [h]
  · simp [h, Ne.symm h]

end SortedMap

end Uniset.Lib
