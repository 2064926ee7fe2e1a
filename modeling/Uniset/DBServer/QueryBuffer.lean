import Mathlib.Data.List.Nodup
import Uniset.Lib.GuardedRun

/-! The queries that wait for a connection, in the three servers. -/

namespace Uniset.DBServer

open Lib

/-- The queries are numbered in the order of the calls of `writeToBase`. -/
structure Query where
  number : Nat
  text : String

inductive Server
  | postgreSQL
  | mySQL
  | sqlite

structure QueryConfig where
  server : Server
  qbufSize : Nat
  lastRemove : Bool
  one_le : 1 ≤ qbufSize

/-- The buffer, with the calls, the queries that the base has executed, those that were reported as
lost and those that came while there was no connection, since the buffer was flushed last. -/
structure QueryBuffer where
  qbuf : List Query
  connect_ok : Bool
  calls : List Query
  executed : List Query
  lost : List Query
  waiting : List Query

namespace QueryBuffer

def empty : QueryBuffer := ⟨[], false, [], [], [], []⟩

def call (s : QueryBuffer) (q : Query) : QueryBuffer := { s with calls := s.calls ++ [q] }

def insert (s : QueryBuffer) (q : Query) : QueryBuffer := { s with executed := s.executed ++ [q] }

def report (s : QueryBuffer) (q : Query) : QueryBuffer := { s with lost := s.lost ++ [q] }

/-- The base accepts a query or refuses it. -/
def flushLoop (accepts : Query → Bool) : List Query → QueryBuffer → QueryBuffer
  | [], s => { s with waiting := [] }
  | q :: qs, s =>
    let s := if accepts q then s.insert q else s.report q
    flushLoop accepts qs { s with qbuf := qs }

variable (cfg : QueryConfig)

/-- Only one of the servers looks at the connection here. -/
def flushBuffer (accepts : Query → Bool) (s : QueryBuffer) : QueryBuffer :=
  match cfg.server with
  | .postgreSQL => flushLoop accepts s.qbuf s
  | .mySQL => flushLoop accepts s.qbuf s
  | .sqlite => if s.connect_ok then flushLoop accepts s.qbuf s else s

/-- What is reported as lost is not what is removed. -/
def push (s : QueryBuffer) (q : Query) : QueryBuffer :=
  let s := { s with qbuf := s.qbuf ++ [q], waiting := s.waiting ++ [q] }
  if s.qbuf.length > cfg.qbufSize then
    let qlost := if cfg.lastRemove then s.qbuf.getLast? else s.qbuf.head?
    { s with qbuf := s.qbuf.tail, lost := s.lost ++ qlost.toList }
  else s

def writeToBase (text : String) (accepts : Query → Bool) (s : QueryBuffer) : QueryBuffer :=
  let q := ⟨s.calls.length, text⟩
  let s := s.call q
  if !s.connect_ok then s.push cfg q
  else
    let s := s.flushBuffer cfg accepts
    if accepts q then s.insert q else s

/-- A new connection. -/
def initDBServer (accepts : Query → Bool) (s : QueryBuffer) : QueryBuffer :=
  if s.connect_ok then s else { s with connect_ok := true }.flushBuffer cfg accepts

/-- Only one of the servers flushes when it is deactivated. -/
def deactivateObject (accepts : Query → Bool) (s : QueryBuffer) : QueryBuffer :=
  match cfg.server with
  | .postgreSQL => if s.connect_ok then s.flushBuffer cfg accepts else s
  | .mySQL => s
  | .sqlite => s

end QueryBuffer

inductive QueryEvent
  | writeToBase (text : String) (accepts : Query → Bool)
  | ping (found : Bool)
  | initDBServer (accepts : Query → Bool)
  | deactivateObject (accepts : Query → Bool)

namespace QueryBuffer

variable (cfg : QueryConfig)

def step (s : QueryBuffer) : QueryEvent → QueryBuffer
  | .writeToBase text accepts => s.writeToBase cfg text accepts
  | .ping found => { s with connect_ok := found }
  | .initDBServer accepts => s.initDBServer cfg accepts
  | .deactivateObject accepts => s.deactivateObject cfg accepts

/-- The oldest queries, or the newest ones. -/
def kept (qs : List Query) : List Query :=
  if cfg.lastRemove then qs.take cfg.qbufSize else qs.drop (qs.length - cfg.qbufSize)

structure Exact (s : QueryBuffer) : Prop where
  executed : (s.executed.map (·.number)).Pairwise (· < ·)
  qbuf : s.qbuf = kept cfg s.waiting
  accounted : ∀ q ∈ s.calls, q ∈ s.executed ∨ q ∈ s.qbuf ∨ q ∈ s.lost

/-- A query that is buffered finds room or takes that of the oldest one, and one that is not buffered
is accepted. -/
def Fits (s : QueryBuffer) : QueryEvent → Prop
  | .writeToBase text accepts =>
    if s.connect_ok then accepts ⟨s.calls.length, text⟩ = true
    else cfg.lastRemove = true → s.qbuf.length < cfg.qbufSize
  | _ => True

/-- The queries have come in their order. -/
structure Ordered (s : QueryBuffer) : Prop where
  sorted : ((s.executed ++ s.qbuf).map (·.number)).Pairwise (· < ·)
  bound : ∀ q ∈ s.executed ++ s.qbuf ++ s.lost, q.number < s.calls.length

/-- The state after the loop. -/
def flushed (accepts : Query → Bool) (s : QueryBuffer) : QueryBuffer :=
  { s with
    qbuf := []
    waiting := []
    executed := s.executed ++ s.qbuf.filter accepts
    lost := s.lost ++ s.qbuf.filter (!accepts ·) }

variable {cfg} {s : QueryBuffer}

theorem flushLoop_eq (accepts : Query → Bool) (qs : List Query) (h : s.qbuf = qs) :
    flushLoop accepts qs s = s.flushed accepts := by
  induction qs generalizing s with
  | nil => simp [flushLoop, flushed, h]
  | cons q qs ih =>
    rw [flushLoop, ih rfl]
    cases hq : accepts q <;> simp [flushed, insert, report, h, hq]

theorem flushBuffer_eq (h : s.connect_ok = true) (accepts : Query → Bool) :
    s.flushBuffer cfg accepts = s.flushed accepts := by
  unfold flushBuffer
  split
  · exact flushLoop_eq accepts _ rfl
  · exact flushLoop_eq accepts _ rfl
  · rw [if_pos h, flushLoop_eq accepts _ rfl]

theorem Ordered.flushed (h : s.Ordered) (accepts : Query → Bool) : (s.flushed accepts).Ordered where
  sorted := by
    refine h.sorted.sublist (List.Sublist.map _ ?_)
    simp [QueryBuffer.flushed]
  bound := by
    intro q hq
    refine h.bound q ?_
    simp only [QueryBuffer.flushed, List.append_nil, List.mem_append, List.mem_filter] at hq ⊢
    tauto

theorem Exact.flushed (hexact : s.Exact cfg) (h : s.Ordered) (accepts : Query → Bool) :
    (s.flushed accepts).Exact cfg where
  executed := by simpa [QueryBuffer.flushed] using (h.flushed accepts).sorted
  qbuf := by simp [QueryBuffer.flushed, kept]
  accounted := by
    intro q hq
    have hwhere := hexact.accounted q hq
    cases haccepts : accepts q <;>
      simp only [QueryBuffer.flushed, List.mem_append, List.mem_filter, haccepts] <;> tauto

theorem Ordered.of_lt (h : s.Ordered) (q : Query) (hq : q.number = s.calls.length) :
    (((s.executed ++ s.qbuf) ++ [q]).map (·.number)).Pairwise (· < ·) := by
  rw [List.map_append, List.pairwise_append]
  refine ⟨h.sorted, List.pairwise_singleton _ _, ?_⟩
  simp only [List.mem_map, List.map_cons, List.map_nil, List.mem_singleton]
  rintro _ ⟨p, hp, rfl⟩ _ rfl
  rw [hq]
  exact h.bound p (List.mem_append_left _ hp)

theorem Ordered.new (h : s.Ordered) (text : String) {q : Query}
    (hq : q = ⟨s.calls.length, text⟩) : q ∉ s.executed ++ s.qbuf ++ s.lost := by
  intro hmem
  have hlt := h.bound q hmem
  rw [hq] at hlt
  exact absurd hlt (Nat.lt_irrefl _)

/-- The queries that are kept when one more comes. -/
theorem kept_append (qs : List Query) (q : Query) (hfits : cfg.lastRemove = true →
    (kept cfg qs).length < cfg.qbufSize) : kept cfg (qs ++ [q]) =
      if (kept cfg qs ++ [q]).length > cfg.qbufSize then (kept cfg qs ++ [q]).tail
      else kept cfg qs ++ [q] := by
  have hone := cfg.one_le
  cases hlast : cfg.lastRemove with
  | true =>
    have hlen := hfits hlast
    simp only [kept, hlast, if_true, List.length_take] at hlen ⊢
    have hshort : qs.length < cfg.qbufSize := by omega
    rw [List.take_of_length_le (Nat.le_of_lt hshort), List.take_of_length_le (by simp; omega),
      if_neg (by simp; omega)]
  | false =>
    simp only [kept, hlast, Bool.false_eq_true, if_false, List.length_append, List.length_singleton,
      List.length_drop]
    split_ifs with hfull
    · rw [← List.drop_one, ← List.drop_append_of_le_length (Nat.sub_le _ _), List.drop_drop]
      congr 1
      omega
    · rw [← List.drop_append_of_le_length (Nat.sub_le _ _)]
      congr 1
      omega

theorem push_full {q : Query} (h : (s.qbuf ++ [q]).length > cfg.qbufSize) : s.push cfg q =
    { s with
      qbuf := (s.qbuf ++ [q]).tail
      waiting := s.waiting ++ [q]
      lost := s.lost ++
        (if cfg.lastRemove then (s.qbuf ++ [q]).getLast? else (s.qbuf ++ [q]).head?).toList } :=
  if_pos h

theorem push_room {q : Query} (h : ¬(s.qbuf ++ [q]).length > cfg.qbufSize) : s.push cfg q =
    { s with qbuf := s.qbuf ++ [q], waiting := s.waiting ++ [q] } :=
  if_neg h

theorem mem_lost (qs : List Query) (last : Bool) (p : Query)
    (hp : p ∈ (if last then qs.getLast? else qs.head?).toList) : p ∈ qs := by
  rw [Option.mem_toList] at hp
  split_ifs at hp
  · exact List.mem_of_getLast? hp
  · exact List.mem_of_head? hp

theorem mem_head_or_tail (qs : List Query) (p : Query) (hp : p ∈ qs) :
    p ∈ qs.head?.toList ∨ p ∈ qs.tail := by
  cases qs with
  | nil => cases hp
  | cons q qs => simpa using List.mem_cons.mp hp

/-- A query that comes while there is no connection. -/
theorem ordered_push (cfg : QueryConfig) (h : s.Ordered) (text : String) (hq : q = ⟨s.calls.length, text⟩) :
    ((s.call q).push cfg q).Ordered := by
  have hlt := h.of_lt q (by rw [hq])
  have hbound : ∀ p, p ∈ s.executed ++ s.qbuf ++ s.lost ∨ p = q →
      p.number < (s.call q).calls.length := by
    intro p hp
    rw [call, List.length_append, List.length_singleton]
    obtain hp | rfl := hp
    · exact Nat.lt_succ_of_lt (h.bound p hp)
    · rw [hq]
      exact Nat.lt_succ_self _
  rw [List.append_assoc] at hlt
  by_cases hfull : (s.qbuf ++ [q]).length > cfg.qbufSize
  · rw [push_full (s := s.call q) hfull]
    refine ⟨hlt.sublist (List.Sublist.map _ ((List.tail_sublist _).append_left _)), fun p hp => ?_⟩
    refine hbound p ?_
    have htail : p ∈ (s.qbuf ++ [q]).tail → p ∈ s.qbuf ++ [q] := List.mem_of_mem_tail
    have hlost := mem_lost (s.qbuf ++ [q]) cfg.lastRemove p
    simp only [call, List.mem_append, List.mem_singleton] at hp htail hlost ⊢
    tauto
  · rw [push_room (s := s.call q) hfull]
    refine ⟨hlt, fun p hp => hbound p ?_⟩
    simp only [call, List.mem_append, List.mem_singleton] at hp ⊢
    tauto

/-- Such a query is kept or lost as it should be when it fits. -/
theorem exact_push_iff (hexact : s.Exact cfg) (h : s.Ordered) (text : String)
    (hq : q = ⟨s.calls.length, text⟩) : ((s.call q).push cfg q).Exact cfg ↔
      (cfg.lastRemove = true → s.qbuf.length < cfg.qbufSize) := by
  constructor
  · intro hpush hlast
    by_contra hfull
    have hone := cfg.one_le
    have hover : (s.qbuf ++ [q]).length > cfg.qbufSize := by simp; omega
    have hqbuf := hpush.qbuf
    rw [push_full (s := s.call q) hover] at hqbuf
    have hlen : cfg.qbufSize ≤ s.waiting.length := by
      rw [hexact.qbuf, kept, if_pos hlast, List.length_take] at hfull
      omega
    have hkept : kept cfg (s.waiting ++ [q]) = s.qbuf := by
      rw [hexact.qbuf, kept, kept, if_pos hlast, if_pos hlast, List.take_append_of_le_length hlen]
    have hne : s.qbuf ≠ [] := by
      intro hnil
      rw [hnil] at hfull
      exact hfull hone
    have hmem : q ∈ s.qbuf := by
      rw [← hkept]
      change q ∈ kept cfg ((s.call q).waiting ++ [q])
      rw [← hqbuf]
      change q ∈ (s.qbuf ++ [q]).tail
      rw [List.tail_append_of_ne_nil hne]
      exact List.mem_append_right _ List.mem_cons_self
    exact h.new text hq (List.mem_append_left _ (List.mem_append_right _ hmem))
  · intro hfits
    have hkept : kept cfg (s.waiting ++ [q]) = _ := kept_append s.waiting q (hexact.qbuf ▸ hfits)
    rw [← hexact.qbuf] at hkept
    by_cases hfull : (s.qbuf ++ [q]).length > cfg.qbufSize
    · rw [if_pos hfull] at hkept
      have hlast : cfg.lastRemove = false := by
        rw [← Bool.not_eq_true]
        intro hlast
        have := hfits hlast
        simp at hfull
        omega
      rw [push_full (s := s.call q) hfull]
      refine ⟨hexact.executed, hkept.symm, fun p hp => ?_⟩
      have hwhere := hexact.accounted p
      have hqbuf := mem_head_or_tail (s.qbuf ++ [q]) p
      simp only [call, hlast, Bool.false_eq_true, if_false, List.mem_append, List.mem_singleton]
        at hp hqbuf ⊢
      tauto
    · rw [if_neg hfull] at hkept
      rw [push_room (s := s.call q) hfull]
      refine ⟨hexact.executed, hkept.symm, fun p hp => ?_⟩
      have hwhere := hexact.accounted p
      simp only [call, List.mem_append, List.mem_singleton] at hp ⊢
      tauto

/-- A query that comes while there is a connection. -/
theorem ordered_insert (h : s.Ordered) (hnil : s.qbuf = []) (text : String) {q : Query}
    (hq : q = ⟨s.calls.length, text⟩) : ((s.call q).insert q).Ordered where
  sorted := by simpa [call, insert, hnil] using h.of_lt q (by rw [hq])
  bound := by
    intro p hp
    simp only [call, insert, List.length_append, List.length_singleton]
    by_cases hpq : p = q
    · rw [hpq, hq]
      exact Nat.lt_succ_self _
    · refine Nat.lt_succ_of_lt (h.bound p ?_)
      simpa [call, insert, hpq] using hp

theorem exact_insert (hexact : s.Exact cfg) (h : s.Ordered) (hnil : s.qbuf = []) (text : String)
    {q : Query} (hq : q = ⟨s.calls.length, text⟩) : ((s.call q).insert q).Exact cfg where
  executed := by simpa [call, insert, hnil] using h.of_lt q (by rw [hq])
  qbuf := hexact.qbuf
  accounted := by
    intro p hp
    have hwhere := hexact.accounted p
    simp only [call, insert, List.mem_append, List.mem_singleton] at hp ⊢
    tauto

theorem writeToBase_eq (h : s.connect_ok = true) (text : String) (accepts : Query → Bool) :
    s.writeToBase cfg text accepts =
      if accepts ⟨s.calls.length, text⟩ then
        ((s.flushed accepts).call ⟨s.calls.length, text⟩).insert ⟨s.calls.length, text⟩
      else (s.flushed accepts).call ⟨s.calls.length, text⟩ := by
  simp only [writeToBase]
  rw [flushBuffer_eq (s := s.call _) h]
  simp [call, h, flushed, insert]

theorem ordered_call (h : s.Ordered) (q : Query) : (s.call q).Ordered where
  sorted := h.sorted
  bound := by
    intro p hp
    simp only [call, List.length_append, List.length_singleton]
    exact Nat.lt_succ_of_lt (h.bound p hp)

theorem ordered_connect (h : s.Ordered) (found : Bool) : ({ s with connect_ok := found }).Ordered :=
  ⟨h.sorted, h.bound⟩

theorem ordered_step (h : s.Ordered) (e : QueryEvent) : (step cfg s e).Ordered := by
  cases e with
  | writeToBase text accepts =>
    cases hok : s.connect_ok with
    | true =>
      rw [step, writeToBase_eq hok]
      split_ifs
      · exact ordered_insert (h.flushed accepts) rfl text rfl
      · exact ordered_call (h.flushed accepts) _
    | false =>
      simpa [step, writeToBase, call, hok] using ordered_push cfg h text rfl
  | ping found => exact ordered_connect h found
  | initDBServer accepts =>
    simp only [step, initDBServer]
    split_ifs
    · exact h
    · rw [flushBuffer_eq rfl]
      exact (ordered_connect h true).flushed accepts
  | deactivateObject accepts =>
    simp only [step, deactivateObject]
    split
    · split_ifs with hok
      · rw [flushBuffer_eq hok]
        exact h.flushed accepts
      · exact h
    · exact h
    · exact h

theorem exact_connect (h : s.Exact cfg) (found : Bool) :
    ({ s with connect_ok := found } : QueryBuffer).Exact cfg :=
  ⟨h.executed, h.qbuf, h.accounted⟩

/-- A step is right when it fits. -/
theorem exact_step_iff (h : s.Ordered) (hexact : s.Exact cfg) (e : QueryEvent) :
    (step cfg s e).Exact cfg ↔ Fits cfg s e := by
  cases e with
  | writeToBase text accepts =>
    cases hok : s.connect_ok with
    | true =>
      have hflushed := hexact.flushed h accepts
      rw [step, writeToBase_eq hok, Fits, if_pos hok]
      split_ifs with haccepts
      · exact iff_of_true (exact_insert hflushed (h.flushed accepts) rfl text rfl) haccepts
      · refine iff_of_false (fun hcall => ?_) haccepts
        obtain hmem | hmem | hmem := hcall.accounted _ (List.mem_append_right _ List.mem_cons_self)
        · exact (h.flushed accepts).new text rfl
            (List.mem_append_left _ (List.mem_append_left _ hmem))
        · cases hmem
        · exact (h.flushed accepts).new text rfl (List.mem_append_right _ hmem)
    | false =>
      simpa [step, writeToBase, call, hok, Fits] using exact_push_iff hexact h text rfl
  | ping found => exact iff_of_true (exact_connect hexact found) trivial
  | initDBServer accepts =>
    refine iff_of_true ?_ trivial
    simp only [step, initDBServer]
    split_ifs
    · exact hexact
    · rw [flushBuffer_eq rfl]
      exact (exact_connect hexact true).flushed (ordered_connect h true) accepts
  | deactivateObject accepts =>
    refine iff_of_true ?_ trivial
    simp only [step, deactivateObject]
    split
    · split_ifs with hok
      · rw [flushBuffer_eq hok]
        exact hexact.flushed h accepts
      · exact hexact
    · exact hexact
    · exact hexact

theorem ordered_empty : empty.Ordered where
  sorted := .nil
  bound := by simp [empty]

theorem exact_empty : empty.Exact cfg where
  executed := .nil
  qbuf := by simp [kept, empty]
  accounted := by simp [empty]

/-- In every state of a run the queries are where they should be exactly when every call fits. -/
theorem queryBuffer_exact_iff (cfg : QueryConfig) (events : List QueryEvent) :
    (∀ s ∈ events.scanl (step cfg) empty, s.Exact cfg) ↔ Guarded (step cfg) (Fits cfg) empty events :=
  forall_visited_iff_guarded_of_invariant (I := Ordered) (fun _ e h _ _ => ordered_step h e)
    (fun _ e h hexact => exact_step_iff h hexact e) ordered_empty exact_empty events

def lastRemoved : QueryConfig := ⟨.postgreSQL, 1, true, Nat.le_refl 1⟩

/-- The oldest query is removed and the newest one is reported. -/
theorem not_queryBuffer_exact : ¬∀ events : List QueryEvent,
    ∀ s ∈ events.scanl (step lastRemoved) empty, s.Exact lastRemoved := by
  intro h
  have hexact := h [.writeToBase "a" fun _ => true, .writeToBase "b" fun _ => true] _
    (foldl_mem_scanl _ _ _)
  have hqbuf := hexact.qbuf
  simp [step, writeToBase, push, call, empty, kept, lastRemoved] at hqbuf

end QueryBuffer

end Uniset.DBServer
