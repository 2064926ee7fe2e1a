import Uniset.Lib.GuardedRun
import Uniset.Log.LogAgregator
import Mathlib.Data.List.Nodup

/-! The session of a client of the log server: its buffer, and the logs it listens to. -/

namespace Uniset.Log

open Uniset.Lib

namespace Logs

variable (s : Logs)

/-- The logs with a name by the rule, and all those of an aggregator with such a name. -/
def getListByLogNameWithRule (rule : Name → Bool) : Nat → Nat → Name → List ILog
  | 0, _, _ => []
  | fuel + 1, a, pref =>
    let p2 := pref ++ s.agName a ++ [sep]
    (s.lmap a).flatMap fun l =>
      if !rule (s.getLogName l.2) then
        match l.2 with
        | .agregator b => getListByLogNameWithRule rule fuel b p2
        | .log _ => []
      else
        match l.2 with
        | .agregator b => s.getLogList b
        | .log l => [⟨l, p2 ++ s.logName l⟩]

end Logs

/-- The stream that is served, and the library's regular expressions: some are not well formed. -/
structure LogServer where
  logs : Logs
  log : Stream
  regex : Name → Option (Name → Bool)
  maxRecordsNum : Nat

inductive Record
  | event (text : Name)
  | lost
  | reply (text : Name)
  deriving DecidableEq

inductive Command
  | cmdFilterMode
  | cmdList
  | other
  deriving DecidableEq

/-- An event of a stream; a write that takes so many bytes, or fails; the removal of a record that has
been sent; a command, with the list that is printed for it and what its handler answers. -/
inductive SessionStep
  | event (stream : Stream) (text : Name)
  | write (ret : Nat)
  | error (fatal : Bool)
  | pop
  | command (cmd : Command) (logname : Name) (list ret : Name)

/-- What has become of an event that came to the session. -/
inductive Mark
  | kept (text : Name)
  | left (text : Name)
  deriving DecidableEq

/-- `conn` is the connection to the stream that is served, `direct` has a log as often as the session is
connected to it.  The last fields are not in the code: the bytes sent, all that has been put into the
buffer, what has become of the events, and the logs of the last filter. -/
structure LogSession where
  logbuf : List Record
  pos : Nat
  lostMsg : Bool
  numLostMsg : Nat
  cancelled : Bool
  conn : Bool
  direct : List Nat
  sent : Name
  queued : List Record
  marks : List Mark
  filter : Option (List Nat)

namespace LogSession

def new : LogSession := ⟨[], 0, false, 0, false, true, [], [], [], [], none⟩

variable (c : LogServer)

def lostText : Name :=
  ("(LogSession): The buffer is full. Message is lost...(size of buffer " ++ toString c.maxRecordsNum ++
    ")\n").toList

def bytes : Record → Name
  | .event text | .reply text => text
  | .lost => lostText c

variable (s : LogSession)

def emplace (r : Record) : LogSession := { s with logbuf := s.logbuf ++ [r], queued := s.queued ++ [r] }

def logOnEvent (text : Name) : LogSession :=
  if s.cancelled ∨ text = [] then s
  else if s.logbuf.length ≥ c.maxRecordsNum then
    { if s.lostMsg then s else s.emplace .lost with
      numLostMsg := s.numLostMsg + 1
      cancelled := s.cancelled || decide (s.numLostMsg + 1 > c.maxRecordsNum)
      lostMsg := true
      marks := s.marks ++ [.left text] }
  else { s.emplace (.event text) with lostMsg := false, marks := s.marks ++ [.kept text] }

/-- How often an event of a stream comes to the session. -/
def calls (stream : Stream) : Nat :=
  (if s.conn then
    match c.log, stream with
    | .agregator a, .log l => (c.logs.slots l).count a
    | log, stream => if stream = log then 1 else 0
  else 0) +
    match stream with
    | .log l => s.direct.count l
    | .agregator _ => 0

def onEvent (stream : Stream) (text : Name) : LogSession :=
  (List.replicate (calls c s stream) text).foldl (logOnEvent c) s

/-- The socket takes some of the bytes that are left of the first record. -/
def write (ret : Nat) : LogSession :=
  match s.logbuf with
  | [] => s
  | buffer :: _ =>
    if s.cancelled then s
    else
      let taken := ((bytes c buffer).drop s.pos).take ret
      { s with sent := s.sent ++ taken, pos := s.pos + taken.length }

def error (fatal : Bool) : LogSession := if fatal then { s with cancelled := true } else s

def pop : LogSession :=
  match s.logbuf with
  | [] => s
  | buffer :: rest => if (bytes c buffer).length = s.pos then { s with logbuf := rest, pos := 0 } else s

/-- The logs that a command is for. -/
def loglist (cmdLogName : Name) : List Nat :=
  match c.log with
  | .agregator a =>
    if cmdLogName = [] ∨ cmdLogName = "ALL".toList ∨ cmdLogName = c.logs.agName a then
      (c.logs.getLogList a).map ILog.log
    else match c.regex cmdLogName with
    | none => []
    | some rule => (c.logs.getListByLogNameWithRule rule c.logs.agregators a []).map ILog.log
  | .log l =>
    if cmdLogName = [] ∨ cmdLogName = "ALL".toList ∨ c.logs.logName l = cmdLogName then [l] else []

/-- The old handler is taken off, the connections made by filters before are not. -/
def setFilter (logs : List Nat) : LogSession :=
  { s with conn := false, direct := s.direct ++ logs, filter := some logs }

/-- A text that is put into the buffer whether it is full or not. -/
def reply (text : Name) : LogSession := if text = [] then s else s.emplace (.reply text)

def cmdProcessing (cmd : Command) (cmdLogName list ret : Name) : LogSession :=
  let s := if cmd = .cmdFilterMode then s.setFilter (loglist c cmdLogName) else s
  let s := if cmd = .cmdList then s.reply list else s
  s.reply ret

def step : SessionStep → LogSession
  | .event stream text => onEvent c s stream text
  | .write ret => write c s ret
  | .error fatal => s.error fatal
  | .pop => pop c s
  | .command cmd logname list ret => if s.cancelled then s else cmdProcessing c s cmd logname list ret

/-! ## What is right -/

def isReply : Record → Bool
  | .reply _ => true
  | _ => false

def isEvent : Record → Bool
  | .event _ => true
  | _ => false

/-- The events that are kept, in order, and one record for each gap, at its place. -/
def marked : Bool → List Mark → List Record
  | _, [] => []
  | _, .kept text :: marks => .event text :: marked false marks
  | true, .left _ :: marks => marked true marks
  | false, .left _ :: marks => .lost :: marked true marks

/-- The bytes sent are those of whole records, and some of the first that is in the buffer. -/
structure Delivered : Prop where
  sent : ∃ done, s.queued = done ++ s.logbuf ∧ s.sent = done.flatMap (bytes c) ++
    ((s.logbuf.head?.map (bytes c)).getD []).take s.pos
  marked : s.queued.filter (fun r => !isReply r) = marked false s.marks
  bounded : s.logbuf.countP isEvent ≤ c.maxRecordsNum

/-- After a filter each event of a log that it has selected comes once, and no other. -/
def Selected : Prop :=
  ∀ logs, s.filter = some logs → ∀ stream,
    calls c s stream = if ∃ l ∈ logs, stream = .log l then 1 else 0

structure Right : Prop where
  delivered : Delivered c s
  selected : Selected c s

/-- A filter selects no log twice, and no filter before has selected any. -/
def First : SessionStep → Prop
  | .command .cmdFilterMode logname _ _ =>
    s.cancelled = false → s.direct = [] ∧ (loglist c logname).Nodup
  | _ => True

variable {c s}

/-! ## The buffer -/

/-- Whether the last event was left out. -/
def inGap : Bool → List Mark → Bool
  | gap, [] => gap
  | _, .kept _ :: marks => inGap false marks
  | _, .left _ :: marks => inGap true marks

theorem inGap_append (gap : Bool) (marks : List Mark) (m : Mark) :
    inGap gap (marks ++ [m]) = inGap false [m] := by
  induction marks generalizing gap with
  | nil => cases m <;> rfl
  | cons m' marks ih => cases m' <;> exact ih _

theorem marked_append_kept (gap : Bool) (marks : List Mark) (text : Name) :
    marked gap (marks ++ [.kept text]) = marked gap marks ++ [.event text] := by
  induction marks generalizing gap with
  | nil => cases gap <;> rfl
  | cons m marks ih => cases m <;> cases gap <;> simp [marked, ih]

theorem marked_append_left (gap : Bool) (marks : List Mark) (text : Name) :
    marked gap (marks ++ [.left text]) =
      marked gap marks ++ if inGap gap marks then [] else [.lost] := by
  induction marks generalizing gap with
  | nil => cases gap <;> rfl
  | cons m marks ih =>
    cases m <;> cases gap <;> simp only [marked, inGap, List.cons_append, ih] <;> rfl

/-- How far the first record has been sent. -/
structure Sent (c : LogServer) (s : LogSession) : Prop where
  sent : ∃ done, s.queued = done ++ s.logbuf ∧ s.sent = done.flatMap (bytes c) ++
    ((s.logbuf.head?.map (bytes c)).getD []).take s.pos
  pos : s.pos ≤ ((s.logbuf.head?.map (bytes c)).getD []).length

theorem Sent.emplace (h : Sent c s) (r : Record) : Sent c (s.emplace r) := by
  obtain ⟨⟨done, hqueued, hsent⟩, hpos⟩ := h
  unfold LogSession.emplace
  cases hbuf : s.logbuf with
  | nil =>
    rw [hbuf] at hqueued hsent hpos
    have hzero : s.pos = 0 := Nat.le_zero.mp hpos
    refine ⟨⟨done, ?_, ?_⟩, ?_⟩
    · simp [hqueued]
    · simp [hsent, hzero]
    · simp [hzero]
  | cons b rest =>
    rw [hbuf] at hqueued hsent hpos
    exact ⟨⟨done, by simp [hqueued], by simpa using hsent⟩, by simpa using hpos⟩

/-- What the steps keep, whatever is selected. -/
structure Kept (c : LogServer) (s : LogSession) : Prop where
  sent : Sent c s
  marked : s.queued.filter (fun r => !isReply r) = marked false s.marks
  lost : s.lostMsg = inGap false s.marks
  bounded : s.logbuf.countP isEvent ≤ c.maxRecordsNum
  conn : s.filter ≠ none → s.conn = false
  direct : s.filter = none → s.direct = []

theorem Kept.toDelivered (h : Kept c s) : Delivered c s := ⟨h.sent.sent, h.marked, h.bounded⟩

theorem Kept.logOnEvent (h : Kept c s) (text : Name) : Kept c (logOnEvent c s text) := by
  unfold LogSession.logOnEvent
  split
  · exact h
  split
  · have hlost : s.lostMsg = inGap false s.marks := h.lost
    cases hgap : s.lostMsg with
    | true =>
      rw [if_pos rfl]
      refine ⟨⟨h.sent.sent, h.sent.pos⟩, ?_, (inGap_append false s.marks (.left text)).symm, h.bounded,
        h.conn, h.direct⟩
      change s.queued.filter _ = LogSession.marked false (s.marks ++ [.left text])
      rw [marked_append_left, ← hlost, hgap, h.marked]
      exact (List.append_nil _).symm
    | false =>
      rw [if_neg Bool.false_ne_true]
      obtain ⟨hsent, hpos⟩ := h.sent.emplace .lost
      refine ⟨⟨hsent, hpos⟩, ?_, (inGap_append false s.marks (.left text)).symm, ?_, h.conn, h.direct⟩
      · change (s.queued ++ [Record.lost]).filter _ = LogSession.marked false (s.marks ++ [.left text])
        rw [marked_append_left, ← hlost, hgap, List.filter_append, h.marked]
        rfl
      · change (s.logbuf ++ [Record.lost]).countP isEvent ≤ _
        rw [List.countP_append]
        exact h.bounded
  · rename_i hroom
    obtain ⟨hsent, hpos⟩ := h.sent.emplace (.event text)
    refine ⟨⟨hsent, hpos⟩, ?_, (inGap_append false s.marks (.kept text)).symm, ?_, h.conn, h.direct⟩
    · change (s.queued ++ [Record.event text]).filter _ =
        LogSession.marked false (s.marks ++ [.kept text])
      rw [marked_append_kept, List.filter_append, h.marked]
      rfl
    · change (s.logbuf ++ [Record.event text]).countP isEvent ≤ _
      refine List.countP_le_length.trans ?_
      rw [List.length_append]
      exact Nat.lt_of_not_le hroom

theorem Kept.onEvent (h : Kept c s) (stream : Stream) (text : Name) :
    Kept c (onEvent c s stream text) := by
  unfold LogSession.onEvent
  generalize calls c s stream = n
  induction n generalizing s with
  | zero => exact h
  | succ n ih => exact ih (h.logOnEvent text)

theorem Kept.write (h : Kept c s) (ret : Nat) : Kept c (write c s ret) := by
  unfold LogSession.write
  cases hbuf : s.logbuf with
  | nil => exact h
  | cons buffer rest =>
    dsimp only
    split
    · exact h
    · obtain ⟨⟨done, hqueued, hsent⟩, hpos⟩ := h.sent
      rw [hbuf] at hqueued hsent hpos
      change s.sent = done.flatMap (bytes c) ++ (bytes c buffer).take s.pos at hsent
      change s.pos ≤ (bytes c buffer).length at hpos
      refine ⟨⟨⟨done, ?_, ?_⟩, ?_⟩, h.marked, h.lost, ?_, h.conn, h.direct⟩
      · rw [hqueued]
      · change s.sent ++ ((bytes c buffer).drop s.pos).take ret = done.flatMap (bytes c) ++
          (bytes c buffer).take (s.pos + (((bytes c buffer).drop s.pos).take ret).length)
        rw [hsent, List.append_assoc, List.take_add, List.length_take, ← List.take_eq_take_min]
      · change s.pos + (((bytes c buffer).drop s.pos).take ret).length ≤ (bytes c buffer).length
        rw [List.length_take, List.length_drop]
        omega
      · rw [← hbuf]
        exact h.bounded

theorem Kept.pop (h : Kept c s) : Kept c (pop c s) := by
  unfold LogSession.pop
  cases hbuf : s.logbuf with
  | nil => exact h
  | cons buffer rest =>
    dsimp only
    split
    · rename_i hfull
      obtain ⟨⟨done, hqueued, hsent⟩, -⟩ := h.sent
      rw [hbuf] at hqueued hsent
      change s.sent = done.flatMap (bytes c) ++ (bytes c buffer).take s.pos at hsent
      refine ⟨⟨⟨done ++ [buffer], ?_, ?_⟩, Nat.zero_le _⟩, h.marked, h.lost, ?_, h.conn, h.direct⟩
      · change s.queued = done ++ [buffer] ++ rest
        rw [hqueued, List.append_assoc]
        rfl
      · change s.sent = (done ++ [buffer]).flatMap (bytes c) ++ List.take 0 _
        rw [hsent, ← hfull, List.take_length, List.take_zero, List.flatMap_append]
        simp
      · have hle := h.bounded
        rw [hbuf, List.countP_cons] at hle
        exact (Nat.le_add_right _ _).trans hle
    · exact h

theorem Kept.reply (h : Kept c s) (text : Name) : Kept c (s.reply text) := by
  unfold LogSession.reply
  split
  · exact h
  · refine ⟨h.sent.emplace _, ?_, h.lost, ?_, h.conn, h.direct⟩
    · change (s.queued ++ [Record.reply text]).filter _ = _
      rw [List.filter_append, h.marked]
      exact List.append_nil _
    · change (s.logbuf ++ [Record.reply text]).countP isEvent ≤ _
      rw [List.countP_append]
      exact h.bounded

theorem Kept.setFilter (h : Kept c s) (logs : List Nat) : Kept c (s.setFilter logs) :=
  ⟨⟨h.sent.sent, h.sent.pos⟩, h.marked, h.lost, h.bounded, fun _ => rfl,
    fun hnone => absurd hnone (Option.some_ne_none logs)⟩

theorem Kept.step (h : Kept c s) (i : SessionStep) : Kept c (step c s i) := by
  cases i with
  | event stream text => exact h.onEvent stream text
  | write ret => exact h.write ret
  | error fatal =>
    cases fatal with
    | true => exact ⟨⟨h.sent.sent, h.sent.pos⟩, h.marked, h.lost, h.bounded, h.conn, h.direct⟩
    | false => exact h
  | pop => exact h.pop
  | command cmd logname list ret =>
    unfold LogSession.step LogSession.cmdProcessing
    dsimp only
    split_ifs
    · exact h
    · exact ((h.setFilter _).reply list).reply ret
    · exact (h.reply list).reply ret
    · exact (h.setFilter _).reply ret
    · exact h.reply ret

theorem kept_new (c : LogServer) : Kept c new :=
  ⟨⟨⟨[], rfl, rfl⟩, Nat.le_refl 0⟩, rfl, rfl, Nat.zero_le _, fun h => absurd rfl h, fun _ => rfl⟩

/-! ## The connections -/

/-- Only a filter changes what the session is connected to. -/
def SameConnections (s t : LogSession) : Prop :=
  t.conn = s.conn ∧ t.direct = s.direct ∧ t.filter = s.filter

theorem SameConnections.trans {t u : LogSession} (h : SameConnections s t) (h' : SameConnections t u) :
    SameConnections s u :=
  ⟨h'.1.trans h.1, h'.2.1.trans h.2.1, h'.2.2.trans h.2.2⟩

theorem SameConnections.selected_iff {t : LogSession} (h : SameConnections s t) :
    Selected c t ↔ Selected c s := by
  unfold Selected LogSession.calls
  rw [h.1, h.2.1, h.2.2]

theorem sameConnections_logOnEvent (s : LogSession) (text : Name) :
    SameConnections s (logOnEvent c s text) := by
  unfold LogSession.logOnEvent
  split
  · exact ⟨rfl, rfl, rfl⟩
  split
  · split
    · exact ⟨rfl, rfl, rfl⟩
    · exact ⟨rfl, rfl, rfl⟩
  · exact ⟨rfl, rfl, rfl⟩

theorem sameConnections_onEvent (s : LogSession) (stream : Stream) (text : Name) :
    SameConnections s (onEvent c s stream text) := by
  unfold LogSession.onEvent
  generalize calls c s stream = n
  induction n generalizing s with
  | zero => exact ⟨rfl, rfl, rfl⟩
  | succ n ih => exact (sameConnections_logOnEvent s text).trans (ih _)

theorem sameConnections_write (s : LogSession) (ret : Nat) : SameConnections s (write c s ret) := by
  unfold LogSession.write
  split
  · exact ⟨rfl, rfl, rfl⟩
  split
  · exact ⟨rfl, rfl, rfl⟩
  · exact ⟨rfl, rfl, rfl⟩

theorem sameConnections_error (s : LogSession) (fatal : Bool) : SameConnections s (s.error fatal) := by
  cases fatal with
  | true => exact ⟨rfl, rfl, rfl⟩
  | false => exact ⟨rfl, rfl, rfl⟩

theorem sameConnections_pop (s : LogSession) : SameConnections s (pop c s) := by
  unfold LogSession.pop
  split
  · exact ⟨rfl, rfl, rfl⟩
  split
  · exact ⟨rfl, rfl, rfl⟩
  · exact ⟨rfl, rfl, rfl⟩

theorem sameConnections_reply (s : LogSession) (text : Name) : SameConnections s (s.reply text) := by
  unfold LogSession.reply
  split
  · exact ⟨rfl, rfl, rfl⟩
  · exact ⟨rfl, rfl, rfl⟩

theorem sameConnections_cmdProcessing (s : LogSession) {cmd : Command} (hcmd : cmd ≠ .cmdFilterMode)
    (logname list ret : Name) : SameConnections s (cmdProcessing c s cmd logname list ret) := by
  unfold LogSession.cmdProcessing
  dsimp only
  rw [if_neg hcmd]
  split
  · exact (sameConnections_reply s list).trans (sameConnections_reply _ ret)
  · exact sameConnections_reply s ret

/-- The logs of the filter are connected once, beside those that are connected already. -/
theorem selected_setFilter_iff (logs : List Nat) :
    Selected c (s.setFilter logs) ↔ s.direct = [] ∧ logs.Nodup := by
  have hcalls : ∀ l, calls c (s.setFilter logs) (.log l) = s.direct.count l + logs.count l := by
    intro l
    change 0 + (s.direct ++ logs).count l = _
    rw [Nat.zero_add, List.count_append]
  have hmem : ∀ l, (∃ l' ∈ logs, Stream.log l = .log l') ↔ l ∈ logs := by
    intro l
    constructor
    · rintro ⟨l', hl', heq⟩
      cases heq
      exact hl'
    · exact fun hl => ⟨l, hl, rfl⟩
  constructor
  · intro h
    have hcount : ∀ l, s.direct.count l + logs.count l = if l ∈ logs then 1 else 0 := by
      intro l
      rw [← hcalls, h logs rfl]
      exact if_congr (hmem l) rfl rfl
    constructor
    · rw [List.eq_nil_iff_forall_not_mem]
      intro l hl
      have hpos : 0 < s.direct.count l := List.count_pos_iff.mpr hl
      have hl' := hcount l
      by_cases hin : l ∈ logs
      · have hpos' : 0 < logs.count l := List.count_pos_iff.mpr hin
        rw [if_pos hin] at hl'
        omega
      · rw [if_neg hin] at hl'
        omega
    · rw [List.nodup_iff_count_le_one]
      intro l
      have hl' := hcount l
      split at hl' <;> omega
  · rintro ⟨hdirect, hnodup⟩ logs' hlogs' stream
    cases hlogs'
    cases stream with
    | log l =>
      rw [hcalls, hdirect, List.count_nil, Nat.zero_add, hnodup.count]
      exact (if_congr (hmem l) rfl rfl).symm
    | agregator a =>
      rw [if_neg (by rintro ⟨l, -, h⟩; cases h)]
      rfl

theorem step_command (c : LogServer) (s : LogSession) (cmd : Command) (logname list ret : Name) :
    step c s (.command cmd logname list ret) =
      if s.cancelled then s else cmdProcessing c s cmd logname list ret := rfl

theorem selected_step_iff (hs : Selected c s) (i : SessionStep) :
    Selected c (step c s i) ↔ First c s i := by
  have hsame : ∀ {t}, SameConnections s t → (Selected c t ↔ True) := fun h =>
    h.selected_iff.trans (iff_true_intro hs)
  cases i with
  | event stream text => exact hsame (sameConnections_onEvent s stream text)
  | write ret => exact hsame (sameConnections_write s ret)
  | error fatal => exact hsame (sameConnections_error s fatal)
  | pop => exact hsame (sameConnections_pop s)
  | command cmd logname list ret =>
    by_cases hcmd : cmd = .cmdFilterMode
    · subst hcmd
      cases hcancelled : s.cancelled with
      | true =>
        refine iff_of_true ?_ fun h => absurd (hcancelled.symm.trans h) Bool.noConfusion
        rw [step_command, if_pos hcancelled]
        exact hs
      | false =>
        have hstep : step c s (.command .cmdFilterMode logname list ret) =
            (s.setFilter (loglist c logname)).reply ret := by
          rw [step_command, if_neg (by rw [hcancelled]; exact Bool.false_ne_true)]
          rfl
        rw [hstep, (sameConnections_reply _ ret).selected_iff, selected_setFilter_iff]
        exact ⟨fun h _ => h, fun h => h hcancelled⟩
    · have hfirst : First c s (.command cmd logname list ret) ↔ True := by
        cases cmd with
        | cmdFilterMode => exact absurd rfl hcmd
        | cmdList => exact Iff.rfl
        | other => exact Iff.rfl
      rw [hfirst]
      refine hsame ?_
      rw [step_command]
      split
      · exact ⟨rfl, rfl, rfl⟩
      · exact sameConnections_cmdProcessing s hcmd logname list ret

/-! ## The whole history of a session -/

/-- What is sent is always right; the selection is as long as no filter follows one that has selected
a log, and none selects a log twice. -/
theorem right_iff_first (c : LogServer) (steps : List SessionStep) :
    (∀ s ∈ steps.scanl (step c) new, Right c s) ↔ Guarded (step c) (First c) new steps := by
  apply forall_visited_iff_guarded_of_invariant (fun _ i h _ _ => h.step i) _ (kept_new c)
  · exact ⟨(kept_new c).toDelivered, fun logs h => by cases h⟩
  · intro s i hkept hright
    constructor
    · exact fun h => (selected_step_iff hright.selected i).mp h.selected
    · exact fun h => ⟨(hkept.step i).toDelivered, (selected_step_iff hright.selected i).mpr h⟩

end LogSession

/-- One log, which is served. -/
def oneLog : LogServer where
  logs := Logs.init.newLog "unet".toList
  log := .log 0
  regex := fun _ => none
  maxRecordsNum := 30000

/-- The client asks for everything a second time. -/
def filterTwice : List SessionStep :=
  [.command .cmdFilterMode "ALL".toList [] [], .command .cmdFilterMode "ALL".toList [] []]

/-- Then each message comes twice. -/
theorem not_right_filterTwice : ¬∀ s ∈ filterTwice.scanl (LogSession.step oneLog) LogSession.new,
    LogSession.Right oneLog s := by
  intro h
  have hcalls := (h _ (foldl_mem_scanl _ _ filterTwice)).selected [0] rfl (.log 0)
  rw [if_pos ⟨0, List.mem_singleton_self 0, rfl⟩] at hcalls
  revert hcalls
  decide

end Uniset.Log
