import Uniset.Backends.BackendClickHouse

/-! The backend of OpenTSDB. -/

namespace Uniset.Backends

variable {α : Type}

/-- `stored` is what has been sent, and `connected` says whether there is a socket. -/
structure BackendOpenTSDB (α : Type) where
  buf : List α
  stored : List α
  connected : Bool
  timerIsOn : Bool
  timers : LTObject TimerId

/-- What comes of a send.  With `lost` the socket takes a part at most and the error is none of
those that are looked at. -/
inductive Sent
  | done
  | lost
  | broken
  | ioException
  | otherException
  deriving DecidableEq

/-- What the server answers to a flush: to what is sent, and to a reconnect after that. -/
structure Answer where
  sent : Sent
  reconnect : Bool
  deriving DecidableEq

/-- The server does what it is asked for. -/
def Answer.Good (answer : Answer) : Prop := answer.sent = .done ∧ answer.reconnect = true

/-- A message may be the cause of two flushes. -/
inductive OpenTSDBEvent (α : Type)
  | sensorInfo (row : α) (first second : Answer)
  | timerInfo (answer : Answer)
  | startUp (reconnect : Bool)
  | checkTimer (id : TimerId)

namespace BackendOpenTSDB

def init : BackendOpenTSDB α := ⟨[], [], false, false, .new⟩

variable (conf : Config) (s : BackendOpenTSDB α)

/-- The buffer is given up and the timer taken back. -/
def clear : BackendOpenTSDB α :=
  { s with
    buf := []
    timerIsOn := false
    timers := s.timers.askTimer .tmFlushBuffer 0 (-1) }

def flushBuffer (answer : Answer) : BackendOpenTSDB α × Bool :=
  if s.buf = [] then (if s.timerIsOn then s.clear else s, true)
  else if s.connected = false then (s, false)
  else
    match answer.sent with
    | .done => ({ s with stored := s.stored ++ s.buf }.clear, true)
    | .lost => (s.clear, true)
    | .broken => ({ s with connected := answer.reconnect }, false)
    | .ioException =>
      let s := { s with connected := answer.reconnect }
      if answer.reconnect then (s, false)
      else ({ s with timers := s.timers.askTimer .tmReconnect conf.reconnectTime (-1) }, false)
    | .otherException => (s, false)

def pushBack (row : α) : BackendOpenTSDB α :=
  let s := { s with buf := s.buf ++ [row] }
  if s.timerIsOn then s
  else { s with
    timerIsOn := true
    timers := s.timers.askTimer .tmFlushBuffer conf.bufSyncTime 1 }

/-- A row for which there is no room is lost. -/
def sensorInfo (row : α) (first second : Answer) : BackendOpenTSDB α :=
  if conf.bufSize ≤ s.buf.length then
    match s.flushBuffer conf first with
    | (s, true) => s.pushBack conf row
    | (s, false) =>
      if conf.bufMaxSize ≤ s.buf.length then
        match s.flushBuffer conf second with
        | (s, true) => s.pushBack conf row
        | (s, false) => s
      else s.pushBack conf row
  else s.pushBack conf row

def tmReconnect (reconnect : Bool) : BackendOpenTSDB α :=
  let s := { s with connected := reconnect }
  if reconnect then { s with timers := s.timers.askTimer .tmReconnect 0 (-1) } else s

def timerInfo (answer : Answer) : BackendOpenTSDB α :=
  match s.timers.queue with
  | [] => s
  | .tmFlushBuffer :: queue => ({ s with timers.queue := queue }.flushBuffer conf answer).1
  | .tmReconnect :: queue => { s with timers.queue := queue }.tmReconnect answer.reconnect

def startUp (reconnect : Bool) : BackendOpenTSDB α :=
  let s := { s with connected := reconnect }
  if reconnect then s
  else { s with timers := s.timers.askTimer .tmReconnect conf.reconnectTime (-1) }

def step (s : BackendOpenTSDB α) : OpenTSDBEvent α → BackendOpenTSDB α
  | .sensorInfo row first second => s.sensorInfo conf row first second
  | .timerInfo answer => s.timerInfo conf answer
  | .startUp reconnect => s.startUp conf reconnect
  | .checkTimer id => { s with timers := s.timers.checkTimer id }

def Busy : Prop := s.timerIsOn = true ∨ s.buf ≠ []

instance : Decidable s.Busy := inferInstanceAs (Decidable (_ ∨ _))

def NotStranded : Prop := s.buf ≠ [] → Awaited s.timers

instance : Decidable s.NotStranded := inferInstanceAs (Decidable (_ → _))

def Alive : Prop := s.Busy → Awaited s.timers

def TimerLeft (queue : List TimerId) : Prop := s.Busy → Awaited { s.timers with queue }

instance (queue : List TimerId) : Decidable (s.TimerLeft queue) :=
  inferInstanceAs (Decidable (_ → _))

/-- When the flush timer comes the buffer is empty, or a socket takes it or fails for good; when the
other one comes and connects the flush timer is pending.  Or else there is still a timer. -/
def Flushes : OpenTSDBEvent α → Prop
  | .timerInfo answer =>
    match s.timers.queue with
    | [] => True
    | .tmFlushBuffer :: queue => s.buf = [] ∨
        (s.connected = true ∧ (answer.sent = .done ∨ answer.sent = .lost ∨
          answer.sent = .ioException ∧ answer.reconnect = false)) ∨ s.TimerLeft queue
    | .tmReconnect :: queue =>
      if answer.reconnect then
        s.Busy → { s.timers with queue }.Pending .tmFlushBuffer ∨ .tmReconnect ∈ queue
      else s.TimerLeft queue
  | _ => True

def Answers : OpenTSDBEvent α → Prop
  | .sensorInfo _ first second => Answer.Good first ∧ Answer.Good second
  | .timerInfo answer => Answer.Good answer
  | .startUp reconnect => reconnect = true
  | .checkTimer _ => True

def Connects : OpenTSDBEvent α → Prop
  | .timerInfo answer =>
    s.timers.queue.head? = some .tmReconnect ∧ answer.reconnect = true
  | .startUp reconnect => reconnect = true
  | _ => False

variable {conf} {s}

theorem Alive.notStranded (h : s.Alive) : s.NotStranded := fun hbuf => h (.inr hbuf)

/-! ## Timers -/

theorem not_busy_clear (s : BackendOpenTSDB α) : ¬s.clear.Busy := by simp [Busy, clear]

theorem alive_of_not_busy (h : ¬s.Busy) : s.Alive := fun hbusy => absurd hbusy h

/-- A flush leaves nothing to do, or no timer is taken back. -/
theorem flushBuffer_cases (hreconnect : conf.reconnectTime ≠ 0) (s : BackendOpenTSDB α)
    (answer : Answer) :
    (∃ s', s.flushBuffer conf answer = (s', true) ∧ ¬s'.Busy) ∨
      ∃ s', s.flushBuffer conf answer = (s', false) ∧ (s.Alive → s'.Alive) := by
  unfold flushBuffer
  by_cases hempty : s.buf = []
  · rw [if_pos hempty]
    split_ifs with hon
    · exact .inl ⟨_, rfl, not_busy_clear s⟩
    · exact .inl ⟨_, rfl, by simp [Busy, hempty, hon]⟩
  rw [if_neg hempty]
  by_cases hdown : s.connected = false
  · exact .inr ⟨s, if_pos hdown, id⟩
  rw [if_neg hdown]
  cases answer.sent with
  | done => exact .inl ⟨_, rfl, not_busy_clear _⟩
  | lost => exact .inl ⟨_, rfl, not_busy_clear _⟩
  | broken => exact .inr ⟨_, rfl, id⟩
  | otherException => exact .inr ⟨_, rfl, id⟩
  | ioException =>
    dsimp only
    split_ifs
    · exact .inr ⟨_, rfl, id⟩
    · exact .inr ⟨_, rfl, fun h hbusy => (h hbusy).askTimer hreconnect (-1)⟩

theorem alive_pushBack (hsync : conf.bufSyncTime ≠ 0) (h : s.Alive) (row : α) :
    (s.pushBack conf row).Alive := by
  unfold pushBack
  dsimp only
  split_ifs with hon
  · exact fun _ => h (.inl hon)
  · exact fun _ => awaited_askTimer hsync 1

theorem alive_sensorInfo (hsync : conf.bufSyncTime ≠ 0) (hreconnect : conf.reconnectTime ≠ 0)
    (h : s.Alive) (row : α) (first second : Answer) :
    (s.sensorInfo conf row first second).Alive := by
  unfold sensorInfo
  split_ifs
  · rcases flushBuffer_cases hreconnect s first with ⟨s', hflush, hidle⟩ | ⟨s', hflush, hkeep⟩
    · rw [hflush]
      exact alive_pushBack hsync (alive_of_not_busy hidle) row
    · rw [hflush]
      dsimp only
      split_ifs
      · rcases flushBuffer_cases hreconnect s' second with
          ⟨s'', hflush', hidle⟩ | ⟨s'', hflush', hkeep'⟩
        · rw [hflush']
          exact alive_pushBack hsync (alive_of_not_busy hidle) row
        · rw [hflush']
          exact hkeep' (hkeep h)
      · exact alive_pushBack hsync (hkeep h) row
  · exact alive_pushBack hsync h row

theorem alive_flushBuffer (hreconnect : conf.reconnectTime ≠ 0) {answer : Answer}
    (h : s.buf = [] ∨ (s.connected = true ∧ (answer.sent = .done ∨ answer.sent = .lost ∨
      answer.sent = .ioException ∧ answer.reconnect = false)) ∨ s.Alive) :
    (s.flushBuffer conf answer).1.Alive := by
  rcases flushBuffer_cases hreconnect s answer with ⟨s', hflush, hidle⟩ | ⟨s', hflush, hkeep⟩
  · rw [hflush]
    exact alive_of_not_busy hidle
  rcases h with hempty | ⟨hup, hsent⟩ | halive
  · unfold flushBuffer at hflush
    rw [if_pos hempty] at hflush
    exact absurd (congrArg Prod.snd hflush) (by simp)
  · unfold flushBuffer
    rw [if_neg (fun hempty => ?_), if_neg (by simp [hup])]
    · rcases hsent with hsent | hsent | ⟨hsent, hfail⟩
      · rw [hsent]
        exact alive_of_not_busy (not_busy_clear _)
      · rw [hsent]
        exact alive_of_not_busy (not_busy_clear _)
      · rw [hsent, hfail]
        exact fun _ => awaited_askTimer hreconnect (-1)
    · unfold flushBuffer at hflush
      rw [if_pos hempty] at hflush
      exact absurd (congrArg Prod.snd hflush) (by simp)
  · rw [hflush]
    exact hkeep halive

theorem alive_step (hsync : conf.bufSyncTime ≠ 0) (hreconnect : conf.reconnectTime ≠ 0)
    (h : s.Alive) {event : OpenTSDBEvent α} (hflushes : s.Flushes event) :
    (s.step conf event).Alive := by
  cases event with
  | sensorInfo row first second => exact alive_sensorInfo hsync hreconnect h row first second
  | startUp reconnect =>
    change (s.startUp conf reconnect).Alive
    unfold startUp
    cases reconnect with
    | false => exact fun hbusy => (h hbusy).askTimer hreconnect (-1)
    | true => exact h
  | checkTimer id => exact fun hbusy => (h hbusy).checkTimer id
  | timerInfo answer =>
    change (s.timerInfo conf answer).Alive
    unfold Flushes at hflushes
    unfold timerInfo
    cases hqueue : s.timers.queue with
    | nil => exact h
    | cons id queue =>
      rw [hqueue] at hflushes
      cases id with
      | tmFlushBuffer => exact alive_flushBuffer hreconnect hflushes
      | tmReconnect =>
        dsimp only at hflushes ⊢
        unfold tmReconnect
        split_ifs at hflushes ⊢ with hok
        · refine fun hbusy => (hflushes hbusy).imp ?_ fun hmem => .inr ?_
          · exact (LTObject.pending_askTimer_of_ne (by decide) 0 (-1)).mpr
          · exact hmem
        · exact hflushes

theorem alive_init : (init : BackendOpenTSDB α).Alive :=
  fun hbusy => absurd hbusy (by simp [Busy, init])

/-! ## Rows -/

def Has (s : BackendOpenTSDB α) (row : α) : Prop := row ∈ s.stored ∨ row ∈ s.buf

def Keeps (kept : List α) (s : BackendOpenTSDB α) : Prop :=
  s.connected = true ∧ ∀ row ∈ kept, s.Has row

variable {kept : List α}

theorem Keeps.setTimers (h : s.Keeps kept) (timerIsOn : Bool) (timers : LTObject TimerId) :
    Keeps kept { s with timerIsOn, timers } := h

/-- A connected socket takes what there is. -/
theorem Keeps.flushBuffer (h : s.Keeps kept) {answer : Answer} (hgood : answer.Good) :
    ∃ s', s.flushBuffer conf answer = (s', true) ∧ s'.buf = [] ∧ s'.Keeps kept := by
  obtain ⟨hup, hhas⟩ := h
  unfold BackendOpenTSDB.flushBuffer
  by_cases hempty : s.buf = []
  · rw [if_pos hempty]
    split_ifs
    · exact ⟨_, rfl, rfl, hup, fun row hrow => .inl ((hhas row hrow).resolve_right (by simp [hempty]))⟩
    · exact ⟨_, rfl, hempty, hup, hhas⟩
  · rw [if_neg hempty, if_neg (by simp [hup]), hgood.1]
    exact ⟨_, rfl, rfl, hup, fun row hrow => .inl (List.mem_append.mpr (hhas row hrow))⟩

theorem Keeps.pushBack (h : s.Keeps kept) (row : α) : (s.pushBack conf row).Keeps kept := by
  have hadd : Keeps kept { s with buf := s.buf ++ [row] } :=
    ⟨h.1, fun row hrow => (h.2 row hrow).imp_right fun hmem => List.mem_append_left _ hmem⟩
  unfold BackendOpenTSDB.pushBack
  dsimp only
  split_ifs
  · exact hadd
  · exact hadd.setTimers _ _

theorem Keeps.step (h : s.Keeps kept) {event : OpenTSDBEvent α} (hanswers : Answers event) :
    (s.step conf event).Keeps kept := by
  cases event with
  | sensorInfo row first second =>
    change (s.sensorInfo conf row first second).Keeps kept
    unfold BackendOpenTSDB.sensorInfo
    split_ifs
    · obtain ⟨s', hflush, -, hkeeps⟩ := h.flushBuffer hanswers.1
      rw [hflush]
      exact hkeeps.pushBack row
    · exact h.pushBack row
  | startUp reconnect =>
    obtain rfl : reconnect = true := hanswers
    exact ⟨rfl, h.2⟩
  | checkTimer id => exact h.setTimers _ _
  | timerInfo answer =>
    change (s.timerInfo conf answer).Keeps kept
    unfold BackendOpenTSDB.timerInfo
    split
    · exact h
    · next queue hqueue =>
      have hpop : Keeps kept { s with timers.queue := queue } := h
      obtain ⟨s', hflush, -, hkeeps⟩ := hpop.flushBuffer hanswers
      rw [hflush]
      exact hkeeps
    · next queue hqueue =>
      unfold BackendOpenTSDB.tmReconnect
      rw [if_pos hanswers.2]
      exact ⟨hanswers.2, h.2⟩

theorem keeps_connects (h : ∀ row ∈ kept, s.Has row) {event : OpenTSDBEvent α}
    (hconnects : s.Connects event) : (s.step conf event).Keeps kept := by
  cases event with
  | sensorInfo _ _ _ => exact hconnects.elim
  | checkTimer _ => exact hconnects.elim
  | startUp reconnect =>
    obtain rfl : reconnect = true := hconnects
    exact ⟨rfl, h⟩
  | timerInfo answer =>
    obtain ⟨hhead, hok⟩ := hconnects
    change (s.timerInfo conf answer).Keeps kept
    unfold BackendOpenTSDB.timerInfo
    split
    · next hqueue => rw [hqueue] at hhead; cases hhead
    · next queue hqueue => rw [hqueue] at hhead; cases hhead
    · next queue hqueue =>
      unfold BackendOpenTSDB.tmReconnect
      rw [if_pos hok]
      exact ⟨hok, h⟩

theorem Keeps.run (h : s.Keeps kept) (events : List (OpenTSDBEvent α))
    (hanswers : ∀ event ∈ events, Answers event) :
    (events.foldl (BackendOpenTSDB.step conf) s).Keeps kept := by
  induction events generalizing s with
  | nil => exact h
  | cons event events ih =>
    rw [List.forall_mem_cons] at hanswers
    exact ih (h.step hanswers.1) hanswers.2

/-- The flush timer of a connected backend sends what it has. -/
theorem Keeps.written (h : s.Keeps kept) (hnext : s.timers.queue.head? = some .tmFlushBuffer)
    {answer : Answer} (hgood : answer.Good) :
    (s.step conf (.timerInfo answer)).buf = [] ∧
      ∀ row ∈ kept, row ∈ (s.step conf (.timerInfo answer)).stored := by
  change (s.timerInfo conf answer).buf = [] ∧ ∀ row ∈ kept, row ∈ (s.timerInfo conf answer).stored
  unfold BackendOpenTSDB.timerInfo
  split
  · next hqueue => rw [hqueue] at hnext; cases hnext
  · next queue hqueue =>
    have hpop : Keeps kept { s with timers.queue := queue } := h
    obtain ⟨s', hflush, hempty, -, hhas⟩ := hpop.flushBuffer hgood
    rw [hflush]
    exact ⟨hempty, fun row hrow => (hhas row hrow).resolve_right (by simp [hempty])⟩
  · next queue hqueue => rw [hqueue] at hnext; cases hnext

end BackendOpenTSDB

end Uniset.Backends

/-! What is in the buffers of the backends is looked at again, and written. -/

namespace Uniset.Backends

open Uniset.Lib

variable {α : Type}

namespace BackendClickHouse

instance (s : BackendClickHouse α) (event : ClickHouseEvent α) : Decidable (s.Flushes event) := by
  unfold Flushes
  split
  · split <;> infer_instance
  · infer_instance

/-- After a reconnect without further errors the flush timer writes the buffer. -/
def WritesNext (α : Type) (conf : Config) : Prop :=
  ∀ (s : BackendClickHouse α) (event : ClickHouseEvent α) (events : List (ClickHouseEvent α))
    (insert ping reconnect : Bool), s.Connects event → Answers event →
      (∀ event ∈ events, Answers event) →
        let t := events.foldl (step conf) (s.step conf event)
        t.timers.queue.head? = some .tmFlushBuffer →
          Answers (.timerInfo insert ping reconnect : ClickHouseEvent α) →
            let t' := t.step conf (.timerInfo insert ping reconnect)
            t'.rows = [] ∧ ∀ row ∈ s.rows, row ∈ t'.table

theorem writesNext (conf : Config) : WritesNext α conf := by
  intro s event events insert ping reconnect hconnects hanswers hall t hnext hlast
  have hkeeps : (s.step conf event).Keeps s.rows :=
    keeps_connects (fun _ hrow => .inr hrow) hconnects hanswers
  exact (hkeeps.run events hall).written hnext hlast

theorem notStranded_run {conf : Config} (hsync : conf.bufSyncTime ≠ 0)
    (hreconnect : conf.reconnectTime ≠ 0) {events : List (ClickHouseEvent α)}
    (h : Guarded (step conf) Flushes init events) :
    ∀ s ∈ List.scanl (step conf) init events, s.NotStranded := fun s hs =>
  (Guarded.forall_visited (I := Alive)
    (fun _ _ halive hflushes => alive_step hsync hreconnect halive hflushes)
    alive_init h s hs).notStranded

end BackendClickHouse

namespace BackendOpenTSDB

instance (s : BackendOpenTSDB α) (event : OpenTSDBEvent α) : Decidable (s.Flushes event) := by
  unfold Flushes
  split
  · split <;> infer_instance
  · infer_instance

def WritesNext (α : Type) (conf : Config) : Prop :=
  ∀ (s : BackendOpenTSDB α) (event : OpenTSDBEvent α) (events : List (OpenTSDBEvent α))
    (answer : Answer), s.Connects event → (∀ event ∈ events, Answers event) →
      let t := events.foldl (step conf) (s.step conf event)
      t.timers.queue.head? = some .tmFlushBuffer → answer.Good →
        let t' := t.step conf (.timerInfo answer)
        t'.buf = [] ∧ ∀ row ∈ s.buf, row ∈ t'.stored

theorem writesNext (conf : Config) : WritesNext α conf := by
  intro s event events answer hconnects hall t hnext hgood
  have hkeeps : (s.step conf event).Keeps s.buf :=
    keeps_connects (fun _ hrow => .inr hrow) hconnects
  exact (hkeeps.run events hall).written hnext hgood

theorem notStranded_run {conf : Config} (hsync : conf.bufSyncTime ≠ 0)
    (hreconnect : conf.reconnectTime ≠ 0) {events : List (OpenTSDBEvent α)}
    (h : Guarded (step conf) Flushes init events) :
    ∀ s ∈ List.scanl (step conf) init events, s.NotStranded := fun s hs =>
  (Guarded.forall_visited (I := Alive)
    (fun _ _ halive hflushes => alive_step hsync hreconnect halive hflushes)
    alive_init h s hs).notStranded

end BackendOpenTSDB

/-- No backend strands what it has buffered, as long as its timers come to something. -/
theorem never_stranded (conf : Config) (hsync : conf.bufSyncTime ≠ 0)
    (hreconnect : conf.reconnectTime ≠ 0) :
    ((∀ events : List (ClickHouseEvent α),
      Guarded (BackendClickHouse.step conf) BackendClickHouse.Flushes .init events →
        ∀ s ∈ List.scanl (BackendClickHouse.step conf) .init events, s.NotStranded) ∧
      BackendClickHouse.WritesNext α conf) ∧
    (∀ events : List (OpenTSDBEvent α),
      Guarded (BackendOpenTSDB.step conf) BackendOpenTSDB.Flushes .init events →
        ∀ s ∈ List.scanl (BackendOpenTSDB.step conf) .init events, s.NotStranded) ∧
      BackendOpenTSDB.WritesNext α conf :=
  ⟨⟨fun _ h => BackendClickHouse.notStranded_run hsync hreconnect h,
      BackendClickHouse.writesNext conf⟩,
    fun _ h => BackendOpenTSDB.notStranded_run hsync hreconnect h, BackendOpenTSDB.writesNext conf⟩

/-- The default times, with small buffers. -/
def small : Config := ⟨2, 4, 5000, 5000⟩

/-- The server is there, a row comes, and so does the flush timer. -/
def oneRow (insert : Bool) : List (ClickHouseEvent Nat) :=
  [.startUp true, .sensorInfo 7 true, .checkTimer .tmFlushBuffer, .timerInfo insert true true]

/-- The server comes while a row waits. -/
def lateServer (connects : Bool) : List (OpenTSDBEvent Nat) :=
  [.startUp false, .sensorInfo 7 ⟨.done, true⟩ ⟨.done, true⟩, .checkTimer .tmFlushBuffer,
    .timerInfo ⟨.done, true⟩, .checkTimer .tmReconnect, .timerInfo ⟨.done, connects⟩]

theorem never_stranded_small :
    (∀ s ∈ List.scanl (BackendClickHouse.step small) .init (oneRow true), s.NotStranded) ∧
      ∀ s ∈ List.scanl (BackendOpenTSDB.step small) .init (lateServer false), s.NotStranded :=
  ⟨(never_stranded small (by decide) (by decide)).1.1 (oneRow true)
      ⟨trivial, trivial, trivial, by decide, trivial⟩,
    (never_stranded small (by decide) (by decide)).2.1 (lateServer false)
      ⟨trivial, trivial, trivial, by decide, trivial, by decide, trivial⟩⟩

/-- An insert fails while the server answers, and a reconnect leaves the flush timer that has come
in vain. -/
theorem stranded :
    (¬∀ s ∈ List.scanl (BackendClickHouse.step small) .init (oneRow false), s.NotStranded) ∧
      ¬∀ s ∈ List.scanl (BackendOpenTSDB.step small) .init (lateServer true), s.NotStranded := by
  constructor
  · intro hall
    exact absurd (hall _ (foldl_mem_scanl ..)) (by decide)
  · intro hall
    exact absurd (hall _ (foldl_mem_scanl ..)) (by decide)

end Uniset.Backends
