import Uniset.Timers.LTObject
import Uniset.Lib.GuardedRun
import Mathlib.Data.List.Basic

/-! The backends of the databases: a buffer of rows, a timer that flushes it and one that connects
again.  First that of ClickHouse. -/

namespace Uniset.Backends

inductive TimerId
  | tmFlushBuffer
  | tmReconnect
  deriving DecidableEq

/-- A time of 0 is no time. -/
structure Config where
  bufSize : Nat
  bufMaxSize : Nat
  bufSyncTime : Nat
  reconnectTime : Nat

/-- One of the two timers is pending. -/
def Awaited (timers : LTObject TimerId) : Prop :=
  timers.Pending .tmFlushBuffer ∨ timers.Pending .tmReconnect

instance (timers : LTObject TimerId) : Decidable (Awaited timers) :=
  inferInstanceAs (Decidable (_ ∨ _))

theorem Awaited.askTimer {timers : LTObject TimerId} (h : Awaited timers) {id : TimerId}
    {timeMS : Nat} (hne : timeMS ≠ 0) (ticks : Int) : Awaited (timers.askTimer id timeMS ticks) :=
  h.imp (·.askTimer hne ticks) (·.askTimer hne ticks)

theorem awaited_askTimer {timers : LTObject TimerId} {id : TimerId} {timeMS : Nat}
    (hne : timeMS ≠ 0) (ticks : Int) : Awaited (timers.askTimer id timeMS ticks) := by
  cases id with
  | tmFlushBuffer => exact .inl (LTObject.pending_askTimer hne ticks)
  | tmReconnect => exact .inr (LTObject.pending_askTimer hne ticks)

theorem Awaited.checkTimer {timers : LTObject TimerId} (h : Awaited timers) (id : TimerId) :
    Awaited (timers.checkTimer id) := h.imp (·.checkTimer id) (·.checkTimer id)

variable {α : Type}

/-- `rows` are the columns, and `table` is what has been inserted. -/
structure BackendClickHouse (α : Type) where
  rows : List α
  table : List α
  connect_ok : Bool
  timerIsOn : Bool
  timers : LTObject TimerId

/-- The events, each with what the database answers to an insert, a ping and a reconnect. -/
inductive ClickHouseEvent (α : Type)
  | sensorInfo (row : α) (insert : Bool)
  | timerInfo (insert ping reconnect : Bool)
  | startUp (reconnect : Bool)
  | checkTimer (id : TimerId)

namespace BackendClickHouse

def init : BackendClickHouse α := ⟨[], [], false, false, .new⟩

variable (conf : Config) (s : BackendClickHouse α)

def flushBuffer (insert : Bool) : BackendClickHouse α × Bool :=
  if s.rows = [] ∨ s.connect_ok = false ∨ insert = false then (s, false)
  else ({ s with rows := [], table := s.table ++ s.rows }, true)

/-- The end of `sensorInfo`. -/
def startTimer : BackendClickHouse α :=
  if s.timerIsOn then s
  else { s with
    timerIsOn := true
    timers := s.timers.askTimer .tmFlushBuffer conf.bufSyncTime 1 }

/-- A buffer that is too large is lost. -/
def sensorInfo (row : α) (insert : Bool) : BackendClickHouse α :=
  let s := { s with rows := s.rows ++ [row] }
  if conf.bufSize ≤ s.rows.length then
    match s.flushBuffer insert with
    | (s, true) => s
    | (s, false) =>
      if conf.bufMaxSize ≤ s.rows.length then { s with rows := [] }.startTimer conf
      else s.startTimer conf
  else s.startTimer conf

def tmFlushBuffer (insert ping : Bool) : BackendClickHouse α :=
  match s.flushBuffer insert with
  | (s, true) => { s with timerIsOn := false }
  | (s, false) =>
    if ping then s
    else
      let timers := s.timers.askTimer .tmFlushBuffer 0 (-1)
      { s with
        timerIsOn := false
        timers := timers.askTimer .tmReconnect conf.reconnectTime (-1) }

def tmReconnect (insert reconnect : Bool) : BackendClickHouse α :=
  let s := { s with connect_ok := reconnect }
  if reconnect then
    let s := { s with timers := s.timers.askTimer .tmReconnect 0 (-1) }
    let s := (s.flushBuffer insert).1
    { s with
      timerIsOn := true
      timers := s.timers.askTimer .tmFlushBuffer conf.bufSyncTime 1 }
  else s

/-- The next message of a timer is taken. -/
def timerInfo (insert ping reconnect : Bool) : BackendClickHouse α :=
  match s.timers.queue with
  | [] => s
  | .tmFlushBuffer :: queue =>
    { s with timers.queue := queue }.tmFlushBuffer conf insert ping
  | .tmReconnect :: queue =>
    { s with timers.queue := queue }.tmReconnect conf insert reconnect

def startUp (reconnect : Bool) : BackendClickHouse α :=
  let s := { s with connect_ok := reconnect }
  if reconnect then s
  else { s with timers := s.timers.askTimer .tmReconnect conf.reconnectTime (-1) }

def step (s : BackendClickHouse α) : ClickHouseEvent α → BackendClickHouse α
  | .sensorInfo row insert => s.sensorInfo conf row insert
  | .timerInfo insert ping reconnect => s.timerInfo conf insert ping reconnect
  | .startUp reconnect => s.startUp conf reconnect
  | .checkTimer id => { s with timers := s.timers.checkTimer id }

/-- There are rows, or the flush timer is thought to be on. -/
def Busy : Prop := s.timerIsOn = true ∨ s.rows ≠ []

instance : Decidable s.Busy := inferInstanceAs (Decidable (_ ∨ _))

/-- Rows that are in the buffer will be looked at. -/
def NotStranded : Prop := s.rows ≠ [] → Awaited s.timers

instance : Decidable s.NotStranded := inferInstanceAs (Decidable (_ → _))

/-- A busy backend has a timer. -/
def Alive : Prop := s.Busy → Awaited s.timers

/-- The state of a busy backend has a timer left when the message is taken. -/
def TimerLeft (queue : List TimerId) : Prop := s.Busy → Awaited { s.timers with queue }

instance (queue : List TimerId) : Decidable (s.TimerLeft queue) :=
  inferInstanceAs (Decidable (_ → _))

/-- When the flush timer comes the rows are written, or the database does not answer; when the other
one comes it connects.  Or else there is still a timer. -/
def Flushes : ClickHouseEvent α → Prop
  | .timerInfo insert ping reconnect =>
    match s.timers.queue with
    | [] => True
    | .tmFlushBuffer :: queue =>
      (s.rows ≠ [] ∧ s.connect_ok = true ∧ insert = true) ∨ ping = false ∨ s.TimerLeft queue
    | .tmReconnect :: queue => reconnect = true ∨ s.TimerLeft queue
  | _ => True

/-- The database does what it is asked for. -/
def Answers : ClickHouseEvent α → Prop
  | .sensorInfo _ insert => insert = true
  | .timerInfo insert _ reconnect => insert = true ∧ reconnect = true
  | .startUp reconnect => reconnect = true
  | .checkTimer _ => True

/-- The backend has connected. -/
def Connects : ClickHouseEvent α → Prop
  | .timerInfo _ _ reconnect => s.timers.queue.head? = some .tmReconnect ∧ reconnect = true
  | .startUp reconnect => reconnect = true
  | _ => False

variable {conf} {s}

theorem Alive.notStranded (h : s.Alive) : s.NotStranded := fun hrows => h (.inr hrows)

/-! ## Timers -/

theorem alive_startTimer (hsync : conf.bufSyncTime ≠ 0)
    (h : s.timerIsOn = true → Awaited s.timers) : (s.startTimer conf).Alive := by
  unfold startTimer
  by_cases hon : s.timerIsOn = true
  · rw [if_pos hon]
    exact fun _ => h hon
  · rw [if_neg hon]
    exact fun _ => awaited_askTimer hsync 1

/-- A flush writes the rows, or leaves all as it is. -/
theorem flushBuffer_cases (s : BackendClickHouse α) (insert : Bool) :
    ((s.rows = [] ∨ s.connect_ok = false ∨ insert = false) ∧ s.flushBuffer insert = (s, false)) ∨
      ((s.rows ≠ [] ∧ s.connect_ok = true ∧ insert = true) ∧ s.flushBuffer insert =
        ({ s with rows := [], table := s.table ++ s.rows }, true)) := by
  unfold flushBuffer
  by_cases hfail : s.rows = [] ∨ s.connect_ok = false ∨ insert = false
  · exact .inl ⟨hfail, if_pos hfail⟩
  · refine .inr ⟨?_, if_neg hfail⟩
    simpa [not_or] using hfail

theorem alive_sensorInfo (hsync : conf.bufSyncTime ≠ 0) (h : s.Alive) (row : α) (insert : Bool) :
    (s.sensorInfo conf row insert).Alive := by
  have hon : s.timerIsOn = true → Awaited s.timers := fun hon => h (.inl hon)
  unfold sensorInfo
  dsimp only
  rcases flushBuffer_cases { s with rows := s.rows ++ [row] } insert with
    ⟨-, hflush⟩ | ⟨-, hflush⟩
  · rw [hflush]
    dsimp only
    split_ifs
    · exact alive_startTimer hsync hon
    · exact alive_startTimer hsync hon
    · exact alive_startTimer hsync hon
  · rw [hflush]
    dsimp only
    split_ifs
    · exact fun hbusy => hon (hbusy.resolve_right (· rfl))
    · exact alive_startTimer hsync hon

theorem alive_tmFlushBuffer (hreconnect : conf.reconnectTime ≠ 0) {insert ping : Bool}
    (h : (s.rows ≠ [] ∧ s.connect_ok = true ∧ insert = true) ∨ ping = false ∨ s.Alive) :
    (s.tmFlushBuffer conf insert ping).Alive := by
  unfold tmFlushBuffer
  rcases flushBuffer_cases s insert with ⟨hfail, hflush⟩ | ⟨-, hflush⟩
  · rw [hflush]
    dsimp only
    cases hping : ping with
    | false => exact fun _ => awaited_askTimer hreconnect (-1)
    | true =>
      rcases h with ⟨hrows, hconnect, hinsert⟩ | hdead | halive
      · rcases hfail with hempty | hdown | hrefused
        · exact absurd hempty hrows
        · exact absurd (hconnect.symm.trans hdown) Bool.noConfusion
        · exact absurd (hinsert.symm.trans hrefused) Bool.noConfusion
      · exact absurd (hping.symm.trans hdead) Bool.noConfusion
      · exact halive
  · rw [hflush]
    exact fun hbusy => absurd hbusy (by simp [Busy])

theorem alive_tmReconnect (hsync : conf.bufSyncTime ≠ 0) {insert reconnect : Bool}
    (h : reconnect = true ∨ s.Alive) : (s.tmReconnect conf insert reconnect).Alive := by
  unfold tmReconnect
  cases reconnect with
  | false => exact h.resolve_left Bool.false_ne_true
  | true => exact fun _ => awaited_askTimer hsync 1

theorem alive_step (hsync : conf.bufSyncTime ≠ 0) (hreconnect : conf.reconnectTime ≠ 0)
    (h : s.Alive) {event : ClickHouseEvent α} (hflushes : s.Flushes event) :
    (s.step conf event).Alive := by
  cases event with
  | sensorInfo row insert => exact alive_sensorInfo hsync h row insert
  | startUp reconnect =>
    change (s.startUp conf reconnect).Alive
    unfold startUp
    cases reconnect with
    | false => exact fun hbusy => (h hbusy).askTimer hreconnect (-1)
    | true => exact h
  | checkTimer id => exact fun hbusy => (h hbusy).checkTimer id
  | timerInfo insert ping reconnect =>
    change (s.timerInfo conf insert ping reconnect).Alive
    unfold Flushes at hflushes
    unfold timerInfo
    cases hqueue : s.timers.queue with
    | nil => exact h
    | cons id queue =>
      rw [hqueue] at hflushes
      cases id with
      | tmFlushBuffer => exact alive_tmFlushBuffer hreconnect hflushes
      | tmReconnect => exact alive_tmReconnect hsync hflushes

theorem alive_init : (init : BackendClickHouse α).Alive := fun hbusy => absurd hbusy (by simp [Busy, init])

/-! ## Rows -/

/-- The row has been inserted, or is in the buffer. -/
def Has (s : BackendClickHouse α) (row : α) : Prop := row ∈ s.table ∨ row ∈ s.rows

/-- A connected backend that has the rows. -/
def Keeps (kept : List α) (s : BackendClickHouse α) : Prop :=
  s.connect_ok = true ∧ ∀ row ∈ kept, s.Has row

variable {kept : List α}

theorem Keeps.setTimers (h : s.Keeps kept) (timerIsOn : Bool) (timers : LTObject TimerId) :
    Keeps kept { s with timerIsOn, timers } := h

theorem Keeps.flush (h : s.Keeps kept) :
    Keeps kept { s with rows := [], table := s.table ++ s.rows } :=
  ⟨h.1, fun row hrow => .inl (List.mem_append.mpr (h.2 row hrow))⟩

theorem Keeps.startTimer (h : s.Keeps kept) : (s.startTimer conf).Keeps kept := by
  unfold BackendClickHouse.startTimer
  split_ifs
  · exact h
  · exact h.setTimers _ _

/-- The database takes the rows, if there are any. -/
theorem flushBuffer_connected (hconnect : s.connect_ok = true) (hrows : s.rows ≠ []) :
    s.flushBuffer true = ({ s with rows := [], table := s.table ++ s.rows }, true) := by
  unfold flushBuffer
  rw [if_neg (by simp [hrows, hconnect])]

theorem Keeps.sensorInfo (h : s.Keeps kept) (row : α) :
    (s.sensorInfo conf row true).Keeps kept := by
  have hadd : Keeps kept { s with rows := s.rows ++ [row] } :=
    ⟨h.1, fun row hrow => (h.2 row hrow).imp_right fun hmem => List.mem_append_left _ hmem⟩
  have hflush := @flushBuffer_connected _ { s with rows := s.rows ++ [row] } h.1 (by simp)
  unfold BackendClickHouse.sensorInfo
  dsimp only
  rw [hflush]
  dsimp only
  split_ifs
  · exact hadd.flush
  · exact hadd.startTimer

theorem Keeps.tmFlushBuffer (h : s.Keeps kept) (ping : Bool) :
    (s.tmFlushBuffer conf true ping).Keeps kept := by
  unfold BackendClickHouse.tmFlushBuffer
  rcases flushBuffer_cases s true with ⟨-, hflush⟩ | ⟨-, hflush⟩
  · rw [hflush]
    dsimp only
    split_ifs
    · exact h
    · exact h.setTimers _ _
  · rw [hflush]
    exact h.flush.setTimers _ _

theorem keeps_tmReconnect (h : ∀ row ∈ kept, s.Has row) :
    (s.tmReconnect conf true true).Keeps kept := by
  unfold BackendClickHouse.tmReconnect
  rw [if_pos rfl]
  dsimp only
  have hup : Keeps kept { s with
      connect_ok := true, timers := s.timers.askTimer .tmReconnect 0 (-1) } := ⟨rfl, h⟩
  rcases flushBuffer_cases { s with
      connect_ok := true, timers := s.timers.askTimer .tmReconnect 0 (-1) } true with
    ⟨-, hflush⟩ | ⟨-, hflush⟩
  · rw [hflush]
    exact hup.setTimers _ _
  · rw [hflush]
    exact hup.flush.setTimers _ _

theorem Keeps.step (h : s.Keeps kept) {event : ClickHouseEvent α} (hanswers : Answers event) :
    (s.step conf event).Keeps kept := by
  cases event with
  | sensorInfo row insert =>
    obtain rfl : insert = true := hanswers
    exact h.sensorInfo row
  | startUp reconnect =>
    obtain rfl : reconnect = true := hanswers
    exact ⟨rfl, h.2⟩
  | checkTimer id => exact h.setTimers _ _
  | timerInfo insert ping reconnect =>
    obtain ⟨rfl, rfl⟩ : insert = true ∧ reconnect = true := hanswers
    change (s.timerInfo conf true ping true).Keeps kept
    unfold BackendClickHouse.timerInfo
    split
    · exact h
    · next queue hqueue => exact (h.setTimers s.timerIsOn { s.timers with queue }).tmFlushBuffer ping
    · next queue hqueue =>
      exact keeps_tmReconnect (h.setTimers s.timerIsOn { s.timers with queue }).2

theorem keeps_connects (h : ∀ row ∈ kept, s.Has row) {event : ClickHouseEvent α}
    (hconnects : s.Connects event) (hanswers : Answers event) : (s.step conf event).Keeps kept := by
  cases event with
  | sensorInfo _ _ => exact hconnects.elim
  | checkTimer _ => exact hconnects.elim
  | startUp reconnect =>
    obtain rfl : reconnect = true := hanswers
    exact ⟨rfl, h⟩
  | timerInfo insert ping reconnect =>
    obtain ⟨rfl, rfl⟩ : insert = true ∧ reconnect = true := hanswers
    obtain ⟨hhead, -⟩ := hconnects
    change (s.timerInfo conf true ping true).Keeps kept
    unfold BackendClickHouse.timerInfo
    split
    · next hqueue => rw [hqueue] at hhead; cases hhead
    · next queue hqueue => rw [hqueue] at hhead; cases hhead
    · next queue hqueue => exact @keeps_tmReconnect _ _ { s with timers.queue := queue } _ h

theorem Keeps.run (h : s.Keeps kept) (events : List (ClickHouseEvent α))
    (hanswers : ∀ event ∈ events, Answers event) :
    (events.foldl (BackendClickHouse.step conf) s).Keeps kept := by
  induction events generalizing s with
  | nil => exact h
  | cons event events ih =>
    rw [List.forall_mem_cons] at hanswers
    exact ih (h.step hanswers.1) hanswers.2

theorem Keeps.flushed (h : s.Keeps kept) (ping : Bool) :
    (s.tmFlushBuffer conf true ping).rows = [] ∧
      ∀ row ∈ kept, row ∈ (s.tmFlushBuffer conf true ping).table := by
  unfold BackendClickHouse.tmFlushBuffer
  by_cases hrows : s.rows = []
  · have hflush : s.flushBuffer true = (s, false) := if_pos (.inl hrows)
    have htable : ∀ row ∈ kept, row ∈ s.table :=
      fun row hrow => (h.2 row hrow).resolve_right (by simp [hrows])
    rw [hflush]
    dsimp only
    split_ifs <;> exact ⟨hrows, htable⟩
  · rw [flushBuffer_connected h.1 hrows]
    exact ⟨rfl, fun row hrow => List.mem_append.mpr (h.2 row hrow)⟩

/-- The flush timer of a connected backend writes what it has. -/
theorem Keeps.written (h : s.Keeps kept) (hnext : s.timers.queue.head? = some .tmFlushBuffer)
    {insert ping reconnect : Bool}
    (hanswers : Answers (.timerInfo insert ping reconnect : ClickHouseEvent α)) :
    (s.step conf (.timerInfo insert ping reconnect)).rows = [] ∧
      ∀ row ∈ kept, row ∈ (s.step conf (.timerInfo insert ping reconnect)).table := by
  obtain ⟨rfl, rfl⟩ : insert = true ∧ reconnect = true := hanswers
  change (s.timerInfo conf true ping true).rows = [] ∧
    ∀ row ∈ kept, row ∈ (s.timerInfo conf true ping true).table
  unfold BackendClickHouse.timerInfo
  split
  · next hqueue => rw [hqueue] at hnext; cases hnext
  · next queue hqueue => exact (h.setTimers s.timerIsOn { s.timers with queue }).flushed ping
  · next queue hqueue => rw [hqueue] at hnext; cases hnext

end BackendClickHouse

end Uniset.Backends
