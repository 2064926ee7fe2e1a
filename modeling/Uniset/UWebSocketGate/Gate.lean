import Uniset.Core
import Uniset.Various.MQAtomic

/-! The gate between `SharedMemory` and the websocket sessions: one subscription for a sensor, one
thread for the commands and the messages, and sessions that come and go. -/

namespace Uniset.UWebSocketGate

open Uniset.Various

/-- `num` numbers what `SharedMemory` has sent. -/
structure SensorMessage where
  id : ObjectId
  value : Int
  num : Nat
  deriving DecidableEq

inductive Command
  | ask (id : ObjectId)
  | del (id : ObjectId)
  | set (id : ObjectId) (value : Int)
  | get (id : ObjectId)
  deriving DecidableEq

def Command.id : Command → ObjectId
  | .ask id => id
  | .del id => id
  | .set id _ => id
  | .get id => id

inductive JsonType
  | Error
  | SensorInfo
  | ShortSensorInfo
  deriving DecidableEq

/-- What is queued for a client. -/
inductive Json
  | error
  | sensorInfo (sm : SensorMessage)
  | response (id : ObjectId)
  | shortResponse (id : ObjectId) (value : Int)
  deriving DecidableEq

def Json.type : Json → JsonType
  | .error => .Error
  | .sensorInfo _ => .SensorInfo
  | .response _ => .SensorInfo
  | .shortResponse _ _ => .ShortSensorInfo

def Kbuf : Nat := 10

/-- `borrowObject` says whether a pool gives an object when so many are lent. -/
structure Config where
  maxwsocks : Nat
  maxsend : Nat
  maxcmd : Nat
  borrowObject : Nat → Bool
  queueSize : QueueSize
  lostStrategy : LostStrategy

def Config.maxsize (conf : Config) : Nat := conf.maxsend * Kbuf

structure UWebSocket where
  smap : ObjectId → Bool
  qcmd : List Command
  jbuf : List Json
  cancelled : Bool

namespace UWebSocket

def new (qcmd : List Command) : UWebSocket := ⟨fun _ => false, qcmd, [], false⟩

variable (conf : Config) (ws : UWebSocket)

def lent (type : JsonType) : Nat := ws.jbuf.countP fun json => json.type = type

/-- It throws where the pool has no object. -/
def put (json : Json) : Option UWebSocket :=
  if conf.maxsize < ws.jbuf.length then some ws
  else if conf.borrowObject (ws.lent json.type) then some { ws with jbuf := ws.jbuf ++ [json] }
  else none

def sensorInfo (sm : SensorMessage) : Option UWebSocket :=
  if ws.cancelled then some ws
  else if ws.smap sm.id then ws.put conf (.sensorInfo sm)
  else some ws

end UWebSocket

/-- Where the thread of the gate is: waiting, with the commands of a session that it has copied,
or with a message and the sessions that it has still to be told to.  `empty` says whether there was
no session when it copied them. -/
inductive Loop
  | wait
  | doCommand (i : Nat) (commands : List Command)
  | sensorInfo (sm : SensorMessage) (sessions : List Nat) (empty : Bool)

def Loop.isWait : Loop → Bool
  | .wait => true
  | _ => false

/-- `value`, `asked` and `sent` are of `SharedMemory`.  A session that has left `wsocks` may still
be in a copy. -/
structure Gate where
  value : ObjectId → Int
  asked : ObjectId → Bool
  sent : Nat
  mqueue : MQMutex SensorMessage
  session : Nat → UWebSocket
  created : Nat
  wsocks : List Nat
  loop : Loop

/-- `ok` says that `SharedMemory` has not thrown. -/
inductive GateStep
  | changed (id : ObjectId) (value : Int)
  | newWebSocket (idlist : List ObjectId)
  | delWebSocket (i : Nat)
  | onCommand (i : Nat) (commands : List Command)
  | sendError (i : Nat)
  | send (i : Nat)
  | term (i : Nat)
  | doCommand (i : Nat)
  | command (ok : Bool)
  | receiveMessage
  | deliver
  | finish (ok : Bool)

namespace Gate

variable (conf : Config)

def init (value : ObjectId → Int) : Gate where
  value
  asked := fun _ => false
  sent := 0
  mqueue := .new conf.queueSize conf.lostStrategy
  session := fun _ => .new []
  created := 0
  wsocks := []
  loop := .wait

variable (s : Gate)

def push (id : ObjectId) (value : Int) : Gate :=
  { s with mqueue := s.mqueue.push ⟨id, value, s.sent⟩, sent := s.sent + 1 }

def write (id : ObjectId) (value : Int) : Gate :=
  { s with value := Function.update s.value id value }

/-- A change of a sensor goes to those who have asked for it. -/
def setValue (id : ObjectId) (value : Int) : Gate :=
  if s.value id = value then s
  else if s.asked id then (s.write id value).push id value
  else s.write id value

/-- The sensor's value goes to the one that asks. -/
def askSensor (id : ObjectId) : Gate :=
  { s with asked := Function.update s.asked id true }.push id (s.value id)

def dontNotify (id : ObjectId) : Gate :=
  { s with asked := Function.update s.asked id false }

def setSession (i : Nat) (ws : UWebSocket) : Gate :=
  { s with session := Function.update s.session i ws }

def setMap (i : Nat) (id : ObjectId) (b : Bool) : Gate :=
  let ws := s.session i
  s.setSession i { ws with smap := Function.update ws.smap id b }

/-- The answer to a command that has failed. -/
def sendResponse (i : Nat) (id : ObjectId) : Option Gate :=
  ((s.session i).put conf (.response id)).map (s.setSession i)

def carryOut (i : Nat) (command : Command) (ok : Bool) : Option Gate :=
  if ok then
    match command with
    | .ask id => some ((s.askSensor id).setMap i id true)
    | .del id => some ((s.dontNotify id).setMap i id false)
    | .set id value => some (s.setValue id value)
    | .get id =>
      match (s.session i).put conf (.shortResponse id (s.value id)) with
      | some ws => some (s.setSession i ws)
      | none => s.sendResponse conf i id
  else s.sendResponse conf i command.id

def newWebSocket (idlist : List ObjectId) : Gate :=
  if conf.maxwsocks ≤ s.wsocks.length then s
  else { s with
    session := Function.update s.session s.created (.new (idlist.map .ask))
    created := s.created + 1
    wsocks := s.wsocks ++ [s.created] }

/-- It comes when the session has been closed. -/
def delWebSocket (i : Nat) : Gate :=
  if (s.session i).cancelled then { s with wsocks := s.wsocks.erase i } else s

/-- The thread has nothing at hand, and the session is there. -/
def Free (i : Nat) : Prop := s.loop.isWait = true ∧ i ∈ s.wsocks

instance (i : Nat) : Decidable (s.Free i) := inferInstanceAs (Decidable (_ ∧ _))

def onCommand (i : Nat) (commands : List Command) : Gate :=
  let ws := s.session i
  if s.Free i ∧ ws.cancelled = false then
    s.setSession i { ws with qcmd := ws.qcmd ++ commands }
  else s

def sendError (i : Nat) : Gate :=
  if s.Free i then (((s.session i).put conf .error).map (s.setSession i)).getD s else s

def send (i : Nat) : Gate :=
  if s.Free i then s.setSession i { s.session i with jbuf := [] } else s

def term (i : Nat) : Gate :=
  if s.Free i then s.setSession i { s.session i with cancelled := true } else s

def doCommand (i : Nat) : Gate :=
  let ws := s.session i
  if s.Free i then
    { s.setSession i { ws with qcmd := ws.qcmd.drop conf.maxcmd } with
      loop := .doCommand i (ws.qcmd.take conf.maxcmd) }
  else s

/-- The next command of the copy.  One that throws ends the work on them. -/
def command (ok : Bool) : Gate :=
  match s.loop with
  | .doCommand _ [] => { s with loop := .wait }
  | .doCommand i (command :: commands) =>
    match s.carryOut conf i command ok with
    | some s => { s with loop := .doCommand i commands }
    | none => { s with loop := .wait }
  | _ => s

def receiveMessage : Gate :=
  match s.loop, s.mqueue.top with
  | .wait, (mqueue, some sm) =>
    { s with mqueue, loop := .sensorInfo sm s.wsocks s.wsocks.isEmpty }
  | _, _ => s

/-- The next session of the copy.  One that throws ends the work on the message. -/
def deliver : Gate :=
  match s.loop with
  | .sensorInfo sm (i :: sessions) empty =>
    match (s.session i).sensorInfo conf sm with
    | some ws => { s.setSession i ws with loop := .sensorInfo sm sessions empty }
    | none => { s with loop := .wait }
  | _ => s

/-- Without any session the sensor is not needed. -/
def finish (ok : Bool) : Gate :=
  match s.loop with
  | .sensorInfo sm [] empty =>
    if empty ∧ ok then { s.dontNotify sm.id with loop := .wait } else { s with loop := .wait }
  | _ => s

def step (s : Gate) : GateStep → Gate
  | .changed id value => s.setValue id value
  | .newWebSocket idlist => s.newWebSocket conf idlist
  | .delWebSocket i => s.delWebSocket i
  | .onCommand i commands => s.onCommand i commands
  | .sendError i => s.sendError conf i
  | .send i => s.send i
  | .term i => s.term i
  | .doCommand i => s.doCommand conf i
  | .command ok => s.command conf ok
  | .receiveMessage => s.receiveMessage
  | .deliver => s.deliver conf
  | .finish ok => s.finish ok

end Gate

end Uniset.UWebSocketGate
