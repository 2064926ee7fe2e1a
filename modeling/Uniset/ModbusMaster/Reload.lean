import Mathlib.Data.List.Sort
import Uniset.Core
import Uniset.Modbus.ModbusMessage
import Uniset.Various.UniXML

/-! The configuration of a running exchange is read anew.  The settings of the channels are put in
their places before it is known whether the list of channels is good. -/

namespace Uniset.ModbusMaster.Reload

open Uniset.Modbus

mutual

/-- The first node of a name, by way of the children of a node and then of the nodes that follow
it. -/
def findX (searchnode : String) : List XmlNode → Option XmlNode
  | [] => none
  | n :: next =>
    match findWithin searchnode n with
    | some found => some found
    | none => findX searchnode next

def findWithin (searchnode : String) : XmlNode → Option XmlNode
  | .node name xinclude props children =>
    if searchnode = name then some (.node name xinclude props children)
    else findX searchnode children

end

def getIntProp (n : XmlNode) (name : String) : Int := uni_atoi (n.getProp name)

def getPIntProp (n : XmlNode) (name : String) (defval : Int) : Int :=
  if n.getProp name = "" then defval else uni_atoi (n.getProp name)

/-- The value behind the first argument of this name. -/
def getArgParam (name defval : String) : List String → String
  | a :: b :: argv => if name = a then b else getArgParam name defval (b :: argv)
  | _ => defval

/-- What is not read anew: the arguments after the name of the program, and the sensors that are
known by name. -/
structure Process where
  myname : String
  argv : List String
  getSensorID : String → ObjectId

def Process.getArgPInt (proc : Process) (name strdefval : String) (defval : Int) : Int :=
  let param := getArgParam name strdefval proc.argv
  if param = "" ∧ strdefval = "" then defval else uni_atoi param

structure MBConfig where
  argPrefix : String
  recv_timeout : Int
  aftersend_pause : Int
  sleepPause_msec : Int
  devices : List ModbusAddr
  deriving DecidableEq

/-- A channel, with its place in memory. -/
structure MBSlaveInfo where
  address : Nat
  ip : String
  port : Int
  respond_id : ObjectId
  priority : Int
  ptIgnoreTimeout : Int
  recv_timeout : Int
  aftersend_pause : Int
  sleepPause_usec : Int
  respond_invert : Bool
  respond_force : Bool
  checkFunc : Int
  checkAddr : ModbusAddr
  checkReg : ModbusData
  channel_timeout : Int
  force_disconnect : Bool
  myname : String
  use : Bool
  deriving DecidableEq

/-- Where a backward iterator stands: it holds the element behind its own one, or the end of the
list.  What it holds can be destroyed. -/
inductive Cursor
  | node (i : Nat)
  | last
  | gone
  deriving DecidableEq

/-- All elements of the list are destroyed. -/
def Cursor.clear : Cursor → Cursor
  | .node _ => .gone
  | c => c

structure MBTCPMultiMaster where
  mbconf : MBConfig
  mblist : List MBSlaveInfo
  mbi : Cursor
  checktime : Int
  force_disconnect : Bool
  defaultIgnoreTimeout : Int
  channelTimeout : Int
  ptReopen : Int

/-- Where new channels are put in memory: no channel that is there has such a place. -/
structure Heap (s : MBTCPMultiMaster) where
  address : Nat → Nat
  fresh : ∀ i, ∀ m ∈ s.mblist, m.address ≠ address i

/-- The function by which a channel is checked, as the settings of the exchange have it. -/
def checkFunc (proc : Process) (mconf : MBConfig) (it : XmlNode) : Int :=
  proc.getArgPInt ("--" ++ mconf.argPrefix ++ "-check-func") (it.getProp "checkFunc") 0

/-- What is wrong with an item of the list. -/
def gateError (proc : Process) (mconf : MBConfig) (it it1 : XmlNode) : Option String :=
  let init := proc.myname ++ "(init): "
  let ip := it1.getProp "ip"
  let port := getIntProp it1 "port"
  let respond := it1.getProp "respondSensor"
  let fn := checkFunc proc mconf it
  if ip = "" then some (init ++ "ip='' in <GateList>")
  else if port ≤ 0 then
    some (init ++ "ERROR: port=''" ++ toString port ++ " for ip='" ++ ip ++ "' in <GateList>")
  else if respond ≠ "" ∧ proc.getSensorID respond = DefaultObjectId then
    some (init ++ "ERROR: Unknown SensorID for '" ++ respond ++ "' in <GateList>")
  else if fn ∉ [0, 1, 2, 3, 4] then
    some (init ++ " BAD check function ='" ++ toString fn ++ "'. Must be [1,2,3,4]")
  else none

def makeGate (proc : Process) (mconf : MBConfig) (it : XmlNode) (s : MBTCPMultiMaster) (it1 : XmlNode)
    (address : Nat) : MBSlaveInfo :=
  let ip := it1.getProp "ip"
  let port := getIntProp it1 "port"
  let respond := it1.getProp "respondSensor"
  let tout := getPIntProp it1 "timeout" s.channelTimeout
  { address := address
    ip := ip
    port := port
    respond_id := if respond ≠ "" then proc.getSensorID respond else DefaultObjectId
    priority := getIntProp it1 "priority"
    ptIgnoreTimeout := getPIntProp it1 "ignoreTimeout" s.defaultIgnoreTimeout
    recv_timeout := getPIntProp it1 "recv_timeout" mconf.recv_timeout
    aftersend_pause := getPIntProp it1 "aftersendPause" mconf.aftersend_pause
    sleepPause_usec := getPIntProp it1 "sleepPause_msec" mconf.sleepPause_msec
    respond_invert := decide (getPIntProp it1 "invert" 0 ≠ 0)
    respond_force := decide (getPIntProp it1 "force" 0 ≠ 0)
    checkFunc := checkFunc proc mconf it
    checkAddr := UInt8.ofInt
      (proc.getArgPInt ("--" ++ mconf.argPrefix ++ "-check-addr") (it.getProp "checkAddr") 0)
    checkReg := UInt16.ofInt
      (proc.getArgPInt ("--" ++ mconf.argPrefix ++ "-check-reg") (it.getProp "checkReg") 0)
    channel_timeout := if 0 ≤ tout then tout else s.channelTimeout
    force_disconnect := decide
      (getPIntProp it "persistent_connection" (if s.force_disconnect then 0 else 1) = 0)
    myname := ip ++ ":" ++ toString port
    use := false }

def Ignored (it1 : XmlNode) : Prop := getIntProp it1 "ignore" ≠ 0

instance (it1 : XmlNode) : Decidable (Ignored it1) := inferInstanceAs (Decidable (_ ≠ _))

/-- The channel of an item of the list, or nothing if it is to be ignored. -/
def initGate (proc : Process) (mconf : MBConfig) (it : XmlNode) (s : MBTCPMultiMaster) (it1 : XmlNode)
    (address : Nat) : Except String (Option MBSlaveInfo) :=
  if Ignored it1 then .ok none
  else
    match gateError proc mconf it it1 with
    | some e => .error e
    | none => .ok (some (makeGate proc mconf it s it1 address))

/-- The loop over the items. -/
def addGates (proc : Process) (mconf : MBConfig) (it : XmlNode) (address : Nat → Nat) :
    List XmlNode → MBTCPMultiMaster → MBTCPMultiMaster × Except String Unit
  | [], s => (s, .ok ())
  | it1 :: items, s =>
    match initGate proc mconf it s it1 (address s.mblist.length) with
    | .error e => (s, .error e)
    | .ok none => addGates proc mconf it address items s
    | .ok (some m) => addGates proc mconf it address items { s with mblist := s.mblist ++ [m] }

/-- The list is one of pointers, and these are what is compared. -/
def sortGates (mblist : List MBSlaveInfo) : List MBSlaveInfo :=
  mblist.insertionSort fun a b => a.address ≤ b.address

/-- `setUse` of the channel that `mblist.rbegin()` is at. -/
def useLast (mblist : List MBSlaveInfo) : List MBSlaveInfo :=
  mblist.modify (mblist.length - 1) fun m => { m with use := true }

/-- `it` is a node, and `next` are the nodes behind it. -/
def initGateList (proc : Process) (mconf : MBConfig) (it : XmlNode) (next : List XmlNode)
    (address : Nat → Nat) (s : MBTCPMultiMaster) : MBTCPMultiMaster × Except String Unit :=
  match findX "GateList" (it :: next) with
  | none => (s, .error (proc.myname ++ "(init): not found <GateList>"))
  | some g =>
    match g.goChildren with
    | none => (s, .error (proc.myname ++ "(init): empty <GateList> ?!"))
    | some items =>
      match addGates proc mconf it address items s with
      | (s, .error e) => (s, .error e)
      | (s, .ok ()) =>
        if s.mblist = [] then (s, .error (proc.myname ++ "(init): empty <GateList>!"))
        else ({ s with mblist := useLast (sortGates s.mblist), mbi := .last }, .ok ())

/-- The settings that are put in their places at once. -/
def applySettings (it : XmlNode) (s : MBTCPMultiMaster) : MBTCPMultiMaster :=
  let newChecktime := getIntProp it "checktime"
  let newIgnoreTimeout := getIntProp it "ignoreTimeout"
  let newChannelTimeout := getIntProp it "channelTimeout"
  { s with
    checktime := if 0 < newChecktime then newChecktime else s.checktime
    force_disconnect :=
      if it.getProp "persistent_connection" ≠ "" then
        !decide (0 < getIntProp it "persistent_connection")
      else s.force_disconnect
    defaultIgnoreTimeout := if 0 < newIgnoreTimeout then newIgnoreTimeout else s.defaultIgnoreTimeout
    channelTimeout := if 0 < newChannelTimeout then newChannelTimeout else s.channelTimeout
    ptReopen := if 0 < newChannelTimeout then newChannelTimeout else s.ptReopen }

def reconfigure (proc : Process) (newConf : MBConfig) (it : XmlNode) (next : List XmlNode)
    (address : Nat → Nat) (s : MBTCPMultiMaster) : MBTCPMultiMaster × Bool :=
  let s := applySettings it s
  let oldMBList := s.mblist
  match initGateList proc newConf it next address { s with mblist := [], mbi := s.mbi.clear } with
  | (s, .ok ()) => (s, true)
  | (s, .error _) => ({ s with mblist := oldMBList }, false)

/-- A file that can be read: the node of the exchange in it with the nodes behind, and what comes of
its sensors and devices. -/
structure ConfFile where
  cnode : Option (XmlNode × List XmlNode)
  loadConfig : Except String MBConfig

/-- `started` is what comes of the steps behind the change of the configuration. -/
def reload (proc : Process) (confile : Option ConfFile) (started : Except String Unit)
    (address : Nat → Nat) (s : MBTCPMultiMaster) : MBTCPMultiMaster × Bool :=
  match confile with
  | none => (s, false)
  | some xml =>
    match xml.cnode with
    | none => (s, false)
    | some (it, next) =>
      match xml.loadConfig with
      | .error _ => (s, false)
      | .ok newConf =>
        if newConf.devices = [] then (s, false)
        else
          let oldConf := s.mbconf
          match reconfigure proc newConf it next address s with
          | (s, false) => (s, false)
          | (s, true) =>
            match started with
            | .ok () => ({ s with mbconf := newConf }, true)
            | .error _ => ({ s with mbconf := oldConf }, false)

/-! ## What is asked of the list of channels -/

section GateList

variable (proc : Process) (mconf : MBConfig) (it : XmlNode)

/-- An item of a channel that is good. -/
structure GateOk (it1 : XmlNode) : Prop where
  ip : it1.getProp "ip" ≠ ""
  port : 0 < getIntProp it1 "port"
  respond : it1.getProp "respondSensor" ≠ "" →
    proc.getSensorID (it1.getProp "respondSensor") ≠ DefaultObjectId
  checkFunc : checkFunc proc mconf it ∈ [0, 1, 2, 3, 4]

/-- The list is there, its items are good, and not all of them are to be ignored. -/
structure GateListOk (next : List XmlNode) (g : XmlNode) (items : List XmlNode) : Prop where
  found : findX "GateList" (it :: next) = some g
  children : g.goChildren = some items
  ok : ∀ it1 ∈ items, ¬Ignored it1 → GateOk proc mconf it it1
  used : ∃ it1 ∈ items, ¬Ignored it1

variable {proc mconf it} {s : MBTCPMultiMaster} {it1 : XmlNode} {items next : List XmlNode}
  {address : Nat → Nat}

theorem gateError_eq_none_iff : gateError proc mconf it it1 = none ↔ GateOk proc mconf it it1 := by
  constructor
  · intro h
    unfold gateError at h
    simp only at h
    split_ifs at h with hip hport hrespond hfn
    exact ⟨hip, Int.not_le.mp hport, fun hne hnone => hrespond ⟨hne, hnone⟩, hfn⟩
  · intro h
    unfold gateError
    simp only
    rw [if_neg h.ip, if_neg (Int.not_le.mpr h.port),
      if_neg fun hrespond => h.respond hrespond.1 hrespond.2, if_neg (not_not.mpr h.checkFunc)]

/-- The loop fails at the first item that is not good; it changes nothing but the list. -/
theorem addGates_ok_iff :
    (addGates proc mconf it address items s).2 = .ok () ↔
      ∀ it1 ∈ items, ¬Ignored it1 → GateOk proc mconf it it1 := by
  induction items generalizing s with
  | nil => simp [addGates]
  | cons it1 items ih =>
    rw [List.forall_mem_cons]
    unfold addGates initGate
    split_ifs with hignored
    · simp only
      rw [ih]
      exact ⟨fun h => ⟨fun hno => absurd hignored hno, h⟩, fun h => h.2⟩
    · cases herror : gateError proc mconf it it1 with
      | some e =>
        have hbad : ¬GateOk proc mconf it it1 := by
          rw [← gateError_eq_none_iff, herror]
          exact Option.some_ne_none e
        simp [hignored, hbad]
      | none =>
        have hok := gateError_eq_none_iff.mp herror
        simp only
        rw [ih]
        exact ⟨fun h => ⟨fun _ => hok, h⟩, fun h => h.2⟩

theorem initGate_some {m : MBSlaveInfo} {a : Nat}
    (h : initGate proc mconf it s it1 a = .ok (some m)) : ¬Ignored it1 ∧ m.address = a := by
  unfold initGate at h
  split_ifs at h with hignored
  · cases h
  · split at h
    · cases h
    · cases h
      exact ⟨hignored, rfl⟩

theorem initGate_none {a : Nat} (h : initGate proc mconf it s it1 a = .ok none) : Ignored it1 := by
  unfold initGate at h
  split_ifs at h with hignored
  · exact hignored
  · split at h <;> cases h

theorem addGates_fst :
    ∃ mblist, (addGates proc mconf it address items s).1 = { s with mblist } ∧
      ∀ m ∈ mblist, m ∈ s.mblist ∨ ∃ i, m.address = address i := by
  induction items generalizing s with
  | nil => exact ⟨s.mblist, rfl, fun m hm => .inl hm⟩
  | cons it1 items ih =>
    unfold addGates
    cases hgate : initGate proc mconf it s it1 (address s.mblist.length) with
    | error e => exact ⟨s.mblist, rfl, fun m hm => .inl hm⟩
    | ok m =>
      cases m with
      | none => exact ih
      | some m =>
        obtain ⟨mblist, heq, hmem⟩ := @ih { s with mblist := s.mblist ++ [m] }
        refine ⟨mblist, heq, fun m' hm' => ?_⟩
        rcases hmem m' hm' with hold | hnew
        · rcases List.mem_append.mp hold with hold | hnew
          · exact .inl hold
          · cases List.mem_singleton.mp hnew
            exact .inr ⟨_, (initGate_some hgate).2⟩
        · exact .inr hnew

theorem addGates_eq_nil_iff (h : (addGates proc mconf it address items s).2 = .ok ()) :
    (addGates proc mconf it address items s).1.mblist = [] ↔
      s.mblist = [] ∧ ∀ it1 ∈ items, Ignored it1 := by
  induction items generalizing s with
  | nil => simp [addGates]
  | cons it1 items ih =>
    rw [List.forall_mem_cons]
    unfold addGates at h ⊢
    cases hgate : initGate proc mconf it s it1 (address s.mblist.length) with
    | error e =>
      rw [hgate] at h
      cases h
    | ok m =>
      rw [hgate] at h
      cases m with
      | none =>
        simp only [initGate_none hgate, true_and] at h ⊢
        exact ih h
      | some m =>
        simp only [(initGate_some hgate).1, false_and, and_false, iff_false] at h ⊢
        rw [ih h]
        simp

/-- The two outcomes for an empty list: it is refused and at most the list has changed, or the list
has channels that are made for it alone. -/
theorem initGateList_cases (hs : s.mblist = []) :
    (¬(∃ g items, GateListOk proc mconf it next g items) ∧ ∃ mblist e,
        initGateList proc mconf it next address s = ({ s with mblist }, .error e)) ∨
      ((∃ g items, GateListOk proc mconf it next g items) ∧ ∃ mblist, mblist ≠ [] ∧
        (∀ m ∈ mblist, ∃ i, m.address = address i) ∧
        initGateList proc mconf it next address s =
          ({ s with mblist := useLast (sortGates mblist), mbi := .last }, .ok ())) := by
  unfold initGateList
  cases hfound : findX "GateList" (it :: next) with
  | none =>
    refine .inl ⟨?_, s.mblist, _, rfl⟩
    rintro ⟨g, items, h⟩
    cases hfound.symm.trans h.found
  | some g =>
    simp only
    cases hchildren : g.goChildren with
    | none =>
      refine .inl ⟨?_, s.mblist, _, rfl⟩
      rintro ⟨g', items, h⟩
      cases hfound.symm.trans h.found
      cases hchildren.symm.trans h.children
    | some items =>
      simp only
      have hok := @addGates_ok_iff proc mconf it s items address
      have hnil := @addGates_eq_nil_iff proc mconf it s items address
      obtain ⟨mblist, heq, hmem⟩ := @addGates_fst proc mconf it s items address
      rcases hadd : addGates proc mconf it address items s with ⟨s', e | ⟨⟩⟩
      · rw [hadd] at hok heq
        cases heq
        refine .inl ⟨?_, mblist, e, rfl⟩
        rintro ⟨g', items', h⟩
        cases hfound.symm.trans h.found
        cases hchildren.symm.trans h.children
        cases hok.mpr h.ok
      · rw [hadd] at hok hnil heq
        cases heq
        simp only [forall_const, hs, true_and] at hnil hmem ⊢
        split_ifs with hempty
        · refine .inl ⟨?_, mblist, _, rfl⟩
          rintro ⟨g', items', h⟩
          cases hfound.symm.trans h.found
          cases hchildren.symm.trans h.children
          obtain ⟨it1, hit1, hno⟩ := h.used
          exact hno (hnil.mp hempty it1 hit1)
        · have hused : ∃ it1 ∈ items, ¬Ignored it1 := by
            by_contra hno
            push Not at hno
            exact hempty (hnil.mpr hno)
          exact .inr ⟨⟨g, items, hfound, hchildren, hok.mp rfl, hused⟩, mblist, hempty,
            fun m hm => (hmem m hm).resolve_left List.not_mem_nil, rfl⟩

theorem map_address_useLast (mblist : List MBSlaveInfo) :
    (useLast mblist).map MBSlaveInfo.address = mblist.map MBSlaveInfo.address := by
  refine List.ext_getElem? fun i => ?_
  simp only [useLast, List.getElem?_map, List.getElem?_modify]
  split_ifs <;> cases mblist[i]? <;> rfl

theorem exists_useLast {mblist : List MBSlaveInfo} (hne : mblist ≠ [])
    (hmem : ∀ m ∈ mblist, ∃ i, m.address = address i) :
    ∃ m ∈ useLast (sortGates mblist), ∃ i, m.address = address i := by
  obtain ⟨m, hm⟩ := List.exists_mem_of_ne_nil mblist hne
  have haddress : m.address ∈ (useLast (sortGates mblist)).map MBSlaveInfo.address := by
    rw [map_address_useLast]
    exact List.mem_map_of_mem ((List.mem_insertionSort _).mpr hm)
  obtain ⟨m', hm', heq⟩ := List.mem_map.mp haddress
  obtain ⟨i, hi⟩ := hmem m hm
  exact ⟨m', hm', i, heq.trans hi⟩

end GateList

/-! ## A reload that fails -/

/-- What is to stay as it was. -/
structure Same (s s' : MBTCPMultiMaster) : Prop where
  mbconf : s'.mbconf = s.mbconf
  mblist : s'.mblist = s.mblist
  mbi : s'.mbi = s.mbi
  checktime : s'.checktime = s.checktime
  force_disconnect : s'.force_disconnect = s.force_disconnect
  defaultIgnoreTimeout : s'.defaultIgnoreTimeout = s.defaultIgnoreTimeout
  channelTimeout : s'.channelTimeout = s.channelTimeout

theorem Same.refl (s : MBTCPMultiMaster) : Same s s := ⟨rfl, rfl, rfl, rfl, rfl, rfl, rfl⟩

/-- The attributes of the node are absent, not positive, or the values that are there. -/
structure Leaves (it : XmlNode) (s : MBTCPMultiMaster) : Prop where
  checktime : 0 < getIntProp it "checktime" → getIntProp it "checktime" = s.checktime
  force_disconnect : it.getProp "persistent_connection" ≠ "" →
    (!decide (0 < getIntProp it "persistent_connection")) = s.force_disconnect
  ignoreTimeout : 0 < getIntProp it "ignoreTimeout" →
    getIntProp it "ignoreTimeout" = s.defaultIgnoreTimeout
  channelTimeout : 0 < getIntProp it "channelTimeout" →
    getIntProp it "channelTimeout" = s.channelTimeout

section Reload

variable (proc : Process) (confile : Option ConfFile) (started : Except String Unit)
  (s : MBTCPMultiMaster)

/-- A reload that fails leaves all as it was. -/
def Atomic (address : Nat → Nat) : Prop :=
  (reload proc confile started address s).2 = false →
    Same s (reload proc confile started address s).1

/-- Once the sensors and devices of the file are good: where the list of channels is good, the steps
behind do not fail, and where it is not, the attributes of the node say nothing new and the channel in
use is the last of the list. -/
def HoldsWhen : Prop :=
  ∀ it next newConf, confile = some ⟨some (it, next), .ok newConf⟩ → newConf.devices ≠ [] →
    ((∃ g items, GateListOk proc newConf it next g items) → started = .ok ()) ∧
      (¬(∃ g items, GateListOk proc newConf it next g items) →
        Leaves it s ∧ ∀ i, s.mbi ≠ .node i)

variable {proc confile started s}

theorem clear_eq_iff (c : Cursor) : c.clear = c ↔ ∀ i, c ≠ .node i := by
  cases c <;> simp [Cursor.clear]

theorem same_applySettings_iff (it : XmlNode) :
    Same s { applySettings it s with mbi := s.mbi.clear } ↔ Leaves it s ∧ ∀ i, s.mbi ≠ .node i := by
  rw [← clear_eq_iff]
  constructor
  · intro h
    obtain ⟨-, -, hmbi, hcheck, hforce, hignore, hchannel⟩ := h
    simp only [applySettings] at hcheck hforce hignore hchannel
    refine ⟨⟨fun hpos => ?_, fun hne => ?_, fun hpos => ?_, fun hpos => ?_⟩, hmbi⟩
    · rwa [if_pos hpos] at hcheck
    · rwa [if_pos hne] at hforce
    · rwa [if_pos hpos] at hignore
    · rwa [if_pos hpos] at hchannel
  · rintro ⟨⟨hcheck, hforce, hignore, hchannel⟩, hmbi⟩
    refine ⟨rfl, rfl, hmbi, ?_, ?_, ?_, ?_⟩ <;> simp only [applySettings]
    · exact ite_eq_right_iff.mpr hcheck
    · exact ite_eq_right_iff.mpr hforce
    · exact ite_eq_right_iff.mpr hignore
    · exact ite_eq_right_iff.mpr hchannel

theorem atomic_of_unchanged {address : Nat → Nat}
    (h : (reload proc confile started address s).1 = s) :
    Atomic proc confile started s address := fun _ => h.symm ▸ .refl s

/-- The sensors and devices of the file are good. -/
theorem atomic_accepted (heap : Heap s) {it : XmlNode} {next : List XmlNode} {newConf : MBConfig}
    (hdevices : newConf.devices ≠ []) :
    Atomic proc (some ⟨some (it, next), .ok newConf⟩) started s heap.address ↔
      ((∃ g items, GateListOk proc newConf it next g items) → started = .ok ()) ∧
        (¬(∃ g items, GateListOk proc newConf it next g items) →
          Leaves it s ∧ ∀ i, s.mbi ≠ .node i) := by
  unfold Atomic reload reconfigure
  simp only [if_neg hdevices]
  rcases @initGateList_cases proc newConf it
      { applySettings it s with mblist := [], mbi := s.mbi.clear } next heap.address rfl with
    ⟨hbad, mblist, e, heq⟩ | ⟨hgood, mblist, hne, hmem, heq⟩
  · have hstate : Same s { applySettings it s with mbi := s.mbi.clear } ↔
        (Leaves it s ∧ ∀ i, s.mbi ≠ .node i) := same_applySettings_iff it
    rw [show (applySettings it s).mbi = s.mbi from rfl, heq]
    simp only [hbad, false_implies, true_and, not_false_eq_true, true_implies]
    exact hstate
  · obtain ⟨m, hm, i, hi⟩ := exists_useLast hne hmem
    rw [show (applySettings it s).mbi = s.mbi from rfl, heq]
    simp only [hgood, not_true, false_implies, and_true, true_implies]
    cases started with
    | ok _ => simp
    | error e =>
      simp only [true_implies, reduceCtorEq, iff_false]
      -- the channels are other ones than before
      intro hsame
      have hmblist : useLast (sortGates mblist) = s.mblist := hsame.mblist
      exact heap.fresh i m (hmblist ▸ hm) hi

/-- A reload that fails leaves all as it was exactly under this condition. -/
theorem atomic_iff (heap : Heap s) :
    Atomic proc confile started s heap.address ↔ HoldsWhen proc confile started s := by
  unfold HoldsWhen
  rcases confile with - | ⟨cnode, loadConfig⟩
  · exact ⟨fun _ _ _ _ h => (by cases h), fun _ => atomic_of_unchanged rfl⟩
  rcases cnode with - | ⟨it, next⟩
  · exact ⟨fun _ _ _ _ h => (by cases h), fun _ => atomic_of_unchanged rfl⟩
  rcases loadConfig with e | newConf
  · exact ⟨fun _ _ _ _ h => (by cases h), fun _ => atomic_of_unchanged rfl⟩
  by_cases hdevices : newConf.devices = []
  · refine ⟨fun _ it' next' newConf' h hne => ?_, fun _ => atomic_of_unchanged ?_⟩
    · cases h
      exact absurd hdevices hne
    · simp only [reload, if_pos hdevices]
  · rw [atomic_accepted heap hdevices]
    constructor
    · intro h it' next' newConf' heq _
      cases heq
      exact h
    · exact fun h => h it next newConf rfl hdevices

end Reload

def gate (address : Nat) : MBSlaveInfo :=
  ⟨address, "localhost", 2048, DefaultObjectId, 0, 30000, 500, 0, 10, false, false, 0, 0, 0, 5000,
    true, "localhost:2048", false⟩

/-- An exchange over two channels, the first of them in use. -/
def running : MBTCPMultiMaster :=
  ⟨⟨"mbtcp", 500, 0, 10, [1]⟩, [gate 16, gate 32], .node 1, 5000, true, 30000, 5000, 5000⟩

/-- Where new channels of it are put. -/
def runningHeap (mbi : Cursor) : Heap { running with mbi } :=
  ⟨fun i => 48 + i, fun i m hm => by
    simp only [running, List.mem_cons, List.not_mem_nil, or_false] at hm
    rcases hm with rfl | rfl <;> simp only [gate] <;> omega⟩

def mbMaster1 : Process := ⟨"MBMaster1", [], fun _ => DefaultObjectId⟩

/-- The new node has a pause of its own, and no list of channels. -/
def listLess : ConfFile :=
  ⟨some (.node "MBMaster1" false [("checktime", "1000")] [], []), .ok ⟨"mbtcp", 500, 0, 10, [1]⟩⟩

/-- The new node has the pause that is there, and the second channel of its list has no address. -/
def addressLess : ConfFile :=
  ⟨some (.node "MBMaster1" false [("checktime", "5000")]
    [.node "GateList" false []
      [.node "item" false [("ip", "10.0.0.1"), ("port", "502")] [],
        .node "item" false [("port", "502")] []]], []), .ok ⟨"mbtcp", 500, 0, 10, [1, 2]⟩⟩

theorem holdsWhen_addressLess :
    HoldsWhen mbMaster1 (some addressLess) (.ok ()) { running with mbi := .last } := by
  intro it next newConf h _
  refine ⟨fun _ => rfl, fun _ => ?_⟩
  cases h
  exact ⟨⟨by decide, by decide, by decide, by decide⟩, by simp⟩

theorem not_atomic :
    ¬Atomic ⟨"MBMaster1", [], fun _ => DefaultObjectId⟩ (some listLess) (.ok ()) running
      fun i => 48 + i := by
  intro h
  have hsame := h (by decide)
  have hpause : (1000 : Int) = 5000 := hsame.checktime
  cases hpause

/-- The channels are put in their places until one is refused; the ones that were there come back. -/
theorem atomic_addressLess :
    (reload mbMaster1 (some addressLess) (.ok ()) (runningHeap .last).address
        { running with mbi := .last }).2 = false ∧
      Atomic mbMaster1 (some addressLess) (.ok ()) { running with mbi := .last }
        (runningHeap .last).address :=
  ⟨by decide, (atomic_iff (runningHeap .last)).mpr holdsWhen_addressLess⟩

end Uniset.ModbusMaster.Reload
