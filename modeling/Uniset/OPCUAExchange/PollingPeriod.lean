import Uniset.Lib.EveryNth
import Uniset.OPCUAExchange.MaskedVariable

/-! The groups of attributes that are exchanged on every, or on every so many, cycles of a channel. -/

namespace Uniset.OPCUAExchange.Polling

open Uniset.Lib

open Uniset.Processes (IOType)

open ExchangeMode

abbrev Tick := UInt8

/-- What the exchange is told about a sensor, after `IOBase::initItem` has accepted it or not. -/
structure IOItem where
  initItem : Bool
  stype : IOType
  t_ai : Option ObjectId
  ignore : Bool
  opcua_nodeid : String
  opcua_tick : Int

/-- An attribute in `iolist`, with the period it has been given in the configuration. -/
structure Attribute where
  stype : IOType
  ignore : Bool
  attrName : String
  tick : Tick
  opcua_tick : Int
  deriving DecidableEq

/-- Inputs are read, everything else is written. -/
def Attribute.isInput (a : Attribute) : Bool := a.stype = .AI ∨ a.stype = .DI

structure Settings where
  enableSubscription : Bool
  maxReadItems : Nat
  maxWriteItems : Nat
  writeToAllChannels : Bool

/-- A place in a request, with the place of its attribute in `iolist`. -/
structure Entry (ν : Type*) where
  node : ν
  item : Nat
  deriving DecidableEq

section Groups

variable {ν : Type*}

/-- The requests for the attributes with one tick. -/
abbrev Group (ν : Type*) := List (List (Entry ν))

/-- The entry goes into the last request. -/
def putLast (e : Entry ν) : Group ν → Group ν
  | [] => [[e]]
  | [ids] => [ids ++ [e]]
  | ids :: gr => ids :: putLast e gr

/-- A request that is full is followed by a new one; there is no limit if it is zero. -/
def put (max : Nat) (e : Entry ν) (gr : Group ν) : Group ν :=
  putLast e (if max ≠ 0 ∧ max ≤ (gr.getLast?.getD []).length then gr ++ [[]] else gr)

/-- The groups of a channel by their ticks. -/
abbrev Groups (ν : Type*) := List (Tick × Group ν)

def addNode (max : Nat) (tick : Tick) (e : Entry ν) : Groups ν → Groups ν
  | [] => [(tick, put max e [[]])]
  | v :: values => if v.1 = tick then (tick, put max e v.2) :: values else v :: addNode max tick e values

/-- The attribute is in a request of the group with the tick. -/
def Names (values : Groups ν) (tick : Tick) (i : Nat) : Prop :=
  ∃ v ∈ values, v.1 = tick ∧ ∃ e ∈ v.2.flatten, e.item = i

end Groups

structure Channel (ν : Type*) where
  readValues : Groups ν
  writeValues : Groups ν

abbrev numChannels : Nat := 2

structure Exchange (ν : Type*) where
  iolist : List Attribute
  thrlist : List ObjectId
  channels : Fin numChannels → Channel ν

namespace Exchange

variable {ν : Type*}

def empty : Exchange ν := ⟨[], [], fun _ => ⟨[], []⟩⟩

/-- A name with no kind of identifier is that of a string. -/
def nodeName (attr : String) : String :=
  if attr.toList[1]? ≠ some '=' ∧ attr.toList[2]? ≠ some '=' then "s=" ++ attr else attr

variable (conf : Settings) (parse : String → Option ν)

/-- The period is cut to eight bits. -/
def ofItem (it : IOItem) : Attribute where
  stype := it.stype
  ignore := it.ignore
  attrName := nodeName it.opcua_nodeid
  tick := if conf.enableSubscription then 0 else UInt8.ofInt it.opcua_tick
  opcua_tick := it.opcua_tick

def addToChannel (a : Attribute) (e : Entry ν) (ch : Channel ν) : Channel ν :=
  if a.isInput then { ch with readValues := addNode conf.maxReadItems a.tick e ch.readValues }
  else { ch with writeValues := addNode conf.maxWriteItems a.tick e ch.writeValues }

/-- There is no result if the name of the node cannot be parsed. -/
def addAttribute (s : Exchange ν) (a : Attribute) : Option (Exchange ν) :=
  if a.ignore then some { s with iolist := s.iolist ++ [a] }
  else (parse a.attrName).map fun node => { s with
    iolist := s.iolist ++ [a]
    channels := fun chan => addToChannel conf a ⟨node, s.iolist.length⟩ (s.channels chan) }

/-- The answer, and what has become of the lists. -/
def initIOItem (s : Exchange ν) (it : IOItem) : Option (Bool × Exchange ν) :=
  if !it.initItem then some (false, s)
  else match it.t_ai with
  | some t_ai => some (true, { s with thrlist := s.thrlist ++ [t_ai] })
  | none =>
    if it.opcua_nodeid = "" then some (false, s)
    else (s.addAttribute conf parse (ofItem conf it)).map fun s' => (true, s')

def initIOItems : Exchange ν → List IOItem → Option (Exchange ν)
  | s, [] => some s
  | s, it :: items => do
    let r ← s.initIOItem conf parse it
    initIOItems r.2 items

end Exchange

inductive Request (ν : Type*)
  | write (ids : List (Entry ν))
  | read (ids : List (Entry ν))
  | runIterate

namespace Request

variable {ν : Type*}

/-- The attribute is read or written. -/
def names (i : Nat) : Request ν → Bool
  | .write ids | .read ids => ids.any fun e => e.item = i
  | .runIterate => false

end Request

/-- What a cycle of the thread meets.  It does not reach the exchange if there is no connection or an
operation before it has failed; `critical` are the requests whose status ends the connection. -/
structure Cycle (ν : Type*) where
  reached : Bool
  exchangeMode : ExchangeMode
  current : Bool
  critical : Request ν → Bool

section Thread

variable {ν : Type*}

def due (tick : Tick) (values : Groups ν) : Group ν :=
  (values.filter fun v => v.1 = 0 ∨ tick % v.1 = 0).flatMap Prod.snd

/-- The requests up to the first that ends the connection. -/
def send (critical : Request ν → Bool) : List (Request ν) → List (Request ν)
  | [] => []
  | r :: requests => if critical r then [r] else r :: send critical requests

variable (conf : Settings) (ch : Channel ν)

def channelExchange (tick : Tick) (writeOn : Bool) (c : Cycle ν) : List (Request ν) :=
  if c.exchangeMode = emSkipExchange then []
  else
    let out := if writeOn ∧ c.exchangeMode ≠ emReadOnly then due tick ch.writeValues else []
    let inp :=
      if c.exchangeMode = emWriteOnly then []
      else if conf.enableSubscription then [.runIterate]
      else (due tick ch.readValues).map Request.read
    send c.critical (out.map Request.write ++ inp)

/-- The requests of one cycle, and the counter for the next one. -/
def cycle (tick : Tick) (c : Cycle ν) : List (Request ν) × Tick :=
  if c.reached then
    let tick := if tick ≥ 255 then 1 else tick
    (channelExchange conf ch tick (conf.writeToAllChannels || c.current) c, tick + 1)
  else ([], tick)

/-- The requests of each cycle. -/
def channelThread : Tick → List (Cycle ν) → List (List (Request ν))
  | _, [] => []
  | tick, c :: cycles => (cycle conf ch tick c).1 :: channelThread (cycle conf ch tick c).2 cycles

def tickAfter (tick : Tick) (cycles : List (Cycle ν)) : Tick :=
  cycles.foldl (fun tick c => (cycle conf ch tick c).2) tick

/-- A cycle with no errors in the normal mode. -/
structure Undisturbed (current : Bool) (c : Cycle ν) : Prop where
  reached : c.reached = true
  mode : c.exchangeMode = emNone
  current : c.current = current
  critical : ∀ r, c.critical r = false

/-- The attribute takes part in the cycle at the place. -/
def TakesPart (requests : List (List (Request ν))) (i j : Nat) : Prop :=
  ∃ l, requests[j]? = some l ∧ l.any (Request.names i) = true

/-- After any cycles, in every run with no errors: with the period zero the attribute takes part in
every cycle, and with another one in exactly one of so many in a row. -/
def KeepsPeriod (current : Bool) (i n : Nat) : Prop :=
  ∀ before cycles : List (Cycle ν), (∀ c ∈ cycles, Undisturbed current c) →
    let requests := channelThread conf ch (tickAfter conf ch 1 before) cycles
    if n = 0 then ∀ j < cycles.length, TakesPart requests i j
    else ∀ k, k + n ≤ cycles.length → ∃! j, k ≤ j ∧ j < k + n ∧ TakesPart requests i j

end Thread

/-- The attribute is exchanged by requests of its own. -/
def Exchanged (conf : Settings) (current : Bool) (a : Attribute) : Prop :=
  a.ignore = false ∧
    if a.isInput then conf.enableSubscription = false
    else conf.writeToAllChannels = true ∨ current = true

/-- The period divides the number of cycles after which the counter starts again; with subscription
there are no periods. -/
def Suits (conf : Settings) (n : Nat) : Prop :=
  if conf.enableSubscription then n ≤ 1 else n ∣ 254 ∨ n = 0

section Placed

variable {ν : Type*}

theorem flatten_putLast (e : Entry ν) (gr : Group ν) : (putLast e gr).flatten = gr.flatten ++ [e] := by
  fun_induction putLast e gr with
  | case1 => rfl
  | case2 ids => simp
  | case3 ids gr hne ih => simp [ih]

theorem flatten_put (max : Nat) (e : Entry ν) (gr : Group ν) :
    (put max e gr).flatten = gr.flatten ++ [e] := by
  unfold put
  split_ifs
  · simp [flatten_putLast]
  · exact flatten_putLast e gr

theorem names_cons {v : Tick × Group ν} {values : Groups ν} {tick : Tick} {i : Nat} :
    Names (v :: values) tick i ↔
      (v.1 = tick ∧ ∃ e ∈ v.2.flatten, e.item = i) ∨ Names values tick i := by
  simp only [Names, List.exists_mem_cons_iff]

theorem names_addNode (max : Nat) (tick : Tick) (e : Entry ν) (values : Groups ν) (k : Tick) (i : Nat) :
    Names (addNode max tick e values) k i ↔ Names values k i ∨ tick = k ∧ e.item = i := by
  have hput (gr : Group ν) : (∃ e' ∈ (put max e gr).flatten, e'.item = i) ↔
      (∃ e' ∈ gr.flatten, e'.item = i) ∨ e.item = i := by
    rw [flatten_put]
    simp only [List.mem_append, List.mem_singleton, or_and_right, exists_or, exists_eq_left]
  induction values with
  | nil =>
    rw [addNode, names_cons, hput]
    simp [Names]
  | cons v values ih =>
    unfold addNode
    split_ifs with htick
    · rw [names_cons, names_cons, hput, htick, and_or_left, or_right_comm]
    · rw [names_cons, names_cons, or_assoc]
      exact or_congr_right ih

/-- The groups hold the inputs, or the outputs, that are not ignored, each by its tick. -/
def Holds (values : Groups ν) (iolist : List Attribute) (input : Bool) : Prop :=
  ∀ k i, Names values k i ↔
    ∃ a, iolist[i]? = some a ∧ a.ignore = false ∧ a.isInput = input ∧ a.tick = k

/-- What the calls of `initIOItem` keep. -/
structure Placed (conf : Settings) (s : Exchange ν) : Prop where
  read : ∀ chan, Holds (s.channels chan).readValues s.iolist true
  write : ∀ chan, Holds (s.channels chan).writeValues s.iolist false
  tick : ∀ a ∈ s.iolist, a.tick = if conf.enableSubscription then 0 else UInt8.ofInt a.opcua_tick

theorem exists_append_singleton {iolist : List Attribute} {a : Attribute} {i : Nat}
    {P : Attribute → Prop} :
    (∃ b, (iolist ++ [a])[i]? = some b ∧ P b) ↔
      (∃ b, iolist[i]? = some b ∧ P b) ∨ iolist.length = i ∧ P a := by
  rcases lt_trichotomy i iolist.length with hi | rfl | hi
  · simp [List.getElem?_append_left hi, hi.ne']
  · simp
  · rw [List.getElem?_eq_none (by simp; omega), List.getElem?_eq_none hi.le]
    simp [hi.ne]

theorem Holds.skip {values : Groups ν} {iolist : List Attribute} {input : Bool}
    (h : Holds values iolist input) {a : Attribute} (ha : a.ignore = true ∨ a.isInput ≠ input) :
    Holds values (iolist ++ [a]) input := by
  intro k i
  rw [h k i, exists_append_singleton]
  refine (or_iff_left fun hlast => ?_).symm
  rcases ha with ha | ha
  · exact absurd (ha.symm.trans hlast.2.1) (by decide)
  · exact ha hlast.2.2.1

theorem Holds.add {values : Groups ν} {iolist : List Attribute} {input : Bool}
    (h : Holds values iolist input) {a : Attribute} (hignore : a.ignore = false)
    (hinput : a.isInput = input) (max : Nat) (node : ν) :
    Holds (addNode max a.tick ⟨node, iolist.length⟩ values) (iolist ++ [a]) input := by
  intro k i
  rw [names_addNode, h k i, exists_append_singleton]
  refine or_congr_right ⟨fun ⟨hk, hi⟩ => ⟨hi, hignore, hinput, hk⟩, fun ⟨hi, hrest⟩ => ⟨hrest.2.2, hi⟩⟩

variable {conf : Settings} {parse : String → Option ν} {s s' : Exchange ν}

theorem placed_empty : Placed conf (Exchange.empty : Exchange ν) where
  read _ k i := by simp [Exchange.empty, Names]
  write _ k i := by simp [Exchange.empty, Names]
  tick a ha := absurd ha (List.not_mem_nil)

theorem placed_addAttribute (h : Placed conf s) {a : Attribute}
    (ha : a.tick = if conf.enableSubscription then 0 else UInt8.ofInt a.opcua_tick)
    (hs : s.addAttribute conf parse a = some s') : Placed conf s' := by
  have htick : ∀ b ∈ s.iolist ++ [a],
      b.tick = if conf.enableSubscription then 0 else UInt8.ofInt b.opcua_tick := by
    intro b hb
    rcases List.mem_append.mp hb with hb | hb
    · exact h.tick b hb
    · cases List.mem_singleton.mp hb
      exact ha
  unfold Exchange.addAttribute at hs
  split_ifs at hs with hignore
  · cases hs
    exact ⟨fun chan => (h.read chan).skip (.inl hignore), fun chan => (h.write chan).skip (.inl hignore), htick⟩
  · obtain ⟨node, -, rfl⟩ := Option.map_eq_some_iff.mp hs
    rw [Bool.not_eq_true] at hignore
    cases hinput : a.isInput with
    | true =>
      refine ⟨fun chan => ?_, fun chan => ?_, htick⟩
      · simp only [Exchange.addToChannel, hinput, if_true]
        exact (h.read chan).add hignore hinput _ node
      · simp only [Exchange.addToChannel, hinput, if_true]
        exact (h.write chan).skip (.inr (by simp [hinput]))
    | false =>
      refine ⟨fun chan => ?_, fun chan => ?_, htick⟩
      · simp only [Exchange.addToChannel, hinput, Bool.false_eq_true, if_false]
        exact (h.read chan).skip (.inr (by simp [hinput]))
      · simp only [Exchange.addToChannel, hinput, Bool.false_eq_true, if_false]
        exact (h.write chan).add hignore hinput _ node

theorem placed_initIOItem (h : Placed conf s) {it : IOItem} {r : Bool × Exchange ν}
    (hr : s.initIOItem conf parse it = some r) : Placed conf r.2 := by
  unfold Exchange.initIOItem at hr
  split at hr
  · cases hr
    exact h
  cases ht : it.t_ai with
  | some t_ai =>
    rw [ht] at hr
    cases hr
    exact ⟨h.read, h.write, h.tick⟩
  | none =>
    rw [ht] at hr
    dsimp only at hr
    split at hr
    · cases hr
      exact h
    · obtain ⟨s', hs', rfl⟩ := Option.map_eq_some_iff.mp hr
      exact placed_addAttribute h rfl hs'

theorem placed_initIOItems (h : Placed conf s) {items : List IOItem}
    (hs : s.initIOItems conf parse items = some s') : Placed conf s' := by
  induction items generalizing s with
  | nil =>
    cases hs
    exact h
  | cons it items ih =>
    obtain ⟨r, hr, hs⟩ := Option.bind_eq_some_iff.mp hs
    exact ih (placed_initIOItem h hr) hs

end Placed

section Periods

variable {ν : Type*} {conf : Settings} {s : Exchange ν} {ch : Channel ν} {current : Bool}

theorem mem_due {tick : Tick} {values : Groups ν} {i : Nat} :
    (∃ ids ∈ due tick values, ∃ e ∈ ids, e.item = i) ↔ ∃ k, Names values k i ∧ (k = 0 ∨ tick % k = 0) := by
  simp only [due, Names, List.mem_flatMap, List.mem_filter, List.mem_flatten, decide_eq_true_eq]
  constructor
  · rintro ⟨ids, ⟨v, ⟨hv, hdue⟩, hids⟩, e, he, hi⟩
    exact ⟨v.1, ⟨v, hv, rfl, e, ⟨ids, hids, he⟩, hi⟩, hdue⟩
  · rintro ⟨_, ⟨v, hv, rfl, e, ⟨ids, hids, he⟩, hi⟩, hdue⟩
    exact ⟨ids, ⟨v, ⟨hv, hdue⟩, hids⟩, e, he, hi⟩

theorem send_of_forall {critical : Request ν → Bool} (h : ∀ r, critical r = false)
    (requests : List (Request ν)) : send critical requests = requests := by
  induction requests with
  | nil => rfl
  | cons r requests ih => simp [send, h, ih]

/-- The attribute with the tick `k` has its turn. -/
def Turn (k tick : Tick) : Prop := k = 0 ∨ tick % k = 0

theorem any_names_map {gr : Group ν} {i : Nat} (request : List (Entry ν) → Request ν)
    (h : ∀ ids, (request ids).names i = ids.any fun e => e.item = i) :
    (gr.map request).any (Request.names i) = true ↔ ∃ ids ∈ gr, ∃ e ∈ ids, e.item = i := by
  simp [h]

theorem any_due {values : Groups ν} {iolist : List Attribute} {input : Bool}
    (h : Holds values iolist input) {i : Nat} {a : Attribute} (ha : iolist[i]? = some a) (tick : Tick) :
    (∃ ids ∈ due tick values, ∃ e ∈ ids, e.item = i) ↔
      a.ignore = false ∧ a.isInput = input ∧ Turn a.tick tick := by
  rw [mem_due]
  constructor
  · rintro ⟨k, hk, hturn⟩
    obtain ⟨b, hb, hignore, hinput, rfl⟩ := (h k i).mp hk
    cases ha.symm.trans hb
    exact ⟨hignore, hinput, hturn⟩
  · rintro ⟨hignore, hinput, hturn⟩
    exact ⟨a.tick, (h _ i).mpr ⟨a, ha, hignore, hinput, rfl⟩, hturn⟩

theorem channelExchange_names (h : Placed conf s) {i : Nat} {a : Attribute} (ha : s.iolist[i]? = some a)
    (chan : Fin numChannels) {c : Cycle ν} (hc : Undisturbed current c) (tick : Tick) :
    (channelExchange conf (s.channels chan) tick (conf.writeToAllChannels || c.current) c).any
      (Request.names i) = true ↔ Exchanged conf current a ∧ Turn a.tick tick := by
  have hwrite := any_due (h.write chan) ha tick
  have hread := any_due (h.read chan) ha tick
  rw [← any_names_map Request.write fun _ => rfl] at hwrite
  rw [← any_names_map Request.read fun _ => rfl] at hread
  unfold channelExchange Exchanged
  simp only [hc.mode, hc.current, send_of_forall hc.critical, reduceCtorEq, if_false, ne_eq,
    not_false_eq_true, and_true, List.any_append, Bool.or_eq_true]
  cases hinput : a.isInput with
  | true =>
    rw [hinput] at hwrite hread
    have hout (on : Prop) [Decidable on] : (List.any (List.map Request.write
        (if on then due tick (s.channels chan).writeValues else [])) (Request.names i)) = true ↔ False := by
      split_ifs <;> simp_all
    rw [hout, false_or]
    cases conf.enableSubscription with
    | true => simp [Request.names]
    | false => simpa using hread
  | false =>
    rw [hinput] at hwrite hread
    have hinp : (if conf.enableSubscription = true then [Request.runIterate] else
        List.map Request.read (due tick (s.channels chan).readValues)).any (Request.names i) = true ↔
          False := by
      cases conf.enableSubscription with
      | true => simp [Request.names]
      | false => simpa using hread
    rw [hinp, or_false]
    by_cases hon : conf.writeToAllChannels = true ∨ current = true
    · simpa [hon] using hwrite
    · simp [hon]

/-- How far the counter has got since it was started. -/
def turn (tick : Tick) : Nat := if tick ≥ 255 then 0 else tick.toNat - 1

theorem toNat_add_one {tick : Tick} (h : ¬tick ≥ 255) :
    tick.toNat < 255 ∧ (tick + 1).toNat = tick.toNat + 1 := by
  have hlt : tick.toNat < 255 := by
    rw [ge_iff_le, UInt8.le_iff_toNat_le] at h
    exact Nat.lt_of_not_le h
  have hone : (1 : UInt8).toNat = 1 := rfl
  refine ⟨hlt, ?_⟩
  rw [UInt8.toNat_add, hone]
  exact Nat.mod_eq_of_lt (by omega)

theorem cycle_undisturbed {tick : Tick} (htick : 1 ≤ tick) {c : Cycle ν} (hc : Undisturbed current c) :
    (cycle conf ch tick c).1 = channelExchange conf ch (UInt8.ofNat (turn tick % 254 + 1))
        (conf.writeToAllChannels || c.current) c ∧
      turn (cycle conf ch tick c).2 = (turn tick + 1) % 254 := by
  have hle : 1 ≤ tick.toNat := UInt8.le_iff_toNat_le.mp htick
  unfold cycle turn
  rw [if_pos hc.reached]
  by_cases hmax : tick ≥ 255
  · rw [if_pos hmax, if_pos hmax]
    have hlow : ¬(1 : UInt8) + 1 ≥ 255 := by decide
    exact ⟨rfl, if_neg hlow⟩
  · obtain ⟨hlt, hnext⟩ := toNat_add_one hmax
    rw [if_neg hmax, if_neg hmax, Nat.mod_eq_of_lt (by omega), Nat.sub_add_cancel hle, UInt8.ofNat_toNat]
    refine ⟨rfl, ?_⟩
    dsimp only
    have hfull : tick + 1 ≥ 255 ↔ 255 ≤ tick.toNat + 1 := by
      rw [ge_iff_le, UInt8.le_iff_toNat_le, hnext]
      rfl
    split_ifs with h
    · have := hfull.mp h
      omega
    · have := mt hfull.mpr h
      rw [hnext, Nat.mod_eq_of_lt (by omega)]
      omega

theorem one_le_cycle {tick : Tick} (htick : 1 ≤ tick) (c : Cycle ν) : 1 ≤ (cycle conf ch tick c).2 := by
  unfold cycle
  split
  · dsimp only
    split_ifs with hmax
    · exact UInt8.le_iff_toNat_le.mpr (by decide)
    · rw [UInt8.le_iff_toNat_le, (toNat_add_one hmax).2]
      exact Nat.le_add_left 1 _
  · exact htick

theorem one_le_tickAfter (cycles : List (Cycle ν)) {tick : Tick} (htick : 1 ≤ tick) :
    1 ≤ tickAfter conf ch tick cycles := by
  induction cycles generalizing tick with
  | nil => exact htick
  | cons c cycles ih => exact ih (one_le_cycle htick c)

theorem takesPart_iff (h : Placed conf s) {i : Nat} {a : Attribute} (ha : s.iolist[i]? = some a)
    (chan : Fin numChannels) {cycles : List (Cycle ν)} (hc : ∀ c ∈ cycles, Undisturbed current c)
    {tick : Tick} (htick : 1 ≤ tick) {j : Nat} (hj : j < cycles.length) :
    TakesPart (channelThread conf (s.channels chan) tick cycles) i j ↔
      Exchanged conf current a ∧ Turn a.tick (UInt8.ofNat ((turn tick + j) % 254 + 1)) := by
  induction cycles generalizing tick j with
  | nil => exact absurd hj (Nat.not_lt_zero j)
  | cons c cycles ih =>
    obtain ⟨hhead, hrest⟩ := List.forall_mem_cons.mp hc
    have hle : 1 ≤ (cycle conf (s.channels chan) tick c).2 := one_le_cycle htick c
    obtain ⟨htraffic, hnext⟩ : _ ∧ turn (cycle conf (s.channels chan) tick c).2 = _ :=
      cycle_undisturbed htick hhead
    cases j with
    | zero =>
      simp only [TakesPart, channelThread, List.getElem?_cons_zero, Option.some.injEq, exists_eq_left']
      rw [htraffic, channelExchange_names h ha chan hhead]
      rfl
    | succ j =>
      have hstep := ih hrest hle (Nat.lt_of_succ_lt_succ hj)
      rw [hnext, Nat.mod_add_mod, Nat.add_right_comm, Nat.add_assoc] at hstep
      exact hstep

theorem turn_ofNat {n x : Nat} (hn : n < 256) (hne : n ≠ 0) (hx : x < 256) :
    Turn (UInt8.ofNat n) (UInt8.ofNat x) ↔ n ∣ x := by
  have hn' : (UInt8.ofNat n).toNat = n := UInt8.toNat_ofNat_of_lt' hn
  have hx' : (UInt8.ofNat x).toNat = x := UInt8.toNat_ofNat_of_lt' hx
  have hzero : (0 : UInt8).toNat = 0 := rfl
  rw [Turn, ← UInt8.toNat_inj, ← UInt8.toNat_inj, UInt8.toNat_mod, hn', hx', hzero, or_iff_right hne,
    Nat.dvd_iff_mod_eq_zero]

theorem ofInt_natCast {n : Nat} (h : n < 256) : UInt8.ofInt n = UInt8.ofNat n := by
  change UInt8.ofNat ((n : Int) % 256).toNat = _
  rw [Int.emod_eq_of_lt (by omega) (by omega), Int.toNat_natCast]

/-- The turns of a period come with the multiples of it, from any value of the counter on. -/
theorem everyNth_of_suits {a : Attribute} {n : Nat} (hn : a.opcua_tick = n)
    (ha : a.tick = if conf.enableSubscription then 0 else UInt8.ofInt a.opcua_tick)
    (hsuits : Suits conf n) (hne : n ≠ 0) (r : Nat) :
    EveryNth (fun j => Turn a.tick (UInt8.ofNat ((r + j) % 254 + 1))) n := by
  unfold Suits at hsuits
  split_ifs at hsuits with hsub
  · rw [if_pos hsub] at ha
    obtain rfl : n = 1 := by omega
    exact (EveryNth.congr fun j => iff_of_true (Nat.one_dvd _) (.inl ha)).mp (EveryNth.multiples Nat.one_pos)
  · have hdvd : n ∣ 254 := hsuits.resolve_right hne
    have hle : n ≤ 254 := Nat.le_of_dvd (by decide) hdvd
    rw [if_neg hsub, hn, ofInt_natCast (by omega)] at ha
    refine (EveryNth.congr fun j => ?_).mp ((EveryNth.multiples (Nat.pos_of_ne_zero hne)).shift r)
    have hlt : (r + j) % 254 < 254 := Nat.mod_lt _ (by decide)
    rw [ha, turn_ofNat (by omega) hne (by omega), Nat.dvd_iff_mod_eq_zero, Nat.dvd_iff_mod_eq_zero,
      ← Nat.mod_add_mod (r + j) n 1, ← Nat.mod_mod_of_dvd (r + j) hdvd, Nat.mod_add_mod]

theorem suits_of_everyNth {a : Attribute} {n : Nat}
    (ha : a.tick = if conf.enableSubscription then 0 else UInt8.ofInt a.opcua_tick)
    (h : EveryNth (fun j => Turn a.tick (UInt8.ofNat (j % 254 + 1))) n) : Suits conf n := by
  unfold Suits
  split_ifs with hsub
  · rw [if_pos hsub] at ha
    refine Nat.le_of_dvd Nat.one_pos (h.dvd_of_periodic fun j => ?_)
    exact iff_of_true (.inl ha) (.inl ha)
  · refine .inl (h.dvd_of_periodic fun j => ?_)
    rw [Nat.add_mod_right]

theorem undisturbed (current : Bool) : Undisturbed current (⟨true, emNone, current, fun _ => false⟩ : Cycle ν) :=
  ⟨rfl, rfl, rfl, fun _ => rfl⟩

theorem takesPart_before (h : Placed conf s) {i : Nat} {a : Attribute} (ha : s.iolist[i]? = some a)
    (chan : Fin numChannels) (before : List (Cycle ν)) {cycles : List (Cycle ν)}
    (hc : ∀ c ∈ cycles, Undisturbed current c) {j : Nat} (hj : j < cycles.length) :
    TakesPart (channelThread conf (s.channels chan) (tickAfter conf (s.channels chan) 1 before) cycles) i j ↔
      Exchanged conf current a ∧
        Turn a.tick (UInt8.ofNat ((turn (tickAfter conf (s.channels chan) 1 before) + j) % 254 + 1)) :=
  takesPart_iff h ha chan hc (one_le_tickAfter before (UInt8.le_refl 1)) hj

theorem exchanged_suits_of_keepsPeriod (h : Placed conf s) {i n : Nat} {a : Attribute}
    (ha : s.iolist[i]? = some a) (chan : Fin numChannels)
    (hk : KeepsPeriod conf (s.channels chan) current i n) : Exchanged conf current a ∧ Suits conf n := by
  have hrun (m : Nat) : ∀ c ∈ List.replicate m (⟨true, emNone, current, fun _ => false⟩ : Cycle ν),
      Undisturbed current c := fun c hc => by
    rw [List.eq_of_mem_replicate hc]
    exact undisturbed current
  by_cases hne : n = 0
  · have hpart := hk [] _ (hrun 1)
    rw [if_pos hne] at hpart
    obtain ⟨hex, -⟩ := (takesPart_before h ha chan [] (hrun 1) Nat.one_pos).mp (hpart 0 Nat.one_pos)
    refine ⟨hex, ?_⟩
    unfold Suits
    split_ifs
    · omega
    · exact .inr hne
  · have hwindow (k : Nat) : ∃! j, k ≤ j ∧ j < k + n ∧
        (Exchanged conf current a ∧ Turn a.tick (UInt8.ofNat (j % 254 + 1))) := by
      have hpart := hk [] _ (hrun (k + n))
      rw [if_neg hne] at hpart
      refine (existsUnique_congr fun j => ?_).mp (hpart k (by rw [List.length_replicate]))
      refine and_congr_right fun _ => and_congr_right fun hj => ?_
      rw [takesPart_before h ha chan [] (hrun (k + n)) (by rwa [List.length_replicate])]
      simp [tickAfter, turn]
    obtain ⟨j, ⟨-, -, hex, -⟩, -⟩ := hwindow 0
    refine ⟨hex, suits_of_everyNth (h.tick a (List.mem_of_getElem? ha)) fun k => ?_⟩
    simpa only [hex, true_and] using hwindow k

/-- A period is kept exactly for an attribute that is exchanged by requests of its own, when it is zero
or divides the number of cycles after which the counter starts again. -/
theorem keepsPeriod_iff (parse : String → Option ν) (items : List IOItem)
    (h : Exchange.empty.initIOItems conf parse items = some s) {i : Nat} {a : Attribute}
    (ha : s.iolist[i]? = some a) {n : Nat} (hn : a.opcua_tick = n) (chan : Fin numChannels)
    (current : Bool) :
    KeepsPeriod conf (s.channels chan) current i n ↔ Exchanged conf current a ∧ Suits conf n := by
  have hplaced : Placed conf s := placed_initIOItems placed_empty h
  refine ⟨exchanged_suits_of_keepsPeriod hplaced ha chan, fun ⟨hex, hsuits⟩ before cycles hc => ?_⟩
  have htick := hplaced.tick a (List.mem_of_getElem? ha)
  dsimp only
  split_ifs with hne
  · intro j hj
    refine (takesPart_before hplaced ha chan before hc hj).mpr ⟨hex, .inl ?_⟩
    rw [htick, hn, hne]
    split_ifs <;> rfl
  · intro k hk
    refine (existsUnique_congr fun j => ?_).mp (everyNth_of_suits hn htick hsuits hne
      (turn (tickAfter conf (s.channels chan) 1 before)) k)
    refine and_congr_right fun _ => and_congr_right fun hj => ?_
    rw [takesPart_before hplaced ha chan before hc (by omega), and_iff_right hex]

end Periods

/-- An input with a period. -/
def inputWithPeriod (n : Int) : IOItem := ⟨true, .AI, none, false, "ns=1;s=Pressure", n⟩

def polled : Settings := ⟨false, 0, 0, false⟩

theorem keepsPeriod_every_second : ∃ s, Exchange.empty.initIOItems polled some [inputWithPeriod 2] = some s ∧
    KeepsPeriod polled (s.channels 0) true 0 2 :=
  ⟨_, rfl, (keepsPeriod_iff (a := Exchange.ofItem polled (inputWithPeriod 2)) some [inputWithPeriod 2]
    rfl rfl rfl 0 true).mpr ⟨⟨rfl, rfl⟩, .inl (by decide)⟩⟩

/-- With the period three the attribute is read on the cycles 252 and 257. -/
theorem not_keepsPeriod_every_third :
    ∃ s, Exchange.empty.initIOItems polled some [inputWithPeriod 3] = some s ∧
      ¬KeepsPeriod polled (s.channels 0) true 0 3 := by
  refine ⟨_, rfl, fun h => ?_⟩
  have hplaced : Placed polled _ := placed_initIOItems placed_empty
    (rfl : Exchange.empty.initIOItems polled some [inputWithPeriod 3] = some _)
  have hsuits : 3 ∣ 254 ∨ 3 = 0 := (exchanged_suits_of_keepsPeriod hplaced rfl 0 h).2
  exact absurd hsuits (by decide)

end Uniset.OPCUAExchange.Polling
