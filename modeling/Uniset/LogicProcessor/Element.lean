import Mathlib.Data.Fintype.Card
import Mathlib.Logic.Function.Basic

/-! The elements of a logical schema, the links between them and the calls that a change of an
input makes. -/

universe u

namespace Uniset.LogicProcessor

/-- `LogicException` with its text. -/
structure LogicException where
  err : String
  deriving DecidableEq

structure InputInfo where
  num : Nat
  value : Int
  deriving DecidableEq

/-- The value goes to the first input with the number. -/
def InputInfo.store (num : Nat) (value : Int) : List InputInfo → List InputInfo
  | [] => []
  | it :: ins =>
    if it.num = num then { it with value := value } :: ins
    else it :: InputInfo.store num value ins

theorem InputInfo.map_num_store (num : Nat) (value : Int) (ins : List InputInfo) :
    (InputInfo.store num value ins).map InputInfo.num = ins.map InputInfo.num := by
  induction ins with
  | nil => rfl
  | cons it ins ih =>
    unfold InputInfo.store
    split_ifs with hnum
    · rfl
    · rw [List.map_cons, ih, List.map_cons]

/-- The inputs of an element, no two with one number. -/
structure InputList where
  ins : List InputInfo
  nodup : (ins.map InputInfo.num).Nodup
  deriving DecidableEq

namespace InputList

/-- The inputs that the constructors of `TOR` and `TAND` make. -/
def new (num : Nat) (st : Bool) : InputList where
  ins := (List.range' 1 num).map fun i => ⟨i, if st then 1 else 0⟩
  nodup := by
    rw [List.map_map]
    exact (List.map_id _).symm ▸ List.nodup_range'

def find (l : InputList) (num : Nat) : Option InputInfo := l.ins.find? fun it => it.num = num

/-- The loop of `setIn` that looks for the input: whether it holds the value already. -/
def holds (l : InputList) (num : Nat) (value : Int) : Bool :=
  (l.find num).any fun it => it.value = value

def store (l : InputList) (num : Nat) (value : Int) : InputList :=
  ⟨InputInfo.store num value l.ins, InputInfo.map_num_store num value l.ins ▸ l.nodup⟩

end InputList

/-- What an element holds, by its type. -/
inductive Gate
  | TOR (ins : InputList) (myout : Bool)
  | TAND (ins : InputList) (myout : Bool)
  | TNOT (myout : Bool)
  | TA2D (myout : Bool) (fvalue : Int)
  | TSEL_R (myout : Int) (control_inp : Bool) (true_inp false_inp : Int)
  | TRS (myout dominantReset set_inp reset_inp : Bool)
  /-- `timing` is the interval of the timer `pt`, 0 when it is not set. -/
  | TDelay (myout : Bool) (delay timing : Int)
  deriving DecidableEq

structure ChildInfo (π : Type u) where
  el : π
  num : Nat
  deriving DecidableEq

/-- An element with its children, which it knows by their addresses `π`. -/
structure Element (π : Type u) where
  myid : String
  init_out : Bool
  gate : Gate
  outs : List (ChildInfo π)

namespace Gate

def getOut : Gate → Int
  | .TOR _ myout => if myout then 1 else 0
  | .TAND _ myout => if myout then 1 else 0
  | .TNOT myout => if myout then 1 else 0
  | .TA2D myout _ => if myout then 1 else 0
  | .TSEL_R myout _ _ _ => myout
  | .TRS myout _ _ _ => if myout then 1 else 0
  | .TDelay myout _ _ => if myout then 1 else 0

/-- Whether `setIn` calls `setChildOut`, after `init_out` that it leaves. -/
def announce (init_out changed : Bool) : Bool × Bool :=
  if changed || init_out then (false, true) else (init_out, false)

/-- `setIn` without the calls of the children: the element, its `init_out`, and whether
`setChildOut` is called. -/
def setIn (g : Gate) (init_out : Bool) (num : Nat) (value : Int) : Gate × Bool × Bool :=
  match g with
  | .TOR ins myout =>
    if ins.holds num value && !init_out then (g, init_out, false)
    else
      let ins := ins.store num value
      let out := ins.ins.any fun it => it.value ≠ 0
      (.TOR ins out, announce init_out (myout ≠ out))
  | .TAND ins myout =>
    if ins.holds num value && !init_out then (g, init_out, false)
    else
      let ins := ins.store num value
      let out := !(ins.ins.any fun it => it.value = 0)
      (.TAND ins out, announce init_out (myout ≠ out))
  | .TNOT myout =>
    let out := decide (value = 0)
    (.TNOT out, announce init_out (myout ≠ out))
  | .TA2D myout fvalue =>
    let out := decide (fvalue = value)
    (.TA2D out fvalue, announce init_out (myout ≠ out))
  | .TSEL_R myout control_inp true_inp false_inp =>
    -- the source keeps the previous output in a `bool`
    let prev := decide (myout ≠ 0)
    let control_inp := if num = 1 then decide (value ≠ 0) else control_inp
    let true_inp := if num = 2 then value else true_inp
    let false_inp := if num = 3 then value else false_inp
    let out := if control_inp then true_inp else false_inp
    (.TSEL_R out control_inp true_inp false_inp,
      announce init_out ((if prev then 1 else 0) ≠ out))
  | .TRS myout dominantReset set_inp reset_inp =>
    let set_inp := if num = 1 then decide (value ≠ 0) else set_inp
    let reset_inp := if num = 2 then decide (value ≠ 0) else reset_inp
    let out := if dominantReset then !reset_inp && (set_inp || myout)
      else set_inp || (!reset_inp && myout)
    (.TRS out dominantReset set_inp reset_inp, announce init_out (myout ≠ out))
  | .TDelay myout delay timing =>
    if value = 0 then (.TDelay false delay 0, init_out, myout)
    else if delay ≤ 0 then (.TDelay true delay 0, init_out, !myout)
    else (.TDelay myout delay (if myout then timing else delay), init_out, false)

end Gate

namespace Element

variable {π : Type u}

def newTOR (id : String) (num : Nat) (st : Bool) : Element π :=
  ⟨id, true, .TOR (InputList.new num st) (st && num ≠ 0), []⟩

def newTAND (id : String) (num : Nat) (st : Bool) : Element π :=
  ⟨id, true, .TAND (InputList.new num st) (st && num ≠ 0), []⟩

def newTNOT (id : String) (st : Bool) : Element π := ⟨id, true, .TNOT st, []⟩

def newTA2D (id : String) (filterValue : Int) : Element π := ⟨id, true, .TA2D false filterValue, []⟩

def newTSEL_R (id : String) (st : Bool) (sel_false sel_true : Int) : Element π :=
  ⟨id, true, .TSEL_R (if st then sel_true else sel_false) st sel_true sel_false, []⟩

def newTRS (id : String) (st dominantReset : Bool) : Element π :=
  ⟨id, true, .TRS st dominantReset false false, []⟩

def newTDelay (id : String) (delayMS : Int) : Element π := ⟨id, false, .TDelay false delayMS 0, []⟩

end Element

/-- The elements by their addresses. -/
abbrev Heap (π : Type u) := π → Element π

/-- A call of `setIn` of the element `el`. -/
structure Call (π : Type u) where
  el : π
  num : Nat
  value : Int
  deriving DecidableEq

namespace Heap

variable {π : Type u} [DecidableEq π]

/-- What `setIn` does to its own element, and the calls that `setChildOut` makes after it. -/
def take (h : Heap π) (c : Call π) : Heap π × List (Call π) :=
  let e := h c.el
  let (gate, init_out, changed) := e.gate.setIn e.init_out c.num c.value
  (Function.update h c.el { e with gate := gate, init_out := init_out },
    if changed then e.outs.map fun it => ⟨it.el, it.num, gate.getOut⟩ else [])

/-- `none` when the recursion runs out of fuel. -/
def setIn : Nat → Call π → Heap π → Option (Heap π)
  | 0, _, _ => none
  | fuel + 1, c, h => (h.take c).2.foldlM (fun h c => setIn fuel c h) (h.take c).1

/-- `Element::find`, by which `none` is a search that does not end within the fuel. -/
def find (h : Heap π) (id : String) : Nat → π → Option (Option π)
  | 0, _ => none
  | fuel + 1, e =>
    match (h e).outs with
    | [] => some none
    | it :: _ => if (h it.el).myid = id then some (some it.el) else find h id fuel it.el

variable [Fintype π]

/-- `none` when the search for a cycle does not end: a path over more elements than there are
comes back to where it was. -/
def addChildOut (h : Heap π) (this el : π) (num : Nat) :
    Option (Except LogicException (Heap π)) :=
  let myid := (h this).myid
  if el = this then
    some (.error ⟨"(" ++ myid ++ "): ПОПЫТКА СДЕЛАТЬ ССЫЛКУ НА САМОГО СЕБЯ!!!"⟩)
  else if (h this).outs.any fun it => it.el = el then
    some (.error ⟨"(" ++ myid ++ "):" ++ (h el).myid ++
      " уже есть в списке дочерних(такое соединение уже есть)..."⟩)
  else
    match h.find myid (Fintype.card π) el with
    | none => none
    | some (some _) =>
      some (.error ⟨"(" ++ myid ++ "):  ПОПЫТКА СОЗДАТЬ ЦИКЛИЧЕСКУЮ ЗАВИСИМОСТЬ!!!\n" ++
        " id" ++ (h el).myid ++ " имеет в своих 'потомках' Element id=" ++ myid ++ "\n"⟩)
    | some none =>
      some (.ok (Function.update h this { h this with outs := (h this).outs ++ [⟨el, num⟩] }))

omit [Fintype π] in
def delChildOut (h : Heap π) (this el : π) : Heap π :=
  Function.update h this { h this with outs := (h this).outs.eraseP fun it => it.el = el }

end Heap

end Uniset.LogicProcessor
