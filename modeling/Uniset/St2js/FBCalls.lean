import Mathlib.Data.List.Nodup
import Uniset.St2js.StructuredText

/-! Calls of the standard function blocks: what the parameters of a block are given by a call, as
Structured Text and as the printed program. -/

namespace Uniset.St2js.FBCalls

open IR

/-- The presets go to the constructor, the other parameters to `update`. -/
structure FBInfo where
  constructorArgs : List (Ident × IECType)
  updateParams : List (Ident × IECType)
  nodup : ((constructorArgs ++ updateParams).map Prod.fst).Nodup
  numeric : ∀ p ∈ constructorArgs, p.2 ≠ .BOOL

def FBInfo.params (info : FBInfo) : List (Ident × IECType) := info.constructorArgs ++ info.updateParams

def timer : FBInfo where
  constructorArgs := [("PT".toList, .TIME)]
  updateParams := [("IN".toList, .BOOL)]
  nodup := by decide
  numeric := by decide

def CTU : FBInfo where
  constructorArgs := [("PV".toList, .INT)]
  updateParams := [("CU".toList, .BOOL), ("RESET".toList, .BOOL)]
  nodup := by decide
  numeric := by decide

def CTD : FBInfo where
  constructorArgs := [("PV".toList, .INT)]
  updateParams := [("CD".toList, .BOOL), ("LOAD".toList, .BOOL)]
  nodup := by decide
  numeric := by decide

def CTUD : FBInfo where
  constructorArgs := [("PV".toList, .INT)]
  updateParams :=
    [("CU".toList, .BOOL), ("CD".toList, .BOOL), ("RESET".toList, .BOOL), ("LOAD".toList, .BOOL)]
  nodup := by decide
  numeric := by decide

def RS : FBInfo where
  constructorArgs := []
  updateParams := [("SET".toList, .BOOL), ("RESET1".toList, .BOOL)]
  nodup := by decide
  numeric := by decide

def SR : FBInfo where
  constructorArgs := []
  updateParams := [("SET1".toList, .BOOL), ("RESET".toList, .BOOL)]
  nodup := by decide
  numeric := by decide

def trigger : FBInfo where
  constructorArgs := []
  updateParams := [("CLK".toList, .BOOL)]
  nodup := by decide
  numeric := by decide

/-- The standard blocks; others may be registered. -/
def registry : List (Ident × FBInfo) :=
  [("TON".toList, timer), ("TOF".toList, timer), ("TP".toList, timer), ("CTU".toList, CTU),
   ("CTD".toList, CTD), ("CTUD".toList, CTUD), ("RS".toList, RS), ("SR".toList, SR),
   ("R_TRIG".toList, trigger), ("F_TRIG".toList, trigger)]

abbrev Arguments := List (Ident × Expression)

/-! ### Programs -/

/-- A source before its calls are looked at: its instances have no presets yet.  A program declares a
name once.  The global instances are those of the lists of global variables. -/
structure Source where
  globalFbInstances : List FBInstance
  program : POU
  functionBlocks : List POU
  secondaryPrograms : List POU
  distinct : ∀ pou ∈ program :: secondaryPrograms, (pou.fbInstances.map (·.name)).Nodup
  bare : ∀ pou ∈ program :: secondaryPrograms, ∀ i ∈ pou.fbInstances, i.constructorArgs = []

/-- The body that a call is in; a function block is executed as the block of that number. -/
inductive Place
  | main
  | secondary (program : Ident)
  | block (type : Ident) (self : Nat)
  deriving DecidableEq

/-- An instance, by where it is declared. -/
inductive Key
  | global (inst : Ident)
  | main (inst : Ident)
  | secondary (program inst : Ident)
  | block (type : Ident) (self : Nat) (inst : Ident)
  deriving DecidableEq

structure Site where
  inst : Ident
  arguments : Arguments
  /-- The call is a statement of the body itself. -/
  top : Bool

mutual

def calls : IR.Statement → List (Ident × Arguments)
  | .basic (.fbCall inst args) => [(inst, args)]
  | .basic _ => []
  | .ifElse _ t es el => callsBody t ++ (callsElsif es ++ callsElse el)
  | .case _ bs el => callsBranches bs ++ callsElse el
  | .forLoop _ _ _ _ body => callsBody body
  | .whileLoop _ body => callsBody body
  | .repeatLoop _ body => callsBody body
  | .exit => []
  | .continue => []
  | .return => []

def callsBody : Body → List (Ident × Arguments)
  | [] => []
  | s :: ss => calls s ++ callsBody ss

def callsElsif : List (Expression × Body) → List (Ident × Arguments)
  | [] => []
  | (_, b) :: es => callsBody b ++ callsElsif es

def callsBranches : List (List Expression × Body) → List (Ident × Arguments)
  | [] => []
  | (_, b) :: bs => callsBody b ++ callsBranches bs

def callsElse : Option Body → List (Ident × Arguments)
  | none => []
  | some b => callsBody b

end

/-- The calls of a body, at any depth. -/
def sites (body : Body) : List Site :=
  body.flatMap fun
    | .basic (.fbCall inst args) => [⟨inst, args, true⟩]
    | s => (calls s).map fun c => ⟨c.1, c.2, false⟩

def named (is : List FBInstance) (x : Ident) : Option FBInstance := is.find? fun i => i.name = x

section

variable (getFbInfo : Ident → Option FBInfo)

/-! ### Presets -/

def FBInfo.isPreset (info : FBInfo) (p : Ident) : Bool := p ∈ info.constructorArgs.map Prod.fst

def storePresets (x : Ident) (args : Arguments) (i : FBInstance) : FBInstance :=
  if i.name = x then
    match getFbInfo i.fbType with
    | some info =>
      { i with constructorArgs := args.filter (fun a => info.isPreset a.1) ++ i.constructorArgs }
    | none => i
  else i

def storeStatement (i : FBInstance) : IR.Statement → FBInstance
  | .basic (.fbCall x args) => storePresets getFbInfo x args i
  | _ => i

/-- The arguments without the presets. -/
def popPresets (is : List FBInstance) (x : Ident) (args : Arguments) : Arguments :=
  match (named is x).bind fun i => getFbInfo i.fbType with
  | some info => args.filter fun a => !info.isPreset a.1
  | none => args

/-- The presets of the calls that are statements of the body itself are moved to the instances; what
comes later is found first. -/
def extractConstructorArgs (is : List FBInstance) (body : Body) : List FBInstance × Body :=
  (body.foldl (fun is s => is.map fun i => storeStatement getFbInfo i s) is,
    body.map fun
      | .basic (.fbCall x args) => .basic (.fbCall x (popPresets getFbInfo is x args))
      | s => s)

def transformProgram (pou : POU) : POU :=
  { pou with
    fbInstances := (extractConstructorArgs getFbInfo pou.fbInstances pou.body).1
    body := (extractConstructorArgs getFbInfo pou.fbInstances pou.body).2 }

namespace Source

variable (S : Source)

def secondary? (name : Ident) : Option POU := S.secondaryPrograms.find? fun p => p.name = name

def block? (name : Ident) : Option POU := S.functionBlocks.find? fun b => b.name = name

def pou? : Place → Option POU
  | .main => some S.program
  | .secondary name => S.secondary? name
  | .block type _ => S.block? type

def sitesOf (place : Place) : List Site := ((S.pou? place).map fun pou => sites pou.body).getD []

def global (x : Ident) : Option (Key × FBInstance) :=
  (named S.globalFbInstances x).map fun i => (.global x, i)

/-- The instance that a name means. -/
def declared (place : Place) (x : Ident) : Option (Key × FBInstance) :=
  ((S.pou? place).bind fun pou => (named pou.fbInstances x).map fun i =>
    (match place with
      | .main => .main x
      | .secondary name => .secondary name x
      | .block type self => .block type self x, i)).or (S.global x)

/-- The type of the first instance of that name, but global ones are fields of an object. -/
def getFbType (x : Ident) : Ident :=
  match named (S.program.fbInstances ++ S.secondaryPrograms.flatMap (·.fbInstances) ++
      S.functionBlocks.flatMap (·.fbInstances)) x with
  | some i => i.fbType
  | none => []

/-- The object that a top-level constant is. -/
def topObject (x : Ident) : Option (Key × FBInstance) :=
  (named (transformProgram getFbInfo S.program).fbInstances x).map fun i => (.main x, i)

/-- The object that is updated by a call.  The constants of a secondary program have no prefix, and
the instances of a function block are not constructed. -/
def object (varPrefix : Ident) (place : Place) (x : Ident) : Option (Key × FBInstance) :=
  match place with
  | .main => S.topObject getFbInfo x
  | .secondary name =>
    ((S.secondary? name).bind fun p =>
      (named (transformProgram getFbInfo p).fbInstances (varPrefix ++ x)).map fun i =>
        (.secondary name (varPrefix ++ x), i)).or (S.topObject getFbInfo x)
  | .block type _ =>
    match S.block? type with
    | some b =>
      if x ∈ b.fbInstances.map (·.name) ++ names (b.inputs ++ b.outputs ++ b.locals) then none
      else S.topObject getFbInfo x
    | none => none

/-- The arguments of a call when it is printed. -/
def emitted (place : Place) (s : Site) : Arguments :=
  match place, s.top with
  | .main, true => popPresets getFbInfo S.program.fbInstances s.inst s.arguments
  | .secondary name, true =>
    match S.secondary? name with
    | some p => popPresets getFbInfo p.fbInstances s.inst s.arguments
    | none => s.arguments
  | _, _ => s.arguments

end Source

/-- The arguments of `update`: the parameters that are given, in the order of the type. -/
def positional (info : FBInfo) (args : Arguments) : List Expression :=
  info.updateParams.filterMap fun p => args.lookup p.1

end

/-! ### Calls that are executed -/

/-- The values of expressions, in a state and when the program is loaded. -/
structure Semantics (St V : Type) where
  eval : St → Expression → V
  load : St
  zero : V
  falsum : V

/-- A run of calls is of a source in which names of types are looked up. -/
structure Setting where
  source : Source
  getFbInfo : Ident → Option FBInfo
  varPrefix : Ident

structure Call (P : Setting) (St : Type) where
  place : Place
  site : Site
  store : St
  key : Key
  inst : FBInstance
  info : FBInfo
  executed : site ∈ P.source.sitesOf place
  declared : P.source.declared place site.inst = some (key, inst)
  registered : P.getFbInfo inst.fbType = some info

section

variable {St V : Type} (M : Semantics St V) {P : Setting}

/-- What a parameter of an instance was given last; the calls are the latest first. -/
def current : List (Call P St) → Key → Ident × IECType → V
  | [], _, p => if p.2 = .BOOL then M.falsum else M.zero
  | c :: past, key, p =>
    if c.key = key then
      match c.site.arguments.lookup p.1 with
      | some e => M.eval c.store e
      | none => current past key p
    else current past key p

/-- The parameter of a method that is called with these values; one that is not given is falsy. -/
def bindArg : List (Ident × IECType) → List V → Ident → Option V
  | [], _, _ => none
  | q :: ps, v :: vs, p => if q.1 = p then some v else bindArg ps vs p
  | q :: ps, [], p => if q.1 = p then (if q.2 = .BOOL then some M.falsum else none) else bindArg ps [] p

/-- What a parameter is when the printed call is executed. -/
def received (c : Call P St) (p : Ident × IECType) : Option V :=
  match P.source.object P.getFbInfo P.varPrefix c.place c.site.inst with
  | none => none
  | some (_, obj) =>
    match P.getFbInfo obj.fbType, P.getFbInfo (P.source.getFbType c.site.inst) with
    | some info, some printed =>
      if p ∈ info.constructorArgs then
        match obj.constructorArgs.lookup p.1 with
        | some e => some (M.eval M.load e)
        | none => some M.zero
      else
        bindArg M info.updateParams
          ((positional printed (P.source.emitted P.getFbInfo c.place c.site)).map (M.eval c.store)) p.1
    | _, _ => none

/-- The printed call gives every parameter what the call gives it. -/
def Delivered (past : List (Call P St)) (c : Call P St) : Prop :=
  ∀ p ∈ c.info.params, received M c p = some (current M (c :: past) c.key p)

/-! ### The condition -/

/-- What the last call on an instance, among the statements of a body itself, gives a parameter. -/
def lastPreset (x p : Ident) : Body → Option Expression
  | [] => none
  | .basic (.fbCall y args) :: ss =>
    (lastPreset x p ss).or (if y = x then args.lookup p else none)
  | _ :: ss => lastPreset x p ss

def Source.preset (S : Source) (p : Ident) : Key → Option Expression
  | .main x => lastPreset x p S.program.body
  | .secondary name x => (S.secondary? name).bind fun q => lastPreset x p q.body
  | _ => none

def Call.named (c : Call P St) (p : Ident) : Prop := (c.site.arguments.lookup p).isSome = true

/-- The object is the instance.  The parameters of `update` that are given are the first ones, and the
others are still FALSE; a preset has the value that it had when the program was loaded, and a call that
does not give it is not the first to need it. -/
structure Meets (past : List (Call P St)) (c : Call P St) : Prop where
  object : ∃ obj, P.source.object P.getFbInfo P.varPrefix c.place c.site.inst = some (c.key, obj)
  type : P.source.getFbType c.site.inst = c.inst.fbType
  update : ∃ l r, c.info.updateParams = l ++ r ∧ (∀ p ∈ l, c.named p.1) ∧
    ∀ p ∈ r, p.2 = .BOOL ∧ ¬c.named p.1 ∧
      ∀ d ∈ past, d.key = c.key → ∀ e, d.site.arguments.lookup p.1 = some e →
        M.eval d.store e = M.falsum
  preset : ∀ p ∈ c.info.constructorArgs, ∀ e, c.site.arguments.lookup p.1 = some e →
    ∃ e', P.source.preset p.1 c.key = some e' ∧ M.eval c.store e = M.eval M.load e'
  first : ∀ p ∈ c.info.constructorArgs, ¬c.named p.1 → P.source.preset p.1 c.key ≠ none →
    ∃ d ∈ past, d.key = c.key ∧ d.named p.1

end

/-! ### What is moved to an instance -/

theorem lookup_filter {f : Ident → Bool} (h : f p = true) (args : Arguments) :
    (args.filter fun a => f a.1).lookup p = args.lookup p := by
  induction args with
  | nil => rfl
  | cons a args ih =>
    obtain ⟨q, e⟩ := a
    by_cases hq : p = q
    · subst hq
      simp [h]
    · have hne : (p == q) = false := by simpa using hq
      cases hf : f q <;> simp [hf, List.lookup_cons, hne, ih]

section

variable {getFbInfo : Ident → Option FBInfo}

theorem storePresets_same (x : Ident) (args : Arguments) (i : FBInstance) :
    (storePresets getFbInfo x args i).name = i.name ∧
      (storePresets getFbInfo x args i).fbType = i.fbType := by
  unfold storePresets
  split_ifs
  · split <;> exact ⟨rfl, rfl⟩
  · exact ⟨rfl, rfl⟩

theorem storeStatement_same (getFbInfo : Ident → Option FBInfo) (i : FBInstance) (s : IR.Statement) :
    (storeStatement getFbInfo i s).name = i.name ∧ (storeStatement getFbInfo i s).fbType = i.fbType := by
  unfold storeStatement
  split
  · exact storePresets_same ..
  · exact ⟨rfl, rfl⟩

theorem foldl_storeStatement_same (i : FBInstance) (body : Body) :
    (body.foldl (storeStatement getFbInfo) i).name = i.name ∧
      (body.foldl (storeStatement getFbInfo) i).fbType = i.fbType := by
  induction body generalizing i with
  | nil => exact ⟨rfl, rfl⟩
  | cons s ss ih =>
    obtain ⟨hname, htype⟩ := ih (storeStatement getFbInfo i s)
    obtain ⟨hname', htype'⟩ := storeStatement_same getFbInfo i s
    exact ⟨hname.trans hname', htype.trans htype'⟩

theorem extract_eq_map (is : List FBInstance) (body : Body) :
    (extractConstructorArgs getFbInfo is body).1 =
      is.map fun i => body.foldl (storeStatement getFbInfo) i := by
  unfold extractConstructorArgs
  simp only
  induction body generalizing is with
  | nil => simp
  | cons s ss ih =>
    rw [List.foldl_cons, ih, List.map_map]
    rfl

theorem lookup_storePresets (hinfo : getFbInfo i.fbType = some info) (hp : info.isPreset p = true)
    (x : Ident) (args : Arguments) : (storePresets getFbInfo x args i).constructorArgs.lookup p =
      (if x = i.name then args.lookup p else none).or (i.constructorArgs.lookup p) := by
  unfold storePresets
  by_cases hx : i.name = x
  · simp [hx, hinfo, List.lookup_append, lookup_filter (f := info.isPreset) hp]
  · simp [hx, Ne.symm hx]

/-- A preset of an instance is what the last call among the statements gives it. -/
theorem lookup_foldl (hinfo : getFbInfo i.fbType = some info) (hp : info.isPreset p = true)
    (body : Body) : (body.foldl (storeStatement getFbInfo) i).constructorArgs.lookup p =
      (lastPreset i.name p body).or (i.constructorArgs.lookup p) := by
  induction body generalizing i with
  | nil => rfl
  | cons s ss ih =>
    obtain ⟨hname, htype⟩ := storeStatement_same getFbInfo i s
    rw [List.foldl_cons, ih (by rw [htype, hinfo]), hname]
    cases s with
    | basic b =>
      cases b with
      | fbCall x args =>
        rw [storeStatement, lookup_storePresets hinfo hp, ← Option.or_assoc]
        rfl
      | assignment target value => rfl
      | programCall name => rfl
    | _ => rfl

theorem named_transform (pou : POU) (x : Ident) :
    named (transformProgram getFbInfo pou).fbInstances x =
      (named pou.fbInstances x).map fun i => pou.body.foldl (storeStatement getFbInfo) i := by
  rw [transformProgram, extract_eq_map, named, named, List.find?_map]
  congr 2
  funext i
  simp [(foldl_storeStatement_same i pou.body).1]

theorem mem_of_named (h : named is x = some i) : i ∈ is ∧ i.name = x :=
  ⟨List.mem_of_find?_eq_some h, by simpa using List.find?_some h⟩

/-- What is known of the object of an instance that is declared in the body of a program. -/
theorem lookup_transform {pou : POU} (hbare : ∀ i ∈ pou.fbInstances, i.constructorArgs = [])
    (hi : named pou.fbInstances x = some i) (hinfo : getFbInfo i.fbType = some info)
    (hobj : named (transformProgram getFbInfo pou).fbInstances x = some obj) :
    obj.fbType = i.fbType ∧
      ∀ p, info.isPreset p = true → obj.constructorArgs.lookup p = lastPreset x p pou.body := by
  obtain ⟨hmem, rfl⟩ := mem_of_named hi
  rw [named_transform, hi, Option.map_some] at hobj
  cases hobj
  refine ⟨(foldl_storeStatement_same i pou.body).2, ?_⟩
  intro p hp
  rw [lookup_foldl hinfo hp, hbare i hmem, List.lookup_nil, Option.or_none]

namespace Source

variable {S : Source}

theorem global_eq_some (h : S.global x = some (key, i)) :
    key = .global x ∧ named S.globalFbInstances x = some i := by
  obtain ⟨j, hj, heq⟩ := Option.map_eq_some_iff.mp h
  cases heq
  exact ⟨rfl, hj⟩

theorem topObject_eq_some (h : S.topObject getFbInfo x = some (key, obj)) :
    key = .main x ∧ named (transformProgram getFbInfo S.program).fbInstances x = some obj := by
  obtain ⟨i, hi, heq⟩ := Option.map_eq_some_iff.mp h
  cases heq
  exact ⟨rfl, hi⟩

/-- No call updates a global instance. -/
theorem object_ne_global : S.object getFbInfo varPrefix place x ≠ some (.global y, obj) := by
  have htop : S.topObject getFbInfo x ≠ some (.global y, obj) := fun h => by
    cases (topObject_eq_some h).1
  unfold object
  split
  · exact htop
  · intro h
    obtain h | ⟨-, h⟩ := Option.or_eq_some_iff.mp h
    · obtain ⟨p, -, h⟩ := Option.bind_eq_some_iff.mp h
      obtain ⟨i, -, heq⟩ := Option.map_eq_some_iff.mp h
      cases heq
    · exact htop h
  · split
    · split_ifs
      · exact (Option.some_ne_none _).symm
      · exact htop
    · exact (Option.some_ne_none _).symm

theorem mem_of_secondary? (h : S.secondary? name = some q) : q ∈ S.secondaryPrograms :=
  List.mem_of_find?_eq_some h

/-- The object of an instance has the type that is declared and the presets of the body it is
declared in. -/
theorem lookup_object (hdecl : S.declared place x = some (key, i))
    (hinfo : getFbInfo i.fbType = some info)
    (hobj : S.object getFbInfo varPrefix place x = some (key, obj)) :
    obj.fbType = i.fbType ∧
      ∀ p, info.isPreset p = true → obj.constructorArgs.lookup p = S.preset p key := by
  obtain hown | ⟨-, hi⟩ := Option.or_eq_some_iff.mp hdecl
  · obtain ⟨pou, hpou, hown⟩ := Option.bind_eq_some_iff.mp hown
    obtain ⟨j, hj, heq⟩ := Option.map_eq_some_iff.mp hown
    cases heq
    cases place with
    | main =>
      cases hpou
      exact lookup_transform (S.bare _ List.mem_cons_self) hj hinfo (topObject_eq_some hobj).2
    | secondary name =>
      obtain hobj | ⟨-, hobj⟩ := Option.or_eq_some_iff.mp hobj
      · obtain ⟨q, hq, hobj⟩ := Option.bind_eq_some_iff.mp hobj
        obtain ⟨k, hk, heq⟩ := Option.map_eq_some_iff.mp hobj
        cases hpou.symm.trans hq
        simp only [Prod.mk.injEq, Key.secondary.injEq, true_and] at heq
        obtain ⟨hx, rfl⟩ := heq
        rw [hx] at hk
        obtain ⟨htype, hlookup⟩ := lookup_transform
          (S.bare _ (List.mem_cons_of_mem _ (mem_of_secondary? hq))) hj hinfo hk
        refine ⟨htype, fun p hp => ?_⟩
        rw [hlookup p hp, preset, hq, Option.bind_some]
      · cases (topObject_eq_some hobj).1
    | block type self =>
      simp only [object] at hobj
      split at hobj
      · split_ifs at hobj
        cases (topObject_eq_some hobj).1
      · cases hobj
  · obtain ⟨rfl, -⟩ := global_eq_some hi
    exact absurd hobj object_ne_global

def instance? (S : Source) : Key → Option FBInstance
  | .global x => named S.globalFbInstances x
  | .main x => named S.program.fbInstances x
  | .secondary name x => (S.secondary? name).bind fun p => named p.fbInstances x
  | .block type _ x => (S.block? type).bind fun b => named b.fbInstances x

theorem instance?_of_declared (h : S.declared place x = some (key, i)) : S.instance? key = some i := by
  obtain hown | ⟨-, hi⟩ := Option.or_eq_some_iff.mp h
  · obtain ⟨pou, hpou, hown⟩ := Option.bind_eq_some_iff.mp hown
    obtain ⟨j, hj, heq⟩ := Option.map_eq_some_iff.mp hown
    cases heq
    cases place with
    | main => cases hpou; exact hj
    | secondary name => exact Option.bind_eq_some_iff.mpr ⟨pou, hpou, hj⟩
    | block type self => exact Option.bind_eq_some_iff.mpr ⟨pou, hpou, hj⟩
  · obtain ⟨rfl, hnamed⟩ := global_eq_some hi
    exact hnamed

theorem lookup_popPresets (hdecl : S.declared place x = some (key, i)) (hpou : S.pou? place = some pou)
    (hinfo : getFbInfo i.fbType = some info) (hp : info.isPreset p = false) (args : Arguments) :
    (popPresets getFbInfo pou.fbInstances x args).lookup p = args.lookup p := by
  cases hown : named pou.fbInstances x with
  | none => simp [popPresets, hown]
  | some j =>
    obtain rfl : j = i := by
      obtain h | ⟨h, -⟩ := Option.or_eq_some_iff.mp hdecl
      · exact (by simpa [hpou, hown] using h : _ ∧ j = i).2
      · simp [hpou, hown] at h
    simp only [popPresets, hown, Option.bind_some, hinfo]
    exact lookup_filter (f := fun q => !info.isPreset q) (by simp [hp]) args

/-- A parameter of `update` is printed as it is given. -/
theorem lookup_emitted {s : Site} (hdecl : S.declared place s.inst = some (key, i))
    (hinfo : getFbInfo i.fbType = some info) (hp : info.isPreset p = false) :
    (S.emitted getFbInfo place s).lookup p = s.arguments.lookup p := by
  unfold emitted
  split
  · exact lookup_popPresets hdecl rfl hinfo hp _
  · split
    · next hq => exact lookup_popPresets hdecl hq hinfo hp _
    · rfl
  · rfl

end Source

end

/-! ### The parameters of a call -/

section

variable {St V : Type} {M : Semantics St V} {P : Setting}

theorem FBInfo.isPreset_eq_false {info : FBInfo} (hp : p ∈ info.updateParams) :
    info.isPreset p.1 = false := by
  have hnodup := info.nodup
  rw [List.map_append, List.nodup_append] at hnodup
  simp only [isPreset, decide_eq_false_iff_not]
  intro hmem
  exact hnodup.2.2 _ hmem _ (List.mem_map_of_mem hp) rfl

theorem bindArg_given {f : Ident → Option Expression} (hl : ∀ q ∈ l, (f q.1).isSome = true)
    (hp : p ∈ l) (he : f p.1 = some e) (v : Expression → V) (r : List (Ident × IECType)) :
    bindArg M (l ++ r) ((l.filterMap fun q => f q.1).map v) p.1 = some (v e) := by
  induction l with
  | nil => cases hp
  | cons q l ih =>
    obtain ⟨e', he'⟩ := Option.isSome_iff_exists.mp (hl q List.mem_cons_self)
    rw [List.filterMap_cons_some (f := fun q : Ident × IECType => f q.1) he', List.map_cons,
      List.cons_append, bindArg]
    split_ifs with hq
    · rw [hq, he] at he'
      rw [Option.some.inj he']
    · refine ih (fun q hq => hl q (List.mem_cons_of_mem _ hq)) ?_
      obtain rfl | hp := List.mem_cons.mp hp
      · exact absurd rfl hq
      · exact hp

theorem bindArg_rest {f : Ident → Option Expression} (hl : ∀ q ∈ l, (f q.1).isSome = true)
    (hp : f p = none) (v : Expression → V) (r : List (Ident × IECType)) :
    bindArg M (l ++ r) ((l.filterMap fun q => f q.1).map v) p = bindArg M r [] p := by
  induction l with
  | nil => rfl
  | cons q l ih =>
    obtain ⟨e', he'⟩ := Option.isSome_iff_exists.mp (hl q List.mem_cons_self)
    rw [List.filterMap_cons_some (f := fun q : Ident × IECType => f q.1) he', List.map_cons,
      List.cons_append, bindArg, if_neg]
    · exact ih fun q hq => hl q (List.mem_cons_of_mem _ hq)
    · rintro rfl
      rw [hp] at he'
      cases he'

theorem bindArg_nil (hr : ∀ q ∈ r, q.2 = .BOOL) (hp : p ∈ r) :
    bindArg M r [] p.1 = some M.falsum := by
  induction r with
  | nil => cases hp
  | cons q r ih =>
    rw [bindArg, if_pos (hr q List.mem_cons_self)]
    split_ifs with hq
    · rfl
    · refine ih (fun q hq => hr q (List.mem_cons_of_mem _ hq)) ?_
      obtain rfl | hp := List.mem_cons.mp hp
      · exact absurd rfl hq
      · exact hp

/-- A parameter that was only ever given one value has it. -/
theorem current_eq {past : List (Call P St)}
    (hall : ∀ d ∈ past, d.key = key → ∀ e, d.site.arguments.lookup p.1 = some e → M.eval d.store e = v)
    (hfirst : (if p.2 = IECType.BOOL then M.falsum else M.zero) = v ∨
      ∃ d ∈ past, d.key = key ∧ d.named p.1) : current M past key p = v := by
  induction past with
  | nil =>
    obtain h | ⟨d, hd, -⟩ := hfirst
    · exact h
    · cases hd
  | cons c past ih =>
    have hrest : (¬(c.key = key ∧ c.named p.1)) → current M past key p = v := by
      intro hc
      refine ih (fun d hd => hall d (List.mem_cons_of_mem _ hd)) ?_
      obtain h | ⟨d, hd, hkey, hnamed⟩ := hfirst
      · exact .inl h
      · obtain rfl | hd := List.mem_cons.mp hd
        · exact absurd ⟨hkey, hnamed⟩ hc
        · exact .inr ⟨d, hd, hkey, hnamed⟩
    rw [current]
    split_ifs with hkey
    · split
      · next e he => exact hall c List.mem_cons_self hkey e he
      · next he => exact hrest fun h => by simp [Call.named, he] at h
    · exact hrest fun h => hkey h.1

theorem Call.info_eq {c d : Call P St} (h : d.key = c.key) : d.info = c.info := by
  have hc := Source.instance?_of_declared c.declared
  have hd := Source.instance?_of_declared d.declared
  have hinst : c.inst = d.inst := Option.some.inj (hc.symm.trans ((congrArg _ h.symm).trans hd))
  refine Option.some.inj (d.registered.symm.trans ?_)
  rw [← hinst, c.registered]

/-- The arguments of the printed call are those of the parameters that come first. -/
theorem positional_emitted (c : Call P St) (hsplit : c.info.updateParams = l ++ r)
    (hr : ∀ q ∈ r, ¬c.named q.1) :
    positional c.info (P.source.emitted P.getFbInfo c.place c.site) =
      l.filterMap fun q => c.site.arguments.lookup q.1 := by
  have hnone : (r.filterMap fun q => c.site.arguments.lookup q.1) = [] :=
    List.filterMap_eq_nil_iff.mpr fun q hq =>
      Option.not_isSome_iff_eq_none.mp (hr q hq)
  calc positional c.info (P.source.emitted P.getFbInfo c.place c.site)
    _ = c.info.updateParams.filterMap fun q => c.site.arguments.lookup q.1 :=
      List.filterMap_congr fun q hq =>
        Source.lookup_emitted c.declared c.registered (FBInfo.isPreset_eq_false hq)
    _ = _ := by rw [hsplit, List.filterMap_append, hnone, List.append_nil]

/-- A preset is only ever given what the constructor was given. -/
theorem current_preset {past : List (Call P St)} {c : Call P St}
    (h : ∀ older d, d :: older <:+ c :: past → Meets M older d) (hp : p ∈ c.info.constructorArgs) :
    current M (c :: past) c.key p =
      match P.source.preset p.1 c.key with
      | some e => M.eval M.load e
      | none => M.zero := by
  have hgiven : ∀ d ∈ c :: past, d.key = c.key → ∀ e, d.site.arguments.lookup p.1 = some e →
      ∃ e', P.source.preset p.1 c.key = some e' ∧ M.eval d.store e = M.eval M.load e' := by
    intro d hd hkey e he
    obtain ⟨newer, older, heq⟩ := List.append_of_mem hd
    rw [← hkey]
    exact (h older d ⟨newer, heq.symm⟩).preset p (Call.info_eq hkey ▸ hp) e he
  cases hpreset : P.source.preset p.1 c.key with
  | none =>
    refine current_eq (fun d hd hkey e he => ?_) (.inl (if_neg (c.info.numeric p hp)))
    obtain ⟨e', he', -⟩ := hgiven d hd hkey e he
    rw [hpreset] at he'
    cases he'
  | some e' =>
    refine current_eq (fun d hd hkey e he => ?_) (.inr ?_)
    · obtain ⟨e'', he'', heval⟩ := hgiven d hd hkey e he
      rw [hpreset] at he''
      cases he''
      exact heval
    · by_cases hnamed : c.named p.1
      · exact ⟨c, List.mem_cons_self, rfl, hnamed⟩
      · obtain ⟨d, hd, hd'⟩ := (h past c List.suffix_rfl).first p hp hnamed (by simp [hpreset])
        exact ⟨d, List.mem_cons_of_mem _ hd, hd'⟩

theorem current_update {past : List (Call P St)} {c : Call P St} (h : Meets M past c)
    (hp : p ∈ c.info.updateParams) :
    bindArg M c.info.updateParams ((positional c.info
      (P.source.emitted P.getFbInfo c.place c.site)).map (M.eval c.store)) p.1 =
        some (current M (c :: past) c.key p) := by
  obtain ⟨l, r, hsplit, hl, hr⟩ := h.update
  rw [positional_emitted c hsplit fun q hq => (hr q hq).2.1, hsplit]
  rw [hsplit, List.mem_append] at hp
  obtain hp | hp := hp
  · obtain ⟨e, he⟩ := Option.isSome_iff_exists.mp (hl p hp)
    rw [bindArg_given (f := fun q => c.site.arguments.lookup q) hl hp he, current, if_pos rfl, he]
  · obtain ⟨hbool, hnamed, hpast⟩ := hr p hp
    have hnone := Option.not_isSome_iff_eq_none.mp hnamed
    rw [bindArg_rest (f := fun q => c.site.arguments.lookup q) hl hnone,
      bindArg_nil (fun q hq => (hr q hq).1) hp, current, if_pos rfl, hnone,
      current_eq hpast (.inl (if_pos hbool))]

/-- When every call of a run meets the condition, every parameter is given what the source gives it. -/
theorem delivered (run : List (Call P St))
    (h : ∀ past c, c :: past <:+ run → Meets M past c) :
    ∀ past c, c :: past <:+ run → Delivered M past c := by
  intro past c hrun p hp
  have hmeets := h past c hrun
  obtain ⟨obj, hobj⟩ := hmeets.object
  obtain ⟨htype, hlookup⟩ := Source.lookup_object c.declared c.registered hobj
  rw [received, hobj]
  simp only [htype, hmeets.type, c.registered]
  split_ifs with hpreset
  · have hname : c.info.isPreset p.1 = true := by
      simpa [FBInfo.isPreset] using ⟨p.2, hpreset⟩
    rw [hlookup p.1 hname, current_preset (fun older d hd => h older d (hd.trans hrun)) hpreset]
    split <;> rfl
  · exact current_update hmeets ((List.mem_append.mp hp).resolve_left hpreset)

end

/-- A program whose only instance is a counter. -/
def counting (body : Body) : Setting where
  source :=
    { globalFbInstances := []
      program := ⟨"Main".toList, [], [], [], [⟨"c".toList, "CTU".toList, []⟩], body⟩
      functionBlocks := []
      secondaryPrograms := []
      distinct := by simp
      bare := by simp }
  getFbInfo := fun x => registry.lookup x
  varPrefix := []

def counting.call {body : Body} (arguments : Arguments) (top : Bool) (store : Bool)
    (h : ⟨"c".toList, arguments, top⟩ ∈ sites body) : Call (counting body) Bool where
  place := .main
  site := ⟨"c".toList, arguments, top⟩
  store := store
  key := .main "c".toList
  inst := ⟨"c".toList, "CTU".toList, []⟩
  info := CTU
  executed := h
  declared := rfl
  registered := rfl

/-- All variables are the same one. -/
def oneVariable : Semantics Bool LiteralValue where
  eval s e :=
    match e with
    | .literal v _ => v
    | _ => .bool s
  load := false
  zero := .int 0
  falsum := .bool false

def countThenTick : Body :=
  [.basic (.fbCall "c".toList
    [("CU".toList, .varRef "x".toList), ("PV".toList, .literal (.int 5) .INT)]),
   .ifElse (.varRef "x".toList)
    [.basic (.fbCall "c".toList [("CU".toList, .varRef "x".toList)])] [] none]

def count : Call (counting countThenTick) Bool :=
  counting.call [("CU".toList, .varRef "x".toList), ("PV".toList, .literal (.int 5) .INT)] true false
    List.mem_cons_self

def tick : Call (counting countThenTick) Bool :=
  counting.call [("CU".toList, .varRef "x".toList)] false true
    (List.mem_cons_of_mem _ List.mem_cons_self)

theorem count_meets : Meets oneVariable [] count where
  object := ⟨_, rfl⟩
  type := rfl
  update := by
    refine ⟨[("CU".toList, .BOOL)], [("RESET".toList, .BOOL)], rfl, ?_, ?_⟩
    · simp only [List.mem_singleton, forall_eq]
      rfl
    · simp only [List.mem_singleton, forall_eq, List.not_mem_nil, false_implies, implies_true,
        and_true, true_and]
      exact Bool.false_ne_true
  preset := by
    intro p hp e he
    obtain rfl := List.mem_singleton.mp hp
    cases he
    exact ⟨_, rfl, rfl⟩
  first := by
    intro p hp hnamed
    obtain rfl := List.mem_singleton.mp hp
    exact absurd rfl hnamed

theorem tick_meets : Meets oneVariable [count] tick where
  object := ⟨_, rfl⟩
  type := rfl
  update := by
    refine ⟨[("CU".toList, .BOOL)], [("RESET".toList, .BOOL)], rfl, ?_, ?_⟩
    · simp only [List.mem_singleton, forall_eq]
      rfl
    · simp only [List.mem_singleton, forall_eq]
      refine ⟨trivial, Bool.false_ne_true, fun _ e he => ?_⟩
      cases he
  preset := by
    intro p hp e he
    obtain rfl := List.mem_singleton.mp hp
    cases he
  first := by
    intro p hp _ _
    obtain rfl := List.mem_singleton.mp hp
    exact ⟨count, List.mem_cons_self, rfl, rfl⟩

theorem tick_delivered : Delivered oneVariable [count] tick := by
  refine delivered [tick, count] (fun past c hc => ?_) _ _ List.suffix_rfl
  obtain hc | hc := List.suffix_cons_iff.mp hc
  · cases hc
    exact tick_meets
  · obtain hc | hc := List.suffix_cons_iff.mp hc
    · cases hc
      exact count_meets
    · cases List.suffix_nil.mp hc

def justReset : Body := [.basic (.fbCall "c".toList [("RESET".toList, .varRef "x".toList)])]

/-- What is given as `RESET` is counted. -/
theorem not_delivered : ¬∀ run : List (Call (counting justReset) Bool),
    ∀ past c, c :: past <:+ run → Delivered oneVariable past c := by
  intro h
  have hreset := h [counting.call [("RESET".toList, .varRef "x".toList)] true true List.mem_cons_self]
    _ _ List.suffix_rfl ("CU".toList, .BOOL) (by decide)
  exact absurd hreset (by decide)

end Uniset.St2js.FBCalls
