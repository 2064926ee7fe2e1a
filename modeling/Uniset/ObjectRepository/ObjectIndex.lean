import Mathlib.Data.List.DropRight
import Mathlib.Data.List.Pairwise
import Mathlib.Data.UInt
import Uniset.Core
import Uniset.Lib.Emplace
import Uniset.Various.UniXML

/-! The index of the objects of a configuration, by name and by number. With `hashXML` the number
is a hash of the name, with `idXML` it is written beside the name. -/

namespace Uniset

mutual

def XmlNode.findNode (searchnode : String) : XmlNode → Option XmlNode
  | .node name xinclude props children =>
    if searchnode = name then some (.node name xinclude props children)
    else XmlNode.findNodes searchnode children

/-- The node and those next to it, each with all below it. -/
def XmlNode.findNodes (searchnode : String) : List XmlNode → Option XmlNode
  | [] => none
  | n :: next => (n.findNode searchnode).or (XmlNode.findNodes searchnode next)

end

/-! ## The hash of a name -/

def getblock (a b c d : UInt8) : UInt32 :=
  a.toUInt32 ||| b.toUInt32 <<< 8 ||| c.toUInt32 <<< 16 ||| d.toUInt32 <<< 24

def murmurMix (k : UInt32) : UInt32 :=
  let k := k * 0x5bd1e995
  let k := k ^^^ k >>> 24
  k * 0x5bd1e995

/-- The loop over the blocks of four bytes, and the up to three bytes behind them. -/
def murmurBlocks (h : UInt32) : List UInt8 → UInt32
  | a :: b :: c :: d :: data => murmurBlocks (h * 0x5bd1e995 ^^^ murmurMix (getblock a b c d)) data
  | [a, b, c] => (h ^^^ c.toUInt32 <<< 16 ^^^ b.toUInt32 <<< 8 ^^^ a.toUInt32) * 0x5bd1e995
  | [a, b] => (h ^^^ b.toUInt32 <<< 8 ^^^ a.toUInt32) * 0x5bd1e995
  | [a] => (h ^^^ a.toUInt32) * 0x5bd1e995
  | [] => h

def MurmurHash2 (key : List UInt8) (seed : UInt32) : UInt32 :=
  let h := murmurBlocks (seed ^^^ UInt32.ofNat key.length) key
  let h := h ^^^ h >>> 13
  let h := h * 0x5bd1e995
  h ^^^ h >>> 15

def hash32 (str : String) : UInt32 := MurmurHash2 str.toUTF8.toList 0

/-- The bytes of `test`. -/
example : MurmurHash2 [116, 101, 115, 116] 0 = 403862830 := by decide

namespace ObjectRepository

inductive Error
  | systemError (msg : String)
  | nameNotFound (msg : String)
  deriving DecidableEq

structure ObjectInfo where
  id : Int
  repName : String
  textName : String
  name : String
  deriving DecidableEq

structure ObjectIndex where
  mok : String → Option Int := fun _ => none
  omap : Int → Option ObjectInfo := fun _ => none

namespace ObjectIndex

def getIdByName (i : ObjectIndex) (name : String) : Int := (i.mok name).getD DefaultObjectId

def getObjectInfo (i : ObjectIndex) (id : Int) : Option ObjectInfo := i.omap id

def getMapName (i : ObjectIndex) (id : Int) : String := ((i.omap id).map (·.repName)).getD ""

def getShortName (i : ObjectIndex) (id : Int) : String := ((i.omap id).map (·.name)).getD ""

end ObjectIndex

/-- `ORepHelpers::getShortName`, of a full name. -/
def getShortName (fname : String) : String := String.ofList (fname.toList.rtakeWhile (· ≠ '/'))

/-- The front of every `read_section`: the front of the full names, and the nodes to go through. -/
def sectionNodes (cls : String) (xml : XmlNode) (sec : String) : Except Error (String × List XmlNode) :=
  let secRoot := ((xml.findNode "RootSection").map (·.getProp "name")).getD ""
  if secRoot = "" then
    .error (.systemError s!"({cls}::build):: не нашли параметр RootSection в конф. файле ")
  else
    match xml.findNode sec with
    | none => .error (.nameNotFound s!"({cls}::build): не нашли корневого раздела {sec}")
    | some root =>
      match root.goChildren with
      | none =>
        .error (.nameNotFound s!"({cls}::build): не удалось перейти к списку элементов {sec}")
      | some items =>
        let secname := if root.getProp "section" = "" then root.getProp "name" else root.getProp "section"
        if secname = "" then
          .error (.nameNotFound s!"({cls}::build): у секции {sec} не указано свойство 'name' ")
        else .ok (secRoot ++ "/" ++ secname ++ "/", items)

/-- The front of every `read_nodes`. -/
def nodeNodes (cls : String) (xml : XmlNode) (sec : String) : Except Error (List XmlNode) :=
  match xml.findNode sec with
  | none => .error (.nameNotFound s!"({cls}::build): не нашли корневого раздела {sec}")
  | some root =>
    match root.goChildren with
    | none =>
      .error (.nameNotFound s!"({cls}::build): не удалось перейти к списку элементов  секция {sec}")
    | some items => .ok items

namespace ObjectIndex

/-- Both tables keep what they have. -/
def insert (i : ObjectIndex) (inf : ObjectInfo) : ObjectIndex where
  mok := Lib.emplace i.mok inf.repName inf.id
  omap := Lib.emplace i.omap inf.id inf

end ObjectIndex

namespace hashXML

def cls : String := "ObjectIndex_hashXML"

def idError (file : String) : Error :=
  .systemError s!"(ObjectIndex_hashXML): ERROR in {file} format: Don\x60t use id='xxx' or use flag 'idfromfile' in <ObjectsMap idfromfile='1'>"

def sectionInfo (file secname : String) (it : XmlNode) : Except Error ObjectInfo :=
  if it.getProp "id" ≠ "" then .error (idError file)
  else if it.getProp "name" = "" then
    .error (.systemError s!"Unknown name fot item (section '{secname}'). User name='xxx'")
  else
    .ok {
      id := (hash32 (it.getProp "name")).toNat
      repName := secname ++ it.getProp "name"
      textName := if it.getProp "textname" = "" then it.getProp "name" else it.getProp "textname"
      name := it.getProp "name" }

def nodeInfo (file : String) (it : XmlNode) : Except Error ObjectInfo :=
  if it.getProp "id" ≠ "" then .error (idError file)
  else
    .ok {
      id := (hash32 (it.getProp "name")).toNat
      repName := it.getProp "name"
      textName := if it.getProp "textname" = "" then it.getProp "name" else it.getProp "textname"
      name := it.getProp "name" }

/-- The name of what has the number already, for the message. -/
def collName (i : ObjectIndex) (id : Int) : String := i.getShortName id

def addItem (i : ObjectIndex) (inf : ObjectInfo) : Except Error ObjectIndex :=
  if (i.mok inf.repName).isSome then
    .error (.systemError s!"Name collision. The '{inf.repName}' already exists.")
  else if (i.omap inf.id).isSome then
    .error (.systemError s!"ID '{inf.name}' has collision with '{collName i inf.id}'")
  else .ok (i.insert inf)

def addNode (i : ObjectIndex) (inf : ObjectInfo) : Except Error ObjectIndex :=
  if (i.omap inf.id).isSome then
    .error (.systemError s!"NodeID '{inf.name}' has collision with '{collName i inf.id}'")
  else if (i.mok inf.repName).isSome then
    .error (.systemError s!"Node name collision. The '{inf.repName}' already exists.")
  else .ok (i.insert inf)

def read_section (file : String) (xml : XmlNode) (sec : String) (i : ObjectIndex) :
    Except Error ObjectIndex := do
  let (secname, items) ← sectionNodes cls xml sec
  items.foldlM (fun i it => do addItem i (← sectionInfo file secname it)) i

def read_nodes (file : String) (xml : XmlNode) (sec : String) (i : ObjectIndex) :
    Except Error ObjectIndex := do
  let items ← nodeNodes cls xml sec
  items.foldlM (fun i it => do addNode i (← nodeInfo file it)) i

def build (file : String) (xml : XmlNode) : Except Error ObjectIndex := do
  let i ← read_section file xml "sensors" {}
  let i ← read_section file xml "objects" i
  let i ← read_section file xml "controllers" i
  let i ← read_section file xml "services" i
  read_nodes file xml "nodes" i

end hashXML

namespace idXML

def cls : String := "ObjectIndex_idXML"

def sectionInfo (secname sec : String) (it : XmlNode) : Except Error ObjectInfo :=
  let id := if it.getProp "id" = "" then DefaultObjectId else uni_atoi (it.getProp "id")
  if id = DefaultObjectId then
    let name := it.getProp "name"
    .error (.nameNotFound s!"(ObjectIndex_idXML::build): НЕ УКАЗАН id для {name} секция {sec}")
  else
    .ok {
      id := id
      repName := secname ++ it.getProp "name"
      textName := it.getProp "textname"
      name := it.getProp "name" }

def nodeInfo (it : XmlNode) : Except Error ObjectInfo :=
  if uni_atoi (it.getProp "id") ≤ 0 then
    let name := it.getProp "name"
    .error (.nameNotFound s!"(ObjectIndex_idXML::build): НЕ УКАЗАН id для {name}\n")
  else
    .ok {
      id := uni_atoi (it.getProp "id")
      repName := it.getProp "name"
      textName := it.getProp "textname"
      name := it.getProp "name" }

def read_section (xml : XmlNode) (sec : String) (i : ObjectIndex) : Except Error ObjectIndex := do
  let (secname, items) ← sectionNodes cls xml sec
  items.foldlM (fun i it => do return i.insert (← sectionInfo secname sec it)) i

def read_nodes (xml : XmlNode) (sec : String) (i : ObjectIndex) : Except Error ObjectIndex := do
  let items ← nodeNodes cls xml sec
  items.foldlM (fun i it => do return i.insert (← nodeInfo it)) i

def build (xml : XmlNode) : Except Error ObjectIndex := do
  let i ← read_section xml "sensors" {}
  let i ← read_section xml "objects" i
  let i ← read_section xml "controllers" i
  let i ← read_section xml "services" i
  read_nodes xml "nodes" i

end idXML

/-! ## What is read -/

def sectionInfos (cls : String) (info : String → String → XmlNode → Except Error ObjectInfo)
    (xml : XmlNode) (sec : String) : Except Error (List ObjectInfo) := do
  let (secname, items) ← sectionNodes cls xml sec
  items.mapM (info secname sec)

def nodeInfos (cls : String) (info : XmlNode → Except Error ObjectInfo) (xml : XmlNode) (sec : String) :
    Except Error (List ObjectInfo) := do
  (← nodeNodes cls xml sec).mapM info

/-- All objects of a configuration, in the order they are read. -/
def listing (cls : String) (info : String → String → XmlNode → Except Error ObjectInfo)
    (nodeInfo : XmlNode → Except Error ObjectInfo) (xml : XmlNode) : Except Error (List ObjectInfo) := do
  let sensors ← sectionInfos cls info xml "sensors"
  let objects ← sectionInfos cls info xml "objects"
  let controllers ← sectionInfos cls info xml "controllers"
  let services ← sectionInfos cls info xml "services"
  let nodes ← nodeInfos cls nodeInfo xml "nodes"
  return sensors ++ (objects ++ (controllers ++ (services ++ nodes)))

def hashXML.listing (file : String) : XmlNode → Except Error (List ObjectInfo) :=
  ObjectRepository.listing cls (fun secname _ => sectionInfo file secname) (nodeInfo file)

def idXML.listing : XmlNode → Except Error (List ObjectInfo) :=
  ObjectRepository.listing cls sectionInfo nodeInfo

theorem bind_eq_ok_iff {α β : Type} {x : Except Error α} {f : α → Except Error β} {b : β} :
    (x >>= f) = .ok b ↔ ∃ a, x = .ok a ∧ f a = .ok b := by
  cases x with
  | error e =>
    constructor
    · intro h
      cases h
    · rintro ⟨_, h, _⟩
      cases h
  | ok a => exact ⟨fun h => ⟨a, rfl, h⟩, fun ⟨_, h, hf⟩ => Except.ok.inj h ▸ hf⟩

/-- Each object may be put in beside those before it. -/
def Admits (fits : ObjectIndex → ObjectInfo → Prop) : ObjectIndex → List ObjectInfo → Prop
  | _, [] => True
  | i, e :: es => fits i e ∧ Admits fits (i.insert e) es

theorem admits_append {fits : ObjectIndex → ObjectInfo → Prop} {i : ObjectIndex}
    {es es' : List ObjectInfo} : Admits fits i (es ++ es') ↔
      Admits fits i es ∧ Admits fits (es.foldl ObjectIndex.insert i) es' := by
  induction es generalizing i with
  | nil => simp [Admits]
  | cons e es ih => simp [Admits, ih, and_assoc]

/-- A reading puts in what it lists, if that fits. -/
def Reads (fits : ObjectIndex → ObjectInfo → Prop) (f : ObjectIndex → Except Error ObjectIndex)
    (infos : Except Error (List ObjectInfo)) : Prop :=
  ∀ i j, f i = .ok j ↔
    ∃ es, infos = .ok es ∧ Admits fits i es ∧ j = es.foldl ObjectIndex.insert i

namespace Reads

variable {fits : ObjectIndex → ObjectInfo → Prop} {f g : ObjectIndex → Except Error ObjectIndex}
  {infos infos' : Except Error (List ObjectInfo)}

theorem comp (hf : Reads fits f infos) (hg : Reads fits g infos') :
    Reads fits (fun i => f i >>= g) (infos >>= fun es => infos' >>= fun es' => pure (es ++ es')) := by
  intro i j
  constructor
  · intro h
    obtain ⟨m, hm, hj⟩ := bind_eq_ok_iff.mp h
    obtain ⟨es, hes, hadmits, rfl⟩ := (hf i m).mp hm
    obtain ⟨es', hes', hadmits', rfl⟩ := (hg _ j).mp hj
    refine ⟨es ++ es', ?_, admits_append.mpr ⟨hadmits, hadmits'⟩, List.foldl_append.symm⟩
    rw [hes, hes']
    rfl
  · rintro ⟨all, h, hadmits, rfl⟩
    obtain ⟨es, hes, h⟩ := bind_eq_ok_iff.mp h
    obtain ⟨es', hes', h⟩ := bind_eq_ok_iff.mp h
    obtain rfl : es ++ es' = all := Except.ok.inj h
    obtain ⟨hadmits, hadmits'⟩ := admits_append.mp hadmits
    refine bind_eq_ok_iff.mpr ⟨_, (hf i _).mpr ⟨es, hes, hadmits, rfl⟩, ?_⟩
    exact (hg _ _).mpr ⟨es', hes', hadmits', List.foldl_append⟩

theorem bind {α : Type} {x : Except Error α} {f : α → ObjectIndex → Except Error ObjectIndex}
    {infos : α → Except Error (List ObjectInfo)} (h : ∀ a, Reads fits (f a) (infos a)) :
    Reads fits (fun i => x >>= fun a => f a i) (x >>= infos) := by
  intro i j
  cases x with
  | error e =>
    constructor
    · intro h
      cases h
    · rintro ⟨_, h, _⟩
      cases h
  | ok a => exact h a i j

theorem foldlM {add : ObjectIndex → ObjectInfo → Except Error ObjectIndex}
    (hadd : ∀ i e j, add i e = .ok j ↔ fits i e ∧ j = i.insert e)
    (info : XmlNode → Except Error ObjectInfo) (items : List XmlNode) :
    Reads fits (fun i => items.foldlM (fun i it => info it >>= add i) i) (items.mapM info) := by
  induction items with
  | nil =>
    intro i j
    rw [List.mapM_nil]
    constructor
    · intro h
      exact ⟨[], rfl, trivial, (Except.ok.inj h).symm⟩
    · rintro ⟨es, h, -, rfl⟩
      rw [← Except.ok.inj h]
      rfl
  | cons it items ih =>
    intro i j
    simp only [List.foldlM_cons, List.mapM_cons, bind_eq_ok_iff]
    constructor
    · rintro ⟨m, ⟨e, he, hm⟩, hj⟩
      obtain ⟨hfits, rfl⟩ := (hadd i e m).mp hm
      obtain ⟨es, hes, hadmits, rfl⟩ := (ih _ j).mp hj
      exact ⟨e :: es, ⟨e, he, es, hes, rfl⟩, ⟨hfits, hadmits⟩, rfl⟩
    · rintro ⟨all, ⟨e, he, es, hes, hall⟩, hadmits, rfl⟩
      obtain rfl : e :: es = all := Except.ok.inj hall
      exact ⟨i.insert e, ⟨e, he, (hadd i e _).mpr ⟨hadmits.1, rfl⟩⟩, (ih _ _).mpr ⟨es, hes, hadmits.2, rfl⟩⟩

end Reads

/-- Two objects that are told apart by name and by number. -/
def Apart (a b : ObjectInfo) : Prop := a.repName ≠ b.repName ∧ a.id ≠ b.id

def hashXML.Fits (i : ObjectIndex) (e : ObjectInfo) : Prop :=
  i.mok e.repName = none ∧ i.omap e.id = none

theorem hashXML.addItem_eq_ok (i : ObjectIndex) (e : ObjectInfo) (j : ObjectIndex) :
    addItem i e = .ok j ↔ Fits i e ∧ j = i.insert e := by
  unfold addItem Fits
  cases i.mok e.repName <;> cases i.omap e.id <;> simp [eq_comm]

theorem hashXML.addNode_eq_ok (i : ObjectIndex) (e : ObjectInfo) (j : ObjectIndex) :
    addNode i e = .ok j ↔ Fits i e ∧ j = i.insert e := by
  unfold addNode Fits
  cases i.mok e.repName <;> cases i.omap e.id <;> simp [eq_comm]

theorem hashXML.reads_section (file : String) (xml : XmlNode) (sec : String) :
    Reads Fits (read_section file xml sec)
      (sectionInfos cls (fun secname _ => sectionInfo file secname) xml sec) :=
  Reads.bind fun p => Reads.foldlM addItem_eq_ok (sectionInfo file p.1) p.2

theorem hashXML.reads_nodes (file : String) (xml : XmlNode) (sec : String) :
    Reads Fits (read_nodes file xml sec) (nodeInfos cls (nodeInfo file) xml sec) :=
  Reads.bind fun items => Reads.foldlM addNode_eq_ok (nodeInfo file) items

theorem listing_eq (cls : String) (info : String → String → XmlNode → Except Error ObjectInfo)
    (nodeInfo : XmlNode → Except Error ObjectInfo) (xml : XmlNode) :
    listing cls info nodeInfo xml =
      sectionInfos cls info xml "sensors" >>= fun a =>
        (sectionInfos cls info xml "objects" >>= fun b =>
          (sectionInfos cls info xml "controllers" >>= fun c =>
            (sectionInfos cls info xml "services" >>= fun d =>
              nodeInfos cls nodeInfo xml "nodes" >>= fun e => pure (d ++ e)) >>= fun e =>
                pure (c ++ e)) >>= fun e => pure (b ++ e)) >>= fun e => pure (a ++ e) := by
  simp only [listing, bind_assoc, pure_bind]

theorem hashXML.build_eq_ok {file : String} {xml : XmlNode} {i : ObjectIndex} :
    build file xml = .ok i ↔
      ∃ es, listing file xml = .ok es ∧ Admits Fits {} es ∧ i = es.foldl ObjectIndex.insert {} := by
  rw [listing, listing_eq]
  have hread := reads_section file xml
  exact ((hread "sensors").comp <| (hread "objects").comp <| (hread "controllers").comp <|
    (hread "services").comp (reads_nodes file xml "nodes")) {} i

theorem hashXML.admits_iff (i : ObjectIndex) (es : List ObjectInfo) :
    Admits Fits i es ↔ (∀ e ∈ es, Fits i e) ∧ es.Pairwise Apart := by
  induction es generalizing i with
  | nil => simp [Admits]
  | cons e es ih =>
    have hinsert : ∀ e', Fits (i.insert e) e' ↔ Fits i e' ∧ Apart e e' := by
      intro e'
      simp only [Fits, Apart, ObjectIndex.insert, Lib.emplace_apply, Option.or_eq_none_iff]
      split_ifs <;> simp_all
    simp only [Admits, ih, hinsert, List.forall_mem_cons, List.pairwise_cons]
    constructor
    · rintro ⟨he, hes, hapart⟩
      exact ⟨⟨he, fun e' h => (hes e' h).1⟩, fun e' h => (hes e' h).2, hapart⟩
    · rintro ⟨⟨he, hes⟩, hone, hapart⟩
      exact ⟨he, fun e' h => ⟨hes e' h, hone e' h⟩, hapart⟩

def idXML.Fits (_ : ObjectIndex) (_ : ObjectInfo) : Prop := True

theorem idXML.insert_eq_ok (i : ObjectIndex) (e : ObjectInfo) (j : ObjectIndex) :
    (pure (i.insert e) : Except Error ObjectIndex) = .ok j ↔ Fits i e ∧ j = i.insert e :=
  ⟨fun h => ⟨trivial, (Except.ok.inj h).symm⟩, fun h => congrArg Except.ok h.2.symm⟩

theorem idXML.admits (i : ObjectIndex) (es : List ObjectInfo) : Admits Fits i es := by
  induction es generalizing i with
  | nil => trivial
  | cons e es ih => exact ⟨trivial, ih _⟩

theorem idXML.reads_section (xml : XmlNode) (sec : String) :
    Reads Fits (read_section xml sec) (sectionInfos cls sectionInfo xml sec) :=
  Reads.bind fun p => Reads.foldlM insert_eq_ok (sectionInfo p.1 sec) p.2

theorem idXML.reads_nodes (xml : XmlNode) (sec : String) :
    Reads Fits (read_nodes xml sec) (nodeInfos cls nodeInfo xml sec) :=
  Reads.bind fun items => Reads.foldlM insert_eq_ok nodeInfo items

theorem idXML.build_eq_ok {xml : XmlNode} {i : ObjectIndex} :
    build xml = .ok i ↔ ∃ es, listing xml = .ok es ∧ i = es.foldl ObjectIndex.insert {} := by
  rw [listing, listing_eq]
  have hread := reads_section xml
  have h := ((hread "sensors").comp <| (hread "objects").comp <| (hread "controllers").comp <|
    (hread "services").comp (reads_nodes xml "nodes")) {} i
  exact h.trans (exists_congr fun es => and_congr_right fun _ => and_iff_right (admits {} es))

/-! ## What is found -/

namespace ObjectIndex

variable {es : List ObjectInfo}

theorem foldl_insert (es : List ObjectInfo) (i : ObjectIndex) : es.foldl insert i =
    ⟨es.foldl (fun m e => Lib.emplace m e.repName e.id) i.mok,
      es.foldl (fun m e => Lib.emplace m e.id e) i.omap⟩ := by
  induction es generalizing i with
  | nil => rfl
  | cons e es ih => exact ih (i.insert e)

theorem mok_foldl (es : List ObjectInfo) (name : String) :
    (es.foldl insert {}).mok name = (es.find? fun e => e.repName = name).map (·.id) := by
  rw [foldl_insert]
  exact (Lib.foldl_emplace (·.repName) (·.id) es _ name).trans Option.none_or

theorem omap_foldl (es : List ObjectInfo) (id : Int) :
    (es.foldl insert {}).omap id = es.find? fun e => e.id = id := by
  rw [foldl_insert]
  refine (Lib.foldl_emplace (·.id) (fun e => e) es _ id).trans ?_
  rw [Option.none_or, Option.map_id']

end ObjectIndex

section

variable {P : ObjectInfo → Prop}

theorem forall_of_mapM {info : XmlNode → Except Error ObjectInfo}
    (hinfo : ∀ it e, info it = .ok e → P e) {items : List XmlNode} {es : List ObjectInfo}
    (h : items.mapM info = .ok es) : ∀ e ∈ es, P e := by
  induction items generalizing es with
  | nil =>
    rw [List.mapM_nil] at h
    rw [← Except.ok.inj h]
    exact List.forall_mem_nil P
  | cons it items ih =>
    rw [List.mapM_cons] at h
    obtain ⟨e, he, h⟩ := bind_eq_ok_iff.mp h
    obtain ⟨es', hes', h⟩ := bind_eq_ok_iff.mp h
    rw [← Except.ok.inj h]
    exact List.forall_mem_cons.mpr ⟨hinfo it e he, ih hes'⟩

theorem sectionNodes_front {cls : String} {xml : XmlNode} {sec secname : String} {items : List XmlNode}
    (h : sectionNodes cls xml sec = .ok (secname, items)) : ∃ front, secname = front ++ "/" := by
  unfold sectionNodes at h
  dsimp only at h
  split_ifs at h
  split at h
  · cases h
  split at h
  · cases h
  split_ifs at h
  all_goals
    obtain ⟨rfl, -⟩ := Prod.mk.inj (Except.ok.inj h)
    exact ⟨_, rfl⟩

theorem forall_of_listing {cls : String} {info : String → String → XmlNode → Except Error ObjectInfo}
    {nodeInfo : XmlNode → Except Error ObjectInfo}
    (hinfo : ∀ front sec it e, info (front ++ "/") sec it = .ok e → P e)
    (hnode : ∀ it e, nodeInfo it = .ok e → P e) {xml : XmlNode} {es : List ObjectInfo}
    (h : listing cls info nodeInfo xml = .ok es) : ∀ e ∈ es, P e := by
  have hsection : ∀ sec es, sectionInfos cls info xml sec = .ok es → ∀ e ∈ es, P e := by
    intro sec es h
    obtain ⟨⟨secname, items⟩, hp, h⟩ := bind_eq_ok_iff.mp h
    obtain ⟨front, rfl⟩ := sectionNodes_front hp
    exact forall_of_mapM (hinfo front sec) h
  obtain ⟨sensors, hsensors, h⟩ := bind_eq_ok_iff.mp h
  obtain ⟨objects, hobjects, h⟩ := bind_eq_ok_iff.mp h
  obtain ⟨controllers, hcontrollers, h⟩ := bind_eq_ok_iff.mp h
  obtain ⟨services, hservices, h⟩ := bind_eq_ok_iff.mp h
  obtain ⟨nodes, hnodes, h⟩ := bind_eq_ok_iff.mp h
  obtain ⟨items, -, hnodes⟩ := bind_eq_ok_iff.mp hnodes
  obtain rfl := Except.ok.inj h
  simp only [List.forall_mem_append]
  exact ⟨hsection _ _ hsensors, hsection _ _ hobjects, hsection _ _ hcontrollers,
    hsection _ _ hservices, forall_of_mapM hnode hnodes⟩

end

/-- The full name is the name behind a path, if there is one. -/
def Named (e : ObjectInfo) : Prop :=
  e.repName = e.name ∨ ∃ front : String, e.repName = front ++ "/" ++ e.name

theorem takeWhile_append_cons {α : Type*} {p : α → Bool} {a : α} (h : ¬p a) (l l' : List α) :
    (l ++ a :: l').takeWhile p = l.takeWhile p := by
  induction l with
  | nil => exact List.takeWhile_cons_of_neg h
  | cons b l ih =>
    rw [List.cons_append, List.takeWhile_cons, List.takeWhile_cons, ih]

/-- The name is found behind the last separator, unless it has one of its own. -/
theorem getShortName_repName {e : ObjectInfo} (h : Named e) :
    getShortName e.repName = e.name ↔ '/' ∉ e.name.toList := by
  have hname : e.repName.toList.rtakeWhile (· ≠ '/') = e.name.toList.rtakeWhile (· ≠ '/') := by
    rcases h with h | ⟨front, h⟩
    · rw [h]
    · have hfront : e.repName.toList = front.toList ++ '/' :: e.name.toList := by
        rw [h, String.toList_append, String.toList_append, List.append_assoc]
        rfl
      rw [hfront, List.rtakeWhile, List.rtakeWhile, List.reverse_append, List.reverse_cons,
        List.append_assoc, List.singleton_append, takeWhile_append_cons (by simp)]
  rw [getShortName, hname, ← String.toList_inj, String.toList_ofList, List.rtakeWhile_eq_self_iff]
  constructor
  · intro hall hmem
    exact absurd rfl (of_decide_eq_true (hall '/' hmem))
  · intro hnot c hc
    exact decide_eq_true fun heq => hnot (heq ▸ hc)

theorem hashXML.listed {file : String} {xml : XmlNode} {es : List ObjectInfo}
    (h : listing file xml = .ok es) : ∀ e ∈ es, Named e ∧ e.id = (hash32 e.name).toNat := by
  refine forall_of_listing (fun front sec it e he => ?_) (fun it e he => ?_) h
  · unfold sectionInfo at he
    split_ifs at he <;> obtain rfl := Except.ok.inj he <;> exact ⟨.inr ⟨front, rfl⟩, rfl⟩
  · unfold nodeInfo at he
    split_ifs at he
    all_goals
      obtain rfl := Except.ok.inj he
      exact ⟨.inl rfl, rfl⟩

theorem find_of_apart {es : List ObjectInfo} (h : es.Pairwise Apart) {e : ObjectInfo} (he : e ∈ es) :
    (es.find? fun e' => e'.repName = e.repName) = some e ∧
      (es.find? fun e' => e'.id = e.id) = some e := by
  have hsymm : Std.Symm Apart := ⟨fun a b hab => ⟨hab.1.symm, hab.2.symm⟩⟩
  have hname := (Lib.find_map_eq_iff (·.repName) (fun e => e) es).mpr fun a ha b hb heq => by
    by_contra hne
    exact (h.forall ha hb hne).1 heq
  have hid := (Lib.find_map_eq_iff (·.id) (fun e => e) es).mpr fun a ha b hb heq => by
    by_contra hne
    exact (h.forall ha hb hne).2 heq
  have h1 := hname e he
  have h2 := hid e he
  rw [Option.map_id'] at h1 h2
  exact ⟨h1, h2⟩

theorem getD_eq_iff {α : Type*} {o : Option α} {d a : α} (h : o.isSome) : o.getD d = a ↔ o = some a := by
  obtain ⟨b, rfl⟩ := Option.isSome_iff_exists.mp h
  exact (Option.some_inj ..).symm

/-- The index is built whatever repeats, and keeps what is first. Each object is found as itself, by its
name and by its number, exactly if those with one name have one number and the other way round. -/
theorem idXML.build_id_iff (xml : XmlNode) :
    ((∃ i, build xml = .ok i) ↔ ∃ es, listing xml = .ok es) ∧
      ∀ i, build xml = .ok i → ∃ es, listing xml = .ok es ∧
        (∀ name, i.getIdByName name =
          ((es.find? fun e => e.repName = name).map (·.id)).getD DefaultObjectId) ∧
        (∀ id, i.getObjectInfo id = es.find? fun e => e.id = id) ∧
        ((∀ e ∈ es, i.getIdByName e.repName = e.id ∧ i.getMapName e.id = e.repName) ↔
          ∀ e ∈ es, ∀ e' ∈ es, e.repName = e'.repName ↔ e.id = e'.id) := by
  refine ⟨⟨?_, ?_⟩, ?_⟩
  · rintro ⟨i, hi⟩
    obtain ⟨es, hes, -⟩ := build_eq_ok.mp hi
    exact ⟨es, hes⟩
  · rintro ⟨es, hes⟩
    exact ⟨_, build_eq_ok.mpr ⟨es, hes, rfl⟩⟩
  · intro i hi
    obtain ⟨es, hes, rfl⟩ := build_eq_ok.mp hi
    refine ⟨es, hes, fun name => ?_, ObjectIndex.omap_foldl es, ?_⟩
    · rw [ObjectIndex.getIdByName, ObjectIndex.mok_foldl]
    have hname := Lib.find_map_eq_iff (·.repName) (·.id) es
    have hid := Lib.find_map_eq_iff (·.id) (·.repName) es
    have hfound : ∀ e ∈ es, ((es.foldl ObjectIndex.insert {}).getIdByName e.repName = e.id ∧
        (es.foldl ObjectIndex.insert {}).getMapName e.id = e.repName ↔
        (es.find? fun e' => e'.repName = e.repName).map (·.id) = some e.id ∧
          (es.find? fun e' => e'.id = e.id).map (·.repName) = some e.repName) := by
      intro e he
      rw [ObjectIndex.getIdByName, ObjectIndex.getMapName, ObjectIndex.mok_foldl,
        ObjectIndex.omap_foldl, getD_eq_iff, getD_eq_iff]
      · rw [Option.isSome_map, List.find?_isSome]
        exact ⟨e, he, decide_eq_true rfl⟩
      · rw [Option.isSome_map, List.find?_isSome]
        exact ⟨e, he, decide_eq_true rfl⟩
    constructor
    · intro h e he e' he'
      exact ⟨hname.mp (fun e he => ((hfound e he).mp (h e he)).1) e he e' he',
        hid.mp (fun e he => ((hfound e he).mp (h e he)).2) e he e' he'⟩
    · intro h e he
      exact (hfound e he).mpr ⟨hname.mpr (fun e he e' he' => (h e he e' he').mp) e he,
        hid.mpr (fun e he e' he' => (h e he e' he').mpr) e he⟩

end ObjectRepository

end Uniset
