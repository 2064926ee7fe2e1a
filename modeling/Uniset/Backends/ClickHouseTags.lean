import Mathlib.Logic.Function.Basic
import Uniset.Explode
import Uniset.Core
import Uniset.Lib.Substitution

/-! The tags that the backend of ClickHouse adds to a value by the states of other sensors. -/

namespace Uniset.Backends.ClickHouseTags

open Lib

abbrev Text := List Char

def to_string (n : Int) : Text :=
  if n < 0 then '-' :: Nat.toDigits 10 n.natAbs else Nat.toDigits 10 n.natAbs

structure Tag where
  key : Text
  value : Text
  orig_key : Text
  orig_value : Text
  deriving DecidableEq

structure Range where
  vmin : Int
  vmax : Int
  tags : List Tag
  needReplaceKey : Bool
  needReplaceVal : Bool
  deriving DecidableEq

/-- What is shown for a sensor: the tags `any_tags` as long as it is not 0, or those of the list of
ranges that is called `vit`. -/
structure TagsInfo where
  any_tags : List Tag
  vit : Option Text
  it : ObjectId
  prev_value : Int
  initOk : Bool
  sid : ObjectId
  deriving DecidableEq

abbrev TagList := List TagsInfo

/-- `smap` has the values of the sensors that the tags depend on. -/
structure TagsConfig where
  smap : ObjectId → Option Int
  tagsmap : List (Text × List Range)
  tags : List (ObjectId × TagList)

/-- The value of a key that may be new. -/
def assign {κ β : Type*} [DecidableEq κ] (k : κ) (v : β) : List (κ × β) → List (κ × β)
  | [] => [(k, v)]
  | p :: ps => if p.1 = k then (p.1, v) :: ps else p :: assign k v ps

/-! ## The configuration -/

/-- `none` as well where `explode_str` does not end. -/
def parseTag (t : Text) : Option Tag :=
  match explode_str (t.length + 2) t '=' with
  | some (key :: value :: _) => some ⟨key, value, key, value⟩
  | _ => none

def parseTags (s_tags : Text) (sep : Char) : Option (List Tag) :=
  (explode_str (s_tags.length + 2) s_tags sep).bind fun parts => parts.mapM parseTag

/-- An item of a list of ranges, with its tags. -/
inductive RangeItem
  | value (v : Int) (tags : Text)
  | range (lo hi : Int) (tags : Text)

def initRange : RangeItem → Option Range
  | .value v tags => (parseTags tags ',').map fun tags => ⟨v, v, tags, true, true⟩
  | .range lo hi tags =>
    (parseTags tags ' ').map fun tags =>
      if lo ≤ hi then ⟨lo, hi, tags, true, true⟩ else ⟨hi, lo, tags, true, true⟩

/-- The lists of ranges, each with a name; the first one with a name has it. -/
def initTagsMap (sections : List (Text × List RangeItem)) : Option (List (Text × List Range)) :=
  sections.mapM fun t =>
    if t.1 = [] ∨ t.2 = [] then none else (t.2.mapM initRange).map fun rlist => (t.1, rlist)

/-- What is set for a sensor; a sensor that is named and not known is none. -/
inductive Setting
  | none
  | dyn_tags (s_tags : Text) (sid : Option ObjectId) (default : Int)
  | dyn_values (s_values : Text) (sid : Option ObjectId) (default : Int)
  | tags (lst : List (Option ObjectId × Text))

def addState (smap : ObjectId → Option Int) (sid : ObjectId) (defval : Int) : ObjectId → Option Int :=
  if (smap sid).isSome then smap else Function.update smap sid (some defval)

def TagsConfig.listOf (c : TagsConfig) (id : ObjectId) : TagList := (c.tags.lookup id).getD []

def initFromTags (c : TagsConfig) (myId sid : ObjectId) (s_tags : Text) (default : Int) :
    Option TagsConfig :=
  (parseTags s_tags ' ').map fun any_tags =>
    { c with
      smap := addState c.smap sid default
      tags := assign myId [⟨any_tags, none, sid, 0, false, sid⟩] c.tags }

def initFromValues (c : TagsConfig) (myId sid : ObjectId) (s_values : Text) (default : Int) :
    Option TagsConfig :=
  (c.tagsmap.lookup s_values).map fun _ =>
    { c with
      smap := addState c.smap sid default
      tags := assign myId [⟨[], some s_values, sid, 0, false, sid⟩] c.tags }

/-- A sensor is in the list once, with the ranges that were given last. -/
def addTagsInfo (sid : ObjectId) (vit : Text) : TagList → TagList
  | [] => [⟨[], some vit, sid, 0, false, sid⟩]
  | t :: ts => if t.sid = sid then { t with vit := some vit } :: ts else t :: addTagsInfo sid vit ts

def initFromTagsList (myId : ObjectId) :
    List (Option ObjectId × Text) → TagsConfig → Option TagsConfig
  | [], c => some c
  | (none, _) :: _, _ => none
  | (some sid, values) :: ps, c =>
    if (c.tagsmap.lookup values).isSome then
      let lst := c.listOf myId
      initFromTagsList myId ps { c with
        smap := if lst.any (·.sid = sid) then c.smap else addState c.smap sid 0
        tags := assign myId (addTagsInfo sid values lst) c.tags }
    else none

def initFromItem (c : TagsConfig) (item : ObjectId × Setting) : Option TagsConfig :=
  match item.2 with
  | .none => some c
  | .dyn_tags s_tags sid default => sid.bind fun sid => initFromTags c item.1 sid s_tags default
  | .dyn_values s_values sid default => sid.bind fun sid => initFromValues c item.1 sid s_values default
  | .tags lst => initFromTagsList item.1 lst c

def load (sections : List (Text × List RangeItem)) (sensors : List (ObjectId × Setting)) :
    Option TagsConfig := do
  let tagsmap ← initTagsMap sections
  sensors.foldlM initFromItem ⟨fun _ => none, tagsmap, []⟩

/-! ## The tags of a sensor -/

/-- Values are shown for `%v`, `%min` and `%max`. -/
def Range.replaced (r : Range) (value : Int) (t : Text) : Text :=
  replaceAll ['%', 'm', 'a', 'x'] (to_string r.vmax)
    (replaceAll ['%', 'm', 'i', 'n'] (to_string r.vmin)
      (replaceAll ['%', 'v'] (to_string value) t))

/-- A text that is replaced as long as it is needed, and whether it is needed for the next one. -/
def replaceField (need : Bool) (text orig : Text) (cur : Text) : Text × Bool :=
  if need then (text, text ≠ orig) else (cur, need)

def updateTexts (text : Text → Text) : Bool → Bool → List Tag → List Tag × Bool × Bool
  | needReplaceKey, needReplaceVal, [] => ([], needReplaceKey, needReplaceVal)
  | needReplaceKey, needReplaceVal, t :: ts =>
    let k := replaceField needReplaceKey (text t.orig_key) t.orig_key t.key
    let v := replaceField needReplaceVal (text t.orig_value) t.orig_value t.value
    let rest := updateTexts text k.2 v.2 ts
    ({ t with key := k.1, value := v.1 } :: rest.1, rest.2)

def Range.updateText (r : Range) (value : Int) : Range :=
  let u := updateTexts (r.replaced value) r.needReplaceKey r.needReplaceVal r.tags
  { r with tags := u.1, needReplaceKey := u.2.1, needReplaceVal := u.2.2 }

def Range.checkInRange (r : Range) (value : Int) : Bool := r.vmin ≤ value ∧ value ≤ r.vmax

/-- The tags that are shown for a range; a text may be shown as it was left. -/
def Range.tagsAt (r : Range) (value : Int) : List Tag := if r.checkInRange value then r.tags else []

abbrev TagsMap := List (Text × List Range)

/-- One of the entries of a sensor; `none` if its list of ranges was never set. -/
def TagsInfo.makeTags (smap : ObjectId → Option Int) (m : TagsMap) (t : TagsInfo) :
    Option (List Tag × TagsMap × TagsInfo) := do
  let value ← smap t.it
  if t.any_tags ≠ [] then some (if value ≠ 0 then t.any_tags else [], m, t)
  else
    let name ← t.vit
    let ranges ← m.lookup name
    if value ≠ t.prev_value ∨ t.initOk = false then
      let ranges := ranges.map (·.updateText value)
      some (ranges.flatMap (·.tagsAt value), assign name ranges m,
        { t with prev_value := value, initOk := true })
    else some (ranges.flatMap (·.tagsAt value), m, t)

def makeTags (smap : ObjectId → Option Int) : TagsMap → TagList →
    Option (List Tag × TagsMap × TagList)
  | m, [] => some ([], m, [])
  | m, t :: ts => do
    let (tags, m, t) ← t.makeTags smap m
    let (tags', m, ts) ← makeTags smap m ts
    some (tags ++ tags', m, t :: ts)

def TagsConfig.getTags (c : TagsConfig) (id : ObjectId) : Option (List Tag × TagsConfig) :=
  match c.tags.lookup id with
  | none => some ([], c)
  | some lst =>
    (makeTags c.smap c.tagsmap lst).map fun (tags, m, lst) =>
      (tags, { c with tagsmap := m, tags := assign id lst c.tags })

def TagsConfig.updateTags (c : TagsConfig) (id : ObjectId) (value : Int) : Bool × TagsConfig :=
  if (c.smap id).isSome then (true, { c with smap := Function.update c.smap id (some value) })
  else (false, c)

inductive Call
  | updateTags (id : ObjectId) (value : Int)
  | getTags (id : ObjectId)

def TagsConfig.call (c : TagsConfig) : Call → Option TagsConfig
  | .updateTags id value => some (c.updateTags id value).2
  | .getTags id => (c.getTags id).map Prod.snd

def TagsConfig.run (c : TagsConfig) (calls : List Call) : Option TagsConfig :=
  calls.foldlM TagsConfig.call c

/-! ## The tags computed anew -/

def Tag.shown (text : Text → Text) (t : Tag) : Tag :=
  { t with key := text t.orig_key, value := text t.orig_value }

def Range.computed (r : Range) (value : Int) : List Tag :=
  if r.checkInRange value then r.tags.map (·.shown (r.replaced value)) else []

def rangesOf (m : TagsMap) (vit : Option Text) : List Range := (vit.bind fun name => m.lookup name).getD []

def TagsInfo.computed (smap : ObjectId → Option Int) (m : TagsMap) (t : TagsInfo) : List Tag :=
  let value := (smap t.it).getD 0
  if t.any_tags ≠ [] then if value ≠ 0 then t.any_tags else []
  else (rangesOf m t.vit).flatMap (·.computed value)

/-- The tags of a sensor by the texts as they are configured and the values of the sensors. -/
def TagsConfig.computed (c : TagsConfig) (smap : ObjectId → Option Int) (id : ObjectId) : List Tag :=
  (c.listOf id).flatMap (·.computed smap c.tagsmap)

/-! ## Configurations whose tags are never stale -/

/-- The text shows the value. -/
def HasValue (t : Text) : Prop := ['%', 'v'] <:+: t

instance (t : Text) : Decidable (HasValue t) := inferInstanceAs (Decidable (_ <:+: _))

/-- The text shows nothing of the range. -/
def Plain (t : Text) : Prop :=
  ¬HasValue t ∧ ¬['%', 'm', 'i', 'n'] <:+: t ∧ ¬['%', 'm', 'a', 'x'] <:+: t

instance (t : Text) : Decidable (Plain t) := inferInstanceAs (Decidable (_ ∧ _))

/-- After a plain text there are plain ones only, and then the value is not in the texts before. -/
structure Replaceable (ts : List Text) : Prop where
  pairwise : ts.Pairwise fun s t => Plain s → Plain t
  hasValue : (∀ t ∈ ts, ¬Plain t) ∨ ∀ t ∈ ts, ¬HasValue t

instance (ts : List Text) : Decidable (Replaceable ts) :=
  decidable_of_iff (ts.Pairwise (fun s t => Plain s → Plain t) ∧
    ((∀ t ∈ ts, ¬Plain t) ∨ ∀ t ∈ ts, ¬HasValue t)) ⟨fun h => ⟨h.1, h.2⟩, fun h => ⟨h.1, h.2⟩⟩

structure Range.Replaces (r : Range) : Prop where
  keys : Replaceable (r.tags.map Tag.orig_key)
  values : Replaceable (r.tags.map Tag.orig_value)

instance (r : Range) : Decidable r.Replaces :=
  decidable_of_iff (Replaceable (r.tags.map Tag.orig_key) ∧ Replaceable (r.tags.map Tag.orig_value))
    ⟨fun h => ⟨h.1, h.2⟩, fun h => ⟨h.1, h.2⟩⟩

/-- The texts of the range do not change with the value. -/
def Range.Constant (r : Range) : Prop := ∀ t ∈ r.tags, ¬HasValue t.orig_key ∧ ¬HasValue t.orig_value

instance (r : Range) : Decidable r.Constant := inferInstanceAs (Decidable (∀ _ ∈ _, _))

def TagsConfig.entries (c : TagsConfig) : List TagsInfo := c.tags.flatMap Prod.snd

/-- Two entries that do not share a list of ranges whose texts change with the value. -/
def Apart (m : TagsMap) (t t' : TagsInfo) : Prop :=
  t.any_tags ≠ [] ∨ t'.any_tags ≠ [] ∨ t.vit ≠ t'.vit ∨ ∀ r ∈ rangesOf m t.vit, r.Constant

instance (m : TagsMap) (t t' : TagsInfo) : Decidable (Apart m t t') := inferInstanceAs (Decidable (_ ∨ _))

structure TagsConfig.Suits (c : TagsConfig) : Prop where
  filled : ∀ t ∈ c.entries, t.any_tags ≠ [] ∨ t.vit ≠ none
  replaces : ∀ t ∈ c.entries, t.any_tags = [] → ∀ r ∈ rangesOf c.tagsmap t.vit, r.Replaces
  apart : c.entries.Pairwise (Apart c.tagsmap)

instance (c : TagsConfig) : Decidable c.Suits :=
  decidable_of_iff ((∀ t ∈ c.entries, t.any_tags ≠ [] ∨ t.vit ≠ none) ∧
    (∀ t ∈ c.entries, t.any_tags = [] → ∀ r ∈ rangesOf c.tagsmap t.vit, r.Replaces) ∧
    c.entries.Pairwise (Apart c.tagsmap))
    ⟨fun h => ⟨h.1, h.2.1, h.2.2⟩, fun h => ⟨h.1, h.2, h.3⟩⟩

end Uniset.Backends.ClickHouseTags
