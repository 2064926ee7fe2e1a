import Uniset.Processes.USensorInfo
import Uniset.Core
import Uniset.Various.UniXML

/-! The access lists of the configuration, and whose rights their entries become. -/

namespace Uniset.Processes

open Uniset.XmlNode

/-- `std::tolower` on each byte, in the locale of the language. -/
def AccessMask.toLower (s : String) : String := s.map Char.toLower

def AccessMask.fromString (m : String) : AccessMask :=
  if m = "" then AccessUnknown
  else
    let s := AccessMask.toLower m
    if s = "rd" ∨ s = "read" ∨ s = "ro" ∨ s = "r" then ⟨READ⟩
    else if s = "wr" ∨ s = "write" ∨ s = "w" then ⟨WRITE⟩
    else if s = "rw" then ⟨READ ||| WRITE⟩
    else if s = "none" then ⟨NONE⟩
    else AccessUnknown

namespace AccessConfig

/-- What is asked of the configuration: the identifier of a name, in any of its sections. -/
structure Configuration where
  find : String → ObjectId

def Configuration.getAnyID (conf : Configuration) (name : String) : ObjectId :=
  if is_digit name then uni_atoi name else conf.find name

abbrev ACLMap := List (String × ACL)

variable (conf : Configuration) (err : String)

/-- The process of an identifier or, if there is none, of a name. -/
def process (id pname : String) : ObjectId :=
  if id ≠ "" then uni_atoi id else if pname ≠ "" then conf.getAnyID pname else DefaultObjectId

/-- The identifier is asked of the list, the name of the entry. -/
def entryProcess (it ia : XmlNode) : ObjectId := process conf (it.getProp "id") (ia.getProp "name")

def setPermission (pid : ObjectId) (mask : AccessMask) (permissions : List (ObjectId × AccessMask)) :
    List (ObjectId × AccessMask) :=
  (pid, mask) :: permissions.filter fun p => p.1 ≠ pid

def readEntries (aclName : String) (it : XmlNode) : List XmlNode → ACL → Except String ACL
  | [], acl => .ok acl
  | ia :: rest, acl =>
    let perm := ia.getProp "permission"
    if perm = "" then .error (err ++ " error: Unknown 'permission' in acl=" ++ aclName)
    else
      let pid := entryProcess conf it ia
      if pid = DefaultObjectId then
        .error (err ++ " error: Not found ID for '" ++ ia.getProp "name" ++ "' in acl=" ++ aclName)
      else
        readEntries aclName it rest
          { acl with permissions := setPermission pid (AccessMask.fromString perm) acl.permissions }

/-- The list with its default, before the entries. -/
def emptyAcl (it : XmlNode) : ACL :=
  let defStr := it.getProp "default"
  ⟨if defStr ≠ "" then AccessMask.fromString defStr else AccessUnknown, []⟩

def readAcl (it : XmlNode) : Except String ACL :=
  let aclName := it.getProp "name"
  if aclName = "" then .error (err ++ " error: unknown ACL name")
  else match it.goChildren with
  | none => .error (err ++ " error: empty list for acl=" ++ aclName)
  | some entries => readEntries conf err aclName it entries (emptyAcl it)

def readAcls : List XmlNode → ACLMap → Except String ACLMap
  | [], out => .ok out
  | it :: rest, out =>
    match readAcl conf err it with
    | .error e => .error e
    | .ok acl =>
      let aclName := it.getProp "name"
      if (out.lookup aclName).isSome then .error (err ++ " duplicate acl=" ++ aclName)
      else readAcls rest ((aclName, acl) :: out)

/-- The lists of a section, if it has been found. -/
def acls (root : Option XmlNode) : List XmlNode := (root.bind goChildren).getD []

/-- `AccessConfig::read` after the section has been looked for. -/
def read (fileName name sect : String) (root : Option XmlNode) : Except String ACLMap :=
  readAcls conf ("(AccessConfig): file=" ++ fileName ++ " section=" ++ sect ++ " confname=" ++ name)
    (acls root) []

def entries (it : XmlNode) : List XmlNode := it.goChildren.getD []

/-- The process that an entry names by its own identifier or name. -/
def ownProcess (ia : XmlNode) : ObjectId := process conf (ia.getProp "id") (ia.getProp "name")

/-- The permission of the last entry of a process. -/
def lastPermission (who : XmlNode → ObjectId) (l : List XmlNode) (pid : ObjectId) : Option AccessMask :=
  (l.reverse.find? fun ia => who ia = pid).map fun ia => AccessMask.fromString (ia.getProp "permission")

/-- A list that can be read, when its entries are taken to be of the processes `who`. -/
structure Readable (who : XmlNode → ObjectId) (it : XmlNode) : Prop where
  name : it.getProp "name" ≠ ""
  children : it.goChildren.isSome
  permission : ∀ ia ∈ entries it, ia.getProp "permission" ≠ ""
  process : ∀ ia ∈ entries it, who ia ≠ DefaultObjectId

def Distinct (lists : List XmlNode) : Prop :=
  lists.Pairwise fun a b => a.getProp "name" ≠ b.getProp "name"

/-- Every list has a name of its own and entries, and every entry a permission and a known process. -/
structure WellFormed (lists : List XmlNode) : Prop where
  readable : ∀ it ∈ lists, Readable (ownProcess conf) it
  nonempty : ∀ it ∈ lists, entries it ≠ []
  distinct : Distinct lists

/-- The list that is made of its element, with its entries taken to be of the processes `who`. -/
structure Made (who : XmlNode → ObjectId) (it : XmlNode) (acl : ACL) : Prop where
  noDefault : it.getProp "default" = "" → acl.defaultPermissions = AccessUnknown
  someDefault : it.getProp "default" ≠ "" →
    acl.defaultPermissions = AccessMask.fromString (it.getProp "default")
  permissions : ∀ pid, acl.permissions.lookup pid = lastPermission who (entries it) pid

/-- The map has the lists, and each process in each of them the permission of its last entry. -/
structure Holds (who : XmlNode → XmlNode → ObjectId) (lists : List XmlNode) (out : ACLMap) : Prop where
  acl : ∀ it ∈ lists, ∃ acl, out.lookup (it.getProp "name") = some acl ∧ Made (who it) it acl
  name : ∀ name, (out.lookup name).isSome → ∃ it ∈ lists, it.getProp "name" = name

/-- A section is read if it is well formed, and the map holds the rights of the processes that the
entries name. -/
def Right (lists : List XmlNode) : Except String ACLMap → Prop
  | .ok out => WellFormed conf lists ∧ Holds (fun _ => ownProcess conf) lists out
  | .error _ => ¬WellFormed conf lists

/-- A list has entries, and if it has an identifier then they are all of that process; if not, then the
last of a process by their names alone has the permission of the last one that names it. -/
structure Named (it : XmlNode) : Prop where
  nonempty : entries it ≠ []
  process :
    if it.getProp "id" ≠ "" then ∀ ia ∈ entries it, ownProcess conf ia = uni_atoi (it.getProp "id")
    else ∀ pid, lastPermission (fun ia => process conf "" (ia.getProp "name")) (entries it) pid =
      lastPermission (ownProcess conf) (entries it) pid

/-- A section that is malformed and is refused. -/
def Refused (lists : List XmlNode) : Prop :=
  ¬WellFormed conf lists ∧ ¬((∀ it ∈ lists, Readable (entryProcess conf it) it) ∧ Distinct lists)

variable {conf err}

theorem lookup_setPermission (pid q : ObjectId) (mask : AccessMask)
    (permissions : List (ObjectId × AccessMask)) :
    (setPermission pid mask permissions).lookup q =
      if q = pid then some mask else permissions.lookup q := by
  unfold setPermission
  by_cases hq : q = pid
  · rw [if_pos hq, hq, List.lookup_cons_self]
  · rw [if_neg hq, List.lookup_cons, beq_eq_false_iff_ne.mpr hq]
    induction permissions with
    | nil => rfl
    | cons p permissions ih =>
      by_cases hp : p.1 = pid
      · rw [List.filter_cons_of_neg (by simp [hp]), List.lookup_cons,
          beq_eq_false_iff_ne.mpr (hp ▸ hq)]
        exact ih
      · rw [List.filter_cons_of_pos (by simp [hp]), List.lookup_cons, List.lookup_cons]
        cases q == p.1 with
        | true => rfl
        | false => exact ih

theorem lastPermission_cons (who : XmlNode → ObjectId) (ia : XmlNode) (l : List XmlNode) (pid : ObjectId) :
    lastPermission who (ia :: l) pid = (lastPermission who l pid).or
      (if who ia = pid then some (AccessMask.fromString (ia.getProp "permission")) else none) := by
  unfold lastPermission
  rw [List.reverse_cons, List.find?_append]
  cases l.reverse.find? fun ia => decide (who ia = pid) with
  | some b => rfl
  | none =>
    by_cases h : who ia = pid
    · simp [h]
    · simp [h]

theorem lastPermission_congr {who who' : XmlNode → ObjectId} {l : List XmlNode}
    (h : ∀ ia ∈ l, who ia = who' ia) (pid : ObjectId) :
    lastPermission who l pid = lastPermission who' l pid := by
  induction l with
  | nil => rfl
  | cons ia l ih =>
    obtain ⟨hfirst, hrest⟩ := List.forall_mem_cons.mp h
    rw [lastPermission_cons, lastPermission_cons, ih hrest, hfirst]

theorem isSome_lastPermission {who : XmlNode → ObjectId} {l : List XmlNode} {pid : ObjectId} :
    (lastPermission who l pid).isSome ↔ ∃ ia ∈ l, who ia = pid := by
  simp [lastPermission]

/-- What the loop over the entries makes of a list. -/
theorem readEntries_ok {aclName : String} {it : XmlNode} {l : List XmlNode} {acl out : ACL}
    (h : readEntries conf err aclName it l acl = .ok out) :
    (∀ ia ∈ l, ia.getProp "permission" ≠ "" ∧ entryProcess conf it ia ≠ DefaultObjectId) ∧
      out.defaultPermissions = acl.defaultPermissions ∧
      ∀ pid, out.permissions.lookup pid =
        (lastPermission (entryProcess conf it) l pid).or (acl.permissions.lookup pid) := by
  induction l generalizing acl with
  | nil =>
    cases h
    exact ⟨fun ia hia => absurd hia List.not_mem_nil, rfl, fun pid => rfl⟩
  | cons ia l ih =>
    unfold readEntries at h
    dsimp only at h
    split_ifs at h with hperm hpid
    obtain ⟨hall, hdefault, hlookup⟩ := ih h
    refine ⟨List.forall_mem_cons.mpr ⟨⟨hperm, hpid⟩, hall⟩, hdefault, fun pid => ?_⟩
    rw [hlookup, lastPermission_cons, lookup_setPermission, Option.or_assoc]
    by_cases hq : entryProcess conf it ia = pid
    · rw [if_pos hq, if_pos hq.symm]
      rfl
    · rw [if_neg hq, if_neg (Ne.symm hq)]
      rfl

theorem readEntries_error {aclName e : String} {it : XmlNode} {l : List XmlNode} {acl : ACL}
    (h : readEntries conf err aclName it l acl = .error e) :
    ∃ ia ∈ l, ia.getProp "permission" = "" ∨ entryProcess conf it ia = DefaultObjectId := by
  induction l generalizing acl with
  | nil => cases h
  | cons ia l ih =>
    unfold readEntries at h
    dsimp only at h
    split_ifs at h with hperm hpid
    · exact ⟨ia, List.mem_cons_self, .inl hperm⟩
    · exact ⟨ia, List.mem_cons_self, .inr hpid⟩
    · obtain ⟨b, hb, hbad⟩ := ih h
      exact ⟨b, List.mem_cons_of_mem ia hb, hbad⟩

theorem entries_of_goChildren {it : XmlNode} {l : List XmlNode} (h : it.goChildren = some l) :
    entries it = l := by
  rw [entries, h]
  rfl

theorem readAcl_ok {it : XmlNode} {acl : ACL} (h : readAcl conf err it = .ok acl) :
    Readable (entryProcess conf it) it ∧ Made (entryProcess conf it) it acl := by
  unfold readAcl at h
  dsimp only at h
  rcases eq_or_ne (it.getProp "name") "" with hname | hname
  · rw [if_pos hname] at h
    cases h
  rw [if_neg hname] at h
  cases hchildren : it.goChildren with
  | none =>
    rw [hchildren] at h
    cases h
  | some l =>
    rw [hchildren] at h
    obtain ⟨hall, hdefault, hlookup⟩ := readEntries_ok h
    rw [← entries_of_goChildren hchildren] at hall hlookup
    refine ⟨⟨hname, by rw [hchildren]; rfl, fun ia hia => (hall ia hia).1, fun ia hia => (hall ia hia).2⟩, ?_⟩
    refine ⟨fun hnone => ?_, fun hsome => ?_, fun pid => ?_⟩
    · rw [hdefault, emptyAcl, if_neg (not_not.mpr hnone)]
    · rw [hdefault, emptyAcl, if_pos hsome]
    · rw [hlookup]
      exact Option.or_none

theorem readAcl_error {it : XmlNode} {e : String} (h : readAcl conf err it = .error e) :
    ¬Readable (entryProcess conf it) it := by
  intro hr
  unfold readAcl at h
  rw [if_neg hr.name] at h
  obtain ⟨l, hchildren⟩ := Option.isSome_iff_exists.mp hr.children
  rw [hchildren] at h
  obtain ⟨ia, hia, hbad⟩ := readEntries_error h
  rw [← entries_of_goChildren hchildren] at hia
  exact hbad.elim (hr.permission ia hia) (hr.process ia hia)

theorem lookup_added (name q : String) (acl : ACL) (acc : ACLMap) :
    ((name, acl) :: acc).lookup q = if q = name then some acl else acc.lookup q := by
  rw [List.lookup_cons]
  by_cases hq : q = name
  · rw [if_pos hq, beq_iff_eq.mpr hq]
  · rw [if_neg hq, beq_eq_false_iff_ne.mpr hq]

/-- The lists can be read after those that are in the map. -/
def Fits (conf : Configuration) (acc : ACLMap) (lists : List XmlNode) : Prop :=
  (∀ it ∈ lists, Readable (entryProcess conf it) it ∧ acc.lookup (it.getProp "name") = none) ∧
    Distinct lists

theorem fits_cons {acc : ACLMap} {it : XmlNode} {lists : List XmlNode} (acl : ACL) :
    Fits conf acc (it :: lists) ↔ Readable (entryProcess conf it) it ∧
      acc.lookup (it.getProp "name") = none ∧ Fits conf ((it.getProp "name", acl) :: acc) lists := by
  have hnone (b : XmlNode) : ((it.getProp "name", acl) :: acc).lookup (b.getProp "name") = none ↔
      it.getProp "name" ≠ b.getProp "name" ∧ acc.lookup (b.getProp "name") = none := by
    rw [lookup_added]
    by_cases hb : b.getProp "name" = it.getProp "name"
    · simp [hb]
    · simp [hb, Ne.symm hb]
  simp only [Fits, Distinct, List.forall_mem_cons, List.pairwise_cons, hnone]
  constructor
  · rintro ⟨⟨⟨hr, hname⟩, hall⟩, hfirst, hrest⟩
    exact ⟨hr, hname, fun b hb => ⟨(hall b hb).1, hfirst b hb, (hall b hb).2⟩, hrest⟩
  · rintro ⟨hr, hname, hall, hrest⟩
    exact ⟨⟨⟨hr, hname⟩, fun b hb => ⟨(hall b hb).1, (hall b hb).2.2⟩⟩, fun b hb => (hall b hb).2.1, hrest⟩

theorem readAcls_error {lists : List XmlNode} {acc : ACLMap} {e : String}
    (h : readAcls conf err lists acc = .error e) : ¬Fits conf acc lists := by
  induction lists generalizing acc with
  | nil => cases h
  | cons it lists ih =>
    unfold readAcls at h
    cases hacl : readAcl conf err it with
    | error e' => exact fun hfits => readAcl_error hacl ((hfits.1 it List.mem_cons_self).1)
    | ok acl =>
      rw [hacl] at h
      dsimp only at h
      rw [fits_cons acl]
      split_ifs at h with hdup
      · exact fun hfits => by simp [hfits.2.1] at hdup
      · exact fun hfits => ih h hfits.2.2

/-- What the loop over the lists adds to the map. -/
theorem readAcls_ok {lists : List XmlNode} {acc out : ACLMap}
    (h : readAcls conf err lists acc = .ok out) :
    Fits conf acc lists ∧ (∀ name acl, acc.lookup name = some acl → out.lookup name = some acl) ∧
      (∀ it ∈ lists, ∃ acl, out.lookup (it.getProp "name") = some acl ∧ Made (entryProcess conf it) it acl) ∧
      ∀ name, (out.lookup name).isSome →
        (acc.lookup name).isSome ∨ ∃ it ∈ lists, it.getProp "name" = name := by
  induction lists generalizing acc with
  | nil =>
    cases h
    exact ⟨⟨fun it hit => absurd hit List.not_mem_nil, .nil⟩, fun _ _ h => h,
      fun it hit => absurd hit List.not_mem_nil, fun _ h => .inl h⟩
  | cons it lists ih =>
    unfold readAcls at h
    cases hacl : readAcl conf err it with
    | error e =>
      rw [hacl] at h
      cases h
    | ok acl =>
      rw [hacl] at h
      dsimp only at h
      split_ifs at h with hdup
      have hnone : acc.lookup (it.getProp "name") = none := Option.not_isSome_iff_eq_none.mp hdup
      obtain ⟨hreadable, hmade⟩ := readAcl_ok hacl
      obtain ⟨hfits, hkept, hadded, hnames⟩ := ih h
      refine ⟨(fits_cons acl).mpr ⟨hreadable, hnone, hfits⟩, fun name b hb => ?_,
        List.forall_mem_cons.mpr ⟨⟨acl, ?_, hmade⟩, hadded⟩, fun name hname => ?_⟩
      · refine hkept name b ?_
        have hne : name ≠ it.getProp "name" := fun heq => by
          rw [heq, hnone] at hb
          cases hb
        rw [lookup_added, if_neg hne, hb]
      · exact hkept _ acl (by rw [lookup_added, if_pos rfl])
      · rcases hnames name hname with hold | ⟨b, hb, hbname⟩
        · rw [lookup_added] at hold
          by_cases heq : name = it.getProp "name"
          · exact .inr ⟨it, List.mem_cons_self, heq.symm⟩
          · rw [if_neg heq] at hold
            exact .inl hold
        · exact .inr ⟨b, List.mem_cons_of_mem it hb, hbname⟩

theorem fits_nil {lists : List XmlNode} :
    Fits conf [] lists ↔ (∀ it ∈ lists, Readable (entryProcess conf it) it) ∧ Distinct lists :=
  and_congr_left fun _ => forall₂_congr fun _ _ => and_iff_left rfl

/-- A list whose entries are taken to be of other processes than they name shows it. -/
theorem named_iff {it : XmlNode} : Named conf it ↔ entries it ≠ [] ∧
    ∀ pid, lastPermission (entryProcess conf it) (entries it) pid =
      lastPermission (ownProcess conf) (entries it) pid := by
  by_cases hid : it.getProp "id" ≠ ""
  · have hconst (ia : XmlNode) : entryProcess conf it ia = uni_atoi (it.getProp "id") := if_pos hid
    constructor
    · rintro ⟨hne, hown⟩
      rw [if_pos hid] at hown
      exact ⟨hne, lastPermission_congr fun ia hia => by rw [hconst, hown ia hia]⟩
    · rintro ⟨hne, heq⟩
      refine ⟨hne, ?_⟩
      rw [if_pos hid]
      intro ia hia
      have hsome : (lastPermission (ownProcess conf) (entries it) (ownProcess conf ia)).isSome :=
        isSome_lastPermission.mpr ⟨ia, hia, rfl⟩
      rw [← heq] at hsome
      obtain ⟨b, -, hb⟩ := isSome_lastPermission.mp hsome
      rw [← hb, hconst]
  · have hname : entryProcess conf it = fun ia => process conf "" (ia.getProp "name") := by
      funext ia
      rw [entryProcess, not_not.mp hid]
    constructor
    · rintro ⟨hne, heq⟩
      rw [if_neg hid] at heq
      exact ⟨hne, by rwa [hname]⟩
    · rintro ⟨hne, heq⟩
      refine ⟨hne, ?_⟩
      rw [if_neg hid]
      rwa [hname] at heq

theorem Named.readable_iff {it : XmlNode} (h : Named conf it) :
    Readable (entryProcess conf it) it ↔ Readable (ownProcess conf) it := by
  have hunknown : (∀ ia ∈ entries it, entryProcess conf it ia ≠ DefaultObjectId) ↔
      ∀ ia ∈ entries it, ownProcess conf ia ≠ DefaultObjectId := by
    have hlast := (named_iff.mp h).2 DefaultObjectId
    have hsome := congrArg Option.isSome hlast
    rw [Bool.eq_iff_iff, isSome_lastPermission, isSome_lastPermission] at hsome
    simpa only [not_exists, not_and] using not_congr hsome
  exact ⟨fun hr => ⟨hr.name, hr.children, hr.permission, hunknown.mp hr.process⟩,
    fun hr => ⟨hr.name, hr.children, hr.permission, hunknown.mpr hr.process⟩⟩

theorem fits_iff_of_named {lists : List XmlNode} (h : ∀ it ∈ lists, Named conf it) :
    Fits conf [] lists ↔ WellFormed conf lists := by
  rw [fits_nil]
  constructor
  · rintro ⟨hr, hdistinct⟩
    exact ⟨fun it hit => (h it hit).readable_iff.mp (hr it hit), fun it hit => (h it hit).nonempty, hdistinct⟩
  · rintro ⟨hr, -, hdistinct⟩
    exact ⟨fun it hit => (h it hit).readable_iff.mpr (hr it hit), hdistinct⟩

theorem refused_or_named {lists : List XmlNode}
    (h : Right conf lists (readAcls conf err lists [])) :
    Refused conf lists ∨ ∀ it ∈ lists, Named conf it := by
  cases hread : readAcls conf err lists [] with
  | error e =>
    rw [hread] at h
    exact .inl ⟨h, mt fits_nil.mpr (readAcls_error hread)⟩
  | ok out =>
    rw [hread] at h
    obtain ⟨hformed, hholds⟩ := h
    obtain ⟨-, -, hadded, -⟩ := readAcls_ok hread
    refine .inr fun it hit => named_iff.mpr ⟨hformed.nonempty it hit, fun pid => ?_⟩
    obtain ⟨acl, hacl, hmade⟩ := hadded it hit
    obtain ⟨acl', hacl', hmade'⟩ := hholds.acl it hit
    cases hacl.symm.trans hacl'
    exact (hmade.permissions pid).symm.trans (hmade'.permissions pid)

/-- What is read is right exactly when every list is named by its entries, or the section is malformed
and is refused. -/
theorem right_read_iff (conf : Configuration) (fileName name sect : String) (root : Option XmlNode) :
    Right conf (acls root) (read conf fileName name sect root) ↔
      Refused conf (acls root) ∨ ∀ it ∈ acls root, Named conf it := by
  refine ⟨refused_or_named, fun h => ?_⟩
  cases hread : read conf fileName name sect root with
  | error e =>
    have hfits : ¬Fits conf [] (acls root) := readAcls_error hread
    rcases h with ⟨hmalformed, -⟩ | hnamed
    · exact hmalformed
    · exact mt (fits_iff_of_named hnamed).mpr hfits
  | ok out =>
    obtain ⟨hfits, -, hadded, hnames⟩ := readAcls_ok hread
    rcases h with ⟨-, hno⟩ | hnamed
    · exact absurd (fits_nil.mp hfits) hno
    · refine ⟨(fits_iff_of_named hnamed).mp hfits, fun it hit => ?_, fun q hq => ?_⟩
      · obtain ⟨acl, hacl, hmade⟩ := hadded it hit
        refine ⟨acl, hacl, hmade.noDefault, hmade.someDefault, fun pid => ?_⟩
        rw [hmade.permissions pid, (named_iff.mp (hnamed it hit)).2 pid]
      · exact (hnames q hq).resolve_left Bool.false_ne_true

def twoProcesses : Configuration := ⟨fun name => if name = "Process1" then 1 else DefaultObjectId⟩

def access : XmlNode := .node "access" false [("name", "Process1"), ("permission", "RO")] []

/-- A list with an identifier of its own. -/
def numbered : XmlNode := .node "acl" false [("name", "acl1"), ("id", "100")] [access]

/-- The entry becomes that of the process 100. -/
theorem not_right_numbered :
    ¬Right twoProcesses (acls (some (.node "ACLConfig" false [] [numbered])))
      (read twoProcesses "configure.xml" "ACLConfig" "ACLConfig"
        (some (.node "ACLConfig" false [] [numbered]))) := by
  intro h
  have hlists : acls (some (.node "ACLConfig" false [] [numbered])) = [numbered] := rfl
  have hentries : entries numbered = [access] := rfl
  have hown : ownProcess twoProcesses access = 1 := by decide
  rcases refused_or_named h with ⟨hmalformed, -⟩ | hnamed
  · refine hmalformed ⟨?_, ?_, List.pairwise_singleton _ _⟩
    · rintro it hit
      cases List.mem_singleton.mp hit
      refine ⟨by decide, rfl, ?_, ?_⟩
      · rintro ia hia
        cases List.mem_singleton.mp hia
        decide
      · rintro ia hia
        cases List.mem_singleton.mp hia
        rw [hown]
        decide
    · rintro it hit
      cases List.mem_singleton.mp hit
      exact List.cons_ne_nil access []
  · have hid : numbered.getProp "id" ≠ "" := by decide
    have hprocess := (hnamed numbered List.mem_cons_self).process
    rw [if_pos hid] at hprocess
    have := hprocess access List.mem_cons_self
    rw [hown] at this
    exact absurd this (by decide)

end AccessConfig

end Uniset.Processes
