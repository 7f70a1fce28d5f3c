import Hikyo.Lib.NameTable
import Hikyo.Schema.Presence

/-!
# The definitions of a project, and what was published under them

A project declares environments, key groups and keys. Each of them has an identity, which
is minted once, and a name, which is unique in its kind and can be changed. A key says
what it holds (`declaration`, in its canonical text), where it has to be set and where it
must not be (`rules`), and which group it belongs to.

Values are published under a key in an environment. Every publication of an environment
adds a revision: the values as they were then, the key names and classifications they
were delivered under, and what changed against the revision before.

The statements below are the ones of the store. An insertion or a rename is refused if it would
break an index, a row that names another one is refused if that one is not there. The rows of the
presence table are kept in the rules of their key; the two statements that write them are always
issued together and are one here (`writeRules`).
-/

namespace Hikyo.Catalogue

open Tx (ensure)

/-! ## Rows -/

/-- An environment or a key group, as far as definitions go. -/
structure Entity where
  id : String
  name : String
deriving DecidableEq, Repr

def Entity.columns : Table.Columns Entity String String where
  id := Entity.id
  name := Entity.name
  setName n e := { e with name := n }
  id_setName _ _ := rfl
  name_setName _ _ := rfl
  setName_setName _ _ _ := rfl

/-- **A declared key.** -/
structure Key where
  id : String
  name : String
  folderPath : String
  classification : Classification
  description : String
  deprecated : Bool
  deprecationNote : String
  /-- the key group, or the empty string -/
  groupID : String
  /-- the canonical text of the declaration -/
  declaration : String
  rules : PresenceRules
deriving DecidableEq, Repr

def Key.columns : Table.Columns Key String String where
  id := Key.id
  name := Key.name
  setName n k := { k with name := n }
  id_setName _ _ := rfl
  name_setName _ _ := rfl
  setName_setName _ _ _ := rfl

/-- A value as a revision delivers it. -/
structure Entry where
  keyID : String
  keyName : String
  classification : Classification
  value : String
  /-- the published row the value comes from -/
  valueEntryID : String
deriving DecidableEq, Repr

inductive RevisionChange where
  | added
  | edited
  | removed
deriving DecidableEq, Repr

/-- A row of the changes of a revision. -/
structure ChangedKey where
  keyID : String
  name : String
  change : RevisionChange
deriving DecidableEq, Repr

/-- **A revision of an environment**, with its entries and its changes. -/
structure Revision where
  environmentID : String
  number : ℕ
  schemaRevision : ℕ
  entries : List Entry
  changes : List ChangedKey
  /-- the entries were collected, and only the changes are left -/
  collected : Bool
deriving DecidableEq, Repr

/-- **A pending change.** Without a value it clears the cell. -/
structure Draft where
  id : String
  environmentID : String
  keyID : String
  owner : String
  value : Option String
  stagedFromRevision : ℕ
  /-- the published row the cell had, or the empty string -/
  stagedFromEntry : String
  /-- the value was staged, or restored, as a secret -/
  materialSecret : Bool
deriving DecidableEq, Repr

/-- **The tables of one project.** -/
structure Tables where
  environments : Table.Named Entity.columns
  groups : Table.Named Entity.columns
  keys : Table.Named Key.columns
  schemaRevision : ℕ
  values : Table.Keyed ValueEntry.cell
  drafts : Table.Keyed Draft.id
  revisions : List Revision
  /-- the published rows that were ever delivered as a secret -/
  occurrences : List String
  /-- the number of identifiers that were minted -/
  minted : ℕ

/-- **The identifiers of the platform.** `newID` puts a prefix before a new one. -/
structure Minter where
  uuid : ℕ → String
  /-- no identifier is minted twice -/
  injective : Function.Injective uuid

def Minter.newID (m : Minter) (kind : String) (n : ℕ) : String := kind ++ "_" ++ m.uuid n

theorem Minter.newID_inj (m : Minter) {kind : String} {n n' : ℕ}
    (h : m.newID kind n = m.newID kind n') : n = n' :=
  m.injective ((String.append_right_inj _).mp h)

namespace Tables

def empty : Tables where
  environments := .empty
  groups := .empty
  keys := .empty
  schemaRevision := 0
  values := .empty
  drafts := .empty
  revisions := []
  occurrences := []
  minted := 0

def environmentIDs (s : Tables) : List String := s.environments.rows.map Entity.id

def groupIDs (s : Tables) : List String := s.groups.rows.map Entity.id

/-! ## Statements -/

/-- A statement that an index refused. -/
def stored {α : Type} : Option α → Except ServiceError α
  | some a => .ok a
  | none => .error (.conflict "the statement breaks a constraint")

@[simp] theorem stored_eq_ok {α : Type} {o : Option α} {a : α} : stored o = .ok a ↔ o = some a := by
  cases o with
  | none => exact iff_of_false nofun nofun
  | some b => exact ⟨fun h => congrArg _ (Except.ok.inj h), fun h => congrArg _ (Option.some.inj h)⟩

variable (s : Tables)

/-! ### Environments -/

def createEnvironment (e : Entity) : Except ServiceError Tables := do
  let environments ← stored (s.environments.insert e)
  return { s with environments }

def renameEnvironment (id name : String) : Except ServiceError Tables := do
  let environments ← stored (s.environments.rename id name)
  return { s with environments }

/-- The presence rows of the environment go. -/
def deletePresenceForEnvironment (env : String) : Tables :=
  { s with
    keys := s.keys.update (fun _ => true)
      (fun k => { k with rules :=
        { required := k.rules.required.without env, forbidden := k.rules.forbidden.without env } })
      (fun _ => rfl) (fun _ => rfl) }

/-- `cascadeEnvironmentPresence`: the presence rows of the environment go, and a rule
that this empties becomes `none`. -/
def cascadeEnvironmentPresence (env : String) : Tables :=
  { s with
    keys := s.keys.update
      (fun k => k.rules.required.environments.contains env ||
        k.rules.forbidden.environments.contains env)
      (fun k => { k with rules :=
        { required := (k.rules.required.without env).collapsed
          forbidden := (k.rules.forbidden.without env).collapsed } })
      (fun _ => rfl) (fun _ => rfl) }

/-- The values, the drafts and the revisions of the environment go. -/
def clearEnvironment (env : String) : Tables :=
  { s with
    values := s.values.delete fun v => v.environmentID = env
    drafts := s.drafts.delete fun d => d.environmentID = env
    revisions := s.revisions.filter fun r => r.environmentID ≠ env }

/-- `DELETE` of an environment, refused while a row refers to it. -/
def deleteEnvironmentRow (env : String) : Except ServiceError Tables := do
  ensure ((∀ v ∈ s.values.rows, v.environmentID ≠ env) ∧
      ∀ k ∈ s.keys.rows, env ∉ k.rules.required.environments ∧ env ∉ k.rules.forbidden.environments)
    (.conflict "the environment is referred to")
  return { s with environments := s.environments.delete fun e => e.id = env }

/-! ### Groups -/

def createGroup (g : Entity) : Except ServiceError Tables := do
  let groups ← stored (s.groups.insert g)
  return { s with groups }

def renameGroup (id name : String) : Except ServiceError Tables := do
  let groups ← stored (s.groups.rename id name)
  return { s with groups }

/-- The members of a group are released. -/
def clearGroupMembers (id : String) : Tables :=
  { s with
    keys := s.keys.update (fun k => k.groupID = id) (fun k => { k with groupID := "" })
      (fun _ => rfl) (fun _ => rfl) }

/-- `DELETE` of a group, refused while a key is in it. -/
def deleteGroupRow (id : String) : Except ServiceError Tables := do
  ensure (∀ k ∈ s.keys.rows, k.groupID ≠ id) (.conflict "the group has members")
  return { s with groups := s.groups.delete fun g => g.id = id }

/-! ### Keys -/

/-- What a key refers to is there. -/
def Refers (groupID : String) (rules : PresenceRules) : Prop :=
  (groupID = "" ∨ groupID ∈ s.groupIDs) ∧
    (∀ env ∈ rules.required.environments, env ∈ s.environmentIDs) ∧
      ∀ env ∈ rules.forbidden.environments, env ∈ s.environmentIDs

instance (groupID : String) (rules : PresenceRules) : Decidable (s.Refers groupID rules) :=
  inferInstanceAs (Decidable (_ ∧ _ ∧ _))

def createKey (k : Key) : Except ServiceError Tables := do
  ensure (s.Refers k.groupID k.rules) (.conflict "the key refers to what is not there")
  let keys ← stored (s.keys.insert k)
  return { s with keys }

def renameKey (id name : String) : Except ServiceError Tables := do
  let keys ← stored (s.keys.rename id name)
  return { s with keys }

/-- A column of a key is written. -/
def writeKey (id : String) (f : Key → Key) (hid : ∀ k, (f k).id = k.id)
    (hname : ∀ k, (f k).name = k.name) : Tables :=
  { s with keys := s.keys.update (fun k => k.id = id) f hid hname }

def updateMetadata (id folderPath description : String) (deprecated : Bool)
    (deprecationNote : String) : Tables :=
  s.writeKey id (fun k => { k with folderPath, description, deprecated, deprecationNote })
    (fun _ => rfl) (fun _ => rfl)

/-- The declaration and the rules of a key. -/
def writeRules (id declaration : String) (rules : PresenceRules) : Except ServiceError Tables := do
  ensure (s.Refers "" rules) (.conflict "the key refers to what is not there")
  return s.writeKey id (fun k => { k with declaration, rules }) (fun _ => rfl) (fun _ => rfl)

def setClassification (id : String) (classification : Classification) : Tables :=
  s.writeKey id (fun k => { k with classification }) (fun _ => rfl) (fun _ => rfl)

def setGroup (id groupID : String) : Except ServiceError Tables := do
  ensure (groupID = "" ∨ groupID ∈ s.groupIDs) (.conflict "the key refers to what is not there")
  return s.writeKey id (fun k => { k with groupID }) (fun _ => rfl) (fun _ => rfl)

/-- The drafts of a key are discarded. -/
def discardKey (id : String) : Tables :=
  { s with drafts := s.drafts.delete fun d => d.keyID = id }

/-- The published values of a key are cleared. -/
def clearKey (id : String) : Tables :=
  { s with values := s.values.delete fun v => v.keyID = id }

/-- `DELETE` of a key, refused while a value or a draft refers to it. -/
def deleteKeyRow (id : String) : Except ServiceError Tables := do
  ensure ((∀ v ∈ s.values.rows, v.keyID ≠ id) ∧ ∀ d ∈ s.drafts.rows, d.keyID ≠ id)
    (.conflict "the key is referred to")
  return { s with keys := s.keys.delete fun k => k.id = id }

def bumpSchemaRevision : Tables := { s with schemaRevision := s.schemaRevision + 1 }

end Tables

/-! ## Integrity -/

/-- **A rule as it is stored**: it names environments that exist, each once, and only an
explicit rule names any. -/
structure Presence.Stored (envs : List String) (p : Presence) : Prop where
  exist : ∀ env ∈ p.environments, env ∈ envs
  nodup : p.environments.Nodup
  explicit : p.mode ≠ .explicit → p.environments = []

/-- **What the constraints of the store say about a key**: its group exists, and its rules
are stored. -/
structure Key.Stored (envs groups : List String) (k : Key) : Prop where
  group : k.groupID = "" ∨ k.groupID ∈ groups
  required : k.rules.required.Stored envs
  forbidden : k.rules.forbidden.Stored envs

/-- **The constraints hold for every key.** -/
def Tables.Integrity (s : Tables) : Prop :=
  ∀ k ∈ s.keys.rows, k.Stored s.environmentIDs s.groupIDs

end Hikyo.Catalogue
