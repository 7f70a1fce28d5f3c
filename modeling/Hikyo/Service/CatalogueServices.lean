import Hikyo.Service.DefinitionsApply

/-!
# The services over the definitions and the values of a project

The other writers of a project. Keys are created, renamed, redeclared, reclassified,
regrouped and deleted one at a time; each such change advances the schema revision and
materializes every environment. Groups and environments come and go. Values are staged as
drafts, superseded, discarded and published, restored from an old revision as drafts, or
written directly by an import, a declaration or a copy, which materializes at once.

`validateStaticMembership` is the check of the rules of a key against the other members
of its group. It is made when a key is created, redeclared or regrouped.

What the authorizer, the limits, the scanner and the ceremonies answer is the input
`admitted` of a call. `Op` is a transaction of any of the services, `transact` runs it and
`step` commits it or leaves the project as it was.
-/

namespace Hikyo.Catalogue

open Tx (ensure)
open RuleError (quoted)

/-! ## Keys -/

/-- What is said about a key when it is created. -/
structure KeySpec where
  name : String
  folderPath : String
  classification : Classification
  description : String
  deprecated : Bool
  deprecationNote : String
  groupID : String
  declaration : String
  rules : PresenceRules

def KeySpec.key (spec : KeySpec) (id : String) : Key where
  id := id
  name := spec.name
  folderPath := spec.folderPath
  classification := spec.classification
  description := spec.description
  deprecated := spec.deprecated
  deprecationNote := spec.deprecationNote
  groupID := spec.groupID
  declaration := spec.declaration
  rules := spec.rules

section

variable (P : Platform) (around : Surroundings) (admitted : Except ServiceError Unit) (s : Tables)

variable (name : String) (id : String) (env : String)

/-- The refusal names the other key. -/
def withKey : ServiceError → ServiceError
  | .invalid detail => .invalid (detail ++ " (with key " ++ quoted name ++ ")")
  | e => e

/-- **`validateStaticMembership`**: the rules of a key against those of the other members
of a group. -/
def validateStaticMembership (groupID selfID : String) (self : PresenceRules) :
    Except ServiceError Unit :=
  if groupID = "" then .ok ()
  else (s.keys.rows.filter fun k => k.groupID = groupID).forM fun member =>
    if member.id = selfID then .ok ()
    else (checkGroupPresence self member.rules).mapError (withKey member.name)

/-- The group exists, and takes the key. -/
def checkGroupMembership (groupID selfID : String) (self : PresenceRules) :
    Except ServiceError Unit := do
  ensure (groupID = "" ∨ groupID ∈ s.groupIDs) .hidden
  validateStaticMembership s groupID selfID self

def createKey (spec : KeySpec) : Except ServiceError Tables := do
  checkPresence spec.rules
  admitted
  let id := P.newID "key" s.minted
  checkGroupMembership s spec.groupID id spec.rules
  let s' ← s.createKey (spec.key id)
  fanOut P { s' with minted := s.minted + 1 }.bumpSchemaRevision

def renameKey (id name : String) : Except ServiceError Tables :=
  match s.keys.find? id with
  | none => .error .hidden
  | some before => do
    refuseAdapterPinnedKey around before
    admitted
    let s ← s.renameKey id name
    fanOut P s.bumpSchemaRevision

def updateMetadata (id folderPath description : String) (deprecated : Bool)
    (deprecationNote : String) : Except ServiceError Tables :=
  match s.keys.find? id with
  | none => .error .hidden
  | some _ => do
    admitted
    return (s.updateMetadata id folderPath description deprecated deprecationNote).bumpSchemaRevision

def updateDeclaration
    (id declaration : String) (rules : PresenceRules) : Except ServiceError Tables :=
  match s.keys.find? id with
  | none => .error .hidden
  | some before => do
    admitted
    checkPresence rules
    validateStaticMembership s before.groupID id rules
    if before.declaration = declaration ∧ before.rules = rules then return s
    else do
      let s ← s.writeRules id declaration rules
      fanOut P s.bumpSchemaRevision

def reclassify (classification : Classification) : Except ServiceError Tables :=
  match s.keys.find? id with
  | none => .error .hidden
  | some before => do
    refuseAdapterPinnedKey around before
    ensure (before.classification ≠ classification)
      (.invalid "the key is already classified that way")
    admitted
    fanOut P (s.setClassification id classification).bumpSchemaRevision

def setGroup (id groupID : String) : Except ServiceError Tables :=
  match s.keys.find? id with
  | none => .error .hidden
  | some before =>
    if before.groupID = groupID then .ok s
    else do
      admitted
      checkGroupMembership s groupID id before.rules
      let s ← s.setGroup id groupID
      fanOut P s.bumpSchemaRevision

def deleteKey : Except ServiceError Tables :=
  match s.keys.find? id with
  | none => .error .hidden
  | some before => do
    let envs := (s.values.rows.filter fun v => v.keyID = id).map ValueEntry.environmentID
    ensure (envs = [])
      (.conflict ("key " ++ quoted before.name ++ " still holds values in environment(s) " ++
        String.intercalate ", " envs ++ " — clear them first"))
    admitted
    let s ← (s.discardKey id).deleteKeyRow id
    fanOut P s.bumpSchemaRevision

/-! ## Groups and environments -/

def createGroup : Except ServiceError Tables := do
  admitted
  let s' ← s.createGroup ⟨P.newID "kgr" s.minted, name⟩
  return { s' with minted := s.minted + 1 }.bumpSchemaRevision

def renameGroup (id name : String) : Except ServiceError Tables := do
  ensure (id ∈ s.groupIDs) .hidden
  admitted
  let s ← s.renameGroup id name
  return s.bumpSchemaRevision

def deleteGroup : Except ServiceError Tables := do
  admitted
  ensure (id ∈ s.groupIDs) .hidden
  let s ← (s.clearGroupMembers id).deleteGroupRow id
  fanOut P s.bumpSchemaRevision

/-- A cell written directly. The key and the environment have to be there. -/
def writeCell (s : Tables) (cell : String × String) : Except ServiceError Tables := do
  ensure (env ∈ s.environmentIDs ∧ cell.1 ∈ s.keys.rows.map Key.id)
    (.conflict "the value refers to what is not there")
  return { s with
    values := s.values.put ⟨P.newID "val" s.minted, env, cell.1, P.normalize cell.2⟩
    minted := s.minted + 1 }

/-- Cells of one environment written directly, then the environment materialized. -/
def deliver (cells : List (String × String)) : Except ServiceError Tables := do
  ensure (env ∈ s.environmentIDs) .hidden
  let s ← cells.foldlM (writeCell P env) s
  republish P s env

/-- A new environment, empty or with values cloned into it, and its first revision. -/
def createEnvironment (cloned : List (String × String)) : Except ServiceError Tables := do
  admitted
  let id := P.newID "env" s.minted
  let s' ← s.createEnvironment ⟨id, name⟩
  deliver P { s' with minted := s.minted + 1 }.bumpSchemaRevision id cloned

def renameEnvironment (id name : String) : Except ServiceError Tables := do
  ensure (id ∈ s.environmentIDs) .hidden
  admitted
  let s ← s.renameEnvironment id name
  return s.bumpSchemaRevision

def deleteEnvironment : Except ServiceError Tables := do
  admitted
  ensure (env ∈ s.environmentIDs) .hidden
  ensure (around.held env = false) (.conflict "the environment is referred to")
  let s ← ((s.cascadeEnvironmentPresence env).clearEnvironment env).deleteEnvironmentRow env
  return s.bumpSchemaRevision

/-! ## Values -/

/-- The number of the latest revision, 0 before the first. -/
def currentRevision : ℕ :=
  ((s.latest env).map Revision.number).getD 0

/-- A draft takes the place of the one its owner had for the cell. -/
def stageDraft (env keyID owner : String) (value : Option String)
    (materialSecret : Bool) : Tables :=
  { s with
    drafts := (s.drafts.delete fun d =>
        d.owner = owner && d.environmentID = env && d.keyID = keyID).put
      { id := P.newID "pcv" s.minted
        environmentID := env
        keyID := keyID
        owner := owner
        value := value
        stagedFromRevision := currentRevision s env
        stagedFromEntry := ((s.valueEntry env keyID).map ValueEntry.id).getD ""
        materialSecret := materialSecret }
    minted := s.minted + 1 }

/-- An edit is saved as a draft of its author; without a value it clears the cell. -/
def stage (env keyID owner : String) (value : Option String) : Except ServiceError Tables :=
  match s.keys.find? keyID with
  | none => .error .hidden
  | some key => do
    admitted
    ensure (env ∈ s.environmentIDs) .hidden
    return stageDraft P s env keyID owner (value.map P.normalize) (key.classification = .secret)

def discard (versionID : String) : Except ServiceError Tables := do
  admitted
  return { s with drafts := s.drafts.delete fun d => d.id = versionID }

/-- One key of a restore: a draft with the value of the old revision, if that is a
change. -/
def restoreKey (env owner : String) (target : Revision) (s : Tables) (k : Key) : Tables :=
  let entry := target.entries.find? fun e => e.keyID = k.id
  let live := s.valueEntry env k.id
  if entry.map Entry.value = live.map ValueEntry.value then s
  else
    stageDraft P s env k.id owner (entry.map Entry.value)
      (entry.any fun e => e.classification = .secret || s.occurrences.contains e.valueEntryID)

/-- An old revision is staged again, as drafts of the caller. -/
def restore (env owner : String) (number : ℕ) (keyIDs : List String) : Except ServiceError Tables :=
  match s.latest env, (s.history env).find? fun r => r.number = number with
  | some latest, some target => do
    ensure (target.collected = false) (.invalid "the revision was collected")
    admitted
    if target.number = latest.number then return s
    else return (s.keys.rows.filter fun k => k.id ∈ keyIDs).foldl (restoreKey P env owner target) s
  | _, _ => .error .hidden

/-- A draft is published against the cell it was staged for. -/
def checkFreshness (applies : List Draft) : Except ServiceError Unit :=
  applies.forM fun d =>
    if ((s.valueEntry env d.keyID).map ValueEntry.id).getD "" = d.stagedFromEntry then .ok ()
    else match s.keys.find? d.keyID with
      | none => .error (.stalePending ("version " ++ d.id ++ " names key " ++ d.keyID ++
          ", which is no longer declared"))
      | some key => .error (.stalePending ("version " ++ d.id ++ " targets key " ++
          quoted key.name ++ ", whose published value has changed since the draft was staged at " ++
          "revision " ++ toString d.stagedFromRevision ++
          ": restage the edit against the current state"))

/-- The drafts of one environment. -/
def publishEnvironment (selected : List Draft) (s : Tables) (env : String) :
    Except ServiceError Tables := do
  let applies := selected.filter fun d => d.environmentID = env
  checkFreshness s env applies
  let s ← materialize P s env applies
  return { s with drafts := s.drafts.delete fun d => applies.any fun a => a.id = d.id }

/-- The drafts that are named. -/
def selectDrafts (versionIDs : List String) : List Draft :=
  s.drafts.rows.filter fun d => d.id ∈ versionIDs

/-- **`Publish`** of the drafts that were selected or closed in. -/
def publish (versionIDs : List String) : Except ServiceError Tables := do
  admitted
  let selected := selectDrafts s versionIDs
  ensure (selected.length = versionIDs.length) (.stalePending "a version is not live")
  ensure ((selected.map fun d => (d.environmentID, d.keyID)).Nodup)
    (.invalid "two versions target one cell")
  ((selected.map Draft.environmentID).dedup).foldlM (publishEnvironment P selected) s

/-- Values are written directly in some environments, one after the other. -/
def writeValues (writes : List (String × List (String × String))) : Except ServiceError Tables := do
  admitted
  ensure (writes.map Prod.fst).Nodup (.invalid "an environment is named more than once")
  writes.foldlM (fun s w => deliver P s w.1 w.2) s

/-- A revision without its payload. -/
def Revision.collect (r : Revision) : Revision := { r with entries := [], collected := true }

/-- The entries of an old revision are collected. The latest one keeps them. -/
def collectPayload (number : ℕ) : Except ServiceError Tables := do
  ensure (number ≠ currentRevision s env) (.conflict "the latest revision keeps its payload")
  return { s with
    revisions := Table.update (fun r => r.environmentID = env && r.number = number)
      Revision.collect s.revisions }

/-! ## Transactions -/

/-- **A transaction** of one of the services. -/
inductive Op where
  | createKey (spec : KeySpec)
  | renameKey (id name : String)
  | updateMetadata (id folderPath description : String) (deprecated : Bool)
      (deprecationNote : String)
  | updateDeclaration (id declaration : String) (rules : PresenceRules)
  | reclassify (id : String) (classification : Classification)
  | setGroup (id groupID : String)
  | deleteKey (id : String)
  | createGroup (name : String)
  | renameGroup (id name : String)
  | deleteGroup (id : String)
  | createEnvironment (name : String) (cloned : List (String × String))
  | renameEnvironment (id name : String)
  | deleteEnvironment (env : String)
  | applyBundle (raw : Bundle) (allowDelete : Bool)
  | stage (env keyID owner : String) (value : Option String)
  | discard (versionID : String)
  | restore (env owner : String) (number : ℕ) (keyIDs : List String)
  | publish (versionIDs : List String)
  | writeValues (writes : List (String × List (String × String)))
  | collectPayload (env : String) (number : ℕ)

/-- A call: the transaction, what is around it, and what the guards answered. -/
structure Call where
  op : Op
  around : Surroundings
  admitted : Except ServiceError Unit

/-- **One transaction.** A bundle is canonicalized when it is planned. -/
def transact (C : BundleCodec) (s : Tables) (call : Call) : Except ServiceError Tables :=
  match call.op with
  | .createKey spec => createKey P call.admitted s spec
  | .renameKey id name => renameKey P call.around call.admitted s id name
  | .updateMetadata id folderPath description deprecated deprecationNote =>
    updateMetadata call.admitted s id folderPath description deprecated deprecationNote
  | .updateDeclaration id declaration rules => updateDeclaration P call.admitted s id declaration rules
  | .reclassify id classification => reclassify P call.around call.admitted s id classification
  | .setGroup id groupID => setGroup P call.admitted s id groupID
  | .deleteKey id => deleteKey P call.admitted s id
  | .createGroup name => createGroup P call.admitted s name
  | .renameGroup id name => renameGroup call.admitted s id name
  | .deleteGroup id => deleteGroup P call.admitted s id
  | .createEnvironment name cloned => createEnvironment P call.admitted s name cloned
  | .renameEnvironment id name => renameEnvironment call.admitted s id name
  | .deleteEnvironment env => deleteEnvironment call.around call.admitted s env
  | .applyBundle raw allowDelete => do
    let b ← canonicalize C raw
    applyBundle P call.around call.admitted allowDelete s b
  | .stage env keyID owner value => stage P call.admitted s env keyID owner value
  | .discard versionID => discard call.admitted s versionID
  | .restore env owner number keyIDs => restore P call.admitted s env owner number keyIDs
  | .publish versionIDs => publish P call.admitted s versionIDs
  | .writeValues writes => writeValues P call.admitted s writes
  | .collectPayload env number => collectPayload s env number

/-- A transaction that commits, or that leaves no trace. -/
def step (C : BundleCodec) (s : Tables) (call : Call) : Tables :=
  Tx.commit (fun s => transact P C s call) s

end

/-! ### A plain instance -/

/-- The platform that numbers its identifiers, stores values as they are and accepts
them. -/
def Platform.plain : Platform where
  uuid := Nat.repr
  injective _ _ h := Nat.repr_inj.mp h
  normalize v := v
  normalize_normalize _ := rfl
  checkValue _ _ _ := none
  checkEnvironment _ _ _ := none

/-- The codec that takes declarations as they are. -/
def BundleCodec.plain : BundleCodec where
  compileClassified _ declaration := .ok declaration
  encodedBytes _ := 0

/-- A call that nothing stands in the way of. -/
def Op.call (op : Op) : Call where
  op := op
  around := ⟨fun _ => [], fun _ => false⟩
  admitted := .ok ()

end Hikyo.Catalogue
