import Hikyo.Definitions.Bundle
import Hikyo.Service.Materialize

/-!
# Applying a definitions bundle

`apply` is the write path of a project whose definitions live in a file. It resolves the
bundle against the present definitions, refuses what may not be done this way – to delete
without leave, to delete an environment that holds values, to turn a secret into a
configuration value –, carries the resolution out and materializes every environment.

`executeResolution` is the part in the middle. The order of its statements is what makes the unique
names no obstacle: the deletions free names; everything that is renamed is first parked under a
name that nobody uses, has used or will use (`tempNames`); then the creations take their names;
then the parked rows take theirs. Only then are keys created and updated, because they refer to
environments and groups by name.

The adapter pins of the keys, the answers of the authorizer, and the rows of other
components that hold an environment are inputs.
-/

namespace Hikyo.Catalogue

open Tx (ensure)
open RuleError (quoted)

/-- **What a call finds around the definitions**: the targets of adapters that pin a key, as
adapter and target, and the environments that rows of other components hold. -/
structure Surroundings where
  adapterPins : String → List (String × String)
  held : String → Bool

/-! ## Deletions -/

section

variable (m : Minter) (around : Surroundings) (s : Tables) (res : Resolution)

variable (del : Entity) (cur : CurrentState) (envIDByName groupIDByName : List (String × String))
  (u : KeyUpdate)

def refuseAdapterPinnedKey (k : Key) : Except ServiceError Unit :=
  ensure (around.adapterPins k.id = [])
    (.conflict ("key " ++ k.name ++ " is pinned by " ++ String.intercalate ", "
      ((around.adapterPins k.id).map fun pin => "adapter " ++ pin.1 ++ " target " ++ pin.2) ++
      "; remove it from those targets, make this edit, then re-add it through the adapter " ++
      "widening ceremony"))

/-- A key goes, with its values and its drafts. -/
def executeKeyDelete : Except ServiceError Tables :=
  match s.keys.find? del.id with
  | none => .error .hidden
  | some k => do
    refuseAdapterPinnedKey around k
    ((s.clearKey del.id).discardKey del.id).deleteKeyRow del.id

/-- A group goes, and releases its members. -/
def executeGroupDelete : Except ServiceError Tables :=
  (s.clearGroupMembers del.id).deleteGroupRow del.id

/-- An environment goes, with its drafts and its history. The values are not cleared: an
environment that has some was refused before. -/
def executeEnvironmentDelete : Except ServiceError Tables := do
  ensure (around.held del.id = false) (.conflict "the environment is referred to")
  let s := { s with
    drafts := s.drafts.delete fun d => d.environmentID = del.id
    revisions := s.revisions.filter fun r => r.environmentID ≠ del.id }
  (s.deletePresenceForEnvironment del.id).deleteEnvironmentRow del.id

/-! ## Parked renames -/

/-- The names that are in use now or will be. -/
def usedNames (res : Resolution) : List String :=
  cur.environments.map Entity.name ++ cur.keyGroups.map Entity.name ++ cur.keys.map Key.name ++
    res.envCreates ++ res.groupCreates ++ res.keyCreates.map BundleKey.name ++
    res.envRenames.map Rename.target ++ res.groupRenames.map Rename.target ++
    res.keyUpdates.map fun u => u.desired.name

def tempName (n : ℕ) : String := "TMP_RENAME_" ++ Nat.repr n

/-- The first names `TMP_RENAME_0`, `TMP_RENAME_1`, … that are not in use, as many as are
asked for. -/
def tempNames : ℕ → List String → ℕ → List String
  | 0, _, _ => []
  | count + 1, used, counter =>
    let n := FreshIndex.firstFree (fun i => used.contains (tempName i)) (used.length + 1) counter
    tempName n :: tempNames count (tempName n :: used) (n + 1)

/-- The keys that are to be renamed. -/
def Resolution.renamedKeys : List (String × String) :=
  (res.keyUpdates.filter KeyUpdate.renamed).map fun u => (u.id, u.desired.name)

/-- **`parkRenames`**: every renamed row goes to a name of its own, environments first,
then groups, then keys. -/
def parkRenames (res : Resolution) : Except ServiceError Tables := do
  let envs := res.envRenames.map Rename.id
  let groups := res.groupRenames.map Rename.id
  let keys := res.renamedKeys.map Prod.fst
  let temps := tempNames (envs.length + groups.length + keys.length) (usedNames cur res) 0
  let s ← (envs.zip temps).foldlM (fun s a => s.renameEnvironment a.1 a.2) s
  let s ← (groups.zip (temps.drop envs.length)).foldlM (fun s a => s.renameGroup a.1 a.2) s
  (keys.zip (temps.drop (envs.length + groups.length))).foldlM (fun s a => s.renameKey a.1 a.2) s

/-- **`finishRenames`**: every parked row goes to its final name. -/
def finishRenames : Except ServiceError Tables := do
  let s ← (res.envRenames.map fun r => (r.id, r.target)).foldlM
    (fun s a => s.renameEnvironment a.1 a.2) s
  let s ← (res.groupRenames.map fun r => (r.id, r.target)).foldlM
    (fun s a => s.renameGroup a.1 a.2) s
  res.renamedKeys.foldlM (fun s a => s.renameKey a.1 a.2) s

/-! ## Creations -/

/-- New rows for a list of names. -/
def mintEntities (m : Minter) (kind : String) : ℕ → List String → List Entity
  | _, [] => []
  | n, name :: names => ⟨m.newID kind n, name⟩ :: mintEntities m kind (n + 1) names

def createEnvironments (names : List String) : Except ServiceError Tables := do
  let s' ← (mintEntities m "env" s.minted names).foldlM Tables.createEnvironment s
  return { s' with minted := s.minted + names.length }

def createGroups (names : List String) : Except ServiceError Tables := do
  let s' ← (mintEntities m "kgr" s.minted names).foldlM Tables.createGroup s
  return { s' with minted := s.minted + names.length }

/-! ## Names to identities -/

/-- The names of the entities that are not deleted, and what they stand for. -/
def survivors (current deletes : List Entity) : List (String × String) :=
  (current.filter fun e => e.id ∉ deletes.map Entity.id).map fun e => (e.name, e.id)

/-- `envIDByName` and `groupIDByName` at the end: what was not deleted, over it what was
created, over it the final names of what was renamed. -/
def finalIDByName (current deletes created : List Entity) (renames : List Rename) :
    List (String × String) :=
  (renames.map fun r => (r.target, r.id)) ++ (created.map fun e => (e.name, e.id)) ++
    survivors current deletes

/-- The identities of the environments a rule names. -/
def resolveNames (envIDByName : List (String × String)) :
    List String → Except ServiceError (List String)
  | [] => .ok []
  | name :: names =>
    match envIDByName.lookup name with
    | none => .error (.invalid ("presence references unknown environment " ++ quoted name))
    | some id => do
      let ids ← resolveNames envIDByName names
      return id :: ids

/-- `resolvePresence`: the rules of a key of a bundle, over identities. -/
def resolvePresence (k : BundleKey) (envIDByName : List (String × String)) :
    Except ServiceError PresenceRules := do
  let required ← resolveNames envIDByName k.requiredIn.environments
  let forbidden ← resolveNames envIDByName k.forbiddenIn.environments
  return ⟨⟨k.requiredIn.mode, required⟩, ⟨k.forbiddenIn.mode, forbidden⟩⟩

/-- The group a key of a bundle names. -/
def resolveGroup (k : BundleKey) (groupIDByName : List (String × String)) : String :=
  if k.group = "" then "" else identityOf groupIDByName k.group

/-! ## Keys -/

def executeKeyCreate (s : Tables) (k : BundleKey) : Except ServiceError Tables := do
  let rules ← resolvePresence k envIDByName
  checkPresence rules
  let s' ← s.createKey
    { id := m.newID "key" s.minted
      name := k.name
      folderPath := k.folderPath
      classification := k.classification
      description := k.description
      deprecated := k.deprecated
      deprecationNote := k.deprecationNote
      groupID := resolveGroup k groupIDByName
      declaration := k.declaration
      rules }
  return { s' with minted := s.minted + 1 }

/-- The metadata of an updated key. -/
def executeMetadata : Tables :=
  if u.metaChanged then
    s.updateMetadata u.id u.desired.folderPath u.desired.description u.desired.deprecated
      u.desired.deprecationNote
  else s

/-- The declaration and the rules of an updated key. -/
def executeRules (rules : PresenceRules) : Except ServiceError Tables :=
  if u.declChanged || u.presenceChanged then s.writeRules u.id u.desired.declaration rules
  else .ok s

def refuseApplyDeclassification (keyName : String) : ServiceError :=
  .invalid ("definitions apply cannot declassify key " ++ quoted keyName ++ " from secret to " ++
    "config: apply has no plaintext to run the Surface-1 scanner and must not decrypt it outside " ++
    "ceremony; use interactive `key reclassify` / declassification ceremony, which performs " ++
    "disclosure-class reauthentication and scanning")

/-- The classification of an updated key. -/
def executeReclassify : Except ServiceError Tables :=
  if u.reclassified then
    match s.keys.find? u.id with
    | none => .error .hidden
    | some k => do
      refuseAdapterPinnedKey around k
      ensure (¬ (u.prevClassification = .secret ∧ u.desired.classification = .config))
        (refuseApplyDeclassification u.desired.name)
      return s.setClassification u.id u.desired.classification
  else .ok s

/-- The group of an updated key. -/
def executeSetGroup (groupIDByName : List (String × String)) : Except ServiceError Tables :=
  if u.groupChanged then s.setGroup u.id (resolveGroup u.desired groupIDByName) else .ok s

def executeKeyUpdate (s : Tables) (u : KeyUpdate) : Except ServiceError Tables :=
  match s.keys.find? u.id with
  | none => .error .hidden
  | some _ => do
    let rules ← resolvePresence u.desired envIDByName
    checkPresence rules
    let s ← executeRules (executeMetadata s u) u rules
    let s ← executeReclassify around s u
    executeSetGroup s u groupIDByName

/-! ## The whole -/

/-- Steps 1 to 3: the deletions. -/
def executeDeletes : Except ServiceError Tables := do
  let s ← res.keyDeletes.foldlM (executeKeyDelete around) s
  let s ← res.groupDeletes.foldlM executeGroupDelete s
  res.envDeletes.foldlM (executeEnvironmentDelete around) s

/-- Steps 4 to 7: names and topology. -/
def executeTopology (res : Resolution) : Except ServiceError Tables := do
  let s ← parkRenames s cur res
  let s ← createEnvironments m s res.envCreates
  let s ← createGroups m s res.groupCreates
  finishRenames s res

/-- **`executeResolution`.** -/
def executeResolution : Except ServiceError Tables := do
  let cur := s.current
  let environments := mintEntities m "env" s.minted res.envCreates
  let groups := mintEntities m "kgr" (s.minted + res.envCreates.length) res.groupCreates
  let s ← executeDeletes around s res
  let s ← executeTopology m s cur res
  let envIDByName := finalIDByName cur.environments res.envDeletes environments res.envRenames
  let groupIDByName := finalIDByName cur.keyGroups res.groupDeletes groups res.groupRenames
  let s ← res.keyCreates.foldlM (executeKeyCreate m envIDByName groupIDByName) s
  res.keyUpdates.foldlM (executeKeyUpdate around envIDByName groupIDByName) s

/-- The number of values an environment holds. -/
def Tables.countEnvironmentValues (env : String) : ℕ :=
  s.values.rows.countP fun v => v.environmentID = env

/-- The two guards of the deletions: an environment that holds values is not deleted, and
nothing is deleted without leave. -/
def guardDeletions (allowDelete : Bool) : Except ServiceError Unit := do
  res.envDeletes.forM fun del => ensure (s.countEnvironmentValues del.id = 0)
    (.conflict ("environment " ++ quoted del.name ++ " holds " ++
      toString (s.countEnvironmentValues del.id) ++
      " live values and must be emptied before it can be deleted"))
  ensure (allowDelete = true ∨ (res.envDeletes = [] ∧ res.groupDeletes = [] ∧ res.keyDeletes = []))
    (.conflict "plan deletes definitions; pass --allow-delete")

/-- A secret does not become a configuration value this way. -/
def enforceReveal : Except ServiceError Unit :=
  res.keyUpdates.forM fun u =>
    ensure (¬ (u.prevClassification = .secret ∧ u.desired.classification = .config))
      (refuseApplyDeclassification u.prevName)

end

/-- **`Apply`.** The pins of the plan, the limits, the reveal gates and the confirmation of
moves are the input `admitted`. -/
def applyBundle (P : Platform) (around : Surroundings) (admitted : Except ServiceError Unit)
    (allowDelete : Bool) (s : Tables) (b : Bundle) : Except ServiceError Tables := do
  admitted
  ensure (¬ (b.additive = true ∧ allowDelete = true))
    (.invalid "additive bundle derives no deletion; --allow-delete is meaningless")
  let res ← resolve b s.current
  if res.isEmpty then return s
  else do
    guardDeletions s res allowDelete
    enforceReveal res
    let s ← executeResolution P.toMinter around s res
    fanOut P s.bumpSchemaRevision

end Hikyo.Catalogue
