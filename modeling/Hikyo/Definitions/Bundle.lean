import Hikyo.Store.CatalogueTables

/-!
# Definitions bundles

A bundle is the shape of a project as a file: its environments, its key groups and its
keys, with the rules of the keys written over environment names. An entry may carry the
identity it was exported with. A bundle with a base revision is a desired state, and what
it leaves out is to be deleted; a bundle without one is additive, it carries no identities
and may only create.

`matchEntities` pairs the entries of one kind with the rows of a project. Entries with an
identity bind it, the others bind by name what is still free, the rest are created.
`resolve` runs it for the three kinds and computes what has to be done. It compares
references as identities, so that a renamed environment is not taken for another one; an
entity that does not exist yet has the identity `new:` followed by its name.

A declaration is its canonical text; the compiler and the size of the encoding are parameters.
-/

namespace Hikyo.Catalogue

open Tx (ensure)
open RuleError (quoted)

/-! ## Bundles -/

/-- A key of a bundle. The group and the environments of the rules are names. -/
structure BundleKey where
  /-- the identity, or the empty string -/
  id : String
  name : String
  folderPath : String
  classification : Classification
  description : String
  deprecated : Bool
  deprecationNote : String
  group : String
  declaration : String
  requiredIn : Presence
  forbiddenIn : Presence
deriving DecidableEq, Repr

structure Bundle where
  formatVersion : ℕ
  baseRevision : Option ℕ
  environments : List Entity
  keyGroups : List Entity
  keys : List BundleKey
deriving DecidableEq, Repr

section

variable (b : Bundle) (k : BundleKey) (cur : CurrentState)

def BundleKey.entity : Entity := ⟨k.id, k.name⟩

def Key.entity (k : Key) : Entity := ⟨k.id, k.name⟩

/-- A bundle without a base revision is additive. -/
def Bundle.additive : Bool := b.baseRevision.isNone

/-- **What the definitions of a project are at present.** -/
structure CurrentState where
  schemaRevision : ℕ
  environments : List Entity
  keyGroups : List Entity
  keys : List Key

/-- `buildCurrentState`. -/
def Tables.current (s : Tables) : CurrentState where
  schemaRevision := s.schemaRevision
  environments := s.environments.rows
  keyGroups := s.groups.rows
  keys := s.keys.rows

/-! ## Canonical bundles -/

def formatVersion : ℕ := 1

def maxBundleBytes : ℕ := 1048576

def maxBundleEntries : ℕ := 10000

/-- **What canonicalization rests on**: the declaration compiler, which gives the canonical
text or a reason, and the length of the encoding. -/
structure BundleCodec where
  compileClassified : Classification → String → Except String String
  encodedBytes : Bundle → ℕ

def Bundle.hasIDs : Bool :=
  b.environments.any (fun e => e.id ≠ "") || b.keyGroups.any (fun g => g.id ≠ "") ||
    b.keys.any (fun k => k.id ≠ "")

def validateBundle : Except ServiceError Unit := do
  ensure (b.formatVersion = formatVersion)
    (.invalid ("bundle format_version " ++ toString b.formatVersion ++ " is not this build's " ++
      toString formatVersion ++ ": version mismatch"))
  let entries := b.keys.length + b.environments.length + b.keyGroups.length
  ensure (entries ≤ maxBundleEntries)
    (.limitExceeded ("bundle holds " ++ toString entries ++ " entries, over the " ++
      toString maxBundleEntries ++ " entry limit"))
  ensure (¬ (b.additive = true ∧ b.hasIDs = true))
    (.invalid "malformed template: ids without base revision")

/-- The environments of an explicit rule of a bundle, sorted: no empty name, none twice. -/
def checkNames (what keyName : String) : List String → Except ServiceError Unit
  | [] => .ok ()
  | name :: names => do
    ensure (name ≠ "")
      (.invalid ("key " ++ quoted keyName ++ " `" ++ what ++ "` names an empty environment"))
    ensure (names.head? ≠ some name)
      (.invalid ("key " ++ quoted keyName ++ " `" ++ what ++ "` names environment " ++
        quoted name ++ " more than once"))
    checkNames what keyName names

def normalizePresence (what keyName : String) (p : Presence) : Except ServiceError Presence :=
  let envs := Table.orderBy (fun name : String => name) p.environments
  match p.mode with
  | .explicit => do
    ensure (envs ≠ [])
      (.invalid ("key " ++ quoted keyName ++ " `" ++ what ++
        "` mode `explicit` names at least one environment"))
    checkNames what keyName envs
    return ⟨.explicit, envs⟩
  | mode => do
    ensure (envs = [])
      (.invalid ("key " ++ quoted keyName ++ " `" ++ what ++ "` mode " ++ quoted mode.text ++
        " carries no environments"))
    return ⟨mode, []⟩

def compileKey (C : BundleCodec) (k : BundleKey) : Except ServiceError BundleKey := do
  let declaration ← (C.compileClassified k.classification k.declaration).mapError fun why =>
    .invalid ("key " ++ quoted k.name ++ " has an invalid declaration: " ++ why)
  let requiredIn ← normalizePresence "required_in" k.name k.requiredIn
  let forbiddenIn ← normalizePresence "forbidden_in" k.name k.forbiddenIn
  return { k with declaration, requiredIn, forbiddenIn }

/-- `Canonicalize`: the bundle validated, sorted by names, its declarations compiled and
its rules in shape. -/
def canonicalize (C : BundleCodec) (b : Bundle) : Except ServiceError Bundle := do
  validateBundle b
  let keys ← (Table.orderBy BundleKey.name b.keys).mapM (compileKey C)
  let out : Bundle :=
    { formatVersion
      baseRevision := b.baseRevision
      environments := Table.orderBy Entity.name b.environments
      keyGroups := Table.orderBy Entity.name b.keyGroups
      keys }
  ensure (C.encodedBytes out ≤ maxBundleBytes)
    (.limitExceeded ("bundle is " ++ toString (C.encodedBytes out) ++ " bytes, over the " ++
      toString maxBundleBytes ++ " byte limit"))
  return out

/-! ## Export -/

/-- A name under an identity, or the empty string. -/
def nameFor (entities : List Entity) (id : String) : String :=
  match entities.find? fun e => e.id = id with
  | some e => e.name
  | none => ""

def bundlePresence (environments : List Entity) (p : Presence) : Presence :=
  ⟨p.mode, p.environments.map (nameFor environments)⟩

/-- `bundleFromState`: the present definitions as a bundle, with their identities and the
revision, or without for a portable one. -/
def bundleFromState (withIDs : Bool) : Bundle where
  formatVersion := formatVersion
  baseRevision := if withIDs then some cur.schemaRevision else none
  environments := cur.environments.map fun e => ⟨if withIDs then e.id else "", e.name⟩
  keyGroups := cur.keyGroups.map fun g => ⟨if withIDs then g.id else "", g.name⟩
  keys := cur.keys.map fun k =>
    { id := if withIDs then k.id else ""
      name := k.name
      folderPath := k.folderPath
      classification := k.classification
      description := k.description
      deprecated := k.deprecated
      deprecationNote := k.deprecationNote
      group := nameFor cur.keyGroups k.groupID
      declaration := k.declaration
      requiredIn := bundlePresence cur.environments k.rules.required
      forbiddenIn := bundlePresence cur.environments k.rules.forbidden }

/-! ## Matching -/

/-- **The pairing of one kind**: for each entry of the bundle the identity it bound, or the
empty string if it is to be created, the positions of the creations, and the identities
that nothing claimed. -/
structure KindMatch where
  boundDBID : List String
  creates : List ℕ
  deletes : List String

/-- Steps 1 and 2: the entries that carry an identity bind it. The accumulator has the
identities that are bound, with the names of the entries that bound them. -/
def bindIDs (kind : String) (current : List Entity) :
    List (String × String) → List Entity → Except ServiceError (List (String × String))
  | boundBy, [] => .ok boundBy
  | boundBy, e :: es =>
    if e.id = "" then bindIDs kind current boundBy es
    else if e.id ∉ current.map Entity.id then
      .error (.invalid ("bundle " ++ kind ++ " " ++ quoted e.name ++ " binds id " ++ quoted e.id ++
        ", which does not exist — stale file, re-export"))
    else
      match boundBy.lookup e.id with
      | some prev =>
        .error (.invalid ("bundle " ++ kind ++ "s " ++ quoted prev ++ " and " ++ quoted e.name ++
          " both bind identity " ++ quoted e.id))
      | none => bindIDs kind current ((e.id, e.name) :: boundBy) es

/-- Steps 3 and 4: the other entries bind by name what is not bound yet; the rest are
creations. -/
def bindNames (current : List Entity) :
    List (String × String) → List Entity → List String × List (String × String)
  | boundBy, [] => ([], boundBy)
  | boundBy, e :: es =>
    if e.id ≠ "" then
      let rest := bindNames current boundBy es
      (e.id :: rest.1, rest.2)
    else
      match current.find? fun row => row.name = e.name with
      | some row =>
        if row.id ∈ boundBy.map Prod.fst then
          let rest := bindNames current boundBy es
          ("" :: rest.1, rest.2)
        else
          let rest := bindNames current ((row.id, e.name) :: boundBy) es
          (row.id :: rest.1, rest.2)
      | none =>
        let rest := bindNames current boundBy es
        ("" :: rest.1, rest.2)

/-- Step 5: no two entries end with one name. -/
def checkFinalNames (kind : String) : List String → List Entity → Except ServiceError Unit
  | _, [] => .ok ()
  | seen, e :: es =>
    if e.name ∈ seen then
      .error (.invalid ("bundle " ++ kind ++ "s " ++ quoted e.name ++ " and " ++ quoted e.name ++
        " resolve to the same final name " ++ quoted e.name))
    else checkFinalNames kind (e.name :: seen) es

/-- **`matchEntities`**: the entries of a bundle against the rows of a project, for one
kind. -/
def matchEntities (kind : String) (bundle current : List Entity) (additive : Bool) :
    Except ServiceError KindMatch := do
  let boundBy ← bindIDs kind current [] bundle
  let bound := bindNames current boundBy bundle
  checkFinalNames kind [] bundle
  return {
    boundDBID := bound.1
    creates := (bound.1.zipIdx.filter fun p => p.1 = "").map Prod.snd
    deletes :=
      if additive then []
      else (current.filter fun row => row.id ∉ bound.2.map Prod.fst).map Entity.id }

/-! ## Resolution -/

structure Rename where
  id : String
  prior : String
  target : String
deriving DecidableEq, Repr

/-- **A bound key that is to be changed**, and in what. -/
structure KeyUpdate where
  id : String
  prevName : String
  desired : BundleKey
  renamed : Bool
  metaChanged : Bool
  declChanged : Bool
  reclassified : Bool
  groupChanged : Bool
  presenceChanged : Bool
  prevClassification : Classification
deriving DecidableEq, Repr

def KeyUpdate.changed (u : KeyUpdate) : Bool :=
  u.renamed || u.metaChanged || u.declChanged || u.reclassified || u.groupChanged ||
    u.presenceChanged

/-- **What a bundle asks to be done.** -/
structure Resolution where
  additive : Bool
  envCreates : List String
  envRenames : List Rename
  envDeletes : List Entity
  groupCreates : List String
  groupRenames : List Rename
  groupDeletes : List Entity
  keyCreates : List BundleKey
  keyUpdates : List KeyUpdate
  keyDeletes : List Entity
  revealKeys : List String
deriving DecidableEq, Repr

/-- There is nothing to do. -/
def Resolution.isEmpty (r : Resolution) : Bool :=
  r.envCreates.isEmpty && r.envRenames.isEmpty && r.envDeletes.isEmpty &&
    r.groupCreates.isEmpty && r.groupRenames.isEmpty && r.groupDeletes.isEmpty &&
    r.keyCreates.isEmpty && r.keyUpdates.isEmpty && r.keyDeletes.isEmpty

/-- The identities the names of a bundle stand for: the bound one, or `new:` and the
name. -/
def identityByName (bundle : List Entity) (boundDBID : List String) : List (String × String) :=
  (bundle.zip boundDBID).map fun p => (p.1.name, if p.2 = "" then "new:" ++ p.1.name else p.2)

/-- The entries that are to be created. -/
def createsOf (bundle : List Entity) (boundDBID : List String) : List String :=
  ((bundle.zip boundDBID).filter fun p => p.2 = "").map fun p => p.1.name

/-- The bound entries whose name moves. -/
def renamesOf (bundle current : List Entity) (boundDBID : List String) : List Rename :=
  ((bundle.zip boundDBID).filter fun p => p.2 ≠ "" ∧ nameFor current p.2 ≠ p.1.name).map
    fun p => ⟨p.2, nameFor current p.2, p.1.name⟩

/-- Identities with their names. -/
def refsFor (current : List Entity) (ids : List String) : List Entity :=
  ids.map fun id => ⟨id, nameFor current id⟩

/-- The identity a name stands for, or the empty string. -/
def identityOf (identities : List (String × String)) (name : String) : String :=
  (identities.lookup name).getD ""

/-- A rule of a row, over identities, against a rule of a bundle, over names. -/
def presenceChanged (before desired : Presence) (envIdentity : List (String × String)) : Bool :=
  if before.mode ≠ desired.mode then true
  else if desired.mode ≠ .explicit then false
  else if before.environments.length ≠ desired.environments.length then true
  else desired.environments.any fun name => !before.environments.contains (identityOf envIdentity name)

def diffKey (before : Key) (desired : BundleKey) (envIdentity groupIdentity : List (String × String)) :
    KeyUpdate where
  id := before.id
  prevName := before.name
  desired := desired
  renamed := before.name ≠ desired.name
  metaChanged := before.folderPath ≠ desired.folderPath ∨ before.description ≠ desired.description ∨
    before.deprecated ≠ desired.deprecated ∨ before.deprecationNote ≠ desired.deprecationNote
  declChanged := before.declaration ≠ desired.declaration
  reclassified := before.classification ≠ desired.classification
  groupChanged :=
    (if desired.group = "" then "" else identityOf groupIdentity desired.group) ≠ before.groupID
  presenceChanged :=
    Catalogue.presenceChanged before.rules.required desired.requiredIn envIdentity ||
      Catalogue.presenceChanged before.rules.forbidden desired.forbiddenIn envIdentity
  prevClassification := before.classification

/-- The two gates: a change of the rules of a secret, and a declassification. -/
def needsReveal (u : KeyUpdate) : Bool :=
  u.prevClassification = .secret ∧ (u.declChanged = true ∨ u.desired.classification = .config)

/-- A key refers to nothing that the bundle does not declare. -/
def validateKeyReferences (envNames groupNames : List String) : Except ServiceError Unit := do
  ensure (k.group = "" ∨ k.group ∈ groupNames)
    (.invalid ("key " ++ quoted k.name ++ " references key group " ++ quoted k.group ++
      ", which the bundle does not declare"))
  match k.requiredIn.environments.find? fun name => name ∉ envNames with
  | some name =>
    .error (.invalid ("key " ++ quoted k.name ++ " required_in references environment " ++
      quoted name ++ ", which the bundle does not declare"))
  | none =>
    match k.forbiddenIn.environments.find? fun name => name ∉ envNames with
    | some name =>
      .error (.invalid ("key " ++ quoted k.name ++ " forbidden_in references environment " ++
        quoted name ++ ", which the bundle does not declare"))
    | none => .ok ()

/-- The row a key of a bundle was bound to. -/
def boundKey (id : String) : Option Key :=
  if id = "" then none else cur.keys.find? fun row => row.id = id

/-- The keys of a bundle, one after the other: the creations and the updates. -/
def resolveKeys (strict additive : Bool) (cur : CurrentState) (envNames groupNames : List String)
    (envIdentity groupIdentity : List (String × String)) :
    List (BundleKey × String) → Except ServiceError (List BundleKey × List KeyUpdate)
  | [] => .ok ([], [])
  | (k, id) :: rest => do
    validateKeyReferences k envNames groupNames
    match boundKey cur id with
    | none =>
      let found ←
        resolveKeys strict additive cur envNames groupNames envIdentity groupIdentity rest
      return (k :: found.1, found.2)
    | some before =>
      let upd := diffKey before k envIdentity groupIdentity
      ensure (¬ (upd.changed = true ∧ additive = true ∧ strict = true))
        (.invalid ("additive bundle may not modify existing key " ++ quoted k.name ++
          "; export first to obtain a desired-state base"))
      let found ←
        resolveKeys strict additive cur envNames groupNames envIdentity groupIdentity rest
      return (found.1, if upd.changed then upd :: found.2 else found.2)

/-- **`Resolve`**: what a bundle asks to be done in a project. -/
def resolveWith (strict : Bool) (b : Bundle) (cur : CurrentState) :
    Except ServiceError Resolution := do
  let additive := b.additive
  let envMatch ← matchEntities "environment" b.environments cur.environments additive
  let groupMatch ← matchEntities "key group" b.keyGroups cur.keyGroups additive
  let keyMatch ←
    matchEntities "key" (b.keys.map BundleKey.entity) (cur.keys.map Key.entity) additive
  let envIdentity := identityByName b.environments envMatch.boundDBID
  let groupIdentity := identityByName b.keyGroups groupMatch.boundDBID
  let keys ← resolveKeys strict additive cur (b.environments.map Entity.name)
    (b.keyGroups.map Entity.name) envIdentity groupIdentity (b.keys.zip keyMatch.boundDBID)
  return {
    additive
    envCreates := createsOf b.environments envMatch.boundDBID
    envRenames := renamesOf b.environments cur.environments envMatch.boundDBID
    envDeletes := refsFor cur.environments envMatch.deletes
    groupCreates := createsOf b.keyGroups groupMatch.boundDBID
    groupRenames := renamesOf b.keyGroups cur.keyGroups groupMatch.boundDBID
    groupDeletes := refsFor cur.keyGroups groupMatch.deletes
    keyCreates := keys.1
    keyUpdates := keys.2
    keyDeletes := refsFor (cur.keys.map Key.entity) keyMatch.deletes
    revealKeys := Table.orderBy (fun name : String => name)
      ((keys.2.filter needsReveal).map fun u => u.desired.name) }

def resolve : Except ServiceError Resolution :=
  resolveWith true b cur

end

end Hikyo.Catalogue
