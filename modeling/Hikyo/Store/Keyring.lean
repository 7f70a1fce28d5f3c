import Hikyo.Crypto.AAD

/-!
# The key store

The wrapped key hierarchy as the store keeps it. The operator's root key wraps
the master key – under two roots at once while the root is being replaced –, and
the master key wraps the tier-3 keys: a data key for each project, one for the
instance, the root token key and the scanning key. A tier-3 scope has a row for
each version of its key; one of them is active, older ones are retiring or
retired.

The tables are a structure whose fields include the schema's constraints, so a
state that violates one cannot be built: an insertion checks them and fails with
`KeyError.keyExists`, and an update is shown to keep them. The operations are
the mutations of the key repository, each the body of one serializable
transaction. Every row they are given was prepared earlier, against whatever the
store held then, so they take arbitrary rows.
-/

namespace Hikyo

open Tx (ensure)

/-! ## Rows -/

/-- What a tier-3 key is for. -/
inductive Purpose where
  | project
  | instanceWide
  | token
  | scanning
deriving DecidableEq, Repr

def Purpose.text : Purpose → String
  | project => "project"
  | instanceWide => "instance"
  | token => "token"
  | scanning => "scanning"

/-- The state of a key row. -/
inductive KeyState where
  | active
  | retiring
  | retired
deriving DecidableEq, Repr

/-- A wrapped key as the keyring prepares it. -/
structure WrappedKey where
  id : String
  purpose : Purpose
  orgID : String
  projectID : String
  version : UInt32
  masterKeyVersion : UInt32
  rootKeyEpoch : UInt32
  blob : Bytes
deriving DecidableEq, Repr

/-- A version number as the database stores it. -/
def dbInt (v : UInt32) : ℤ := v.toNat

/-- A row of `master_keys`: the master key of one version under one root. -/
structure MasterRow where
  version : ℤ
  rootKeyEpoch : ℤ
  state : KeyState
  blob : Bytes
deriving DecidableEq, Repr

/-- What a tier-3 key belongs to: its purpose, organisation and project. -/
abbrev KeyScope := Purpose × String × String

/-- A row of `tier3_keys`. -/
structure Tier3Row where
  id : String
  purpose : Purpose
  orgID : String
  projectID : String
  version : ℤ
  masterKeyVersion : ℤ
  state : KeyState
  blob : Bytes
deriving DecidableEq, Repr

def MasterRow.isActive (m : MasterRow) : Bool := m.state = .active

def Tier3Row.scope (r : Tier3Row) : KeyScope := (r.purpose, r.orgID, r.projectID)

def Tier3Row.isActive (r : Tier3Row) : Bool := r.state = .active

/-- The key can still be unwrapped to open ciphertexts. -/
def Tier3Row.isOpenable (r : Tier3Row) : Bool := r.state = .active ∨ r.state = .retiring

def WrappedKey.scope (k : WrappedKey) : KeyScope := (k.purpose, k.orgID, k.projectID)

/-- The row `InsertMasterKey` writes. -/
def WrappedKey.masterRow (k : WrappedKey) : MasterRow :=
  ⟨dbInt k.version, dbInt k.rootKeyEpoch, .active, k.blob⟩

/-- The row `InsertTier3Key` writes. -/
def WrappedKey.tier3Row (k : WrappedKey) : Tier3Row :=
  ⟨k.id, k.purpose, k.orgID, k.projectID, dbInt k.version, dbInt k.masterKeyVersion, .active, k.blob⟩

/-- How a mutation of the key store fails. -/
inductive KeyError where
  /-- a unique constraint is violated -/
  | keyExists
  /-- a generation row is missing -/
  | noGeneration (scope : String)
  /-- there is no active master key -/
  | hierarchyMissing
  /-- the key was wrapped under a master key that is no longer the active one -/
  | staleMaster
  /-- the key version is not the active one -/
  | staleDEK
  /-- another rotation came first -/
  | rotationSuperseded
  /-- there is not exactly one master wrapper -/
  | masterRotationBlocked
  /-- a rewrapped key is gone -/
  | vanished (id : String) (version : UInt32)
  /-- the root cannot be rotated now -/
  | rootRotationBlocked
  /-- the root is not dual-wrapped -/
  | notDualWrapped
  /-- a deployment still has to pick up the new root -/
  | rootFinalizationPendingDeployment
  /-- a stored number does not fit its type -/
  | outOfRange
  /-- the row is not the initial key of the project -/
  | conflict
deriving DecidableEq, Repr

/-! ## Tables -/

/-- **The key tables**, with the constraints of the schema. -/
structure KeyTables where
  masters : List MasterRow
  tier3 : List Tier3Row
  /-- `key_generations`: the rows that serve as locks, scope and generation -/
  generations : List (String × ℤ)
  /-- primary key of `master_keys` -/
  master_pk : Table.UniqueOn (fun _ => true) (fun m : MasterRow => (m.version, m.rootKeyEpoch)) masters
  /-- `master_keys_one_active_per_epoch` -/
  master_epoch : Table.UniqueOn MasterRow.isActive MasterRow.rootKeyEpoch masters
  /-- primary key of `tier3_keys` -/
  tier3_pk : Table.UniqueOn (fun _ => true) Tier3Row.id tier3
  /-- one row for each version of a scope -/
  tier3_version : Table.UniqueOn (fun _ => true) (fun r : Tier3Row => (r.scope, r.version)) tier3
  /-- `tier3_keys_one_active` -/
  tier3_active : Table.UniqueOn Tier3Row.isActive Tier3Row.scope tier3
  /-- primary key of `key_generations` -/
  generation_pk : Table.UniqueOn (fun _ => true) Prod.fst generations

namespace KeyTables

/-- The tables as the migration creates them. -/
def empty : KeyTables where
  masters := []
  tier3 := []
  generations := [("hierarchy", 1)]
  master_pk := by decide
  master_epoch := by decide
  tier3_pk := by decide
  tier3_version := by decide
  tier3_active := by decide
  generation_pk := by decide

section

variable (s : KeyTables) (scope : KeyScope) (key : WrappedKey) (version : ℤ)

/-- `GetActiveMasterKeys`: the active wrappers, the newest root first. -/
def activeMasters : List MasterRow :=
  (s.masters.filter MasterRow.isActive).insertionSort fun m m' => m'.rootKeyEpoch ≤ m.rootKeyEpoch

def insertMasterRow : Except KeyError KeyTables :=
  if h : Table.UniqueOn (fun _ => true) (fun m : MasterRow => (m.version, m.rootKeyEpoch))
        (key.masterRow :: s.masters) ∧
      Table.UniqueOn MasterRow.isActive MasterRow.rootKeyEpoch (key.masterRow :: s.masters) then
    .ok { s with masters := key.masterRow :: s.masters, master_pk := h.1, master_epoch := h.2 }
  else .error .keyExists

def insertTier3Row : Except KeyError KeyTables :=
  if h : Table.UniqueOn (fun _ => true) Tier3Row.id (key.tier3Row :: s.tier3) ∧
      Table.UniqueOn (fun _ => true) (fun r : Tier3Row => (r.scope, r.version))
        (key.tier3Row :: s.tier3) ∧
      Table.UniqueOn Tier3Row.isActive Tier3Row.scope (key.tier3Row :: s.tier3) then
    .ok { s with
      tier3 := key.tier3Row :: s.tier3
      tier3_pk := h.1
      tier3_version := h.2.1
      tier3_active := h.2.2 }
  else .error .keyExists

def insertScopeGenerationRow (scope : String) : Except KeyError KeyTables :=
  if h : Table.UniqueOn (fun _ => true) Prod.fst ((scope, (1 : ℤ)) :: s.generations) then
    .ok { s with generations := (scope, 1) :: s.generations, generation_pk := h }
  else .error .keyExists

/-- Retire the master rows that satisfy `p`. -/
def retireMasters (p : MasterRow → Bool) : KeyTables :=
  { s with
    masters := Table.update p (fun m => { m with state := .retired }) s.masters
    master_pk := s.master_pk.update fun _ _ => ⟨rfl, rfl⟩
    master_epoch := s.master_epoch.update fun _ h => absurd h nofun }

/-- Move the tier-3 rows that satisfy `p` out of the active state. -/
def demoteTier3 (p : Tier3Row → Bool) (state : KeyState) (hstate : state ≠ .active) : KeyTables :=
  { s with
    tier3 := Table.update p (fun r => { r with state := state }) s.tier3
    tier3_pk := s.tier3_pk.update fun _ _ => ⟨rfl, rfl⟩
    tier3_version := s.tier3_version.update fun _ _ => ⟨rfl, rfl⟩
    tier3_active := s.tier3_active.update fun _ h => absurd (of_decide_eq_true h) hstate }

/-- The row is the active one of the scope, at the version. -/
def activeAt (r : Tier3Row) : Bool :=
  r.scope = scope ∧ r.state = .active ∧ r.version = version

/-- `RetireTier3KeyAtVersion`: the number of rows and the tables. -/
def retireTier3AtVersion : ℕ × KeyTables :=
  (s.tier3.countP (activeAt scope version), s.demoteTier3 (activeAt scope version) .retired nofun)

/-- `DemoteActiveTier3ToRetiring`. -/
def demoteTier3AtVersion : ℕ × KeyTables :=
  (s.tier3.countP (activeAt scope version), s.demoteTier3 (activeAt scope version) .retiring nofun)

/-- `RetireRetiringTier3ForScope`. -/
def retireRetiringTier3ForScope : KeyTables :=
  s.demoteTier3 (fun r => r.scope = scope ∧ r.state = .retiring) .retired nofun

/-- `RetireMasterAtVersion`. -/
def retireMasterAtVersion : ℕ × KeyTables :=
  let p : MasterRow → Bool := fun m => m.version = version ∧ m.state = .active
  (s.masters.countP p, s.retireMasters p)

/-- `RetireMasterWrapperAtEpoch`. -/
def retireMasterWrapper (row : MasterRow) : ℕ × KeyTables :=
  let p : MasterRow → Bool := fun m =>
    m.version = row.version ∧ m.rootKeyEpoch = row.rootKeyEpoch ∧ m.state = .active
  (s.masters.countP p, s.retireMasters p)

/-- `UpdateTier3Wrapping`: the row with the id and the version, whatever its state. -/
def updateTier3Wrapping : ℕ × KeyTables :=
  let p : Tier3Row → Bool := fun r => r.id = key.id ∧ r.version = dbInt key.version
  (s.tier3.countP p,
    { s with
      tier3 := Table.update p
        (fun r => { r with blob := key.blob, masterKeyVersion := dbInt key.masterKeyVersion }) s.tier3
      tier3_pk := s.tier3_pk.update fun _ _ => ⟨rfl, rfl⟩
      tier3_version := s.tier3_version.update fun _ _ => ⟨rfl, rfl⟩
      tier3_active := s.tier3_active.update fun _ h => ⟨h, rfl⟩ })

/-- `CountOpenableTier3NotAtMaster`. -/
def countOpenableTier3NotAtMaster : ℕ :=
  s.tier3.countP fun r => r.isOpenable && decide (r.masterKeyVersion ≠ version)

/-- `AssertActiveTier3Version`: the state of the scope's key at the version. -/
def activeTier3State : Option KeyState :=
  (s.tier3.find? fun r => r.scope = scope ∧ r.version = version).map Tier3Row.state

end

end KeyTables

/-! ## Operations -/

section

variable (scope : KeyScope) (key : WrappedKey) (s : KeyTables)

/-- The name of a scope's lock. -/
def scopeGenerationKey : String :=
  "tier3:" ++ scope.1.text ++ ":" ++ scope.2.1 ++ ":" ++ scope.2.2

/-- `AcquireScopeGeneration`: the lock row has to be there. -/
def acquireScope (scope : String) : Except KeyError Unit :=
  ensure (scope ∈ s.generations.map Prod.fst) (.noGeneration scope)

def acquireHierarchy : Except KeyError Unit := acquireScope s "hierarchy"

/-- There is an active master key and every active wrapper is of the version. -/
def assertActiveMaster (masterVersion : UInt32) : Except KeyError Unit := do
  ensure (s.activeMasters ≠ []) .hierarchyMissing
  ensure (∀ m ∈ s.activeMasters, m.version = dbInt masterVersion) .staleMaster

/-- The writer fence: the version a ciphertext was sealed under is still active. -/
def assertActiveDEKVersion (scope : KeyScope) (version : UInt32) : Except KeyError Unit :=
  ensure (s.activeTier3State scope (dbInt version) = some .active) .staleDEK

/-- Insert each key with the lock of its scope. -/
def insertTier3WithGenerations (s : KeyTables) : List WrappedKey → Except KeyError KeyTables
  | [] => .ok s
  | key :: keys => do
    let s ← s.insertTier3Row key
    let s ← s.insertScopeGenerationRow (scopeGenerationKey key.scope)
    insertTier3WithGenerations s keys

/-- First start: the master key and the keys below it. -/
def createHierarchy (master : WrappedKey) (tier3 : List WrappedKey) (s : KeyTables) :
    Except KeyError KeyTables := do
  acquireHierarchy s
  let s ← s.insertMasterRow master
  insertTier3WithGenerations s tier3

/-- A new scope's first key. -/
def createTier3 : Except KeyError KeyTables := do
  acquireHierarchy s
  assertActiveMaster s key.masterKeyVersion
  let s ← s.insertTier3Row key
  s.insertScopeGenerationRow (scopeGenerationKey key.scope)

/-- The initial key of a project, created with the project `org`, `project` the
caller was authorized for. -/
def insertInitialProjectDEK (org project : String) (key : WrappedKey) (s : KeyTables) :
    Except KeyError KeyTables := do
  ensure (project ≠ "" ∧ key.scope = (.project, org, project) ∧ key.version = 1) .conflict
  acquireHierarchy s
  assertActiveMaster s key.masterKeyVersion
  let s ← s.insertTier3Row key
  s.insertScopeGenerationRow (scopeGenerationKey key.scope)

/-- Rotation of the token or the scanning key: the predecessor is retired at once. -/
def rotateRootScopedTier3 (purpose : Purpose) (key : WrappedKey) (s : KeyTables) :
    Except KeyError KeyTables := do
  acquireHierarchy s
  assertActiveMaster s key.masterKeyVersion
  let (retired, s) := s.retireTier3AtVersion (purpose, "", "") (dbInt key.version - 1)
  ensure (retired = 1) .rotationSuperseded
  s.insertTier3Row key

/-- Rotation of a data key: the predecessor keeps opening what it sealed. -/
def rotateDEK : Except KeyError KeyTables := do
  acquireHierarchy s
  acquireScope s (scopeGenerationKey key.scope)
  assertActiveMaster s key.masterKeyVersion
  let (demoted, s) := s.demoteTier3AtVersion key.scope (dbInt key.version - 1)
  ensure (demoted = 1) .rotationSuperseded
  s.insertTier3Row key

/-- The loop that stores the rewrapped keys. -/
def rewrapTier3 (s : KeyTables) : List WrappedKey → Except KeyError KeyTables
  | [] => .ok s
  | row :: rows => do
    let (updated, s) := s.updateTier3Wrapping row
    ensure (updated = 1) (.vanished row.id row.version)
    rewrapTier3 s rows

/-- Rotation of the master key. -/
def rotateMasterKey (newMaster : WrappedKey) (rewrapped : List WrappedKey) (s : KeyTables) :
    Except KeyError KeyTables := do
  acquireHierarchy s
  match s.activeMasters with
  | [master] =>
    ensure (dbInt newMaster.version = master.version + 1) .rotationSuperseded
    let (retired, s) := s.retireMasterAtVersion master.version
    ensure (retired = 1) .rotationSuperseded
    let s ← s.insertMasterRow newMaster
    let s ← rewrapTier3 s rewrapped
    -- no key that can be opened may remain under the old master
    ensure (s.countOpenableTier3NotAtMaster (dbInt newMaster.version) = 0) .rotationSuperseded
    return s
  | _ => .error .masterRotationBlocked

/-- The end of a re-encryption: the scope's retiring keys are retired. -/
def retireRetiringTier3 : Except KeyError KeyTables := do
  acquireScope s (scopeGenerationKey scope)
  return s.retireRetiringTier3ForScope scope

end

/-- First half of a root rotation: a second wrapper of the same master key. -/
def rootKeyRotatePrepare (newWrapper : WrappedKey) (s : KeyTables) : Except KeyError KeyTables := do
  acquireHierarchy s
  match s.activeMasters with
  | [master] =>
    ensure (master.version = dbInt newWrapper.version ∧
      master.rootKeyEpoch + 1 = dbInt newWrapper.rootKeyEpoch) .rootRotationBlocked
    s.insertMasterRow newWrapper
  | _ => .error .rootRotationBlocked

/-- Second half: the old root's wrapper is retired. `blocked` says whether a
deployment of the new root is still pending. -/
def rootKeyRotateFinalize (blocked : Bool) (s : KeyTables) : Except KeyError KeyTables := do
  ensure (blocked = false) .rootFinalizationPendingDeployment
  acquireHierarchy s
  match s.activeMasters with
  | [newer, older] =>
    let (retired, s) := s.retireMasterWrapper older
    ensure (retired = 1) .rotationSuperseded
    ensure (0 ≤ newer.rootKeyEpoch ∧ newer.rootKeyEpoch < 2 ^ 32) .outOfRange
    return s
  | _ => .error .notDualWrapped

/-! ## Preparation

What the keyring hands to the store. The identifier and the wrapped bytes are
whatever was drawn and sealed; the rest is fixed by the code. -/

/-- What is drawn when a key is minted: its identifier and its wrapped bytes. -/
structure Minted where
  id : String
  blob : Bytes
deriving DecidableEq, Repr

/-- A tier-3 key at a version, wrapped under a master version. -/
def mintTier3At (purpose : Purpose) (orgID projectID : String) (version masterVersion : UInt32)
    (m : Minted) : WrappedKey :=
  ⟨m.id, purpose, orgID, projectID, version, masterVersion, 0, m.blob⟩

/-- The master row of the first start. -/
def mintMaster (m : Minted) : WrappedKey := ⟨m.id, .project, "", "", 1, 0, 1, m.blob⟩

/-- First start: the master key at version 1 under the root of epoch 1, and the
instance, token and scanning keys below it. -/
def mintHierarchy (master inst token scanning : Minted) (s : KeyTables) :
    Except KeyError KeyTables :=
  createHierarchy (mintMaster master)
    [mintTier3At .instanceWide "" "" 1 1 inst, mintTier3At .token "" "" 1 1 token,
      mintTier3At .scanning "" "" 1 1 scanning] s

end Hikyo
