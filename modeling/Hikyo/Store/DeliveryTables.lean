import Hikyo.Store.Keyring
import Hikyo.Delivery.Parameters

/-!
# What a fetch reads

The published state of an environment is a sequence of snapshots. A snapshot has
a revision number, the schema revision it was validated at, the parameter
contract it was published with, and one entry for each key it delivers; an entry
keeps its own copy of the key's name and classification, and the identifier of
the value entry it was materialized from. Retention may collect the payload of a
snapshot, which leaves its header.

A fetch further reads who the caller is and what it holds, the pin that routes a
workload to one revision, the file target that narrows a workload to some keys,
the machine-reveal opt-in of the project, two generation counters, and the active
token key. `EnvironmentTables` has these for one environment.
-/

namespace Hikyo

/-! ## Snapshots -/

/-- The marker retention leaves when it removes a payload. -/
structure SnapshotCollection where
  time : ℕ
  policy : String
deriving DecidableEq, Repr

/-- **The header of a snapshot.** -/
structure Snapshot where
  id : String
  revision : ℕ
  schemaRevision : ℕ
  parameterContract : Parameters.StoredContract
  /-- none while the payload is there -/
  collected : Option SnapshotCollection

def Snapshot.payloadPresent (s : Snapshot) : Bool := s.collected.isNone

/-- The policy of a collected payload, or the empty string. -/
def Snapshot.collectionPolicy (s : Snapshot) : String :=
  (s.collected.map SnapshotCollection.policy).getD ""

/-- **One key of one snapshot.** -/
structure SnapshotEntry where
  id : String
  orgID : OrgId
  projectID : ProjectId
  environmentID : EnvId
  snapshotID : String
  keyID : KeyId
  keyName : String
  classification : Classification
  ciphertext : Bytes
  /-- the value entry the plaintext comes from -/
  valueEntryID : String
deriving DecidableEq, Repr

/-- Where the ciphertext of an entry belongs. -/
def snapshotAAD (e : SnapshotEntry) : ProjectFieldAAD where
  orgID := utf8 e.orgID
  projectID := utf8 e.projectID
  ownerTable := utf8 "snapshot_entries"
  ownerRowID := utf8 e.id
  fieldTag := utf8 "snapshot_value"
  environmentID := utf8 e.environmentID
  keyID := utf8 e.keyID
  snapshotID := utf8 e.snapshotID

namespace Delivery

/-! ## Callers -/

inductive PrincipalClass where
  | human
  | developer
  | workload
  | automation
  | provisioningConnection
  | instanceConnection
deriving DecidableEq, Repr

/-- The classes a service account is created with. -/
def PrincipalClass.isServiceAccountKind (c : PrincipalClass) : Bool := c = workload ∨ c = automation

/-- **A caller as authentication resolved it.** -/
structure Caller where
  principal : PrincipalId
  principalClass : PrincipalClass
  credentialID : String
  credentialExpiresAt : Option ℕ
  /-- the human a developer credential acts for -/
  authorityPrincipal : PrincipalId
  /-- the environment a developer credential is for -/
  developerScope : Scope
deriving DecidableEq, Repr

/-- What is presented to be authenticated. -/
abbrev Actor := String

/-- How a fetch is refused. -/
inductive FetchError where
  /-- the uniform answer for what does not exist or is out of reach -/
  | notFound
  | unauthorized
  | invalid (detail : String)
  | limitExceeded (detail : String)
  /-- nothing was published yet -/
  | notMaterialized
  /-- retention removed the payload -/
  | collectedRevision (revision : ℕ) (policy : String)
  | noKey
  | internal (detail : String)
deriving DecidableEq, Repr

/-! ## Pins and file targets -/

/-- **A pin**: the revision a workload is served, and who answers for it. -/
structure RevisionPin where
  workloadPrincipalID : PrincipalId
  revision : ℕ
  authorityPrincipalID : PrincipalId
  expiresAt : ℕ
deriving DecidableEq, Repr

/-- **A file target**: the keys a workload is narrowed to. -/
structure FileTarget where
  id : String
  principalID : PrincipalId
  environmentID : EnvId
  generation : ℕ
  keys : List KeyId
deriving DecidableEq, Repr

/-- The opt-in of a project; every flip moves the generation. -/
structure MachineReveal where
  enabled : Bool
  generation : ℕ
deriving DecidableEq, Repr

/-! ## Tables -/

/-- **The tables of one environment**, and what is read beside them. -/
structure EnvironmentTables where
  scope : Scope
  isProtected : Bool
  snapshots : Table.Keyed Snapshot.revision
  entries : Table.Keyed SnapshotEntry.id
  pins : Table.Keyed RevisionPin.workloadPrincipalID
  fileTargets : Table.Keyed FileTarget.principalID
  /-- who presents an artifact, at a time -/
  resolve : Actor → ℕ → Except FetchError Caller
  /-- the grants authorization evaluates; none for a principal that is not active -/
  grants : PrincipalId → List Grant
  /-- the grant rows of a principal -/
  grantRows : PrincipalId → List Grant
  rules : PrincipalId → List Rule
  /-- the self-configuration profile and the assurance of the session -/
  admits : Caller → Except FetchError Unit
  /-- the self-configuration profile, for a recorded principal -/
  profilePermits : PrincipalId → Bool
  machineReveal : Option MachineReveal
  /-- moved by every change of a principal's authority -/
  principalGeneration : PrincipalId → Option ℕ
  /-- moved by every pin of a principal here; 0 if there was none -/
  pinGeneration : PrincipalId → ℕ
  /-- the active token key -/
  tokenKey : Option WrappedKey

namespace EnvironmentTables

section

variable (t : EnvironmentTables)

/-- `Latest`: the snapshot with the greatest revision. -/
def latest : Option Snapshot :=
  (Table.orderBy Snapshot.revision t.snapshots.rows).getLast?

/-- `AtRevision` -/
def atRevision (revision : ℕ) : Option Snapshot :=
  t.snapshots.rows.find? fun s => s.revision = revision

/-- `Entries`: what a snapshot delivers, by key name. -/
def entriesOf (snapshot : Snapshot) : List SnapshotEntry :=
  Table.orderBy SnapshotEntry.keyName
    (t.entries.rows.filter fun e => e.snapshotID = snapshot.id)

/-- `GetForWorkload` -/
def pinFor (workload : PrincipalId) : Option RevisionPin :=
  t.pins.rows.find? fun p => p.workloadPrincipalID = workload

/-- `ForPrincipal` -/
def fileTargetFor (principal : PrincipalId) : Option FileTarget :=
  t.fileTargets.rows.find? fun f => f.principalID = principal

end

theorem mem_of_atRevision {t : EnvironmentTables} {revision : ℕ} {s : Snapshot}
    (h : t.atRevision revision = some s) : s ∈ t.snapshots.rows ∧ s.revision = revision :=
  ⟨List.mem_of_find?_eq_some h, by simpa using List.find?_some h⟩

end EnvironmentTables

end Delivery

end Hikyo
