import Hikyo.Lib.Paging
import Hikyo.Crypto.ProjectSealer
import Hikyo.Store.KeyHierarchy

/-!
# Re-encryption

After a project's data key was rotated, `reencrypt` moves the project's
ciphertexts onto the new version, table by table and chunk by chunk, and then
retires the superseded versions. Writers go on meanwhile, with sealers that may
have been built before the rotation; another rotation may arrive in the middle.

Two checks keep this together. Every transaction that writes ciphertexts asserts
that the version they were sealed under is still the active one. And the
transaction that retires asserts this too and pages through every registered
table first, refusing if any ciphertext is off the active version. The module
models the four kinds of transactions; what they guarantee together is shown in
`Hikyo.Service.ReencryptSafety`.
-/

namespace Hikyo

open Tx (commit)

/-! ## Ciphertext tables -/

/-- The tables that hold ciphertexts under a project's data key. -/
inductive ProjectTable where
  | value
  | snapshot
  | pending
  | adapter
  | adapterRouteMove
  | dynamicProvider
  | sshCAKey
  | transitKeyVersion
deriving DecidableEq, Repr

namespace ProjectTable

/-- The registry: the walk and the dryness gate both go through it. -/
def all : List ProjectTable :=
  [value, snapshot, pending, adapter, adapterRouteMove, dynamicProvider, sshCAKey,
    transitKeyVersion]

def name : ProjectTable → String
  | value => "value"
  | snapshot => "snapshot"
  | pending => "pending"
  | adapter => "adapter"
  | adapterRouteMove => "adapter_route_move"
  | dynamicProvider => "dynamic_provider"
  | sshCAKey => "ssh_ca_key"
  | transitKeyVersion => "transit_key_version"

/-- Whether the table's list query leaves out the rows without a ciphertext. -/
def skipsNull : ProjectTable → Bool
  | dynamicProvider | sshCAKey | transitKeyVersion => true
  | _ => false

theorem mem_all (t : ProjectTable) : t ∈ all := by cases t <;> decide

end ProjectTable

/-- A row of one of the tables. -/
structure CipherRow where
  table : ProjectTable
  org : String
  project : String
  id : String
  env : String
  key : String
  snapshot : String
  /-- the adapter of a route move -/
  adapterID : String
  /-- `none` is a NULL column -/
  ciphertext : Option Bytes
  /-- identifiers are minted with a prefix, so none is empty -/
  id_minted : id ≠ ""
deriving DecidableEq

namespace CipherRow

/-- The column as the service reads it; NULL is an empty slice. -/
def bytes (r : CipherRow) : Bytes := r.ciphertext.getD []

/-- The scope of the key the row is sealed under. -/
def dekScope (r : CipherRow) : KeyScope := (.project, r.org, r.project)

/-- The row whose identifier is bound into the associated data: a route move's
credential belongs to its adapter. -/
def owner (r : CipherRow) : String :=
  match r.table with
  | .adapterRouteMove => r.adapterID
  | _ => r.id

/-- A project field's associated data without the optional coordinates. -/
def fieldAAD (org project ownerTable ownerRow fieldTag : String) : ProjectFieldAAD :=
  ⟨utf8 org, utf8 project, utf8 ownerTable, utf8 ownerRow, utf8 fieldTag, [], [], []⟩

/-- The associated data a row of the project is sealed with. -/
def aad (org project : String) (r : CipherRow) : AAD :=
  match r.table with
  | .value => .value ⟨utf8 org, utf8 project, utf8 r.env, utf8 r.key, utf8 r.id, utf8 "value"⟩
  | .snapshot => .projectField { fieldAAD org project "snapshot_entries" r.id "snapshot_value" with
      environmentID := utf8 r.env, keyID := utf8 r.key, snapshotID := utf8 r.snapshot }
  | .pending => .projectField { fieldAAD org project "pending_changes" r.id "pending_value" with
      environmentID := utf8 r.env, keyID := utf8 r.key }
  | .adapter | .adapterRouteMove => .projectField (fieldAAD org project "adapters" r.owner "credential")
  | .dynamicProvider => .projectField (fieldAAD org project "dynamic_providers" r.owner "credential")
  | .sshCAKey => .projectField (fieldAAD org project "ssh_ca_keys" r.owner "private_key")
  | .transitKeyVersion => .projectField
      { fieldAAD org project "transit_key_versions" r.id "material" with
        environmentID := utf8 r.env, keyID := utf8 r.key }

end CipherRow

/-- The key tables and the ciphertext tables. -/
structure CipherStore where
  keys : KeyTables
  rows : List CipherRow
  /-- the primary keys of the tables -/
  row_pk : Table.UniqueOn (fun _ => true) (fun r : CipherRow => (r.table, r.id)) rows

/-- How a transaction on the ciphertext tables fails. -/
inductive ReencryptError where
  /-- the sealed version is not active: re-fetch a sealer and retry -/
  | conflict
  /-- a ciphertext is off the active version -/
  | straggler (row : String)
  | key (e : KeyError)
  | crypto (e : CryptoError)
  /-- an identifier of another project -/
  | rowExists
  /-- the paging loop did not end -/
  | endless
deriving DecidableEq, Repr

/-- Read a failure of a lower layer as one of this layer. -/
def liftError {ε ε' α : Type} (f : ε → ε') : Except ε α → Except ε' α
  | .ok a => .ok a
  | .error e => .error (f e)

namespace CipherStore

section

variable (s : CipherStore) (t : ProjectTable)

/-- The rows a table's list query ranges over. -/
def listed (org project : String) : List CipherRow :=
  s.rows.filter fun r => r.table = t ∧ r.org = org ∧ r.project = project ∧
    (t.skipsNull = true → r.ciphertext ≠ none)

/-- A table's list query. -/
def list (org project cursor : String) (n : ℕ) : List CipherRow :=
  Paging.page CipherRow.id (s.listed t org project) cursor n

/-- Replace the ciphertext of a row if it is still the one that was read; whether
it was, and the tables. -/
def cas (org project id : String) (new old : Bytes) : Bool × CipherStore :=
  let p : CipherRow → Bool := fun r => r.table = t ∧ r.org = org ∧ r.project = project ∧
    r.id = id ∧ r.ciphertext = some old
  (s.rows.countP p = 1,
    { s with
      rows := Table.update p (fun r => { r with ciphertext := some new }) s.rows
      row_pk := s.row_pk.update fun _ _ => ⟨rfl, rfl⟩ })

/-- Insert a row, replacing the row of the project it supersedes. -/
def put (row : CipherRow) : Except ReencryptError CipherStore :=
  let others := s.rows.filter fun r => ¬ (r.table = row.table ∧ r.id = row.id ∧
    r.org = row.org ∧ r.project = row.project)
  if h : Table.UniqueOn (fun _ => true) (fun r : CipherRow => (r.table, r.id)) (row :: others) then
    .ok { s with rows := row :: others, row_pk := h }
  else .error .rowExists

/-- Delete a row of the project. -/
def delete (org project id : String) : CipherStore :=
  { s with
    rows := s.rows.filter fun r => ¬ (r.table = t ∧ r.id = id ∧ r.org = org ∧ r.project = project)
    row_pk := s.row_pk.sublist ((List.filter_sublist.filter _).map _) }

end

end CipherStore

/-! ## The fence and the writers -/

section

variable (A : Aead) (sealer : ProjectSealer) (t : ProjectTable) (s : CipherStore)

/-- The writer fence: the project's key version is still active. -/
def fenceProjectVersion (org project : String) (version : UInt32) : Except ReencryptError Unit :=
  liftError (fun e => if e = .staleDEK then .conflict else .key e)
    (assertActiveDEKVersion s.keys (.project, org, project) version)

def fenceProject (sealer : ProjectSealer) : Except ReencryptError Unit :=
  fenceProjectVersion s sealer.orgID sealer.projectID sealer.activeVersion

/-- One write of a transaction, in the sealer's project. -/
inductive RowWrite where
  /-- store a plaintext sealed with the randomness `rnd`; the row's own
  ciphertext, organisation and project are overwritten -/
  | put (row : CipherRow) (rnd plaintext : Bytes)
  /-- store a row without a ciphertext -/
  | putNull (row : CipherRow)
  | delete (t : ProjectTable) (id : String)

def RowWrite.apply : RowWrite → Except ReencryptError CipherStore
  | put row rnd plaintext => do
    let record ← liftError .crypto
      (sealer.sealRecord A rnd (row.aad sealer.orgID sealer.projectID) plaintext)
    s.put { row with org := sealer.orgID, project := sealer.projectID, ciphertext := some record }
  | putNull row =>
    s.put { row with org := sealer.orgID, project := sealer.projectID, ciphertext := none }
  | delete t id => .ok (s.delete t sealer.orgID sealer.projectID id)

/-- A writing transaction: the fence, then the writes. -/
def writeRows (writes : List RowWrite) (s : CipherStore) : Except ReencryptError CipherStore := do
  fenceProject s sealer
  writes.foldlM (RowWrite.apply A sealer) s

/-! ## The walk -/

/-- A configured chunk size, or the default. -/
def chunkSize (configured : ℤ) : ℕ := if configured > 0 then configured.toNat else 100

/-- What a chunk publishes: the tables, the next cursor and the number of rows
moved. -/
structure ChunkState where
  store : CipherStore
  next : String
  delta : ℕ

/-- Re-seal one row unless it is empty or on the active version. -/
def walkRow (rnd : String → Bytes)
    (c : ChunkState) (row : CipherRow) : Except ReencryptError ChunkState := do
  -- the cursor moves over skipped rows too
  let c := { c with next := row.id }
  if row.bytes = [] then return c
  let version ← liftError .crypto (recordKeyVersion row.bytes)
  if version = sealer.activeVersion then return c
  let aad := row.aad sealer.orgID sealer.projectID
  let plaintext ← liftError .crypto (sealer.openRecord A aad row.bytes)
  let resealed ← liftError .crypto (sealer.sealRecord A (rnd row.id) aad plaintext)
  let (did, store) := c.store.cas t sealer.orgID sealer.projectID row.id resealed row.bytes
  return { c with store := store, delta := if did then c.delta + 1 else c.delta }

/-- One chunk of the walk over a table: the fence, then the rows of a page. The
result has the number of rows seen. -/
def walkChunk (n : ℕ) (rnd : String → Bytes) (cursor : String) (s : CipherStore) :
    Except ReencryptError (ChunkState × ℕ) := do
  fenceProject s sealer
  let rows := s.list t sealer.orgID sealer.projectID cursor n
  let c ← rows.foldlM (walkRow A sealer t rnd) ⟨s, cursor, 0⟩
  return (c, rows.length)

/-! ## The dryness gate -/

/-- The name of the row if its ciphertext is off the active version. -/
def rowStraggler (active : UInt32) (row : CipherRow) : Except ReencryptError (Option String) := do
  if row.bytes = [] then return none
  let version ← liftError .crypto (recordKeyVersion row.bytes)
  if version ≠ active then return some (t.name ++ ":" ++ row.id)
  return none

/-- Page through a table for the first ciphertext that is off the active version. -/
def projectTableStraggler (t : ProjectTable) (org project : String) (n : ℕ)
    (active : UInt32) : Except ReencryptError (Option String) :=
  (Paging.scan CipherRow.id (s.listed t org project) n (rowStraggler t active)
    (s.rows.length + 1) "").getD (.error .endless)

/-- The gate over a list of tables. -/
def tablesDry (s : CipherStore) (org project : String) (n : ℕ) (active : UInt32) :
    List ProjectTable → Except ReencryptError Unit
  | [] => .ok ()
  | t :: ts => do
    match ← projectTableStraggler s t org project n active with
    | some row => .error (.straggler row)
    | none => tablesDry s org project n active ts

/-- The end of a re-encryption: the fence, the gate over every registered table,
then the retirement. -/
def retireProject (org project : String) (n : ℕ) (active : UInt32) (s : CipherStore) :
    Except ReencryptError CipherStore := do
  fenceProjectVersion s org project active
  tablesDry s org project n active ProjectTable.all
  let keys ← liftError .key (retireRetiringTier3 (.project, org, project) s.keys)
  return { s with keys := keys }

/-! ## Runs -/

/-- A mutation of the key store that is not the retirement at the end of a
re-encryption. -/
def KeyOp.keepsRetiring : KeyOp → Bool
  | .retireRetiringTier3 _ => false
  | _ => true

/-- One transaction. -/
inductive CipherOp where
  /-- a writer, with the sealer it captured -/
  | write (sealer : ProjectSealer) (writes : List RowWrite)
  /-- a rotation of a data key, or another mutation of the key store -/
  | keys (op : KeyOp) (hop : op.keepsRetiring = true)
  /-- a chunk of a walk, with the walk's sealer and cursor -/
  | walkChunk (sealer : ProjectSealer) (t : ProjectTable) (configured : ℤ) (rnd : String → Bytes)
      (cursor : String)
  /-- the retirement at the end of a walk onto `active` -/
  | retireProject (org project : String) (configured : ℤ) (active : UInt32)

def CipherOp.apply : CipherOp → CipherStore → Except ReencryptError CipherStore
  | write sealer writes, s => writeRows A sealer writes s
  | keys op _, s => do
    let keys ← liftError .key (op.apply s.keys)
    return { s with keys := keys }
  | walkChunk sealer t configured rnd cursor, s => do
    let (c, _) ← Hikyo.walkChunk A sealer t (chunkSize configured) rnd cursor s
    return c.store
  | retireProject org project configured active, s =>
    Hikyo.retireProject org project (chunkSize configured) active s

/-- The tables after the transaction was attempted. -/
def CipherOp.step (op : CipherOp) : CipherStore :=
  commit (op.apply A) s

end

end Hikyo
