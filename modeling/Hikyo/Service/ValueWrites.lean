import Hikyo.Service.Publish

/-!
# The services that change values, drafts and environments

Staging writes drafts and nothing else: a set, a first value, an unset, and the
restore of an old revision, which stages the difference. Declaring, importing,
copying and the clone of an environment at its creation write published values
directly, and end in `republish`. The services of the catalogue are one function
here, `editCatalogue`: it may install any catalogue, drops what hangs off the keys
that go, and inserts a snapshot in every environment.

What each of them writes is stated with `Writes`. Import and copy reach no
environment that a policy covers (`writes_importValues`, `writes_copy`), a clone
reaches only the environment it creates (`writes_createEnvironment`); a declare
reaches the environments it names (`writes_declare`).
-/

namespace Hikyo

open Tx (ensure bind_ok skip)

variable {δ : Type}

/-- `keyByName`, refusing a key that is not declared. -/
def findKey (s : ProjectTables δ) (name : String) : Except ServiceError CatalogueKey :=
  match s.keyByName name with
  | some key => .ok key
  | none => .error (.notFound ("no key " ++ name ++ " is declared in this project"))

/-- `checkNotForbidden` and `validateValueWithParameters`. -/
def validateValue (s : ProjectTables δ) (env : EnvId) (key : CatalogueKey) (value : String) :
    Except ServiceError Unit :=
  match s.directory.valueRefusal env key value with
  | some detail => .error (.invalid detail)
  | none => .ok ()

/-- `writeCell`: publish a value in a cell. -/
def writeCell (W : Server δ) (s : ProjectTables δ) (env : EnvId) (key : CatalogueKey)
    (value : String) : ProjectTables δ :=
  s.putCell W.ids env key.id (W.normalize key value)

/-! ## Drafts -/

def maxPendingPerProject : ℕ := 100

/-- What a draft does to its cell. -/
inductive DraftEdit where
  | set (value : String)
  /-- `Initialize`: a first value, under the authority to declare keys -/
  | firstValue (value : String)
  | unset
deriving DecidableEq, Repr

namespace DraftEdit

/-- The operation a draft is authorized by. -/
def authority : DraftEdit → Operation
  | set _ => .valueStage
  | firstValue _ => .valueInitialize
  | unset => .valueStage

def operation : DraftEdit → PendingOperation
  | set _ => .set
  | firstValue _ => .set
  | unset => .unset

/-- What is stored for the key. -/
def stored (W : Server δ) (key : CatalogueKey) : DraftEdit → String
  | set value => W.normalize key value
  | firstValue value => W.normalize key value
  | unset => ""

end DraftEdit

section

variable (W : Server δ) (s : ProjectTables δ) (caller : Identity) (env : EnvId)

variable (source : EnvId) (req : CopyRequest) (keys : List CatalogueKey)

/-- Stage a draft under a new version, against what is published now. -/
def stageDraft (owner : PrincipalId) (env : EnvId) (key : KeyId) (operation : PendingOperation)
    (value : String) (source : PendingSource) : Except ServiceError (VersionId × ProjectTables δ) :=
  let (id, s) := s.newID W.ids "pcv"
  match s.stagePending ⟨id, key, owner, env, operation, value, s.currentRevision env,
      s.publishedEntry env key, source⟩ with
  | none => .error (.conflict "")
  | some s => .ok (id, s)

/-- `Values.Set`, `Values.Initialize` and `Values.Unset`. -/
def stage (keyName : String) (edit : DraftEdit) : Except ServiceError (ProjectTables δ) := do
  ensure (env ≠ "") (.invalid "a value addresses an environment")
  authorizeKey s caller edit.authority env (.byName keyName)
  let key ← findKey s keyName
  -- the owner's own draft of the cell does not count, it is replaced
  let others := s.pending.rows.filter fun c =>
    ¬ (c.environmentID = env ∧ c.keyID = key.id ∧ c.ownerID = caller.principal)
  ensure (others.length < maxPendingPerProject)
    (.limitExceeded "a project holds at most 100 pending changes")
  let (_, s) ← stageDraft W s caller.principal env key.id edit.operation (edit.stored W key) .values
  return s

/-- One key of a restore: the difference between the snapshot and what is
published is staged. -/
def restoreKey (owner : PrincipalId) (env : EnvId) (target : KeyId → Option String)
    (r : List VersionId × ProjectTables δ) (key : CatalogueKey) :
    Except ServiceError (List VersionId × ProjectTables δ) :=
  if target key.id = (r.2.valueEntry env key.id).map ValueEntry.value then .ok r
  else do
    let operation := if (target key.id).isSome then .set else .unset
    let (id, s) ← stageDraft W r.2 owner env key.id operation ((target key.id).getD "") .restore
    return (r.1 ++ [id], s)

/-- The keys a restore compares. -/
def restoreKeys (keyName : String) : Except ServiceError (List CatalogueKey) :=
  if keyName = "" then .ok s.keys.rows
  else (findKey s keyName).map fun key => [key]

/-- `buildImpactPreview`: the preview of what was staged closes over key groups,
under the authority to restore each member. -/
def previewRestore (ids : List VersionId) : Except ServiceError Unit := do
  let selected ← resolveVersions s caller.principal ids
  let _ ← selectVersions s caller.principal
    (fun e key => authorizeKey s caller .revisionRestore e (.byID key)) selected
  return ()

/-- **Restore**: stage what leads back to a snapshot, given by its payload
`target`. -/
def restore (W : Server δ) (s : ProjectTables δ) (caller : Identity) (env : EnvId)
    (keyName : String) (target : KeyId → Option String) : Except ServiceError (ProjectTables δ) := do
  ensure (env ≠ "") (.invalid "a restore addresses an environment")
  authorizeTenant s caller .revisionRestore env
    (if keyName = "" then none else some (.byName keyName))
  let keys ← restoreKeys s keyName
  let (ids, s) ← keys.foldlM (restoreKey W caller.principal env target) ([], s)
  if ids = [] then .ok s
  else do
    previewRestore s caller ids
    return s

/-! ## Declare and import -/

/-- One destination of a declare. -/
def declareInto (keyName value : String) (s : ProjectTables δ)
    (env : EnvId) : Except ServiceError (ProjectTables δ) := do
  authorizeKey s caller .valueSet env (.byName keyName)
  let key ← findKey s keyName
  validateValue s env key value
  republish W (writeCell W s env key value) caller env .declare

/-- **Declare** one value into several environments. -/
def declare (envs : List EnvId)
    (keyName value : String) : Except ServiceError (ProjectTables δ) := do
  ensure (envs ≠ []) (.invalid "a value addresses an environment")
  ensure ("" ∉ envs) (.invalid "a value addresses an environment")
  ensureDistinct envs fun dup => "environment " ++ dup ++ " is named more than once"
  envs.foldlM (declareInto W caller keyName value) s

structure ImportEntry where
  key : String
  value : String
deriving DecidableEq, Repr

def maxValueBytes : ℕ := 65536

/-- The entries of an import, one by one. -/
def checkEntries : List ImportEntry → Except ServiceError Unit
  | [] => .ok ()
  | e :: entries => do
    ensure (e.key ≠ "") (.invalid "an import entry names a key")
    ensure (e.value.utf8ByteSize ≤ maxValueBytes) (.invalid
      ("value for " ++ e.key ++ " exceeds the 65536-byte validation budget"))
    checkEntries entries

/-- The checks of an import before its transaction. -/
def checkImport (entries : List ImportEntry) (overwrite : List String) :
    Except ServiceError Unit := do
  ensure (entries ≠ []) (.invalid "an import carries at least one value")
  ensure (env ≠ "") (.invalid "values import is per environment")
  checkEntries entries
  ensureDistinct (entries.map ImportEntry.key) fun dup => "key " ++ dup ++ " is named more than once"
  ensureDistinct overwrite fun dup => "--overwrite names key " ++ dup ++ " more than once"
  match overwrite.find? fun name => name ∉ entries.map ImportEntry.key with
  | some name =>
    .error (.invalid ("--overwrite names key " ++ name ++ ", which this import does not carry"))
  | none => .ok ()

/-- An import declares nothing: every key exists. -/
def checkDeclared (names : List String) : Except ServiceError Unit :=
  let undeclared := names.filter fun name => (s.keyByName name).isNone
  ensure (undeclared = []) (.invalid (toString undeclared.length ++
    " key(s) are not declared in this project: " ++
    ", ".intercalate (Table.orderBy id undeclared) ++ " — apply the definitions bundle first"))

/-- One entry of an import. A key that was set when the import began is skipped
unless it may be overwritten. -/
def importEntry (before : ProjectTables δ) (overwrite : List String)
    (r : List CatalogueKey × ProjectTables δ) (e : ImportEntry) :
    Except ServiceError (List CatalogueKey × ProjectTables δ) := do
  let key ← findKey before e.key
  if (before.valueEntry env key.id).isSome ∧ e.key ∉ overwrite then .ok r
  else do
    validateValue r.2 env key e.value
    return (r.1 ++ [key], writeCell W r.2 env key e.value)

/-- A protected environment takes the ceremony of its publish. -/
def importCeremony (imported : List CatalogueKey) : Except ServiceError Unit :=
  if s.isProtected env then
    requireCeremony s caller ⟨.publish, env, sortedUnique (imported.map CatalogueKey.id)⟩
  else .ok ()

/-- **Import** into one environment. -/
def importValues (entries : List ImportEntry) (overwrite : List String) :
    Except ServiceError (ProjectTables δ) := do
  checkImport env entries overwrite
  authorize s caller .valueImport env
  checkDeclared s (entries.map ImportEntry.key)
  let (imported, s') ← entries.foldlM (importEntry W env s overwrite) ([], s)
  if imported = [] then .ok s'
  else do
    importCeremony s' caller env imported
    republish W s' caller env .imported

/-! ## Copying -/

structure CopyRequest where
  sourceEnvironmentID : EnvId
  keyNames : List String
  destinationEnvironmentIDs : List EnvId
  confirmProtected : Bool
deriving DecidableEq, Repr

/-- What is being duplicated, by classification. -/
structure MaterialSet where
  config : List (CatalogueKey × String)
  secret : List (CatalogueKey × String)
deriving DecidableEq, Repr

/-- The keys of one classification. -/
def ofClass (c : Classification) : List CatalogueKey :=
  keys.filter fun k => k.classification = c

/-- The destination operations of the classifications a copy carries. -/
def destinationLegs : List Operation :=
  (if ofClass keys .config = [] then [] else [.valueCopyDestinationConfig]) ++
    if ofClass keys .secret = [] then [] else [.valueCopyDestination]

def authorizeLegs (s : ProjectTables δ) (caller : Identity) (env : EnvId) :
    List Operation → Except ServiceError Unit
  | [] => .ok ()
  | op :: ops => do
    authorize s caller op env
    authorizeLegs s caller env ops

/-- A protected destination takes the confirmation of a machine, the ceremony of a
human. -/
def confirmDestination (confirmProtected : Bool) (env : EnvId) : Except ServiceError Unit :=
  if s.isProtected env = false then .ok ()
  else if skipsCeremony caller then ensure (confirmProtected = true) (.protectedDestination env)
  else requireCeremony s caller ⟨.publish, env, sortedUnique (keys.map CatalogueKey.id)⟩

/-- A destination of a copy: the legs it needs, no policy that covers it, and its
protection. -/
def authorizeDestination (confirmProtected : Bool) (env : EnvId) : Except ServiceError Unit :=
  match destinationLegs keys with
  | [] => .ok ()
  | op :: ops => do
    authorize s caller op env
    ensure (s.coveringPolicy env = none) .approvalRequired
    authorizeLegs s caller env ops
    confirmDestination s caller keys confirmProtected env

def authorizeDestinations (s : ProjectTables δ) (caller : Identity) (keys : List CatalogueKey)
    (confirmProtected : Bool) : List EnvId → Except ServiceError Unit
  | [] => .ok ()
  | env :: envs => do
    authorizeDestination s caller keys confirmProtected env
    authorizeDestinations s caller keys confirmProtected envs

/-- Whether a value uses the syntax of parameters. -/
def usesTemplate (value : String) : Bool := ['$', '\x7b'] <:+: value.toList

/-- `copySourceTemplateKey`: the first config key whose value is a template. -/
def copySourceTemplateKey (s : ProjectTables δ) (source : EnvId) :
    List CatalogueKey → Except ServiceError (Option CatalogueKey)
  | [] => .ok none
  | key :: keys =>
    match s.valueEntry source key.id with
    | none => .error .hidden
    | some e => if usesTemplate e.value then .ok (some key) else copySourceTemplateKey s source keys

/-- A template only goes where parameters are declared. -/
def checkParameterized (s : ProjectTables δ) (caller : Identity) (key : CatalogueKey) :
    List EnvId → Except ServiceError Unit
  | [] => .ok ()
  | env :: envs => do
    authorize s caller .valueCopyDestinationConfig env
    ensure (s.directory.parameterized env = true) (.invalid ("key " ++ key.name ++
      " uses template syntax; declare destination environment parameters before copying"))
    checkParameterized s caller key envs

def checkTemplates (destinations : List EnvId) : Except ServiceError Unit :=
  if s.directory.parameterized source = false then .ok ()
  else do
    match ← copySourceTemplateKey s source (ofClass keys .config) with
    | none => .ok ()
    | some key => checkParameterized s caller key destinations

/-- The stored values of the keys, none of them absent. -/
def loadCells (s : ProjectTables δ) (env : EnvId) :
    List CatalogueKey → Except ServiceError (List (CatalogueKey × String))
  | [] => .ok []
  | key :: keys =>
    match s.valueEntry env key.id with
    | none => .error (.notFound ("key " ++ key.name ++ " is absent in the source environment"))
    | some e => do
      let cells ← loadCells s env keys
      return (key, e.value) :: cells

/-- `openCopySourcePlan`: load what is copied, with the source's gate and ceremony
for what is secret. -/
def openCopySourcePlan : Except ServiceError MaterialSet := do
  let config ← loadCells s source (ofClass keys .config)
  if ofClass keys .secret = [] then .ok ⟨config, []⟩
  else do
    authorize s caller .valueCopySource source
    let secret ← loadCells s source (ofClass keys .secret)
    requireCeremony s caller
      ⟨.copy, source, sortedUnique ((ofClass keys .secret).map CatalogueKey.id)⟩
    return ⟨config, secret⟩

/-- One piece of material into its destination. -/
def writeMaterial (s : ProjectTables δ) (m : CatalogueKey × String) :
    Except ServiceError (ProjectTables δ) := do
  validateValue s env m.1 m.2
  return writeCell W s env m.1 m.2

/-- One leg of a destination, authorized only if it carries something. -/
def applyLeg (op : Operation) (env : EnvId) (s : ProjectTables δ)
    (material : List (CatalogueKey × String)) : Except ServiceError (ProjectTables δ) :=
  if material = [] then .ok s
  else do
    authorize s caller op env
    material.foldlM (writeMaterial W env) s

def applyMaterial (material : MaterialSet) (s : ProjectTables δ)
    (env : EnvId) : Except ServiceError (ProjectTables δ) := do
  let s ← applyLeg W caller .valueCopyDestinationConfig env s material.config
  applyLeg W caller .valueCopyDestination env s material.secret

/-- One destination of a copy. -/
def copyInto (material : MaterialSet) (trigger : Trigger)
    (s : ProjectTables δ) (env : EnvId) : Except ServiceError (ProjectTables δ) := do
  let s ← applyMaterial W caller material s env
  republish W s caller env trigger

/-- The checks of a copy before its transaction. -/
def checkCopy : Except ServiceError Unit := do
  ensure (req.sourceEnvironmentID ≠ "") (.invalid "copy names a source environment")
  ensure (req.keyNames ≠ []) (.invalid "copy names at least one key")
  ensure (req.destinationEnvironmentIDs ≠ [])
    (.invalid "copy names at least one destination environment")
  ensure (req.sourceEnvironmentID ∉ req.destinationEnvironmentIDs)
    (.invalid "an environment cannot be its own copy destination")
  ensureDistinct req.keyNames fun dup => "key " ++ dup ++ " is named more than once"
  ensureDistinct req.destinationEnvironmentIDs fun dup =>
    "destination environment " ++ dup ++ " is named more than once"

/-- A copy of one key to one destination, or a bulk apply. -/
def CopyRequest.trigger : Trigger :=
  if 1 < req.keyNames.length ∨ 1 < req.destinationEnvironmentIDs.length then .bulkApply else .copy

/-- **Copy and bulk apply.** -/
def copy : Except ServiceError (ProjectTables δ) := do
  checkCopy req
  authorize s caller .valueList req.sourceEnvironmentID
  let keys ← req.keyNames.mapM (findKey s)
  authorizeDestinations s caller keys req.confirmProtected req.destinationEnvironmentIDs
  checkTemplates s caller req.sourceEnvironmentID keys req.destinationEnvironmentIDs
  let material ← openCopySourcePlan s caller req.sourceEnvironmentID keys
  req.destinationEnvironmentIDs.foldlM (copyInto W caller material req.trigger) s

/-! ## Environments -/

def maxEnvironmentsPerProject : ℕ := 50

/-- The material of one classification that is stored in an environment. -/
def storedMaterial (c : Classification) : List (CatalogueKey × String) :=
  (Table.orderBy CatalogueKey.name (ofClass s.keys.rows c)).filterMap fun key =>
    (s.valueEntry env key.id).map fun e => (key, e.value)

/-- The secrets a clone may take: all that are stored, or none without the gate of
the source. -/
def clonedSecrets : List (CatalogueKey × String) :=
  match authorize s caller .valueCopySource source with
  | .ok _ => storedMaterial s source .secret
  | .error _ => []

/-- `cloneInto`: fill a new environment. A required secret that would be absent in
it stops the creation. -/
def cloneInto (source env : EnvId) : Except ServiceError (ProjectTables δ) := do
  authorize s caller .valueList source
  ensure (s.directory.parameterized source = false) (.invalid
    "cannot clone a parameterized environment; create the destination, declare its parameters and copy explicitly")
  let secret := clonedSecrets s caller source
  let stranded := (ofClass s.keys.rows .secret).filter fun key =>
    key ∉ secret.map Prod.fst ∧ s.directory.requiredIn key env = true
  ensure (stranded = []) (.invalid ("cloning " ++ source ++
    " would leave required secret(s) absent in the new environment: " ++
    ", ".intercalate (Table.orderBy id (stranded.map CatalogueKey.name))))
  requireCeremony s caller
    ⟨.copy, source, sortedUnique (secret.map fun m => m.1.id)⟩
  applyMaterial W caller ⟨storedMaterial s source .config, secret⟩ s env

/-- The values a new environment is born with. -/
def fillEnvironment (source env : EnvId) : Except ServiceError (ProjectTables δ) :=
  if source = "" then .ok s else cloneInto W s caller source env

/-- **Create an environment**, empty or as a clone of `source`. -/
def createEnvironment : Except ServiceError (ProjectTables δ) := do
  authorize s caller .envCreate ""
  ensure (s.environments.rows.length < maxEnvironmentsPerProject)
    (.limitExceeded "a project holds at most 50 environments")
  let (id, s) := s.newID W.ids "env"
  match s.environments.insert ⟨id, false, 0⟩ with
  | none => .error (.conflict "")
  | some environments => do
    let s := { s with environments := environments, schemaRevision := s.schemaRevision + 1 }
    let s ← fillEnvironment W s caller source id
    republish W s caller id .environmentCreate

/-- **Delete an environment** with its values, drafts, requests and votes. -/
def deleteEnvironment : Except ServiceError (ProjectTables δ) := do
  authorize s caller .envDelete env
  return { s with
    environments := s.environments.delete fun e => e.id = env
    values := s.values.delete fun e => e.environmentID = env
    pending := s.pending.delete fun c => c.environmentID = env
    requests := s.requests.delete fun r => r.environmentID = env
    votes := s.votes.delete fun v => v.environmentID = env
    schemaRevision := s.schemaRevision + 1 }

/-- Move the protection of an environment. -/
def setProtected (isProtected : Bool) : ProjectTables δ :=
  { s with
    environments := s.environments.update (fun e => e.id = env)
      (fun e => { e with isProtected := isProtected }) fun _ => rfl }

/-! ## The catalogue -/

/-- The tables under another catalogue: the drafts and values of the keys that go
are dropped. -/
def withCatalogue (keys : Table.Keyed CatalogueKey.id) : ProjectTables δ :=
  { s with
    keys := keys
    schemaRevision := s.schemaRevision + 1
    values := s.values.delete fun e => e.keyID ∉ keys.rows.map CatalogueKey.id
    pending := s.pending.delete fun c => c.keyID ∉ keys.rows.map CatalogueKey.id }

/-- **A change of the catalogue**, with a snapshot of every environment under the
new revision. -/
def editCatalogue (keys : Table.Keyed CatalogueKey.id) : Except ServiceError (ProjectTables δ) :=
  (s.environments.rows.map Environment.id).foldlM (fun s env => republish W s caller env .schema)
    (withCatalogue s keys)

end

/-! ## What is written -/

section Written

variable {W : Server δ} {s s' : ProjectTables δ} {caller : Identity} {env : EnvId}
  {E : EnvId → Prop}

variable {key : CatalogueKey}

theorem mem_keys_of_findKey {name : String} (h : findKey s name = .ok key) : key ∈ s.keys.rows := by
  unfold findKey at h
  split at h
  next key' hkey => exact Except.ok.inj h ▸ List.mem_of_find?_eq_some hkey
  next => cases h

/-! ### Drafts -/

variable {owner : PrincipalId} {value : String}

theorem writes_stageDraft {key : KeyId} {operation : PendingOperation} {source : PendingSource}
    {r : VersionId × ProjectTables δ}
    (hkey : (s.keyByID key).isSome)
    (h : stageDraft W s owner env key operation value source = .ok r) : Writes W.ids E s r.2 := by
  unfold stageDraft at h
  dsimp only at h
  split at h
  next => cases h
  next s₁ hstage =>
    cases h
    exact Writes.stagePending rfl hkey hstage

variable {keyName : String}

theorem writes_stage {edit : DraftEdit}
    (h : stage W s caller env keyName edit = .ok s') : Writes W.ids (fun _ => False) s s' := by
  replace h := skip (skip h)
  obtain ⟨key, hkey, h⟩ := bind_ok h
  replace h := skip h
  obtain ⟨r, hstage, h⟩ := bind_ok h
  have hdeclared : (s.keyByID key.id).isSome :=
    ProjectTables.isSome_keyByID.mpr ⟨key, mem_keys_of_findKey hkey, rfl⟩
  exact Except.ok.inj h ▸ writes_stageDraft hdeclared hstage

variable {target : KeyId → Option String}

theorem writes_restoreKey
    {r r' : List VersionId × ProjectTables δ} (hkey : (r.2.keyByID key.id).isSome)
    (h : restoreKey W owner env target r key = .ok r') : Writes W.ids E r.2 r'.2 := by
  unfold restoreKey at h
  split at h
  case isTrue => exact Except.ok.inj h ▸ Writes.refl _
  case isFalse =>
    obtain ⟨d, hstage, h⟩ := bind_ok h
    exact Except.ok.inj h ▸ writes_stageDraft hkey hstage

theorem mem_keys_of_restoreKeys {keys : List CatalogueKey}
    (h : restoreKeys s keyName = .ok keys) : ∀ key ∈ keys, key ∈ s.keys.rows := by
  unfold restoreKeys at h
  split at h
  case isTrue => exact Except.ok.inj h ▸ fun _ hkey => hkey
  case isFalse =>
    cases hfind : findKey s keyName with
    | error e => rw [hfind] at h; cases h
    | ok key =>
      rw [hfind] at h
      cases h
      exact fun _ hkey => List.mem_singleton.mp hkey ▸ mem_keys_of_findKey hfind

theorem writes_restore
    (h : restore W s caller env keyName target = .ok s') : Writes W.ids (fun _ => False) s s' := by
  replace h := skip (skip h)
  obtain ⟨keys, hkeys, h⟩ := bind_ok h
  obtain ⟨r, hfold, h⟩ := bind_ok h
  have hr : Writes W.ids (fun _ => False) s r.2 := by
    refine Tx.foldlM_invariant (fun r : List VersionId × ProjectTables δ =>
      Writes W.ids (fun _ => False) s r.2) keys (fun b key hkey b' hb hstep => ?_)
      (Writes.refl s) hfold
    have hdeclared : (b.2.keyByID key.id).isSome := by
      rw [hb.keyByID]
      exact ProjectTables.isSome_keyByID.mpr ⟨key, mem_keys_of_restoreKeys hkeys key hkey, rfl⟩
    exact hb.trans (writes_restoreKey hdeclared hstep)
  dsimp only at h
  split at h
  case isTrue => exact Except.ok.inj h ▸ hr
  case isFalse =>
    replace h := skip h
    exact Except.ok.inj h ▸ hr

/-! ### Declare and import -/

theorem writes_declareInto
    (h : declareInto W caller keyName value s env = .ok s') : Writes W.ids (· = env) s s' := by
  replace h := skip h
  obtain ⟨key, -, h⟩ := bind_ok h
  replace h := skip h
  exact (Writes.putCell s env key.id _).trans ((writes_republish h).mono fun _ he => he.elim)

/-- A declare reaches the environments it names. -/
theorem writes_declare {envs : List EnvId}
    (h : declare W s caller envs keyName value = .ok s') : Writes W.ids (· ∈ envs) s s' := by
  replace h := skip (skip (skip h))
  exact Writes.of_foldlM
    (fun _ _ henv _ hs => (writes_declareInto hs).mono fun _ he => he ▸ henv) h

/-- What an import has written so far; nothing, if it has imported nothing. -/
def ImportedFrom (W : Server δ) (env : EnvId) (s : ProjectTables δ)
    (r : List CatalogueKey × ProjectTables δ) : Prop :=
  (r.1 = [] → r.2 = s) ∧ Writes W.ids (· = env) s r.2

variable {overwrite : List String}

theorem ImportedFrom.importEntry {before : ProjectTables δ}
    {r r' : List CatalogueKey × ProjectTables δ} {e : ImportEntry} (hr : ImportedFrom W env s r)
    (h : importEntry W env before overwrite r e = .ok r') : ImportedFrom W env s r' := by
  obtain ⟨key, -, h⟩ := bind_ok h
  split at h
  case isTrue => exact Except.ok.inj h ▸ hr
  case isFalse =>
    replace h := skip h
    cases h
    exact ⟨fun hnil => absurd hnil (by simp), hr.2.trans (Writes.putCell _ env key.id _)⟩

/-- An import writes nothing where a policy covers the environment. -/
theorem writes_importValues {entries : List ImportEntry}
    (h : importValues W s caller env entries overwrite = .ok s') :
    Writes W.ids (fun e => s.coveringPolicy e = none) s s' := by
  replace h := skip (skip (skip h))
  obtain ⟨⟨imported, s₁⟩, hfold, h⟩ := bind_ok h
  have himported : ImportedFrom W env s (imported, s₁) :=
    Tx.foldlM_invariant (ImportedFrom W env s) entries
      (fun _ _ _ _ hb hstep => hb.importEntry hstep) ⟨fun _ => rfl, Writes.refl s⟩ hfold
  dsimp only at h
  split at h
  case isTrue hnil =>
    obtain rfl := Except.ok.inj h
    obtain rfl : s₁ = s := himported.1 hnil
    exact Writes.refl s₁
  case isFalse =>
    have hrepublish := skip h
    have huncovered : s.coveringPolicy env = none := by
      rw [← ProjectTables.coveringPolicy_congr himported.2.policies]
      exact uncovered_of_republish rfl hrepublish
    exact (himported.2.mono fun _ he => he ▸ huncovered).trans
      ((writes_republish hrepublish).mono fun _ he => he.elim)

/-! ### Copies -/

theorem writes_writeMaterial {m : CatalogueKey × String} (h : writeMaterial W env s m = .ok s') :
    Writes W.ids (· = env) s s' := by
  replace h := skip h
  exact Except.ok.inj h ▸ Writes.putCell s env m.1.id _

theorem writes_applyLeg {op : Operation} {material : List (CatalogueKey × String)}
    (h : applyLeg W caller op env s material = .ok s') : Writes W.ids (· = env) s s' := by
  unfold applyLeg at h
  split at h
  case isTrue => exact Except.ok.inj h ▸ Writes.refl s
  case isFalse =>
    replace h := skip h
    exact Writes.of_foldlM (fun _ _ _ _ => writes_writeMaterial) h

variable {material : MaterialSet}

theorem writes_applyMaterial
    (h : applyMaterial W caller material s env = .ok s') : Writes W.ids (· = env) s s' := by
  obtain ⟨s₁, hconfig, h⟩ := bind_ok h
  exact (writes_applyLeg hconfig).trans (writes_applyLeg h)

/-- A copy writes nothing where a policy covers the destination. -/
theorem writes_copyInto {trigger : Trigger} (hgated : approvalGatedTrigger trigger = true)
    (h : copyInto W caller material trigger s env = .ok s') :
    Writes W.ids (fun e => s.coveringPolicy e = none) s s' := by
  obtain ⟨s₁, hmaterial, h⟩ := bind_ok h
  have hwrites := writes_applyMaterial hmaterial
  have huncovered : s.coveringPolicy env = none := by
    rw [← ProjectTables.coveringPolicy_congr hwrites.policies]
    exact uncovered_of_republish hgated h
  exact (hwrites.mono fun _ he => he ▸ huncovered).trans
    ((writes_republish h).mono fun _ he => he.elim)

theorem CopyRequest.gated_trigger (req : CopyRequest) : approvalGatedTrigger req.trigger = true := by
  unfold CopyRequest.trigger
  split <;> rfl

theorem writes_copy {req : CopyRequest} (h : copy W s caller req = .ok s') :
    Writes W.ids (fun e => s.coveringPolicy e = none) s s' := by
  replace h := skip (skip h)
  obtain ⟨keys, -, h⟩ := bind_ok h
  replace h := skip (skip h)
  obtain ⟨material, -, h⟩ := bind_ok h
  refine Tx.foldlM_invariant (Writes W.ids (fun e => s.coveringPolicy e = none) s) _
    (fun b env _ b' hb hstep => hb.trans ?_) (Writes.refl s) h
  refine (writes_copyInto req.gated_trigger hstep).mono fun e he => ?_
  rwa [ProjectTables.coveringPolicy_congr hb.policies] at he

/-! ### Environments and the catalogue -/

variable {source : EnvId}

theorem writes_cloneInto (h : cloneInto W s caller source env = .ok s') :
    Writes W.ids (· = env) s s' := by
  replace h := skip (skip (skip (skip h)))
  exact writes_applyMaterial h

/-- **A new environment is the only one its creation writes to.** -/
theorem writes_createEnvironment (h : createEnvironment W s caller source = .ok s') :
    Writes W.ids (fun env => s.environment env = none) s s' := by
  replace h := skip (skip h)
  dsimp only at h
  split at h
  next => cases h
  next environments hinsert =>
    obtain ⟨-, hfresh⟩ := Table.Keyed.insert_eq_some hinsert
    have hnew : s.environment (s.newID W.ids "env").1 = none :=
      List.find?_eq_none.mpr fun e he => by simpa using hfresh e he
    obtain ⟨s₁, hclone, h⟩ := bind_ok h
    have hinserted : Writes W.ids (· = (s.newID W.ids "env").1) s
        { (s.newID W.ids "env").2 with
          environments := environments, schemaRevision := s.schemaRevision + 1 } :=
      ⟨rfl, rfl, rfl, rfl, rfl, Nat.le_succ _, fun _ hc => .inl hc, fun _ he => .inl he⟩
    have hcloned : Writes W.ids (· = (s.newID W.ids "env").1) s s₁ := by
      unfold fillEnvironment at hclone
      split at hclone
      · exact Except.ok.inj hclone ▸ hinserted
      · exact hinserted.trans (writes_cloneInto hclone)
    exact (hcloned.trans ((writes_republish h).mono fun _ he => he.elim)).mono
      fun _ he => he ▸ hnew

theorem writes_editCatalogue {keys : Table.Keyed CatalogueKey.id}
    (h : editCatalogue W s caller keys = .ok s') :
    Writes W.ids (fun _ => False) (withCatalogue s keys) s' :=
  Writes.of_foldlM (fun _ _ _ _ => writes_republish) h

end Written

end Hikyo
