import Hikyo.Rollout.Deployment

/-!
# Plans

A rollout is prepared before it is authorized. `prepare` reads the Deployment and
the executor's four Secrets and computes, without writing anything, what the
decision would change: the configuration data before and after, and the delta of
the Deployment. The digest of all that, with the versions of the resources it was
computed from, is what the administrator authorizes.

A plan comes back to the executor through a Secret, so it is not taken at its
word: `validPlan` checks that it has the form that `prepare` gives to a plan.

What the network library decides about addresses, and how large a record gets
when it is serialized, are parameters of the development (`Platform`).
-/

namespace Hikyo.Rollout

open Tx (ensure)

/-! ## Variables -/

def admissionBudget : String := "HIKYO_ADMISSION_BUDGET_MIB"
def postgresPoolMax : String := "HIKYO_PG_POOL_MAX"
def listenVariable : String := "HIKYO_LISTEN"
def operationalListen : String := "HIKYO_OPERATIONAL_LISTEN"
def haVariable : String := "HIKYO_HA"
def nodeIDVariable : String := "HIKYO_NODE_ID"
def backupDirectory : String := "HIKYO_BACKUP_DIR"
def adapterPolicyFile : String := "HIKYO_ADAPTER_EGRESS_POLICY_FILE"
def dynamicPolicyFile : String := "HIKYO_DYNAMIC_EGRESS_POLICY_FILE"
def oidcPolicyFile : String := "HIKYO_OIDC_EGRESS_POLICY_FILE"
def tlsCertificateFile : String := "HIKYO_TLS_CERT_FILE"
def tlsKeyFile : String := "HIKYO_TLS_KEY_FILE"

/-- A variable whose value is the alias of an installed source. -/
def sourceVariable (v : String) : Bool :=
  v ∈ [backupDirectory, adapterPolicyFile, dynamicPolicyFile, oidcPolicyFile,
    tlsCertificateFile, tlsKeyFile]

/-- The closed vocabulary. -/
def allowed (v : String) : Bool :=
  v ∈ [admissionBudget, postgresPoolMax, listenVariable, operationalListen, haVariable,
    nodeIDVariable] || sourceVariable v

/-- The flag that says the same as a variable, or none. -/
def variableFlag (v : String) : Option String :=
  if v = listenVariable then some "--listen"
  else if v = operationalListen then some "--operational-listen"
  else if v = tlsCertificateFile then some "--tls-cert-file"
  else if v = tlsKeyFile then some "--tls-key-file"
  else none

/-- The port that a listener variable moves. -/
def listenerPort (v : String) : Option String :=
  if v = listenVariable then some "http"
  else if v = operationalListen then some "ops"
  else none

structure Change where
  var : String
  value : String
deriving DecidableEq, Countable

/-! ## Decisions and targets -/

structure Intent where
  jobID : String
  ownerInstanceID : String
  incarnation : String
  snapshotID : String
  revision : ℤ
  catalogueVersion : ℤ
  expectedGeneration : ℤ
  generation : ℤ
deriving DecidableEq, Countable

structure SecretSource where
  name : String
  key : String
deriving DecidableEq, Countable

structure UpgradeCustodySource where
  bundleDirectory : String
  stateDirectory : String
  evidenceDirectory : String
  ciphertextPath : String
  operatorPublicKeyFile : String
  targetManifestSHA256 : String
  legacyWritersStopped : Bool
deriving DecidableEq, Countable

/-- **The installation's custody**: what the executor may touch, and with what. -/
structure Target where
  namespaceName : String
  deployment : String
  deploymentUID : String
  container : String
  configSecret : String
  rollbackSecret : String
  requestSecret : String
  receiptSecret : String
  sources : Finmap fun _ : String => Data
  databaseSources : Finmap fun _ : String => SecretSource
  rootSources : Finmap fun _ : String => SecretSource
  upgradeSources : Finmap fun _ : String => UpgradeCustodySource
  initialUpgradeSource : String
  stableNodeID : String
  topologyNodeIDs : List String
deriving DecidableEq, Countable

structure SourceProof where
  «alias» : String
  sourceDigest : String
  proofDigest : String
  rootEpoch : ℤ
deriving DecidableEq, Countable

structure BootstrapChanges where
  database : Option SourceProof
  root : Option SourceProof
  upgrade : Option SourceProof
deriving DecidableEq, Countable

structure SingletonTopology where
  ha : Bool
  nodeID : String
deriving DecidableEq, Countable

structure SingletonTopologyChange where
  before : SingletonTopology
  after : SingletonTopology
deriving DecidableEq, Countable

/-! ## Plans and records -/

structure ResourceVersion where
  uid : String
  version : ℕ
deriving DecidableEq, Countable

structure ResourceVersions where
  deployment : ResourceVersion
  config : ResourceVersion
  rollback : ResourceVersion
  request : ResourceVersion
  receipt : ResourceVersion
deriving DecidableEq, Countable

structure PlanData where
  topology : Option SingletonTopologyChange
  intent : Intent
  targetDigest : String
  resources : ResourceVersions
  changes : List Change
  configBefore : Data
  configAfter : Data
  configBeforeStamp : Option String
  delta : DeploymentDelta
  beforeMetadataDigest : String
  beforeSpecDigest : String
  afterSpecDigest : String
  replicas : ℤ
  bootstrap : Option BootstrapChanges
deriving DecidableEq, Countable

/-- **A plan with its digest**, in memory or in the request Secret. -/
structure Record where
  digest : String
  plan : PlanData
deriving DecidableEq, Countable

structure RollbackRecord where
  digest : String
  intent : Intent
  config : Data
  delta : DeploymentDelta
deriving DecidableEq, Countable

inductive Phase where
  | prepared
  | configWritten
  | rolloutRequested
  | rolloutReady
  | applied
  | restoring
  | restored
deriving DecidableEq, Repr, Countable

structure Receipt where
  intent : Intent
  planDigest : String
  deploymentUID : String
  phase : Phase
  resources : ResourceVersions
  applicationAcknowledged : Bool
deriving DecidableEq, Countable

structure ApplicationAcknowledgement where
  intent : Intent
  planDigest : String
  deploymentUID : String
  readyReplicas : ℤ
deriving DecidableEq, Countable

/-! ## The cluster -/

/-- One entry of a Secret that holds a serialized value. -/
inductive Slot (α : Type) where
  | absent
  /-- bytes that do not decode to an `α` -/
  | garbled
  | stored (a : α)
deriving DecidableEq

def Slot.decode {α : Type} : Slot α → Option α
  | .stored a => some a
  | _ => none

/-- A Secret of the API server, with its contents. -/
structure Secret (α : Type) where
  uid : String
  version : ℕ
  immutable : Bool
  content : α
deriving DecidableEq

structure ConfigContent where
  annotations : Data
  data : Data
deriving DecidableEq

/-- **What the executor finds in the cluster.** The Secrets are precreated. -/
structure Cluster where
  deployment : Option Deployment
  config : Secret ConfigContent
  rollback : Secret (Slot RollbackRecord)
  request : Secret (Slot Record)
  receipt : Secret (Slot Receipt)
deriving DecidableEq

structure Secrets where
  config : Secret ConfigContent
  rollback : Secret (Slot RollbackRecord)
  request : Secret (Slot Record)
  receipt : Secret (Slot Receipt)
deriving DecidableEq

def Secret.resourceVersion {α : Type} (s : Secret α) : ResourceVersion := ⟨s.uid, s.version⟩

def Deployment.resourceVersion (d : Deployment) : ResourceVersion := ⟨d.uid, d.version⟩

def resources (d : Deployment) (s : Secrets) : ResourceVersions where
  deployment := d.resourceVersion
  config := s.config.resourceVersion
  rollback := s.rollback.resourceVersion
  request := s.request.resourceVersion
  receipt := s.receipt.resourceVersion

/-! ## What is given -/

/-- **The parameters**: digests, the network library's reading of addresses, and
whether a serialized record stays within `maxRecordBytes`. -/
structure Platform extends Digests where
  splitHostPort : String → Option (String × String)
  validAddr : String → Bool
  recordFits : Record → Bool

section Checks

def safeName (s : String) : Bool :=
  s ≠ "" && s.utf8ByteSize ≤ 128 &&
    s.toList.all fun c => c.isAlphanum || c = '-' || c = '_' || c = '.'

def validIntent (i : Intent) : Bool :=
  safeName i.jobID && safeName i.ownerInstanceID && safeName i.incarnation &&
    safeName i.snapshotID && i.revision > 0 && i.catalogueVersion > 0 &&
    i.expectedGeneration > 0 && i.generation > i.expectedGeneration &&
    i.generation - i.expectedGeneration = 1

/-- `strings.ContainsAny(s, "\x00\r\n")`. -/
def containsControl (s : String) : Bool :=
  s.toList.any fun c => c = '\x00' || c = '\r' || c = '\n'

/-- A decimal number below `2 ^ bits`. -/
def parseUint (bits : ℕ) (s : String) : Option ℕ :=
  let n := s.toList.foldl (fun n c => 10 * n + (c.toNat - '0'.toNat)) 0
  if s ≠ "" && s.toList.all Char.isDigit && n < 2 ^ bits then some n else none

end Checks

variable (P : Platform) (t : Target)

section

variable (spec : DeploymentSpec) (c : Container) (p : PlanData) (proof : SourceProof)

/-- What a change sets its variable to. -/
def resolve (change : Change) (replicas : ℤ) : Except RolloutError String := do
  ensure (allowed change.var ∧ change.value.utf8ByteSize ≤ 4096 ∧
    containsControl change.value = false) .invalid
  if sourceVariable change.var then
    match (t.sources.lookup change.var).bind fun aliases => aliases.lookup change.value with
    | none => throw .invalid
    | some path => pure path
  else if change.var = admissionBudget ∨ change.var = postgresPoolMax then
    match parseUint 31 change.value with
    | none => throw .invalid
    | some n =>
      ensure (n ≠ 0 ∧ ¬ (change.var = admissionBudget ∧ n ≤ 16)) .invalid
      pure change.value
  else if change.var = listenVariable ∨ change.var = operationalListen then
    match P.splitHostPort change.value with
    | none => throw .invalid
    | some (host, port) =>
      ensure (P.validAddr host) .invalid
      match parseUint 16 port with
      | none => throw .invalid
      | some n =>
        ensure (n ≠ 0) .invalid
        pure change.value
  else if change.var = haVariable then
    ensure (change.value = "true" ∨ change.value = "false") .invalid
    ensure (¬ (change.value = "false" ∧ replicas > 1)) .unsupported
    pure change.value
  else if change.var = nodeIDVariable then throw .unsupported
  else pure change.value

/-- The number of the port in a listener's address. -/
def portNumber (value : String) : ℤ :=
  (((P.splitHostPort value).bind fun hp => parseUint 16 hp.2).getD 0 : ℕ)

/-- The entry that reads a variable from the configuration Secret. -/
def configEnv (v : String) : EnvVar :=
  ⟨v, "", some (.secretKeyRef t.configSecret v none)⟩

def databaseEnv (source : SecretSource) : EnvVar :=
  ⟨"HIKYO_DB", "", some (.secretKeyRef source.name source.key none)⟩

def formatBool (b : Bool) : String := if b then "true" else "false"

/-- The inputs that an upgrade source owns, in a stable order. -/
def UpgradeCustodySource.environment (s : UpgradeCustodySource) : List EnvVar :=
  [⟨"HIKYO_UPGRADE_BUNDLE", s.bundleDirectory, none⟩,
   ⟨"HIKYO_UPGRADE_STATE_DIR", s.stateDirectory, none⟩,
   ⟨"HIKYO_UPGRADE_EVIDENCE", s.evidenceDirectory, none⟩,
   ⟨"HIKYO_UPGRADE_BACKUP", s.ciphertextPath, none⟩,
   ⟨"HIKYO_UPGRADE_OPERATOR_PUBLIC_KEY", s.operatorPublicKeyFile, none⟩,
   ⟨"HIKYO_UPGRADE_TARGET_MANIFEST", s.targetManifestSHA256, none⟩,
   ⟨"HIKYO_UPGRADE_LEGACY_WRITERS_STOPPED", formatBool s.legacyWritersStopped, none⟩]

def topologyEnvironment (s : SingletonTopology) : List EnvVar :=
  [⟨haVariable, formatBool s.ha, none⟩, ⟨nodeIDVariable, s.nodeID, none⟩]

/-! ## Validity of what a command brings -/

/-- A path below `root`, clean and without control characters. Cleanness is the path
library's: no empty, `.` or `..` element. -/
def upgradePath (value root : String) : Bool :=
  value.toList.all (fun c => 32 ≤ c.toNat && c.toNat ≠ 127) &&
    ((value.toList.splitOn '/').drop 1).all (fun e => e ≠ [] && e ≠ ['.'] && e ≠ ['.', '.']) &&
    hasPrefix value (root ++ "/") && value.utf8ByteSize ≤ 1024 && containsControl value = false

def UpgradeCustodySource.valid (s : UpgradeCustodySource) : Bool :=
  upgradePath s.bundleDirectory "/run/hikyo-upgrade" &&
    upgradePath s.stateDirectory "/var/lib/hikyo-upgrade" &&
    upgradePath s.operatorPublicKeyFile "/run/hikyo-upgrade" &&
    !(s.legacyWritersStopped && s.evidenceDirectory = "") &&
    (s.evidenceDirectory = "" ↔ s.ciphertextPath = "") &&
    (s.evidenceDirectory = "" || (upgradePath s.evidenceDirectory "/run/hikyo-upgrade" &&
      upgradePath s.ciphertextPath "/run/hikyo-upgrade")) &&
    (s.targetManifestSHA256 = "" || P.validDigest s.targetManifestSHA256)

def validUpgradeProof : Option SourceProof → Bool
  | none => true
  | some p =>
    match t.upgradeSources.lookup p.alias with
    | none => false
    | some source => source.valid P && P.validDigest p.proofDigest && p.rootEpoch = 0 &&
        p.sourceDigest = P.digest source

/-- The proof of a database or root source, against the installed sources. -/
def validSourceProof (sources : Finmap fun _ : String => SecretSource) (root : Bool) :
    Option SourceProof → Bool
  | none => true
  | some p =>
    match sources.lookup p.alias with
    | none => false
    | some source => P.validDigest p.proofDigest && p.sourceDigest = P.digest source &&
        !(root && p.rootEpoch < 2) && !(!root && p.rootEpoch ≠ 0)

def validBootstrap : Option BootstrapChanges → Bool
  | none => true
  | some b =>
    !(b.database = none && b.root = none && b.upgrade = none) &&
      validSourceProof P t.databaseSources false b.database &&
      validSourceProof P t.rootSources true b.root && validUpgradeProof P t b.upgrade

def validManagedNodeID (id : String) : Bool :=
  id ≠ "" && id.utf8ByteSize ≤ 128 && !(id.toList.tails.any fun l => ['.', '.'].isPrefixOf l) &&
    (id.toList.zipIdx.all fun (c, i) => c.isAlphanum || (i ≠ 0 && (c = '-' || c = '_' || c = '.')))

def validTopologyEnrollment : Bool :=
  t.topologyNodeIDs.all validManagedNodeID && t.topologyNodeIDs.Nodup &&
    (t.topologyNodeIDs = [] ||
      (t.topologyNodeIDs.length ≤ 32 && t.stableNodeID ∈ t.topologyNodeIDs))

def allowedNodeID (id : String) : Bool := id = t.stableNodeID || id ∈ t.topologyNodeIDs

def validTopology : Option SingletonTopologyChange → Bool
  | none => true
  | some change => t.topologyNodeIDs ≠ [] && validTopologyEnrollment t &&
      allowedNodeID t change.before.nodeID && allowedNodeID t change.after.nodeID

/-! ## Preparing -/

/-- The node identity stands exactly once, as an enrolled literal. -/
def stableNodeID : Bool :=
  match c.env.filter fun v => v.name = nodeIDVariable with
  | [v] => allowedNodeID t v.value && v.valueFrom = none
  | _ => false

/-- The Deployment and the Secrets, if they are what the installation enrolled. -/
def get (cl : Cluster) : Except RolloutError (Deployment × Secrets) :=
  match cl.deployment with
  | none => .error .conflict
  | some d => do
    ensure (d.uid = t.deploymentUID) .conflict
    ensure d.spec.recreate .unsupported
    ensure ((container d.spec t.container).isSome) .unsupported
    ensure (d.spec.replicas = none ∨ d.spec.replicas = some 1) .unsupported
    ensure ((container d.spec t.container).any (stableNodeID t)) .unsupported
    ensure (cl.config.uid ≠ "" ∧ cl.config.immutable = false) .unsupported
    ensure (cl.rollback.uid ≠ "" ∧ cl.rollback.immutable = false) .unsupported
    ensure (cl.request.uid ≠ "" ∧ cl.request.immutable = false) .unsupported
    ensure (cl.receipt.uid ≠ "" ∧ cl.receipt.immutable = false) .unsupported
    pure (d, ⟨cl.config, cl.rollback, cl.request, cl.receipt⟩)

section

variable (intent : Intent) (changes : List Change) (bootstrap : Option BootstrapChanges)
  (topology : Option SingletonTopologyChange)

variable (d : Deployment) (delta : DeploymentDelta)

/-- The delta of one environment entry, which may stand at most once. -/
def envDelta (after : EnvVar) : Except RolloutError EnvDelta :=
  match c.env.filter fun v => v.name = after.name with
  | [] => .ok ⟨after.name, none, after⟩
  | [before] => .ok ⟨after.name, some before, after⟩
  | _ => .error .unsupported

/-- The delta of a flag, which may stand at most once, as `flag=value` or before its value. -/
def argumentDelta (flag value : String) : Except RolloutError (List ArgDelta) :=
  match c.args.zipIdx.filter fun (arg, _) => arg = flag || hasPrefix arg (flag ++ "=") with
  | [] => .ok []
  | [(arg, i)] =>
    if arg = flag then
      match c.args[i + 1]? with
      | none => .error .unsupported
      | some next =>
        if hasPrefix next "-" then .error .unsupported
        else .ok [⟨flag, (i + 1 : ℕ), next, value⟩]
    else .ok [⟨flag, i, arg, flag ++ "=" ++ value⟩]
  | _ => .error .unsupported

/-- The delta of a listener's port, which must stand exactly once. The probes must use
the operational port by its name. -/
def listenerDelta (port value : String) : Except RolloutError (List PortDelta) :=
  match c.ports.zipIdx.filter fun (p, _) => p.name = port with
  | [(p, i)] => do
    ensure (port = "ops" → ∀ probe ∈ [c.readinessProbe, c.livenessProbe, c.startupProbe],
      probe.bind Probe.httpGetPort = some "ops") .unsupported
    pure [⟨port, i, p.containerPort, portNumber P value⟩]
  | _ => .error .unsupported

/-- The arguments that go with a variable. -/
def changeArguments (v value : String) : Except RolloutError (List ArgDelta) :=
  match variableFlag v with
  | none => .ok []
  | some flag => argumentDelta c flag value

/-- The ports that go with a variable. -/
def changePorts (v value : String) : Except RolloutError (List PortDelta) :=
  match listenerPort v with
  | none => .ok []
  | some port => listenerDelta P c port value

/-- One change, added to the plan. -/
def prepareChange (change : Change) : Except RolloutError PlanData := do
  let value ← resolve P t change p.replicas
  let e ← envDelta c (configEnv t change.var)
  let args ← changeArguments c change.var value
  let ports ← changePorts P c change.var value
  pure { p with
    configAfter := p.configAfter.insert change.var value
    delta := { p.delta with
      environment := p.delta.environment ++ [e]
      arguments := p.delta.arguments ++ args
      ports := p.delta.ports ++ ports } }

/-- All changes, in the order of their variables; a variable may come once. -/
def prepareChanges (c : Container) : Option String → List Change → PlanData →
    Except RolloutError PlanData
  | _, [], p => pure p
  | previous, change :: rest, p => do
    ensure (previous ≠ some change.var) .invalid
    let p ← prepareChange P t c p change
    prepareChanges c (some change.var) rest p

/-- The database source of a bootstrap change. -/
def prepareDatabaseDelta : Except RolloutError DeploymentDelta := do
  match t.databaseSources.lookup proof.alias with
  | none => throw .invalid
  | some source =>
    let e ← envDelta c (databaseEnv source)
    match e.before with
    | some ⟨_, _, some (.secretKeyRef _ _ _)⟩ =>
      pure { delta with
        environment := delta.environment ++ [e]
        sourceAliases := delta.sourceAliases ++ [⟨ databaseAliasAnnotation,
          spec.template.annotations.lookup databaseAliasAnnotation, proof.alias⟩] }
    | _ => throw .unsupported

/-- The init container stages the root key from the volume. -/
def stagesRootKey (i : InitContainer) : Bool :=
  i.name = "root-key-stage" && i.args = ["__hikyo-stage-root-key"] &&
    i.volumeMounts.any fun m => m.name = "root-key-source" &&
      m.mountPath = "/run/hikyo-root-key-source" && m.readOnly

/-- The root source of a bootstrap change. -/
def prepareRootDelta : Except RolloutError DeploymentDelta := do
  match t.rootSources.lookup proof.alias with
  | none => throw .invalid
  | some source =>
    match spec.template.volumes.zipIdx.filter fun (v, _) => v.name = "root-key-source" with
    | [(v, i)] =>
      match v.secret with
      | some ⟨name, [item], rest⟩ =>
        ensure (item.path = "root-key") .unsupported
        ensure (spec.template.initContainers.any stagesRootKey) .unsupported
        pure { delta with
          rootSource := some ⟨i, some ⟨name, [item], rest⟩,
            some ⟨source.name, [{ item with key := source.key }], rest⟩⟩
          sourceAliases := delta.sourceAliases ++ [⟨ rootAliasAnnotation,
            spec.template.annotations.lookup rootAliasAnnotation, proof.alias⟩] }
      | _ => throw .unsupported
    | _ => throw .unsupported

/-- One input of an upgrade source: it must be what the installed source says. -/
def upgradeEnvDelta (previous next : EnvVar) : Except RolloutError EnvDelta :=
  match c.env.filter fun v => v.name = next.name with
  | [] => .error .unsupported
  | [before] =>
    if P.digest before = P.digest previous then .ok ⟨next.name, some before, next⟩
    else .error .conflict
  | _ => .error .conflict

/-- The upgrade source of a bootstrap change. -/
def prepareUpgradeDelta : Except RolloutError DeploymentDelta := do
  match spec.template.annotations.lookup upgradeAliasAnnotation with
  | none => throw .unsupported
  | some beforeAlias =>
    match t.upgradeSources.lookup beforeAlias, t.upgradeSources.lookup proof.alias with
    | some before, some source =>
      let es ← (before.environment.zip source.environment).mapM fun (previous, next) =>
        upgradeEnvDelta P c previous next
      pure { delta with
        environment := delta.environment ++ es
        sourceAliases := delta.sourceAliases ++
          [⟨ upgradeAliasAnnotation, some beforeAlias, proof.alias⟩,
           ⟨ upgradeProofAnnotation, spec.template.annotations.lookup upgradeProofAnnotation,
            proof.proofDigest⟩] }
    | _, _ => throw .unsupported

/-- A step that is taken if there is something to take it for. -/
def whenSome {α β : Type} (o : Option α) (f : α → β → Except RolloutError β) (b : β) :
    Except RolloutError β :=
  match o with
  | none => pure b
  | some a => f a b

def prepareBootstrapDelta (b : BootstrapChanges)
    (delta : DeploymentDelta) : Except RolloutError DeploymentDelta := do
  ensure (validBootstrap P t (some b)) .invalid
  let delta ← whenSome b.database (prepareDatabaseDelta t spec c) delta
  let delta ← whenSome b.root (prepareRootDelta t spec) delta
  whenSome b.upgrade (prepareUpgradeDelta P t spec c) delta

/-- What stands for an input of the topology is what the change says it was. Only the mode
may be absent, which stands for `false`. -/
def correspondsTo (ha : Bool) (before : EnvVar) : Option EnvVar → Bool
  | none => before.name = haVariable && ha = false
  | some v => v.valueFrom = none && v.value = before.value

/-- One input of the topology. -/
def topologyEnvDelta (ha : Bool) (before after : EnvVar) : Except RolloutError EnvDelta := do
  let e ← envDelta c after
  ensure (correspondsTo ha before e.before) .conflict
  pure e

def prepareTopologyDelta (change : SingletonTopologyChange) (p : PlanData) :
    Except RolloutError PlanData := do
  ensure (validTopology t (some change) ∧ (p.bootstrap = none ∨ change.before = change.after) ∧
    p.changes = [] ∧ p.replicas = 1) .unsupported
  let es ← ((topologyEnvironment change.before).zip (topologyEnvironment change.after)).mapM
    fun (before, after) => topologyEnvDelta c change.before.ha before after
  if p.bootstrap = none then
    pure { p with delta := { p.delta with environment := p.delta.environment ++ es } }
  else pure p

def stampFor : String :=
  P.digest (p.intent, p.changes, p.targetDigest, p.bootstrap)

def deploymentMetadataDigest : String := P.digest (d.uid, d.metadata)

/-- The plan before anything is added to it. -/
def initialPlan (s : Secrets) : PlanData where
  topology := topology
  intent := intent
  targetDigest := P.digest t
  resources := resources d s
  changes := changes
  configBefore := s.config.content.data
  configAfter := s.config.content.data
  configBeforeStamp := annotation s.config.content.annotations
  delta := DeploymentDelta.empty ( annotation d.spec.template.annotations)
  beforeMetadataDigest := deploymentMetadataDigest P d
  beforeSpecDigest := P.digest d.spec
  afterSpecDigest := ""
  replicas := d.spec.replicas.getD 1
  bootstrap := bootstrap

/-- The plan with its deltas. -/
def planDeltas (c : Container) : Except RolloutError PlanData := do
  let p ← prepareChanges P t c none p.changes p
  let delta ← whenSome p.bootstrap (prepareBootstrapDelta P t d.spec c) p.delta
  whenSome p.topology (prepareTopologyDelta t c) { p with delta := delta }

/-- **Prepare a decision.** Nothing is written. -/
def prepare (cl : Cluster) : Except RolloutError Record := do
  ensure (validIntent intent ∧ ¬ (changes = [] ∧ bootstrap = none ∧ topology = none) ∧
    changes.length ≤ 32) .invalid
  let (d, s) ← get t cl
  ensure (∀ key ∈ s.config.content.data.keys, allowed key) .unsupported
  let changes := changes.insertionSort fun a b => a.var ≤ b.var
  match container d.spec t.container with
  | none => throw .unsupported
  | some c =>
    ensure (d.spec.replicas.getD 1 ≥ 1) .unsupported
    let p ← planDeltas P t (initialPlan P t intent changes bootstrap topology d s) d c
    -- the stamp is of the decision and not of the plan: the plan digests the stamped spec
    let spec ← applyDelta P.toDigests d.spec t.container p.delta (some (stampFor P p))
    let p := { p with afterSpecDigest := P.digest spec }
    ensure (P.recordFits ⟨P.digest p, p⟩) .invalid
    pure ⟨P.digest p, p⟩

/-- **Prepare what a command asks for**, by the parts that it has. -/
def prepareFor (cl : Cluster) : Except RolloutError Record :=
  match topology, bootstrap with
  | some change, some _ => do
    ensure (change.before = change.after ∧ validTopology t (some change))
      .unsupported
    ensure (validBootstrap P t bootstrap) .invalid
    prepare P t intent [] bootstrap topology cl
  | some change, none => do
    ensure (validTopology t (some change)) .unsupported
    prepare P t intent [] none topology cl
  | none, some _ => do
    ensure (validBootstrap P t bootstrap) .invalid
    prepare P t intent changes bootstrap none cl
  | none, none => prepare P t intent changes none none cl

end

/-! ## Validity of a plan -/

/-- The environment entries of an upgrade source, from `offset` on. -/
def validUpgradeDelta (b : BootstrapChanges) (offset : ℕ) : Bool :=
  match b.upgrade with
  | none => p.delta.environment.length = offset
  | some proof =>
    match t.upgradeSources.lookup proof.alias,
      ((p.delta.sourceAliases.filterMap fun a =>
        if a.name = upgradeAliasAnnotation then a.before.bind t.upgradeSources.lookup
        else none).getLast?) with
    | some source, some prior =>
      p.delta.environment.length = offset + source.environment.length &&
        ((p.delta.environment.drop offset).zip
          (prior.environment.zip source.environment)).all fun (e, before, after) =>
            e.name = after.name && e.before.map (fun v => P.digest v) = some (P.digest before) &&
              P.digest e.after = P.digest after
    | _, _ => false

/-- The aliases of a plan are those of its sources, each once. -/
def validAliases (b : BootstrapChanges) (aliases : List SourceAliasDelta) : Bool :=
  let expected : List (String × String) :=
    (b.database.toList.map fun p => ( databaseAliasAnnotation, p.alias)) ++
    (b.root.toList.map fun p => ( rootAliasAnnotation, p.alias)) ++
    (b.upgrade.toList.flatMap fun p =>
      [( upgradeAliasAnnotation, p.alias), ( upgradeProofAnnotation, p.proofDigest)])
  aliases.length = expected.length && (aliases.map SourceAliasDelta.name).Nodup &&
    aliases.all fun a => (a.name, a.after) ∈ expected && a.after ≠ ""

/-- The sources of a plan, and nothing else besides its changes. -/
def validSourceDelta : Bool :=
  match p.bootstrap with
  | none => p.delta.rootSource = none && p.delta.environment.length = p.changes.length &&
      p.delta.sourceAliases = []
  | some b =>
    let want := p.changes.length + (if b.database = none then 0 else 1)
    validAliases b p.delta.sourceAliases &&
      (match b.database with
        | none => true
        | some proof =>
          match p.delta.environment[p.changes.length]?, t.databaseSources.lookup proof.alias with
          | some e, some source => e.name = "HIKYO_DB" && (e.before.any fun v => v.name = e.name) &&
              P.digest e.after = P.digest (databaseEnv source)
          | _, _ => false) &&
      validUpgradeDelta P t p b want &&
      (match b.root with
        | none => p.delta.rootSource = none
        | some proof =>
          match p.delta.rootSource, t.rootSources.lookup proof.alias with
          | some ⟨index, some ⟨_, [item], rest⟩, some after⟩, some source =>
            index ≥ 0 && item.path = "root-key" &&
              P.digest (SecretVolumeSource.mk source.name [{ item with key := source.key }] rest) =
                P.digest after
          | _, _ => false)

/-- The topology entries of a plan that changes nothing else. -/
def validTopologyEntries (change : SingletonTopologyChange) (p : PlanData) : Bool :=
  p.delta.environment.length = 2 && p.delta.rootSource = none && p.delta.sourceAliases = [] &&
    (p.delta.environment.zip ((topologyEnvironment change.before).zip
      (topologyEnvironment change.after))).all fun (e, before, after) =>
        e.name = after.name && P.digest e.after = P.digest after &&
          (match e.before with
            | none => after.name = haVariable && change.before.ha = false
            | some v => P.digest v = P.digest before)

def validBootstrapDelta : Bool :=
  validBootstrap P t p.bootstrap &&
    (match p.topology with
      | none => validSourceDelta P t p
      | some change =>
        validTopology t (some change) && p.changes = [] && p.replicas = 1 &&
          (match p.bootstrap with
            | none => validTopologyEntries P change p
            | some _ => change.before = change.after && validSourceDelta P t p))

/-- The changes of a plan resolve, and their environment entries are the first of the delta. -/
def validChanges (replicas : ℤ) :
    Option String → List Change → List EnvDelta → Option (List (String × String))
  | _, [], _ => some []
  | _, _ :: _, [] => none
  | previous, change :: rest, e :: es =>
    match resolve P t change replicas with
    | .error _ => none
    | .ok value =>
      if previous.all (fun v => v < change.var) && e.name = change.var &&
          P.digest e.after = P.digest (configEnv t change.var) &&
          e.before.all (fun v => v.name = e.name) then
        (validChanges replicas (some change.var) rest es).map fun vs => (change.var, value) :: vs
      else none

/-- One argument of a plan changes the value of a flag that the plan sets. -/
def validArgument (values : List (String × String)) (a : ArgDelta) : Bool :=
  match values.find? fun (v, _) => variableFlag v = some a.flag with
  | none => false
  | some (_, value) =>
    if a.after = value then
      a.before ≠ "" && hasPrefix a.before "-" = false && containsControl a.before = false
    else a.after = a.flag ++ "=" ++ value && hasPrefix a.before (a.flag ++ "=")

/-- One port of a plan is that of a listener that the plan sets. -/
def validPort (values : List (String × String)) (p : PortDelta) : Bool :=
  match values.find? fun (v, _) => listenerPort v = some p.name with
  | none => p.after = 0 && 1 ≤ p.before && p.before ≤ 65535
  | some (_, value) => portNumber P value = p.after && 1 ≤ p.before && p.before ≤ 65535

/-- **A plan has the form that preparation gives it.** -/
def validPlan : Bool :=
  validIntent p.intent && P.validDigest p.beforeMetadataDigest && p.targetDigest = P.digest t &&
    p.replicas ≥ 1 && !(p.changes = [] && p.bootstrap = none && p.topology = none) &&
    p.changes.length ≤ 32 && validBootstrapDelta P t p &&
    (∀ key ∈ p.configBefore.keys, allowed key) &&
    (match validChanges P t p.replicas none p.changes p.delta.environment with
      | none => false
      | some values =>
        p.configAfter = values.foldl (fun m (v, value) => m.insert v value) p.configBefore &&
          p.delta.ports.length = (values.filter fun (v, _) => (listenerPort v).isSome).length &&
          p.delta.arguments.length ≤ (values.filter fun (v, _) => (variableFlag v).isSome).length &&
          (p.delta.arguments.all fun a => a.index ≥ 0 && validArgument values a) &&
          (p.delta.arguments.map ArgDelta.index).Nodup &&
          (p.delta.arguments.map ArgDelta.flag).Nodup &&
          (p.delta.ports.all fun q => q.index ≥ 0 && validPort P values q) &&
          (p.delta.ports.map PortDelta.index).Nodup && (p.delta.ports.map PortDelta.name).Nodup)

end

end Hikyo.Rollout
