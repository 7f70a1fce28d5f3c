import Hikyo.Domain.RuleContainment
import Hikyo.Lib.Digests

/-!
# What a configuration rollout changes

A committed configuration decision is carried out on one Deployment: some
environment variables of one container, the arguments and the ports that go with
them, one volume, a few annotations of the pod template. This module has the
parts of a Deployment that the executor looks at – whatever it only digests is an
opaque `rest` – the delta that a plan records, and `applyDelta`, which applies a
delta in either direction and refuses when the Deployment is not what the delta
says it was.

Digests are those of `Digests`: a comparison of two digests is a comparison of
what was digested.
-/

namespace Hikyo.Rollout

open Tx (ensure)

/-! ## Refusals -/

/-- The closed set of refusals. `trust` is the one of the authority trust state. -/
inductive RolloutError where
  | invalid
  | conflict
  | unavailable
  | unsupported
  | notSubmitted
  | trust
deriving DecidableEq, Repr

/-! ## The Deployment -/

/-- A map from strings to strings, without an order. -/
abbrev Data := Finmap fun _ : String => String

inductive EnvVarSource where
  | secretKeyRef (name key : String) (isOptional : Option Bool)
  | other (rest : String)
deriving DecidableEq, Countable

structure EnvVar where
  name : String
  value : String
  valueFrom : Option EnvVarSource
deriving DecidableEq, Countable

structure ContainerPort where
  name : String
  containerPort : ℤ
  rest : String
deriving DecidableEq, Countable

/-- A probe, with the name of its port if it is an HTTP probe. -/
structure Probe where
  httpGetPort : Option String
  rest : String
deriving DecidableEq, Countable

structure Container where
  name : String
  env : List EnvVar
  args : List String
  ports : List ContainerPort
  readinessProbe : Option Probe
  livenessProbe : Option Probe
  startupProbe : Option Probe
  rest : String
deriving DecidableEq, Countable

structure KeyToPath where
  key : String
  path : String
  rest : String
deriving DecidableEq, Countable

structure SecretVolumeSource where
  secretName : String
  items : List KeyToPath
  rest : String
deriving DecidableEq, Countable

structure Volume where
  name : String
  secret : Option SecretVolumeSource
  rest : String
deriving DecidableEq, Countable

structure VolumeMount where
  name : String
  mountPath : String
  readOnly : Bool
  rest : String
deriving DecidableEq, Countable

structure InitContainer where
  name : String
  args : List String
  volumeMounts : List VolumeMount
  rest : String
deriving DecidableEq, Countable

structure PodTemplate where
  annotations : Data
  containers : List Container
  initContainers : List InitContainer
  volumes : List Volume
  rest : String
deriving DecidableEq, Countable

structure DeploymentSpec where
  /-- whether the strategy is `Recreate` -/
  recreate : Bool
  replicas : Option ℤ
  template : PodTemplate
  rest : String
deriving DecidableEq, Countable

/-- What the metadata digest pins besides the UID: labels, annotations, owners,
finalizers, deletion state. -/
structure DeploymentMeta where
  annotations : Data
  rest : String
deriving DecidableEq, Countable

structure DeploymentStatus where
  generation : ℤ
  observedGeneration : ℤ
  replicas : ℤ
  updatedReplicas : ℤ
  availableReplicas : ℤ
  readyReplicas : ℤ
  unavailableReplicas : ℤ
  terminatingReplicas : Option ℤ
deriving DecidableEq, Countable

structure Deployment where
  uid : String
  version : ℕ
  metadata : DeploymentMeta
  spec : DeploymentSpec
  status : DeploymentStatus
deriving DecidableEq, Countable

section

variable (spec : DeploymentSpec) (a : Data)

/-- The first container with a name. -/
def container (name : String) : Option Container :=
  spec.template.containers.find? fun c => c.name = name

/-- Put a container where the first one with its name stands. -/
def putContainer (c : Container) : List Container → List Container
  | [] => []
  | c' :: cs => if c'.name = c.name then c :: cs else c' :: putContainer c cs

def DeploymentSpec.setContainer (c : Container) : DeploymentSpec :=
  { spec with template :=
    { spec.template with containers := putContainer c spec.template.containers } }

def DeploymentSpec.setAnnotations : DeploymentSpec :=
  { spec with template := { spec.template with annotations := a } }

def DeploymentSpec.setVolumes (vs : List Volume) : DeploymentSpec :=
  { spec with template := { spec.template with volumes := vs } }

def rolloutReady (d : Deployment) (replicas : ℤ) : Bool :=
  d.status.observedGeneration ≥ d.status.generation && d.status.replicas = replicas &&
    d.status.updatedReplicas = replicas && d.status.availableReplicas = replicas &&
    d.status.readyReplicas = replicas && d.status.unavailableReplicas = 0 &&
    (d.status.terminatingReplicas = none || d.status.terminatingReplicas = some 0)

/-! ## Annotations -/

def stampAnnotation : String := "hikyo.dev/configuration-rollout"
def databaseAliasAnnotation : String := "hikyo.dev/configuration-database-source"
def rootAliasAnnotation : String := "hikyo.dev/configuration-root-source"
def upgradeAliasAnnotation : String := "hikyo.dev/configuration-upgrade-source"
def upgradeProofAnnotation : String := "hikyo.dev/configuration-upgrade-proof"

/-- Set an annotation, or remove it. -/
def setAnnotation (name : String) : Option String → Data
  | none => a.erase name
  | some v => a.insert name v

def annotation : Option String := a.lookup stampAnnotation

def setStamp (stamp : Option String) : Data := setAnnotation a stampAnnotation stamp

end

/-! ## Deltas -/

structure EnvDelta where
  name : String
  before : Option EnvVar
  after : EnvVar
deriving DecidableEq, Countable

structure ArgDelta where
  flag : String
  index : ℤ
  before : String
  after : String
deriving DecidableEq, Countable

structure PortDelta where
  name : String
  index : ℤ
  before : ℤ
  after : ℤ
deriving DecidableEq, Countable

structure RootSourceDelta where
  index : ℤ
  before : Option SecretVolumeSource
  after : Option SecretVolumeSource
deriving DecidableEq, Countable

structure SourceAliasDelta where
  name : String
  before : Option String
  after : String
deriving DecidableEq, Countable

structure DeploymentDelta where
  environment : List EnvDelta
  arguments : List ArgDelta
  ports : List PortDelta
  beforeStamp : Option String
  rootSource : Option RootSourceDelta
  sourceAliases : List SourceAliasDelta
deriving DecidableEq, Countable

def DeploymentDelta.empty (beforeStamp : Option String) : DeploymentDelta :=
  ⟨[], [], [], beforeStamp, none, []⟩

/-! ## Applying a delta -/

section Apply

variable (H : Digests)

section

variable (args : List String) (ports : List ContainerPort) (volumes : List Volume) (a : Data)

/-- One environment entry, forwards: it must be what it was, or absent as it was. -/
def applyEnv (env : List EnvVar) (e : EnvDelta) : Except RolloutError (List EnvVar) :=
  match env.findIdx? (fun v => v.name = e.name), e.before with
  | none, none => .ok (env ++ [e.after])
  | none, some _ => .error .conflict
  | some _, none => .error .conflict
  | some i, some before =>
    if (env[i]?).map (fun v => H.digest v) = some (H.digest before) then .ok (env.set i e.after)
    else .error .conflict

/-- One environment entry, backwards. -/
def revertEnv (env : List EnvVar) (e : EnvDelta) : Except RolloutError (List EnvVar) :=
  match env.findIdx? (fun v => v.name = e.name) with
  | none => .error .conflict
  | some i =>
    if (env[i]?).map (fun v => H.digest v) = some (H.digest e.after) then
      match e.before with
      | none => .ok (env.eraseIdx i)
      | some before => .ok (env.set i before)
    else .error .conflict

/-- The flags that a plan may change the value of. -/
def ruledFlags : List String :=
  ["--listen", "--operational-listen", "--tls-cert-file", "--tls-key-file"]

/-- The argument at an index belongs to a flag: it is `flag=…`, or it follows the flag. -/
def belongsTo (flag : String) (i : ℕ) : Bool :=
  (args[i]?).any (fun arg => hasPrefix arg (flag ++ "=")) || (i ≠ 0 && args[i - 1]? = some flag)

/-- One argument, from one value to another. -/
def replaceArg (flag : String) (index : ℤ) (old new : String) :
    Except RolloutError (List String) := do
  ensure (0 ≤ index ∧ index < args.length) .conflict
  ensure (flag ∈ ruledFlags) .conflict
  ensure (belongsTo args flag index.toNat) .conflict
  ensure (args[index.toNat]? = some old) .conflict
  pure (args.set index.toNat new)

def applyArg (a : ArgDelta) : Except RolloutError (List String) :=
  replaceArg args a.flag a.index a.before a.after

def revertArg (a : ArgDelta) : Except RolloutError (List String) :=
  replaceArg args a.flag a.index a.after a.before

/-- One port, from one number to another. -/
def replacePort (name : String) (index old new : ℤ) : Except RolloutError (List ContainerPort) := do
  ensure (0 ≤ index ∧ index < ports.length) .conflict
  ensure (name = "http" ∨ name = "ops") .conflict
  ensure ((ports[index.toNat]?).any fun p => p.name = name) .conflict
  ensure ((ports[index.toNat]?).any fun p => p.containerPort = old) .conflict
  pure (ports.modify index.toNat fun p => { p with containerPort := new })

def applyPort (p : PortDelta) : Except RolloutError (List ContainerPort) :=
  replacePort ports p.name p.index p.before p.after

def revertPort (p : PortDelta) : Except RolloutError (List ContainerPort) :=
  replacePort ports p.name p.index p.after p.before

/-- The volume with the root key, from one source to another. -/
def replaceRoot (index : ℤ) (old new : Option SecretVolumeSource) :
    Except RolloutError (List Volume) := do
  ensure (0 ≤ index ∧ index < volumes.length) .conflict
  ensure ((volumes[index.toNat]?).any fun v => v.name = "root-key-source") .conflict
  ensure ((volumes[index.toNat]?).any fun v => H.digest v.secret = H.digest old)
    .conflict
  pure (volumes.modify index.toNat fun v => { v with secret := new })

def applyRoot : Option RootSourceDelta → Except RolloutError (List Volume)
  | none => .ok volumes
  | some r => replaceRoot H volumes r.index r.before r.after

def revertRoot : Option RootSourceDelta → Except RolloutError (List Volume)
  | none => .ok volumes
  | some r => replaceRoot H volumes r.index r.after r.before

def aliasAnnotations : List String :=
  [ databaseAliasAnnotation, rootAliasAnnotation, upgradeAliasAnnotation, upgradeProofAnnotation]

/-- One source alias, from one value to another. -/
def replaceAlias (name : String) (old new : Option String) : Except RolloutError Data := do
  ensure (name ∈ aliasAnnotations) .conflict
  ensure (H.digest (a.lookup name) = H.digest old) .conflict
  pure ( setAnnotation a name new)

def applyAlias (s : SourceAliasDelta) : Except RolloutError Data :=
  replaceAlias H a s.name s.before (some s.after)

def revertAlias (s : SourceAliasDelta) : Except RolloutError Data :=
  replaceAlias H a s.name (some s.after) s.before

end

/-- **Apply a delta to the named container and its template**, with a new stamp. -/
def applyDelta (spec : DeploymentSpec) (name : String) (delta : DeploymentDelta)
    (stamp : Option String) : Except RolloutError DeploymentSpec := do
  match container spec name with
  | none => .error .conflict
  | some c =>
    let env ← delta.environment.foldlM (applyEnv H) c.env
    let args ← delta.arguments.foldlM applyArg c.args
    let ports ← delta.ports.foldlM applyPort c.ports
    let spec := spec.setContainer { c with env := env, args := args, ports := ports }
    let volumes ← applyRoot H spec.template.volumes delta.rootSource
    let annotations ← delta.sourceAliases.foldlM (applyAlias H)
      (setStamp spec.template.annotations stamp)
    pure ((spec.setVolumes volumes).setAnnotations annotations)

/-- **Take a delta back**, with the stamp it recorded. -/
def revertDelta (spec : DeploymentSpec) (name : String) (delta : DeploymentDelta) :
    Except RolloutError DeploymentSpec := do
  match container spec name with
  | none => .error .conflict
  | some c =>
    let env ← delta.environment.foldlM (revertEnv H) c.env
    let args ← delta.arguments.foldlM revertArg c.args
    let ports ← delta.ports.foldlM revertPort c.ports
    let spec := spec.setContainer { c with env := env, args := args, ports := ports }
    let volumes ← revertRoot H spec.template.volumes delta.rootSource
    let annotations ← delta.sourceAliases.foldlM (revertAlias H)
      (setStamp spec.template.annotations delta.beforeStamp)
    pure ((spec.setVolumes volumes).setAnnotations annotations)

end Apply

end Hikyo.Rollout
