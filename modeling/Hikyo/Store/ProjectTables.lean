import Hikyo.Authz.RuleDelegation

/-!
# The tables of a project

What the services that change published values read and write: the environments
with the number of their latest snapshot, the key catalogue, the published
values, the drafts of every principal, and the approval policies with their
requests and votes. Every statement is scoped to one organization and one
project, so the tables are those of one project. The tables of the instance the
services only read – grants, rules, accounts, SCIM memberships, reauthentication
windows, the rules values are validated by – are the `Directory`; they change
between any two transactions.

Identifiers are minted by `newID` and never repeat: `IDSource` says which
identifier is the next. A preview token and its digest are opaque texts that are
only compared, their type is `δ`.
-/

namespace Hikyo

/-! ## Rows -/

/-- A catalogue key's identifier. -/
abbrev KeyId := String
/-- The identifier of one staged version of a draft. -/
abbrev VersionId := String

/-- An environment. -/
structure Environment where
  id : EnvId
  /-- publishing here takes a ceremony of its own -/
  isProtected : Bool
  /-- the number of the latest snapshot, 0 before the first -/
  revision : ℕ
deriving DecidableEq, Repr

inductive Classification where
  | secret
  | config
deriving DecidableEq, Repr

/-- A declared key. -/
structure CatalogueKey where
  id : KeyId
  name : String
  folder : String
  /-- the key group, or the empty string -/
  groupID : String
  classification : Classification
deriving DecidableEq, Repr

/-- A published value. A cell that is written gets a new row with a new
identifier. -/
structure ValueEntry where
  id : String
  environmentID : EnvId
  keyID : KeyId
  value : String
deriving DecidableEq, Repr

/-- The cell a value is published in. -/
def ValueEntry.cell (e : ValueEntry) : EnvId × KeyId := (e.environmentID, e.keyID)

inductive PendingOperation where
  | set
  | unset
deriving DecidableEq, Repr

inductive PendingSource where
  | values
  | restore
deriving DecidableEq, Repr

/-- One version of a draft. Editing a cell mints a new version and removes the
old one. -/
structure PendingChange where
  id : VersionId
  keyID : KeyId
  ownerID : PrincipalId
  environmentID : EnvId
  operation : PendingOperation
  /-- what the ciphertext opens to -/
  value : String
  stagedFromRevision : ℕ
  /-- the published row the cell held at staging, or the empty string -/
  stagedFromEntry : String
  source : PendingSource
deriving DecidableEq, Repr

/-- The policy of one environment, or of the whole project. -/
structure ApprovalPolicy where
  id : String
  /-- the empty string for all environments of the project -/
  environmentID : EnvId
  minApprovals : ℕ
  allowSelfApproval : Bool
  requestTTLSeconds : ℕ
  enabled : Bool
  version : ℕ
deriving DecidableEq, Repr

inductive ApproverKind where
  | principal
  | scimGroup
deriving DecidableEq, Repr

/-- A member of a policy's approver set. -/
structure ApprovalApprover where
  policyID : String
  kind : ApproverKind
  subjectID : String
  /-- the SCIM binding of a group -/
  scopeBindingID : String
deriving DecidableEq, Repr

def ApprovalApprover.member (a : ApprovalApprover) : String × ApproverKind × String :=
  (a.policyID, a.kind, a.subjectID)

/-- A principal who may bypass a policy. -/
structure ApprovalBypasser where
  policyID : String
  principalID : PrincipalId
deriving DecidableEq, Repr

def ApprovalBypasser.member (b : ApprovalBypasser) : String × PrincipalId :=
  (b.policyID, b.principalID)

/-- The states of a request. The first two are the active ones. -/
inductive RequestState where
  | opened
  | approved
  | merged
  | rejected
  | expired
  | invalidated
  | bypassed
deriving DecidableEq, Repr

namespace RequestState

/-- `isActiveRequest`: open or approved. -/
def isActive (state : RequestState) : Bool := state = opened ∨ state = approved

/-- The state as it is stored and printed. -/
def text : RequestState → String
  | opened => "open"
  | approved => "approved"
  | merged => "merged"
  | rejected => "rejected"
  | expired => "expired"
  | invalidated => "invalidated"
  | bypassed => "bypassed"

end RequestState

inductive InvalidationCause where
  | policyChanged
  | draftEdited
  | envAdvanced
  | approverRemoved
deriving DecidableEq, Repr

/-- What a request pins: it never changes after the request was created. -/
structure RequestPins (δ : Type) where
  id : String
  environmentID : EnvId
  policyID : String
  policyVersion : ℕ
  requesterPrincipalID : PrincipalId
  versionIDs : List VersionId
  /-- the versions key-group closure pulled in -/
  closedVersionIDs : List VersionId
  keyIDs : List KeyId
  previewTokenDigest : δ
  baseRevision : ℕ
  purpose : String
  createdAt : ℕ
  expiresAt : ℕ
deriving DecidableEq, Repr

/-- A request for the review of one change set. -/
structure ApprovalRequest (δ : Type) extends RequestPins δ where
  state : RequestState
  /-- set when the request is invalidated -/
  invalidatedCause : Option InvalidationCause
  resolvedAt : Option ℕ
deriving DecidableEq, Repr

inductive VoteDecision where
  | approve
  | reject
deriving DecidableEq, Repr

def VoteDecision.text : VoteDecision → String
  | approve => "approve"
  | reject => "reject"

structure ApprovalVote where
  id : String
  environmentID : EnvId
  requestID : String
  principalID : PrincipalId
  decision : VoteDecision
  createdAt : ℕ
deriving DecidableEq, Repr

/-- One vote of a principal on a request. -/
def ApprovalVote.ballot (v : ApprovalVote) : String × PrincipalId := (v.requestID, v.principalID)

/-! ## The directory -/

/-- The caller of a service, as authentication resolved it. -/
structure Identity where
  principal : PrincipalId
  /-- machine principals do not hold rules -/
  rulesApply : Bool
  /-- whether the caller has an interactive session -/
  session : Bool
deriving DecidableEq, Repr

inductive ReauthPurpose where
  | publish
  | approve
  | reject
  | bypass
  | copy
deriving DecidableEq, Repr

/-- The decision a reauthentication window is bound to. -/
structure ReauthIntent where
  purpose : ReauthPurpose
  environmentID : EnvId
  keyIDs : List KeyId
deriving DecidableEq, Repr

/-- The operations of the registry these services ask for. -/
inductive Operation where
  | valueList
  | valueStage
  | valueInitialize
  | valueSet
  | valueImport
  | valuePublish
  | valueCopySource
  | valueCopyDestination
  | valueCopyDestinationConfig
  | revisionRestore
  | approvalPolicyWrite
  | approvalVote
  | envCreate
  | envDelete
deriving DecidableEq, Repr

/-- **What a transaction reads of the instance's other tables.** -/
structure Directory where
  grants : PrincipalId → List Grant
  rules : PrincipalId → List Rule
  /-- the self-configuration profile and the assurance of the session admit the
  operation -/
  admits : Identity → Operation → EnvId → Bool
  /-- the generation of a principal, moved by every change of its authority -/
  generation : PrincipalId → ℕ
  /-- the account of a human principal -/
  account : PrincipalId → Option String
  /-- by binding and account, the SCIM user and whether it is active -/
  scimUser : String → String → Option (String × Bool)
  /-- by binding and user, the groups -/
  memberships : String → String → List String
  /-- the principals an actor may name in a roster, those in `kept` unchecked -/
  mayName : PrincipalId → List String → List String → Bool
  /-- an open reauthentication window -/
  reauthenticated : PrincipalId → ReauthIntent → Bool
  /-- why a value may not be written into an environment: the key's declaration,
  the presence rules and the parameter declarations -/
  valueRefusal : EnvId → CatalogueKey → String → Option String
  /-- why the cells of an environment may not be delivered together: validation,
  the render cap, the storage high-water -/
  resolvedRefusal : EnvId → List (CatalogueKey × Option String) → Option String
  /-- `required_in` -/
  requiredIn : CatalogueKey → EnvId → Bool
  /-- whether an environment declares parameters -/
  parameterized : EnvId → Bool

/-- The identifiers `newID` mints, by number. -/
structure IDSource where
  uuid : ℕ → String
  /-- no identifier is minted twice -/
  injective : Function.Injective uuid

/-! ## Tables -/

/-- **The tables of one project.** -/
structure ProjectTables (δ : Type) where
  org : OrgId
  project : ProjectId
  environments : Table.Keyed Environment.id
  keys : Table.Keyed CatalogueKey.id
  /-- the revision of the catalogue -/
  schemaRevision : ℕ
  values : Table.Keyed ValueEntry.cell
  pending : Table.Keyed PendingChange.id
  /-- a project has at most one policy for an environment -/
  policies : Table.Keyed ApprovalPolicy.environmentID
  approvers : Table.Keyed ApprovalApprover.member
  bypassers : Table.Keyed ApprovalBypasser.member
  requests : Table.Keyed fun r : ApprovalRequest δ => r.id
  votes : Table.Keyed ApprovalVote.ballot
  /-- how many identifiers were minted -/
  issued : ℕ
  /-- the version of the root token key -/
  tokenKey : ℕ
  directory : Directory

namespace ProjectTables

variable {δ : Type}

section

variable (s : ProjectTables δ) (env : EnvId) (id : String) (key : KeyId)

/-- A new project. -/
def init (org : OrgId) (project : ProjectId) (directory : Directory) : ProjectTables δ where
  org := org
  project := project
  environments := .empty
  keys := .empty
  schemaRevision := 0
  values := .empty
  pending := .empty
  policies := .empty
  approvers := .empty
  bypassers := .empty
  requests := .empty
  votes := .empty
  issued := 0
  tokenKey := 1
  directory := directory

/-! ### Environments and the catalogue -/

def environment : Option Environment :=
  s.environments.rows.find? fun e => e.id = env

/-- The scope of an environment of the project. -/
def chain : Scope := ⟨s.org, s.project, env⟩

/-- The number of the latest snapshot, 0 when there is none. -/
def currentRevision : ℕ :=
  ((s.environment env).map Environment.revision).getD 0

/-- `EnvironmentReauthSettings`. -/
def isProtected : Bool :=
  ((s.environment env).map Environment.isProtected).getD false

def keyByID (id : KeyId) : Option CatalogueKey :=
  s.keys.rows.find? fun k => k.id = id

def keyByName (name : String) : Option CatalogueKey :=
  s.keys.rows.find? fun k => k.name = name

/-- The members of a key group. -/
def members (groupID : String) : List CatalogueKey :=
  s.keys.rows.filter fun k => k.groupID = groupID

/-! ### Values -/

/-- The published row of a cell. -/
def valueEntry : Option ValueEntry :=
  s.values.rows.find? fun e => e.cell = (env, key)

/-- The identifier of the published row of a cell, the empty string for none. -/
def publishedEntry : String :=
  ((s.valueEntry env key).map ValueEntry.id).getD ""

/-- `newID`. -/
def newID (ids : IDSource) (s : ProjectTables δ) (kind : String) : String × ProjectTables δ :=
  (kind ++ "_" ++ ids.uuid s.issued, { s with issued := s.issued + 1 })

/-- `writeCell` and `putCell`: publish a value under a new row. -/
def putCell (ids : IDSource) (s : ProjectTables δ) (env : EnvId) (key : KeyId) (value : String) :
    ProjectTables δ :=
  let (id, s) := s.newID ids "val"
  { s with values := s.values.put ⟨id, env, key, value⟩ }

def clearCell : ProjectTables δ :=
  { s with values := s.values.delete fun e => e.cell = (env, key) }

/-- Insert the next snapshot of an environment. -/
def advance : ProjectTables δ :=
  { s with
    environments := s.environments.update (fun e => e.id = env)
      (fun e => { e with revision := e.revision + 1 }) fun _ => rfl }

/-! ### Drafts -/

/-- `ListPendingChangesForOwner`. -/
def listForOwner (owner : PrincipalId) : List PendingChange :=
  Table.orderBy (fun c => [c.environmentID, c.keyID])
    (s.pending.rows.filter fun c => c.ownerID = owner)

/-- `ListPendingMarkers`: the drafts of all principals. -/
def listMarkers : List PendingChange :=
  Table.orderBy (fun c => [c.environmentID, c.keyID, c.ownerID]) s.pending.rows

/-- `Stage`: the owner's earlier draft of the cell goes. -/
def stagePending (c : PendingChange) : Option (ProjectTables δ) :=
  ((s.pending.delete fun r => r.environmentID = c.environmentID ∧ r.keyID = c.keyID ∧
      r.ownerID = c.ownerID).insert c).map fun pending => { s with pending := pending }

def discard (id : VersionId) : ProjectTables δ :=
  { s with pending := s.pending.delete fun r => r.environmentID = env ∧ r.id = id }

/-! ### Policies, requests and votes -/

/-- `CoveringPolicy`: the enabled policy of the environment, else the enabled one
of the project. -/
def coveringPolicy : Option ApprovalPolicy :=
  [env, ""].findSome? fun e => s.policies.rows.find? fun p => p.environmentID = e ∧ p.enabled = true

def getPolicy : Option ApprovalPolicy :=
  s.policies.rows.find? fun p => p.id = id

def listApprovers (policyID : String) : List ApprovalApprover :=
  s.approvers.rows.filter fun a => a.policyID = policyID

def listBypassers (policyID : String) : List ApprovalBypasser :=
  s.bypassers.rows.filter fun b => b.policyID = policyID

/-- `GetApprovalRequest`, in the environment of the proof. -/
def getRequest : Option (ApprovalRequest δ) :=
  s.requests.rows.find? fun r => r.environmentID = env ∧ r.id = id

/-- `UpdateApprovalRequestState`. The statement looks at the environment and the
identifier, not at the state. -/
def updateRequestState (state : RequestState)
    (cause : Option InvalidationCause) (resolvedAt : Option ℕ) : ProjectTables δ :=
  { s with
    requests := s.requests.update (fun r => r.environmentID = env ∧ r.id = id)
      (fun r => { r with state := state, invalidatedCause := cause, resolvedAt := resolvedAt })
      fun _ => rfl }

/-- `MarkApprovalRequestExpired`, for a request that is not resolved. -/
def markExpired (now : ℕ) : ProjectTables δ :=
  { s with
    requests := s.requests.update (fun r => r.id = id ∧ r.resolvedAt = none)
      (fun r => { r with state := .expired, resolvedAt := some now }) fun _ => rfl }

def insertRequest (r : ApprovalRequest δ) : Option (ProjectTables δ) :=
  (s.requests.insert r).map fun requests => { s with requests := requests }

def getVote (requestID : String) (principal : PrincipalId) : Option ApprovalVote :=
  s.votes.rows.find? fun v => v.environmentID = env ∧ v.requestID = requestID ∧
    v.principalID = principal

def listVotes (requestID : String) : List ApprovalVote :=
  s.votes.rows.filter fun v => v.environmentID = env ∧ v.requestID = requestID

def insertVote (v : ApprovalVote) : Option (ProjectTables δ) :=
  (s.votes.insert v).map fun votes => { s with votes := votes }

end

/-! ### What is found -/

section Found

variable {s : ProjectTables δ} {env : EnvId} {id : String}

theorem getRequest_eq_some {r : ApprovalRequest δ} (h : s.getRequest env id = some r) :
    r ∈ s.requests.rows ∧ r.environmentID = env ∧ r.id = id := by
  have hp := List.find?_some h
  simp only [decide_eq_true_eq] at hp
  exact ⟨List.mem_of_find?_eq_some h, hp⟩

theorem mem_listVotes {requestID : String} {v : ApprovalVote} : v ∈ s.listVotes env requestID ↔
      v ∈ s.votes.rows ∧ v.environmentID = env ∧ v.requestID = requestID := by
  simp [listVotes]

theorem isSome_keyByID : (s.keyByID id).isSome ↔ ∃ k ∈ s.keys.rows, k.id = id := by
  simp [keyByID, List.find?_isSome]

theorem coveringPolicy_congr {s' : ProjectTables δ} (h : s'.policies = s.policies) (env : EnvId) :
    s'.coveringPolicy env = s.coveringPolicy env := by
  unfold coveringPolicy
  rw [h]

end Found

/-! ### What an update of a request does -/

section Update

variable {s : ProjectTables δ} {req r : ApprovalRequest δ} {state : RequestState}
  {cause : Option InvalidationCause} {resolvedAt : Option ℕ}

/-- The request moved is the only one that changes. -/
theorem mem_updateRequestState (hreq : req ∈ s.requests.rows) :
    r ∈ (s.updateRequestState req.environmentID req.id state cause resolvedAt).requests.rows ↔
      r = { req with state := state, invalidatedCause := cause, resolvedAt := resolvedAt } ∨
        (r ∈ s.requests.rows ∧ r.id ≠ req.id) := by
  refine Table.mem_update.trans (or_congr ⟨?_, ?_⟩ (and_congr_right fun hr => ?_))
  · rintro ⟨r₀, hr₀, hp, rfl⟩
    have hsame : r₀ = req := s.requests.eq_of_key hr₀ hreq (of_decide_eq_true hp).2
    rw [hsame]
  · rintro rfl
    exact ⟨req, hreq, decide_eq_true ⟨rfl, rfl⟩, rfl⟩
  · rw [decide_eq_false_iff_not]
    refine not_congr ⟨And.right, fun hid => ?_⟩
    rw [s.requests.eq_of_key hr hreq hid]
    exact ⟨rfl, rfl⟩

end Update

end ProjectTables

end Hikyo
