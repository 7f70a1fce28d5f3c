import Hikyo.Service.PendingSelection

/-!
# Change approvals

An approval policy covers an environment, or all environments of the project that
have none of their own. Where a policy covers the destination a publish does not
deliver: it stages a request that pins the change set – the drafts, the ones key
groups pulled in, the base revision, and the digest of the preview token. Named
approvers vote, and the requester merges the request once enough eligible ones
approved. A named bypasser may commit without the quorum.

A request authorizes one exact change set. Vote and merge recompute the preview
from the drafts as they are and compare; a request that does not match any more
is invalidated, and that invalidation commits although the call is refused. So a
call has three ways to end: an error, which rolls back; a refusal that commits an
invalidation; and success.

The gates are conjuncts of the one publish transaction and never deliver anything themselves.
-/

namespace Hikyo

open Tx (ensure bind_ok skip ensured checked)

variable {δ : Type}

/-- What the services take from the rest of the server. -/
structure Server (δ : Type) where
  ids : IDSource
  tokens : PreviewTokens δ
  /-- `audit.SanitizeFreeText` -/
  sanitizeFreeText : String → String
  /-- `normalizeStoredValue` -/
  normalize : CatalogueKey → String → String

/-! ## Policies -/

/-- A member of an approver set as the admin surface states it. -/
structure ApprovalApproverSpec where
  kind : String
  subjectID : String
  bindingID : String
deriving DecidableEq, Repr

/-- A policy as the admin surface states it. -/
structure ApprovalPolicyInput where
  /-- the empty string for all environments of the project -/
  environmentID : EnvId
  minApprovals : ℤ
  allowSelfApproval : Bool
  requestTTLSeconds : ℤ
  enabled : Bool
  approvers : List ApprovalApproverSpec
  bypassers : List PrincipalId
deriving DecidableEq, Repr

/-- The kinds the admin surface knows. -/
def ApproverKind.parse (kind : String) : Option ApproverKind :=
  if kind = "principal" then some .principal
  else if kind = "scim_group" then some .scimGroup
  else none

def maxInt32 : ℤ := 2147483647

def maxApprovalPolicyMembers : ℕ := 100

def maxApprovalPurposeBytes : ℕ := 1024

def maxBypassReasonBytes : ℕ := 512

def validateApprover (a : ApprovalApproverSpec) : Except ServiceError Unit :=
  match ApproverKind.parse a.kind with
  | some .principal => ensure (a.subjectID ≠ "") (.invalid "a principal approver needs a subject")
  | some .scimGroup => ensure (a.subjectID ≠ "" ∧ a.bindingID ≠ "")
      (.invalid "a SCIM-group approver needs a group and its binding")
  | none => .error (.invalid ("unknown approver kind " ++ a.kind))

def validatePolicyInput (input : ApprovalPolicyInput) : Except ServiceError Unit := do
  ensure (1 ≤ input.minApprovals ∧ input.minApprovals ≤ maxInt32)
    (.invalid "min_approvals must be between 1 and 2147483647")
  ensure (0 < input.requestTTLSeconds ∧ input.requestTTLSeconds ≤ maxInt32)
    (.invalid "request_ttl_seconds must be between 1 and 2147483647")
  ensure (input.approvers.length ≤ maxApprovalPolicyMembers)
    (.invalid "approvers cannot contain more than 100 entries")
  ensure (input.bypassers.length ≤ maxApprovalPolicyMembers)
    (.invalid "bypassers cannot contain more than 100 entries")
  input.approvers.forM validateApprover

section Policies

variable (W : Server δ) (s : ProjectTables δ)

section

variable (caller : Identity) (policyID : String) (input : ApprovalPolicyInput)

def validatePolicyEnvironment (env : EnvId) : Except ServiceError Unit :=
  ensure (env = "" ∨ (s.environment env).isSome)
    (.invalid ("environment " ++ env ++ " is not in this project"))

/-- `policyRosterPrincipals` and `checkNamedPrincipals`: the principals a roster
names, those stored already in the same role unchecked. -/
def checkRoster
    (storedApprovers : List ApprovalApprover) (storedBypassers : List ApprovalBypasser) :
    Except ServiceError Unit :=
  let approvers := (input.approvers.filter fun a => a.kind = "principal").map
    ApprovalApproverSpec.subjectID
  let named := approvers ++ input.bypassers
  let added := (approvers.filter fun id =>
      ¬ ∃ a ∈ storedApprovers, a.kind = .principal ∧ a.subjectID = id) ++
    input.bypassers.filter fun id => ¬ ∃ b ∈ storedBypassers, b.principalID = id
  let kept := named.filter fun id => id ∉ added
  ensure (named = [] ∨ s.directory.mayName caller.principal named kept)
    (.invalid "unknown principal")

/-- One approver row. -/
def insertApprover (s : ProjectTables δ) (a : ApprovalApproverSpec) :
    Except ServiceError (ProjectTables δ) :=
  match ApproverKind.parse a.kind with
  | none => .error (.internal "approval_policy_approvers.kind")
  | some kind =>
    match s.approvers.insert ⟨policyID, kind, a.subjectID, a.bindingID⟩ with
    | none => .error (.conflict "")
    | some approvers => .ok { s with approvers := approvers }

/-- One bypasser row. -/
def insertBypasser (s : ProjectTables δ) (principal : PrincipalId) :
    Except ServiceError (ProjectTables δ) :=
  match s.bypassers.insert ⟨policyID, principal⟩ with
  | none => .error (.conflict "")
  | some bypassers => .ok { s with bypassers := bypassers }

def writePolicyMembers : Except ServiceError (ProjectTables δ) := do
  let s ← input.approvers.foldlM (insertApprover policyID) s
  input.bypassers.foldlM (insertBypasser policyID) s

/-- Drop the members of a policy. -/
def clearMembers : ProjectTables δ :=
  { s with
    approvers := s.approvers.delete fun a => a.policyID = policyID
    bypassers := s.bypassers.delete fun b => b.policyID = policyID }

def createPolicy : Except ServiceError (ProjectTables δ) := do
  validatePolicyInput input
  authorize s caller .approvalPolicyWrite ""
  validatePolicyEnvironment s input.environmentID
  checkRoster s caller input [] []
  let (id, s) := s.newID W.ids "apol"
  match s.policies.insert
      { id := id, environmentID := input.environmentID, minApprovals := input.minApprovals.toNat,
        allowSelfApproval := input.allowSelfApproval,
        requestTTLSeconds := input.requestTTLSeconds.toNat, enabled := input.enabled,
        version := 1 } with
  | none => .error (.conflict "")
  | some policies => writePolicyMembers { s with policies := policies } id input

/-- Replace the fields and the members of a policy. The version moves, so every
request pinned to the old one fails closed. -/
def updatePolicy (id : String) (input : ApprovalPolicyInput) :
    Except ServiceError (ProjectTables δ) := do
  validatePolicyInput input
  authorize s caller .approvalPolicyWrite ""
  match s.getPolicy id with
  | none => .error .hidden
  | some current => do
    ensure (input.environmentID = current.environmentID) (.invalid
      "an approval policy's environment cannot be changed; create a replacement policy")
    checkRoster s caller input (s.listApprovers id) (s.listBypassers id)
    let s := { s with
      policies := s.policies.update (fun p => p.id = id)
        (fun p => { p with
          minApprovals := input.minApprovals.toNat
          allowSelfApproval := input.allowSelfApproval
          requestTTLSeconds := input.requestTTLSeconds.toNat
          enabled := input.enabled
          version := p.version + 1 }) fun _ => rfl }
    writePolicyMembers (clearMembers s id) id input

/-- Remove a policy with its members. Its requests stay. -/
def deletePolicy (id : String) : Except ServiceError (ProjectTables δ) := do
  authorize s caller .approvalPolicyWrite ""
  ensure (s.getPolicy id).isSome .hidden
  let s := { s with policies := s.policies.delete fun p => p.id = id }
  return clearMembers s id

end

end Policies

/-! ## The live quorum -/

section

variable (s : ProjectTables δ)

/-- **Currently an approver**: named directly, or an active member of a named
SCIM group. A machine has no account and is never eligible through a group. -/
def approverEligible (approvers : List ApprovalApprover) (principal : PrincipalId) : Bool :=
  approvers.any (fun a => a.kind = .principal ∧ a.subjectID = principal) ||
    match s.directory.account principal with
    | none => false
    | some account => approvers.any fun a =>
        a.kind = .scimGroup && match s.directory.scimUser a.scopeBindingID account with
          | none => false
          | some (user, active) =>
            active && a.subjectID ∈ s.directory.memberships a.scopeBindingID user

/-- A recorded vote that counts: an approval, not the requester's own unless the
policy permits it, by somebody who is an approver and holds publish over every
pinned key now. -/
def countsAsApproval (scope : EnvId) (approvers : List ApprovalApprover)
    (req : ApprovalRequest δ) (policy : ApprovalPolicy) (v : ApprovalVote) : Bool :=
  v.decision = .approve ∧
    ¬ (v.principalID = req.requesterPrincipalID ∧ policy.allowSelfApproval = false) ∧
    approverEligible s approvers v.principalID ∧
    callerHoldsApprovalKeys s v.principalID scope req.keyIDs

/-- The votes are those of the proof's environment, the authority is that over
the addressed one. -/
def countEligibleApprovals (proof scope : EnvId)
    (approvers : List ApprovalApprover) (req : ApprovalRequest δ) (policy : ApprovalPolicy) : ℕ :=
  (s.listVotes proof req.id).countP (countsAsApproval s scope approvers req policy)

/-! ## Invalidation -/

def InvalidationCause.text : InvalidationCause → String
  | .policyChanged => "policy_changed"
  | .draftEdited => "draft_edited"
  | .envAdvanced => "env_advanced"
  | .approverRemoved => "approver_removed"

/-- Resolve a request as invalidated, in the environment of the proof. -/
def commitInvalidation (proof : EnvId) (req : ApprovalRequest δ)
    (cause : InvalidationCause) (now : ℕ) : ProjectTables δ :=
  s.updateRequestState proof req.id .invalidated (some cause) (some now)

/-- What the caller sees of an invalidation, after it has committed. -/
def staleRefusal (cause : InvalidationCause) : ServiceError :=
  .conflict ("the request was invalidated (" ++ cause.text ++ ")")

/-- An environment that advanced, or else drafts that were edited. -/
def driftCause (proof : EnvId) (req : ApprovalRequest δ) : InvalidationCause :=
  if s.currentRevision proof ≠ req.baseRevision then .envAdvanced else .draftEdited

/-! ## Voting -/

/-- The digest a change set is pinned by, for a call that addresses `env`. -/
def selectionDigest (T : PreviewTokens δ) (s : ProjectTables δ) (principal : PrincipalId)
    (env : EnvId) (selection : List PendingChange) : δ :=
  T.approvalPreviewDigest (publishPreviewToken T s principal env selection)

/-- The digest of the request's change set as the requester's drafts are now. The
caller's authority over every member of a key group is checked on the way. -/
def requestPreviewDigest (T : PreviewTokens δ) (s : ProjectTables δ) (caller : Identity) (env : EnvId)
    (req : ApprovalRequest δ) : Except ServiceError δ := do
  let selected ← resolveVersions s req.requesterPrincipalID req.versionIDs
  let (selection, closed) ← selectVersions s req.requesterPrincipalID
    (fun e key => authorizeKey s caller .approvalVote e (.byID key)) selected
  ensure (sortedUnique closed = sortedUnique req.closedVersionIDs ∧
    (selectionEnvs selection).length = 1) (.stalePending "")
  ensure (req.environmentID ∈ selectionEnvs selection) (.stalePending "")
  return selectionDigest T s req.requesterPrincipalID env selection

/-- The rounds of `authorizeApprovalKeys`, after the keys in `seen`. -/
def authorizeApprovalKeysFrom (s : ProjectTables δ) (caller : Identity) (env : EnvId)
    (seen : List KeyId) : List KeyId → Except ServiceError Unit
  | [] => .ok ()
  | id :: ids => do
    ensure (id ≠ "" ∧ id ∉ seen) .hidden
    authorizeKey s caller .approvalVote env (.byID id)
    authorizeApprovalKeysFrom s caller env (seen ++ [id]) ids

/-- Bound a decision to every pinned key, none of them empty or twice. -/
def authorizeApprovalKeys (caller : Identity) (env : EnvId)
    (ids : List KeyId) : Except ServiceError Unit := do
  ensure (ids ≠ []) .hidden
  authorizeApprovalKeysFrom s caller env [] ids

end

def VoteDecision.parse (decision : String) : Option VoteDecision :=
  if decision = "approve" then some .approve
  else if decision = "reject" then some .reject
  else none

def VoteDecision.purpose : VoteDecision → ReauthPurpose
  | approve => .approve
  | reject => .reject

section Voting

variable [DecidableEq δ] (W : Server δ) (s : ProjectTables δ) (caller : Identity) (env : EnvId)
  (req : ApprovalRequest δ) (decision : VoteDecision) (now : ℕ)

/-- Record the vote and resolve the request with it: a reject at once, an approval
when the quorum is reached. -/
def castVote (policy : ApprovalPolicy) : Except ServiceError (ProjectTables δ) := do
  requireCeremony s caller ⟨decision.purpose, req.environmentID, sortedUnique req.keyIDs⟩
  let (id, s) := s.newID W.ids "avote"
  match s.insertVote ⟨id, env, req.id, caller.principal, decision, now⟩ with
  | none => .error (.conflict "")
  | some s =>
    match decision with
    | .reject => return s.updateRequestState env req.id .rejected none (some now)
    | .approve =>
      if policy.minApprovals ≤
            countEligibleApprovals s env env (s.listApprovers req.policyID) req policy ∧
          req.state ≠ .approved then
        return s.updateRequestState env req.id .approved none none
      else return s

/-- A vote on a request whose review is as it was pinned. -/
def voteReviewed (policy : ApprovalPolicy) : Except ServiceError (ProjectTables δ) :=
  match s.getVote env req.id caller.principal with
  | some existing =>
    if existing.decision = decision then .ok s
    else .error (.conflict
      ("this approver already cast a " ++ existing.decision.text ++ " vote"))
  | none => castVote W s caller env req decision now policy

/-- A vote under the policy the request is pinned to: the review is recomputed. -/
def voteUnderPolicy (policy : ApprovalPolicy) :
    Except ServiceError (ProjectTables δ × Option ServiceError) := do
  ensure (approverEligible s (s.listApprovers req.policyID) caller.principal) (.unauthorized "")
  ensure (¬ (decision = .approve ∧ caller.principal = req.requesterPrincipalID ∧
    policy.allowSelfApproval = false))
    (.unauthorized "the requester cannot approve their own change under this policy")
  match requestPreviewDigest W.tokens s caller env req with
  | .error (.stalePending _) =>
    let cause := driftCause s env req
    .ok (commitInvalidation s env req cause now, some (staleRefusal cause))
  | .error e => .error e
  | .ok digest =>
    if digest = req.previewTokenDigest then do
      let s ← voteReviewed W s caller env req decision now policy
      return (s, none)
    else
      let cause := driftCause s env req
      .ok (commitInvalidation s env req cause now, some (staleRefusal cause))

/-- A vote on an active request. -/
def voteActive : Except ServiceError (ProjectTables δ × Option ServiceError) := do
  ensure (now < req.expiresAt) (.conflict "the request has expired")
  match s.getPolicy req.policyID with
  | none => .ok (commitInvalidation s env req .policyChanged now, some (staleRefusal .policyChanged))
  | some policy =>
    if policy.id = req.policyID ∧ policy.version = req.policyVersion then
      voteUnderPolicy W s caller env req decision now policy
    else .ok (commitInvalidation s env req .policyChanged now, some (staleRefusal .policyChanged))

/-- A repeated decision on a resolved request is accepted, anything else is a
conflict. -/
def voteResolved : Except ServiceError (ProjectTables δ × Option ServiceError) :=
  match s.getVote env req.id caller.principal with
  | some existing =>
    if existing.decision = decision then .ok (s, none)
    else .error (.conflict
      ("this approver already cast a " ++ existing.decision.text ++ " vote"))
  | none => .error (.conflict ("the request is " ++ req.state.text))

end Voting

/-- **A vote.** The second component is the refusal of a vote that committed an
invalidation. -/
def vote [DecidableEq δ] (W : Server δ) (s : ProjectTables δ) (caller : Identity) (env : EnvId)
    (requestID decision : String) (now : ℕ) :
    Except ServiceError (ProjectTables δ × Option ServiceError) :=
  match VoteDecision.parse decision with
  | none => .error (.invalid "a vote is approve or reject")
  | some decision => do
    authorizeKey s caller .approvalVote env (.approvalRequest requestID)
    match s.getRequest env requestID with
    | none => .error .hidden
    | some req => do
      authorizeApprovalKeys s caller env req.keyIDs
      if req.state.isActive then voteActive W s caller env req decision now
      else voteResolved s caller env req decision

/-! ## Expiry -/

/-- The largest number of requests one sweep resolves. -/
def expiryBatch : ℕ := 100

/-- `SelectExpired`: the requests of a batch, by identifier. The batch is taken
over the whole installation, `share` of it falls to this project. -/
def selectExpired (s : ProjectTables δ) (now share : ℕ) : List (ApprovalRequest δ) :=
  (Table.orderBy (fun r => r.id) (s.requests.rows.filter fun r =>
    r.resolvedAt = none ∧ r.expiresAt < now)).take (min share expiryBatch)

/-- **The expiry sweep**, one batch. -/
def expireDue (s : ProjectTables δ) (now share : ℕ) : ProjectTables δ :=
  (selectExpired s now share).foldl (fun s r => s.markExpired r.id now) s

/-! ## The publish gate -/

/-- What a publish carries. -/
structure PublishRequest (δ : Type) where
  versionIDs : List VersionId
  /-- the preview of a restore, if one is presented -/
  previewToken : Option δ
  confirmedProtectedEnvironments : List EnvId
  /-- the request to merge or to bypass, or the empty string -/
  approvalRequestID : String
  /-- the reason of an emergency bypass -/
  bypass : Option String
  purpose : String
deriving DecidableEq, Repr

/-- What the gate tells the publish to do. -/
inductive ApprovalOutcome (δ : Type) where
  /-- no policy covers the publish -/
  | ungated
  /-- a request was staged, and nothing else happens -/
  | created (s : ProjectTables δ) (req : ApprovalRequest δ)
  /-- the request is stale; its invalidation commits and the publish is refused -/
  | refused (s : ProjectTables δ) (cause : InvalidationCause)
  /-- deliver, and resolve the request with the publish -/
  | resolve (requestID : String) (coveredEnv : EnvId) (bypass : Bool)

def sanitizePurpose (W : Server δ) (raw : String) : Except ServiceError String :=
  if maxApprovalPurposeBytes < (W.sanitizeFreeText raw).utf8ByteSize then
    .error (.invalid "the change purpose is too long")
  else .ok (W.sanitizeFreeText raw)

/-- The environment of the publish that a policy covers, with the policy. -/
def coveredEnvironment (s : ProjectTables δ) (selection : List PendingChange) :
    Option (EnvId × ApprovalPolicy) :=
  (selectionEnvs selection).findSome? fun env => (s.coveringPolicy env).map fun p => (env, p)

section Gate

variable (W : Server δ) (s : ProjectTables δ) (caller : Identity) (policy : ApprovalPolicy)
  (coveredEnv : EnvId) (digest : δ) (now : ℕ)

/-- The request a publish stages. -/
def newRequest (id purpose : String) (request : PublishRequest δ) (selection : List PendingChange)
    (closed : List VersionId) : ApprovalRequest δ where
  id := id
  environmentID := coveredEnv
  policyID := policy.id
  policyVersion := policy.version
  requesterPrincipalID := caller.principal
  versionIDs := sortedUnique request.versionIDs
  closedVersionIDs := sortedUnique closed
  keyIDs := selectionKeyIDs (appliesOf selection coveredEnv)
  previewTokenDigest := digest
  baseRevision := s.currentRevision coveredEnv
  purpose := purpose
  createdAt := now
  expiresAt := now + policy.requestTTLSeconds * 1000000000
  state := .opened
  invalidatedCause := none
  resolvedAt := none

def approvalCreateGate (request : PublishRequest δ) (selection : List PendingChange)
    (closed : List VersionId) : Except ServiceError (ApprovalOutcome δ) := do
  let purpose ← sanitizePurpose W request.purpose
  let (id, s') := s.newID W.ids "areq"
  let req := newRequest s caller policy coveredEnv digest now id purpose request selection closed
  match s'.insertRequest req with
  | none => .error (.conflict "")
  | some s' => .ok (.created s' req)

variable [DecidableEq δ]

/-- The checks merge and bypass share: the request is of this environment, active,
in time and the caller's own. -/
def checkResolvable (req : ApprovalRequest δ) (proposer : String) : Except ServiceError Unit := do
  ensure (req.environmentID = coveredEnv)
    (.conflict "the request does not belong to this environment")
  ensure (req.state.isActive = true) (.conflict ("the request is " ++ req.state.text))
  ensure (now < req.expiresAt) (.conflict "the request has expired")
  ensure (caller.principal = req.requesterPrincipalID) (.unauthorized proposer)

/-- The comparison merge and bypass share: the policy is the pinned version and
the change set the pinned one, or the cause of the invalidation. -/
def reviewMoved (req : ApprovalRequest δ) : Option InvalidationCause :=
  if ¬ (policy.id = req.policyID ∧ policy.version = req.policyVersion) then some .policyChanged
  else if digest ≠ req.previewTokenDigest then some (driftCause s coveredEnv req)
  else none

def refuseStale (req : ApprovalRequest δ) (cause : InvalidationCause) : ApprovalOutcome δ :=
  .refused (commitInvalidation s coveredEnv req cause now) cause

def approvalMergeGate (scope : EnvId) : Option (ApprovalRequest δ) →
    Except ServiceError (ApprovalOutcome δ)
  | none => .error (.invalid "no approval request was loaded to merge")
  | some req => do
    checkResolvable caller coveredEnv now req "only the proposer may merge their reviewed change"
    match reviewMoved s policy coveredEnv digest req with
    | some cause => .ok (refuseStale s coveredEnv now req cause)
    | none =>
      if countEligibleApprovals s coveredEnv scope (s.listApprovers req.policyID) req policy <
          policy.minApprovals then
        if req.state = .approved then .ok (refuseStale s coveredEnv now req .approverRemoved)
        else .error .approvalNotSatisfied
      else .ok (.resolve req.id coveredEnv false)

def approvalBypassGate (keyIDs : List KeyId) (rawReason : String) : Option (ApprovalRequest δ) →
    Except ServiceError (ApprovalOutcome δ)
  | none => .error (.invalid "emergency bypass names an existing request")
  | some req => do
    ensure (skipsCeremony caller = false)
      (.unauthorized "emergency bypass requires an interactive reauthenticated session")
    checkResolvable caller coveredEnv now req "only the proposer may commit their own change set"
    match reviewMoved s policy coveredEnv digest req with
    | some cause => .ok (refuseStale s coveredEnv now req cause)
    | none => do
      ensure (∃ b ∈ s.listBypassers policy.id, b.principalID = caller.principal)
        (.unauthorized "not a named emergency bypasser of this policy")
      ensure (W.sanitizeFreeText rawReason ≠ "") (.invalid "emergency bypass requires a reason")
      ensure ((W.sanitizeFreeText rawReason).utf8ByteSize ≤ maxBypassReasonBytes)
        (.invalid "the bypass reason is too long")
      requireCeremony s caller ⟨.bypass, coveredEnv, sortedUnique keyIDs⟩
      return .resolve req.id coveredEnv true

end Gate

/-- A publish no policy covers. One that names an active request must not fall
through to a delivery without a live policy behind it. -/
def uncoveredGate (s : ProjectTables δ) (loaded : Option (ApprovalRequest δ))
    (selection : List PendingChange) (now : ℕ) : Except ServiceError (ApprovalOutcome δ) :=
  match loaded.filter fun req => req.state.isActive with
  | none => .ok .ungated
  | some req =>
    if req.environmentID ∈ selectionEnvs selection then
      .ok (refuseStale s req.environmentID now req .policyChanged)
    else .error (.conflict "the request environment is not in this publish")

/-- **The gate of a publish** that addresses `scope`. -/
def approvalGate [DecidableEq δ] (W : Server δ) (s : ProjectTables δ) (caller : Identity)
    (scope : EnvId) (request : PublishRequest δ) (loaded : Option (ApprovalRequest δ))
    (selection : List PendingChange) (closed : List VersionId) (now : ℕ) :
    Except ServiceError (ApprovalOutcome δ) :=
  match coveredEnvironment s selection with
  | none => uncoveredGate s loaded selection now
  | some (coveredEnv, policy) => do
    ensure ((selectionEnvs selection).length ≤ 1) .approvalGatedMultiEnv
    let digest := selectionDigest W.tokens s caller.principal scope selection
    match request.bypass with
    | some reason =>
      approvalBypassGate W s caller policy coveredEnv digest now
        (selectionKeyIDs (appliesOf selection coveredEnv)) reason loaded
    | none =>
      if request.approvalRequestID ≠ "" then
        approvalMergeGate s caller policy coveredEnv digest now scope loaded
      else approvalCreateGate W s caller policy coveredEnv digest now request selection closed

/-! ## What a vote does -/

section VoteCases

variable {W : Server δ} {s s' : ProjectTables δ} {caller : Identity} {env : EnvId}
  {req : ApprovalRequest δ} {decision : VoteDecision} {now : ℕ} {policy : ApprovalPolicy}

/-- The tables with the votes after one was inserted. -/
def withVotes (W : Server δ) (s : ProjectTables δ) (votes : Table.Keyed ApprovalVote.ballot) :
    ProjectTables δ :=
  { (s.newID W.ids "avote").2 with votes := votes }

/-- The row of a vote. -/
def newVote (W : Server δ) (s : ProjectTables δ) (caller : Identity) (env : EnvId)
    (req : ApprovalRequest δ) (decision : VoteDecision) (now : ℕ) : ApprovalVote :=
  ⟨(s.newID W.ids "avote").1, env, req.id, caller.principal, decision, now⟩

/-- **A vote that is cast** adds its row, and may resolve or approve the
request. -/
structure VoteCast (W : Server δ) (s : ProjectTables δ) (caller : Identity) (env : EnvId)
    (req : ApprovalRequest δ) (decision : VoteDecision) (now : ℕ)
    (votes : Table.Keyed ApprovalVote.ballot) (s' : ProjectTables δ) : Prop where
  rows : votes.rows = newVote W s caller env req decision now :: s.votes.rows
  state : match decision with
    | .reject => s' = (withVotes W s votes).updateRequestState env req.id .rejected none (some now)
    | .approve => s' = withVotes W s votes ∨
        s' = (withVotes W s votes).updateRequestState env req.id .approved none none

theorem castVote_eq_ok (h : castVote W s caller env req decision now policy = .ok s') :
    ∃ votes, VoteCast W s caller env req decision now votes s' := by
  replace h := skip h
  dsimp only at h
  split at h
  next => cases h
  next s₁ hinsert =>
    obtain ⟨votes, hvotes, rfl⟩ := Option.map_eq_some_iff.mp hinsert
    have hrows := (Table.Keyed.insert_eq_some hvotes).1
    cases decision with
    | reject => exact ⟨votes, hrows, (Except.ok.inj h).symm⟩
    | approve =>
      refine ⟨votes, hrows, ?_⟩
      dsimp only at h ⊢
      split at h
      case isTrue => exact .inr (Except.ok.inj h).symm
      case isFalse => exact .inl (Except.ok.inj h).symm

/-- The review of a request is not what was pinned: a draft is stale, or the
digest differs. -/
def ReviewMoved (T : PreviewTokens δ) (s : ProjectTables δ) (caller : Identity) (env : EnvId)
    (req : ApprovalRequest δ) : Prop :=
  (∃ detail, requestPreviewDigest T s caller env req = .error (.stalePending detail)) ∨
    ∃ digest, requestPreviewDigest T s caller env req = .ok digest ∧ digest ≠ req.previewTokenDigest

/-- **What a vote does to an active request**: nothing, an invalidation, or the
vote is cast on the pinned review by an approver of the pinned policy. -/
inductive VoteEffect (W : Server δ) (s : ProjectTables δ) (caller : Identity) (env : EnvId)
    (req : ApprovalRequest δ) (decision : VoteDecision) (now : ℕ) : ProjectTables δ → Prop
  | unchanged : VoteEffect W s caller env req decision now s
  | policyChanged :
    VoteEffect W s caller env req decision now (commitInvalidation s env req .policyChanged now)
  | drifted (hmoved : ReviewMoved W.tokens s caller env req) :
    VoteEffect W s caller env req decision now
      (commitInvalidation s env req (driftCause s env req) now)
  | cast {votes : Table.Keyed ApprovalVote.ballot} {s' : ProjectTables δ}
    (hdigest : requestPreviewDigest W.tokens s caller env req = .ok req.previewTokenDigest)
    (hcast : VoteCast W s caller env req decision now votes s') :
    VoteEffect W s caller env req decision now s'

theorem voteReviewed_eq_ok
    (hdigest : requestPreviewDigest W.tokens s caller env req = .ok req.previewTokenDigest)
    (h : voteReviewed W s caller env req decision now policy = .ok s') :
    VoteEffect W s caller env req decision now s' := by
  unfold voteReviewed at h
  split at h
  next =>
    split at h
    case isTrue => exact Except.ok.inj h ▸ .unchanged
    case isFalse => cases h
  next =>
    obtain ⟨votes, hcast⟩ := castVote_eq_ok h
    exact .cast hdigest hcast

variable {refusal : Option ServiceError}

theorem voteResolved_eq_ok (h : voteResolved s caller env req decision = .ok (s', refusal)) :
    s' = s := by
  unfold voteResolved at h
  split at h
  next =>
    split at h
    case isTrue => exact (Prod.mk.inj (Except.ok.inj h)).1.symm
    case isFalse => cases h
  next => cases h

variable [DecidableEq δ]

theorem voteUnderPolicy_eq_ok
    (h : voteUnderPolicy W s caller env req decision now policy = .ok (s', refusal)) :
    VoteEffect W s caller env req decision now s' := by
  replace h := skip (skip h)
  split at h
  next detail hstale =>
    obtain ⟨rfl, -⟩ := Prod.mk.inj (Except.ok.inj h)
    exact .drifted (.inl ⟨detail, hstale⟩)
  next => cases h
  next digest hdigest =>
    split at h
    case isTrue hsame =>
      obtain ⟨s₁, hs₁, h⟩ := bind_ok h
      obtain ⟨rfl, -⟩ := Prod.mk.inj (Except.ok.inj h)
      exact voteReviewed_eq_ok (hsame ▸ hdigest) hs₁
    case isFalse hne =>
      obtain ⟨rfl, -⟩ := Prod.mk.inj (Except.ok.inj h)
      exact .drifted (.inr ⟨digest, hdigest, hne⟩)

theorem voteActive_eq_ok (h : voteActive W s caller env req decision now = .ok (s', refusal)) :
    VoteEffect W s caller env req decision now s' := by
  replace h := skip h
  split at h
  next =>
    obtain ⟨rfl, -⟩ := Prod.mk.inj (Except.ok.inj h)
    exact .policyChanged
  next policy hpolicy =>
    split at h
    case isTrue => exact voteUnderPolicy_eq_ok h
    case isFalse =>
      obtain ⟨rfl, -⟩ := Prod.mk.inj (Except.ok.inj h)
      exact .policyChanged

/-- **What a vote does.** A request that is not active stays as it is. -/
theorem vote_eq_ok {requestID raw : String}
    (h : vote W s caller env requestID raw now = .ok (s', refusal)) :
    s' = s ∨ ∃ decision req, VoteDecision.parse raw = some decision ∧
      s.getRequest env requestID = some req ∧ req.state.isActive = true ∧
      VoteEffect W s caller env req decision now s' := by
  unfold vote at h
  split at h
  next => cases h
  next decision hdecision =>
    replace h := skip h
    split at h
    next => cases h
    next req hreq =>
      replace h := skip h
      split at h
      case isTrue hactive => exact .inr ⟨decision, req, hdecision, hreq, hactive, voteActive_eq_ok h⟩
      case isFalse => exact .inl (voteResolved_eq_ok h)

end VoteCases

/-! ## What the gate decides -/

section GateCases

variable {W : Server δ} {s : ProjectTables δ} {caller : Identity} {scope coveredEnv : EnvId}
  {policy : ApprovalPolicy} {digest : δ} {request : PublishRequest δ}
  {loaded : Option (ApprovalRequest δ)} {req : ApprovalRequest δ} {selection : List PendingChange}
  {closed : List VersionId} {now : ℕ} {outcome : ApprovalOutcome δ}

/-- The tables with the requests after one was inserted. -/
def withRequests (W : Server δ) (s : ProjectTables δ)
    (requests : Table.Keyed fun r : ApprovalRequest δ => r.id) : ProjectTables δ :=
  { (s.newID W.ids "areq").2 with requests := requests }

/-- A request its proposer may resolve now. -/
structure Resolvable (caller : Identity) (now : ℕ) (req : ApprovalRequest δ) : Prop where
  active : req.state.isActive = true
  inTime : now < req.expiresAt
  own : caller.principal = req.requesterPrincipalID

/-- Why the gate invalidates a request. -/
inductive GateRefusal (W : Server δ) (s : ProjectTables δ) (caller : Identity) (scope : EnvId)
    (selection : List PendingChange) (req : ApprovalRequest δ) : InvalidationCause → Prop
  | policyChanged : GateRefusal W s caller scope selection req .policyChanged
  | approverRemoved : GateRefusal W s caller scope selection req .approverRemoved
  | drifted (hown : caller.principal = req.requesterPrincipalID)
    (hmoved : selectionDigest W.tokens s caller.principal scope selection ≠ req.previewTokenDigest) :
    GateRefusal W s caller scope selection req (driftCause s req.environmentID req)

/-- **What the gate lets a publish do**: deliver where nothing covers it, stage a
request, commit the invalidation of the request it names, or deliver and resolve
that request – which then is active, in time, the caller's own, pinned to the
current policy and to exactly this change set, and unless it is bypassed approved
by enough of the currently eligible. -/
inductive GateEffect (W : Server δ) (s : ProjectTables δ) (caller : Identity) (scope : EnvId)
    (request : PublishRequest δ) (loaded : Option (ApprovalRequest δ))
    (selection : List PendingChange) (closed : List VersionId) (now : ℕ) : ApprovalOutcome δ → Prop
  | ungated (hcovered : coveredEnvironment s selection = none) :
    GateEffect W s caller scope request loaded selection closed now .ungated
  | created {coveredEnv : EnvId} {policy : ApprovalPolicy} {purpose : String}
    {requests : Table.Keyed fun r : ApprovalRequest δ => r.id} {req : ApprovalRequest δ}
    (hcovered : coveredEnvironment s selection = some (coveredEnv, policy))
    (hone : (selectionEnvs selection).length ≤ 1) (hbare : request.approvalRequestID = "")
    (hreq : req = newRequest s caller policy coveredEnv
      (selectionDigest W.tokens s caller.principal scope selection) now
      (s.newID W.ids "areq").1 purpose request selection closed)
    (hrows : requests.rows = req :: s.requests.rows) :
    GateEffect W s caller scope request loaded selection closed now
      (.created (withRequests W s requests) req)
  | refused {req : ApprovalRequest δ} {cause : InvalidationCause} (hloaded : loaded = some req)
    (hactive : req.state.isActive = true)
    (hcause : GateRefusal W s caller scope selection req cause) :
    GateEffect W s caller scope request loaded selection closed now
      (.refused (commitInvalidation s req.environmentID req cause now) cause)
  | resolve {req : ApprovalRequest δ} {policy : ApprovalPolicy} {bypass : Bool}
    (hloaded : loaded = some req)
    (hcovered : coveredEnvironment s selection = some (req.environmentID, policy))
    (hone : (selectionEnvs selection).length ≤ 1) (hreq : Resolvable caller now req)
    (hpolicy : policy.id = req.policyID ∧ policy.version = req.policyVersion)
    (hdigest : selectionDigest W.tokens s caller.principal scope selection = req.previewTokenDigest)
    (hquorum : bypass = false → policy.minApprovals ≤ countEligibleApprovals s req.environmentID
      scope (s.listApprovers req.policyID) req policy) :
    GateEffect W s caller scope request loaded selection closed now
      (.resolve req.id req.environmentID bypass)

theorem checkResolvable_eq_ok {proposer : String} {u : Unit}
    (h : checkResolvable caller coveredEnv now req proposer = .ok u) :
    req.environmentID = coveredEnv ∧ Resolvable caller now req := by
  obtain ⟨henv, h⟩ := checked h
  obtain ⟨hactive, h⟩ := checked h
  obtain ⟨htime, h⟩ := checked h
  exact ⟨henv, hactive, htime, ensured h⟩

theorem uncoveredGate_eq_ok (hcovered : coveredEnvironment s selection = none)
    (h : uncoveredGate s loaded selection now = .ok outcome) :
    GateEffect W s caller scope request loaded selection closed now outcome := by
  unfold uncoveredGate at h
  split at h
  next => exact Except.ok.inj h ▸ .ungated hcovered
  next req hreq =>
    obtain ⟨hloaded, hactive⟩ := Option.filter_eq_some_iff.mp hreq
    split at h
    case isTrue => exact Except.ok.inj h ▸ .refused hloaded hactive .policyChanged
    case isFalse => cases h

theorem approvalCreateGate_eq_ok (hcovered : coveredEnvironment s selection = some (coveredEnv, policy))
    (hone : (selectionEnvs selection).length ≤ 1) (hbare : request.approvalRequestID = "")
    (h : approvalCreateGate W s caller policy coveredEnv
      (selectionDigest W.tokens s caller.principal scope selection) now request selection closed =
        .ok outcome) : GateEffect W s caller scope request loaded selection closed now outcome := by
  obtain ⟨purpose, -, h⟩ := bind_ok h
  dsimp only at h
  split at h
  next => cases h
  next s' hinsert =>
    obtain ⟨requests, hrequests, rfl⟩ := Option.map_eq_some_iff.mp hinsert
    cases h
    exact .created hcovered hone hbare rfl (Table.Keyed.insert_eq_some hrequests).1

variable [DecidableEq δ]

/-- The comparison finds nothing moved, or the cause the gate refuses with. -/
theorem reviewMoved_cases (W : Server δ) (s : ProjectTables δ) (policy : ApprovalPolicy)
    (scope : EnvId) (selection : List PendingChange)
    (hown : caller.principal = req.requesterPrincipalID) (henv : req.environmentID = coveredEnv) :
    (reviewMoved s policy coveredEnv
        (selectionDigest W.tokens s caller.principal scope selection) req = none ∧
      (policy.id = req.policyID ∧ policy.version = req.policyVersion) ∧
      selectionDigest W.tokens s caller.principal scope selection = req.previewTokenDigest) ∨
    ∃ cause, reviewMoved s policy coveredEnv
        (selectionDigest W.tokens s caller.principal scope selection) req = some cause ∧
      GateRefusal W s caller scope selection req cause := by
  subst henv
  unfold reviewMoved
  by_cases hpolicy : policy.id = req.policyID ∧ policy.version = req.policyVersion
  · rw [if_neg (not_not.mpr hpolicy)]
    by_cases hdigest :
        selectionDigest W.tokens s caller.principal scope selection = req.previewTokenDigest
    · exact .inl ⟨if_neg (not_not.mpr hdigest), hpolicy, hdigest⟩
    · exact .inr ⟨_, if_pos hdigest, .drifted hown hdigest⟩
  · exact .inr ⟨_, if_pos hpolicy, .policyChanged⟩

section

variable (hcovered : coveredEnvironment s selection = some (coveredEnv, policy))
  (hone : (selectionEnvs selection).length ≤ 1)

include hcovered hone

theorem approvalMergeGate_eq_ok (h : approvalMergeGate s caller policy coveredEnv
      (selectionDigest W.tokens s caller.principal scope selection) now scope loaded = .ok outcome) :
    GateEffect W s caller scope request loaded selection closed now outcome := by
  cases loaded with
  | none => cases h
  | some req =>
    obtain ⟨_, hcheck, h⟩ := bind_ok h
    obtain ⟨henv, hreq⟩ := checkResolvable_eq_ok hcheck
    rcases reviewMoved_cases W s policy scope selection hreq.own henv with
      ⟨hnone, hpolicy, hdigest⟩ | ⟨cause, hsome, hcause⟩
    · rw [hnone] at h
      subst henv
      dsimp only at h
      split at h
      case isTrue =>
        split at h
        case isTrue => exact Except.ok.inj h ▸ .refused rfl hreq.active .approverRemoved
        case isFalse => cases h
      case isFalse hquorum =>
        exact Except.ok.inj h ▸
          .resolve rfl hcovered hone hreq hpolicy hdigest fun _ => not_lt.mp hquorum
    · rw [hsome] at h
      subst henv
      exact Except.ok.inj h ▸ .refused rfl hreq.active hcause

theorem approvalBypassGate_eq_ok {keyIDs : List KeyId} {reason : String}
    (h : approvalBypassGate W s caller policy coveredEnv
      (selectionDigest W.tokens s caller.principal scope selection) now keyIDs reason loaded =
        .ok outcome) : GateEffect W s caller scope request loaded selection closed now outcome := by
  cases loaded with
  | none => cases h
  | some req =>
    replace h := skip h
    obtain ⟨_, hcheck, h⟩ := bind_ok h
    obtain ⟨henv, hreq⟩ := checkResolvable_eq_ok hcheck
    rcases reviewMoved_cases W s policy scope selection hreq.own henv with
      ⟨hnone, hpolicy, hdigest⟩ | ⟨cause, hsome, hcause⟩
    · rw [hnone] at h
      subst henv
      replace h := skip (skip (skip (skip h)))
      exact Except.ok.inj h ▸
        .resolve rfl hcovered hone hreq hpolicy hdigest nofun
    · rw [hsome] at h
      subst henv
      exact Except.ok.inj h ▸ .refused rfl hreq.active hcause

end

/-- **What the gate decides.** -/
theorem approvalGate_eq_ok
    (h : approvalGate W s caller scope request loaded selection closed now = .ok outcome) :
    GateEffect W s caller scope request loaded selection closed now outcome := by
  unfold approvalGate at h
  split at h
  next hcovered => exact uncoveredGate_eq_ok hcovered h
  next coveredEnv policy hcovered =>
    obtain ⟨hone, h⟩ := checked h
    dsimp only at h
    split at h
    next => exact approvalBypassGate_eq_ok hcovered hone h
    next =>
      split at h
      case isTrue => exact approvalMergeGate_eq_ok hcovered hone h
      case isFalse hbare => exact approvalCreateGate_eq_ok hcovered hone (not_not.mp hbare) h

end GateCases

end Hikyo
