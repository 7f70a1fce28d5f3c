import Hikyo.Store.ProjectTables

/-!
# Authorization inside a transaction

Every service call passes the same chokepoint before it reads or writes: the
addressed environment exists, each atom of the operation's formula is covered by
a grant – or, with the key the call acts on, reached by a rule – and the
self-configuration profile and the session's assurance admit the operation. A
refusal changes nothing and discloses nothing: a scope that does not exist and
one the caller does not reach give the same answer.

The key of a call may be named indirectly, by a draft or by an approval request.
It is resolved in the addressed environment, and only if the grants alone do not
settle the formula.
-/

namespace Hikyo

open Tx (ensure ensure_eq_error except_bind_eq_error)

/-! ## Errors -/

/-- How a service call is refused, with the text the caller sees. -/
inductive ServiceError where
  | notFound (detail : String)
  | unauthorized (detail : String)
  | invalid (detail : String)
  | conflict (detail : String)
  | limitExceeded (detail : String)
  /-- a draft is not live, or was staged against another state -/
  | stalePending (detail : String)
  /-- the preview of a restore is missing or stale -/
  | stalePreview
  /-- a policy covers the destination -/
  | approvalRequired
  /-- a publish into several environments touches a covered one -/
  | approvalGatedMultiEnv
  /-- the quorum is not reached -/
  | approvalNotSatisfied
  /-- a protected destination takes a confirmation -/
  | protectedDestination (env : EnvId)
  /-- the reauthentication window is missing -/
  | ceremonyRequired
  | internal (detail : String)
  /-- the closure loop did not end -/
  | endless
deriving DecidableEq, Repr

/-- The uniform answer for what does not exist or is out of reach. -/
def ServiceError.hidden : ServiceError := .notFound ""

/-! ## Formulas -/

namespace Operation

/-- The registry's formulas. -/
def formula : Operation → Formula
  | valueList => [⟨.read, .env⟩]
  | valueStage => [⟨.edit, .env⟩]
  | valueInitialize => [⟨.definitionsEdit, .env⟩, ⟨.publish, .env⟩]
  | valueSet => [⟨.edit, .env⟩, ⟨.publish, .env⟩]
  | valueImport => [⟨.read, .project⟩, ⟨.edit, .env⟩, ⟨.publish, .env⟩]
  | valuePublish => [⟨.publish, .env⟩]
  | valueCopySource => [⟨.reveal, .env⟩]
  | valueCopyDestination => [⟨.reveal, .env⟩, ⟨.publish, .env⟩]
  | valueCopyDestinationConfig => [⟨.publish, .env⟩]
  | revisionRestore => [⟨.edit, .env⟩]
  | approvalPolicyWrite => [⟨.projectSettings, .project⟩]
  | approvalVote => [⟨.publish, .env⟩]
  | envCreate => [⟨.definitionsEdit, .project⟩]
  | envDelete => [⟨.definitionsEdit, .project⟩]

/-- The operation addresses the project, not an environment. -/
def atProject : Operation → Bool
  | approvalPolicyWrite | envCreate => true
  | _ => false

end Operation

/-- How a call names the key it acts on. -/
inductive KeyTarget where
  | byID (id : KeyId)
  | byName (name : String)
  /-- the key of a live draft the caller owns -/
  | pendingVersion (id : VersionId)
  /-- the first key a request pins -/
  | approvalRequest (id : String)

section Authorize

variable {δ : Type}

section

variable (s : ProjectTables δ) (caller : Identity) (op : Operation) (env : EnvId)

variable (principal : PrincipalId) (target : Option KeyTarget)

/-- `ResolveRuleKey`, by identifier. -/
def resolveRuleKey (id : KeyId) : Option RuleKey :=
  (s.keyByID id).map fun k => ⟨k.id, k.folder⟩

def resolveKeyTarget : KeyTarget → Option RuleKey
  | .byID id => resolveRuleKey s id
  | .byName name => (s.keyByName name).map fun k => ⟨k.id, k.folder⟩
  | .pendingVersion id =>
    (s.pending.rows.find? fun c => c.environmentID = env ∧ c.ownerID = principal ∧ c.id = id).bind
      fun c => resolveRuleKey s c.keyID
  | .approvalRequest id => (s.getRequest env id).bind fun r => r.keyIDs.head?.bind (resolveRuleKey s)

/-- Whether the principal holds a formula at a scope, with the key in view. -/
def holdsFormula (rulesApply : Bool) (f : Formula) (chain : Scope) (key : Option RuleKey) : Bool :=
  evaluateWithRules f chain (s.directory.grants principal)
    (if rulesApply then s.directory.rules principal else []) key

/-- The check of the cell that a first value may be staged in: nothing published,
no draft of somebody else. -/
def initializeAllowed (key : RuleKey) : Bool :=
  (s.valueEntry env key.id).isNone ∧
    ∀ c ∈ s.pending.rows, c.environmentID = env → c.keyID = key.id → c.ownerID = principal

/-- The formula of the operation, by grants alone or with the rules on the key of
the call. -/
def authorizeFormula : Except ServiceError Unit :=
  let chain := if op.atProject then s.chain "" else s.chain env
  if evaluate op.formula chain (s.directory.grants caller.principal) then .ok ()
  else if caller.rulesApply = false then .error .hidden
  else
    match target with
    | none => ensure (holdsFormula s caller.principal true op.formula chain none) .hidden
    | some t =>
      match resolveKeyTarget s env caller.principal t with
      | none => .error .hidden
      | some key => ensure (holdsFormula s caller.principal true op.formula chain (some key)) .hidden

/-- A first value is staged in a free cell only. -/
def authorizeFirstValue : Except ServiceError Unit :=
  if op ≠ .valueInitialize then .ok ()
  else
    match target.bind (resolveKeyTarget s env caller.principal) with
    | none => .error .hidden
    | some key => ensure (initializeAllowed s env caller.principal key) .hidden

/-- **The chokepoint.** -/
def authorizeTenant : Except ServiceError Unit := do
  ensure (op.atProject = true ∨ (s.environment env).isSome) .hidden
  authorizeFormula s caller op env target
  authorizeFirstValue s caller op env target
  -- automation may not delete a protected environment
  ensure (op = .envDelete → caller.rulesApply = false → s.isProtected env = false) .hidden
  ensure (s.directory.admits caller op env) (.unauthorized "")

/-- `Authorize`: without a key. -/
def authorize : Except ServiceError Unit :=
  authorizeTenant s caller op env none

/-- `AuthorizeKey`. -/
def authorizeKey (target : KeyTarget) : Except ServiceError Unit :=
  authorizeTenant s caller op env (some target)

end

/-- **A refusal of the chokepoint says nothing**: what is asked for does not exist,
or may not be done by this session. -/
inductive Denied : ServiceError → Prop
  | hidden : Denied .hidden
  | unauthorized : Denied (.unauthorized "")

variable {s : ProjectTables δ} {caller : Identity} {op : Operation} {target : Option KeyTarget}
  {e : ServiceError}

theorem denied_of_authorizeFormula {env : EnvId}
    (h : authorizeFormula s caller op env target = .error e) : Denied e := by
  unfold authorizeFormula at h
  dsimp only at h
  generalize (if op.atProject = true then s.chain "" else s.chain env) = chain at h
  split at h
  case isTrue => cases h
  case isFalse =>
    split at h
    case isTrue => exact Except.error.inj h ▸ .hidden
    case isFalse =>
      split at h
      next => exact ((ensure_eq_error _ _ _).mp h).2 ▸ .hidden
      next =>
        split at h
        next => exact Except.error.inj h ▸ .hidden
        next => exact ((ensure_eq_error _ _ _).mp h).2 ▸ .hidden

theorem denied_of_authorizeFirstValue {env : EnvId}
    (h : authorizeFirstValue s caller op env target = .error e) : Denied e := by
  unfold authorizeFirstValue at h
  split at h
  case isTrue => cases h
  case isFalse =>
    split at h
    next => exact Except.error.inj h ▸ .hidden
    next => exact ((ensure_eq_error _ _ _).mp h).2 ▸ .hidden

theorem denied_of_authorizeTenant {env : EnvId}
    (h : authorizeTenant s caller op env target = .error e) : Denied e := by
  unfold authorizeTenant at h
  rcases (except_bind_eq_error _ _ _).mp h with h | ⟨_, -, h⟩
  · exact ((ensure_eq_error _ _ _).mp h).2 ▸ .hidden
  rcases (except_bind_eq_error _ _ _).mp h with h | ⟨_, -, h⟩
  · exact denied_of_authorizeFormula h
  rcases (except_bind_eq_error _ _ _).mp h with h | ⟨_, -, h⟩
  · exact denied_of_authorizeFirstValue h
  rcases (except_bind_eq_error _ _ _).mp h with h | ⟨_, -, h⟩
  · exact ((ensure_eq_error _ _ _).mp h).2 ▸ .hidden
  · exact ((ensure_eq_error _ _ _).mp h).2 ▸ .unauthorized

/-- Authorize one operation on each of several keys of an environment. -/
def authorizeKeys (s : ProjectTables δ) (caller : Identity) (op : Operation) (env : EnvId) :
    List KeyId → Except ServiceError Unit
  | [] => .ok ()
  | id :: ids => do
    authorizeKey s caller op env (.byID id)
    authorizeKeys s caller op env ids

/-- **The principal holds publish over a key**, by a grant or by a rule. -/
def holdsPublish (s : ProjectTables δ) (principal : PrincipalId) (env : EnvId) (key : RuleKey) : Bool :=
  holdsFormula s principal true Operation.approvalVote.formula (s.chain env) (some key)

/-- `CallerHoldsApprovalKeys`: the live eligibility of a recorded vote. -/
def callerHoldsApprovalKeys (s : ProjectTables δ) (principal : PrincipalId) (env : EnvId)
    (ids : List KeyId) : Bool :=
  ids ≠ [] ∧ (s.environment env).isSome ∧
    s.directory.admits ⟨principal, true, false⟩ .approvalVote env ∧ ids.Nodup ∧
    ∀ id ∈ ids, id ≠ "" ∧ ((resolveRuleKey s id).map (holdsPublish s principal env)).getD false

/-! ## Ceremonies -/

/-- A caller without a session does not take part in ceremonies. -/
def skipsCeremony (caller : Identity) : Bool := !caller.session

/-- Consume the session's reauthentication window for exactly this decision. -/
def requireCeremony (s : ProjectTables δ) (caller : Identity) (intent : ReauthIntent) :
    Except ServiceError Unit :=
  if skipsCeremony caller || intent.keyIDs = [] then .ok ()
  else ensure (s.directory.reauthenticated caller.principal intent) .ceremonyRequired

end Authorize

end Hikyo
