import Hikyo.Service.ValueWrites

/-!
# Runs of a project

A project from its creation: every call of a service that touches its tables,
whoever makes it and whether it commits or not, and between the calls any change
of the rest of the instance – grants, rules, accounts, reauthentication windows,
the root token key. The transactions are serializable, so a run is the list of the
calls in the order in which they took effect.

What a step does to the review tables is said here once. A request that is there
after a step was there before it and is the same, or was active and moved
(`RequestMove`), or was staged by the step (`step_request`); a vote was there or
was cast by the step (`step_vote`); a draft was there or was staged under a new
identifier (`step_draft`). The runs start empty, so every identifier in the tables
was minted, every draft is for a declared key and every vote is on a request:
`Sound`.
-/

namespace Hikyo

open Tx (bind_ok skip)

variable {δ : Type}

/-! ## Operations -/

/-- A call of a service, or a change of the rest of the instance. -/
inductive ProjectOp (δ : Type) where
  | stage (caller : Identity) (env : EnvId) (keyName : String) (edit : DraftEdit)
  | restore (caller : Identity) (env : EnvId) (keyName : String) (target : KeyId → Option String)
  | publish (caller : Identity) (env : EnvId) (request : PublishRequest δ) (now : ℕ)
  | vote (caller : Identity) (env : EnvId) (requestID decision : String) (now : ℕ)
  | createPolicy (caller : Identity) (input : ApprovalPolicyInput)
  | updatePolicy (caller : Identity) (id : String) (input : ApprovalPolicyInput)
  | deletePolicy (caller : Identity) (id : String)
  | expireDue (now share : ℕ)
  | declare (caller : Identity) (envs : List EnvId) (keyName value : String)
  | importValues (caller : Identity) (env : EnvId) (entries : List ImportEntry)
      (overwrite : List String)
  | copy (caller : Identity) (req : CopyRequest)
  | createEnvironment (caller : Identity) (source : EnvId)
  | deleteEnvironment (caller : Identity) (env : EnvId)
  | setProtected (env : EnvId) (isProtected : Bool)
  | editCatalogue (caller : Identity) (keys : Table.Keyed CatalogueKey.id)
  | setDirectory (directory : Directory)
  | rotateTokenKey

section Step

variable [DecidableEq δ] (W : Server δ)

/-- The transaction of an operation. -/
def ProjectOp.apply (s : ProjectTables δ) : ProjectOp δ → Except ServiceError (ProjectTables δ)
  | .stage caller env keyName edit => Hikyo.stage W s caller env keyName edit
  | .restore caller env keyName target => Hikyo.restore W s caller env keyName target
  | .publish caller env request now => do
    let (s', _) ← publishPlanned W s caller env request now
    return s'
  | .vote caller env requestID decision now => do
    let (s', _) ← Hikyo.vote W s caller env requestID decision now
    return s'
  | .createPolicy caller input => Hikyo.createPolicy W s caller input
  | .updatePolicy caller id input => Hikyo.updatePolicy s caller id input
  | .deletePolicy caller id => Hikyo.deletePolicy s caller id
  | .expireDue now share => .ok (Hikyo.expireDue s now share)
  | .declare caller envs keyName value => Hikyo.declare W s caller envs keyName value
  | .importValues caller env entries overwrite =>
    Hikyo.importValues W s caller env entries overwrite
  | .copy caller req => Hikyo.copy W s caller req
  | .createEnvironment caller source => Hikyo.createEnvironment W s caller source
  | .deleteEnvironment caller env => Hikyo.deleteEnvironment s caller env
  | .setProtected env isProtected => .ok (Hikyo.setProtected s env isProtected)
  | .editCatalogue caller keys => Hikyo.editCatalogue W s caller keys
  | .setDirectory directory => .ok { s with directory := directory }
  | .rotateTokenKey => .ok { s with tokenKey := s.tokenKey + 1 }

/-- **One step of a run**: what does not commit changes nothing. -/
def ProjectTables.step (s : ProjectTables δ) (op : ProjectOp δ) : ProjectTables δ :=
  Tx.commit (fun s => op.apply W s) s

end Step

/-! ## What a step does -/

/-- The environments an operation outside the draft flow may write values in. -/
def ProjectOp.MayWrite (s : ProjectTables δ) : ProjectOp δ → EnvId → Prop
  | .declare _ envs _ _, env => env ∈ envs
  | .importValues .., env | .copy .., env => s.coveringPolicy env = none
  | .createEnvironment .., env => s.environment env = none
  | _, _ => False

/-- A change of the policies and their rosters. -/
structure PolicyEdit (s s' : ProjectTables δ) : Prop where
  keys : s'.keys = s.keys
  values : s'.values = s.values
  pending : s'.pending = s.pending
  requests : s'.requests = s.requests
  votes : s'.votes = s.votes
  tokenKey : s'.tokenKey = s.tokenKey
  issued : s.issued ≤ s'.issued

variable {W : Server δ} {caller : Identity}

namespace PolicyEdit

variable {s s₁ s' : ProjectTables δ}

theorem refl (s : ProjectTables δ) : PolicyEdit s s := ⟨rfl, rfl, rfl, rfl, rfl, rfl, le_refl _⟩

theorem trans (h : PolicyEdit s s₁) (h' : PolicyEdit s₁ s') : PolicyEdit s s' :=
  ⟨h'.keys.trans h.keys, h'.values.trans h.values, h'.pending.trans h.pending,
    h'.requests.trans h.requests, h'.votes.trans h.votes, h'.tokenKey.trans h.tokenKey,
    le_trans h.issued h'.issued⟩

variable {id : String}

theorem insertApprover {a : ApprovalApproverSpec}
    (h : insertApprover id s a = .ok s') : PolicyEdit s s' := by
  unfold Hikyo.insertApprover at h
  split at h
  next => cases h
  next =>
    split at h
    next => cases h
    next => exact Except.ok.inj h ▸ ⟨rfl, rfl, rfl, rfl, rfl, rfl, le_refl _⟩

theorem insertBypasser {principal : PrincipalId}
    (h : insertBypasser id s principal = .ok s') : PolicyEdit s s' := by
  unfold Hikyo.insertBypasser at h
  split at h
  next => cases h
  next => exact Except.ok.inj h ▸ ⟨rfl, rfl, rfl, rfl, rfl, rfl, le_refl _⟩

variable {input : ApprovalPolicyInput}

theorem writePolicyMembers (h : writePolicyMembers s id input = .ok s') : PolicyEdit s s' := by
  obtain ⟨s₁, happrovers, h⟩ := bind_ok h
  have hs₁ : PolicyEdit s s₁ := Tx.foldlM_invariant (PolicyEdit s) _
    (fun _ _ _ _ hb hstep => hb.trans (insertApprover hstep)) (refl s) happrovers
  exact Tx.foldlM_invariant (PolicyEdit s) _
    (fun _ _ _ _ hb hstep => hb.trans (insertBypasser hstep)) hs₁ h

theorem createPolicy (h : createPolicy W s caller input = .ok s') : PolicyEdit s s' := by
  replace h := skip (skip (skip (skip h)))
  dsimp only at h
  split at h
  next => cases h
  next policies hinsert =>
    refine trans ?_ (writePolicyMembers h)
    exact ⟨rfl, rfl, rfl, rfl, rfl, rfl, Nat.le_succ _⟩

theorem updatePolicy (h : updatePolicy s caller id input = .ok s') : PolicyEdit s s' := by
  replace h := skip (skip h)
  split at h
  next => cases h
  next current hcurrent =>
    replace h := skip (skip h)
    refine trans ?_ (writePolicyMembers h)
    exact ⟨rfl, rfl, rfl, rfl, rfl, rfl, le_refl _⟩

theorem deletePolicy (h : deletePolicy s caller id = .ok s') : PolicyEdit s s' := by
  replace h := skip (skip h)
  exact Except.ok.inj h ▸ ⟨rfl, rfl, rfl, rfl, rfl, rfl, le_refl _⟩

end PolicyEdit

/-- What a vote changes: the requests, the votes and the counter. -/
structure ReviewEdit (s s' : ProjectTables δ) : Prop where
  keys : s'.keys = s.keys
  values : s'.values = s.values
  pending : s'.pending = s.pending
  tokenKey : s'.tokenKey = s.tokenKey
  issued : s.issued ≤ s'.issued

variable {env : EnvId} {now : ℕ}

theorem VoteEffect.reviewEdit {s s' : ProjectTables δ}
    {req : ApprovalRequest δ} {decision : VoteDecision}
    (h : VoteEffect W s caller env req decision now s') : ReviewEdit s s' := by
  cases h with
  | unchanged | policyChanged | drifted => exact ⟨rfl, rfl, rfl, rfl, le_refl _⟩
  | cast _ hcast =>
    have hstate := hcast.state
    cases decision with
    | reject => exact hstate ▸ ⟨rfl, rfl, rfl, rfl, Nat.le_succ _⟩
    | approve =>
      rcases hstate with hstate | hstate
      all_goals exact hstate ▸ ⟨rfl, rfl, rfl, rfl, Nat.le_succ _⟩

/-- The sweep changes the requests only. -/
theorem reviewEdit_expireDue (s : ProjectTables δ) (now share : ℕ) :
    ReviewEdit s (expireDue s now share) ∧ (expireDue s now share).votes = s.votes := by
  unfold expireDue
  generalize selectExpired s now share = due
  induction due using List.reverseRecOn with
  | nil => exact ⟨⟨rfl, rfl, rfl, rfl, le_refl _⟩, rfl⟩
  | append_singleton due r ih =>
    rw [List.foldl_append]
    exact ⟨⟨ih.1.keys, ih.1.values, ih.1.pending, ih.1.tokenKey, ih.1.issued⟩, ih.2⟩

/-- A publish writes drafts and values, and then changes the requests only. -/
theorem PublishEffect.frame {s s' : ProjectTables δ} {request : PublishRequest δ}
    {loaded : Option (ApprovalRequest δ)} {versionIDs : List VersionId} {reply : PublishReply δ}
    (h : PublishEffect W s caller env request loaded now versionIDs s' reply) :
    ∃ s₁, Writes W.ids (fun _ => True) s s₁ ∧ ReviewEdit s₁ s' ∧ s'.votes = s₁.votes := by
  cases h with
  | staleDraft | refused => exact ⟨s, Writes.refl s, ⟨rfl, rfl, rfl, rfl, le_refl _⟩, rfl⟩
  | created => exact ⟨s, Writes.refl s, ⟨rfl, rfl, rfl, rfl, Nat.le_succ _⟩, rfl⟩
  | delivered _ hpublish | resolved _ _ _ _ _ _ _ _ hpublish =>
    exact ⟨_, (writes_publishEnvironments hpublish).mono fun _ _ => trivial,
      ⟨rfl, rfl, rfl, rfl, le_refl _⟩, rfl⟩

/-- The tables after an environment was deleted. -/
def withoutEnvironment (s : ProjectTables δ) (env : EnvId) : ProjectTables δ :=
  { s with
    environments := s.environments.delete fun e => e.id = env
    values := s.values.delete fun e => e.environmentID = env
    pending := s.pending.delete fun c => c.environmentID = env
    requests := s.requests.delete fun r => r.environmentID = env
    votes := s.votes.delete fun v => v.environmentID = env
    schemaRevision := s.schemaRevision + 1 }

/-- **Everything a step can do.** -/
inductive StepEffect (W : Server δ) (s : ProjectTables δ) : ProjectOp δ → ProjectTables δ → Prop
  /-- the call failed, or answered without a change -/
  | unchanged {op : ProjectOp δ} : StepEffect W s op s
  | written {op : ProjectOp δ} {s' : ProjectTables δ} (h : Writes W.ids (op.MayWrite s) s s') :
    StepEffect W s op s'
  | policyEdit {op : ProjectOp δ} {s' : ProjectTables δ} (h : PolicyEdit s s') : StepEffect W s op s'
  /-- a publish that names versions -/
  | published {caller : Identity} {env : EnvId} {request : PublishRequest δ} {now : ℕ}
    {s' : ProjectTables δ} {reply : PublishReply δ} (hbare : request.approvalRequestID = "")
    (h : PublishEffect W s caller env request none now request.versionIDs s' reply) :
    StepEffect W s (.publish caller env request now) s'
  /-- a publish that names a request -/
  | publishedRequest {caller : Identity} {env : EnvId} {request : PublishRequest δ} {now : ℕ}
    {s' : ProjectTables δ} {reply : PublishReply δ} {req : ApprovalRequest δ}
    (hnamed : request.approvalRequestID ≠ "")
    (hreq : s.getRequest env request.approvalRequestID = some req)
    (h : PublishEffect W s caller env request (some req) now req.versionIDs s' reply) :
    StepEffect W s (.publish caller env request now) s'
  | voted {caller : Identity} {env : EnvId} {requestID raw : String} {now : ℕ}
    {s' : ProjectTables δ} {decision : VoteDecision} {req : ApprovalRequest δ}
    (hdecision : VoteDecision.parse raw = some decision)
    (hreq : s.getRequest env requestID = some req) (hactive : req.state.isActive = true)
    (h : VoteEffect W s caller env req decision now s') :
    StepEffect W s (.vote caller env requestID raw now) s'
  | expired {now share : ℕ} : StepEffect W s (.expireDue now share) (Hikyo.expireDue s now share)
  | deleted {caller : Identity} {env : EnvId} :
    StepEffect W s (.deleteEnvironment caller env) (withoutEnvironment s env)
  | catalogue {caller : Identity} {keys : Table.Keyed CatalogueKey.id} {s' : ProjectTables δ}
    (h : Writes W.ids (fun _ => False) (withCatalogue s keys) s') :
    StepEffect W s (.editCatalogue caller keys) s'
  | rotated : StepEffect W s .rotateTokenKey { s with tokenKey := s.tokenKey + 1 }

variable [DecidableEq δ] (W : Server δ)

theorem stepEffect_of_apply {s s' : ProjectTables δ} {op : ProjectOp δ}
    (h : op.apply W s = .ok s') : StepEffect W s op s' := by
  cases op with
  | stage => exact .written (writes_stage h)
  | restore => exact .written (writes_restore h)
  | publish caller env request now =>
    obtain ⟨⟨s₁, reply⟩, hpublish, h⟩ := bind_ok h
    cases h
    rcases publishPlanned_eq_ok hpublish with ⟨hbare, heffect⟩ | ⟨hnamed, req, hreq, heffect⟩
    · exact .published hbare heffect
    · exact .publishedRequest hnamed hreq heffect
  | vote caller env requestID raw now =>
    obtain ⟨⟨s₁, refusal⟩, hvote, h⟩ := bind_ok h
    cases h
    rcases vote_eq_ok hvote with rfl | ⟨decision, req, hdecision, hreq, hactive, heffect⟩
    · exact .unchanged
    · exact .voted hdecision hreq hactive heffect
  | createPolicy => exact .policyEdit (PolicyEdit.createPolicy h)
  | updatePolicy => exact .policyEdit (PolicyEdit.updatePolicy h)
  | deletePolicy => exact .policyEdit (PolicyEdit.deletePolicy h)
  | expireDue now share => exact Except.ok.inj h ▸ .expired
  | declare => exact .written (writes_declare h)
  | importValues => exact .written (writes_importValues h)
  | copy => exact .written (writes_copy h)
  | createEnvironment => exact .written (writes_createEnvironment h)
  | deleteEnvironment caller env =>
    replace h := skip h
    exact Except.ok.inj h ▸ .deleted
  | setProtected env isProtected | setDirectory directory =>
    cases h
    exact .written ⟨rfl, rfl, rfl, rfl, rfl, le_refl _, fun _ hc => .inl hc, fun _ he => .inl he⟩
  | editCatalogue => exact .catalogue (writes_editCatalogue h)
  | rotateTokenKey => exact Except.ok.inj h ▸ .rotated

/-- **What a step does.** -/
theorem stepEffect (s : ProjectTables δ) (op : ProjectOp δ) : StepEffect W s op (s.step W op) :=
  Tx.commit_invariant (StepEffect W s op) .unchanged fun _ => stepEffect_of_apply W

end Hikyo
