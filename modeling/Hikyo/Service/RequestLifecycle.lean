import Hikyo.Service.ProjectRuns

/-!
# The life of a request

A request is staged by a publish, is active while votes are cast on it, and ends in one of five
states. A step leaves a request, moves it (`RequestMove`, one constructor for each way) or stages
it (`RequestStaged`); and a vote that is there was cast on a request whose review was still the
pinned one (`VoteRecorded`).

The runs start from a new project. So the identifiers in the tables were minted,
every draft is for a declared key, a request is resolved exactly when it is not
active, and a rejected vote stands on a rejected request: `Sound`. From one state
to a later one of the same run drafts and requests only follow each other
(`Follows`): a draft keeps its content under its identifier, a request keeps its
pins, and one that has ended never changes again.

A recorded run then remembers where everything came from (`Remembers`): for every
request the publish that staged it, for every vote the call that cast it.
-/

namespace Hikyo

open List

variable {δ : Type}

/-! ## Moves -/

/-- The request in another state. -/
def ApprovalRequest.moved (r : ApprovalRequest δ) (state : RequestState)
    (cause : Option InvalidationCause) (resolvedAt : Option ℕ) : ApprovalRequest δ :=
  { r with state := state, invalidatedCause := cause, resolvedAt := resolvedAt }

/-- **A delivery that resolves a request** `r`: everything the publish checked, and
the tables `s₁` after the selection was written. -/
structure Delivers (W : Server δ) (s : ProjectTables δ) (caller : Identity) (env : EnvId) (now : ℕ)
    (bypass : Bool) (r : ApprovalRequest δ) (policy : ApprovalPolicy)
    (selection : List PendingChange) (closed : List VersionId) (s₁ : ProjectTables δ) : Prop where
  set : changeSet s caller.principal r.versionIDs =
    .ok (selectedSet s caller.principal selection closed)
  covered : coveredEnvironment s selection = some (r.environmentID, policy)
  one : (selectionEnvs selection).length ≤ 1
  resolvable : Resolvable caller now r
  pinned : policy.id = r.policyID ∧ policy.version = r.policyVersion
  digest : selectionDigest W.tokens s caller.principal env selection = r.previewTokenDigest
  quorum : bypass = false → policy.minApprovals ≤
    countEligibleApprovals s r.environmentID env (s.listApprovers r.policyID) r policy
  publish : (selectionEnvs selection).foldlM (publishEnvironment W selection) s = .ok s₁

/-- **How a step moves a request.** -/
inductive RequestMove (W : Server δ) (s : ProjectTables δ) :
    ProjectOp δ → ProjectTables δ → ApprovalRequest δ → ApprovalRequest δ → Prop
  /-- a publish finds a pinned draft stale -/
  | staleDraft {caller : Identity} {env : EnvId} {request : PublishRequest δ} {now : ℕ}
    {s' : ProjectTables δ} {r : ApprovalRequest δ} (henv : r.environmentID = env)
    (hid : r.id = request.approvalRequestID) (hnamed : request.approvalRequestID ≠ "")
    (hactive : r.state.isActive = true)
    (hstale : (∃ id ∈ r.versionIDs, ¬ LiveDraft s caller.principal id) ∨
      ∃ c ∈ s.pending.rows, s.keyByID c.keyID = none) :
    RequestMove W s (.publish caller env request now) s' r
      (r.moved .invalidated (some .draftEdited) (some now))
  /-- the gate of a publish refuses it -/
  | refused {caller : Identity} {env : EnvId} {request : PublishRequest δ} {now : ℕ}
    {s' : ProjectTables δ} {r : ApprovalRequest δ} {cause : InvalidationCause}
    {selection : List PendingChange} {closed : List VersionId} (henv : r.environmentID = env)
    (hid : r.id = request.approvalRequestID) (hnamed : request.approvalRequestID ≠ "")
    (hactive : r.state.isActive = true)
    (hset : changeSet s caller.principal r.versionIDs =
      .ok (selectedSet s caller.principal selection closed))
    (hcause : GateRefusal W s caller env selection r cause) :
    RequestMove W s (.publish caller env request now) s' r
      (r.moved .invalidated (some cause) (some now))
  /-- it is merged or bypassed -/
  | resolved {caller : Identity} {env : EnvId} {request : PublishRequest δ} {now : ℕ}
    {bypass : Bool} {r : ApprovalRequest δ} {policy : ApprovalPolicy}
    {selection : List PendingChange} {closed : List VersionId} {s₁ : ProjectTables δ}
    (henv : r.environmentID = env)
    (h : Delivers W s caller env now bypass r policy selection closed s₁) :
    RequestMove W s (.publish caller env request now)
      (resolveApprovalAfterPublish s₁ now (some ⟨r.id, r.environmentID, bypass⟩)) r
      (r.moved (if bypass then .bypassed else .merged) none (some now))
  /-- a vote finds another policy -/
  | votePolicyChanged {caller : Identity} {env : EnvId} {requestID raw : String} {now : ℕ}
    {s' : ProjectTables δ} {r : ApprovalRequest δ} (hactive : r.state.isActive = true) :
    RequestMove W s (.vote caller env requestID raw now) s' r
      (r.moved .invalidated (some .policyChanged) (some now))
  /-- a vote finds another review -/
  | voteDrifted {caller : Identity} {env : EnvId} {requestID raw : String} {now : ℕ}
    {s' : ProjectTables δ} {r : ApprovalRequest δ} (henv : r.environmentID = env)
    (hactive : r.state.isActive = true) (hmoved : ReviewMoved W.tokens s caller env r) :
    RequestMove W s (.vote caller env requestID raw now) s' r
      (r.moved .invalidated (some (driftCause s env r)) (some now))
  | voteRejected {caller : Identity} {env : EnvId} {requestID raw : String} {now : ℕ}
    {s' : ProjectTables δ} {r : ApprovalRequest δ} (hactive : r.state.isActive = true) :
    RequestMove W s (.vote caller env requestID raw now) s' r (r.moved .rejected none (some now))
  | voteApproved {caller : Identity} {env : EnvId} {requestID raw : String} {now : ℕ}
    {s' : ProjectTables δ} {r : ApprovalRequest δ} (hactive : r.state.isActive = true) :
    RequestMove W s (.vote caller env requestID raw now) s' r (r.moved .approved none none)
  | expired {now share : ℕ} {s' : ProjectTables δ} {r : ApprovalRequest δ}
    (hunresolved : r.resolvedAt = none) :
    RequestMove W s (.expireDue now share) s' r
      (r.moved .expired r.invalidatedCause (some now))

/-- **A request is staged** by a publish of the versions it pins. -/
inductive RequestStaged (W : Server δ) (s : ProjectTables δ) :
    ProjectOp δ → ApprovalRequest δ → Prop
  | staged {caller : Identity} {env coveredEnv : EnvId} {request : PublishRequest δ} {now : ℕ}
    {policy : ApprovalPolicy} {purpose : String} {selection : List PendingChange}
    {closed : List VersionId} (hbare : request.approvalRequestID = "")
    (hset : changeSet s caller.principal request.versionIDs =
      .ok (selectedSet s caller.principal selection closed))
    (hcovered : coveredEnvironment s selection = some (coveredEnv, policy))
    (hone : (selectionEnvs selection).length ≤ 1) :
    RequestStaged W s (.publish caller env request now)
      (newRequest s caller policy coveredEnv
        (selectionDigest W.tokens s caller.principal env selection) now
        (s.newID W.ids "areq").1 purpose request selection closed)

/-- **A vote is recorded**, on an active request whose review is the pinned one. -/
inductive VoteRecorded (W : Server δ) (s : ProjectTables δ) : ProjectOp δ → ApprovalVote → Prop
  | recorded {caller : Identity} {env : EnvId} {requestID raw : String} {now : ℕ}
    {decision : VoteDecision} {req : ApprovalRequest δ}
    (hdecision : VoteDecision.parse raw = some decision)
    (hreq : s.getRequest env requestID = some req) (hactive : req.state.isActive = true)
    (hdigest : requestPreviewDigest W.tokens s caller env req = .ok req.previewTokenDigest) :
    VoteRecorded W s (.vote caller env requestID raw now) (newVote W s caller env req decision now)

section Moves

variable {W : Server δ} {s s' : ProjectTables δ} {op : ProjectOp δ} {r r' : ApprovalRequest δ}

theorem RequestMove.pins (h : RequestMove W s op s' r r') : r'.toRequestPins = r.toRequestPins := by
  cases h <;> rfl

variable {now : ℕ}

/-- What the sweep does to the requests. -/
theorem mem_expireDue {share : ℕ} (h : r' ∈ (expireDue s now share).requests.rows) :
    r' ∈ s.requests.rows ∨ ∃ r ∈ s.requests.rows, r.resolvedAt = none ∧
      r' = r.moved .expired r.invalidatedCause (some now) := by
  unfold expireDue at h
  generalize selectExpired s now share = due at h
  induction due using List.reverseRecOn generalizing r' with
  | nil => exact .inl h
  | append_singleton due d ih =>
    rw [foldl_append] at h
    rcases Table.mem_update.mp h with ⟨r₁, hr₁, hp, rfl⟩ | ⟨hr', -⟩
    · -- the row is not resolved yet, so it is still the row before the sweep
      obtain ⟨-, hunresolved⟩ := of_decide_eq_true hp
      rcases ih hr₁ with hr₁ | ⟨r₀, -, -, rfl⟩
      · exact .inr ⟨r₁, hr₁, hunresolved, rfl⟩
      · cases hunresolved
    · exact ih hr'

variable {caller : Identity} {env : EnvId} {req : ApprovalRequest δ}

/-- A publish and the requests: one is moved, one is staged, or none. -/
theorem PublishEffect.request {request : PublishRequest δ} {reply : PublishReply δ}
    (hnamed : request.approvalRequestID ≠ "")
    (hreq : s.getRequest env request.approvalRequestID = some req)
    (h : PublishEffect W s caller env request (some req) now req.versionIDs s' reply)
    (hr' : r' ∈ s'.requests.rows) : r' ∈ s.requests.rows ∨
      ∃ r ∈ s.requests.rows, RequestMove W s (.publish caller env request now) s' r r' := by
  obtain ⟨hmem, henv, hid⟩ := ProjectTables.getRequest_eq_some hreq
  cases h with
  | staleDraft hloaded hactive hstale =>
    cases hloaded
    subst henv
    rcases (ProjectTables.mem_updateRequestState hmem).mp hr' with rfl | ⟨hold, -⟩
    · exact .inr ⟨_, hmem, .staleDraft rfl hid hnamed hactive hstale⟩
    · exact .inl hold
  | refused hloaded hactive hset hcause =>
    cases hloaded
    rcases (ProjectTables.mem_updateRequestState hmem).mp hr' with rfl | ⟨hold, -⟩
    · exact .inr ⟨_, hmem, .refused henv hid hnamed hactive hset hcause⟩
    · exact .inl hold
  | created _ _ _ hbare => exact absurd hbare hnamed
  | delivered _ hpublish =>
    rw [(writes_publishEnvironments hpublish).requests] at hr'
    exact .inl hr'
  | resolved hloaded hset hcovered hone hresolvable hpolicy hdigest hquorum hpublish =>
    cases hloaded
    have hrequests := (writes_publishEnvironments hpublish).requests
    rcases (ProjectTables.mem_updateRequestState (hrequests ▸ hmem)).mp hr' with rfl | ⟨hold, -⟩
    · exact .inr ⟨_, hmem, .resolved henv
        ⟨hset, hcovered, hone, hresolvable, hpolicy, hdigest, hquorum, hpublish⟩⟩
    · exact .inl (hrequests ▸ hold)

/-- A vote and the requests. -/
theorem VoteEffect.request {requestID raw : String} {decision : VoteDecision}
    (hreq : s.getRequest env requestID = some req) (hactive : req.state.isActive = true)
    (h : VoteEffect W s caller env req decision now s') (hr' : r' ∈ s'.requests.rows) :
    r' ∈ s.requests.rows ∨
      ∃ r ∈ s.requests.rows, RequestMove W s (.vote caller env requestID raw now) s' r r' := by
  obtain ⟨hmem, rfl, -⟩ := ProjectTables.getRequest_eq_some hreq
  cases h with
  | unchanged => exact .inl hr'
  | policyChanged =>
    rcases (ProjectTables.mem_updateRequestState hmem).mp hr' with rfl | ⟨hold, -⟩
    · exact .inr ⟨_, hmem, .votePolicyChanged hactive⟩
    · exact .inl hold
  | drifted hmoved =>
    rcases (ProjectTables.mem_updateRequestState hmem).mp hr' with rfl | ⟨hold, -⟩
    · exact .inr ⟨_, hmem, .voteDrifted rfl hactive hmoved⟩
    · exact .inl hold
  | @cast votes _ _ hcast =>
    have hstate := hcast.state
    have hmem' : req ∈ (withVotes W s votes).requests.rows := hmem
    cases decision with
    | reject =>
      dsimp only at hstate
      subst hstate
      rcases (ProjectTables.mem_updateRequestState hmem').mp hr' with rfl | ⟨hold, -⟩
      · exact .inr ⟨_, hmem, .voteRejected hactive⟩
      · exact .inl hold
    | approve =>
      rcases hstate with rfl | rfl
      · exact .inl hr'
      · rcases (ProjectTables.mem_updateRequestState hmem').mp hr' with rfl | ⟨hold, -⟩
        · exact .inr ⟨_, hmem, .voteApproved hactive⟩
        · exact .inl hold

/-- **Where a request comes from**: it was there, it moved, or it was staged. -/
theorem StepEffect.request (h : StepEffect W s op s') (hr' : r' ∈ s'.requests.rows) :
    r' ∈ s.requests.rows ∨ (∃ r ∈ s.requests.rows, RequestMove W s op s' r r') ∨
      (RequestStaged W s op r' ∧ s.issued < s'.issued) := by
  cases h with
  | unchanged | rotated => exact .inl hr'
  | written h | policyEdit h | catalogue h => exact .inl (h.requests ▸ hr')
  | published hbare h =>
    cases h with
    | staleDraft hloaded | refused hloaded | resolved hloaded => cases hloaded
    | created hset hcovered hone _ hreq hrows =>
      rcases mem_cons.mp (hrows ▸ hr') with rfl | hold
      · exact .inr (.inr ⟨hreq ▸ .staged hbare hset hcovered hone, Nat.lt_succ_self _⟩)
      · exact .inl hold
    | delivered _ hpublish => exact .inl ((writes_publishEnvironments hpublish).requests ▸ hr')
  | publishedRequest hnamed hreq h => exact (h.request hnamed hreq hr').imp id .inl
  | voted _ hreq hactive h => exact (h.request hreq hactive hr').imp id .inl
  | expired =>
    refine (mem_expireDue hr').imp id fun hmoved => .inl ?_
    obtain ⟨r, hr, hunresolved, rfl⟩ := hmoved
    exact ⟨r, hr, .expired hunresolved⟩
  | deleted => exact .inl (Table.Keyed.mem_delete.mp hr').1

end Moves

/-! ## Votes and drafts -/

section Rows

variable {W : Server δ} {s s' : ProjectTables δ} {op : ProjectOp δ}

/-- **Where a vote comes from.** A recorded reject leaves its request rejected. -/
theorem StepEffect.vote (h : StepEffect W s op s') {v : ApprovalVote} (hv : v ∈ s'.votes.rows) :
    v ∈ s.votes.rows ∨ (VoteRecorded W s op v ∧
      (v.decision = .reject → ∀ r ∈ s'.requests.rows, r.id = v.requestID → r.state = .rejected)) := by
  cases h with
  | unchanged | rotated => exact .inl hv
  | written h | policyEdit h | catalogue h => exact .inl (h.votes ▸ hv)
  | published _ h | publishedRequest _ _ h =>
    obtain ⟨s₁, hwrites, -, hvotes⟩ := h.frame
    exact .inl (hwrites.votes ▸ hvotes ▸ hv)
  | @voted caller env requestID raw now _ decision req hdecision hreq hactive h =>
    obtain ⟨hmem, rfl, -⟩ := ProjectTables.getRequest_eq_some hreq
    cases h with
    | unchanged | policyChanged | drifted => exact .inl hv
    | @cast votes _ hdigest hcast =>
      have hstate := hcast.state
      have hvotes : s'.votes = votes := by
        cases decision with
        | reject => exact hstate ▸ rfl
        | approve => exact hstate.elim (fun h => h ▸ rfl) fun h => h ▸ rfl
      rw [hvotes, hcast.rows] at hv
      rcases mem_cons.mp hv with rfl | hold
      · refine .inr ⟨.recorded hdecision hreq hactive hdigest, fun hreject r hr hid => ?_⟩
        have hdecision' : decision = .reject := hreject
        subst hdecision'
        dsimp only at hstate
        subst hstate
        have hmem' : req ∈ (withVotes W s votes).requests.rows := hmem
        rcases (ProjectTables.mem_updateRequestState hmem').mp hr with rfl | ⟨-, hne⟩
        · rfl
        · exact absurd hid hne
      · exact .inl hold
  | expired => exact .inl ((reviewEdit_expireDue s _ _).2 ▸ hv)
  | deleted => exact .inl (Table.Keyed.mem_delete.mp hv).1

/-- What a step does to the counter and the drafts: a draft that appears has a new
identifier. -/
theorem StepEffect.drafts (h : StepEffect W s op s') : s.issued ≤ s'.issued ∧ ∀ c ∈ s'.pending.rows,
      c ∈ s.pending.rows ∨ MintedBetween W.ids s.issued s'.issued "pcv" c.id := by
  cases h with
  | unchanged | rotated => exact ⟨le_refl _, fun _ hc => .inl hc⟩
  | written h => exact ⟨h.issued, fun c hc => (h.drafts c hc).imp id And.left⟩
  | policyEdit h => exact ⟨h.issued, fun c hc => .inl (h.pending ▸ hc)⟩
  | published _ h | publishedRequest _ _ h =>
    obtain ⟨s₁, hwrites, hreview, -⟩ := h.frame
    refine ⟨le_trans hwrites.issued hreview.issued, fun c hc => ?_⟩
    exact (hwrites.drafts c (hreview.pending ▸ hc)).imp id
      fun hnew => hnew.1.mono (le_refl _) hreview.issued
  | voted _ _ _ h => exact ⟨h.reviewEdit.issued, fun c hc => .inl (h.reviewEdit.pending ▸ hc)⟩
  | @expired now share =>
    have hreview := (reviewEdit_expireDue s now share).1
    exact ⟨hreview.issued, fun c hc => .inl (hreview.pending ▸ hc)⟩
  | deleted => exact ⟨le_refl _, fun c hc => .inl (Table.Keyed.mem_delete.mp hc).1⟩
  | catalogue h =>
    refine ⟨h.issued, fun c hc => (h.drafts c hc).imp ?_ And.left⟩
    exact fun hold => (Table.Keyed.mem_delete.mp hold).1

/-- The token key moves by a rotation only. -/
theorem StepEffect.tokenKey (h : StepEffect W s op s') (hop : op ≠ .rotateTokenKey) :
    s'.tokenKey = s.tokenKey := by
  cases h with
  | unchanged | deleted => rfl
  | written h | policyEdit h | catalogue h => exact h.tokenKey
  | published _ h | publishedRequest _ _ h =>
    obtain ⟨s₁, hwrites, hreview, -⟩ := h.frame
    exact hreview.tokenKey.trans hwrites.tokenKey
  | voted _ _ _ h => exact h.reviewEdit.tokenKey
  | @expired now share => exact (reviewEdit_expireDue s now share).1.tokenKey
  | rotated => exact absurd rfl hop

/-- Every draft is for a declared key. -/
def DraftsDeclared (s : ProjectTables δ) : Prop :=
  ∀ c ∈ s.pending.rows, (s.keyByID c.keyID).isSome

/-- A write stages drafts of declared keys. -/
theorem DraftsDeclared.writes {ids : IDSource} {E : EnvId → Prop} (hs : DraftsDeclared s)
    (h : Writes ids E s s') : DraftsDeclared s' := by
  intro c hc
  rw [h.keyByID]
  exact (h.drafts c hc).elim (hs c) And.right

theorem DraftsDeclared.congr (hs : DraftsDeclared s) (hkeys : s'.keys = s.keys)
    (hpending : s'.pending = s.pending) : DraftsDeclared s' := by
  intro c hc
  unfold ProjectTables.keyByID
  rw [hkeys]
  exact hs c (hpending ▸ hc)

theorem StepEffect.draftsDeclared (hs : DraftsDeclared s) (h : StepEffect W s op s') :
    DraftsDeclared s' := by
  cases h with
  | unchanged | rotated => exact hs
  | written h => exact hs.writes h
  | policyEdit h => exact hs.congr h.keys h.pending
  | published _ h | publishedRequest _ _ h =>
    obtain ⟨s₁, hwrites, hreview, -⟩ := h.frame
    exact (hs.writes hwrites).congr hreview.keys hreview.pending
  | voted _ _ _ h => exact hs.congr h.reviewEdit.keys h.reviewEdit.pending
  | @expired now share =>
    have hreview := (reviewEdit_expireDue s now share).1
    exact hs.congr hreview.keys hreview.pending
  | deleted => exact fun c hc => hs c (Table.Keyed.mem_delete.mp hc).1
  | @catalogue caller keys _ h =>
    have hcatalogue : DraftsDeclared (withCatalogue s keys) := by
      intro c hc
      have hkey := of_decide_eq_false (Table.Keyed.mem_delete.mp hc).2
      obtain ⟨key, hmem, hid⟩ := mem_map.mp (not_not.mp hkey)
      exact ProjectTables.isSome_keyByID.mpr ⟨key, hmem, hid⟩
    exact hcatalogue.writes h

end Rows

/-! ## Sound tables -/

/-- **What holds of the tables in every run**: identifiers were minted, drafts are
for declared keys, a request is resolved exactly when it is not active, and a
rejected vote stands on a rejected request. -/
structure Sound (ids : IDSource) (s : ProjectTables δ) : Prop where
  drafts : ∀ c ∈ s.pending.rows, MintedBetween ids 0 s.issued "pcv" c.id
  declared : DraftsDeclared s
  requests : ∀ r ∈ s.requests.rows, MintedBetween ids 0 s.issued "areq" r.id
  resolved : ∀ r ∈ s.requests.rows, r.resolvedAt = none ↔ r.state.isActive = true
  votes : ∀ v ∈ s.votes.rows, MintedBetween ids 0 s.issued "areq" v.requestID
  rejected : ∀ v ∈ s.votes.rows, v.decision = .reject →
    ∀ r ∈ s.requests.rows, r.id = v.requestID → r.state = .rejected

section SoundLemmas

variable {W : Server δ} {s s' : ProjectTables δ} {op : ProjectOp δ} {r r' : ApprovalRequest δ}

theorem Sound.init (ids : IDSource) (org : OrgId) (project : ProjectId) (directory : Directory) :
    Sound ids (.init org project directory : ProjectTables δ) where
  drafts _ hc := absurd hc not_mem_nil
  declared _ hc := absurd hc not_mem_nil
  requests _ hr := absurd hr not_mem_nil
  resolved _ hr := absurd hr not_mem_nil
  votes _ hv := absurd hv not_mem_nil
  rejected _ hv := absurd hv not_mem_nil

/-- Only an active request moves. -/
theorem RequestMove.active (hs : Sound W.ids s) (hr : r ∈ s.requests.rows)
    (h : RequestMove W s op s' r r') : r.state.isActive = true := by
  cases h with
  | staleDraft _ _ _ hactive | refused _ _ _ hactive => exact hactive
  | resolved _ h => exact h.resolvable.active
  | votePolicyChanged hactive | voteDrifted _ hactive | voteRejected hactive => exact hactive
  | voteApproved hactive => exact hactive
  | expired hunresolved => exact (hs.resolved r hr).mp hunresolved

theorem RequestMove.resolved_iff (h : RequestMove W s op s' r r') :
    r'.resolvedAt = none ↔ r'.state.isActive = true := by
  cases h with
  | @resolved _ _ _ _ bypass => cases bypass <;> simp [ApprovalRequest.moved, RequestState.isActive]
  | _ => simp [ApprovalRequest.moved, RequestState.isActive]

/-- A staged request is open under a new identifier. -/
theorem RequestStaged.fresh (h : RequestStaged W s op r) :
    r.id = mintedID W.ids "areq" s.issued ∧ r.state = .opened ∧ r.resolvedAt = none := by
  cases h
  exact ⟨rfl, rfl, rfl⟩

theorem RequestStaged.minted (h : RequestStaged W s op r) (hissued : s.issued < s'.issued) :
    MintedBetween W.ids s.issued s'.issued "areq" r.id :=
  ⟨s.issued, le_refl _, hissued, h.fresh.1⟩

/-- **Every step keeps the tables sound.** -/
theorem Sound.step (hs : Sound W.ids s) (h : StepEffect W s op s') : Sound W.ids s' := by
  have hissued := h.drafts.1
  have hminted : ∀ r ∈ s'.requests.rows, MintedBetween W.ids 0 s'.issued "areq" r.id := by
    intro r' hr'
    rcases h.request hr' with hold | ⟨r, hr, hmove⟩ | ⟨hstaged, hlt⟩
    · exact (hs.requests r' hold).mono (le_refl _) hissued
    · have hid : r'.id = r.id := congrArg RequestPins.id hmove.pins
      exact hid ▸ (hs.requests r hr).mono (le_refl _) hissued
    · exact (hstaged.minted hlt).mono (Nat.zero_le _) (le_refl _)
  refine ⟨fun c hc => ?_, h.draftsDeclared hs.declared, hminted, fun r' hr' => ?_, fun v hv => ?_,
    fun v hv hreject r' hr' hid => ?_⟩
  · rcases h.drafts.2 c hc with hold | hnew
    · exact (hs.drafts c hold).mono (le_refl _) hissued
    · exact hnew.mono (Nat.zero_le _) (le_refl _)
  · rcases h.request hr' with hold | ⟨r, hr, hmove⟩ | ⟨hstaged, -⟩
    · exact hs.resolved r' hold
    · exact hmove.resolved_iff
    · obtain ⟨-, hstate, hresolved⟩ := hstaged.fresh
      simp [hstate, hresolved, RequestState.isActive]
  · rcases h.vote hv with hold | ⟨hrecorded, -⟩
    · exact (hs.votes v hold).mono (le_refl _) hissued
    · cases hrecorded with
      | recorded _ hreq =>
        have hmem := (ProjectTables.getRequest_eq_some hreq).1
        exact (hs.requests _ hmem).mono (le_refl _) hissued
  · rcases h.vote hv with hold | ⟨-, hrejected⟩
    · rcases h.request hr' with hr | ⟨r, hr, hmove⟩ | ⟨hstaged, hlt⟩
      · exact hs.rejected v hold hreject r' hr hid
      · -- a rejected request does not move
        have hactive := hmove.active hs hr
        have hid' : r.id = v.requestID := (congrArg RequestPins.id hmove.pins).symm.trans hid
        rw [hs.rejected v hold hreject r hr hid'] at hactive
        cases hactive
      · exact absurd hid.symm ((hs.votes v hold).ne (hstaged.minted hlt))
    · exact hrejected hreject r' hr' hid

end SoundLemmas

/-! ## From one state to a later one -/

/-- A request later: unchanged, or it was active and keeps its pins. -/
def Evolves (r r' : ApprovalRequest δ) : Prop :=
  r' = r ∨ (r.state.isActive = true ∧ r'.toRequestPins = r.toRequestPins)

theorem Evolves.pins {r r' : ApprovalRequest δ} (h : Evolves r r') :
    r'.toRequestPins = r.toRequestPins := by
  rcases h with rfl | h
  · rfl
  · exact h.2

theorem Evolves.trans {r r₁ r' : ApprovalRequest δ} (h : Evolves r r₁) (h' : Evolves r₁ r') :
    Evolves r r' := by
  rcases h with rfl | ⟨hactive, hpins⟩
  · exact h'
  · exact .inr ⟨hactive, h'.pins.trans hpins⟩

/-- **A later state of a run**: what is in its tables was there and is the same
draft, or the same request in a later state, or has an identifier minted in
between. -/
structure Follows (ids : IDSource) (s s' : ProjectTables δ) : Prop where
  issued : s.issued ≤ s'.issued
  drafts : ∀ c ∈ s'.pending.rows,
    c ∈ s.pending.rows ∨ MintedBetween ids s.issued s'.issued "pcv" c.id
  requests : ∀ r' ∈ s'.requests.rows, (∃ r ∈ s.requests.rows, Evolves r r') ∨
    MintedBetween ids s.issued s'.issued "areq" r'.id

namespace Follows

variable {ids : IDSource} {s s₁ s' : ProjectTables δ}

theorem refl (s : ProjectTables δ) : Follows ids s s :=
  ⟨le_refl _, fun _ hc => .inl hc, fun r hr => .inl ⟨r, hr, .inl rfl⟩⟩

theorem trans (h : Follows ids s s₁) (h' : Follows ids s₁ s') : Follows ids s s' where
  issued := le_trans h.issued h'.issued
  drafts c hc := by
    rcases h'.drafts c hc with hc | hnew
    · exact (h.drafts c hc).imp id fun hnew => hnew.mono (le_refl _) h'.issued
    · exact .inr (hnew.mono h.issued (le_refl _))
  requests r' hr' := by
    rcases h'.requests r' hr' with ⟨r₁, hr₁, hevolves⟩ | hnew
    · rcases h.requests r₁ hr₁ with ⟨r, hr, hbefore⟩ | hnew
      · exact .inl ⟨r, hr, hbefore.trans hevolves⟩
      · have hid : r'.id = r₁.id := congrArg RequestPins.id hevolves.pins
        exact .inr (hid ▸ hnew.mono (le_refl _) h'.issued)
    · exact .inr (hnew.mono h.issued (le_refl _))

/-- A step leads to a later state. -/
theorem step {W : Server δ} {op : ProjectOp δ} (hs : Sound W.ids s) (h : StepEffect W s op s') :
    Follows W.ids s s' where
  issued := h.drafts.1
  drafts := h.drafts.2
  requests r' hr' := by
    rcases h.request hr' with hold | ⟨r, hr, hmove⟩ | ⟨hstaged, hlt⟩
    · exact .inl ⟨r', hold, .inl rfl⟩
    · exact .inl ⟨r, hr, .inr ⟨hmove.active hs hr, hmove.pins⟩⟩
    · exact .inr (hstaged.minted hlt)

/-- **A draft is never edited under its identifier.** -/
theorem draft_eq (hs : Sound ids s) (h : Follows ids s s') {c c' : PendingChange}
    (hc : c ∈ s.pending.rows) (hc' : c' ∈ s'.pending.rows) (hid : c.id = c'.id) : c = c' := by
  rcases h.drafts c' hc' with hold | hnew
  · exact s.pending.eq_of_key hc hold hid
  · exact absurd hid ((hs.drafts c hc).ne hnew)

/-- **A request keeps its pins**, and stays as it is once it has ended. -/
theorem evolves (hs : Sound ids s) (h : Follows ids s s') {r r' : ApprovalRequest δ}
    (hr : r ∈ s.requests.rows) (hr' : r' ∈ s'.requests.rows) (hid : r.id = r'.id) : Evolves r r' := by
  rcases h.requests r' hr' with ⟨r₀, hr₀, hevolves⟩ | hnew
  · have hsame : r₀ = r :=
      s.requests.eq_of_key hr₀ hr ((congrArg RequestPins.id hevolves.pins).symm.trans hid.symm)
    exact hsame ▸ hevolves
  · exact absurd hid ((hs.requests r hr).ne hnew)

end Follows

/-! ## Recorded runs -/

variable [DecidableEq δ]

/-- The step that staged a request, in the past of a run. -/
def StagedIn (W : Server δ) (past : List (ProjectTables δ × ProjectOp δ)) (r : ApprovalRequest δ) :
    Prop :=
  ∃ p ∈ past, ∃ r₀ ∈ (p.1.step W p.2).requests.rows, RequestStaged W p.1 p.2 r₀ ∧
    r.toRequestPins = r₀.toRequestPins

/-- **What a recorded run remembers**: the states before its operations, of which
the present one is a later state; the publish that staged each request; and the
call that cast each vote. -/
structure Remembers (W : Server δ) (h : Tx.Recorded (ProjectTables δ) (ProjectOp δ)) : Prop where
  sound : Sound W.ids h.now
  past : ∀ p ∈ h.past, Sound W.ids p.1 ∧ Follows W.ids p.1 h.now ∧
    Follows W.ids (p.1.step W p.2) h.now
  ordered : h.past.Pairwise fun q p => Follows W.ids p.1 q.1
  staged : ∀ r ∈ h.now.requests.rows, StagedIn W h.past r
  votes : ∀ v ∈ h.now.votes.rows, ∃ p ∈ h.past, VoteRecorded W p.1 p.2 v

variable {W : Server δ}

variable {h : Tx.Recorded (ProjectTables δ) (ProjectOp δ)}

theorem Remembers.record (hh : Remembers W h)
    (op : ProjectOp δ) : Remembers W (Tx.record (ProjectTables.step W) h op) := by
  have heffect := stepEffect W h.now op
  have hfollows := Follows.step hh.sound heffect
  refine ⟨hh.sound.step heffect, fun p hp => ?_,
    pairwise_cons.mpr ⟨fun p hp => (hh.past p hp).2.1, hh.ordered⟩, fun r hr => ?_,
    fun v hv => ?_⟩
  · rcases mem_cons.mp hp with rfl | hp
    · exact ⟨hh.sound, hfollows, Follows.refl _⟩
    · obtain ⟨hsound, hfrom, hafter⟩ := hh.past p hp
      exact ⟨hsound, hfrom.trans hfollows, hafter.trans hfollows⟩
  · have hkeep : ∀ r₁ ∈ h.now.requests.rows, r.toRequestPins = r₁.toRequestPins →
        StagedIn W ((h.now, op) :: h.past) r := by
      intro r₁ hr₁ hpins
      obtain ⟨p, hp, r₀, hr₀, hstaged, hpins₀⟩ := hh.staged r₁ hr₁
      exact ⟨p, mem_cons_of_mem _ hp, r₀, hr₀, hstaged, hpins.trans hpins₀⟩
    rcases heffect.request hr with hold | ⟨r₁, hr₁, hmove⟩ | ⟨hstaged, -⟩
    · exact hkeep r hold rfl
    · exact hkeep r₁ hr₁ hmove.pins
    · exact ⟨_, mem_cons_self, r, hr, hstaged, rfl⟩
  · rcases heffect.vote hv with hold | ⟨hrecorded, -⟩
    · obtain ⟨p, hp, hrecorded⟩ := hh.votes v hold
      exact ⟨p, mem_cons_of_mem _ hp, hrecorded⟩
    · exact ⟨_, mem_cons_self, hrecorded⟩

/-- Of two remembered states one is a later state of the other. -/
theorem Remembers.follows_or (hh : Remembers W h) {p q : ProjectTables δ × ProjectOp δ}
    (hp : p ∈ h.past) (hq : q ∈ h.past) : Follows W.ids p.1 q.1 ∨ Follows W.ids q.1 p.1 := by
  have : Std.Symm fun p q : ProjectTables δ × ProjectOp δ =>
      Follows W.ids p.1 q.1 ∨ Follows W.ids q.1 p.1 := ⟨fun _ _ => Or.symm⟩
  have hordered : h.past.Pairwise fun p q => Follows W.ids p.1 q.1 ∨ Follows W.ids q.1 p.1 :=
    hh.ordered.imp .inr
  refine List.Pairwise.forall_of_forall (fun p _ => ?_) hordered hp hq
  exact .inl (Follows.refl p.1)

/-- **Every run of a new project remembers.** -/
theorem remembers_history (org : OrgId) (project : ProjectId) (directory : Directory)
    (ops : List (ProjectOp δ)) :
    Remembers W (Tx.history (ProjectTables.step W) (.init org project directory) ops) :=
  Tx.exec_invariant (Remembers W) (fun _ op hh => hh.record op) ops _
    ⟨Sound.init _ org project directory, fun _ hp => absurd hp not_mem_nil, List.Pairwise.nil,
      fun _ hr => absurd hr not_mem_nil, fun _ hv => absurd hv not_mem_nil⟩

/-! ## Versions and requests over a whole run -/

section Runs

variable (W) (org : OrgId) (project : ProjectId) (directory : Directory)

/-- A run leads from a sound state to a later one. -/
theorem Sound.exec {s : ProjectTables δ} (hs : Sound W.ids s) (ops : List (ProjectOp δ)) :
    Sound W.ids (Tx.exec (ProjectTables.step W) s ops) ∧
      Follows W.ids s (Tx.exec (ProjectTables.step W) s ops) := by
  refine Tx.exec_invariant (fun s' => Sound W.ids s' ∧ Follows W.ids s s') (fun s' op hs' => ?_)
    ops s ⟨hs, Follows.refl s⟩
  have heffect := stepEffect W s' op
  exact ⟨hs'.1.step heffect, hs'.2.trans (Follows.step hs'.1 heffect)⟩

/-- **A version names one draft for ever.** Two drafts of a run with one identifier are the same
draft, and an identifier whose draft was superseded, discarded or published never comes back: what
a reviewer or a publish names by version is what was staged under it. -/
theorem version_names_one_draft (ops later last : List (ProjectOp δ)) :
    let s := Tx.exec (ProjectTables.step W) (.init org project directory) ops
    let s' := Tx.exec (ProjectTables.step W) s later
    (∀ c ∈ s.pending.rows, ∀ c' ∈ s'.pending.rows, c'.id = c.id → c' = c) ∧
      ∀ c ∈ s.pending.rows, c ∉ s'.pending.rows →
        ∀ c' ∈ (Tx.exec (ProjectTables.step W) s' last).pending.rows, c'.id ≠ c.id := by
  intro s s'
  obtain ⟨hs, -⟩ := (Sound.init W.ids org project directory).exec W ops
  obtain ⟨hs', hlater⟩ := hs.exec W later
  obtain ⟨-, hlast⟩ := hs'.exec W last
  have hsame : ∀ c ∈ s.pending.rows, ∀ c' ∈ s'.pending.rows, c'.id = c.id → c' = c :=
    fun c hc c' hc' hid => (hlater.draft_eq hs hc hc' hid.symm).symm
  refine ⟨hsame, fun c hc hgone c' hc' hid => ?_⟩
  rcases hlast.drafts c' hc' with hold | hnew
  · exact hgone (hsame c hc c' hold hid ▸ hold)
  · exact ((hs.drafts c hc).mono le_rfl hlater.issued).ne hnew hid.symm

/-- **Requests and votes agree.** After every run a request is active exactly while it has no
time of resolution, a vote to reject stands only on a request that was rejected, and every request
and vote bears an identifier that was issued for a request. -/
theorem requests_and_votes_agree (ops : List (ProjectOp δ)) :
    let s := Tx.exec (ProjectTables.step W) (.init org project directory) ops
    (∀ r ∈ s.requests.rows, (r.resolvedAt = none ↔ r.state.isActive = true) ∧
      MintedBetween W.ids 0 s.issued "areq" r.id) ∧
    ∀ v ∈ s.votes.rows, MintedBetween W.ids 0 s.issued "areq" v.requestID ∧
      (v.decision = .reject → ∀ r ∈ s.requests.rows, r.id = v.requestID → r.state = .rejected) := by
  intro s
  obtain ⟨hs, -⟩ := (Sound.init W.ids org project directory).exec W ops
  exact ⟨fun r hr => ⟨hs.resolved r hr, hs.requests r hr⟩,
    fun v hv => ⟨hs.votes v hv, hs.rejected v hv⟩⟩

end Runs

end Hikyo
