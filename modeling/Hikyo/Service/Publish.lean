import Hikyo.Store.TableChanges
import Hikyo.Service.Approvals

/-!
# Publishing

A publish commits a selection of the caller's own drafts, in one transaction that
holds the project's lock. The selection is resolved and closed, its keys are
authorized, the approval gate decides, and only then each environment of the
selection is checked for freshness, resolved, validated and written, its drafts
are dropped and its next snapshot is inserted (`materialize`). A merge names a
request instead of versions, and publishes the versions the request pins.

Everything else that writes published values ends in `republish`, which inserts
the next snapshot of an environment from what is published. Whether a policy that
covers the environment stops it depends on the `Trigger` it is called with.

`publishPlanned_eq_ok` lists everything a publish that commits can have done.
-/

namespace Hikyo

open List
open Tx (ensure bind_ok skip except_bind_eq_ok checked)

variable {δ : Type}

/-! ## Materializing -/

section

variable (W : Server δ) (s : ProjectTables δ) (env : EnvId) (applies : List PendingChange)

/-- The applied change of a key; a later one wins. -/
def applyFor (key : KeyId) : Option PendingChange :=
  applies.reverse.find? fun a => a.keyID = key

/-- The cells an environment would deliver: what is published, overridden by the
selection. -/
def resolvedCells : List (CatalogueKey × Option String) :=
  s.keys.rows.map fun key =>
    (key, match applyFor applies key.id with
      | some a => if a.operation = .set then some a.value else none
      | none => (s.valueEntry env key.id).map ValueEntry.value)

/-- The cell of one key moves if a change of it is applied. -/
def writeApply (s : ProjectTables δ) (key : CatalogueKey) : ProjectTables δ :=
  match applyFor applies key.id with
  | none => s
  | some a =>
    if a.operation = .set then s.putCell W.ids env key.id (W.normalize key a.value)
    else s.clearCell env key.id

/-- **The publish primitive**: resolve, validate, write, and insert the next
snapshot. -/
def materialize : Except ServiceError (ProjectTables δ) :=
  match s.directory.resolvedRefusal env (resolvedCells s env applies) with
  | some detail => .error (.invalid detail)
  | none => .ok ((s.keys.rows.foldl (writeApply W env applies) s).advance env)

/-- What a snapshot outside a publish of drafts comes from. -/
inductive Trigger where
  | declare
  | imported
  | copy
  | bulkApply
  | clone
  | environmentCreate
  /-- a change of the catalogue, in every environment -/
  | schema
deriving DecidableEq, Repr

/-- The triggers a covering policy refuses. -/
def approvalGatedTrigger : Trigger → Bool
  | .imported | .copy | .bulkApply | .clone => true
  | .declare | .environmentCreate | .schema => false

/-- **Insert the next snapshot from what is published**, with no drafts applied. -/
def republish (caller : Identity) (env : EnvId)
    (trigger : Trigger) : Except ServiceError (ProjectTables δ) := do
  authorize s caller .valuePublish env
  ensure (approvalGatedTrigger trigger = true → s.coveringPolicy env = none) .approvalRequired
  materialize W s env []

/-! ## Delivering a selection -/

/-- The published row of every cell is the one the draft was staged against. -/
def checkFreshness (s : ProjectTables δ) (env : EnvId) : List PendingChange → Except ServiceError Unit
  | [] => .ok ()
  | a :: applies =>
    if s.publishedEntry env a.keyID = a.stagedFromEntry then checkFreshness s env applies
    else
      match s.keyByID a.keyID with
      | none => .error (.stalePending
          ("version " ++ a.id ++ " names key " ++ a.keyID ++ ", which is no longer declared"))
      | some key => .error (.stalePending
          ("version " ++ a.id ++ " targets key " ++ key.name ++
            ", whose published value has changed since the draft was staged at revision " ++
            toString a.stagedFromRevision ++ ": restage the edit against the current state"))

/-- A published draft is dropped. -/
def discardApplied (s : ProjectTables δ) (a : PendingChange) :
    Except ServiceError (ProjectTables δ) :=
  if ∃ c ∈ s.pending.rows, c.environmentID = env ∧ c.id = a.id then .ok (s.discard env a.id)
  else .error (.stalePending ("version " ++ a.id ++ " vanished mid-publish"))

/-- One environment of a publish. -/
def publishEnvironment (selection : List PendingChange) (s : ProjectTables δ)
    (env : EnvId) : Except ServiceError (ProjectTables δ) := do
  checkFreshness s env (appliesOf selection env)
  let s ← materialize W s env (appliesOf selection env)
  (appliesOf selection env).foldlM (discardApplied env) s

/-- The first name that was seen before. -/
def firstDuplicateFrom (seen : List String) : List String → Option String
  | [] => none
  | name :: names =>
    if name ∈ seen then some name else firstDuplicateFrom (name :: seen) names

def firstDuplicate (names : List String) : Option String := firstDuplicateFrom [] names

/-- Refuse a list that names something twice. -/
def ensureDistinct (names : List String) (detail : String → String) : Except ServiceError Unit :=
  match firstDuplicate names with
  | some dup => .error (.invalid (detail dup))
  | none => .ok ()

/-- A machine confirms exactly the protected environments of the publish. -/
def checkConfirmed (isProtected confirmed : List EnvId) : Except ServiceError Unit := do
  ensureDistinct confirmed fun dup =>
    "protected environment " ++ dup ++ " is confirmed more than once"
  match isProtected.find? fun env => env ∉ confirmed with
  | some env => .error (.protectedDestination env)
  | none =>
    ensure (confirmed = isProtected)
      (.invalid "protected-environment confirmation does not match the reviewed protected set")

/-- The ceremony of each protected environment. -/
def requireCeremonies (s : ProjectTables δ) (caller : Identity) (selection : List PendingChange) :
    List EnvId → Except ServiceError Unit
  | [] => .ok ()
  | env :: envs => do
    requireCeremony s caller ⟨.publish, env, selectionKeyIDs (appliesOf selection env)⟩
    requireCeremonies s caller selection envs

/-- A machine confirms the protected environments, a human takes their ceremonies;
a bypass has consumed one already. -/
def checkProtected (caller : Identity) (confirmed : List EnvId)
    (selection : List PendingChange) (bypass : Bool) : Except ServiceError Unit :=
  let isProtected := (selectionEnvs selection).filter s.isProtected
  if skipsCeremony caller then checkConfirmed isProtected (Table.orderBy id confirmed)
  else do
    ensure (confirmed = [])
      (.invalid "human protected-environment confirmation is supplied by the bound ceremony")
    if bypass then .ok () else requireCeremonies s caller selection isProtected

/-- What a publish answers. -/
inductive PublishReply (δ : Type) where
  /-- the versions that were published, those of them that were pulled in, and the
  revisions of the environments -/
  | published (versions closedIn : List VersionId) (environments : List (EnvId × ℕ))
  | created (req : ApprovalRequest δ)
  | refused (e : ServiceError)

/-- The request a delivery resolves, its environment, and whether by a bypass. -/
structure Resolution where
  requestID : String
  coveredEnv : EnvId
  bypass : Bool
deriving DecidableEq, Repr

/-- The state the request is left in. -/
def Resolution.state (r : Resolution) : RequestState := if r.bypass then .bypassed else .merged

/-- `resolveApprovalAfterPublish`, if there is a request. -/
def resolveApprovalAfterPublish (now : ℕ) : Option Resolution → ProjectTables δ
  | none => s
  | some r => s.updateRequestState r.coveredEnv r.requestID r.state none (some now)

/-- Deliver a selection that passed the gate. -/
def deliver (caller : Identity) (request : PublishRequest δ)
    (selection : List PendingChange) (closed : List VersionId) (resolution : Option Resolution)
    (now : ℕ) : Except ServiceError (ProjectTables δ × PublishReply δ) := do
  checkProtected s caller request.confirmedProtectedEnvironments selection
    (resolution.any Resolution.bypass)
  let s ← (selectionEnvs selection).foldlM (publishEnvironment W selection) s
  return (resolveApprovalAfterPublish s now resolution,
    .published (Table.orderBy id (selection.map PendingChange.id)) closed
      ((selectionEnvs selection).map fun env => (env, s.currentRevision env)))

/-! ## The transaction -/

/-- Every selected change needs publish on its key, in its environment. -/
def authorizeSelected (s : ProjectTables δ) (caller : Identity) :
    List PendingChange → Except ServiceError Unit
  | [] => .ok ()
  | c :: selected => do
    authorizeKey s caller .valuePublish c.environmentID (.byID c.keyID)
    authorizeSelected s caller selected

/-- `AuthorizePublishKeys`. -/
def authorizePublishKeys (caller : Identity) (env : EnvId) (ids : List KeyId) :
    Except ServiceError Unit := do
  ensure (ids ≠ []) (.internal "authz: empty publish key selection")
  authorizeKeys s caller .valuePublish env ids

/-- The closed selection: no environment was added, and publish is held on every
key. -/
def authorizeSelection (s : ProjectTables δ) (caller : Identity) (selected selection : List PendingChange) :
    List EnvId → Except ServiceError Unit
  | [] => .ok ()
  | env :: envs => do
    ensure (env ∈ selectionEnvs selected)
      (.internal ("service: key-group closure added environment " ++ env))
    authorizePublishKeys s caller env ((appliesOf selection env).map PendingChange.keyID)
    authorizeSelection s caller selected selection envs

/-- A stale draft invalidates the active request it is pinned by; the invalidation
commits. -/
def refuseStaleDraft (loaded : Option (ApprovalRequest δ))
    (e : ServiceError) (now : ℕ) : Except ServiceError (ProjectTables δ × PublishReply δ) :=
  match loaded.filter fun req => req.state.isActive, e with
  | some req, .stalePending _ =>
    .ok (commitInvalidation s env req .draftEdited now, .refused (staleRefusal .draftEdited))
  | _, e => .error e

end

section Publish

variable [DecidableEq δ] (W : Server δ) (s : ProjectTables δ) (caller : Identity) (env : EnvId)
  (request : PublishRequest δ) (loaded : Option (ApprovalRequest δ)) (now : ℕ)

/-- A restore draft takes its preview, unless a request pins it. -/
def checkPreview (selection : List PendingChange) : Except ServiceError Unit :=
  ensure ((∃ c ∈ selection, c.source = .restore) → request.approvalRequestID = "" →
    request.previewToken = some (publishPreviewToken W.tokens s caller.principal env selection))
    .stalePreview

/-- The publish of a closed selection. -/
def publishSelected (selected selection : List PendingChange) (closed : List VersionId) :
    Except ServiceError (ProjectTables δ × PublishReply δ) := do
  authorizeSelection s caller selected selection (selectionEnvs selection)
  checkPreview W s caller env request selection
  match ← approvalGate W s caller env request loaded selection closed now with
  | .ungated => deliver W s caller request selection closed none now
  | .resolve id coveredEnv bypass =>
    deliver W s caller request selection closed (some ⟨id, coveredEnv, bypass⟩) now
  | .created s req => return (s, .created req)
  | .refused s cause => return (s, .refused (staleRefusal cause))

/-- The publish of named versions. -/
def publishVersions (versionIDs : List VersionId) :
    Except ServiceError (ProjectTables δ × PublishReply δ) :=
  match resolveVersions s caller.principal versionIDs with
  | .error e => refuseStaleDraft s env loaded e now
  | .ok selected => do
    authorizeSelected s caller selected
    match selectVersions s caller.principal
        (fun e key => authorizeKey s caller .valuePublish e (.byID key)) selected with
    | .error e => refuseStaleDraft s env loaded e now
    | .ok (selection, closed) =>
      publishSelected W s caller env request loaded now selected selection closed

/-- The key a publish is admitted by, before its selection is read. -/
def publishKey : KeyTarget :=
  if request.approvalRequestID ≠ "" then .approvalRequest request.approvalRequestID
  else .pendingVersion (request.versionIDs.headD "")

/-- **A publish**, addressed to the environment `env`. -/
def publishPlanned : Except ServiceError (ProjectTables δ × PublishReply δ) := do
  ensure (env ≠ "") (.invalid "a publish addresses an environment")
  ensure (request.versionIDs ≠ [] ∨ request.approvalRequestID ≠ "")
    (.invalid "a publish names the pending changes it commits")
  ensureDistinct request.versionIDs fun dup =>
    "pending change " ++ dup ++ " is named more than once"
  authorizeKey s caller .valuePublish env (publishKey request)
  if request.approvalRequestID = "" then
    publishVersions W s caller env request none now request.versionIDs
  else
    match s.getRequest env request.approvalRequestID with
    | none => .error .hidden
    | some req => publishVersions W s caller env request (some req) now req.versionIDs

end Publish

/-! ## What is written -/

section Written

variable {W : Server δ} {s s' : ProjectTables δ} {caller : Identity} {env : EnvId}
  {applies selection : List PendingChange}

theorem writes_writeApply (s : ProjectTables δ) (key : CatalogueKey) :
    Writes W.ids (fun e => e = env ∧ applies ≠ []) s (writeApply W env applies s key) := by
  unfold writeApply
  split
  next => exact Writes.refl s
  next a ha =>
    have hne : applies ≠ [] := by
      rintro rfl
      cases ha
    split
    case isTrue => exact (Writes.putCell s env key.id _).mono fun e he => ⟨he, hne⟩
    case isFalse => exact Writes.clearCell s env key.id

theorem writes_materialize (h : materialize W s env applies = .ok s') :
    Writes W.ids (fun e => e = env ∧ applies ≠ []) s s' := by
  unfold materialize at h
  split at h
  next => cases h
  next =>
    cases h
    exact (Writes.of_foldl writes_writeApply _ s).trans (Writes.advance _ env)

/-- The value a row holds is that of a draft that is applied. -/
def HoldsApplied (W : Server δ) (s : ProjectTables δ) (env : EnvId) (applies : List PendingChange)
    (e : ValueEntry) : Prop :=
  e.environmentID = env ∧ ∃ key ∈ s.keys.rows, ∃ a ∈ applies, a.keyID = e.keyID ∧ key.id = e.keyID ∧
    a.operation = .set ∧ e.value = W.normalize key a.value

/-- **What materializing publishes**: a row that appears holds the value of a draft
that is applied. -/
theorem values_materialize (h : materialize W s env applies = .ok s') {e : ValueEntry}
    (he : e ∈ s'.values.rows) : e ∈ s.values.rows ∨ HoldsApplied W s env applies e := by
  unfold materialize at h
  split at h
  next => cases h
  next =>
    cases h
    replace he : e ∈ (s.keys.rows.foldl (writeApply W env applies) s).values.rows := he
    -- over any part of the catalogue, starting from any tables
    suffices ∀ (keys : List CatalogueKey) (s₁ : ProjectTables δ), keys ⊆ s.keys.rows →
        e ∈ (keys.foldl (writeApply W env applies) s₁).values.rows →
          e ∈ s₁.values.rows ∨ HoldsApplied W s env applies e from
      this _ s (List.Subset.refl _) he
    intro keys
    induction keys with
    | nil => exact fun s₁ _ he => .inl he
    | cons key keys ih =>
      intro s₁ hsub he
      rcases ih _ (cons_subset.mp hsub).2 he with he | he
      · unfold writeApply at he
        split at he
        next => exact .inl he
        next a ha =>
          have hmem : a ∈ applies := mem_reverse.mp (mem_of_find?_eq_some ha)
          have hkey := find?_some ha
          rw [decide_eq_true_eq] at hkey
          split at he
          case isTrue hset =>
            rcases Table.Keyed.mem_put.mp he with rfl | ⟨he, -⟩
            · exact .inr ⟨rfl, key, (cons_subset.mp hsub).1, a, hmem, hkey, rfl, hset, rfl⟩
            · exact .inl he
          case isFalse => exact .inl (Table.Keyed.mem_delete.mp he).1
      · exact .inr he

/-- Materializing leaves the drafts. -/
theorem pending_materialize (h : materialize W s env applies = .ok s') :
    s'.pending = s.pending := by
  unfold materialize at h
  split at h
  next => cases h
  next =>
    cases h
    have hfold : ∀ (keys : List CatalogueKey) (s₁ : ProjectTables δ),
        (keys.foldl (writeApply W env applies) s₁).pending = s₁.pending := by
      intro keys
      induction keys with
      | nil => exact fun _ => rfl
      | cons key keys ih =>
        intro s₁
        rw [foldl_cons, ih]
        unfold writeApply
        split
        · rfl
        · split <;> rfl
    exact hfold _ s

/-- **What is dropped**: the drafts that were applied. -/
theorem mem_discardAll {l : List PendingChange} :
    ∀ {s s' : ProjectTables δ}, l.foldlM (discardApplied env) s = .ok s' → ∀ c,
      c ∈ s'.pending.rows ↔ c ∈ s.pending.rows ∧ ∀ a ∈ l, ¬ (c.environmentID = env ∧ c.id = a.id) := by
  induction l with
  | nil =>
    intro s s' h c
    cases h
    simp
  | cons a l ih =>
    intro s s' h c
    rw [foldlM_cons, except_bind_eq_ok] at h
    obtain ⟨s₁, hs₁, h⟩ := h
    rw [ih h c]
    unfold discardApplied at hs₁
    split at hs₁
    case isTrue =>
      cases hs₁
      rw [forall_mem_cons, ← and_assoc]
      refine and_congr_left' (Table.Keyed.mem_delete.trans ?_)
      rw [decide_eq_false_iff_not]
    case isFalse => cases hs₁

/-- **One environment of a publish**: it consumes its part of the selection, and
what it sets are the values of those drafts. -/
theorem publishEnvironment_eq_ok (h : publishEnvironment W selection s env = .ok s') :
    (∀ c, c ∈ s'.pending.rows ↔ c ∈ s.pending.rows ∧
        ∀ a ∈ appliesOf selection env, ¬ (c.environmentID = env ∧ c.id = a.id)) ∧
      ∀ e ∈ s'.values.rows, e ∈ s.values.rows ∨ HoldsApplied W s env (appliesOf selection env) e := by
  replace h := skip h
  obtain ⟨s₁, hmaterialize, h⟩ := bind_ok h
  refine ⟨fun c => ?_, fun e he => values_materialize hmaterialize ?_⟩
  · rw [mem_discardAll h c, pending_materialize hmaterialize]
  · have hvalues : s'.values = s₁.values := by
      refine Tx.foldlM_invariant (fun b => b.values = s₁.values) _ (fun b a _ b' hb hb' => ?_) rfl h
      unfold discardApplied at hb'
      split at hb'
      case isTrue => exact Except.ok.inj hb' ▸ hb
      case isFalse => cases hb'
    exact hvalues ▸ he

/-- A snapshot without drafts moves no value. -/
theorem writes_republish {trigger : Trigger} (h : republish W s caller env trigger = .ok s') :
    Writes W.ids (fun _ => False) s s' := by
  replace h := skip (skip h)
  exact (writes_materialize h).mono fun _ he => he.2 rfl

/-- A gated trigger does not pass a covering policy. -/
theorem uncovered_of_republish {trigger : Trigger} (hgated : approvalGatedTrigger trigger = true)
    (h : republish W s caller env trigger = .ok s') : s.coveringPolicy env = none := by
  replace h := skip h
  obtain ⟨hcovered, -⟩ := checked h
  exact hcovered hgated

theorem writes_discardApplied {a : PendingChange} (h : discardApplied env s a = .ok s') :
    Writes W.ids (fun _ => False) s s' := by
  unfold discardApplied at h
  split at h
  case isTrue => exact Except.ok.inj h ▸ Writes.discard s env a.id
  case isFalse => cases h

theorem writes_publishEnvironment (h : publishEnvironment W selection s env = .ok s') :
    Writes W.ids (· = env) s s' := by
  replace h := skip h
  obtain ⟨s₁, hmaterialize, h⟩ := bind_ok h
  have hdiscard : Writes W.ids (fun _ => False) s₁ s' :=
    Writes.of_foldlM (fun _ _ _ _ => writes_discardApplied) h
  exact ((writes_materialize hmaterialize).mono fun _ he => he.1).trans
    (hdiscard.mono fun _ he => he.elim)

theorem writes_publishEnvironments
    (h : (selectionEnvs selection).foldlM (publishEnvironment W selection) s = .ok s') :
    Writes W.ids (· ∈ selectionEnvs selection) s s' :=
  Writes.of_foldlM (fun _ _ henv _ hs => (writes_publishEnvironment hs).mono fun _ he => he ▸ henv) h

end Written

/-! ## What a publish does -/

section PublishCases

variable {W : Server δ} {s s' : ProjectTables δ} {caller : Identity} {env : EnvId}
  {request : PublishRequest δ} {loaded : Option (ApprovalRequest δ)} {now : ℕ}
  {selected selection : List PendingChange} {closed : List VersionId} {reply : PublishReply δ}

/-- The change set a selection stands for. -/
def selectedSet (s : ProjectTables δ) (principal : PrincipalId) (selection : List PendingChange)
    (closed : List VersionId) : ChangeSet :=
  ⟨selection, sortedUnique closed, previewTokenInput s principal selection⟩

/-- **What a publish of versions does** with the request it loaded. -/
inductive PublishEffect (W : Server δ) (s : ProjectTables δ) (caller : Identity) (env : EnvId)
    (request : PublishRequest δ) (loaded : Option (ApprovalRequest δ)) (now : ℕ)
    (versionIDs : List VersionId) : ProjectTables δ → PublishReply δ → Prop
  /-- a pinned draft is stale for the caller -/
  | staleDraft {req : ApprovalRequest δ} (hloaded : loaded = some req)
    (hactive : req.state.isActive = true)
    (hstale : (∃ id ∈ versionIDs, ¬ LiveDraft s caller.principal id) ∨
      ∃ c ∈ s.pending.rows, s.keyByID c.keyID = none) :
    PublishEffect W s caller env request loaded now versionIDs
      (commitInvalidation s env req .draftEdited now) (.refused (staleRefusal .draftEdited))
  /-- the gate invalidates the request -/
  | refused {req : ApprovalRequest δ} {cause : InvalidationCause} {selection : List PendingChange}
    {closed : List VersionId} (hloaded : loaded = some req) (hactive : req.state.isActive = true)
    (hset : changeSet s caller.principal versionIDs =
      .ok (selectedSet s caller.principal selection closed))
    (hcause : GateRefusal W s caller env selection req cause) :
    PublishEffect W s caller env request loaded now versionIDs
      (commitInvalidation s req.environmentID req cause now) (.refused (staleRefusal cause))
  /-- a request is staged -/
  | created {coveredEnv : EnvId} {policy : ApprovalPolicy} {purpose : String}
    {selection : List PendingChange} {closed : List VersionId}
    {requests : Table.Keyed fun r : ApprovalRequest δ => r.id} {req : ApprovalRequest δ}
    (hset : changeSet s caller.principal versionIDs =
      .ok (selectedSet s caller.principal selection closed))
    (hcovered : coveredEnvironment s selection = some (coveredEnv, policy))
    (hone : (selectionEnvs selection).length ≤ 1) (hbare : request.approvalRequestID = "")
    (hreq : req = newRequest s caller policy coveredEnv
      (selectionDigest W.tokens s caller.principal env selection) now
      (s.newID W.ids "areq").1 purpose request selection closed)
    (hrows : requests.rows = req :: s.requests.rows) :
    PublishEffect W s caller env request loaded now versionIDs (withRequests W s requests)
      (.created req)
  /-- the drafts are delivered, where no policy covers them -/
  | delivered {selection : List PendingChange} {closed : List VersionId} {s₁ : ProjectTables δ}
    {environments : List (EnvId × ℕ)}
    (hcovered : coveredEnvironment s selection = none)
    (hpublish : (selectionEnvs selection).foldlM (publishEnvironment W selection) s = .ok s₁) :
    PublishEffect W s caller env request loaded now versionIDs s₁
      (.published (Table.orderBy id (selection.map PendingChange.id)) closed environments)
  /-- the drafts are delivered and the request is resolved with them -/
  | resolved {req : ApprovalRequest δ} {policy : ApprovalPolicy} {bypass : Bool}
    {selection : List PendingChange} {closed : List VersionId} {s₁ : ProjectTables δ}
    (hloaded : loaded = some req)
    (hset : changeSet s caller.principal versionIDs =
      .ok (selectedSet s caller.principal selection closed))
    (hcovered : coveredEnvironment s selection = some (req.environmentID, policy))
    (hone : (selectionEnvs selection).length ≤ 1) (hreq : Resolvable caller now req)
    (hpolicy : policy.id = req.policyID ∧ policy.version = req.policyVersion)
    (hdigest : selectionDigest W.tokens s caller.principal env selection = req.previewTokenDigest)
    (hquorum : bypass = false → policy.minApprovals ≤ countEligibleApprovals s req.environmentID
      env (s.listApprovers req.policyID) req policy)
    (hpublish : (selectionEnvs selection).foldlM (publishEnvironment W selection) s = .ok s₁) :
    PublishEffect W s caller env request loaded now versionIDs
      (resolveApprovalAfterPublish s₁ now (some ⟨req.id, req.environmentID, bypass⟩))
      (.published (Table.orderBy id (selection.map PendingChange.id)) closed
        ((selectionEnvs selection).map fun e => (e, s₁.currentRevision e)))

theorem refuseStaleDraft_eq_ok {e : ServiceError}
    (h : refuseStaleDraft s env loaded e now = .ok (s', reply)) :
    ∃ req detail, loaded = some req ∧ req.state.isActive = true ∧ e = .stalePending detail ∧
      s' = commitInvalidation s env req .draftEdited now ∧
      reply = .refused (staleRefusal .draftEdited) := by
  unfold refuseStaleDraft at h
  split at h
  next req detail hreq =>
    obtain ⟨hloaded, hactive⟩ := Option.filter_eq_some_iff.mp hreq
    obtain ⟨hs, hreply⟩ := Prod.mk.inj (Except.ok.inj h)
    exact ⟨req, detail, hloaded, hactive, rfl, hs.symm, hreply.symm⟩
  next => cases h

/-- A refused selection is stale only if a draft is for an undeclared key: the
authority of the caller is never a stale draft. -/
theorem undeclared_of_stale {detail : String}
    (h : SelectionRefused s (fun e key => authorizeKey s caller .valuePublish e (.byID key))
      (.stalePending detail)) : ∃ c ∈ s.pending.rows, s.keyByID c.keyID = none := by
  cases h with
  | guarded h => cases denied_of_authorizeTenant h
  | undeclared hc hkey => exact ⟨_, hc, hkey⟩

theorem deliver_eq_ok {resolution : Option Resolution}
    (h : deliver W s caller request selection closed resolution now = .ok (s', reply)) :
    ∃ s₁, (selectionEnvs selection).foldlM (publishEnvironment W selection) s = .ok s₁ ∧
      s' = resolveApprovalAfterPublish s₁ now resolution ∧
      reply = .published (Table.orderBy id (selection.map PendingChange.id)) closed
        ((selectionEnvs selection).map fun e => (e, s₁.currentRevision e)) := by
  replace h := skip h
  obtain ⟨s₁, hs₁, h⟩ := bind_ok h
  obtain ⟨hs, hreply⟩ := Prod.mk.inj (Except.ok.inj h)
  exact ⟨s₁, hs₁, hs.symm, hreply.symm⟩

variable [DecidableEq δ] {versionIDs : List VersionId}

theorem publishSelected_eq_ok (hset : changeSet s caller.principal versionIDs =
      .ok (selectedSet s caller.principal selection closed))
    (h : publishSelected W s caller env request loaded now selected selection closed =
      .ok (s', reply)) : PublishEffect W s caller env request loaded now versionIDs s' reply := by
  replace h := skip (skip h)
  obtain ⟨outcome, hgate, h⟩ := bind_ok h
  cases approvalGate_eq_ok hgate with
  | ungated hcovered =>
    obtain ⟨s₁, hs₁, rfl, rfl⟩ := deliver_eq_ok h
    exact .delivered hcovered hs₁
  | created hcovered hone hbare hreq hrows =>
    obtain ⟨rfl, rfl⟩ := Prod.mk.inj (Except.ok.inj h)
    exact .created hset hcovered hone hbare hreq hrows
  | refused hloaded hactive hcause =>
    obtain ⟨rfl, rfl⟩ := Prod.mk.inj (Except.ok.inj h)
    exact .refused hloaded hactive hset hcause
  | resolve hloaded hcovered hone hreq hpolicy hdigest hquorum =>
    obtain ⟨s₁, hs₁, rfl, rfl⟩ := deliver_eq_ok h
    exact .resolved hloaded hset hcovered hone hreq hpolicy hdigest hquorum hs₁

theorem publishVersions_eq_ok
    (h : publishVersions W s caller env request loaded now versionIDs = .ok (s', reply)) :
    PublishEffect W s caller env request loaded now versionIDs s' reply := by
  unfold publishVersions at h
  split at h
  next e herr =>
    obtain ⟨req, detail, hloaded, hactive, -, rfl, rfl⟩ := refuseStaleDraft_eq_ok h
    exact .staleDraft hloaded hactive (.inl (resolveVersions_eq_error herr))
  next selected hselected =>
    replace h := skip h
    split at h
    next e herr =>
      obtain ⟨req, detail, hloaded, hactive, rfl, rfl, rfl⟩ := refuseStaleDraft_eq_ok h
      have hrefused := selectVersions_eq_error (resolves_of_resolveVersions hselected) herr
      exact .staleDraft hloaded hactive (.inr (undeclared_of_stale hrefused))
    next selection closed hselect =>
      exact publishSelected_eq_ok (changeSet_of_select hselected hselect) h

/-- **What a publish that commits did**: it published the versions it names, or
those the request it names pins. -/
theorem publishPlanned_eq_ok (h : publishPlanned W s caller env request now = .ok (s', reply)) :
    (request.approvalRequestID = "" ∧
        PublishEffect W s caller env request none now request.versionIDs s' reply) ∨
      (request.approvalRequestID ≠ "" ∧
        ∃ req, s.getRequest env request.approvalRequestID = some req ∧
          PublishEffect W s caller env request (some req) now req.versionIDs s' reply) := by
  replace h := skip (skip (skip (skip h)))
  split at h
  case isTrue hbare => exact .inl ⟨hbare, publishVersions_eq_ok h⟩
  case isFalse hnamed =>
    split at h
    next => cases h
    next req hreq => exact .inr ⟨hnamed, req, hreq, publishVersions_eq_ok h⟩

end PublishCases

end Hikyo
