import Hikyo.Service.ApprovalCoverage
import Hikyo.Service.RequestLifecycle

/-!
# A merge commits what was reviewed

Between the publish that stages a request and the publish that merges it
everything moves independently: drafts are edited, the environment advances, the
catalogue and the policy change, approvers come and go. A request survives this
only through the digest it pins. `Pinned` says what the digest stands for – the
change set of the pinned versions in the state in which the request was staged –
and `Pinned.review_eq` is the reason the digest works: since drafts are never
edited under their identifier, a later change set with the same digest is the same
change set, drafts included.

So a merge publishes the pinned change set on the pinned base, and every vote it
counts was cast on that same change set (`merge_commits_reviewed`). A request that
has ended stays as it is.
-/

namespace Hikyo

open List
open Tx (bind_ok skip except_bind_eq_ok checked)

variable {δ : Type}

/-! ## What a request pins -/

/-- The change set of a request, as its requester's drafts are. -/
def reviewOf (s : ProjectTables δ) (r : RequestPins δ) : Except ServiceError ChangeSet :=
  changeSet s r.requesterPrincipalID r.versionIDs

/-- **What a request pins** of the state `s₀` in which a publish addressed to
`scope` staged it. -/
structure Pinned (W : Server δ) (s₀ : ProjectTables δ) (scope : EnvId) (r : RequestPins δ)
    (cs : ChangeSet) : Prop where
  review : reviewOf s₀ r = .ok cs
  closed : r.closedVersionIDs = cs.closed
  keys : r.keyIDs = selectionKeyIDs cs.changes
  envs : selectionEnvs cs.changes = [r.environmentID]
  base : r.baseRevision = s₀.currentRevision r.environmentID
  digest : r.previewTokenDigest =
    W.tokens.approvalPreviewDigest (W.tokens.publishPreviewToken s₀.tokenKey scope cs.input)

variable {selection : List PendingChange} {policy : ApprovalPolicy} {caller : Identity}

section PinnedLemmas

variable {W : Server δ} {s s₀ : ProjectTables δ} {op : ProjectOp δ} {r : RequestPins δ}
  {cs cs' : ChangeSet} {scope : EnvId}

variable {env : EnvId}

/-- A selection that touches one environment is all in it. -/
theorem selectionEnvs_eq_singleton (hcovered : coveredEnvironment s selection = some (env, policy))
    (hone : (selectionEnvs selection).length ≤ 1) : selectionEnvs selection = [env] := by
  have henv := (coveredEnvironment_eq_some hcovered).1
  obtain ⟨env', henv'⟩ : ∃ env', selectionEnvs selection = [env'] := by
    refine length_eq_one_iff.mp (le_antisymm hone ?_)
    exact length_pos_of_mem henv
  rw [henv'] at henv ⊢
  rw [mem_singleton.mp henv]

theorem appliesOf_eq_self
    (h : selectionEnvs selection = [env]) : appliesOf selection env = selection := by
  refine filter_eq_self.mpr fun c hc => decide_eq_true ?_
  have hmem : c.environmentID ∈ selectionEnvs selection := mem_selectionEnvs.mpr ⟨c, hc, rfl⟩
  rw [h] at hmem
  exact mem_singleton.mp hmem

/-- **A staged request pins the change set it was staged for.** -/
theorem RequestStaged.pinned {r₀ : ApprovalRequest δ} (h : RequestStaged W s₀ op r₀)
    (hr : r = r₀.toRequestPins) :
    ∃ caller scope request now cs, op = .publish caller scope request now ∧
      request.approvalRequestID = "" ∧ caller.principal = r.requesterPrincipalID ∧
      Pinned W s₀ scope r cs := by
  cases h with
  | @staged caller env coveredEnv request now policy purpose selection closed hbare hset hcovered hone =>
    have henvs := selectionEnvs_eq_singleton hcovered hone
    refine ⟨caller, env, request, now, selectedSet s₀ caller.principal selection closed, rfl, hbare,
      congrArg RequestPins.requesterPrincipalID hr.symm, ?_⟩
    subst hr
    refine ⟨changeSet_congr (fun _ => mem_sortedUnique) hset, rfl, ?_, henvs, rfl, rfl⟩
    show selectionKeyIDs (appliesOf selection coveredEnv) = selectionKeyIDs selection
    rw [appliesOf_eq_self henvs]

/-- **A change set with the pinned digest is the pinned change set.** -/
theorem Pinned.review_eq (hT : W.tokens.CollisionFree) (h : Pinned W s₀ scope r cs)
    (hs₀ : Sound W.ids s₀) (hfollows : Follows W.ids s₀ s)
    (hset : reviewOf s r = .ok cs')
    (hdigest : W.tokens.approvalPreviewDigest (W.tokens.publishPreviewToken s.tokenKey env cs'.input) =
      r.previewTokenDigest) : cs' = cs := by
  rw [h.digest] at hdigest
  obtain ⟨-, -, hinput⟩ := hT _ _ _ _ _ _ hdigest
  have hof := changeSet_eq_ok h.review
  have hof' := changeSet_eq_ok hset
  refine (hof.eq_of_input hof' hinput.symm fun c hc c' hc' hid => ?_).symm
  exact hfollows.draft_eq hs₀ (hof.mine c hc).1 (hof'.mine c' hc').1 hid

/-- **The pinned base is the present one** while the change set is the pinned one. -/
theorem Pinned.base_eq (h : Pinned W s₀ scope r cs) (hset : reviewOf s r = .ok cs) :
    s.currentRevision r.environmentID = r.baseRevision ∧ s.schemaRevision = s₀.schemaRevision := by
  have hinput := (changeSet_eq_ok h.review).input.symm.trans (changeSet_eq_ok hset).input
  have henvs := congrArg PreviewTokenInput.environments hinput
  simp only [previewTokenInput, h.envs, map_cons, map_nil, cons.injEq, and_true] at henvs
  have hbase := congrArg PreviewTokenEnvironment.baseRevision henvs
  have hschema := congrArg PreviewTokenEnvironment.schemaRevision henvs
  exact ⟨hbase.symm.trans h.base.symm, hschema.symm⟩

/-- The digest a vote compares is that of the request's change set. -/
theorem requestPreviewDigest_eq_ok {T : PreviewTokens δ} {req : ApprovalRequest δ} {digest : δ}
    (h : requestPreviewDigest T s caller env req = .ok digest) :
    ∃ cs, reviewOf s req.toRequestPins = .ok cs ∧ cs.closed = sortedUnique req.closedVersionIDs ∧
      digest = T.approvalPreviewDigest (T.publishPreviewToken s.tokenKey env cs.input) := by
  obtain ⟨named, hnamed, h⟩ := bind_ok h
  obtain ⟨⟨selection, closed⟩, hselect, h⟩ := bind_ok h
  obtain ⟨hclosed, h⟩ := checked h
  replace h := skip h
  refine ⟨_, changeSet_of_select hnamed hselect, ?_, (Except.ok.inj h).symm⟩
  exact hclosed.1

end PinnedLemmas

/-! ## The quorum -/

theorem VoteDecision.eq_of_parse {raw : String} (h : VoteDecision.parse raw = some .approve) :
    raw = "approve" := by
  unfold VoteDecision.parse at h
  split at h
  case isTrue heq => exact heq
  case isFalse =>
    split at h
    case isTrue => cases h
    case isFalse => cases h

/-- **The voters a count counts** are different principals with a recorded
approval that counts. -/
theorem exists_voters (s : ProjectTables δ) (proof scope : EnvId) (approvers : List ApprovalApprover)
    (req : ApprovalRequest δ) (policy : ApprovalPolicy) :
    ∃ voters : List PrincipalId, voters.Nodup ∧
      voters.length = countEligibleApprovals s proof scope approvers req policy ∧
      ∀ voter ∈ voters, ∃ v ∈ s.votes.rows, v.environmentID = proof ∧ v.requestID = req.id ∧
        v.principalID = voter ∧ countsAsApproval s scope approvers req policy v = true := by
  refine ⟨((s.listVotes proof req.id).filter (countsAsApproval s scope approvers req policy)).map
    ApprovalVote.principalID, ?_, ?_, fun voter hvoter => ?_⟩
  · have hrows : s.votes.rows.Nodup := by
      have hunique := s.votes.unique
      rw [Table.UniqueOn, filter_eq_self.mpr fun _ _ => rfl] at hunique
      exact hunique.of_map
    refine List.Nodup.map_on (fun v hv v' hv' hvoter => ?_) ((hrows.filter _).filter _)
    -- one principal has one vote on the request
    obtain ⟨hmem, -, hid⟩ := ProjectTables.mem_listVotes.mp (mem_filter.mp hv).1
    obtain ⟨hmem', -, hid'⟩ := ProjectTables.mem_listVotes.mp (mem_filter.mp hv').1
    exact s.votes.eq_of_key hmem hmem' (Prod.ext (hid.trans hid'.symm) hvoter)
  · rw [length_map, ← countP_eq_length_filter]
    rfl
  · obtain ⟨v, hv, rfl⟩ := mem_map.mp hvoter
    obtain ⟨hlisted, hcounts⟩ := mem_filter.mp hv
    obtain ⟨hmem, henv, hid⟩ := ProjectTables.mem_listVotes.mp hlisted
    exact ⟨v, hmem, henv, hid, rfl, hcounts⟩

/-! ## Merges -/

variable [DecidableEq δ]

/-- The request was created by the step `p`. -/
def CreatedBy (W : Server δ) (p : ProjectTables δ × ProjectOp δ) (r : RequestPins δ) : Prop :=
  (∀ r₁ ∈ p.1.requests.rows, r₁.id ≠ r.id) ∧
    ∃ r₁ ∈ (p.1.step W p.2).requests.rows, r₁.toRequestPins = r

variable {p : ProjectTables δ × ProjectOp δ}

/-- The request was there under an identifier the step minted. -/
theorem CreatedBy.minted {W : Server δ} {r : RequestPins δ}
    (h : CreatedBy W p r) : MintedBetween W.ids p.1.issued (p.1.step W p.2).issued "areq" r.id := by
  obtain ⟨hnew, r₁, hr₁, rfl⟩ := h
  rcases (stepEffect W p.1 p.2).request hr₁ with hold | ⟨r₀, hr₀, hmove⟩ | ⟨hstaged, hlt⟩
  · exact absurd rfl (hnew r₁ hold)
  · exact absurd (congrArg RequestPins.id hmove.pins).symm (hnew r₀ hr₀)
  · exact hstaged.minted hlt

/-- A recorded approval of `voter` that counts at the merge: an eligible approver
with publish over every pinned key, not the requester unless the policy allows it,
who voted while the change set was `cs`. -/
structure LiveApproval (h : Tx.Recorded (ProjectTables δ) (ProjectOp δ)) (r : RequestPins δ)
    (policy : ApprovalPolicy) (cs : ChangeSet) (voter : PrincipalId) : Prop where
  eligible : approverEligible h.now (h.now.listApprovers policy.id) voter = true
  holds : callerHoldsApprovalKeys h.now voter r.environmentID r.keyIDs = true
  other : voter = r.requesterPrincipalID → policy.allowSelfApproval = true
  voted : ∃ p ∈ h.past, reviewOf p.1 r = .ok cs ∧
    ∃ caller now, p.2 = .vote caller r.environmentID r.id "approve" now ∧ caller.principal = voter ∧
      ∃ v ∈ h.now.votes.rows, v.requestID = r.id ∧ v.principalID = voter ∧ v.decision = .approve

/-- **The step from `s` to `s'` publishes the change set** `cs` of a request: its
drafts are consumed, and a value that appears is the one a draft of it sets. -/
structure Publishes (W : Server δ) (s s' : ProjectTables δ) (r : RequestPins δ) (cs : ChangeSet) :
    Prop where
  consumed : ∀ c, c ∈ s'.pending.rows ↔ c ∈ s.pending.rows ∧ c ∉ cs.changes
  versions : ∀ id, id ∈ cs.changes.map PendingChange.id ↔ id ∈ r.versionIDs ∨ id ∈ r.closedVersionIDs
  values : ∀ e ∈ s'.values.rows, e ∈ s.values.rows ∨ HoldsApplied W s r.environmentID cs.changes e

/-- **The merge of a request by the operation `op` after the run `h`**: a publish in
time, of exactly the change set that was pinned when the request was created, on
the pinned base, with no reject and with a live quorum. -/
structure MergedAsReviewed (W : Server δ) (h : Tx.Recorded (ProjectTables δ) (ProjectOp δ))
    (op : ProjectOp δ) (r : RequestPins δ) : Prop where
  inTime : ∃ caller request now, op = .publish caller r.environmentID request now ∧ now < r.expiresAt
  /-- the change set is the one that was pinned -/
  reviewed : ∃ p ∈ h.past, CreatedBy W p r ∧ ∃ cs,
    reviewOf p.1 r = .ok cs ∧ reviewOf h.now r = .ok cs ∧
    r.closedVersionIDs = cs.closed ∧ r.keyIDs = selectionKeyIDs cs.changes ∧
    p.1.currentRevision r.environmentID = r.baseRevision ∧
    h.now.currentRevision r.environmentID = r.baseRevision ∧
    h.now.schemaRevision = p.1.schemaRevision ∧
    Publishes W h.now (h.now.step W op) r cs ∧
    ∃ policy, h.now.coveringPolicy r.environmentID = some policy ∧ policy.id = r.policyID ∧
      policy.version = r.policyVersion ∧
      ∃ voters : List PrincipalId, voters.Nodup ∧ policy.minApprovals ≤ voters.length ∧
        ∀ voter ∈ voters, LiveApproval h r policy cs voter
  noReject : ∀ s, (s = h.now ∨ ∃ op', (s, op') ∈ h.past) →
    ∀ v ∈ s.votes.rows, v.requestID = r.id → v.decision = .approve

section Merge

variable {W : Server δ} {h : Tx.Recorded (ProjectTables δ) (ProjectOp δ)} {r r' : ApprovalRequest δ}

/-- **What a recorded request pins**, with the step that created it. -/
theorem Remembers.pinned (hh : Remembers W h) (hr : r ∈ h.now.requests.rows) :
    ∃ p ∈ h.past, CreatedBy W p r.toRequestPins ∧ ∃ scope cs, Pinned W p.1 scope r.toRequestPins cs := by
  obtain ⟨p, hp, r₀, hr₀, hstaged, hpins⟩ := hh.staged r hr
  obtain ⟨caller, scope, request, now, cs, -, -, -, hpinned⟩ := hstaged.pinned hpins
  refine ⟨p, hp, ⟨fun r₁ hr₁ hid => ?_, r₀, hr₀, hpins.symm⟩, scope, cs, hpinned⟩
  -- the identifier was minted by the step itself
  have hfresh : r.id = mintedID W.ids "areq" p.1.issued :=
    (congrArg RequestPins.id hpins).trans hstaged.fresh.1
  have hnew : MintedBetween W.ids p.1.issued (p.1.issued + 1) "areq" r.id :=
    ⟨_, le_refl _, Nat.lt_succ_self _, hfresh⟩
  exact ((hh.past p hp).1.requests r₁ hr₁).ne hnew hid

/-- An active request never had a reject. -/
theorem Remembers.noReject (hh : Remembers W h) (hr : r ∈ h.now.requests.rows)
    (hactive : r.state.isActive = true) (s : ProjectTables δ)
    (hs : s = h.now ∨ ∃ op, (s, op) ∈ h.past) (v : ApprovalVote) (hv : v ∈ s.votes.rows)
    (hid : v.requestID = r.id) : v.decision = .approve := by
  obtain ⟨hsound, hfollows⟩ : Sound W.ids s ∧ Follows W.ids s h.now := by
    rcases hs with rfl | ⟨op, hop⟩
    · exact ⟨hh.sound, Follows.refl _⟩
    · exact ⟨(hh.past _ hop).1, (hh.past _ hop).2.1⟩
  cases hdecision : v.decision with
  | approve => rfl
  | reject =>
    -- the request it stands on was rejected, and would still be
    rcases hfollows.requests r hr with ⟨r₀, hr₀, hevolves⟩ | hnew
    · have hid₀ : r₀.id = v.requestID := (congrArg RequestPins.id hevolves.pins).symm.trans hid.symm
      have hrejected := hsound.rejected v hv hdecision r₀ hr₀ hid₀
      rcases hevolves with rfl | ⟨hactive₀, -⟩
      · rw [hrejected] at hactive
        cases hactive
      · rw [hrejected] at hactive₀
        cases hactive₀
    · exact absurd hid ((hsound.votes v hv).ne hnew)

variable {cs : ChangeSet}

/-- A vote that counts was cast on the pinned change set. -/
theorem Remembers.voted (hT : W.tokens.CollisionFree) (hh : Remembers W h)
    (hr : r ∈ h.now.requests.rows) {scope : EnvId}
    (hp : p ∈ h.past) (hcreated : CreatedBy W p r.toRequestPins)
    (hpinned : Pinned W p.1 scope r.toRequestPins cs) {v : ApprovalVote}
    (hv : v ∈ h.now.votes.rows) (hid : v.requestID = r.id) (henv : v.environmentID = r.environmentID)
    (happrove : v.decision = .approve) : ∃ q ∈ h.past, reviewOf q.1 r.toRequestPins = .ok cs ∧
      ∃ caller now, q.2 = .vote caller r.environmentID r.id "approve" now ∧
        caller.principal = v.principalID := by
  obtain ⟨⟨s₁, op₁⟩, hq, hrecorded⟩ := hh.votes v hv
  obtain ⟨hsound₁, hfollows₁, -⟩ := hh.past _ hq
  cases hrecorded with
  | @recorded caller env requestID raw now decision req hdecision hreq hactive hdigest =>
    obtain ⟨hmem, rfl, rfl⟩ := ProjectTables.getRequest_eq_some hreq
    have hpins : r.toRequestPins = req.toRequestPins :=
      (hfollows₁.evolves hsound₁ hmem hr hid).pins
    -- the request was there at the vote, so the vote came after it was staged
    have hafter : Follows W.ids p.1 s₁ := by
      rcases hh.follows_or hp hq with hafter | hbefore
      · exact hafter
      · have hminted := (hsound₁.requests req hmem).mono (le_refl _) hbefore.issued
        exact absurd hid (hminted.ne hcreated.minted)
    obtain ⟨cs₁, hreview, -, hdigest₁⟩ := requestPreviewDigest_eq_ok hdigest
    rw [← hpins] at hreview
    have hagain : W.tokens.approvalPreviewDigest (W.tokens.publishPreviewToken s₁.tokenKey
        req.environmentID cs₁.input) = r.previewTokenDigest := by
      rw [← hdigest₁, hpins]
    have hcs : cs₁ = cs := hpinned.review_eq hT (hh.past p hp).1 hafter hreview hagain
    subst hcs
    refine ⟨_, hq, hreview, caller, now, ?_, rfl⟩
    have hraw : raw = "approve" := VoteDecision.eq_of_parse (hdecision.trans (congrArg some happrove))
    rw [hraw, hpins]

variable {op : ProjectOp δ}

omit [DecidableEq δ] in
/-- Only a delivery merges a request. -/
theorem RequestMove.merged {s s' : ProjectTables δ}
    (hmove : RequestMove W s op s' r r') (hmerged : r'.state = .merged) :
    ∃ caller request now policy selection closed s₁,
      op = .publish caller r.environmentID request now ∧
      Delivers W s caller r.environmentID now false r policy selection closed s₁ ∧
      s' = resolveApprovalAfterPublish s₁ now (some ⟨r.id, r.environmentID, false⟩) := by
  cases hmove with
  | @resolved caller env request now bypass _ policy selection closed s₁ henv h =>
    subst henv
    cases bypass with
    | false => exact ⟨caller, request, now, policy, selection, closed, s₁, rfl, h, rfl⟩
    | true => cases hmerged
  | _ => cases hmerged

omit [DecidableEq δ] in
/-- A delivery publishes the change set of its request. -/
theorem Delivers.publishes {s s₁ : ProjectTables δ} {now : ℕ} {bypass : Bool}
    {closed : List VersionId}
    (hd : Delivers W s caller r.environmentID now bypass r policy selection closed s₁)
    (hcs : selectedSet s caller.principal selection closed = cs)
    (hclosed : r.closedVersionIDs = cs.closed) : Publishes W s s₁ r.toRequestPins cs := by
  have hof := changeSet_eq_ok hd.set
  have henvs := selectionEnvs_eq_singleton hd.covered hd.one
  have hselection : cs.changes = selection := hcs ▸ rfl
  have hpublish := hd.publish
  rw [henvs, foldlM_cons, except_bind_eq_ok] at hpublish
  obtain ⟨s₂, hpublish, hs₂⟩ := hpublish
  cases hs₂
  obtain ⟨hconsumed, hvalues⟩ := publishEnvironment_eq_ok hpublish
  rw [appliesOf_eq_self henvs] at hconsumed hvalues
  refine ⟨fun c => ?_, fun id => ?_, fun e he => ?_⟩
  · rw [hconsumed c, hselection]
    refine and_congr_right fun hc => ⟨fun hnot hmem => ?_, fun hnot a ha hsame => ?_⟩
    · have hin : c.environmentID ∈ selectionEnvs selection := mem_selectionEnvs.mpr ⟨c, hmem, rfl⟩
      rw [henvs] at hin
      exact hnot c hmem ⟨mem_singleton.mp hin, rfl⟩
    · have hsame' : c = a := s.pending.eq_of_key hc (hof.mine a ha).1 hsame.2
      exact hnot (hsame' ▸ ha)
  · rw [hclosed, ← hcs]
    exact hof.ids id
  · rw [hselection]
    exact hvalues e he

/-- **A merge commits what was reviewed.** -/
theorem Remembers.mergedAsReviewed (hT : W.tokens.CollisionFree) (hh : Remembers W h)
    (hr' : r' ∈ (h.now.step W op).requests.rows) (hmerged : r'.state = .merged)
    (hbecomes : r' ∉ h.now.requests.rows) : MergedAsReviewed W h op r'.toRequestPins := by
  rcases (stepEffect W h.now op).request hr' with hold | ⟨r, hr, hmove⟩ | ⟨hstaged, -⟩
  · exact absurd hold hbecomes
  · have hpins := hmove.pins
    have hactive := hmove.active hh.sound hr
    obtain ⟨caller, request, now, policy, selection, closed, s₁, rfl, hd, hs'⟩ := hmove.merged hmerged
    obtain ⟨p, hp, hcreated, scope, cs, hpinned⟩ := hh.pinned hr
    obtain ⟨hsound₀, hfollows₀, -⟩ := hh.past p hp
    have hreview : reviewOf h.now r.toRequestPins =
        .ok (selectedSet h.now caller.principal selection closed) := by
      have hset := hd.set
      rw [hd.resolvable.own] at hset ⊢
      exact hset
    have hcs : selectedSet h.now caller.principal selection closed = cs :=
      hpinned.review_eq hT hsound₀ hfollows₀ hreview hd.digest
    rw [hcs] at hreview
    obtain ⟨hbase, hschema⟩ := hpinned.base_eq hreview
    have hpublishes₁ := hd.publishes hcs hpinned.closed
    have hpublishes : Publishes W h.now (h.now.step W (.publish caller r.environmentID request now))
        r.toRequestPins cs := by
      rw [hs']
      exact ⟨hpublishes₁.consumed, hpublishes₁.versions, hpublishes₁.values⟩
    obtain ⟨voters, hnodup, hlength, hvoters⟩ := exists_voters h.now r.environmentID
      r.environmentID (h.now.listApprovers r.policyID) r policy
    have hquorum : policy.minApprovals ≤ voters.length := hlength.symm ▸ hd.quorum rfl
    rw [hpins]
    refine ⟨⟨caller, request, now, rfl, hd.resolvable.inTime⟩, ⟨p, hp, hcreated, cs, hpinned.review,
      hreview, hpinned.closed, hpinned.keys, hpinned.base.symm, hbase, hschema, hpublishes, policy,
      (coveredEnvironment_eq_some hd.covered).2, hd.pinned.1, hd.pinned.2, voters, hnodup, hquorum,
      fun voter hvoter => ?_⟩, hh.noReject hr hactive⟩
    obtain ⟨v, hv, henv, hid, rfl, hcounts⟩ := hvoters voter hvoter
    obtain ⟨happrove, hother, heligible, hholds⟩ := of_decide_eq_true hcounts
    obtain ⟨q, hq, hreview₁, caller₁, now₁, hop, hprincipal⟩ :=
      hh.voted hT hr hp hcreated hpinned hv hid henv happrove
    refine ⟨hd.pinned.1 ▸ heligible, hholds, fun hself => ?_, q, hq, hreview₁, caller₁, now₁, hop,
      hprincipal, v, hv, hid, rfl, happrove⟩
    rw [← Bool.not_eq_false]
    exact fun hforbidden => hother ⟨hself, hforbidden⟩
  · rw [hstaged.fresh.2.1] at hmerged
    cases hmerged

/-- **A request that has ended stays as it is**, whatever runs after it. -/
theorem Sound.ended {s : ProjectTables δ} (hs : Sound W.ids s) (hr : r ∈ s.requests.rows)
    (hended : r.state.isActive = false) (ops : List (ProjectOp δ))
    (hr' : r' ∈ (Tx.exec (ProjectTables.step W) s ops).requests.rows) (hid : r'.id = r.id) :
    r' = r := by
  rcases (hs.exec W ops).2.evolves hs hr hr' hid.symm with hsame | ⟨hactive, -⟩
  · exact hsame
  · rw [hended] at hactive
    cases hactive

end Merge

end Hikyo
