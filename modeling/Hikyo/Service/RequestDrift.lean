import Hikyo.Service.MergeReviewed

/-!
# Why a request is invalidated

A request is invalidated with the cause `draft_edited` or `env_advanced` when its review is not the
pinned one any more. What may have moved is `Drifted`: a pinned draft, what the key groups pull in,
or a value the preview token binds.

The code does not always ask for that. A vote recomputes the review of the
requester, a publish that names the request recomputes it for whoever calls: for
anybody else the pinned versions are nobody's drafts, and the stale draft is turned
into an invalidation before the gate looks at who proposed the change
(`foreign_publish_invalidates`). A request that is staged by a publish addressed to
another environment pins the token of that other environment, which no vote and no
merge can reproduce; and a rotation of the root token key changes every token.

In a run without these three every invalidation has a drift behind it
(`invalidated_by_drift`).
-/

namespace Hikyo

open List
open Tx (ensure_eq_error except_bind_eq_error)

variable {δ : Type}

/-! ## Drift -/

/-- **The review of a request moved** since the state `s₀` it was created in. -/
def Drifted (s s₀ : ProjectTables δ) (r : RequestPins δ) : Prop :=
  (∃ id ∈ r.versionIDs, ¬ LiveDraft s r.requesterPrincipalID id) ∨
    (∃ cs, reviewOf s r = .ok cs ∧ cs.closed ≠ r.closedVersionIDs) ∨
    s.currentRevision r.environmentID ≠ s₀.currentRevision r.environmentID ∨
    s.schemaRevision ≠ s₀.schemaRevision ∨
    s.isProtected r.environmentID ≠ s₀.isProtected r.environmentID ∨
    s.directory.generation r.requesterPrincipalID ≠ s₀.directory.generation r.requesterPrincipalID

section DriftLemmas

variable {W : Server δ} {s s₀ : ProjectTables δ} {r : RequestPins δ} {cs cs' : ChangeSet}

variable {scope : EnvId}

/-- A change set that pulls in the pinned drafts holds the pinned drafts. -/
theorem Pinned.changes_eq (h : Pinned W s₀ scope r cs) (hs₀ : Sound W.ids s₀)
    (hfollows : Follows W.ids s₀ s) (hset : reviewOf s r = .ok cs')
    (hclosed : cs'.closed = r.closedVersionIDs) : cs'.changes = cs.changes := by
  have hof := changeSet_eq_ok h.review
  have hof' := changeSet_eq_ok hset
  refine (hof.changes_eq hof' (h.closed.symm.trans hclosed.symm) fun c hc c' hc' hid => ?_).symm
  exact hfollows.draft_eq hs₀ (hof.mine c hc).1 (hof'.mine c' hc').1 hid

/-- **Another token of the same environment under the same key means a drift.** -/
theorem Pinned.drifted (h : Pinned W s₀ r.environmentID r cs) (hs₀ : Sound W.ids s₀)
    (hfollows : Follows W.ids s₀ s) (hkey : s.tokenKey = s₀.tokenKey)
    (hset : reviewOf s r = .ok cs') (hmoved : W.tokens.approvalPreviewDigest
      (W.tokens.publishPreviewToken s.tokenKey r.environmentID cs'.input) ≠ r.previewTokenDigest) :
    Drifted s s₀ r := by
  by_contra hnot
  simp only [Drifted, not_or, not_exists, not_and, not_not] at hnot
  obtain ⟨-, hclosed, hrevision, hschema, hprotected, hgeneration⟩ := hnot
  have hchanges := h.changes_eq hs₀ hfollows hset (hclosed cs' hset)
  have hinput : cs'.input = cs.input := by
    rw [(changeSet_eq_ok hset).input, (changeSet_eq_ok h.review).input, hchanges]
    simp only [previewTokenInput, h.envs, map_cons, map_nil, previewTokenEnvironment,
      hrevision, hschema, hprotected, hgeneration]
  rw [hinput, hkey, h.digest] at hmoved
  exact hmoved rfl

/-- The digest of a vote is stale only after a drift. -/
theorem Pinned.drifted_of_stale {caller : Identity} {env : EnvId}
    {req : ApprovalRequest δ} {detail : String} (h : Pinned W s₀ scope req.toRequestPins cs)
    (hs₀ : Sound W.ids s₀) (hs : Sound W.ids s) (hfollows : Follows W.ids s₀ s)
    (hstale : requestPreviewDigest W.tokens s caller env req = .error (.stalePending detail)) :
    Drifted s s₀ req.toRequestPins := by
  rcases (except_bind_eq_error _ _ _).mp hstale with hresolve | ⟨named, hnamed, hstale⟩
  · exact .inl (resolveVersions_eq_error hresolve)
  rcases (except_bind_eq_error _ _ _).mp hstale with hselect | ⟨⟨selection, closed⟩, hselect, hstale⟩
  · -- neither a missing authority nor a split group is a stale draft
    cases selectVersions_eq_error (resolves_of_resolveVersions hnamed) hselect with
    | guarded hguard => cases denied_of_authorizeTenant hguard
    | undeclared hc hnone => exact absurd hnone (Option.isSome_iff_ne_none.mp (hs.declared _ hc))
  have hset : reviewOf s req.toRequestPins =
      .ok ⟨selection, sortedUnique closed, previewTokenInput s req.requesterPrincipalID selection⟩ :=
    changeSet_of_select hnamed hselect
  by_cases hclosed : sortedUnique closed = req.closedVersionIDs
  · have hchanges : selection = cs.changes := h.changes_eq hs₀ hfollows hset hclosed
    have henvs : selectionEnvs selection = [req.environmentID] := hchanges ▸ h.envs
    have hcanonical : sortedUnique req.closedVersionIDs = req.closedVersionIDs := by
      rw [← hclosed, sortedUnique_sortedUnique]
    rcases (except_bind_eq_error _ _ _).mp hstale with hcheck | ⟨_, -, hstale⟩
    · refine absurd ?_ ((ensure_eq_error _ _ _).mp hcheck).1
      exact ⟨hclosed.trans hcanonical.symm, by rw [henvs]; rfl⟩
    rcases (except_bind_eq_error _ _ _).mp hstale with hcheck | ⟨_, -, hstale⟩
    · refine absurd ?_ ((ensure_eq_error _ _ _).mp hcheck).1
      rw [henvs]
      exact mem_singleton_self _
    · cases hstale
  · exact .inr (.inl ⟨_, hset, hclosed⟩)

end DriftLemmas

/-! ## Runs that keep tokens comparable -/

/-- **A step that keeps tokens comparable**: a publish that names an active request
is its requester's, one that stages drafts of a covered environment addresses that
environment, and the token key is rotated while nothing is under review. -/
structure KeepsTokens (s : ProjectTables δ) (op : ProjectOp δ) : Prop where
  requester : ∀ caller env request now, op = .publish caller env request now →
    ∀ r ∈ s.requests.rows, r.id = request.approvalRequestID → r.state.isActive = true →
      caller.principal = r.requesterPrincipalID
  addressed : ∀ caller env request now, op = .publish caller env request now →
    request.approvalRequestID = "" → ∀ c ∈ s.pending.rows, c.ownerID = caller.principal →
      c.id ∈ request.versionIDs → (s.coveringPolicy c.environmentID).isSome → c.environmentID = env
  rotated : op = .rotateTokenKey → ∀ r ∈ s.requests.rows, r.state.isActive = false

variable {s₀ : ProjectTables δ} {op : ProjectOp δ}

/-- A request that is staged so pins the token of its own environment. -/
theorem RequestStaged.pinned_home {W : Server δ}
    {r : ApprovalRequest δ} (h : RequestStaged W s₀ op r) (hok : KeepsTokens s₀ op) :
    ∃ cs, Pinned W s₀ r.environmentID r.toRequestPins cs := by
  have hstaged := h
  cases h with
  | @staged caller env coveredEnv request now policy purpose selection closed hbare hset hcovered hone =>
    obtain ⟨caller', scope, request', now', cs, hop, -, -, hpinned⟩ := hstaged.pinned rfl
    obtain ⟨rfl, rfl, rfl, rfl⟩ := ProjectOp.publish.inj hop
    -- some named version is a draft in the covered environment
    obtain ⟨hmem, hpolicy⟩ := coveredEnvironment_eq_some hcovered
    obtain ⟨c, hc, hcenv⟩ := mem_selectionEnvs.mp hmem
    obtain ⟨y, hy, howner, hid, henv⟩ := exists_named_of_changeSet hset hc
    have hcoveredEnv : (s₀.coveringPolicy y.environmentID).isSome := by
      rw [henv, hcenv, hpolicy]
      rfl
    have hscope := hok.addressed caller env request now rfl hbare y hy howner hid hcoveredEnv
    have hhome : env = coveredEnv := by rw [← hscope, henv, hcenv]
    subst hhome
    exact ⟨cs, hpinned⟩

variable [DecidableEq δ]

/-- **Every active request pins a token that can be recomputed.** -/
def Comparable (W : Server δ) (h : Tx.Recorded (ProjectTables δ) (ProjectOp δ)) : Prop :=
  ∀ r ∈ h.now.requests.rows, r.state.isActive = true → ∃ p ∈ h.past, CreatedBy W p r.toRequestPins ∧
    h.now.tokenKey = p.1.tokenKey ∧ ∃ cs, Pinned W p.1 r.environmentID r.toRequestPins cs

variable {W : Server δ} {h : Tx.Recorded (ProjectTables δ) (ProjectOp δ)}

theorem Comparable.record (hok : KeepsTokens h.now op) (hh : Remembers W h)
    (hc : Comparable W h) : Comparable W (Tx.record (ProjectTables.step W) h op) := by
  intro r hr hactive
  have heffect := stepEffect W h.now op
  have hkey : ∀ r₁ ∈ h.now.requests.rows, r₁.state.isActive = true →
      (h.now.step W op).tokenKey = h.now.tokenKey := by
    intro r₁ hr₁ hactive₁
    refine heffect.tokenKey fun hrotate => ?_
    rw [hok.rotated hrotate r₁ hr₁] at hactive₁
    cases hactive₁
  have hkeep : ∀ r₁ ∈ h.now.requests.rows, r₁.state.isActive = true →
      r.toRequestPins = r₁.toRequestPins → ∃ p ∈ (h.now, op) :: h.past,
        CreatedBy W p r.toRequestPins ∧ (h.now.step W op).tokenKey = p.1.tokenKey ∧
          ∃ cs, Pinned W p.1 r.environmentID r.toRequestPins cs := by
    intro r₁ hr₁ hactive₁ hpins
    obtain ⟨p, hp, hcreated, hsame, cs, hpinned⟩ := hc r₁ hr₁ hactive₁
    rw [hpins]
    exact ⟨p, mem_cons_of_mem _ hp, hcreated, (hkey r₁ hr₁ hactive₁).trans hsame, cs, hpinned⟩
  rcases heffect.request hr with hold | ⟨r₁, hr₁, hmove⟩ | ⟨hstaged, hlt⟩
  · exact hkeep r hold hactive rfl
  · exact hkeep r₁ hr₁ (hmove.active hh.sound hr₁) hmove.pins
  · obtain ⟨cs, hpinned⟩ := hstaged.pinned_home hok
    refine ⟨_, mem_cons_self, ⟨fun r₁ hr₁ hid => ?_, r, hr, rfl⟩, ?_, cs, hpinned⟩
    · exact (hh.sound.requests r₁ hr₁).ne (hstaged.minted hlt) hid
    · refine heffect.tokenKey fun hrotate => ?_
      subst hrotate
      cases hstaged

theorem comparable_history (org : OrgId) (project : ProjectId) (directory : Directory)
    (ops : List (ProjectOp δ))
    (hok : Tx.Along (ProjectTables.step W) KeepsTokens (.init org project directory) ops) :
    Comparable W (Tx.history (ProjectTables.step W) (.init org project directory) ops) := by
  have hstart : Remembers W ⟨.init org project directory, []⟩ :=
    remembers_history org project directory []
  refine (Tx.exec_invariant_along (fun h op => KeepsTokens h.now op)
    (fun h => Remembers W h ∧ Comparable W h) (fun h op hstep hinv => ?_) ops _ hok.record
    ⟨hstart, fun _ hr => absurd hr not_mem_nil⟩).2
  exact ⟨hinv.1.record op, hinv.2.record hstep hinv.1⟩

/-! ## Invalidations -/

/-- **An invalidation for drift has a drift behind it**: if the operation moves an
active request to invalidated as edited or advanced, its review moved since it was
created. -/
def InvalidatedByDrift (W : Server δ) (h : Tx.Recorded (ProjectTables δ) (ProjectOp δ))
    (op : ProjectOp δ) : Prop :=
  ∀ r ∈ h.now.requests.rows, r.state.isActive = true →
    ∀ r' ∈ (h.now.step W op).requests.rows, r'.id = r.id → r'.state = .invalidated →
      (r'.invalidatedCause = some .draftEdited ∨ r'.invalidatedCause = some .envAdvanced) →
        ∃ p ∈ h.past, CreatedBy W p r.toRequestPins ∧ Drifted h.now p.1 r.toRequestPins

/-- A move to invalidated for drift, in a comparable history, is a drift. -/
theorem drifted_of_move {s' : ProjectTables δ} {r r' : ApprovalRequest δ} {cs : ChangeSet}
    (hok : KeepsTokens h.now op) (hh : Remembers W h)
    (hr : r ∈ h.now.requests.rows) (hs₀ : Sound W.ids s₀) (hfollows : Follows W.ids s₀ h.now)
    (hkey : h.now.tokenKey = s₀.tokenKey) (hpinned : Pinned W s₀ r.environmentID r.toRequestPins cs)
    (hmove : RequestMove W h.now op s' r r') (hinvalidated : r'.state = .invalidated)
    (hcause : r'.invalidatedCause = some .draftEdited ∨ r'.invalidatedCause = some .envAdvanced) :
    Drifted h.now s₀ r.toRequestPins := by
  cases hmove with
  | staleDraft henv hid _ hactive hstale =>
    rcases hstale with hdead | ⟨c, hc, hnone⟩
    · rw [hok.requester _ _ _ _ rfl r hr hid hactive] at hdead
      exact .inl hdead
    · exact absurd hnone (Option.isSome_iff_ne_none.mp (hh.sound.declared c hc))
  | refused henv _ _ _ hset hrefusal =>
    cases hrefusal with
    | policyChanged | approverRemoved => exact absurd hcause (by simp [ApprovalRequest.moved])
    | drifted hown hmoved =>
      subst henv
      rw [hown] at hset hmoved
      exact hpinned.drifted hs₀ hfollows hkey hset hmoved
  | @resolved _ _ _ _ bypass =>
    cases bypass with
    | false | true => cases hinvalidated
  | votePolicyChanged => exact absurd hcause (by simp [ApprovalRequest.moved])
  | voteDrifted henv _ hmoved =>
    subst henv
    rcases hmoved with ⟨detail, hstale⟩ | ⟨digest, hdigest, hne⟩
    · exact hpinned.drifted_of_stale hs₀ hh.sound hfollows hstale
    · obtain ⟨cs', hset, -, rfl⟩ := requestPreviewDigest_eq_ok hdigest
      exact hpinned.drifted hs₀ hfollows hkey hset hne
  | voteRejected | voteApproved | expired => cases hinvalidated

/-- **Requests are invalidated by real drift only**, in every run whose steps keep
tokens comparable. -/
theorem invalidated_by_drift (W : Server δ) (org : OrgId) (project : ProjectId)
    (directory : Directory) (ops : List (ProjectOp δ)) (op : ProjectOp δ)
    (hok : Tx.Along (ProjectTables.step W) KeepsTokens (.init org project directory) (ops ++ [op])) :
    InvalidatedByDrift W
      (Tx.history (ProjectTables.step W) (.init org project directory) ops) op := by
  obtain ⟨hbefore, hnow, -⟩ := Tx.along_append.mp hok
  have hh : Remembers W _ := remembers_history org project directory ops
  have hcomparable : Comparable W _ := comparable_history org project directory ops hbefore
  rw [← Tx.history_now] at hnow
  intro r hr hactive r' hr' hid hinvalidated hcause
  obtain ⟨p, hp, hcreated, hkey, cs, hpinned⟩ := hcomparable r hr hactive
  obtain ⟨hs₀, hfollows, -⟩ := hh.past p hp
  refine ⟨p, hp, hcreated, ?_⟩
  rcases (stepEffect W _ op).request hr' with hold | ⟨r₁, hr₁, hmove⟩ | ⟨hstaged, -⟩
  · -- the request itself is active
    have hsame : r' = r := Table.Keyed.eq_of_key hold hr hid
    rw [hsame] at hinvalidated
    rw [hinvalidated] at hactive
    cases hactive
  · have hid₁ : r₁.id = r.id := (congrArg RequestPins.id hmove.pins).symm.trans hid
    have hsame : r₁ = r := Table.Keyed.eq_of_key hr₁ hr hid₁
    subst hsame
    exact drifted_of_move hnow hh hr₁ hs₀ hfollows hkey hpinned hmove hinvalidated hcause
  · rw [hstaged.fresh.2.1] at hinvalidated
    cases hinvalidated

namespace SmallProject

/-- The policy's request is staged, alice's draft is untouched. -/
def underReview : List (ProjectOp Token) := setup ++ review.take 2

/-- Somebody publishes the request. -/
def mergeBy (principal : PrincipalId) : ProjectOp Token :=
  .publish (human principal) env (publication [] "areq_xxx") 3

end SmallProject

open SmallProject in
/-- Alice restages her draft, and her own merge finds the request stale: a drift. -/
theorem restaged_invalidated_by_drift : InvalidatedByDrift server
      (Tx.history (ProjectTables.step server) (.init "o" "p" directory)
        (underReview ++ [.stage (human "alice") env "DB_URL" (.set "w")])) (mergeBy "alice") := by
  refine invalidated_by_drift server "o" "p" directory _ _ ?_
  have hpublish : KeepsTokens (Tx.exec (ProjectTables.step server) covered
      [.stage (human "alice") env "DB_URL" (.set "v")])
      (.publish (human "alice") env (publication ["pcv_xx"] "") 1) := by
    refine ⟨?_, ?_, nofun⟩
    · intro caller scope request now hop
      obtain ⟨rfl, rfl, rfl, rfl⟩ := ProjectOp.publish.inj hop
      decide
    · intro caller scope request now hop _
      obtain ⟨rfl, rfl, rfl, rfl⟩ := ProjectOp.publish.inj hop
      decide
  have hmerge : KeepsTokens (Tx.exec (ProjectTables.step server) (.init "o" "p" directory)
      (underReview ++ [.stage (human "alice") env "DB_URL" (.set "w")])) (mergeBy "alice") := by
    refine ⟨?_, ?_, nofun⟩
    · intro caller scope request now hop
      obtain ⟨rfl, rfl, rfl, rfl⟩ := ProjectOp.publish.inj hop
      decide
    · intro caller scope request now hop hbare
      obtain ⟨-, -, rfl, -⟩ := ProjectOp.publish.inj hop
      exact absurd hbare (by decide)
  have hother : ∀ (s : ProjectTables Token) (op : ProjectOp Token), op ≠ .rotateTokenKey →
      (∀ caller scope request now, op ≠ .publish caller scope request now) → KeepsTokens s op :=
    fun s op hrotate hnot => ⟨fun _ _ _ _ hop => absurd hop (hnot _ _ _ _),
      fun _ _ _ _ hop => absurd hop (hnot _ _ _ _), fun hop => absurd hop hrotate⟩
  refine ⟨?_, ?_, ?_, ?_, hpublish, ?_, hmerge, trivial⟩
  all_goals exact hother _ _ nofun nofun

open SmallProject in
/-- **A publish by somebody else invalidates an intact request**: alice's draft is
live and unchanged and nothing moved, but bob names her request. -/
theorem foreign_publish_invalidates : ¬ InvalidatedByDrift server
      (Tx.history (ProjectTables.step server) (.init "o" "p" directory) underReview)
      (mergeBy "bob") := by
  intro h
  let pins : RequestPins Token :=
    { id := "areq_xxx", environmentID := env, policyID := "apol_x", policyVersion := 1,
      requesterPrincipalID := "alice", versionIDs := ["pcv_xx"], closedVersionIDs := [],
      keyIDs := ["k"],
      previewTokenDigest := (1, env, ⟨0, [⟨env, 1, 2, false, [⟨"pcv_xx", "k", true, 1, "", .values⟩]⟩]⟩),
      baseRevision := 1, purpose := "", createdAt := 1, expiresAt := 60000000001 }
  obtain ⟨p, hp, hcreated, hdrift⟩ := h ⟨pins, .opened, none, none⟩ (by decide) rfl
    ⟨pins, .invalidated, some .draftEdited, some 3⟩ (by decide) rfl rfl (.inl rfl)
  -- only the last step of the run created the request
  rcases mem_cons.mp hp with rfl | hp
  · rcases hdrift with hdead | ⟨cs, hcs, hclosed⟩ | hmoved
    · exact absurd hdead (by decide)
    · have hreview : reviewOf (Tx.exec (ProjectTables.step server) (.init "o" "p" directory)
          underReview) pins = .ok ⟨[⟨"pcv_xx", "k", "alice", env, .set, "v", 1, "", .values⟩], [],
            ⟨0, [⟨env, 1, 2, false, [⟨"pcv_xx", "k", true, 1, "", .values⟩]⟩]⟩⟩ := by rfl
      obtain rfl := Except.ok.inj (hreview.symm.trans hcs)
      exact hclosed rfl
    · exact absurd hmoved (by decide)
  · have hnone : ∀ q ∈ (Tx.history (ProjectTables.step server) (.init "o" "p" directory)
        underReview).past.tail, (q.1.step server q.2).requests.rows = [] := by
      decide
    obtain ⟨r₁, hr₁, -⟩ := hcreated.2
    rw [hnone p hp] at hr₁
    exact absurd hr₁ not_mem_nil

end Hikyo
