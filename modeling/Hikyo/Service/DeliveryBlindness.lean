import Hikyo.Service.DeliveryCurrency

/-!
# A delivery does not depend on what it hides

Take two stores that agree on who the caller is and what it holds, on the token
key, and on the latest snapshot – up to what the caller may not see: ciphertext
and occurrence of a secret it cannot reveal, and everything about an entry that is
not in its delivery at all. An unpinned caller cannot tell them apart by a fetch:
it is refused with the same error, or gets the same rows, the same change token,
the same cursor, and the same answer to the cursor it presents. And no entry it
may not see is decrypted on the way.

The loop over the entries is the heart of it. `Projection.redact` keeps of an entry what the caller
may see; the loop gives the same rows on the redacted entries as on the full ones
(`deliveryEntries_redact`), since an omitted entry adds nothing and a presence row has no field
that redaction touches.
-/

namespace Hikyo.Delivery

open List
open Tx (ensure bind_ok skip InStep)
open Parameters (Values Contract)
open EnvironmentTables

/-! ## Redaction -/

namespace Projection

variable (p : Projection)

/-- The entry without what is hidden in it. -/
def hideValue (e : SnapshotEntry) : SnapshotEntry := { e with ciphertext := [], valueEntryID := "" }

/-- **What the caller may see of an entry.** -/
def redact (e : SnapshotEntry) : Option SnapshotEntry :=
  match p.reach e with
  | .omitted => none
  | .presence => some (hideValue e)
  | .plaintext => some e

/-- What decides about an entry is not hidden. -/
@[simp] theorem reach_hideValue (e : SnapshotEntry) : p.reach (hideValue e) = p.reach e := rfl

end Projection

section Loop

variable {W : World} {opener opener' : FieldOpener} {contract : Contract} {supplied : Values}
  {p : Projection}

/-- **The loop does not see what is redacted.** -/
theorem deliveryEntries_redact : ∀ (es : List SnapshotEntry) (acc : Rows),
    (deliveryEntries W opener contract supplied p acc es).2 =
      (deliveryEntries W opener contract supplied p acc (es.filterMap p.redact)).2
  | [], _ => rfl
  | e :: es, acc => by
    cases hreach : p.reach e with
    | omitted =>
      rw [filterMap_cons_none (by rw [Projection.redact, hreach]), deliveryEntries, hreach]
      exact deliveryEntries_redact es acc
    | presence =>
      rw [filterMap_cons_some (by rw [Projection.redact, hreach]), deliveryEntries,
        deliveryEntries, Projection.reach_hideValue, hreach]
      exact deliveryEntries_redact es (acc.addPresence e)
    | plaintext =>
      rw [filterMap_cons_some (by rw [Projection.redact, hreach]), deliveryEntries,
        deliveryEntries, hreach]
      cases hopen : openEntry W opener contract supplied acc e with
      | error err => rfl
      | ok acc' => exact deliveryEntries_redact es acc'

/-- The loop opens with the sealer only what reaches the caller with its plaintext. -/
theorem deliveryEntries_congr : ∀ (es : List SnapshotEntry) (acc : Rows),
    (∀ e ∈ es, p.reach e = .plaintext →
      opener (snapshotAAD e) e.ciphertext = opener' (snapshotAAD e) e.ciphertext) →
    deliveryEntries W opener contract supplied p acc es =
      deliveryEntries W opener' contract supplied p acc es
  | [], _, _ => rfl
  | e :: es, acc, h => by
    have htail := fun acc => deliveryEntries_congr es acc
      fun e he => h e (mem_cons_of_mem _ he)
    rw [deliveryEntries, deliveryEntries]
    cases hreach : p.reach e with
    | omitted => exact htail acc
    | presence => exact htail (acc.addPresence e)
    | plaintext =>
      have hopen : openEntry W opener contract supplied acc e =
          openEntry W opener' contract supplied acc e := by
        unfold openEntry
        rw [h e mem_cons_self hreach]
      dsimp only
      rw [hopen]
      cases openEntry W opener' contract supplied acc e with
      | error err => rfl
      | ok acc' => exact congrArg (fun r => (e :: r.1, r.2)) (htail acc')

/-- **Only what reaches the caller with its plaintext is opened.** -/
theorem reach_of_mem_opened : ∀ {es : List SnapshotEntry} {acc : Rows} {e : SnapshotEntry},
    e ∈ (deliveryEntries W opener contract supplied p acc es).1 → p.reach e = .plaintext
  | [], _, _, he => nomatch he
  | e' :: es, acc, e, he => by
    rw [deliveryEntries] at he
    split at he
    next => exact reach_of_mem_opened he
    next => exact reach_of_mem_opened he
    next hreach =>
      split at he
      next => exact mem_singleton.mp he ▸ hreach
      next =>
        rcases mem_cons.mp he with rfl | he
        · exact hreach
        · exact reach_of_mem_opened he

end Loop

/-! ## Stores that agree up to what is hidden -/

/-- The projection of a caller without a pin. -/
def unpinnedProjection (t : EnvironmentTables) (call : FetchCall) (caller : Caller) :
    Except FetchError Projection := do
  let mode ← checkOptions call.opts
  let grants ← effectiveGrants t caller
  let (only, _) ← fileTargetSelection t caller.principal call.opts.target
  .ok ⟨mode, holds grants .reveal t.scope, only⟩

/-- The stores agree on what a caller holds, and the caller has no pin in either. -/
structure SameHoldings (c : Caller) (t t' : EnvironmentTables) : Prop where
  grants : t.grants c.principal = t'.grants c.principal
  rules : t.rules c.principal = t'.rules c.principal
  grantRows : t.grantRows c.principal = t'.grantRows c.principal
  authorityGrants : t.grants c.authorityPrincipal = t'.grants c.authorityPrincipal
  authorityRules : t.rules c.authorityPrincipal = t'.rules c.authorityPrincipal
  admits : t.admits c = t'.admits c
  fileTarget : t.fileTargetFor c.principal = t'.fileTargetFor c.principal
  principalGeneration : t.principalGeneration c.principal = t'.principalGeneration c.principal
  pinGeneration : t.pinGeneration c.principal = t'.pinGeneration c.principal
  unpinned : t.pinFor c.principal = none
  unpinned' : t'.pinFor c.principal = none

/-- The latest snapshots agree on the contract and, up to redaction, on the
entries; and what is not hidden opens to the same plaintext. -/
structure SameSnapshot (p : Projection) (sealer sealer' : Except FetchError FieldOpener)
    (t t' : EnvironmentTables) (s s' : Snapshot) : Prop where
  contract : s.parameterContract = s'.parameterContract
  entries : (t.entriesOf s).filterMap p.redact = (t'.entriesOf s').filterMap p.redact
  plaintext : ∀ opener opener', sealer = .ok opener → sealer' = .ok opener' →
    ∀ e ∈ t.entriesOf s, p.reach e = .plaintext →
      opener (snapshotAAD e) e.ciphertext = opener' (snapshotAAD e) e.ciphertext

/-- Both have a latest snapshot that agrees, or neither has one. -/
def SameLatest (p : Projection) (sealer sealer' : Except FetchError FieldOpener)
    (t t' : EnvironmentTables) : Prop :=
  match t.latest, t'.latest with
  | none, none => True
  | some s, some s' => SameSnapshot p sealer sealer' t t' s s'
  | _, _ => False

/-- **Two stores that differ at most in what the caller may not see**, each with
the sealer of its project. -/
structure AgreeUpToHidden (call : FetchCall) (sealer' : Except FetchError FieldOpener)
    (t t' : EnvironmentTables) : Prop where
  scope : t.scope = t'.scope
  isProtected : t.isProtected = t'.isProtected
  identity : t.resolve call.actor call.now = t'.resolve call.actor call.now
  machineReveal : t.machineReveal = t'.machineReveal
  tokenKey : t.tokenKey = t'.tokenKey
  /-- the sealers are refused alike -/
  sealer : InStep (fun _ _ => True) call.sealer sealer'
  holdings : ∀ c, t.resolve call.actor call.now = .ok c → SameHoldings c t t'
  latest : ∀ c p, t.resolve call.actor call.now = .ok c → unpinnedProjection t call c = .ok p →
    SameLatest p call.sealer sealer' t t'

/-! ## The two runs in step -/

variable {p : Projection} {c : Caller}

namespace AgreeUpToHidden

variable {W : World} {call : FetchCall} {sealer' : Except FetchError FieldOpener}
  {t t' : EnvironmentTables}

/-- The rows are the same. -/
theorem deliveryRows_eq {s s' : Snapshot} {opener opener' : FieldOpener}
    (h : SameSnapshot p call.sealer sealer' t t' s s') (hopener : call.sealer = .ok opener)
    (hopener' : sealer' = .ok opener') (supplied : Values) :
    (deliveryRows W t opener s supplied p).2 = (deliveryRows W t' opener' s' supplied p).2 := by
  unfold deliveryRows
  rw [← h.contract]
  cases snapshotParameters W s.parameterContract supplied with
  | error err => rfl
  | ok contract =>
    show (deliveryEntries W opener contract supplied p ⟨[], [], 0⟩ (t.entriesOf s)).2 =
      (deliveryEntries W opener' contract supplied p ⟨[], [], 0⟩ (t'.entriesOf s')).2
    rw [deliveryEntries_congr _ _ (h.plaintext opener opener' hopener hopener'),
      deliveryEntries_redact, h.entries, ← deliveryEntries_redact]

theorem fetchHeld_eq (hscope : t.scope = t'.scope) (h : SameHoldings c t t') :
    fetchHeld t c = fetchHeld t' c := by
  unfold fetchHeld developerEnvironmentAuthority
  rw [hscope, h.grants, h.rules, h.authorityGrants, h.authorityRules]

theorem authorizeFetch_eq (h : AgreeUpToHidden call sealer' t t') :
    authorizeFetch t call = authorizeFetch t' { call with sealer := sealer' } := by
  unfold authorizeFetch
  show (t.resolve call.actor call.now >>= _) = (t'.resolve call.actor call.now >>= _)
  rw [← h.identity]
  cases hc : t.resolve call.actor call.now with
  | error err => rfl
  | ok c =>
    have hsame := h.holdings c hc
    show (ensure (call.scope = t.scope) FetchError.notFound >>= _) =
      (ensure (call.scope = t'.scope) FetchError.notFound >>= _)
    rw [h.scope, h.isProtected, fetchHeld_eq h.scope hsame, hsame.admits]

theorem resolve_of_authorizeFetch (h : authorizeFetch t call = .ok c) :
    t.resolve call.actor call.now = .ok c := by
  obtain ⟨c', hc', h⟩ := bind_ok h
  replace h := skip (skip (skip (skip h)))
  exact Except.ok.inj h ▸ hc'

theorem effectiveGrants_eq (h : AgreeUpToHidden call sealer' t t')
    (hsame : SameHoldings c t t') : effectiveGrants t c = effectiveGrants t' c := by
  unfold effectiveGrants callerGrants developerDeliveryGrants developerEnvironmentAuthority
    machineRevealOptIn
  rw [h.scope, h.machineReveal, hsame.grantRows, hsame.authorityGrants, hsame.authorityRules]

theorem fileTargetSelection_eq (h : AgreeUpToHidden call sealer' t t')
    (hsame : SameHoldings c t t') (requested : String) :
    fileTargetSelection t c.principal requested = fileTargetSelection t' c.principal requested := by
  unfold fileTargetSelection
  rw [hsame.fileTarget, h.scope]

theorem selectSnapshot_unpinned (h : t.pinFor c.principal = none) (now : ℕ) :
    selectSnapshot t c now = .ok ⟨none, false, 0, false⟩ := by
  unfold selectSnapshot
  rw [h]

end AgreeUpToHidden

/-- **Two preparations that differ at most in what is hidden.** -/
structure SamePrepared (call : FetchCall) (sealer' : Except FetchError FieldOpener)
    (t t' : EnvironmentTables) (q q' : Prepared) : Prop where
  mode : q.mode = q'.mode
  caller : q.caller = q'.caller
  selection : q.selection = q'.selection
  grants : q.grants = q'.grants
  revealGeneration : q.revealGeneration = q'.revealGeneration
  only : q.only = q'.only
  targetGeneration : q.targetGeneration = q'.targetGeneration
  opener : call.sealer = .ok q.opener
  opener' : sealer' = .ok q'.opener
  snapshot : SameSnapshot (q.projection t.scope) call.sealer sealer' t t' q.snapshot q'.snapshot
  holdings : SameHoldings q.caller t t'

section Runs

variable {W : World} {call : FetchCall} {sealer' : Except FetchError FieldOpener}
  {t t' : EnvironmentTables}

/-- The latest snapshots, where there is no pin. -/
theorem snapshotToDeliver_inStep (h : SameLatest p call.sealer sealer' t t')
    {selection : Selection} (hselection : selection.selected = none) :
    InStep (SameSnapshot p call.sealer sealer' t t') (snapshotToDeliver t selection)
      (snapshotToDeliver t' selection) := by
  unfold snapshotToDeliver
  unfold SameLatest at h
  rw [hselection]
  cases hs : t.latest with
  | none =>
    cases hs' : t'.latest with
    | none => exact .error _
    | some s' =>
      rw [hs, hs'] at h
      exact h.elim
  | some s =>
    cases hs' : t'.latest with
    | none =>
      rw [hs, hs'] at h
      exact h.elim
    | some s' =>
      rw [hs, hs'] at h
      exact .ok h

/-- **Both fetches prepare alike.** -/
theorem prepare_inStep (h : AgreeUpToHidden call sealer' t t') :
    InStep (SamePrepared call sealer' t t') (prepare t call)
      (prepare t' { call with sealer := sealer' }) := by
  unfold prepare
  refine (InStep.of_eq (rfl : checkOptions call.opts = _)).bind fun mode _ hmode _ heq => ?_
  subst heq
  refine h.sealer.bind fun opener opener' hopener hopener' _ => ?_
  refine (InStep.of_eq (rfl : call.orgBudget = _)).bind fun _ _ _ _ _ => ?_
  refine (InStep.of_eq h.authorizeFetch_eq).bind fun c _ hc _ heq => ?_
  subst heq
  have hresolve := AgreeUpToHidden.resolve_of_authorizeFetch hc
  have hsame := h.holdings c hresolve
  refine (InStep.of_eq (rfl : chargePrincipal call c = _)).bind fun _ _ _ _ _ => ?_
  have hselect := AgreeUpToHidden.selectSnapshot_unpinned hsame.unpinned call.now
  refine (InStep.of_eq (hselect.trans (AgreeUpToHidden.selectSnapshot_unpinned hsame.unpinned'
    call.now).symm)).bind fun selection _ hselection _ heq => ?_
  subst heq
  obtain rfl := Except.ok.inj (hselection.symm.trans hselect)
  refine (InStep.of_eq (h.effectiveGrants_eq hsame)).bind fun grants _ hgrants _ heq => ?_
  subst heq
  refine (InStep.of_eq (h.fileTargetSelection_eq hsame call.opts.target)).bind
    fun target _ htarget _ heq => ?_
  subst heq
  have hprojection : unpinnedProjection t call c =
      .ok ⟨mode, holds grants .reveal t.scope, target.1⟩ := by
    unfold unpinnedProjection
    rw [hmode, hgrants, htarget]
    rfl
  refine (snapshotToDeliver_inStep (h.latest c _ hresolve hprojection) rfl).bind
    fun s s' _ _ hsnapshot => ?_
  have hgeneration : (machineRevealOptIn t c).2 = (machineRevealOptIn t' c).2 := by
    unfold machineRevealOptIn
    rw [h.machineReveal]
  exact .ok ⟨rfl, rfl, rfl, rfl, hgeneration, rfl, rfl, hopener, hopener', hsnapshot, hsame⟩

/-! ## The answers -/

/-- A key without its receipt. -/
def DeliveredKey.withoutReceipt (k : DeliveredKey) : DeliveredKey :=
  { k with snapshotReceipt := none }

/-- **The same answer**: the same verdict on the cursor, the same keyed values, the
same key rows. A receipt also attests the number of the revision, so receipts are
the same if the numbers are. -/
structure SameAnswer (out out' : FetchResult) : Prop where
  current : out.current = out'.current
  cursor : out.cursor = out'.cursor
  changeToken : out.changeToken = out'.changeToken
  keys : out.keys.map DeliveredKey.withoutReceipt = out'.keys.map DeliveredKey.withoutReceipt
  receipts : out.revision = out'.revision → out.keys = out'.keys

@[simp] theorem withoutReceipt_withReceipt (signer : TokenSnapshot) (c : Caller) (out : FetchResult)
    (k : DeliveredKey) : (withReceipt W signer c out k).withoutReceipt = k.withoutReceipt := by
  unfold withReceipt
  split
  · rfl
  · rfl

/-- **Both fetches key and compare alike.** -/
theorem finish_inStep (h : AgreeUpToHidden call sealer' t t') {q q' : Prepared}
    (hq : SamePrepared call sealer' t t' q q') (rows : Rows) :
    InStep SameAnswer (finish W t call q rows)
      (finish W t' { call with sealer := sealer' } q' rows) := by
  unfold finish
  have htoken : activeTokenKey t = activeTokenKey t' := by
    unfold activeTokenKey
    rw [h.tokenKey]
  refine (InStep.of_eq htoken).bind fun row _ _ _ heq => ?_
  subst heq
  have hsigner : deliveryTokenSnapshot W row t.scope = deliveryTokenSnapshot W row t'.scope := by
    rw [h.scope]
  refine (InStep.of_eq hsigner).bind fun signer _ _ _ heq => ?_
  subst heq
  have hgeneration : found (t.principalGeneration q.caller.principal) =
      found (t'.principalGeneration q'.caller.principal) := by
    rw [← hq.caller, hq.holdings.principalGeneration]
  refine (InStep.of_eq hgeneration).bind fun revision _ _ _ heq => ?_
  subst heq
  have htuple : ∀ token, q.cursorTuple t.scope token revision (t.pinGeneration q.caller.principal) =
      q'.cursorTuple t'.scope token revision (t'.pinGeneration q'.caller.principal) := by
    intro token
    unfold Prepared.cursorTuple
    rw [h.scope, hq.mode, hq.selection, hq.grants, hq.revealGeneration, ← hq.caller,
      hq.holdings.pinGeneration]
  dsimp only
  rw [htuple]
  split
  · exact .ok ⟨rfl, rfl, rfl, rfl, fun _ => rfl⟩
  · refine .ok ⟨rfl, rfl, rfl, ?_, fun hrevision => ?_⟩
    · simp only [map_map]
      exact map_congr_left fun k _ => by simp
    · refine map_congr_left fun k _ => ?_
      unfold withReceipt issueOfflineReceipt
      dsimp only at hrevision ⊢
      rw [hrevision, hq.caller]

theorem fetchAs_answer : (fetchAs W t call).answer = prepare t call >>= fun q =>
    (deliveryRows W t q.opener q.snapshot call.opts.parameters (q.projection t.scope)).2 >>=
      finish W t call q := by
  unfold fetchAs
  cases prepare t call with
  | error err | ok q => rfl

/-- **What a fetch without a pin opens reaches its caller.** -/
theorem reach_of_mem_fetchAs_opened (hc : t.resolve call.actor call.now = .ok c)
    (hpin : t.pinFor c.principal = none) (hp : unpinnedProjection t call c = .ok p)
    {e : SnapshotEntry} (he : e ∈ (fetchAs W t call).opened) : p.reach e = .plaintext := by
  unfold fetchAs at he
  split at he
  next => cases he
  next q hq =>
    obtain ⟨hmode, -, hcaller, hselection, hgrants, htarget, -⟩ := prepare_eq_ok hq
    obtain rfl := Except.ok.inj
      (hc.symm.trans (AgreeUpToHidden.resolve_of_authorizeFetch hcaller))
    have hunpinned := Except.ok.inj
      (hselection.symm.trans (AgreeUpToHidden.selectSnapshot_unpinned hpin call.now))
    have hprojection : q.projection t.scope = p := by
      unfold unpinnedProjection at hp
      rw [hmode, hgrants, htarget] at hp
      rw [← Except.ok.inj hp]
      unfold Prepared.projection Prepared.revealsSecret Prepared.secretCap
      rw [hunpinned]
      rfl
    rw [← hprojection]
    have he : e ∈ (deliveryRows W t q.opener q.snapshot call.opts.parameters
      (q.projection t.scope)).1 := he
    unfold deliveryRows at he
    split at he
    next => cases he
    next => exact reach_of_mem_opened he

/-- **Delivery does not depend on what the caller may not see.** In two stores that
agree up to what is hidden from an unpinned caller, a fetch is refused with the
same error or answered the same, and it decrypts nothing that is hidden. -/
theorem fetch_blind_to_hidden (h : AgreeUpToHidden call sealer' t t') :
    InStep SameAnswer (fetchAs W t call).answer
        (fetchAs W t' { call with sealer := sealer' }).answer ∧
      ∀ c p, t.resolve call.actor call.now = .ok c → unpinnedProjection t call c = .ok p →
        (∀ e ∈ (fetchAs W t call).opened, p.reach e = .plaintext) ∧
        ∀ e ∈ (fetchAs W t' { call with sealer := sealer' }).opened, p.reach e = .plaintext := by
  constructor
  · rw [fetchAs_answer, fetchAs_answer]
    refine (prepare_inStep h).bind fun q q' _ _ hq => ?_
    have hprojection : q.projection t.scope = q'.projection t'.scope := by
      unfold Prepared.projection Prepared.revealsSecret Prepared.secretCap
      rw [h.scope, hq.mode, hq.only, hq.grants, hq.selection]
    have hrows := AgreeUpToHidden.deliveryRows_eq (W := W) hq.snapshot hq.opener hq.opener'
      call.opts.parameters
    rw [hprojection] at hrows
    refine (InStep.of_eq (hprojection ▸ hrows)).bind fun rows _ _ _ heq => ?_
    subst heq
    exact finish_inStep h hq rows
  · intro c p hc hp
    have hsame := h.holdings c hc
    refine ⟨fun e he => reach_of_mem_fetchAs_opened hc hsame.unpinned hp he, fun e he => ?_⟩
    refine reach_of_mem_fetchAs_opened (h.identity ▸ hc) hsame.unpinned' ?_ he
    unfold unpinnedProjection at hp ⊢
    rw [← h.effectiveGrants_eq hsame, ← h.fileTargetSelection_eq hsame, ← h.scope]
    exact hp

end Runs

/-! ### Two stores that differ in a secret -/

/-- The environment of the reader with one value or another of the secret. -/
def secretStore (secret : String) : EnvironmentTables :=
  applyChange readerTables (publishTwo "s1" secret)

theorem secretStore_latest (secret : String) : (secretStore secret).latest =
    some ⟨"s1", 1, 1, .object ⟨0, ∅, ∅⟩, none⟩ := rfl

theorem secretStore_agree : AgreeUpToHidden (readerCall "") (.ok fun _ ciphertext => .ok ciphertext)
      (secretStore "old") (secretStore "new") where
  scope := rfl
  isProtected := rfl
  identity := rfl
  machineReveal := rfl
  tokenKey := rfl
  sealer := .ok trivial
  holdings _ _ := ⟨rfl, rfl, rfl, rfl, rfl, rfl, rfl, rfl, rfl, rfl, rfl⟩
  latest c p hc hp := by
    cases hc
    have hfull : unpinnedProjection (secretStore "old") (readerCall "")
        ⟨"sa", .workload, "cred", none, "", {}⟩ = .ok ⟨.full, false, none⟩ := rfl
    obtain rfl := Except.ok.inj (hfull.symm.trans hp)
    unfold SameLatest
    rw [secretStore_latest, secretStore_latest]
    exact ⟨rfl, by decide +kernel, fun _ _ h h' _ _ _ => by
      rw [← Except.ok.inj h, ← Except.ok.inj h']⟩

/-- A reader who may not reveal cannot tell an old secret from a new one. -/
theorem secretStore_indistinguishable :
    InStep SameAnswer (fetchAs plainWorld (secretStore "old") (readerCall "")).answer
      (fetchAs plainWorld (secretStore "new") (readerCall "")).answer :=
  (fetch_blind_to_hidden secretStore_agree).1

/-- An answer as it comes back for a presented cursor: without its rows if it is the cursor's. -/
def FetchResult.presented (cursor : String) (out : FetchResult) : FetchResult :=
  if cursor ≠ "" ∧ cursor = out.cursor then { out with current := true, keys := [] } else out

end Hikyo.Delivery
