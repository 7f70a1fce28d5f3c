import Hikyo.Service.DeliveryFetch

/-!
# A current answer is never stale

A caller that presents the cursor of an earlier fetch and is told "current" keeps what it has. It
may: whatever happened in between, and whoever the two callers were, the rows of the second fetch
are those of the first, as a set of names, classifications and values, with a hidden value counting
as hidden.

The cursor is a MAC over a tuple that holds a MAC over the manifest. If neither
collides, equal cursors have equal tuples and equal manifests. What remains is
that a manifest row does not say whether its value was delivered: the row of a
hidden secret has no value and no occurrence. The tuple does – the projection
names the disclosure capabilities the caller holds, and the pinned historical
revision names the one that counts (`Prepared.revealsSecret_eq`). That revision
is 0 for "not historical", so the argument rests on no snapshot having the
number 0, which is an invariant of every history (`positiveRevisions_exec`).
-/

namespace Hikyo.Delivery

open List
open Tx (bind_ok skip)
open Parameters (Values StoredContract)

/-! ## Histories -/

/-- **One change to an environment**, as the services write it. Their guards are
left out: a history may be any sequence of changes. -/
inductive Change where
  /-- the next snapshot with its entries -/
  | publish (id : String) (schemaRevision : ℕ) (contract : StoredContract)
      (entries : List SnapshotEntry)
  /-- retention removes the payload of a snapshot -/
  | collect (revision : ℕ) (collection : SnapshotCollection)
  /-- the ciphertext of an entry moves to another key -/
  | reencrypt (id : String) (ciphertext : Bytes)
  | setPin (pin : RevisionPin)
  | releasePin (workload : PrincipalId)
  | setGrants (principal : PrincipalId) (grants rows : List Grant)
  | setRules (principal : PrincipalId) (rules : List Rule)
  | setMachineReveal (enabled : Bool)
  | setFileTarget (target : FileTarget)
  | deleteFileTarget (principal : PrincipalId)
  | rotateTokenKey (key : WrappedKey)
  | setProtected (isProtected : Bool)
  /-- credentials, sessions and federation bindings move -/
  | setIdentities (resolve : Actor → ℕ → Except FetchError Caller)
  /-- the self-configuration binding moves -/
  | setProfile (admits : Caller → Except FetchError Unit) (profilePermits : PrincipalId → Bool)

namespace EnvironmentTables

section

variable (t : EnvironmentTables)

/-- The number of the next snapshot. -/
def newRevision : ℕ := (t.latest.map Snapshot.revision).getD 0 + 1

/-- The authority of a principal moved. -/
def bumpPrincipal (principal : PrincipalId) : EnvironmentTables :=
  let next := (t.principalGeneration principal).map (· + 1)
  { t with principalGeneration := Function.update t.principalGeneration principal next }

/-- A pin of a principal moved. -/
def bumpPin (principal : PrincipalId) : EnvironmentTables :=
  let next := t.pinGeneration principal + 1
  { t with pinGeneration := Function.update t.pinGeneration principal next }

/-- Insert the next snapshot; none if an identifier is taken. -/
def insertSnapshot (id : String) (schemaRevision : ℕ)
    (contract : StoredContract) (entries : List SnapshotEntry) : Option EnvironmentTables := do
  let snapshots ← t.snapshots.insert ⟨id, t.newRevision, schemaRevision, contract, none⟩
  let entries ← entries.foldlM Table.Keyed.insert t.entries
  some { t with snapshots := snapshots, entries := entries }

/-- Stamp a snapshot and delete its entries. -/
def collectPayload (revision : ℕ) (collection : SnapshotCollection) : EnvironmentTables :=
  let snapshots := t.snapshots.update (fun s => s.revision = revision)
    (fun s => { s with collected := some collection }) fun _ => rfl
  let entries := t.entries.delete fun e =>
    (t.atRevision revision).any fun s => decide (s.id = e.snapshotID)
  { t with snapshots := snapshots, entries := entries }

/-- Another ciphertext for an entry. -/
def resealEntry (id : String) (ciphertext : Bytes) : EnvironmentTables :=
  let entries := t.entries.update (fun e => e.id = id)
    (fun e => { e with ciphertext := ciphertext }) fun _ => rfl
  { t with entries := entries }

/-- Flip the opt-in. -/
def flipMachineReveal (enabled : Bool) : EnvironmentTables :=
  let generation := (t.machineReveal.map MachineReveal.generation).getD 0
  { t with machineReveal := some ⟨enabled, generation + 1⟩ }

end

end EnvironmentTables

open EnvironmentTables

/-- **What a change writes.** A snapshot whose identifiers are taken is not
inserted. -/
def applyChange (t : EnvironmentTables) : Change → EnvironmentTables
  | .publish id schemaRevision contract entries =>
    (t.insertSnapshot id schemaRevision contract entries).getD t
  | .collect revision collection => t.collectPayload revision collection
  | .reencrypt id ciphertext => t.resealEntry id ciphertext
  | .setPin pin => { t with pins := t.pins.put pin }.bumpPin pin.workloadPrincipalID
  | .releasePin workload =>
    { t with pins := t.pins.delete fun p => p.workloadPrincipalID = workload }.bumpPin workload
  | .setGrants principal grants rows =>
    { t with
      grants := Function.update t.grants principal grants
      grantRows := Function.update t.grantRows principal rows }.bumpPrincipal principal
  | .setRules principal rules =>
    { t with rules := Function.update t.rules principal rules }.bumpPrincipal principal
  | .setMachineReveal enabled => t.flipMachineReveal enabled
  | .setFileTarget target => { t with fileTargets := t.fileTargets.put target }
  | .deleteFileTarget principal =>
    { t with fileTargets := t.fileTargets.delete fun f => f.principalID = principal }
  | .rotateTokenKey key => { t with tokenKey := some key }
  | .setProtected isProtected => { t with isProtected := isProtected }
  | .setIdentities resolve => { t with resolve := resolve }
  | .setProfile admits profilePermits =>
    { t with admits := admits, profilePermits := profilePermits }

/-- No snapshot has the number 0. -/
def PositiveRevisions (t : EnvironmentTables) : Prop := ∀ s ∈ t.snapshots.rows, 0 < s.revision

variable {t : EnvironmentTables}

theorem PositiveRevisions.insertSnapshot {t' : EnvironmentTables} (h : PositiveRevisions t)
    {id : String} {schemaRevision : ℕ} {contract : StoredContract} {entries : List SnapshotEntry}
    (hinsert : t.insertSnapshot id schemaRevision contract entries = some t') :
    PositiveRevisions t' := by
  obtain ⟨snapshots, hsnapshots, hinsert⟩ := Option.bind_eq_some_iff.mp hinsert
  obtain ⟨entries, -, hinsert⟩ := Option.bind_eq_some_iff.mp hinsert
  cases hinsert
  have hrows := (Table.Keyed.insert_eq_some hsnapshots).1
  intro s hs
  rcases mem_cons.mp (hrows ▸ hs) with rfl | hs
  · exact Nat.succ_pos _
  · exact h s hs

/-- **A change numbers no snapshot 0.** -/
theorem PositiveRevisions.applyChange (h : PositiveRevisions t)
    (change : Change) : PositiveRevisions (applyChange t change) := by
  cases change with
  | publish id schemaRevision contract entries =>
    show PositiveRevisions ((t.insertSnapshot id schemaRevision contract entries).getD t)
    cases hinsert : t.insertSnapshot id schemaRevision contract entries with
    | none => exact h
    | some t' => exact h.insertSnapshot hinsert
  | collect revision collection =>
    intro s hs
    rcases Table.mem_update.mp hs with ⟨s₀, hs₀, -, rfl⟩ | ⟨hs, -⟩
    · exact h s₀ hs₀
    · exact h s hs
  | _ => exact h

/-- **In every history the snapshots are numbered from 1.** -/
theorem positiveRevisions_exec (h : PositiveRevisions t)
    (changes : List Change) : PositiveRevisions (Tx.exec applyChange t changes) :=
  Tx.exec_invariant PositiveRevisions (fun _ change ht => ht.applyChange change) changes t h

/-! ## What a fetch that answers did -/

variable {q : Prepared} {rows : Rows} {out : FetchResult}

section Spec

variable {W : World} {t : EnvironmentTables} {call : FetchCall}

/-- **What the answer of a fetch is made of.** -/
theorem finish_eq_ok
    (h : finish W t call q rows = .ok out) : ∃ (signer : TokenSnapshot) (authorizationRevision : ℕ),
      out.cursor = tag W signer.cursor (encodeCursor (q.cursorTuple t.scope
        (tag W signer.change (Parameters.parameterizedManifest rows.manifest call.opts.parameters))
        authorizationRevision (t.pinGeneration q.caller.principal))) ∧
      (out.current = true ↔ call.cursor ≠ "" ∧ call.cursor = out.cursor) := by
  obtain ⟨row, -, h⟩ := bind_ok h
  obtain ⟨signer, -, h⟩ := bind_ok h
  obtain ⟨authorizationRevision, -, h⟩ := bind_ok h
  refine ⟨signer, authorizationRevision, ?_⟩
  cases h
  split
  all_goals exact ⟨rfl, decide_eq_true_iff⟩

/-- **A fetch that answers** prepared, computed its rows and keyed them. -/
theorem fetchAs_eq_ok (h : (fetchAs W t call).answer = .ok out) :
    ∃ q rows, prepare t call = .ok q ∧ (fetchAs W t call).rows = .ok rows ∧
      (deliveryRows W t q.opener q.snapshot call.opts.parameters (q.projection t.scope)).2 =
        .ok rows ∧ finish W t call q rows = .ok out := by
  cases hq : prepare t call with
  | error err =>
    rw [fetchAs, hq] at h
    cases h
  | ok q =>
    rw [fetchAs, hq] at h
    obtain ⟨rows, hrows, hfinish⟩ := bind_ok h
    refine ⟨q, rows, rfl, ?_, hrows, hfinish⟩
    rw [fetchAs, hq]
    exact hrows

/-- **What a fetch prepared.** -/
theorem prepare_eq_ok (h : prepare t call = .ok q) :
    checkOptions call.opts = .ok q.mode ∧ call.sealer = .ok q.opener ∧
      authorizeFetch t call = .ok q.caller ∧
      selectSnapshot t q.caller call.now = .ok q.selection ∧
      effectiveGrants t q.caller = .ok q.grants ∧
      fileTargetSelection t q.caller.principal call.opts.target = .ok (q.only, q.targetGeneration) ∧
      snapshotToDeliver t q.selection = .ok q.snapshot := by
  obtain ⟨mode, hmode, h⟩ := bind_ok h
  obtain ⟨opener, hopener, h⟩ := bind_ok h
  replace h := skip h
  obtain ⟨caller, hcaller, h⟩ := bind_ok h
  replace h := skip h
  obtain ⟨selection, hselection, h⟩ := bind_ok h
  obtain ⟨grants, hgrants, h⟩ := bind_ok h
  obtain ⟨⟨only, generation⟩, htarget, h⟩ := bind_ok h
  obtain ⟨snapshot, hsnapshot, h⟩ := bind_ok h
  cases h
  exact ⟨hmode, hopener, hcaller, hselection, hgrants, htarget, hsnapshot⟩

/-- **A historical pin has a number.** -/
theorem pinnedRevision_pos (hpos : PositiveRevisions t) {caller : Caller} {now : ℕ}
    {selection : Selection} (h : selectSnapshot t caller now = .ok selection)
    (hpinned : selection.pinnedNonCurrent = true) : 0 < selection.pinnedRevision := by
  unfold selectSnapshot at h
  split at h
  next =>
    cases h
    cases hpinned
  next pin _ =>
    split at h
    case isTrue => cases h
    case isFalse =>
      obtain ⟨_, -, h⟩ := bind_ok h
      replace h := skip h
      obtain ⟨snapshot, hsnapshot, h⟩ := bind_ok h
      obtain ⟨_, -, h⟩ := bind_ok h
      obtain ⟨_, -, h⟩ := bind_ok h
      replace h := skip (skip h)
      cases h
      -- the pinned snapshot exists, so its number is one of the history's
      cases hat : t.atRevision pin.revision with
      | none =>
        rw [hat] at hsnapshot
        cases hsnapshot
      | some s =>
        obtain ⟨hmem, hrevision⟩ := mem_of_atRevision hat
        exact hrevision ▸ hpos s hmem

end Spec

/-! ## The rows and the manifest -/

/-- **What a delivered key shows**: its name, its classification, and its value
unless that is hidden. -/
def DeliveredKey.shown (k : DeliveredKey) : String × Classification × Option Bytes :=
  (k.name, k.classification, k.value)

/-- What a row of the manifest stands for, to a caller that does or does not see
secrets. -/
def Row.shown (reveals : Bool) (r : Row) : String × Classification × Option Bytes :=
  (r.key, r.classification,
    if r.classification = .secret ∧ reveals = false then none else some r.value)

/-- The keys are what the manifest stands for. -/
def Rows.Tally (reveals : Bool) (rows : Rows) : Prop :=
  rows.keys.map DeliveredKey.shown = rows.manifest.map (Row.shown reveals)

section Loop

variable {W : World} {opener : FieldOpener} {contract : Parameters.Contract} {supplied : Values}
  {p : Projection}

variable {acc : Rows} {e : SnapshotEntry}

theorem Rows.Tally.addPresence (h : acc.Tally p.revealsSecret)
    (he : p.reach e = .presence) : (acc.addPresence e).Tally p.revealsSecret := by
  have hhidden : e.classification = .secret ∧ p.revealsSecret = false := by
    unfold Projection.reach at he
    split_ifs at he with _ _ hhidden
    exact hhidden
  unfold Tally Rows.addPresence
  rw [map_append, map_append, h]
  simp [Row.shown, DeliveredKey.shown, deliveredKey, hhidden]

theorem Rows.Tally.addPlaintext (h : acc.Tally p.revealsSecret) (he : p.reach e = .plaintext)
    (resolved : Bytes) : (acc.addPlaintext e resolved).Tally p.revealsSecret := by
  have hshown : ¬ (e.classification = .secret ∧ p.revealsSecret = false) := by
    unfold Projection.reach at he
    split_ifs at he with _ _ hshown
    exact hshown
  unfold Tally Rows.addPlaintext
  rw [map_append, map_append, h, map_singleton, map_singleton, Row.shown, if_neg hshown]
  rfl

theorem openEntry_eq_ok {acc' : Rows} (h : openEntry W opener contract supplied acc e = .ok acc') :
    ∃ resolved, acc' = acc.addPlaintext e resolved := by
  unfold openEntry at h
  split at h
  next => cases h
  next =>
    obtain ⟨resolved, -, h⟩ := bind_ok h
    replace h := skip h
    exact ⟨resolved, (Except.ok.inj h).symm⟩

/-- **The loop keeps the keys and the manifest in step.** -/
theorem tally_deliveryEntries : ∀ {es : List SnapshotEntry} {acc rows : Rows},
    acc.Tally p.revealsSecret →
    (deliveryEntries W opener contract supplied p acc es).2 = .ok rows → rows.Tally p.revealsSecret
  | [], _, _, hacc, h => Except.ok.inj h ▸ hacc
  | e :: es, acc, rows, hacc, h => by
    rw [deliveryEntries] at h
    split at h
    next => exact tally_deliveryEntries hacc h
    next hreach => exact tally_deliveryEntries (hacc.addPresence hreach) h
    next hreach =>
      split at h
      next => cases h
      next acc' hopen =>
        obtain ⟨resolved, rfl⟩ := openEntry_eq_ok hopen
        exact tally_deliveryEntries (hacc.addPlaintext hreach resolved) h

theorem tally_deliveryRows {snapshot : Snapshot}
    (h : (deliveryRows W t opener snapshot supplied p).2 = .ok rows) :
    rows.Tally p.revealsSecret := by
  unfold deliveryRows at h
  split at h
  next => cases h
  next => exact tally_deliveryEntries (show Rows.Tally _ ⟨[], [], 0⟩ from rfl) h

end Loop

/-! ## What the cursor says about disclosure -/

variable {scope : Scope} {generation : ℕ}

theorem text_mem_projectionOf {grants : List Grant}
    {c : Capability} (hc : c = .reveal ∨ c = .revealHistory) :
    c.text ∈ projectionOf grants scope generation ↔ holds grants c scope = true := by
  have hgeneration : c.text ∉ (if 0 < generation then
      ["machine-reveal-generation:" ++ toString generation] else []) := by
    have hlabel : "machine-reveal-generation:".toList.head? = some 'm' := by decide
    intro hmem
    split at hmem
    case isTrue =>
      have hhead := congrArg (fun s : String => s.toList.head?) (mem_singleton.mp hmem)
      rw [String.toList_append, head?_append, hlabel, Option.some_or] at hhead
      rcases hc with rfl | rfl
      · exact absurd hhead (by decide)
      · exact absurd hhead (by decide)
    case isFalse => cases hmem
  unfold projectionOf
  rw [mem_append, or_iff_left hgeneration, mem_map]
  constructor
  · rintro ⟨c', hc', htext⟩
    obtain ⟨hlisted, hholds⟩ := mem_filter.mp hc'
    have : c' = c := by
      revert htext
      simp only [mem_cons, not_mem_nil, or_false] at hlisted
      rcases hlisted with rfl | rfl | rfl <;> rcases hc with rfl | rfl <;> decide
    exact this ▸ hholds
  · intro hholds
    refine ⟨c, mem_filter.mpr ⟨?_, hholds⟩, rfl⟩
    rcases hc with rfl | rfl <;> decide

/-- **Equal tuples disclose alike**: they name the same disclosure capabilities and
the same historical revision, so a secret crosses for both callers or for
neither. -/
theorem Prepared.revealsSecret_eq {q' : Prepared} {scope' : Scope}
    (hpos : q.selection.pinnedNonCurrent = true → 0 < q.selection.pinnedRevision)
    (hpos' : q'.selection.pinnedNonCurrent = true → 0 < q'.selection.pinnedRevision)
    {token token' : String} {revision revision' generation' : ℕ}
    (hprojection : ∀ x, x ∈ (q.cursorTuple scope token revision generation).projection ↔
      x ∈ (q'.cursorTuple scope' token' revision' generation').projection)
    (hpinned : (q.cursorTuple scope token revision generation).pinnedHistoricalRevision =
      (q'.cursorTuple scope' token' revision' generation').pinnedHistoricalRevision) :
    q.revealsSecret scope = q'.revealsSecret scope' := by
  have hholds : ∀ c : Capability, c = .reveal ∨ c = .revealHistory →
      holds q.grants c scope = holds q'.grants c scope' := fun c hc =>
    Bool.eq_iff_iff.mpr ((text_mem_projectionOf hc).symm.trans
      ((hprojection c.text).trans (text_mem_projectionOf hc)))
  have hsame : q.selection.pinnedNonCurrent = q'.selection.pinnedNonCurrent := by
    unfold Prepared.cursorTuple at hpinned
    dsimp only at hpinned
    cases h : q.selection.pinnedNonCurrent <;> cases h' : q'.selection.pinnedNonCurrent
    · rfl
    · have := hpos' h'
      simp only [h, h', Bool.false_eq_true, if_false, if_true] at hpinned
      omega
    · have := hpos h
      simp only [h, h', Bool.false_eq_true, if_false, if_true] at hpinned
      omega
    · rfl
  unfold Prepared.revealsSecret Prepared.secretCap
  rw [hsame]
  split
  · exact hholds _ (.inr rfl)
  · exact hholds _ (.inl rfl)

/-! ## Currency -/

/-- **The MAC is free of collisions**, and its text encoding is faithful. -/
structure World.CollisionFree (W : World) : Prop where
  /-- two messages with one MAC are one message, whatever the keys -/
  hmac : ∀ {key key' message message' : Bytes},
    W.hmac key message = W.hmac key' message' → message = message'
  base64url : Function.Injective W.base64url

variable {W : World}

theorem World.CollisionFree.tag_inj (hW : W.CollisionFree) {key key' message message' : Bytes}
    (h : tag W key message = tag W key' message') : message = message' :=
  hW.hmac (hW.base64url ((String.append_right_inj _).mp h))

/-- **Fetches with one cursor show the same.** -/
theorem shown_eq_of_cursor_eq (hW : W.CollisionFree) {t' : EnvironmentTables}
    (hpos : PositiveRevisions t) (hpos' : PositiveRevisions t') {call call' : FetchCall}
    {out' : FetchResult} (h : (fetchAs W t call).answer = .ok out)
    (h' : (fetchAs W t' call').answer = .ok out') (hcursor : out.cursor = out'.cursor)
    {rows' : Rows} (hrows : (fetchAs W t call).rows = .ok rows)
    (hrows' : (fetchAs W t' call').rows = .ok rows') (x : String × Classification × Option Bytes) :
    x ∈ rows.keys.map DeliveredKey.shown ↔ x ∈ rows'.keys.map DeliveredKey.shown := by
  obtain ⟨q, _, hq, hr, hdelivered, hfinish⟩ := fetchAs_eq_ok h
  obtain rfl := Except.ok.inj (hrows.symm.trans hr)
  obtain ⟨q', _, hq', hr', hdelivered', hfinish'⟩ := fetchAs_eq_ok h'
  obtain rfl := Except.ok.inj (hrows'.symm.trans hr')
  obtain ⟨signer, revision, hout, -⟩ := finish_eq_ok hfinish
  obtain ⟨signer', revision', hout', -⟩ := finish_eq_ok hfinish'
  rw [hout, hout'] at hcursor
  obtain ⟨htoken, -, hprojection, -, -, hpinned⟩ := encodeCursor_inj (hW.tag_inj hcursor)
  have hperm : rows.manifest.Perm rows'.manifest :=
    perm_of_manifest_eq (Parameters.manifest_eq_of_parameterizedManifest_eq (hW.tag_inj htoken))
  have hreveals : q.revealsSecret t.scope = q'.revealsSecret t'.scope :=
    Prepared.revealsSecret_eq (pinnedRevision_pos hpos (prepare_eq_ok hq).2.2.2.1)
      (pinnedRevision_pos hpos' (prepare_eq_ok hq').2.2.2.1) hprojection hpinned
  have htally : rows.keys.map DeliveredKey.shown = _ := tally_deliveryRows hdelivered
  have htally' : rows'.keys.map DeliveredKey.shown = _ := tally_deliveryRows hdelivered'
  calc x ∈ rows.keys.map DeliveredKey.shown
      ↔ x ∈ rows.manifest.map (Row.shown (q.revealsSecret t.scope)) := by rw [htally]; rfl
    _ ↔ x ∈ rows'.manifest.map (Row.shown (q'.revealsSecret t'.scope)) := by
      rw [hreveals]
      exact (hperm.map _).mem_iff
    _ ↔ x ∈ rows'.keys.map DeliveredKey.shown := by rw [htally']; rfl

/-- **A current answer is never stale.** Take any history of an environment, two
fetches in it with any callers, modes, targets and parameters, and let the second
present the cursor the first returned. If it is answered current, then the rows it
would have delivered in full are those computed for the first. -/
theorem current_answer_never_stale {W : World} (hW : W.CollisionFree) {created : EnvironmentTables}
    (hcreated : created.snapshots.rows = []) (before between : List Change)
    {first second : FetchCall} {out out' : FetchResult} {rows rows' : Rows}
    (h : (fetchAs W (Tx.exec applyChange created before) first).answer = .ok out)
    (hrows : (fetchAs W (Tx.exec applyChange created before) first).rows = .ok rows)
    (h' : (fetchAs W (Tx.exec applyChange created (before ++ between)) second).answer = .ok out')
    (hrows' : (fetchAs W (Tx.exec applyChange created (before ++ between)) second).rows = .ok rows')
    (hpresented : second.cursor = out.cursor) (hcurrent : out'.current = true) :
    {x | x ∈ rows'.keys.map DeliveredKey.shown} = {x | x ∈ rows.keys.map DeliveredKey.shown} := by
  have hinit : PositiveRevisions created := fun s hs => by
    rw [hcreated] at hs
    cases hs
  obtain ⟨_, _, -, -, -, hfinish⟩ := fetchAs_eq_ok h'
  obtain ⟨_, _, -, hiff⟩ := finish_eq_ok hfinish
  have hcursor : out'.cursor = out.cursor := (hiff.mp hcurrent).2.symm.trans hpresented
  ext x
  exact shown_eq_of_cursor_eq hW (positiveRevisions_exec hinit _) (positiveRevisions_exec hinit _)
    h' h hcursor hrows' hrows x

/-! ### A history in which a secret rotates

A workload that may read but not reveal fetches twice; in between a publish
rotates the secret it cannot see. -/

/-- A world without secrets of its own: the MAC is the message. -/
def plainWorld : World where
  unwrapTier3 _ := .ok []
  hkdf _ info := info
  hmac _ message := message
  base64url bytes := String.ofList (bytes.map fun b => Char.ofNat b.toNat)
  marshalClaims _ := []
  compile _ := .error ""
  validateLiteral _ _ _ := .ok ()

theorem plainWorld_collisionFree : plainWorld.CollisionFree where
  hmac h := h
  base64url := by
    have hnumber : ∀ b : Fin 256, (Char.ofNat b).toNat = b := by decide +kernel
    have hchar : Function.Injective fun b : UInt8 => Char.ofNat b.toNat := by
      intro b b' h
      have hb := congrArg Char.toNat h
      rw [hnumber ⟨b.toNat, b.toNat_lt⟩, hnumber ⟨b'.toNat, b'.toNat_lt⟩] at hb
      exact UInt8.toNat_inj.mp hb
    intro bytes bytes' h
    exact map_injective_iff.mpr hchar (String.ofList_injective h)

/-- A workload and what it may read. -/
def readerTables : EnvironmentTables where
  scope := ⟨"org", "proj", "prod"⟩
  isProtected := false
  snapshots := .empty
  entries := .empty
  pins := .empty
  fileTargets := .empty
  resolve _ _ := .ok ⟨"sa", .workload, "cred", none, "", {}⟩
  grants _ := [⟨.read, ⟨"org", "proj", "prod"⟩⟩]
  grantRows _ := [⟨.read, ⟨"org", "proj", "prod"⟩⟩]
  rules _ := []
  admits _ := .ok ()
  profilePermits _ := true
  machineReveal := none
  principalGeneration _ := some 1
  pinGeneration _ := 0
  tokenKey := some ⟨"tok", .token, "", "", 1, 1, 1, []⟩

/-- One configuration key and one secret key. -/
def twoEntries (snapshot secret : String) : List SnapshotEntry :=
  [⟨snapshot ++ "-a", "org", "proj", "prod", snapshot, "k1", "HOST", .config, utf8 "db", "val_1"⟩,
    ⟨snapshot ++ "-b", "org", "proj", "prod", snapshot, "k2", "PASS", .secret, utf8 secret, secret⟩]

def publishTwo (snapshot secret : String) : Change :=
  .publish snapshot 1 (.object ⟨0, ∅, ∅⟩) (twoEntries snapshot secret)

/-- A fetch of the workload; the ciphertext is the plaintext. -/
def readerCall (cursor : String) : FetchCall where
  actor := "artifact"
  scope := ⟨"org", "proj", "prod"⟩
  cursor := cursor
  opts := ⟨∅, "", [], ""⟩
  now := 0
  sealer := .ok fun _ ciphertext => .ok ciphertext
  orgBudget := .ok ()
  principalBudget _ := .ok ()

/-- The first fetch, and the second with its cursor. -/
def firstFetch : FetchRun :=
  fetchAs plainWorld (Tx.exec applyChange readerTables [publishTwo "s1" "old"]) (readerCall "")

def firstCursor : String := (firstFetch.answer.toOption.map FetchResult.cursor).getD ""

def secondFetch : FetchRun :=
  fetchAs plainWorld
    (Tx.exec applyChange readerTables ([publishTwo "s1" "old"] ++ [publishTwo "s2" "new"]))
    (readerCall firstCursor)

theorem exists_ok_of_toOption {ε α β : Type} {x : Except ε α} {f : α → β} {b : β}
    (h : x.toOption.map f = some b) : ∃ a, x = .ok a ∧ f a = b := by
  cases x with
  | error e => cases h
  | ok a => exact ⟨a, rfl, Option.some.inj h⟩

/-- The second fetch is answered current, and would have shown the same. -/
theorem rotatedSecret_answered_current :
    ∃ out out' rows rows', firstFetch.answer = .ok out ∧ secondFetch.answer = .ok out' ∧
      out'.current = true ∧ firstFetch.rows = .ok rows ∧ secondFetch.rows = .ok rows' ∧
      {x | x ∈ rows'.keys.map DeliveredKey.shown} = {x | x ∈ rows.keys.map DeliveredKey.shown} := by
  obtain ⟨out, h, hcursor⟩ := exists_ok_of_toOption
    (show firstFetch.answer.toOption.map FetchResult.cursor = some firstCursor by decide +kernel)
  obtain ⟨out', h', hcurrent⟩ := exists_ok_of_toOption
    (show secondFetch.answer.toOption.map FetchResult.current = some true by decide +kernel)
  obtain ⟨_, rows, -, hrows, -⟩ := fetchAs_eq_ok h
  obtain ⟨_, rows', -, hrows', -⟩ := fetchAs_eq_ok h'
  exact ⟨out, out', rows, rows', h, h', hcurrent, hrows, hrows',
    current_answer_never_stale plainWorld_collisionFree rfl [publishTwo "s1" "old"]
      [publishTwo "s2" "new"] h hrows h' hrows' hcursor.symm hcurrent⟩

end Hikyo.Delivery
