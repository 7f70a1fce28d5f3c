import Hikyo.Authz.Authorize

/-!
# Selecting drafts

A publish names versions of the caller's own drafts (`resolveVersions`). A change
to a member of a key group pulls the owner's changes to the other members in the
same environment into the publish, until nothing is left to pull
(`selectVersions`); a group whose pending members belong to two owners is
refused. The selection is reviewed under a preview token, which binds everything
the publish would depend on (`previewTokenInput`).

The closure loop ends, and is refused only for a reason of its own (`selectVersions_eq_error`).
What it selects is described by `Closes`: live drafts of the one owner, named or pulled in.
Selection and preview together are the `ChangeSet` a review is about; two change sets of the same
versions hold the same drafts as long as the drafts were not edited (`ChangeSet.Of.changes_eq`).
-/

namespace Hikyo

open List
open Tx (bind_ok skip untilStable foldlM_invariant foldlM_eq_error foldlM_mono)

variable {δ : Type}

/-! ## Versions -/

/-- One round of `resolveVersions` for each identifier. A version that was
superseded, published, discarded or is somebody else's is the same answer. -/
def resolveEach (s : ProjectTables δ) (principal : PrincipalId) :
    List VersionId → Except ServiceError (List PendingChange)
  | [] => .ok []
  | id :: ids =>
    match (s.listForOwner principal).find? fun c => c.id = id with
    | none => .error (.stalePending
        ("no live pending change " ++ id ++ " is owned by this principal"))
    | some change => do
      let selected ← resolveEach s principal ids
      return selected.insert change

/-- The order in which a selection is gone through. -/
def sortedChanges (selected : List PendingChange) : List PendingChange :=
  Table.orderBy (fun c => [c.environmentID, c.id]) selected

/-- The versions of the principal's own live drafts with the given identifiers.
The map of the selection is kept as the list in which it is gone through. -/
def resolveVersions (s : ProjectTables δ) (principal : PrincipalId) (ids : List VersionId) :
    Except ServiceError (List PendingChange) := do
  let selected ← resolveEach s principal ids
  return sortedChanges selected

/-! ## Key-group closure -/

/-- What the closure loop carries: the selection, the versions pulled in, and
whether the current pass pulled one. -/
structure Closure where
  selected : List PendingChange
  closed : List VersionId
  grew : Bool

section Closing

variable (s : ProjectTables δ) (principal : PrincipalId)
  (guard : EnvId → KeyId → Except ServiceError Unit)

/-- One marker against one member of the group of a selected change. -/
def pullMarker (groupID : String) (env : EnvId) (member : CatalogueKey) (c : Closure)
    (marker : PendingChange) : Except ServiceError Closure :=
  if ¬ (marker.keyID = member.id ∧ marker.environmentID = env) then .ok c
  else if marker.ownerID ≠ principal then .error (.invalid
    ("key group " ++ groupID ++ " couples key " ++ member.name ++
      ", whose pending change in environment " ++ env ++
      " is owned by another principal: publish is refused rather than split"))
  else if c.selected.any fun x => x.id = marker.id then .ok c
  else
    match (s.listForOwner principal).find? fun x => x.id = marker.id with
    | none => .error (.stalePending ("group member version " ++ marker.id ++ " is no longer live"))
    | some pull => .ok ⟨c.selected ++ [pull], c.closed ++ [marker.id], true⟩

/-- One member: the caller's authority over it, then the markers. -/
def pullMember (groupID : String) (env : EnvId) (c : Closure) (member : CatalogueKey) :
    Except ServiceError Closure := do
  guard env member.id
  s.listMarkers.foldlM (pullMarker s principal groupID env member) c

/-- One selected change. -/
def closeChange (c : Closure) (change : PendingChange) : Except ServiceError Closure :=
  match s.keyByID change.keyID with
  | none => .error (.stalePending ("pending change " ++ change.id ++ " names key " ++ change.keyID ++
      ", which is no longer declared"))
  | some key =>
    if key.groupID = "" then .ok c
    else (s.members key.groupID).foldlM
      (pullMember s principal guard key.groupID change.environmentID) c

/-- One pass over the selection as it stood before the pass. -/
def closePass (c : Closure) : Except ServiceError (Closure × Bool) := do
  let c ← (sortedChanges c.selected).foldlM (closeChange s principal guard) { c with grew := false }
  return (c, c.grew)

/-- The passes, until nothing is pulled. Each pass before the last one pulls a
draft, which bounds their number. -/
def closeGroups (selected : List PendingChange) : Except ServiceError Closure :=
  untilStable (closePass s principal guard) .endless (s.pending.rows.length + 1)
    ⟨selected, [], false⟩

/-- **The selection with its closure**, in order, and the versions pulled in. -/
def selectVersions (selected : List PendingChange) :
    Except ServiceError (List PendingChange × List VersionId) := do
  let c ← closeGroups s principal guard selected
  return (sortedChanges c.selected, Table.orderBy id c.closed)

end Closing

section

variable (s : ProjectTables δ) (selection : List PendingChange) (env : EnvId)

/-- The environments of a selection, in order. -/
def selectionEnvs : List EnvId :=
  (selection.map PendingChange.environmentID).dedup

/-- The part of a selection that is applied to an environment. -/
def appliesOf : List PendingChange :=
  selection.filter fun c => c.environmentID = env

/-- The sorted set of a list of identifiers. -/
def sortedUnique (ids : List String) : List String := (Table.orderBy id ids).dedup

/-- The keys a selection changes. -/
def selectionKeyIDs (applies : List PendingChange) : List KeyId :=
  sortedUnique (applies.map PendingChange.keyID)

/-! ## The preview token -/

structure PreviewTokenChange where
  versionID : VersionId
  keyID : KeyId
  set : Bool
  stagedFrom : ℕ
  stagedFromEntry : String
  source : PendingSource
deriving DecidableEq, Repr

structure PreviewTokenEnvironment where
  environmentID : EnvId
  baseRevision : ℕ
  schemaRevision : ℕ
  isProtected : Bool
  changes : List PreviewTokenChange
deriving DecidableEq, Repr

/-- **What a preview token binds.** -/
structure PreviewTokenInput where
  principalGeneration : ℕ
  environments : List PreviewTokenEnvironment
deriving DecidableEq, Repr

/-- The change as the token sees it; the material is not part of it. -/
def PendingChange.previewChange (c : PendingChange) : PreviewTokenChange where
  versionID := c.id
  keyID := c.keyID
  set := c.operation = .set
  stagedFrom := c.stagedFromRevision
  stagedFromEntry := c.stagedFromEntry
  source := c.source

/-- One environment of the selection as the token sees it. -/
def previewTokenEnvironment : PreviewTokenEnvironment where
  environmentID := env
  baseRevision := s.currentRevision env
  schemaRevision := s.schemaRevision
  isProtected := s.isProtected env
  changes := Table.orderBy PreviewTokenChange.versionID
    ((appliesOf selection env).map PendingChange.previewChange)

def previewTokenInput (principal : PrincipalId)
    (selection : List PendingChange) : PreviewTokenInput where
  principalGeneration := s.directory.generation principal
  environments := (selectionEnvs selection).map (previewTokenEnvironment s selection)

/-- The tagging of a preview, under a version of the root token key and for the
environment a call addresses, and the digest of a token that a request keeps. -/
structure PreviewTokens (δ : Type) where
  publishPreviewToken : ℕ → EnvId → PreviewTokenInput → δ
  approvalPreviewDigest : δ → δ

/-- No two previews have one digest. -/
def PreviewTokens.CollisionFree (T : PreviewTokens δ) : Prop :=
  ∀ k env input k' env' input',
    T.approvalPreviewDigest (T.publishPreviewToken k env input) =
        T.approvalPreviewDigest (T.publishPreviewToken k' env' input') →
      k = k' ∧ env = env' ∧ input = input'

/-- The preview token of a selection, for a call that addresses `env`. -/
def publishPreviewToken (T : PreviewTokens δ) (s : ProjectTables δ) (principal : PrincipalId)
    (env : EnvId) (selection : List PendingChange) : δ :=
  T.publishPreviewToken s.tokenKey env (previewTokenInput s principal selection)

end

/-! ## What is selected -/

variable {s : ProjectTables δ} {principal : PrincipalId} {c : PendingChange}

theorem mem_listForOwner :
    c ∈ s.listForOwner principal ↔ c ∈ s.pending.rows ∧ c.ownerID = principal := by
  simp [ProjectTables.listForOwner]

theorem mem_listMarkers : c ∈ s.listMarkers ↔ c ∈ s.pending.rows := by
  simp [ProjectTables.listMarkers]

variable {selected : List PendingChange}

@[simp] theorem mem_sortedChanges : c ∈ sortedChanges selected ↔ c ∈ selected :=
  Table.mem_orderBy

variable {selection : List PendingChange} {env : EnvId}

theorem mem_selectionEnvs :
    env ∈ selectionEnvs selection ↔ ∃ c ∈ selection, c.environmentID = env := by
  simp [selectionEnvs]

theorem mem_appliesOf : c ∈ appliesOf selection env ↔ c ∈ selection ∧ c.environmentID = env := by
  simp [appliesOf]

@[simp] theorem mem_sortedUnique {ids : List String} {id : String} :
    id ∈ sortedUnique ids ↔ id ∈ ids := by
  simp [sortedUnique]

/-- **A sorted set is determined by its members.** -/
theorem sortedUnique_congr {ids ids' : List String} (h : ∀ id, id ∈ ids ↔ id ∈ ids') :
    sortedUnique ids = sortedUnique ids' := by
  have hsorted : ∀ l : List String, (sortedUnique l).Pairwise (· ≤ ·) := fun l =>
    (pairwise_insertionSort (· ≤ ·) l).sublist (dedup_sublist _)
  have hperm : (sortedUnique ids).Perm (sortedUnique ids') :=
    (perm_ext_iff_of_nodup (nodup_dedup _) (nodup_dedup _)).mpr fun id => by
      rw [← sortedUnique, ← sortedUnique, mem_sortedUnique, mem_sortedUnique, h id]
  exact hperm.eq_of_pairwise (fun _ _ _ _ hab hba => le_antisymm hab hba) (hsorted ids) (hsorted ids')

@[simp] theorem sortedUnique_sortedUnique (ids : List String) :
    sortedUnique (sortedUnique ids) = sortedUnique ids :=
  sortedUnique_congr fun _ => mem_sortedUnique

/-- A live draft of the principal. -/
def LiveDraft (s : ProjectTables δ) (principal : PrincipalId) (id : VersionId) : Prop :=
  ∃ c ∈ s.pending.rows, c.id = id ∧ c.ownerID = principal

instance (s : ProjectTables δ) (principal : PrincipalId) (id : VersionId) :
    Decidable (LiveDraft s principal id) :=
  inferInstanceAs (Decidable (∃ c ∈ s.pending.rows, c.id = id ∧ c.ownerID = principal))

/-- What was found among the principal's drafts is a live draft with the
identifier. -/
theorem of_find_listForOwner {id : VersionId}
    (h : (s.listForOwner principal).find? (fun c => c.id = id) = some c) :
    c ∈ s.pending.rows ∧ c.ownerID = principal ∧ c.id = id := by
  obtain ⟨hmem, howner⟩ := mem_listForOwner.mp (mem_of_find?_eq_some h)
  have hid := find?_some h
  exact ⟨hmem, howner, of_decide_eq_true hid⟩

theorem not_liveDraft_of_find_none {id : VersionId}
    (h : (s.listForOwner principal).find? (fun c => c.id = id) = none) :
    ¬ LiveDraft s principal id := by
  rintro ⟨c, hc, hid, howner⟩
  have hnone := find?_eq_none.mp h c (mem_listForOwner.mpr ⟨hc, howner⟩)
  exact hnone (decide_eq_true hid)

/-- **The named versions, resolved**: live drafts of the principal, one for each
identifier. -/
structure Resolves (s : ProjectTables δ) (principal : PrincipalId) (ids : List VersionId)
    (selected : List PendingChange) : Prop where
  mine : ∀ c ∈ selected, c ∈ s.pending.rows ∧ c.ownerID = principal
  ids : ∀ id, id ∈ selected.map PendingChange.id ↔ id ∈ ids
  nodup : selected.Nodup

theorem resolves_of_resolveEach :
    ∀ {ids : List VersionId} {selected : List PendingChange},
      resolveEach s principal ids = .ok selected → Resolves s principal ids selected
  | [], _, h => by
    cases h
    exact ⟨fun _ hc => absurd hc not_mem_nil, fun _ => Iff.rfl, nodup_nil⟩
  | id :: ids, selected, h => by
    rw [resolveEach] at h
    split at h
    next => cases h
    next change hfind =>
      obtain ⟨rest, hrest, h⟩ := bind_ok h
      cases h
      have ih : Resolves s principal ids rest := resolves_of_resolveEach hrest
      obtain ⟨hmem, howner, hid⟩ := of_find_listForOwner hfind
      refine ⟨fun c hc => ?_, fun id' => ?_, ih.nodup.insert⟩
      · rcases mem_insert_iff.mp hc with rfl | hc
        · exact ⟨hmem, howner⟩
        · exact ih.mine c hc
      · have hrest' := ih.ids id'
        simp only [mem_map] at hrest' ⊢
        simp only [mem_insert_iff, or_and_right, exists_or, exists_eq_left, hrest', hid, mem_cons]
        exact or_congr_left eq_comm

variable {ids : List VersionId}

theorem resolves_of_resolveVersions
    (h : resolveVersions s principal ids = .ok selected) : Resolves s principal ids selected := by
  obtain ⟨each, heach, h⟩ := bind_ok h
  cases h
  have hr : Resolves s principal ids each := resolves_of_resolveEach heach
  have hperm : (sortedChanges each).Perm each := Table.perm_orderBy _ _
  exact ⟨fun c hc => hr.mine c (mem_sortedChanges.mp hc),
    fun id => (hperm.map PendingChange.id).mem_iff.trans (hr.ids id), hperm.nodup_iff.mpr hr.nodup⟩

/-- **Resolution fails only on a version that is not a live draft** of the
principal. -/
theorem resolveEach_eq_error {e : ServiceError} :
    ∀ {ids : List VersionId}, resolveEach s principal ids = .error e →
      ∃ id ∈ ids, ¬ LiveDraft s principal id
  | [], h => nomatch h
  | id :: ids, h => by
    rw [resolveEach] at h
    split at h
    next hfind => exact ⟨id, mem_cons_self, not_liveDraft_of_find_none hfind⟩
    next change hfind =>
      cases hrest : resolveEach s principal ids with
      | ok rest => rw [hrest] at h; cases h
      | error e' =>
        obtain ⟨id', hid', hlive⟩ := resolveEach_eq_error hrest
        exact ⟨id', mem_cons_of_mem _ hid', hlive⟩

theorem resolveVersions_eq_error {e : ServiceError} (h : resolveVersions s principal ids = .error e) :
    ∃ id ∈ ids, ¬ LiveDraft s principal id := by
  unfold resolveVersions at h
  cases heach : resolveEach s principal ids with
  | ok each => rw [heach] at h; cases h
  | error e' => exact resolveEach_eq_error heach

theorem Resolves.live (h : Resolves s principal ids selected) {id : VersionId}
    (hid : id ∈ ids) : LiveDraft s principal id := by
  obtain ⟨c, hc, rfl⟩ := mem_map.mp ((h.ids id).mpr hid)
  exact ⟨c, (h.mine c hc).1, rfl, (h.mine c hc).2⟩

variable {ids' : List VersionId}

/-- **Only the set of the identifiers matters**, not how they are listed. -/
theorem resolveVersions_congr (hids : ∀ id, id ∈ ids' ↔ id ∈ ids)
    (h : resolveVersions s principal ids = .ok selected) :
    resolveVersions s principal ids' = .ok selected := by
  cases h' : resolveVersions s principal ids' with
  | error e =>
    obtain ⟨id, hid, hdead⟩ := resolveVersions_eq_error h'
    exact absurd ((resolves_of_resolveVersions h).live ((hids id).mp hid)) hdead
  | ok selected' =>
    obtain ⟨each, heach, h⟩ := bind_ok h
    obtain ⟨each', heach', h'⟩ := bind_ok h'
    cases h
    obtain rfl := Except.ok.inj h'
    have hr := resolves_of_resolveEach heach
    have hr' := resolves_of_resolveEach heach'
    have hsub : ∀ {l l' : List PendingChange} {is is' : List VersionId},
        Resolves s principal is l → Resolves s principal is' l' → (∀ id, id ∈ is → id ∈ is') →
          l ⊆ l' := by
      intro l l' is is' hl hl' hle c hc
      have hid : c.id ∈ is' := hle _ ((hl.ids _).mp (mem_map_of_mem hc))
      obtain ⟨c', hc', hcc'⟩ := mem_map.mp ((hl'.ids _).mpr hid)
      have hsame : c' = c := s.pending.eq_of_key (hl'.mine c' hc').1 (hl.mine c hc).1 hcc'
      exact hsame ▸ hc'
    have hperm : each'.Perm each := (perm_ext_iff_of_nodup hr'.nodup hr.nodup).mpr fun c =>
      ⟨fun hc => hsub hr' hr (fun id => (hids id).mp) hc, fun hc => hsub hr hr' (fun id => (hids id).mpr) hc⟩
    refine congrArg _ (Table.orderBy_eq_orderBy hperm fun a ha b hb hab => ?_)
    exact s.pending.eq_of_key (hr'.mine a ha).1 (hr.mine b hb).1 (cons.inj (cons.inj hab).2).1

/-! ## What the closure pulls in -/

/-- **What the closure loop keeps**, from the selection `named`: the selection
holds live drafts of the principal, no version twice; its versions are those
named and those pulled in, and none is both; and it stays in the environments that
were named. -/
structure Closes (s : ProjectTables δ) (principal : PrincipalId) (named : List PendingChange)
    (c : Closure) : Prop where
  mine : ∀ x ∈ c.selected, x ∈ s.pending.rows ∧ x.ownerID = principal
  nodup : (c.selected.map PendingChange.id).Nodup
  ids : ∀ id, id ∈ c.selected.map PendingChange.id ↔ id ∈ named.map PendingChange.id ∨ id ∈ c.closed
  apart : ∀ id ∈ c.closed, id ∉ named.map PendingChange.id
  env : ∀ x ∈ c.selected, ∃ y ∈ named, y.environmentID = x.environmentID

/-- The growth of a pass: it only adds, and reports when it has added. -/
def GrownFrom (c₀ c : Closure) : Prop :=
  c₀.selected.length ≤ c.selected.length ∧ (c.grew = true → c₀.selected.length < c.selected.length)

variable {groupID : String} {member : CatalogueKey}

variable {marker change : PendingChange} {closed : List VersionId}

section ClosingLemmas

variable {s : ProjectTables δ} {principal : PrincipalId}
  {guard guard' : EnvId → KeyId → Except ServiceError Unit} {named : List PendingChange}

/-- A marker is skipped, or the draft it marks is pulled in. -/
theorem pullMarker_eq_ok {c c' : Closure} (hmarker : marker ∈ s.pending.rows)
    (h : pullMarker s principal groupID env member c marker = .ok c') :
    c' = c ∨ (marker.environmentID = env ∧ marker.ownerID = principal ∧
      marker.id ∉ c.selected.map PendingChange.id ∧
      c' = ⟨c.selected ++ [marker], c.closed ++ [marker.id], true⟩) := by
  unfold pullMarker at h
  split at h
  case isTrue => exact .inl (Except.ok.inj h).symm
  case isFalse hcell =>
    split at h
    case isTrue => cases h
    case isFalse howner =>
      split at h
      case isTrue => exact .inl (Except.ok.inj h).symm
      case isFalse hnew =>
        split at h
        next => cases h
        next pull hfind =>
          obtain ⟨hpull, -, hid⟩ := of_find_listForOwner hfind
          have hsame : pull = marker := s.pending.eq_of_key hpull hmarker hid
          subst hsame
          refine .inr ⟨(not_not.mp hcell).2, not_not.mp howner, ?_, (Except.ok.inj h).symm⟩
          simpa using hnew

theorem Closes.pullMarker
    {c c' : Closure} (hc : Closes s principal named c)
    (hmarker : marker ∈ s.pending.rows) (henv : ∃ y ∈ named, y.environmentID = env)
    (h : pullMarker s principal groupID env member c marker = .ok c') :
    Closes s principal named c' := by
  rcases pullMarker_eq_ok hmarker h with rfl | ⟨hin, howner, hnew, rfl⟩
  · exact hc
  · refine ⟨fun x hx => ?_, ?_, fun id => ?_, fun id hid => ?_, fun x hx => ?_⟩
    · rcases mem_append.mp hx with hx | hx
      · exact hc.mine x hx
      · obtain rfl := mem_singleton.mp hx
        exact ⟨hmarker, howner⟩
    · rw [map_append, nodup_append]
      refine ⟨hc.nodup, nodup_singleton _, fun a ha b hb => ?_⟩
      obtain rfl := mem_singleton.mp hb
      exact fun hab => hnew (hab ▸ ha)
    · rw [map_append, mem_append, mem_append, hc.ids id, or_assoc]
      rfl
    · rcases mem_append.mp hid with hid | hid
      · exact hc.apart id hid
      · obtain rfl := mem_singleton.mp hid
        exact fun hnamed => hnew ((hc.ids _).mpr (.inl hnamed))
    · rcases mem_append.mp hx with hx | hx
      · exact hc.env x hx
      · obtain rfl := mem_singleton.mp hx
        exact hin ▸ henv

theorem GrownFrom.pullMarker {c₀ c c' : Closure} (hc : GrownFrom c₀ c)
    (hmarker : marker ∈ s.pending.rows)
    (h : pullMarker s principal groupID env member c marker = .ok c') : GrownFrom c₀ c' := by
  rcases pullMarker_eq_ok hmarker h with rfl | ⟨-, -, -, rfl⟩
  · exact hc
  · have hle := hc.1
    simp only [GrownFrom, length_append, length_singleton]
    omega

/-- What one marker keeps, one member keeps. -/
theorem pullMember_invariant (inv : Closure → Prop)
    (hinv : ∀ c c' member marker, marker ∈ s.pending.rows → inv c →
      pullMarker s principal groupID env member c marker = .ok c' → inv c') {c c' : Closure}
    (hc : inv c) (h : pullMember s principal guard groupID env c member = .ok c') : inv c' := by
  replace h := skip h
  refine foldlM_invariant inv _ (fun b marker hmarker b' hb => ?_) hc h
  exact hinv b b' member marker (mem_listMarkers.mp hmarker) hb

/-- What one marker keeps, one selected change keeps. -/
theorem closeChange_invariant (inv : Closure → Prop)
    (hinv : ∀ groupID c c' member marker, marker ∈ s.pending.rows → inv c →
      pullMarker s principal groupID change.environmentID member c marker = .ok c' → inv c')
    {c c' : Closure} (hc : inv c) (h : closeChange s principal guard c change = .ok c') :
    inv c' := by
  unfold closeChange at h
  split at h
  next => cases h
  next key hkey =>
    split at h
    case isTrue => exact Except.ok.inj h ▸ hc
    case isFalse =>
      exact foldlM_invariant inv _
        (fun b member _ b' hb => pullMember_invariant inv (hinv key.groupID) hb) hc h

/-- One pass keeps the description of the selection, and reports its growth. -/
theorem Closes.closePass {c c' : Closure} {grew : Bool} (hc : Closes s principal named c)
    (h : closePass s principal guard c = .ok (c', grew)) :
    Closes s principal named c' ∧ GrownFrom c c' ∧ c'.grew = grew := by
  obtain ⟨c₁, hfold, h⟩ := bind_ok h
  obtain ⟨rfl, rfl⟩ := Prod.mk.inj (Except.ok.inj h)
  have hstart : Closes s principal named { c with grew := false } ∧
      GrownFrom c { c with grew := false } :=
    ⟨⟨hc.mine, hc.nodup, hc.ids, hc.apart, hc.env⟩, le_refl _, nofun⟩
  have hinv : Closes s principal named c₁ ∧ GrownFrom c c₁ := by
    refine foldlM_invariant (fun b => Closes s principal named b ∧ GrownFrom c b) _
      (fun b change hchange b' hb hb' => ?_) hstart hfold
    refine closeChange_invariant (fun b => Closes s principal named b ∧ GrownFrom c b) ?_ hb hb'
    rintro groupID b b' member marker hmarker ⟨hcloses, hgrown⟩ hpull
    have henv := hc.env change (mem_sortedChanges.mp hchange)
    exact ⟨hcloses.pullMarker hmarker henv hpull, hgrown.pullMarker hmarker hpull⟩
  exact ⟨hinv.1, hinv.2, rfl⟩

theorem Resolves.closes (h : Resolves s principal ids named) :
    Closes s principal named ⟨named, [], false⟩ where
  mine := h.mine
  nodup := List.Nodup.map_on
    (fun x hx y hy hxy => s.pending.eq_of_key (h.mine x hx).1 (h.mine y hy).1 hxy) h.nodup
  ids _ := by simp
  apart _ hid := absurd hid not_mem_nil
  env x hx := ⟨x, hx, rfl⟩

/-- **The selection of a publish.** -/
theorem closes_of_selectVersions (hnamed : Resolves s principal ids named)
    (h : selectVersions s principal guard named = .ok (selection, closed)) :
    ∃ c, Closes s principal named c ∧ selection = sortedChanges c.selected ∧
      closed = Table.orderBy id c.closed := by
  obtain ⟨c, hc, h⟩ := bind_ok h
  obtain ⟨rfl, rfl⟩ := Prod.mk.inj (Except.ok.inj h)
  refine ⟨c, ?_, rfl, rfl⟩
  exact Tx.untilStable_invariant (Closes s principal named)
    (fun b b' grew hb hpass => (hb.closePass hpass).1) _ hnamed.closes hc

/-- The closure does not depend on the authority of the caller, unless it is
refused. -/
theorem selectVersions_mono (hguard : ∀ env key, guard env key = .ok () → guard' env key = .ok ())
    {r : List PendingChange × List VersionId} (h : selectVersions s principal guard named = .ok r) :
    selectVersions s principal guard' named = .ok r := by
  have hmember : ∀ groupID env c member c', pullMember s principal guard groupID env c member = .ok c' →
      pullMember s principal guard' groupID env c member = .ok c' := by
    intro groupID env c member c' h
    obtain ⟨u, hu, h⟩ := bind_ok h
    exact (Tx.except_bind_eq_ok _ _ _).mpr ⟨u, hguard env member.id hu, h⟩
  have hchange : ∀ c change c', closeChange s principal guard c change = .ok c' →
      closeChange s principal guard' c change = .ok c' := by
    intro c change c' h
    unfold closeChange at h ⊢
    split at h
    next => cases h
    next key hkey =>
      split at h
      case isTrue hgroup => rw [if_pos hgroup]; exact h
      case isFalse hgroup => rw [if_neg hgroup]; exact foldlM_mono (hmember _ _) _ h
  have hpass : ∀ c r, closePass s principal guard c = .ok r → closePass s principal guard' c = .ok r := by
    intro c r h
    obtain ⟨c', hc', h⟩ := bind_ok h
    exact (Tx.except_bind_eq_ok _ _ _).mpr ⟨c', foldlM_mono hchange _ hc', h⟩
  obtain ⟨c, hc, h⟩ := bind_ok h
  exact (Tx.except_bind_eq_ok _ _ _).mpr ⟨c, Tx.untilStable_mono hpass _ hc, h⟩

end ClosingLemmas

/-! ## How the closure fails -/

/-- **How a selection is refused**: a group is split between two owners, the
caller's authority does not reach a member, or a draft is for a key that is not
declared. -/
inductive SelectionRefused (s : ProjectTables δ) (guard : EnvId → KeyId → Except ServiceError Unit) :
    ServiceError → Prop
  | split (detail : String) : SelectionRefused s guard (.invalid detail)
  | guarded {env : EnvId} {key : KeyId} {e : ServiceError} (h : guard env key = .error e) :
    SelectionRefused s guard e
  | undeclared {c : PendingChange} (hc : c ∈ s.pending.rows) (hkey : s.keyByID c.keyID = none)
    (detail : String) : SelectionRefused s guard (.stalePending detail)

section RefusalLemmas

variable {s : ProjectTables δ} {principal : PrincipalId}
  {guard : EnvId → KeyId → Except ServiceError Unit} {named : List PendingChange} {e : ServiceError}

/-- The last branch of the marker loop is dead: a marker of the principal is one
of its drafts. -/
theorem pullMarker_eq_error {c : Closure} (hmarker : marker ∈ s.pending.rows)
    (h : pullMarker s principal groupID env member c marker = .error e) :
    SelectionRefused s guard e := by
  unfold pullMarker at h
  split at h
  case isTrue => cases h
  case isFalse =>
    split at h
    case isTrue => exact Except.error.inj h ▸ .split _
    case isFalse howner =>
      split at h
      case isTrue => cases h
      case isFalse =>
        split at h
        next hfind =>
          have hlive : LiveDraft s principal marker.id := ⟨marker, hmarker, rfl, not_not.mp howner⟩
          exact absurd hlive (not_liveDraft_of_find_none hfind)
        next => cases h

theorem pullMember_eq_error {c : Closure}
    (h : pullMember s principal guard groupID env c member = .error e) :
    SelectionRefused s guard e := by
  unfold pullMember at h
  cases hg : guard env member.id with
  | error e' =>
    rw [hg] at h
    exact .guarded (hg.trans (congrArg _ (Except.error.inj h)))
  | ok u =>
    rw [hg] at h
    obtain ⟨c', -, marker, hmarker, herr⟩ :=
      foldlM_eq_error (fun _ => True) _ (fun _ _ _ _ _ _ => trivial) trivial h
    exact pullMarker_eq_error (mem_listMarkers.mp hmarker) herr

theorem closeChange_eq_error {c : Closure} (hchange : change ∈ s.pending.rows)
    (h : closeChange s principal guard c change = .error e) : SelectionRefused s guard e := by
  unfold closeChange at h
  split at h
  next hkey => exact Except.error.inj h ▸ .undeclared hchange hkey _
  next key hkey =>
    split at h
    case isTrue => cases h
    case isFalse =>
      obtain ⟨c', -, member, -, herr⟩ :=
        foldlM_eq_error (fun _ => True) _ (fun _ _ _ _ _ _ => trivial) trivial h
      exact pullMember_eq_error herr

theorem closePass_eq_error {c : Closure} (hc : Closes s principal named c)
    (h : closePass s principal guard c = .error e) : SelectionRefused s guard e := by
  unfold closePass at h
  cases hfold : (sortedChanges c.selected).foldlM (closeChange s principal guard)
      { c with grew := false } with
  | ok c' => rw [hfold] at h; cases h
  | error e' =>
    rw [hfold] at h
    obtain ⟨c', -, change, hchange, herr⟩ :=
      foldlM_eq_error (fun _ => True) _ (fun _ _ _ _ _ _ => trivial) trivial hfold
    have hmine := hc.mine change (mem_sortedChanges.mp hchange)
    have hrefused : SelectionRefused s guard e' := closeChange_eq_error hmine.1 herr
    exact Except.error.inj h ▸ hrefused

/-- A selection has no more versions than there are drafts. -/
theorem Closes.length_le {c : Closure} (hc : Closes s principal named c) :
    c.selected.length ≤ s.pending.rows.length :=
  (hc.nodup.of_map.subperm fun x hx => (hc.mine x hx).1).length_le

/-- **The closure ends**, and fails only for a reason of its own. -/
theorem selectVersions_eq_error (hnamed : Resolves s principal ids named)
    (h : selectVersions s principal guard named = .error e) : SelectionRefused s guard e := by
  unfold selectVersions closeGroups at h
  cases hclose : untilStable (closePass s principal guard) .endless (s.pending.rows.length + 1)
      ⟨named, [], false⟩ with
  | ok c => rw [hclose] at h; cases h
  | error e' =>
    rw [hclose] at h
    -- every pass that pulls a draft in leaves fewer drafts outside the selection
    obtain ⟨c, hc, herr⟩ := Tx.untilStable_eq_error (Closes s principal named)
      (fun c => s.pending.rows.length - c.selected.length)
      (fun b b' grew hb hpass => (hb.closePass hpass).1)
      (fun b b' hb hpass => by
        obtain ⟨hcloses, hgrown, hgrew⟩ := hb.closePass hpass
        have hlt := hgrown.2 hgrew
        have hle := hcloses.length_le
        omega)
      _ hnamed.closes (by dsimp only; omega) hclose
    exact Except.error.inj h ▸ closePass_eq_error hc herr

end RefusalLemmas

/-! ## The change set -/

/-- **A change set under review**: the drafts, those of them that were pulled in,
and what the preview token binds. -/
structure ChangeSet where
  changes : List PendingChange
  closed : List VersionId
  input : PreviewTokenInput
deriving DecidableEq, Repr

/-- The change set that the versions of a principal stand for. -/
def changeSet (s : ProjectTables δ) (principal : PrincipalId) (ids : List VersionId) :
    Except ServiceError ChangeSet := do
  let selected ← resolveVersions s principal ids
  let (selection, closed) ← selectVersions s principal (fun _ _ => .ok ()) selected
  return ⟨selection, sortedUnique closed, previewTokenInput s principal selection⟩

section ChangeSetLemmas

variable {s s' : ProjectTables δ} {principal : PrincipalId} {ids : List VersionId} {cs cs' : ChangeSet}

/-- What a caller with authority selects is the change set. -/
theorem changeSet_of_select {guard : EnvId → KeyId → Except ServiceError Unit}
    {named : List PendingChange}
    (hnamed : resolveVersions s principal ids = .ok named)
    (h : selectVersions s principal guard named = .ok (selection, closed)) :
    changeSet s principal ids =
      .ok ⟨selection, sortedUnique closed, previewTokenInput s principal selection⟩ := by
  have hfree : selectVersions s principal (fun _ _ => .ok ()) named = .ok (selection, closed) :=
    selectVersions_mono (fun _ _ _ => rfl) h
  rw [changeSet, hnamed]
  refine (Tx.except_bind_eq_ok _ _ _).mpr ⟨named, rfl, ?_⟩
  exact (Tx.except_bind_eq_ok _ _ _).mpr ⟨_, hfree, rfl⟩

/-- A change set depends on the set of its versions only. -/
theorem changeSet_congr (hids : ∀ id, id ∈ ids' ↔ id ∈ ids)
    (h : changeSet s principal ids = .ok cs) : changeSet s principal ids' = .ok cs := by
  obtain ⟨named, hnamed, h⟩ := bind_ok h
  exact (Tx.except_bind_eq_ok _ _ _).mpr ⟨named, resolveVersions_congr hids hnamed, h⟩

/-- **A change set holds live drafts of its owner**, those named and those pulled
in. -/
structure ChangeSet.Of (s : ProjectTables δ) (principal : PrincipalId) (ids : List VersionId)
    (cs : ChangeSet) : Prop where
  mine : ∀ c ∈ cs.changes, c ∈ s.pending.rows ∧ c.ownerID = principal
  nodup : (cs.changes.map PendingChange.id).Nodup
  apart : ∀ id ∈ cs.closed, id ∉ ids
  ids : ∀ id, id ∈ cs.changes.map PendingChange.id ↔ id ∈ ids ∨ id ∈ cs.closed
  canonical : cs.closed = sortedUnique cs.closed
  sorted : cs.changes = sortedChanges cs.changes
  input : cs.input = previewTokenInput s principal cs.changes

theorem changeSet_eq_ok (h : changeSet s principal ids = .ok cs) : cs.Of s principal ids := by
  obtain ⟨named, hnamed, h⟩ := bind_ok h
  obtain ⟨⟨selection, closed⟩, hselect, h⟩ := bind_ok h
  cases h
  have hresolves := resolves_of_resolveVersions hnamed
  obtain ⟨c, hc, rfl, rfl⟩ := closes_of_selectVersions hresolves hselect
  have hperm : (sortedChanges c.selected).Perm c.selected := Table.perm_orderBy _ _
  refine ⟨fun x hx => hc.mine x (mem_sortedChanges.mp hx), ?_, fun id hid => ?_, fun id => ?_,
    (sortedUnique_sortedUnique _).symm, ?_, rfl⟩
  · exact (hperm.map _).nodup_iff.mpr hc.nodup
  · rw [mem_sortedUnique, Table.mem_orderBy] at hid
    exact fun hnamed => hc.apart id hid ((hresolves.ids id).mpr hnamed)
  · rw [(hperm.map PendingChange.id).mem_iff, hc.ids id, hresolves.ids id, mem_sortedUnique,
      Table.mem_orderBy]
  · refine Table.orderBy_eq_orderBy hperm.symm fun a ha b hb hab => ?_
    have hid : a.id = b.id := (cons.inj (cons.inj hab).2).1
    exact s.pending.eq_of_key (hc.mine a ha).1 (hc.mine b (mem_sortedChanges.mp hb)).1 hid

/-- A change set stays in the environments of the versions that are named. -/
theorem exists_named_of_changeSet (h : changeSet s principal ids = .ok cs)
    (hc : c ∈ cs.changes) : ∃ y ∈ s.pending.rows, y.ownerID = principal ∧ y.id ∈ ids ∧
      y.environmentID = c.environmentID := by
  obtain ⟨named, hnamed, h⟩ := bind_ok h
  obtain ⟨⟨selection, closed⟩, hselect, h⟩ := bind_ok h
  cases h
  have hresolves := resolves_of_resolveVersions hnamed
  obtain ⟨closure, hcloses, rfl, rfl⟩ := closes_of_selectVersions hresolves hselect
  obtain ⟨y, hy, henv⟩ := hcloses.env c (mem_sortedChanges.mp hc)
  obtain ⟨hmem, howner⟩ := hresolves.mine y hy
  exact ⟨y, hmem, howner, (hresolves.ids y.id).mp (mem_map_of_mem hy), henv⟩

/-- Two change sets with the same version identifiers hold the same drafts if a
version that is in both is the same draft. -/
theorem ChangeSet.Of.changes_eq_of_ids {principal' : PrincipalId}
    (h : cs.Of s principal ids) (h' : cs'.Of s' principal' ids')
    (hids : ∀ id, id ∈ cs.changes.map PendingChange.id ↔ id ∈ cs'.changes.map PendingChange.id)
    (hsame : ∀ c ∈ cs.changes, ∀ c' ∈ cs'.changes, c.id = c'.id → c = c') :
    cs.changes = cs'.changes := by
  have hsub : ∀ c, c ∈ cs.changes ↔ c ∈ cs'.changes := by
    refine fun c => ⟨fun hc => ?_, fun hc => ?_⟩
    · obtain ⟨c', hc', hcc'⟩ := mem_map.mp ((hids c.id).mp (mem_map_of_mem hc))
      exact hsame c hc c' hc' hcc'.symm ▸ hc'
    · obtain ⟨c', hc', hcc'⟩ := mem_map.mp ((hids c.id).mpr (mem_map_of_mem hc))
      exact (hsame c' hc' c hc hcc') ▸ hc'
  have hperm : cs.changes.Perm cs'.changes :=
    (perm_ext_iff_of_nodup h.nodup.of_map h'.nodup.of_map).mpr hsub
  rw [h.sorted, h'.sorted]
  refine Table.orderBy_eq_orderBy hperm fun a ha b hb hab => ?_
  exact hsame a ha b hb (cons.inj (cons.inj hab).2).1

/-- **Two change sets of the same versions hold the same drafts** if they pulled
in the same ones. -/
theorem ChangeSet.Of.changes_eq (h : cs.Of s principal ids) (h' : cs'.Of s' principal ids)
    (hclosed : cs.closed = cs'.closed)
    (hsame : ∀ c ∈ cs.changes, ∀ c' ∈ cs'.changes, c.id = c'.id → c = c') :
    cs.changes = cs'.changes :=
  h.changes_eq_of_ids h' (fun id => by rw [h.ids id, h'.ids id, hclosed]) hsame

/-- The preview names every version of the change set. -/
theorem ChangeSet.Of.mem_input (h : cs.Of s principal ids) (id : VersionId) :
    id ∈ cs.changes.map PendingChange.id ↔
      ∃ e ∈ cs.input.environments, id ∈ e.changes.map PreviewTokenChange.versionID := by
  rw [h.input]
  constructor
  · intro hid
    obtain ⟨c, hc, rfl⟩ := mem_map.mp hid
    refine ⟨_, mem_map_of_mem (mem_selectionEnvs.mpr ⟨c, hc, rfl⟩), ?_⟩
    refine mem_map.mpr ⟨c.previewChange, Table.mem_orderBy.mpr ?_, rfl⟩
    exact mem_map_of_mem (mem_appliesOf.mpr ⟨hc, rfl⟩)
  · rintro ⟨e, he, hid⟩
    obtain ⟨env, -, rfl⟩ := mem_map.mp he
    obtain ⟨change, hchange, rfl⟩ := mem_map.mp hid
    obtain ⟨c, hc, rfl⟩ := mem_map.mp (Table.mem_orderBy.mp hchange)
    exact mem_map_of_mem (mem_appliesOf.mp hc).1

/-- **A preview stands for one change set** of its versions. -/
theorem ChangeSet.Of.eq_of_input (h : cs.Of s principal ids) (h' : cs'.Of s' principal ids)
    (hinput : cs.input = cs'.input)
    (hsame : ∀ c ∈ cs.changes, ∀ c' ∈ cs'.changes, c.id = c'.id → c = c') : cs = cs' := by
  have hids : ∀ id, id ∈ cs.changes.map PendingChange.id ↔ id ∈ cs'.changes.map PendingChange.id :=
    fun id => by rw [h.mem_input, h'.mem_input, hinput]
  have hclosed : cs.closed = cs'.closed := by
    rw [h.canonical, h'.canonical]
    refine sortedUnique_congr fun id => ?_
    -- what was pulled in is what was not named
    have hpulled := hids id
    rw [h.ids, h'.ids] at hpulled
    have hapart := h.apart id
    have hapart' := h'.apart id
    tauto
  have hchanges := h.changes_eq_of_ids h' hids hsame
  cases cs
  cases cs'
  simp_all only

end ChangeSetLemmas

end Hikyo
