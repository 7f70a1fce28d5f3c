import Hikyo.Service.Reencrypt

/-!
# No ciphertext is stranded

A version of a project's data key that is retired is never unwrapped again, so a
ciphertext that names it is lost. This module shows that this does not happen
(`nothingStranded_run`): whatever writers with captured sealers, rotations,
chunks of walks and retirements are interleaved, together with all other
mutations of the key store, no ciphertext of a registered table names a retired
version.

The argument has three parts. What a transaction writes behind the fence names
the active version (`Fenced`). No mutation of the key store other than the
retirement retires a project's key (`RetiresNothing`). And the retirement
happens only if the paging loop saw every row of every table
(`onActive_of_tablesDry`), so that what it retires is named by nothing.
-/

namespace Hikyo

open List
open Tx (ensure bind_ok skip except_bind_eq_ok exec ensured)

/-- The row holds a ciphertext whose header names the version. -/
def CipherRow.Names (r : CipherRow) (version : ℤ) : Prop :=
  r.bytes ≠ [] ∧ ∃ v, recordKeyVersion r.bytes = .ok v ∧ dbInt v = version

/-- **Nothing is stranded**: no ciphertext names a version of its project's key
that is retired. -/
def NothingStranded (s : CipherStore) : Prop :=
  ∀ r ∈ s.rows, ∀ k ∈ s.keys.tier3, k.scope = r.dekScope → k.state = .retired → ¬ r.Names k.version

theorem liftError_eq_ok {ε ε' α : Type} {f : ε → ε'} {x : Except ε α} {a : α} :
    liftError f x = .ok a ↔ x = .ok a := by
  cases x with
  | ok b => exact ⟨fun h => congrArg _ (Except.ok.inj h), fun h => congrArg _ (Except.ok.inj h)⟩
  | error e => exact iff_of_false nofun nofun

/-! ## What the fence says -/

variable {v : UInt32} {u : Unit}

theorem assertActiveDEKVersion_eq_ok {s : KeyTables} {scope : KeyScope}
    (h : assertActiveDEKVersion s scope v = .ok u) :
    ∀ k ∈ s.tier3, k.scope = scope → k.version = dbInt v → k.state = .active := by
  intro k hk hscope hversion
  obtain ⟨k', hfind, hstate⟩ := Option.map_eq_some_iff.mp (ensured h)
  have hfound := find?_some hfind
  obtain ⟨hscope', hversion'⟩ := of_decide_eq_true hfound
  -- the row that was found is the only one of its version
  have hsame : k = k' := s.tier3_version.eq_of_key hk (mem_of_find?_eq_some hfind) rfl rfl
    (Prod.ext (hscope.trans hscope'.symm) (hversion.trans hversion'.symm))
  rw [hsame]
  exact hstate

/-- The key version is active in the tables. -/
def ActiveIn (s : CipherStore) (org project : String) (v : UInt32) : Prop :=
  ∀ k ∈ s.keys.tier3, k.scope = (.project, org, project) → k.version = dbInt v → k.state = .active

theorem activeIn_of_fence {s : CipherStore} {org project : String}
    (h : fenceProjectVersion s org project v = .ok u) : ActiveIn s org project v :=
  assertActiveDEKVersion_eq_ok (liftError_eq_ok.mp h)

/-- A row of the project that names no version but the one. -/
def OnVersion (org project : String) (v : UInt32) (r : CipherRow) : Prop :=
  r.dekScope = (.project, org, project) ∧ ∀ version, r.Names version → version = dbInt v

variable {row : CipherRow}

/-- What was sealed by a sealer names the sealer's version. -/
theorem onVersion_of_sealed {A : Aead} {sealer : ProjectSealer} {rnd plaintext record : Bytes}
    {a : AAD} (hseal : sealer.sealRecord A rnd a plaintext = .ok record)
    (hscope : row.dekScope = (.project, sealer.orgID, sealer.projectID))
    (hrow : row.ciphertext = some record) :
    OnVersion sealer.orgID sealer.projectID sealer.activeVersion row := by
  refine ⟨hscope, ?_⟩
  rintro _ ⟨-, v, hv, rfl⟩
  have hbytes : row.bytes = record := by
    rw [CipherRow.bytes, hrow]
    rfl
  rw [hbytes, ProjectSealer.recordKeyVersion_sealRecord hseal] at hv
  rw [Except.ok.inj hv]

/-! ## Writing behind the fence -/

/-- **What a fenced transaction may do to the tables**: the keys stay, and a row
that was not there names the fenced version. -/
structure Fenced (org project : String) (v : UInt32) (s s' : CipherStore) : Prop where
  keys : s'.keys = s.keys
  rows : ∀ r ∈ s'.rows, r ∈ s.rows ∨ OnVersion org project v r

variable {t : ProjectTable}

namespace Fenced

variable {org project : String} {v : UInt32} {s s' s'' : CipherStore}

theorem refl (s : CipherStore) : Fenced org project v s s :=
  ⟨rfl, fun _ hr => .inl hr⟩

theorem trans (h : Fenced org project v s s') (h' : Fenced org project v s' s'') :
    Fenced org project v s s'' where
  keys := h'.keys.trans h.keys
  rows r hr := (h'.rows r hr).elim (h.rows r) .inr

/-- If the fenced version is active, nothing is stranded by it. -/
theorem nothingStranded (h : Fenced org project v s s') (hactive : ActiveIn s org project v)
    (hs : NothingStranded s) : NothingStranded s' := by
  intro r hr k hk hscope hretired hnames
  rw [h.keys] at hk
  rcases h.rows r hr with hold | ⟨hproject, hversion⟩
  · exact hs r hold k hk hscope hretired hnames
  · have hk' := hactive k hk (hscope.trans hproject) (hversion _ hnames)
    cases hretired.symm.trans hk'

theorem put (hrow : OnVersion org project v row)
    (h : s.put row = .ok s') : Fenced org project v s s' := by
  unfold CipherStore.put at h
  dsimp only at h
  split at h
  case isFalse => cases h
  case isTrue =>
    cases h
    refine ⟨rfl, fun r hr => ?_⟩
    rcases mem_cons.mp hr with rfl | hold
    · exact .inr hrow
    · exact .inl (mem_filter.mp hold).1

theorem cas {id : String} {new old : Bytes}
    (hnew : ∀ r : CipherRow, r.dekScope = (.project, org, project) → r.ciphertext = some new →
      OnVersion org project v r) : Fenced org project v s (s.cas t org project id new old).2 := by
  refine ⟨rfl, fun r hr => ?_⟩
  rcases Table.mem_update.mp hr with ⟨r₀, -, hp, rfl⟩ | ⟨hold, -⟩
  · obtain ⟨-, horg, hproject, -⟩ := of_decide_eq_true hp
    exact .inr (hnew _ (by rw [CipherRow.dekScope, horg, hproject]) rfl)
  · exact .inl hold

end Fenced

section Sealer

variable {A : Aead} {sealer : ProjectSealer} {s s' : CipherStore}

theorem fenced_of_write {w : RowWrite} (h : w.apply A sealer s = .ok s') :
    Fenced sealer.orgID sealer.projectID sealer.activeVersion s s' := by
  cases w with
  | put row rnd plaintext =>
    obtain ⟨record, hseal, hput⟩ := bind_ok h
    exact .put (onVersion_of_sealed (liftError_eq_ok.mp hseal) rfl rfl) hput
  | putNull row =>
    refine .put ⟨rfl, fun version hnames => ?_⟩ h
    exact absurd rfl hnames.1
  | delete t id =>
    cases h
    exact ⟨rfl, fun r hr => .inl (mem_filter.mp hr).1⟩

theorem fenced_of_writes (writes : List RowWrite) : ∀ {s : CipherStore},
    writes.foldlM (RowWrite.apply A sealer) s = .ok s' →
      Fenced sealer.orgID sealer.projectID sealer.activeVersion s s' := by
  induction writes with
  | nil =>
    intro s h
    obtain rfl := Except.ok.inj h
    exact .refl s
  | cons w writes ih =>
    intro s h
    rw [foldlM_cons] at h
    obtain ⟨s₁, hw, hrest⟩ := bind_ok h
    exact (fenced_of_write hw).trans (ih hrest)

variable {rnd : String → Bytes}

theorem fenced_of_walkRow {c c' : ChunkState} (h : walkRow A sealer t rnd c row = .ok c') :
    Fenced sealer.orgID sealer.projectID sealer.activeVersion c.store c'.store := by
  unfold walkRow at h
  dsimp only at h
  split at h
  case isTrue =>
    cases h
    exact .refl c.store
  case isFalse =>
    obtain ⟨version, -, h⟩ := bind_ok h
    split at h
    case isTrue =>
      cases h
      exact .refl c.store
    case isFalse =>
      obtain ⟨plaintext, -, h⟩ := bind_ok h
      obtain ⟨resealed, hseal, h⟩ := bind_ok h
      cases h
      exact .cas fun r hscope hrow => onVersion_of_sealed (liftError_eq_ok.mp hseal) hscope hrow

theorem fenced_of_walkRows {c' : ChunkState}
    (rows : List CipherRow) : ∀ {c : ChunkState}, rows.foldlM (walkRow A sealer t rnd) c = .ok c' →
      Fenced sealer.orgID sealer.projectID sealer.activeVersion c.store c'.store := by
  induction rows with
  | nil =>
    intro c h
    obtain rfl := Except.ok.inj h
    exact .refl c.store
  | cons row rows ih =>
    intro c h
    rw [foldlM_cons] at h
    obtain ⟨c₁, hrow, hrest⟩ := bind_ok h
    exact (fenced_of_walkRow hrow).trans (ih hrest)

end Sealer

/-! ## Mutations of the key store -/

/-- A project's key that is retired afterwards was retired before. -/
def RetiresNothing (s s' : KeyTables) : Prop :=
  ∀ k' ∈ s'.tier3, k'.state = .retired → k'.purpose = .project →
    ∃ k ∈ s.tier3, k.scope = k'.scope ∧ k.version = k'.version ∧ k.state = .retired

namespace RetiresNothing

variable {s s' s'' : KeyTables} {key : WrappedKey}

theorem of_tier3 (h : s'.tier3 = s.tier3) : RetiresNothing s s' :=
  fun k' hk' hretired _ => ⟨k', h ▸ hk', rfl, rfl, hretired⟩

theorem trans (h : RetiresNothing s s') (h' : RetiresNothing s' s'') : RetiresNothing s s'' := by
  intro k'' hk'' hretired hpurpose
  obtain ⟨k', hk', hscope, hversion, hretired'⟩ := h' k'' hk'' hretired hpurpose
  have hpurpose' : k'.purpose = .project := (congrArg Prod.fst hscope).trans hpurpose
  obtain ⟨k, hk, hscope', hversion', hretired''⟩ := h k' hk' hretired' hpurpose'
  exact ⟨k, hk, hscope'.trans hscope, hversion'.trans hversion, hretired''⟩

/-- A new key is active. -/
theorem insertTier3Row (h : s.insertTier3Row key = .ok s') : RetiresNothing s s' := by
  intro k' hk' hretired _
  rw [(KeyTables.insertTier3Row_eq_ok h).2] at hk'
  rcases mem_cons.mp hk' with rfl | hold
  · cases hretired
  · exact ⟨k', hold, rfl, rfl, hretired⟩

theorem insertWithLock {lock : String} (h : (do
    let s ← s.insertTier3Row key
    s.insertScopeGenerationRow lock) = .ok s') : RetiresNothing s s' := by
  obtain ⟨s₁, hins, hgen⟩ := bind_ok h
  exact (insertTier3Row hins).trans (of_tier3 (KeyTables.insertScopeGenerationRow_eq_ok hgen).2)

/-- Rows of another purpose may be retired, and a row may become retiring. -/
theorem demote {p : Tier3Row → Bool} {state : KeyState} {hstate : state ≠ .active}
    (hp : state = .retired → ∀ k, p k = true → k.purpose ≠ .project) :
    RetiresNothing s (s.demoteTier3 p state hstate) := by
  intro k' hk' hretired hpurpose
  rcases Table.mem_update.mp hk' with ⟨k, -, hpk, rfl⟩ | ⟨hold, -⟩
  · exact absurd hpurpose (hp hretired k hpk)
  · exact ⟨k', hold, rfl, rfl, hretired⟩

theorem rewrap (rows : List WrappedKey) : ∀ {s : KeyTables},
    rewrapTier3 s rows = .ok s' → RetiresNothing s s' := by
  induction rows with
  | nil =>
    intro s h
    cases h
    exact of_tier3 rfl
  | cons row rows ih =>
    intro s h
    simp only [rewrapTier3, except_bind_eq_ok] at h
    obtain ⟨_, -, hrest⟩ := h
    have hfirst : RetiresNothing s (s.updateTier3Wrapping row).2 := by
      intro k' hk' hretired _
      rcases Table.mem_update.mp hk' with ⟨k, hk, -, rfl⟩ | ⟨hold, -⟩
      · exact ⟨k, hk, rfl, rfl, hretired⟩
      · exact ⟨k', hold, rfl, rfl, hretired⟩
    exact hfirst.trans (ih hrest)

theorem insertTier3WithGenerations (keys : List WrappedKey) : ∀ {s : KeyTables},
    Hikyo.insertTier3WithGenerations s keys = .ok s' → RetiresNothing s s' := by
  induction keys with
  | nil =>
    intro s h
    cases h
    exact of_tier3 rfl
  | cons key keys ih =>
    intro s h
    simp only [Hikyo.insertTier3WithGenerations, except_bind_eq_ok] at h
    obtain ⟨s₁, hins, s₂, hgen, hrest⟩ := h
    exact (insertWithLock ((except_bind_eq_ok _ _ _).mpr ⟨s₁, hins, hgen⟩)).trans (ih hrest)

theorem rotateRootScopedTier3 {purpose : Purpose}
    (h : Hikyo.rotateRootScopedTier3 purpose key s = .ok s') (hpurpose : purpose ≠ .project) :
    RetiresNothing s s' := by
  simp only [Hikyo.rotateRootScopedTier3, KeyTables.retireTier3AtVersion, except_bind_eq_ok] at h
  obtain ⟨_, -, _, -, _, -, hins⟩ := h
  refine (demote fun _ k hk hproject => hpurpose ?_).trans (insertTier3Row hins)
  exact (congrArg Prod.fst (of_decide_eq_true hk).1).symm.trans hproject

theorem rotateDEK (h : Hikyo.rotateDEK key s = .ok s') : RetiresNothing s s' := by
  simp only [Hikyo.rotateDEK, KeyTables.demoteTier3AtVersion, except_bind_eq_ok] at h
  obtain ⟨_, -, _, -, _, -, _, -, hins⟩ := h
  refine RetiresNothing.trans (demote ?_) (insertTier3Row hins)
  rintro ⟨⟩

theorem rotateMasterKey {newMaster : WrappedKey} {rewrapped : List WrappedKey}
    (h : Hikyo.rotateMasterKey newMaster rewrapped s = .ok s') : RetiresNothing s s' := by
  unfold Hikyo.rotateMasterKey at h
  replace h := skip h
  split at h
  case h_2 => cases h
  case h_1 =>
    simp only [KeyTables.retireMasterAtVersion, except_bind_eq_ok, pure, Except.pure,
      Except.ok.injEq] at h
    obtain ⟨_, -, _, -, s₁, hins, s₂, hrewrap, _, -, rfl⟩ := h
    exact (of_tier3 (KeyTables.insertMasterRow_eq_ok hins).2).trans (rewrap rewrapped hrewrap)

theorem rootKeyRotatePrepare {newWrapper : WrappedKey}
    (h : Hikyo.rootKeyRotatePrepare newWrapper s = .ok s') : RetiresNothing s s' := by
  unfold Hikyo.rootKeyRotatePrepare at h
  replace h := skip h
  split at h
  case h_2 => cases h
  case h_1 =>
    have hins := skip h
    exact of_tier3 (KeyTables.insertMasterRow_eq_ok hins).2

theorem rootKeyRotateFinalize {blocked : Bool}
    (h : Hikyo.rootKeyRotateFinalize blocked s = .ok s') : RetiresNothing s s' := by
  unfold Hikyo.rootKeyRotateFinalize at h
  simp only [except_bind_eq_ok (ensure _ _), except_bind_eq_ok (acquireHierarchy s)] at h
  obtain ⟨_, -, _, -, h⟩ := h
  split at h
  case h_2 => cases h
  case h_1 =>
    simp only [KeyTables.retireMasterWrapper, except_bind_eq_ok, pure, Except.pure,
      Except.ok.injEq] at h
    obtain ⟨_, -, _, -, rfl⟩ := h
    exact of_tier3 rfl

/-- **Only the end of a re-encryption retires a project's key.** -/
theorem of_keyOp {op : KeyOp} (hop : op.keepsRetiring = true) (h : op.apply s = .ok s') :
    RetiresNothing s s' := by
  cases op with
  | mintHierarchy master inst token scanning =>
    simp only [KeyOp.apply, mintHierarchy, createHierarchy, except_bind_eq_ok] at h
    obtain ⟨_, -, s₁, hins, hrest⟩ := h
    exact (of_tier3 (KeyTables.insertMasterRow_eq_ok hins).2).trans
      (insertTier3WithGenerations _ hrest)
  | createTier3 key =>
    replace h := skip (skip h)
    exact insertWithLock h
  | insertInitialProjectDEK org project key =>
    replace h := skip (skip (skip h))
    exact insertWithLock h
  | rotateTokenKey | rotateScanningKey => exact rotateRootScopedTier3 h (by simp)
  | rotateDEK => exact rotateDEK h
  | rotateMasterKey => exact rotateMasterKey h
  | retireRetiringTier3 => cases hop
  | rootKeyRotatePrepare => exact rootKeyRotatePrepare h
  | rootKeyRotateFinalize => exact rootKeyRotateFinalize h

/-- So it strands nothing. -/
theorem nothingStranded {s : CipherStore} {keys : KeyTables} (h : RetiresNothing s.keys keys)
    (hs : NothingStranded s) : NothingStranded { s with keys := keys } := by
  intro r hr k' hk' hscope hretired hnames
  obtain ⟨k, hk, hscope', hversion, hretired'⟩ :=
    h k' hk' hretired (congrArg Prod.fst hscope)
  exact hs r hr k hk (hscope'.trans hscope) hretired' (hversion ▸ hnames)

end RetiresNothing

/-! ## The dryness gate -/

theorem chunkSize_pos (configured : ℤ) : 0 < chunkSize configured := by
  unfold chunkSize
  split <;> omega

/-- The first cursor is below every identifier. -/
theorem CipherRow.empty_lt_id (r : CipherRow) : "" < r.id := by
  rw [String.lt_iff_toList_lt]
  cases hid : r.id.toList with
  | nil => exact absurd (String.toList_eq_nil_iff.mp hid) r.id_minted
  | cons c cs => exact nil_lt_cons c cs

variable {active : UInt32}

theorem rowStraggler_eq_none (h : rowStraggler t active row = .ok none) :
    ∀ version, row.Names version → version = dbInt active := by
  rintro _ ⟨hne, v, hv, rfl⟩
  unfold rowStraggler at h
  rw [if_neg hne] at h
  obtain ⟨version, hversion, h⟩ := bind_ok h
  obtain rfl : v = version := Except.ok.inj (hv.symm.trans (liftError_eq_ok.mp hversion))
  split at h
  case isTrue => cases Except.ok.inj h
  case isFalse hsame => rw [not_not.mp hsame]

section Gate

variable {s : CipherStore} {org project : String} {n : ℕ} {active : UInt32}

/-- The identifiers of the rows a list query ranges over are distinct. -/
theorem nodup_listed (t : ProjectTable) : ((s.listed t org project).map CipherRow.id).Nodup := by
  refine List.Nodup.map_on (fun r hr r' hr' hid => ?_) ?_
  · obtain ⟨hr, hp⟩ := mem_filter.mp hr
    obtain ⟨hr', hp'⟩ := mem_filter.mp hr'
    exact s.row_pk.eq_of_key hr hr' rfl rfl
      (Prod.ext ((of_decide_eq_true hp).1.trans (of_decide_eq_true hp').1.symm) hid)
  · have hrows := s.row_pk
    rw [Table.UniqueOn, filter_true] at hrows
    exact hrows.of_map.filter _

/-- A table without a straggler has every ciphertext of the project on the active
version. -/
theorem onVersion_of_dry (hn : 0 < n)
    (h : projectTableStraggler s t org project n active = .ok none) :
    ∀ r ∈ s.rows, r.table = t → r.org = org → r.project = project →
      ∀ version, r.Names version → version = dbInt active := by
  intro r hr ht horg hproject version hnames
  unfold projectTableStraggler at h
  cases hscan : Paging.scan CipherRow.id (s.listed t org project) n (rowStraggler t active)
      (s.rows.length + 1) "" with
  | none =>
    rw [hscan] at h
    cases h
  | some result =>
    rw [hscan] at h
    obtain rfl : result = .ok none := h
    -- a row that names a version has a ciphertext, so the list query has it
    have hlisted : r ∈ s.listed t org project := by
      refine mem_filter.mpr ⟨hr, decide_eq_true ⟨ht, horg, hproject, fun _ hnull => ?_⟩⟩
      exact hnames.1 (by rw [CipherRow.bytes, hnull]; rfl)
    exact rowStraggler_eq_none
      (Paging.visited_of_scan hn (nodup_listed t) _ _ hscan r hlisted r.empty_lt_id) version hnames

/-- The paging loop of the gate ends. -/
theorem projectTableStraggler_ends (hn : 0 < n) (t : ProjectTable) :
    (Paging.scan CipherRow.id (s.listed t org project) n (rowStraggler t active)
      (s.rows.length + 1) "").isSome := by
  refine Paging.scan_isSome hn _ _ (Nat.lt_succ_of_le ?_)
  exact (filter_sublist.trans filter_sublist).length_le

theorem dry_of_tablesDry : ∀ {ts : List ProjectTable},
    tablesDry s org project n active ts = .ok u →
      ∀ t ∈ ts, projectTableStraggler s t org project n active = .ok none
  | [], _, _, ht => nomatch ht
  | t :: ts, h, t', ht' => by
    rw [tablesDry] at h
    obtain ⟨result, hresult, h⟩ := bind_ok h
    cases result with
    | some row => cases h
    | none =>
      rcases mem_cons.mp ht' with rfl | hrest
      · exact hresult
      · exact dry_of_tablesDry h t' hrest

end Gate

/-- **The retirement strands nothing.** What it retires is in the project's
scope and was retiring; the gate found every ciphertext of the project on the
version the fence found active. -/
theorem nothingStranded_retire {s s' : CipherStore} {org project : String} {n : ℕ} (hn : 0 < n)
    (h : retireProject org project n active s = .ok s')
    (hs : NothingStranded s) : NothingStranded s' := by
  unfold retireProject at h
  obtain ⟨_, hfence, h⟩ := bind_ok h
  obtain ⟨_, hdry, h⟩ := bind_ok h
  obtain ⟨keys, hretire, h⟩ := bind_ok h
  cases h
  obtain ⟨_, -, hkeys⟩ := bind_ok (liftError_eq_ok.mp hretire)
  cases hkeys
  intro r hr k' hk' hscope hretired hnames
  rcases Table.mem_update.mp hk' with ⟨k, hk, hp, rfl⟩ | ⟨hold, -⟩
  · -- a key that this retires: the ciphertext would be on the active version
    obtain ⟨hkscope, hretiring⟩ := of_decide_eq_true hp
    have hproject : r.dekScope = (.project, org, project) := hscope.symm.trans hkscope
    have hversion := onVersion_of_dry hn (dry_of_tablesDry hdry r.table (ProjectTable.mem_all _))
      r hr rfl (congrArg (fun c => c.2.1) hproject) (congrArg (fun c => c.2.2) hproject) _ hnames
    have hactive := activeIn_of_fence hfence k hk hkscope hversion
    cases hretiring.symm.trans hactive
  · exact hs r hr k' hold hscope hretired hnames

/-! ## Runs -/

/-- **Every transaction keeps ciphertexts from being stranded.** -/
theorem nothingStranded_step (A : Aead) {s : CipherStore} (hs : NothingStranded s)
    (op : CipherOp) : NothingStranded (CipherOp.step A s op) := by
  refine Tx.commit_invariant NothingStranded hs fun s' h => ?_
  cases op with
  | write sealer writes =>
    obtain ⟨_, hfence, hwrites⟩ := bind_ok h
    exact (fenced_of_writes writes hwrites).nothingStranded (activeIn_of_fence hfence) hs
  | keys op hop =>
    obtain ⟨keys, hkeys, h⟩ := bind_ok h
    cases h
    exact (RetiresNothing.of_keyOp hop (liftError_eq_ok.mp hkeys)).nothingStranded hs
  | walkChunk sealer t configured rnd cursor =>
    obtain ⟨⟨c, seen⟩, hchunk, h⟩ := bind_ok h
    cases h
    obtain ⟨_, hfence, hrows⟩ := bind_ok hchunk
    obtain ⟨c', hfold, hpair⟩ := bind_ok hrows
    obtain rfl : c' = c := congrArg Prod.fst (Except.ok.inj hpair)
    exact (fenced_of_walkRows _ hfold).nothingStranded (activeIn_of_fence hfence) hs
  | retireProject org project configured active =>
    exact nothingStranded_retire (chunkSize_pos configured) h hs

/-- **No ciphertext is stranded**, whatever transactions are interleaved. -/
theorem nothingStranded_run (A : Aead) {s : CipherStore} (hs : NothingStranded s)
    (ops : List CipherOp) : NothingStranded (exec (CipherOp.step A) s ops) :=
  Tx.exec_invariant NothingStranded (fun _ op h => nothingStranded_step A h op) ops s hs

/-- A project with one value, sealed under the first version of its key. -/
def oneValueStore : CipherStore where
  keys := exec KeyOp.step KeyTables.empty
    [.mintHierarchy ⟨"m", []⟩ ⟨"i", []⟩ ⟨"t", []⟩ ⟨"s", []⟩,
      .createTier3 (mintTier3At .project "o" "p" 1 1 ⟨"dek_1", []⟩)]
  rows := [⟨.value, "o", "p", "val_1", "env", "key", "", "", some (Header.bytes
    ⟨formatV1, kindValue, algXChaCha20Poly1305, utf8 "dek_1", 1, List.replicate 24 0⟩), by decide⟩]
  row_pk := by decide

/-- The key is rotated and a retirement comes before any walk: it is refused, the
first version stays retiring and the value is not lost. -/
theorem oneValue_not_stranded :
    let s := exec (CipherOp.step (oneCallAead ⟨[], [], [], []⟩)) oneValueStore
      [.keys (.rotateDEK (mintTier3At .project "o" "p" 2 1 ⟨"dek_2", []⟩)) rfl,
        .retireProject "o" "p" 0 2]
    NothingStranded s ∧
      (s.keys.tier3.filter fun k => k.purpose = .project).map Tier3Row.state = [.active, .retiring] := by
  refine ⟨nothingStranded_run _ ?_ _, by decide⟩
  intro r _ k hk _ hretired
  have hnone : ∀ k ∈ oneValueStore.keys.tier3, k.state ≠ .retired := by decide
  exact absurd hretired (hnone k hk)

end Hikyo
