import Hikyo.Store.Keyring

/-!
# The key hierarchy is sound in every reachable state

The mutations of the key store are given rows that were prepared in an earlier
transaction, so any of them can arrive late: after another rotation of the same
scope, after a rotation of the master key, in the middle of a rotation of the
root. This module shows that whatever arrives and in whatever order, the tables
stay a hierarchy (`reachable_hierarchyOk`): the master key has one or two active
wrappers, of one version and under different roots; every key that can still be
opened is wrapped under exactly that version; and in each scope the newest
version is the active one.

What an operation does to the rows is said once, by an inversion lemma for each;
the invariant `KeyTables.Sound` is kept by every operation
(`KeyTables.Sound.step`), and so by every run.
-/

namespace Hikyo

open List
open Tx (ensure ensure_eq_ok bind_ok skip except_bind_eq_ok commit exec ensured)

/-! ## Runs -/

/-- One transaction on the key store. Rows come as they were prepared. -/
inductive KeyOp where
  | mintHierarchy (master inst token scanning : Minted)
  | createTier3 (key : WrappedKey)
  | insertInitialProjectDEK (org project : String) (key : WrappedKey)
  | rotateTokenKey (version masterVersion : UInt32) (minted : Minted)
  | rotateScanningKey (version masterVersion : UInt32) (minted : Minted)
  | rotateDEK (key : WrappedKey)
  | rotateMasterKey (newMaster : WrappedKey) (rewrapped : List WrappedKey)
  | retireRetiringTier3 (scope : KeyScope)
  | rootKeyRotatePrepare (newWrapper : WrappedKey)
  | rootKeyRotateFinalize (blocked : Bool)

/-- The body of the transaction. -/
def KeyOp.apply : KeyOp → KeyTables → Except KeyError KeyTables
  | mintHierarchy master inst token scanning => Hikyo.mintHierarchy master inst token scanning
  | createTier3 key => Hikyo.createTier3 key
  | insertInitialProjectDEK org project key => Hikyo.insertInitialProjectDEK org project key
  | rotateTokenKey v mv minted => rotateRootScopedTier3 .token (mintTier3At .token "" "" v mv minted)
  | rotateScanningKey v mv minted =>
    rotateRootScopedTier3 .scanning (mintTier3At .scanning "" "" v mv minted)
  | rotateDEK key => Hikyo.rotateDEK key
  | rotateMasterKey newMaster rewrapped => Hikyo.rotateMasterKey newMaster rewrapped
  | retireRetiringTier3 scope => Hikyo.retireRetiringTier3 scope
  | rootKeyRotatePrepare newWrapper => Hikyo.rootKeyRotatePrepare newWrapper
  | rootKeyRotateFinalize blocked => Hikyo.rootKeyRotateFinalize blocked

/-- The tables after the transaction was attempted. -/
def KeyOp.step (s : KeyTables) (op : KeyOp) : KeyTables := commit op.apply s

/-! ## What the table operations do -/

variable {m : MasterRow}

namespace KeyTables

variable {s s' : KeyTables} {key : WrappedKey}

theorem mem_activeMasters : m ∈ s.activeMasters ↔ m ∈ s.masters ∧ m.state = .active := by
  rw [activeMasters, mem_insertionSort, mem_filter]
  exact and_congr_right' decide_eq_true_iff

theorem length_activeMasters : s.activeMasters.length = s.masters.countP MasterRow.isActive := by
  rw [activeMasters, length_insertionSort, countP_eq_length_filter]

theorem insertMasterRow_eq_ok (h : s.insertMasterRow key = .ok s') :
    s'.masters = key.masterRow :: s.masters ∧ s'.tier3 = s.tier3 := by
  unfold insertMasterRow at h
  split at h
  · cases h
    exact ⟨rfl, rfl⟩
  · cases h

theorem insertTier3Row_eq_ok (h : s.insertTier3Row key = .ok s') :
    s'.masters = s.masters ∧ s'.tier3 = key.tier3Row :: s.tier3 := by
  unfold insertTier3Row at h
  split at h
  · cases h
    exact ⟨rfl, rfl⟩
  · cases h

theorem insertScopeGenerationRow_eq_ok {scope : String}
    (h : s.insertScopeGenerationRow scope = .ok s') :
    s'.masters = s.masters ∧ s'.tier3 = s.tier3 := by
  unfold insertScopeGenerationRow at h
  split at h
  · cases h
    exact ⟨rfl, rfl⟩
  · cases h

end KeyTables

variable {v : UInt32}

theorem assertActiveMaster_eq_ok {s : KeyTables} {u : Unit} :
    assertActiveMaster s v = .ok u ↔
      s.activeMasters ≠ [] ∧ ∀ m ∈ s.activeMasters, m.version = dbInt v := by
  simp only [assertActiveMaster, except_bind_eq_ok, ensure_eq_ok, exists_and_left, exists_const]

/-! ## The invariant -/

/-- In each scope the newest version is the active one. -/
def NewestActive (rows : List Tier3Row) : Prop :=
  ∀ r ∈ rows, ∃ a ∈ rows, a.scope = r.scope ∧ a.state = .active ∧
    ∀ x ∈ rows, x.scope = r.scope → x ≠ a → x.version < a.version

/-- Every key that can be opened is wrapped under the version of every active
master wrapper. -/
def WrappedUnder (masters : List MasterRow) (rows : List Tier3Row) : Prop :=
  ∀ m ∈ masters, m.state = .active → ∀ r ∈ rows, r.isOpenable = true →
    r.masterKeyVersion = m.version

/-- **The invariant of the key tables.** -/
structure KeyTables.Sound (s : KeyTables) : Prop where
  /-- without a master key there is no other key -/
  no_orphans : s.masters = [] → s.tier3 = []
  /-- the first master row stays, so the hierarchy is created once -/
  first : s.masters ≠ [] → ∃ m ∈ s.masters, m.version = 1 ∧ m.rootKeyEpoch = 1
  /-- an active wrapper is there -/
  live : s.masters ≠ [] → 1 ≤ s.masters.countP MasterRow.isActive
  /-- there are at most two -/
  dual : s.masters.countP MasterRow.isActive ≤ 2
  /-- of one version -/
  one_version : ∀ m ∈ s.masters, m.state = .active → ∀ m' ∈ s.masters, m'.state = .active →
    m.version = m'.version
  wrapped : WrappedUnder s.masters s.tier3
  newest : NewestActive s.tier3

/-! ### Rows of a scope -/

variable {rows : List Tier3Row} {row : Tier3Row}

/-- **A first key.** If the one-active index admits an active row, its scope has
no row yet, so the row is the newest there. -/
theorem NewestActive.insert (h : NewestActive rows) (hrow : row.state = .active)
    (hindex : Table.UniqueOn Tier3Row.isActive Tier3Row.scope (row :: rows)) :
    NewestActive (row :: rows) := by
  have hfresh : ∀ r ∈ rows, r.scope ≠ row.scope := by
    intro r hr hscope
    obtain ⟨a, ha, hascope, hactive, -⟩ := h r hr
    exact (Table.uniqueOn_cons.mp hindex).1 (decide_eq_true hrow) a ha (decide_eq_true hactive)
      (hascope.trans hscope)
  intro r hr
  rcases mem_cons.mp hr with rfl | hold
  · refine ⟨r, mem_cons_self, rfl, hrow, fun x hx hscope hne => ?_⟩
    exact absurd hscope (hfresh x (mem_of_ne_of_mem hne hx))
  · obtain ⟨a, ha, hascope, hactive, hmax⟩ := h r hold
    refine ⟨a, mem_cons_of_mem _ ha, hascope, hactive, fun x hx hscope hne => ?_⟩
    rcases mem_cons.mp hx with rfl | hxold
    · exact absurd hscope.symm (hfresh r hold)
    · exact hmax x hxold hscope hne

section Update

variable {rows : List Tier3Row} {p : Tier3Row → Bool} {f : Tier3Row → Tier3Row}

/-- An update that keeps scopes, versions and the active rows active. -/
theorem NewestActive.update (h : NewestActive rows) (hscope : ∀ r, (f r).scope = r.scope)
    (hversion : ∀ r, (f r).version = r.version)
    (hactive : ∀ r ∈ rows, p r = true → r.state = .active → (f r).state = .active) :
    NewestActive (Table.update p f rows) := by
  have himage : ∀ r, (if p r then f r else r).scope = r.scope ∧
      (if p r then f r else r).version = r.version :=
    fun r => ⟨Table.key_image hscope r, Table.key_image hversion r⟩
  intro r' hr'
  obtain ⟨r, hr, rfl⟩ := mem_map.mp hr'
  obtain ⟨a, ha, hascope, haactive, hmax⟩ := h r hr
  refine ⟨_, Table.mem_update_of_mem ha, ?_, ?_, fun x' hx' hxscope hne => ?_⟩
  · rw [(himage a).1, (himage r).1, hascope]
  · split
    case isTrue hp => exact hactive a ha hp haactive
    case isFalse => exact haactive
  · obtain ⟨x, hx, rfl⟩ := mem_map.mp hx'
    rw [(himage x).2, (himage a).2]
    refine hmax x hx ?_ ?_
    · rwa [(himage x).1, (himage r).1] at hxscope
    · rintro rfl
      exact hne rfl

/-- **The next version.** The active row of a scope, at version `v`, makes room
and a row at version `v + 1` takes its place. -/
theorem NewestActive.succeed {a : Tier3Row} (h : NewestActive rows)
    (hscope : ∀ r, (f r).scope = r.scope) (hversion : ∀ r, (f r).version = r.version)
    (hp : ∀ r, p r = true → r.scope = row.scope)
    (hrow : row.state = .active) (ha : a ∈ rows) (hascope : a.scope = row.scope)
    (haactive : a.state = .active) (haversion : a.version = row.version - 1)
    (hindex : Table.UniqueOn Tier3Row.isActive Tier3Row.scope rows) :
    NewestActive (row :: Table.update p f rows) := by
  have himage : ∀ r, (if p r then f r else r).scope = r.scope ∧
      (if p r then f r else r).version = r.version :=
    fun r => ⟨Table.key_image hscope r, Table.key_image hversion r⟩
  -- in the scope of the new row every old version is below it
  have hbelow : ∀ x ∈ rows, x.scope = row.scope → x.version < row.version := by
    intro x hx hxscope
    obtain ⟨b, hb, hbscope, hbactive, hmax⟩ := h a ha
    obtain rfl : b = a := hindex.eq_of_key hb ha (decide_eq_true hbactive)
      (decide_eq_true haactive) hbscope
    by_cases hxb : x = b
    · rw [hxb]
      omega
    · have := hmax x hx (hxscope.trans hascope.symm) hxb
      omega
  have hnew : ∀ r : Tier3Row, r.scope = row.scope → ∃ b ∈ row :: Table.update p f rows,
      b.scope = r.scope ∧ b.state = .active ∧ ∀ x ∈ row :: Table.update p f rows,
        x.scope = r.scope → x ≠ b → x.version < b.version := by
    intro r hr
    refine ⟨row, mem_cons_self, hr.symm, hrow, fun x hx hxscope hne => ?_⟩
    obtain ⟨x₀, hx₀, rfl⟩ := mem_map.mp (mem_of_ne_of_mem hne hx)
    rw [(himage x₀).2]
    exact hbelow x₀ hx₀ (by rw [← (himage x₀).1, hxscope, hr])
  intro r' hr'
  rcases mem_cons.mp hr' with rfl | hr'
  · exact hnew r' rfl
  · obtain ⟨r, hr, rfl⟩ := mem_map.mp hr'
    by_cases hrscope : r.scope = row.scope
    · exact hnew _ ((himage r).1.trans hrscope)
    · -- another scope: its rows are untouched
      obtain ⟨b, hb, hbscope, hbactive, hmax⟩ := h r hr
      have hkept : (if p b then f b else b) = b :=
        if_neg fun hpb => hrscope (hbscope.symm.trans (hp b hpb))
      refine ⟨b, ?_, hbscope.trans (himage r).1.symm, hbactive, fun x' hx' hxscope hne => ?_⟩
      · exact mem_cons_of_mem _ (hkept ▸ Table.mem_update_of_mem hb)
      · rw [(himage r).1] at hxscope
        rcases mem_cons.mp hx' with rfl | hx'
        · exact absurd hxscope.symm hrscope
        · obtain ⟨x, hx, rfl⟩ := mem_map.mp hx'
          rw [(himage x).2]
          refine hmax x hx ((himage x).1.symm.trans hxscope) ?_
          rintro rfl
          exact hne hkept

end Update

/-! ### The wrapping master -/

variable {masters : List MasterRow}

theorem WrappedUnder.insert (h : WrappedUnder masters rows)
    (hrow : ∀ m ∈ masters, m.state = .active → row.masterKeyVersion = m.version) :
    WrappedUnder masters (row :: rows) := by
  intro m hm hactive r hr hopen
  rcases mem_cons.mp hr with rfl | hold
  · exact hrow m hm hactive
  · exact h m hm hactive r hold hopen

variable {state : KeyState}

/-- Changing states of keys does no harm as long as none becomes openable. -/
theorem WrappedUnder.demote {p : Tier3Row → Bool} (h : WrappedUnder masters rows)
    (hp : ∀ r, p r = true → r.isOpenable = true) :
    WrappedUnder masters (Table.update p (fun r => { r with state := state }) rows) := by
  intro m hm hactive r hr hopen
  rcases Table.mem_update.mp hr with ⟨r₀, hr₀, hpr, rfl⟩ | ⟨hr, -⟩
  · exact h m hm hactive r₀ hr₀ (hp r₀ hpr)
  · exact h m hm hactive r hr hopen

namespace KeyTables

variable {s s' s₁ : KeyTables} {key : WrappedKey} {p : MasterRow → Bool}

/-- A master row that is active after some were retired was active and not among
them. -/
theorem mem_retireMasters (hm : m ∈ (s.retireMasters p).masters)
    (hactive : m.state = .active) : m ∈ s.masters ∧ p m = false := by
  rcases Table.mem_update.mp hm with ⟨r, -, -, rfl⟩ | hold
  · cases hactive
  · exact hold

/-- Master rows keep their place. -/
theorem exists_retireMasters (hm : m ∈ s.masters) :
    ∃ m' ∈ (s.retireMasters p).masters, m'.version = m.version ∧ m'.rootKeyEpoch = m.rootKeyEpoch :=
  ⟨_, Table.mem_update_of_mem hm, by split <;> rfl, by split <;> rfl⟩

theorem nodup_epochs (s : KeyTables) : (s.activeMasters.map MasterRow.rootKeyEpoch).Nodup :=
  ((perm_insertionSort _ _).map _).nodup_iff.mpr s.master_epoch

/-- There is a master row as soon as one is active. -/
theorem masters_ne_nil (h : s.activeMasters ≠ []) : s.masters ≠ [] := by
  obtain ⟨m, hm⟩ := exists_mem_of_ne_nil _ h
  exact ne_nil_of_mem (mem_activeMasters.mp hm).1

namespace Sound

/-- The invariant reads the masters and the tier-3 keys only. -/
theorem congr (h : s.Sound) (hmasters : s'.masters = s.masters) (htier3 : s'.tier3 = s.tier3) :
    s'.Sound where
  no_orphans := by rw [hmasters, htier3]; exact h.no_orphans
  first := by rw [hmasters]; exact h.first
  live := by rw [hmasters]; exact h.live
  dual := by rw [hmasters]; exact h.dual
  one_version := by rw [hmasters]; exact h.one_version
  wrapped := by rw [hmasters, htier3]; exact h.wrapped
  newest := by rw [htier3]; exact h.newest

/-- With the masters as they are, only the keys below them matter. -/
theorem of_tier3 (h : s.Sound) (hmasters : s'.masters = s.masters) (hne : s.masters ≠ [])
    (hwrapped : WrappedUnder s.masters s'.tier3) (hnewest : NewestActive s'.tier3) : s'.Sound where
  no_orphans hnil := absurd (hmasters ▸ hnil) hne
  first := by rw [hmasters]; exact h.first
  live := by rw [hmasters]; exact h.live
  dual := by rw [hmasters]; exact h.dual
  one_version := by rw [hmasters]; exact h.one_version
  wrapped := by rw [hmasters]; exact hwrapped
  newest := hnewest

/-- What `assertActiveMaster` checks is what the new row needs. -/
theorem row_wrapped (h : ∀ m ∈ s.activeMasters, m.version = dbInt v) :
    ∀ m ∈ s.masters, m.state = .active → dbInt v = m.version :=
  fun m hm hactive => (h m (mem_activeMasters.mpr ⟨hm, hactive⟩)).symm

variable {minted : Minted}

section

variable (h : s.Sound)

include h

section

variable (hlive : s.activeMasters ≠ [])
  (hmaster : ∀ m ∈ s.activeMasters, m.version = dbInt key.masterKeyVersion)

include hlive hmaster

/-- A first key in its scope. -/
theorem insertTier3 (hins : s.insertTier3Row key = .ok s') : s'.Sound := by
  obtain ⟨hmasters, htier3⟩ := insertTier3Row_eq_ok hins
  have hindex := s'.tier3_active
  rw [htier3] at hindex
  refine h.of_tier3 hmasters (masters_ne_nil hlive) ?_ ?_
  · rw [htier3]
    exact h.wrapped.insert (row_wrapped hmaster)
  · rw [htier3]
    exact h.newest.insert rfl hindex

/-- A first key together with the lock of its scope. -/
theorem insertTier3WithLock (hins : (do
      let s ← s.insertTier3Row key
      s.insertScopeGenerationRow (scopeGenerationKey key.scope)) = .ok s') : s'.Sound := by
  obtain ⟨s₁, hins, hgen⟩ := bind_ok hins
  obtain ⟨hmasters, htier3⟩ := insertScopeGenerationRow_eq_ok hgen
  exact (h.insertTier3 hlive hmaster hins).congr hmasters htier3

/-- A rotation within a scope: the row at the version before makes room. -/
theorem succeed {hstate : state ≠ .active}
    (hone : s.tier3.countP (activeAt key.scope (dbInt key.version - 1)) = 1)
    (hins : (s.demoteTier3 (activeAt key.scope (dbInt key.version - 1)) state
      hstate).insertTier3Row key = .ok s') : s'.Sound := by
  obtain ⟨hmasters, htier3⟩ := insertTier3Row_eq_ok hins
  obtain ⟨a, ha, hat⟩ := countP_pos_iff.mp (hone ▸ Nat.one_pos)
  obtain ⟨hascope, haactive, haversion⟩ := of_decide_eq_true hat
  refine h.of_tier3 hmasters (masters_ne_nil hlive) ?_ ?_
  · rw [htier3]
    refine (h.wrapped.demote fun r hr => ?_).insert (row_wrapped hmaster)
    exact decide_eq_true (.inl (of_decide_eq_true hr).2.1)
  · rw [htier3]
    exact h.newest.succeed (fun _ => rfl) (fun _ => rfl)
      (fun r hr => (of_decide_eq_true hr).1) rfl ha hascope haactive haversion s.tier3_active

end

/-! ### The operations on tier-3 keys -/

theorem createTier3 (hop : Hikyo.createTier3 key s = .ok s') : s'.Sound := by
  simp only [Hikyo.createTier3, except_bind_eq_ok (acquireHierarchy s),
    except_bind_eq_ok (assertActiveMaster s _), assertActiveMaster_eq_ok] at hop
  obtain ⟨_, -, _, ⟨hlive, hmaster⟩, hins⟩ := hop
  exact h.insertTier3WithLock hlive hmaster hins

theorem insertInitialProjectDEK {org project : String}
    (hop : Hikyo.insertInitialProjectDEK org project key s = .ok s') : s'.Sound := by
  simp only [Hikyo.insertInitialProjectDEK, except_bind_eq_ok (ensure _ _),
    except_bind_eq_ok (acquireHierarchy s), except_bind_eq_ok (assertActiveMaster s _),
    assertActiveMaster_eq_ok] at hop
  obtain ⟨_, -, _, -, _, ⟨hlive, hmaster⟩, hins⟩ := hop
  exact h.insertTier3WithLock hlive hmaster hins

theorem rotateRootScopedTier3 {purpose : Purpose} (hscope : key.scope = (purpose, "", ""))
    (hop : Hikyo.rotateRootScopedTier3 purpose key s = .ok s') : s'.Sound := by
  simp only [Hikyo.rotateRootScopedTier3, retireTier3AtVersion, except_bind_eq_ok, ensure_eq_ok,
    assertActiveMaster_eq_ok, ← hscope] at hop
  obtain ⟨_, -, _, ⟨hlive, hmaster⟩, _, hone, hins⟩ := hop
  exact h.succeed hlive hmaster hone hins

theorem rotateDEK (hop : Hikyo.rotateDEK key s = .ok s') : s'.Sound := by
  simp only [Hikyo.rotateDEK, demoteTier3AtVersion, except_bind_eq_ok,
    assertActiveMaster_eq_ok] at hop
  obtain ⟨_, -, _, -, _, ⟨hlive, hmaster⟩, _, hone, hins⟩ := hop
  exact h.succeed hlive hmaster (ensured hone) hins

theorem retireRetiringTier3 {scope : KeyScope}
    (hop : Hikyo.retireRetiringTier3 scope s = .ok s') : s'.Sound := by
  simp only [Hikyo.retireRetiringTier3, except_bind_eq_ok, pure, Except.pure,
    Except.ok.injEq] at hop
  obtain ⟨_, -, rfl⟩ := hop
  by_cases hnil : s.masters = []
  · exact h.congr rfl (by
      show Table.update _ _ s.tier3 = s.tier3
      rw [h.no_orphans hnil]
      rfl)
  · refine h.of_tier3 rfl hnil (h.wrapped.demote fun r hr => ?_)
      (h.newest.update (fun _ => rfl) (fun _ => rfl) fun r _ hr hactive => ?_)
    · exact decide_eq_true (.inr (of_decide_eq_true hr).2)
    · -- an active row is not a retiring one
      cases hactive.symm.trans (of_decide_eq_true hr).2

/-! ### The operations on the master key -/

/-- The first start finds no master key: otherwise its row is there already. -/
theorem masters_eq_nil_of_first
    (hins : s.insertMasterRow (mintMaster minted) = .ok s') : s.masters = [] := by
  by_contra hne
  obtain ⟨m, hm, hversion, hepoch⟩ := h.first hne
  have hpk := s'.master_pk
  rw [(insertMasterRow_eq_ok hins).1] at hpk
  refine (Table.uniqueOn_cons.mp hpk).1 rfl m hm rfl ?_
  rw [hversion, hepoch]
  rfl

/-- Right after the first master row the tables are in order. -/
theorem insertFirstMaster (hins : s.insertMasterRow (mintMaster minted) = .ok s') :
    s'.Sound ∧ s'.masters = [(mintMaster minted).masterRow] := by
  have hnil := h.masters_eq_nil_of_first hins
  obtain ⟨hmasters, htier3⟩ := insertMasterRow_eq_ok hins
  rw [hnil] at hmasters
  rw [h.no_orphans hnil] at htier3
  refine ⟨⟨fun hno => ?_, fun _ => ?_, fun _ => ?_, ?_, ?_, ?_, ?_⟩, hmasters⟩
  · cases hmasters.symm.trans hno
  · exact ⟨_, hmasters ▸ mem_cons_self, rfl, rfl⟩
  · rw [hmasters]
    exact Nat.le_refl 1
  · rw [hmasters]
    exact Nat.le_succ 1
  · intro m hm _ m' hm' _
    rw [hmasters] at hm hm'
    rw [mem_singleton.mp hm, mem_singleton.mp hm']
  · intro m _ _ r hr
    exact nomatch htier3 ▸ hr
  · intro r hr
    exact nomatch htier3 ▸ hr

end

theorem insertTier3WithGenerations (keys : List WrappedKey) : ∀ {s : KeyTables}, s.Sound →
    s.activeMasters ≠ [] →
    (∀ key ∈ keys, ∀ m ∈ s.activeMasters, m.version = dbInt key.masterKeyVersion) →
    Hikyo.insertTier3WithGenerations s keys = .ok s' → s'.Sound := by
  induction keys with
  | nil =>
    intro s h _ _ hop
    cases hop
    exact h
  | cons key keys ih =>
    intro s h hlive hmaster hop
    simp only [Hikyo.insertTier3WithGenerations, except_bind_eq_ok] at hop
    obtain ⟨s₁, hins, s₂, hgen, hrest⟩ := hop
    have hsame : s₂.activeMasters = s.activeMasters := by
      rw [activeMasters, activeMasters, (insertScopeGenerationRow_eq_ok hgen).1,
        (insertTier3Row_eq_ok hins).1]
    refine ih (h.insertTier3WithLock hlive (hmaster key mem_cons_self)
      ((except_bind_eq_ok _ _ _).mpr ⟨s₁, hins, hgen⟩)) (hsame ▸ hlive) ?_ hrest
    rw [hsame]
    exact fun k hk => hmaster k (mem_cons_of_mem _ hk)

theorem mintHierarchy {master inst token scanning : Minted} (h : s.Sound)
    (hop : Hikyo.mintHierarchy master inst token scanning s = .ok s') : s'.Sound := by
  simp only [Hikyo.mintHierarchy, createHierarchy, except_bind_eq_ok] at hop
  obtain ⟨_, -, s₁, hins, hrest⟩ := hop
  obtain ⟨hsound, hmasters⟩ := h.insertFirstMaster hins
  have hactive : s₁.activeMasters = [(mintMaster master).masterRow] := by
    rw [activeMasters, hmasters]
    rfl
  refine insertTier3WithGenerations _ hsound (by rw [hactive]; nofun) ?_ hrest
  intro key hkey m hm
  rw [hactive, mem_singleton] at hm
  subst hm
  -- the master row and the three keys below it all name version 1
  simp only [mem_cons, not_mem_nil, or_false] at hkey
  rcases hkey with rfl | rfl | rfl <;> rfl

/-- Storing rewrapped keys leaves scopes, versions and states as they are. -/
theorem rewrapTier3 (rows : List WrappedKey) : ∀ {s : KeyTables},
    Hikyo.rewrapTier3 s rows = .ok s' → s'.masters = s.masters ∧
      s'.tier3.map Tier3Row.state = s.tier3.map Tier3Row.state ∧
        (NewestActive s.tier3 → NewestActive s'.tier3) := by
  induction rows with
  | nil =>
    intro s hop
    cases hop
    exact ⟨rfl, rfl, id⟩
  | cons row rows ih =>
    intro s hop
    simp only [Hikyo.rewrapTier3, except_bind_eq_ok] at hop
    obtain ⟨_, -, hrest⟩ := hop
    obtain ⟨hmasters, hstates, hnewest⟩ := ih hrest
    exact ⟨hmasters, hstates.trans (Table.map_update fun _ => rfl), fun h =>
      hnewest (h.update (fun _ => rfl) (fun _ => rfl) fun _ _ _ hactive => hactive)⟩

variable {newMaster : WrappedKey} {rewrapped : List WrappedKey}

/-- **What a rotation of the master key does.** The only active master is retired
for the next one, and afterwards every key that can be opened names the new one. -/
theorem rotateMasterKey_eq_ok (hop : Hikyo.rotateMasterKey newMaster rewrapped s = .ok s') :
    ∃ master, s.activeMasters = [master] ∧ dbInt newMaster.version = master.version + 1 ∧
      s'.masters = newMaster.masterRow :: (s.retireMasterAtVersion master.version).2.masters ∧
      s'.tier3.map Tier3Row.state = s.tier3.map Tier3Row.state ∧
      (NewestActive s.tier3 → NewestActive s'.tier3) ∧
      ∀ r ∈ s'.tier3, r.isOpenable = true → r.masterKeyVersion = dbInt newMaster.version := by
  unfold Hikyo.rotateMasterKey at hop
  replace hop := skip hop
  split at hop
  case h_2 => cases hop
  case h_1 master hactive =>
    simp only [retireMasterAtVersion, except_bind_eq_ok, ensure_eq_ok, pure, Except.pure,
      Except.ok.injEq] at hop
    obtain ⟨_, hnext, _, -, s₁, hins, s₂, hrewrap, _, hstranded, rfl⟩ := hop
    obtain ⟨hmasters, htier3⟩ := insertMasterRow_eq_ok hins
    obtain ⟨hsame, hstates, hnewest⟩ := rewrapTier3 rewrapped hrewrap
    rw [htier3] at hstates hnewest
    refine ⟨master, hactive, hnext, hsame.trans hmasters, hstates, hnewest, fun r hr hopen => ?_⟩
    by_contra hne
    have hbehind := countP_eq_zero.mp hstranded r hr
    rw [hopen] at hbehind
    exact hbehind (decide_eq_true hne)

theorem rotateMasterKey (h : s.Sound)
    (hop : Hikyo.rotateMasterKey newMaster rewrapped s = .ok s') : s'.Sound := by
  obtain ⟨master, hactive, -, hmasters, -, hnewest, hwrapped⟩ := rotateMasterKey_eq_ok hop
  -- the old master was the only active one, and it is retired
  have hnone : ∀ m ∈ (s.retireMasters fun m => m.version = master.version ∧
      m.state = .active).masters, m.state ≠ .active := by
    intro m hm hmactive
    obtain ⟨hms, hp⟩ := mem_retireMasters hm hmactive
    have hmem := mem_activeMasters.mpr ⟨hms, hmactive⟩
    rw [hactive, mem_singleton] at hmem
    exact of_decide_eq_false hp ⟨congrArg MasterRow.version hmem, hmactive⟩
  have honly : ∀ m ∈ s'.masters, m.state = .active → m = newMaster.masterRow := by
    intro m hm hmactive
    rw [hmasters] at hm
    rcases mem_cons.mp hm with rfl | hold
    · rfl
    · exact absurd hmactive (hnone m hold)
  have hcount : s'.masters.countP MasterRow.isActive = 1 := by
    rw [hmasters, countP_cons_of_pos rfl, countP_eq_zero.mpr]
    exact fun m hm hmactive => hnone m hm (of_decide_eq_true hmactive)
  refine ⟨fun hno => ?_, fun _ => ?_, fun _ => hcount.ge, hcount.le.trans (by decide), ?_, ?_,
    hnewest h.newest⟩
  · cases hmasters.symm.trans hno
  · have hmem : master ∈ s.activeMasters := hactive ▸ mem_cons_self
    obtain ⟨m, hm, hv, he⟩ := h.first (ne_nil_of_mem (mem_activeMasters.mp hmem).1)
    obtain ⟨m', hm', hv', he'⟩ := exists_retireMasters hm
    exact ⟨m', hmasters ▸ mem_cons_of_mem _ hm', hv'.trans hv, he'.trans he⟩
  · intro m hm hmactive m' hm' hmactive'
    rw [honly m hm hmactive, honly m' hm' hmactive']
  · intro m hm hmactive r hr hopen
    rw [honly m hm hmactive]
    exact hwrapped r hr hopen

theorem rootKeyRotatePrepare {newWrapper : WrappedKey} (h : s.Sound)
    (hop : Hikyo.rootKeyRotatePrepare newWrapper s = .ok s') : s'.Sound := by
  unfold Hikyo.rootKeyRotatePrepare at hop
  replace hop := skip hop
  split at hop
  case h_2 => cases hop
  case h_1 master hactive =>
    simp only [except_bind_eq_ok, ensure_eq_ok] at hop
    obtain ⟨_, ⟨hversion, -⟩, hins⟩ := hop
    obtain ⟨hmasters, htier3⟩ := insertMasterRow_eq_ok hins
    obtain ⟨hmem, hmactive⟩ := mem_activeMasters.mp (hactive ▸ mem_cons_self : master ∈ _)
    -- every active wrapper is of the version of the one that was there
    have hsame : ∀ m ∈ s'.masters, m.state = .active → m.version = master.version := by
      intro m hm hm'
      rw [hmasters] at hm
      rcases mem_cons.mp hm with rfl | hold
      · exact hversion.symm
      · exact h.one_version m hold hm' master hmem hmactive
    have hcount : s'.masters.countP MasterRow.isActive = 2 := by
      rw [hmasters, countP_cons_of_pos rfl, ← length_activeMasters, hactive]
      rfl
    refine ⟨fun hno => ?_, fun _ => ?_, fun _ => ?_, hcount.le, ?_, ?_, htier3 ▸ h.newest⟩
    · cases hmasters.symm.trans hno
    · obtain ⟨m, hm, hv, he⟩ := h.first (ne_nil_of_mem hmem)
      exact ⟨m, hmasters ▸ mem_cons_of_mem _ hm, hv, he⟩
    · rw [hcount]
      exact Nat.le_succ 1
    · intro m hm hma m' hm' hma'
      rw [hsame m hm hma, hsame m' hm' hma']
    · intro m hm hma r hr hopen
      rw [hsame m hm hma]
      exact h.wrapped master hmem hmactive r (htier3 ▸ hr) hopen

theorem rootKeyRotateFinalize {blocked : Bool} (h : s.Sound)
    (hop : Hikyo.rootKeyRotateFinalize blocked s = .ok s') : s'.Sound := by
  unfold Hikyo.rootKeyRotateFinalize at hop
  simp only [except_bind_eq_ok (ensure _ _), except_bind_eq_ok (acquireHierarchy s)] at hop
  obtain ⟨_, -, _, -, hop⟩ := hop
  split at hop
  case h_2 => cases hop
  case h_1 newer older hactive =>
    simp only [retireMasterWrapper, except_bind_eq_ok, ensure_eq_ok, pure, Except.pure,
      Except.ok.injEq] at hop
    obtain ⟨_, -, _, -, rfl⟩ := hop
    obtain ⟨hmem, hmactive⟩ := mem_activeMasters.mp (hactive ▸ mem_cons_self : newer ∈ _)
    -- the wrappers are under different roots, so the newer one stays
    have hepochs := s.nodup_epochs
    rw [hactive] at hepochs
    have hstays : newer ∈ (s.retireMasters fun m => m.version = older.version ∧
        m.rootKeyEpoch = older.rootKeyEpoch ∧ m.state = .active).masters := by
      refine Table.mem_update.mpr (.inr ⟨hmem, decide_eq_false fun hp => ?_⟩)
      simp only [map_cons, map_nil, nodup_cons, mem_singleton] at hepochs
      exact hepochs.1 hp.2.1
    refine ⟨fun hno => ?_, fun _ => ?_, fun _ => ?_, ?_, ?_, ?_, h.newest⟩
    · exact absurd hno (ne_nil_of_mem hstays)
    · obtain ⟨m, hm, hv, he⟩ := h.first (ne_nil_of_mem hmem)
      obtain ⟨m', hm', hv', he'⟩ := exists_retireMasters hm
      exact ⟨m', hm', hv'.trans hv, he'.trans he⟩
    · exact countP_pos_iff.mpr ⟨newer, hstays, decide_eq_true hmactive⟩
    · refine le_trans (Table.countP_update_le fun m hm => ?_) h.dual
      cases (of_decide_eq_true hm : KeyState.retired = .active)
    · intro m hm hma m' hm' hma'
      exact h.one_version m (mem_retireMasters hm hma).1 hma m' (mem_retireMasters hm' hma').1 hma'
    · intro m hm hma
      exact h.wrapped m (mem_retireMasters hm hma).1 hma

/-! ### Runs -/

theorem empty : KeyTables.empty.Sound where
  no_orphans _ := rfl
  first hne := absurd rfl hne
  live hne := absurd rfl hne
  dual := Nat.zero_le 2
  one_version _ hm := nomatch hm
  wrapped _ hm := nomatch hm
  newest _ hr := nomatch hr

/-- **Every transaction keeps the invariant**, whatever rows it is given. -/
theorem step (h : s.Sound) (op : KeyOp) : (KeyOp.step s op).Sound := by
  refine Tx.commit_invariant KeyTables.Sound h fun s' hop => ?_
  cases op with
  | mintHierarchy => exact h.mintHierarchy hop
  | createTier3 => exact h.createTier3 hop
  | insertInitialProjectDEK => exact h.insertInitialProjectDEK hop
  | rotateTokenKey | rotateScanningKey => exact h.rotateRootScopedTier3 rfl hop
  | rotateDEK => exact h.rotateDEK hop
  | rotateMasterKey => exact h.rotateMasterKey hop
  | retireRetiringTier3 => exact h.retireRetiringTier3 hop
  | rootKeyRotatePrepare => exact h.rootKeyRotatePrepare hop
  | rootKeyRotateFinalize => exact h.rootKeyRotateFinalize hop

end Sound

/-! ## The hierarchy -/

/-- **The tables hold a key hierarchy.** -/
structure HierarchyOk (s : KeyTables) : Prop where
  /-- one active wrapper of the master key, or two while the root is replaced -/
  wrappers : s.activeMasters.length = 1 ∨ s.activeMasters.length = 2
  /-- they are of one version -/
  one_version : ∀ m ∈ s.activeMasters, ∀ m' ∈ s.activeMasters, m.version = m'.version
  /-- they are under different roots -/
  distinct_epochs : (s.activeMasters.map MasterRow.rootKeyEpoch).Nodup
  /-- a key that is active or retiring is wrapped under that version -/
  wrapped : ∀ m ∈ s.activeMasters, ∀ r ∈ s.tier3, r.state = .active ∨ r.state = .retiring →
    r.masterKeyVersion = m.version
  /-- a scope with a key has exactly one active key, newer than all others of the scope -/
  newest : ∀ r ∈ s.tier3, ∃ a ∈ s.tier3, a.scope = r.scope ∧ a.state = .active ∧
    ∀ x ∈ s.tier3, x.scope = r.scope → x ≠ a → x.state ≠ .active ∧ x.version < a.version

theorem Sound.hierarchyOk (h : s.Sound) (hne : s.masters ≠ []) : s.HierarchyOk where
  wrappers := by
    have hlive := h.live hne
    have hdual := h.dual
    rw [length_activeMasters]
    omega
  one_version m hm m' hm' :=
    h.one_version m (mem_activeMasters.mp hm).1 (mem_activeMasters.mp hm).2
      m' (mem_activeMasters.mp hm').1 (mem_activeMasters.mp hm').2
  distinct_epochs := s.nodup_epochs
  wrapped m hm r hr hstate :=
    h.wrapped m (mem_activeMasters.mp hm).1 (mem_activeMasters.mp hm).2 r hr (decide_eq_true hstate)
  newest r hr := by
    obtain ⟨a, ha, hscope, hactive, hmax⟩ := h.newest r hr
    refine ⟨a, ha, hscope, hactive, fun x hx hxscope hne => ⟨fun hxactive => hne ?_, ?_⟩⟩
    · exact s.tier3_active.eq_of_key hx ha (decide_eq_true hxactive) (decide_eq_true hactive)
        (hxscope.trans hscope.symm)
    · exact hmax x hx hxscope hne

end KeyTables

theorem reachable_sound (ops : List KeyOp) : (exec KeyOp.step KeyTables.empty ops).Sound :=
  Tx.exec_invariant KeyTables.Sound (fun _ op h => h.step op) ops _ KeyTables.Sound.empty

/-- **In every reachable state the key tables are empty or a hierarchy.** The run
is any list of transactions, each with rows prepared against whatever state;
those that fail change nothing. -/
theorem reachable_hierarchyOk (ops : List KeyOp) :
    ((exec KeyOp.step KeyTables.empty ops).masters = [] ∧
      (exec KeyOp.step KeyTables.empty ops).tier3 = []) ∨
    (exec KeyOp.step KeyTables.empty ops).HierarchyOk := by
  have hsound := reachable_sound ops
  by_cases hnil : (exec KeyOp.step KeyTables.empty ops).masters = []
  · exact .inl ⟨hnil, hsound.no_orphans hnil⟩
  · exact .inr (hsound.hierarchyOk hnil)

end Hikyo
