import Hikyo.Service.CatalogueServices

/-!
# What the writers of a project leave alone

Two facts about every transaction of `Catalogue.transact` that everything else rests on.

*Materialization does not touch the definitions* (`definitions_materialize`,
`definitions_fanOut`). It writes cells and revisions; the environments, the groups and the
keys are the ones it was given. So what `fanOut` has checked of each environment, it has
checked of the definitions the transaction commits (`validated_fanOut`).

*The references of keys stay good* (`integrity_transact`): the group of a key exists, its
rules name environments that exist, each once, and only explicit rules name any. The
constraints of the store see to it statement by statement.
-/

namespace Hikyo.Catalogue

open List
open Tx (bind_ok skip ensured checked)

variable {P : Platform} {C : BundleCodec} {s s' : Tables} {env : String}

/-! ## Materialization leaves the definitions alone -/

/-- The environments, the groups and the keys. -/
def Tables.definitions (s : Tables) :
    Table.Named Entity.columns × Table.Named Entity.columns × Table.Named Key.columns :=
  (s.environments, s.groups, s.keys)

theorem keys_of_definitions (h : s'.definitions = s.definitions) : s'.keys = s.keys :=
  congrArg (fun d => d.2.2) h

theorem environmentIDs_of_definitions (h : s'.definitions = s.definitions) :
    s'.environmentIDs = s.environmentIDs := by
  have henvs : s'.environments = s.environments := congrArg (fun d => d.1) h
  unfold Tables.environmentIDs
  rw [henvs]

theorem groupIDs_of_definitions (h : s'.definitions = s.definitions) :
    s'.groupIDs = s.groupIDs := by
  have hgroups : s'.groups = s.groups := congrArg (fun d => d.2.1) h
  unfold Tables.groupIDs
  rw [hgroups]

theorem definitions_moveCells (applies : List Draft) (cells : List ResolvedCell) :
    ∀ s : Tables, (moveCells P env applies s cells).1.definitions = s.definitions := by
  induction cells with
  | nil => exact fun _ => rfl
  | cons cell cells ih =>
    intro s
    unfold moveCells
    split
    next => exact ih s
    next d _ =>
      split
      next => exact ih _
      next => exact ih _

variable {applies : List Draft}

/-- What a materialization that committed has done. -/
theorem materialize_eq_ok (h : materialize P s env applies = .ok s') :
    validateResolvedPublish P env (resolvedCells s env applies) = .ok () ∧
      s' = { (moveCells P env applies s (resolvedCells s env applies)).1 with
        revisions :=
          nextRevision (moveCells P env applies s (resolvedCells s env applies)).1 env
            (moveCells P env applies s (resolvedCells s env applies)).2 ::
          (moveCells P env applies s (resolvedCells s env applies)).1.revisions
        occurrences :=
          secretOccurrences (moveCells P env applies s (resolvedCells s env applies)).2 ++
          (moveCells P env applies s (resolvedCells s env applies)).1.occurrences } := by
  unfold materialize at h
  obtain ⟨u, hvalid, h⟩ := bind_ok h
  split at h
  next => cases h
  next => exact ⟨hvalid, (Except.ok.inj h).symm⟩

theorem definitions_materialize
    (h : materialize P s env applies = .ok s') : s'.definitions = s.definitions := by
  obtain ⟨-, rfl⟩ := materialize_eq_ok h
  exact definitions_moveCells applies _ s

theorem definitions_foldlM {γ : Type} {f : Tables → γ → Except ServiceError Tables} (l : List γ)
    (hf : ∀ s c s', f s c = .ok s' → s'.definitions = s.definitions)
    (h : l.foldlM f s = .ok s') : s'.definitions = s.definitions :=
  Tx.foldlM_invariant (fun t : Tables => t.definitions = s.definitions) l
    (fun t c _ t' ht hstep => (hf t c t' hstep).trans ht) rfl h

theorem definitions_fanOut (h : fanOut P s = .ok s') : s'.definitions = s.definitions :=
  definitions_foldlM _ (fun _ _ _ => definitions_materialize) h

/-- **What a fan-out has checked**: in every environment, some assignment of values to the
keys passes. -/
theorem validated_fanOut (h : fanOut P s = .ok s') {env : String} (henv : env ∈ s.environmentIDs) :
    ∃ cells : List ResolvedCell, cells.map ResolvedCell.key = s.keys.rows ∧
      validateResolvedPublish P env cells = .ok () := by
  -- along the loop, for the environments that are still to come
  have hloop : ∀ (envs : List String) (t : Tables), t.definitions = s.definitions →
      envs.foldlM (republish P) t = .ok s' → env ∈ envs →
      ∃ cells : List ResolvedCell, cells.map ResolvedCell.key = s.keys.rows ∧
        validateResolvedPublish P env cells = .ok () := by
    intro envs
    induction envs with
    | nil => exact nofun
    | cons e envs ih =>
      intro t ht hrun hmem
      rw [foldlM_cons] at hrun
      obtain ⟨t₁, hhead, hrun⟩ := bind_ok hrun
      rcases mem_cons.mp hmem with rfl | hmem
      · refine ⟨resolvedCells t env [], ?_, (materialize_eq_ok hhead).1⟩
        rw [← keys_of_definitions ht]
        unfold resolvedCells
        rw [map_map]
        refine (map_congr_left fun k _ => ?_).trans (map_id _)
        rfl
      · exact ih t₁ ((definitions_materialize hhead).trans ht) hrun hmem
  exact hloop s.environmentIDs s rfl h henv

theorem definitions_writeCell {cell : String × String} (h : writeCell P env s cell = .ok s') :
    s'.definitions = s.definitions := by
  unfold writeCell at h
  replace h := skip h
  cases h
  rfl

theorem definitions_deliver {cells : List (String × String)} (h : deliver P s env cells = .ok s') :
    s'.definitions = s.definitions := by
  unfold deliver at h
  replace h := skip h
  obtain ⟨s₁, hcells, h⟩ := bind_ok h
  exact (definitions_materialize h).trans
    (definitions_foldlM cells (fun _ _ _ => definitions_writeCell) hcells)

theorem definitions_restoreKeys (owner : String) (target : Revision) (keys : List Key) :
    ∀ s : Tables, (keys.foldl (restoreKey P env owner target) s).definitions = s.definitions := by
  induction keys with
  | nil => exact fun _ => rfl
  | cons k keys ih =>
    intro s
    rw [foldl_cons, ih]
    unfold restoreKey
    dsimp only
    split
    · rfl
    · rfl

/-! ## What the check of an environment says -/

variable {groupID : String}

section Validated

variable {cells : List ResolvedCell} {u : Unit} {a b : ResolvedCell}

/-- A required key is set. -/
theorem isSome_of_validated (h : validateResolvedPublish P env cells = .ok u) (ha : a ∈ cells)
    (hreq : a.key.rules.required.covers env = true) : a.value.isSome = true := by
  obtain ⟨_, hcells, -⟩ := bind_ok h
  have hcheck := (Tx.forM_eq_ok _).mp hcells a ha
  unfold checkCell at hcheck
  cases hv : a.value with
  | some v => rfl
  | none =>
    rw [hv] at hcheck
    exact absurd (ensured hcheck) (by rw [hreq]; decide)

/-- A forbidden key is absent. -/
theorem isNone_of_validated (h : validateResolvedPublish P env cells = .ok u) (hb : b ∈ cells)
    (hforb : b.key.rules.forbidden.covers env = true) : b.value.isSome = false := by
  obtain ⟨_, hcells, -⟩ := bind_ok h
  have hcheck := (Tx.forM_eq_ok _).mp hcells b hb
  unfold checkCell at hcheck
  cases hv : b.value with
  | none => rfl
  | some v =>
    rw [hv] at hcheck
    obtain ⟨hensure, -⟩ := checked hcheck
    exact absurd hensure (by rw [hforb]; decide)

theorem names_eq_nil {set : Bool} (h : Table.orderBy (fun name : String => name)
      (((membersOf cells groupID).filter fun cell => cell.value.isSome = set).map
        fun cell => cell.key.name) = []) {cell : ResolvedCell} (hcell : cell ∈ cells)
    (hgroup : cell.key.groupID = groupID) : cell.value.isSome ≠ set := by
  intro hset
  have hmember : cell ∈ (membersOf cells groupID).filter fun cell => cell.value.isSome = set :=
    mem_filter.mpr ⟨mem_filter.mpr ⟨hcell, decide_eq_true hgroup⟩, decide_eq_true hset⟩
  have hname : cell.key.name ∈ [] :=
    h ▸ Table.mem_orderBy.mpr (mem_map_of_mem hmember)
  cases hname

/-- The members of a group are set together or absent together. -/
theorem group_of_validated (h : validateResolvedPublish P env cells = .ok u) (ha : a ∈ cells)
    (hb : b ∈ cells) (hgroup : a.key.groupID ≠ "") (hsame : a.key.groupID = b.key.groupID) :
    a.value.isSome = b.value.isSome := by
  have hgroups := skip h
  have hlisted : a.key.groupID ∈ groupsOf cells :=
    mem_dedup.mpr (mem_filter.mpr ⟨mem_map_of_mem ha, by simpa using hgroup⟩)
  rcases ensured ((Tx.forM_eq_ok _).mp hgroups _ hlisted) with hnil | hnil
  · rw [Bool.eq_false_of_not_eq_true (names_eq_nil hnil ha rfl),
      Bool.eq_false_of_not_eq_true (names_eq_nil hnil hb hsame.symm)]
  · rw [Bool.eq_true_of_not_eq_false (names_eq_nil hnil ha rfl),
      Bool.eq_true_of_not_eq_false (names_eq_nil hnil hb hsame.symm)]

end Validated

/-! ## References, statement by statement -/

variable {envs : List String} {p : Presence}

variable {envs' : List String}

theorem Presence.Stored.mono (h : p.Stored envs)
    (hsub : ∀ env ∈ envs, env ∈ envs') : p.Stored envs' :=
  ⟨fun env henv => hsub env (h.exist env henv), h.nodup, h.explicit⟩

theorem Presence.Stored.without (h : p.Stored envs)
    (env : String) : (p.without env).Stored envs := by
  refine ⟨fun e he => h.exist e (mem_filter.mp he).1, h.nodup.filter _, fun hm => ?_⟩
  show p.environments.filter _ = []
  rw [h.explicit hm]
  rfl

theorem Presence.Stored.collapsed (h : p.Stored envs) : p.collapsed.Stored envs := by
  unfold Presence.collapsed
  split
  case isTrue hc => exact ⟨h.exist, h.nodup, fun _ => hc.2⟩
  case isFalse => exact h

theorem Presence.Shaped.stored (h : p.Shaped)
    (hexist : ∀ env ∈ p.environments, env ∈ envs) : p.Stored envs := by
  refine ⟨hexist, h.nodup, fun hm => ?_⟩
  by_contra hne
  exact hm (h.explicit.mpr hne)

variable {k : Key}

theorem Key.Stored.mono {groups groups' : List String}
    (h : k.Stored envs groups) (henvs : ∀ env ∈ envs, env ∈ envs')
    (hgroups : ∀ g ∈ groups, g ∈ groups') : k.Stored envs' groups' :=
  ⟨h.group.imp_right (hgroups _), h.required.mono henvs, h.forbidden.mono henvs⟩

/-- The references are a matter of the definitions. -/
theorem integrity_of_definitions (h : s'.definitions = s.definitions) (hs : s.Integrity) :
    s'.Integrity := by
  unfold Tables.Integrity
  rw [keys_of_definitions h, environmentIDs_of_definitions h, groupIDs_of_definitions h]
  exact hs

/-- Every key has the group and the rules of a key from before, and nothing it could refer
to is gone. -/
theorem integrity_of_keys (hs : s.Integrity)
    (henvs : ∀ env ∈ s.environmentIDs, env ∈ s'.environmentIDs)
    (hgroups : ∀ g ∈ s.groupIDs, g ∈ s'.groupIDs)
    (hkeys : ∀ k' ∈ s'.keys.rows, ∃ k ∈ s.keys.rows, k'.groupID = k.groupID ∧ k'.rules = k.rules) :
    s'.Integrity := by
  intro k' hk'
  obtain ⟨k, hk, hgroup, hrules⟩ := hkeys k' hk'
  have hstored := (hs k hk).mono henvs hgroups
  exact ⟨hgroup ▸ hstored.group, hrules ▸ hstored.required, hrules ▸ hstored.forbidden⟩

variable {id name : String}

theorem map_id_rename {c : Table.Columns Entity String String} {t t' : Table.Named c}
    (h : t.rename id name = some t') : t'.rows.map c.id = t.rows.map c.id := by
  rw [Table.Named.rename_eq_some h]
  exact Table.Named.map_id_renamed id name t.rows

variable {e : Entity}

theorem createEnvironment_eq_ok (h : s.createEnvironment e = .ok s') :
    ∃ environments, s' = { s with environments } ∧
      environments.rows = e :: s.environments.rows := by
  obtain ⟨environments, hinsert, h⟩ := bind_ok h
  exact ⟨environments, (Except.ok.inj h).symm,
    (Table.Named.insert_eq_some (Tables.stored_eq_ok.mp hinsert)).1⟩

theorem integrity_createEnvironment (h : s.createEnvironment e = .ok s')
    (hs : s.Integrity) : s'.Integrity := by
  obtain ⟨environments, rfl, hrows⟩ := createEnvironment_eq_ok h
  refine integrity_of_keys hs (fun env henv => ?_) (fun _ hg => hg) fun k hk => ⟨k, hk, rfl, rfl⟩
  show env ∈ environments.rows.map Entity.id
  rw [hrows]
  exact mem_cons_of_mem _ henv

theorem renameEnvironment_eq_ok (h : s.renameEnvironment id name = .ok s') :
    ∃ environments, s' = { s with environments } ∧
      environments.rows.map Entity.id = s.environmentIDs := by
  obtain ⟨environments, hrename, h⟩ := bind_ok h
  exact ⟨environments, (Except.ok.inj h).symm, map_id_rename (Tables.stored_eq_ok.mp hrename)⟩

theorem integrity_renameEnvironment (h : s.renameEnvironment id name = .ok s')
    (hs : s.Integrity) : s'.Integrity := by
  obtain ⟨environments, rfl, hids⟩ := renameEnvironment_eq_ok h
  refine integrity_of_keys hs (fun env henv => ?_) (fun _ hg => hg) fun k hk => ⟨k, hk, rfl, rfl⟩
  show env ∈ environments.rows.map Entity.id
  rw [hids]
  exact henv

variable {g : Entity}

theorem createGroup_eq_ok (h : s.createGroup g = .ok s') :
    ∃ groups, s' = { s with groups } ∧ groups.rows = g :: s.groups.rows := by
  obtain ⟨groups, hinsert, h⟩ := bind_ok h
  exact ⟨groups, (Except.ok.inj h).symm,
    (Table.Named.insert_eq_some (Tables.stored_eq_ok.mp hinsert)).1⟩

theorem integrity_createGroup (h : s.createGroup g = .ok s') (hs : s.Integrity) : s'.Integrity := by
  obtain ⟨groups, rfl, hrows⟩ := createGroup_eq_ok h
  refine integrity_of_keys hs (fun _ he => he) (fun g' hg' => ?_) fun k hk => ⟨k, hk, rfl, rfl⟩
  show g' ∈ groups.rows.map Entity.id
  rw [hrows]
  exact mem_cons_of_mem _ hg'

theorem renameGroup_eq_ok (h : s.renameGroup id name = .ok s') :
    ∃ groups, s' = { s with groups } ∧ groups.rows.map Entity.id = s.groupIDs := by
  obtain ⟨groups, hrename, h⟩ := bind_ok h
  exact ⟨groups, (Except.ok.inj h).symm, map_id_rename (Tables.stored_eq_ok.mp hrename)⟩

theorem integrity_renameGroup (h : s.renameGroup id name = .ok s')
    (hs : s.Integrity) : s'.Integrity := by
  obtain ⟨groups, rfl, hids⟩ := renameGroup_eq_ok h
  refine integrity_of_keys hs (fun _ he => he) (fun g' hg' => ?_) fun k hk => ⟨k, hk, rfl, rfl⟩
  show g' ∈ groups.rows.map Entity.id
  rw [hids]
  exact hg'

/-- A write to the keys that leaves each of them stored. -/
theorem integrity_updateKeys {p : Key → Bool} {f : Key → Key} (hid : ∀ k, (f k).id = k.id)
    (hname : ∀ k, (f k).name = k.name) (hs : s.Integrity)
    (hf : ∀ k ∈ s.keys.rows, k.Stored s.environmentIDs s.groupIDs →
      (f k).Stored s.environmentIDs s.groupIDs) :
    { s with keys := s.keys.update p f hid hname }.Integrity := by
  intro k' hk'
  rcases Table.mem_update.mp hk' with ⟨k, hk, -, rfl⟩ | ⟨hk, -⟩
  · exact hf k hk (hs k hk)
  · exact hs k' hk

theorem integrity_deletePresence (env : String) (hs : s.Integrity) :
    (s.deletePresenceForEnvironment env).Integrity :=
  integrity_updateKeys _ _ hs fun _ _ h =>
    ⟨h.group, h.required.without env, h.forbidden.without env⟩

theorem integrity_cascade (env : String) (hs : s.Integrity) :
    (s.cascadeEnvironmentPresence env).Integrity :=
  integrity_updateKeys _ _ hs fun _ _ h =>
    ⟨h.group, (h.required.without env).collapsed, (h.forbidden.without env).collapsed⟩

theorem deleteEnvironmentRow_eq_ok (h : s.deleteEnvironmentRow env = .ok s') :
    (∀ v ∈ s.values.rows, v.environmentID ≠ env) ∧
      (∀ k ∈ s.keys.rows, env ∉ k.rules.required.environments ∧
        env ∉ k.rules.forbidden.environments) ∧
      s' = { s with environments := s.environments.delete fun e => e.id = env } := by
  obtain ⟨u, hfree, h⟩ := bind_ok h
  obtain ⟨hvalues, hkeys⟩ := ensured hfree
  exact ⟨hvalues, hkeys, (Except.ok.inj h).symm⟩

theorem environmentIDs_delete (env : String) :
    (s.environments.delete fun e => e.id = env).rows.map Entity.id =
      s.environmentIDs.filter fun id => id ≠ env := by
  unfold Tables.environmentIDs
  rw [filter_map]
  show (s.environments.rows.filter _).map _ = _
  congr 1
  refine filter_congr fun e _ => ?_
  simp

theorem integrity_deleteEnvironmentRow (h : s.deleteEnvironmentRow env = .ok s')
    (hs : s.Integrity) : s'.Integrity := by
  obtain ⟨-, hfree, rfl⟩ := deleteEnvironmentRow_eq_ok h
  intro k hk
  obtain ⟨hgroup, hrequired, hforbidden⟩ := hs k hk
  -- what the rules still name is another environment
  have hkeep : ∀ p : Presence, p.Stored s.environmentIDs → env ∉ p.environments →
      p.Stored (s.environmentIDs.filter fun id => id ≠ env) := by
    intro p hp hnot
    refine ⟨fun e he => mem_filter.mpr ⟨hp.exist e he, decide_eq_true ?_⟩, hp.nodup, hp.explicit⟩
    rintro rfl
    exact hnot he
  have hrequired' := hkeep _ hrequired (hfree k hk).1
  have hforbidden' := hkeep _ hforbidden (hfree k hk).2
  rw [← environmentIDs_delete] at hrequired' hforbidden'
  exact ⟨hgroup, hrequired', hforbidden'⟩

theorem integrity_clearGroupMembers (id : String) (hs : s.Integrity) :
    (s.clearGroupMembers id).Integrity :=
  integrity_updateKeys _ _ hs fun _ _ h => ⟨.inl rfl, h.required, h.forbidden⟩

theorem deleteGroupRow_eq_ok (h : s.deleteGroupRow id = .ok s') :
    (∀ k ∈ s.keys.rows, k.groupID ≠ id) ∧
      s' = { s with groups := s.groups.delete fun g => g.id = id } := by
  obtain ⟨u, hfree, h⟩ := bind_ok h
  exact ⟨ensured hfree, (Except.ok.inj h).symm⟩

theorem integrity_deleteGroupRow (h : s.deleteGroupRow id = .ok s')
    (hs : s.Integrity) : s'.Integrity := by
  obtain ⟨hfree, rfl⟩ := deleteGroupRow_eq_ok h
  intro k hk
  obtain ⟨hgroup, hrequired, hforbidden⟩ := hs k hk
  refine ⟨hgroup.imp_right fun hmem => ?_, hrequired, hforbidden⟩
  obtain ⟨g, hg, hid⟩ := mem_map.mp hmem
  refine mem_map.mpr ⟨g, Table.Named.mem_delete.mpr ⟨hg, decide_eq_false ?_⟩, hid⟩
  rw [hid]
  exact hfree k hk

theorem createKey_eq_ok (h : s.createKey k = .ok s') : s.Refers k.groupID k.rules ∧
      ∃ keys, s' = { s with keys } ∧ keys.rows = k :: s.keys.rows := by
  unfold Tables.createKey at h
  obtain ⟨u, hrefers, h⟩ := bind_ok h
  obtain ⟨keys, hinsert, h⟩ := bind_ok h
  exact ⟨ensured hrefers, keys, (Except.ok.inj h).symm,
    (Table.Named.insert_eq_some (Tables.stored_eq_ok.mp hinsert)).1⟩

variable {u : Unit}

/-- A key whose references are there and whose rules are in shape is stored. -/
theorem Tables.Refers.stored (h : s.Refers k.groupID k.rules)
    (hrules : checkPresence k.rules = .ok u) : k.Stored s.environmentIDs s.groupIDs := by
  obtain ⟨hrequired, hforbidden, -⟩ := checkPresence_eq_ok.mp hrules
  exact ⟨h.1, hrequired.stored h.2.1, hforbidden.stored h.2.2⟩

theorem integrity_createKey (h : s.createKey k = .ok s')
    (hrules : checkPresence k.rules = .ok u) (hs : s.Integrity) : s'.Integrity := by
  obtain ⟨hrefers, keys, rfl, hrows⟩ := createKey_eq_ok h
  intro k' hk'
  rw [show ({ s with keys } : Tables).keys = keys from rfl, hrows] at hk'
  rcases mem_cons.mp hk' with rfl | hk'
  · exact hrefers.stored hrules
  · exact hs k' hk'

theorem renameKey_eq_ok (h : s.renameKey id name = .ok s') :
    ∃ keys, s' = { s with keys } ∧ keys.rows = Table.Named.renamed Key.columns id name s.keys.rows := by
  obtain ⟨keys, hrename, h⟩ := bind_ok h
  exact ⟨keys, (Except.ok.inj h).symm, Table.Named.rename_eq_some (Tables.stored_eq_ok.mp hrename)⟩

theorem integrity_renameKey (h : s.renameKey id name = .ok s')
    (hs : s.Integrity) : s'.Integrity := by
  obtain ⟨keys, rfl, hrows⟩ := renameKey_eq_ok h
  refine integrity_of_keys hs (fun _ he => he) (fun _ hg => hg) fun k' hk' => ?_
  rw [show ({ s with keys } : Tables).keys = keys from rfl, hrows] at hk'
  rcases Table.mem_update.mp hk' with ⟨k, hk, -, rfl⟩ | ⟨hk, -⟩
  · exact ⟨k, hk, rfl, rfl⟩
  · exact ⟨k', hk, rfl, rfl⟩

theorem deleteKeyRow_eq_ok (h : s.deleteKeyRow id = .ok s') : (∀ v ∈ s.values.rows, v.keyID ≠ id) ∧
      s' = { s with keys := s.keys.delete fun k => k.id = id } := by
  obtain ⟨u, hfree, h⟩ := bind_ok h
  exact ⟨(ensured hfree).1, (Except.ok.inj h).symm⟩

theorem integrity_deleteKeyRow (h : s.deleteKeyRow id = .ok s')
    (hs : s.Integrity) : s'.Integrity := by
  obtain ⟨-, rfl⟩ := deleteKeyRow_eq_ok h
  exact fun k hk => hs k (Table.Named.mem_delete.mp hk).1

variable {rules : PresenceRules}

variable {declaration : String}

theorem writeRules_eq_ok (h : s.writeRules id declaration rules = .ok s') :
    s.Refers "" rules ∧
      s' = s.writeKey id (fun k => { k with declaration, rules }) (fun _ => rfl) (fun _ => rfl) := by
  unfold Tables.writeRules at h
  obtain ⟨u, hrefers, h⟩ := bind_ok h
  exact ⟨ensured hrefers, (Except.ok.inj h).symm⟩

theorem integrity_writeRules (h : s.writeRules id declaration rules = .ok s')
    (hrules : checkPresence rules = .ok u) (hs : s.Integrity) : s'.Integrity := by
  obtain ⟨hrefers, rfl⟩ := writeRules_eq_ok h
  obtain ⟨hrequired, hforbidden, -⟩ := checkPresence_eq_ok.mp hrules
  exact integrity_updateKeys _ _ hs fun k _ hk =>
    ⟨hk.group, hrequired.stored hrefers.2.1, hforbidden.stored hrefers.2.2⟩

theorem setGroup_eq_ok (h : s.setGroup id groupID = .ok s') :
    (groupID = "" ∨ groupID ∈ s.groupIDs) ∧
      s' = s.writeKey id (fun k => { k with groupID }) (fun _ => rfl) (fun _ => rfl) := by
  unfold Tables.setGroup at h
  obtain ⟨u, hrefers, h⟩ := bind_ok h
  exact ⟨ensured hrefers, (Except.ok.inj h).symm⟩

theorem integrity_setGroup (h : s.setGroup id groupID = .ok s')
    (hs : s.Integrity) : s'.Integrity := by
  obtain ⟨hgroup, rfl⟩ := setGroup_eq_ok h
  exact integrity_updateKeys _ _ hs fun k _ hk => ⟨hgroup, hk.required, hk.forbidden⟩

theorem integrity_updateMetadata (id folderPath description : String) (deprecated : Bool)
    (deprecationNote : String) (hs : s.Integrity) :
    (s.updateMetadata id folderPath description deprecated deprecationNote).Integrity :=
  integrity_updateKeys _ _ hs fun _ _ hk => ⟨hk.group, hk.required, hk.forbidden⟩

theorem integrity_setClassification (id : String) (classification : Classification)
    (hs : s.Integrity) : (s.setClassification id classification).Integrity :=
  integrity_updateKeys _ _ hs fun _ _ hk => ⟨hk.group, hk.required, hk.forbidden⟩

/-! ## Through the execution of a resolution -/

/-- **What the statements of a resolution leave as it is**: those that delete, rename, regroup
and update. The environments that may be deleted are the ones in `gone`. -/
structure Survives (around : Surroundings) (gone : List Entity) (inv : Tables → Prop) : Prop where
  deleteKey {t t' : Tables} {id : String} : inv t →
    ((t.clearKey id).discardKey id).deleteKeyRow id = .ok t' → inv t'
  deleteGroup {t t' : Tables} {id : String} : inv t →
    (t.clearGroupMembers id).deleteGroupRow id = .ok t' → inv t'
  deleteEnvironment {t t' : Tables} {del : Entity} : del ∈ gone → inv t →
    executeEnvironmentDelete around t del = .ok t' → inv t'
  renameEnvironment {t t' : Tables} {id name : String} : inv t →
    t.renameEnvironment id name = .ok t' → inv t'
  renameGroup {t t' : Tables} {id name : String} : inv t → t.renameGroup id name = .ok t' → inv t'
  renameKey {t t' : Tables} {id name : String} : inv t → t.renameKey id name = .ok t' → inv t'
  createGroup {t t' : Tables} {g : Entity} : inv t → t.createGroup g = .ok t' → inv t'
  updateMetadata {t : Tables} {id folderPath description : String} {deprecated : Bool}
    {note : String} : inv t → inv (t.updateMetadata id folderPath description deprecated note)
  writeRules {t t' : Tables} {id declaration : String} {rules : PresenceRules} : inv t →
    checkPresence rules = .ok () → t.writeRules id declaration rules = .ok t' → inv t'
  setClassification {t : Tables} {id : String} {classification : Classification} : inv t →
    inv (t.setClassification id classification)
  setGroup {t t' : Tables} {id groupID : String} : inv t → t.setGroup id groupID = .ok t' → inv t'

variable {around : Surroundings} {m : Minter} {res : Resolution}

section Survives

variable {inv : Tables → Prop}

theorem Survives.executeDeletes (hi : Survives around res.envDeletes inv)
    (h : executeDeletes around s res = .ok s') (hs : inv s) : inv s' := by
  unfold Catalogue.executeDeletes at h
  obtain ⟨s₁, hkeys, h⟩ := bind_ok h
  obtain ⟨s₂, hgroups, h⟩ := bind_ok h
  have hs₁ : inv s₁ := by
    refine Tx.foldlM_invariant inv _ (fun t del _ t' ht hstep => ?_) hs hkeys
    unfold executeKeyDelete at hstep
    split at hstep
    next => cases hstep
    next =>
      replace hstep := skip hstep
      exact hi.deleteKey ht hstep
  have hs₂ := Tx.foldlM_invariant inv _ (fun _ _ _ _ => hi.deleteGroup) hs₁ hgroups
  exact Tx.foldlM_invariant inv _ (fun _ _ hdel _ => hi.deleteEnvironment hdel) hs₂ h

variable {gone : List Entity} (hi : Survives around gone inv)

include hi

theorem Survives.renames {envs groups keys : List (String × String)} {s₁ s₂ : Tables} (hs : inv s)
    (h₁ : envs.foldlM (fun s a => s.renameEnvironment a.1 a.2) s = .ok s₁)
    (h₂ : groups.foldlM (fun s a => s.renameGroup a.1 a.2) s₁ = .ok s₂)
    (h₃ : keys.foldlM (fun s a => s.renameKey a.1 a.2) s₂ = .ok s') : inv s' := by
  have hs₁ := Tx.foldlM_invariant inv _ (fun _ _ _ _ => hi.renameEnvironment) hs h₁
  have hs₂ := Tx.foldlM_invariant inv _ (fun _ _ _ _ => hi.renameGroup) hs₁ h₂
  exact Tx.foldlM_invariant inv _ (fun _ _ _ _ => hi.renameKey) hs₂ h₃

theorem Survives.parkRenames {cur : CurrentState} (h : parkRenames s cur res = .ok s')
    (hs : inv s) : inv s' := by
  obtain ⟨s₁, h₁, h⟩ := bind_ok h
  obtain ⟨s₂, h₂, h₃⟩ := bind_ok h
  exact hi.renames hs h₁ h₂ h₃

theorem Survives.finishRenames (h : finishRenames s res = .ok s') (hs : inv s) : inv s' := by
  obtain ⟨s₁, h₁, h⟩ := bind_ok h
  obtain ⟨s₂, h₂, h₃⟩ := bind_ok h
  exact hi.renames hs h₁ h₂ h₃

theorem Survives.executeKeyUpdate {envIDByName groupIDByName : List (String × String)}
    {u : KeyUpdate} (hs : inv s)
    (h : executeKeyUpdate around envIDByName groupIDByName s u = .ok s') : inv s' := by
  unfold Catalogue.executeKeyUpdate at h
  split at h
  next => cases h
  next =>
    obtain ⟨rules, -, h⟩ := bind_ok h
    obtain ⟨_, hrules, h⟩ := bind_ok h
    obtain ⟨s₁, hwrite, h⟩ := bind_ok h
    obtain ⟨s₂, hclass, h⟩ := bind_ok h
    have hmeta : inv (executeMetadata s u) := by
      unfold executeMetadata
      split
      · exact hi.updateMetadata hs
      · exact hs
    have hs₁ : inv s₁ := by
      unfold executeRules at hwrite
      split at hwrite
      · exact hi.writeRules hmeta hrules hwrite
      · exact Except.ok.inj hwrite ▸ hmeta
    have hs₂ : inv s₂ := by
      unfold executeReclassify at hclass
      split at hclass
      case isFalse => exact Except.ok.inj hclass ▸ hs₁
      case isTrue =>
        split at hclass
        next => cases hclass
        next =>
          replace hclass := skip (skip hclass)
          exact Except.ok.inj hclass ▸ hi.setClassification hs₁
    unfold executeSetGroup at h
    split at h
    · exact hi.setGroup hs₂ h
    · exact Except.ok.inj h ▸ hs₂

end Survives

theorem integrity_survives : Survives around gone Tables.Integrity where
  deleteKey hs h := integrity_deleteKeyRow h hs
  deleteGroup hs h := integrity_deleteGroupRow h (integrity_clearGroupMembers _ hs)
  deleteEnvironment _ hs h := by
    replace h := skip h
    exact integrity_deleteEnvironmentRow h (integrity_deletePresence _ hs)
  renameEnvironment hs h := integrity_renameEnvironment h hs
  renameGroup hs h := integrity_renameGroup h hs
  renameKey hs h := integrity_renameKey h hs
  createGroup hs h := integrity_createGroup h hs
  updateMetadata hs := integrity_updateMetadata _ _ _ _ _ hs
  writeRules hs hrules h := integrity_writeRules h hrules hs
  setClassification hs := integrity_setClassification _ _ hs
  setGroup hs h := integrity_setGroup h hs

theorem integrity_executeKeyCreate {envIDByName groupIDByName : List (String × String)}
    {k : BundleKey} (h : executeKeyCreate m envIDByName groupIDByName s k = .ok s')
    (hs : s.Integrity) : s'.Integrity := by
  unfold executeKeyCreate at h
  obtain ⟨rules, -, h⟩ := bind_ok h
  obtain ⟨_, hrules, h⟩ := bind_ok h
  obtain ⟨s₁, hcreate, h⟩ := bind_ok h
  cases h
  have hs₁ : s₁.Integrity := integrity_createKey hcreate hrules hs
  exact hs₁

/-- **A resolution that is carried out leaves the references good.** -/
theorem integrity_executeResolution (h : executeResolution m around s res = .ok s')
    (hs : s.Integrity) : s'.Integrity := by
  have hi : Survives around res.envDeletes Tables.Integrity := integrity_survives
  obtain ⟨s₁, hdeletes, h⟩ := bind_ok h
  obtain ⟨s₂, htopology, h⟩ := bind_ok h
  obtain ⟨s₃, hcreates, h⟩ := bind_ok h
  obtain ⟨t₁, hpark, htopology⟩ := bind_ok htopology
  obtain ⟨t₂, henvs, htopology⟩ := bind_ok htopology
  obtain ⟨t₃, hgroups, hfinish⟩ := bind_ok htopology
  obtain ⟨u₂, hcreate₂, ht₂⟩ := bind_ok henvs
  obtain ⟨u₃, hcreate₃, ht₃⟩ := bind_ok hgroups
  cases ht₂
  cases ht₃
  have hi₁ := hi.parkRenames hpark (hi.executeDeletes hdeletes hs)
  have hi₂ := Tx.foldlM_invariant Tables.Integrity _
    (fun _ _ _ _ hs h => integrity_createEnvironment h hs) hi₁ hcreate₂
  have hi₃ : u₃.Integrity := by
    refine Tx.foldlM_invariant Tables.Integrity _ (fun _ _ _ _ => hi.createGroup) ?_ hcreate₃
    exact hi₂
  have hs₃ := Tx.foldlM_invariant Tables.Integrity _
    (fun _ _ _ _ hs h => integrity_executeKeyCreate h hs) (hi.finishRenames hfinish hi₃) hcreates
  exact Tx.foldlM_invariant Tables.Integrity _ (fun _ _ _ _ => hi.executeKeyUpdate) hs₃ h

/-! ## What a transaction that commits has done

The definitions are written first, and what is materialized is materialized under them. -/

variable {admitted : Except ServiceError Unit}

theorem createKey_committed {spec : KeySpec} (h : createKey P admitted s spec = .ok s') :
    checkPresence spec.rules = .ok () ∧
      checkGroupMembership s spec.groupID (P.newID "key" s.minted) spec.rules = .ok () ∧
        ∃ t, s.createKey (spec.key (P.newID "key" s.minted)) = .ok t ∧
          fanOut P { t with minted := s.minted + 1 }.bumpSchemaRevision = .ok s' := by
  unfold createKey at h
  obtain ⟨_, hrules, h⟩ := bind_ok h
  replace h := skip h
  obtain ⟨_, hgroup, h⟩ := bind_ok h
  obtain ⟨t, hcreate, h⟩ := bind_ok h
  exact ⟨hrules, hgroup, t, hcreate, h⟩

theorem renameKey_committed (h : renameKey P around admitted s id name = .ok s') :
    ∃ t, s.renameKey id name = .ok t ∧ fanOut P t.bumpSchemaRevision = .ok s' := by
  unfold renameKey at h
  split at h
  next => cases h
  next =>
    replace h := skip (skip h)
    obtain ⟨t, hrename, h⟩ := bind_ok h
    exact ⟨t, hrename, h⟩

theorem updateMetadata_committed {folderPath description : String} {deprecated : Bool}
    {deprecationNote : String}
    (h : updateMetadata admitted s id folderPath description deprecated deprecationNote = .ok s') :
    s' = (s.updateMetadata id folderPath description deprecated
      deprecationNote).bumpSchemaRevision := by
  unfold updateMetadata at h
  split at h
  next => cases h
  next =>
    replace h := skip h
    exact (Except.ok.inj h).symm

theorem updateDeclaration_committed
    (h : updateDeclaration P admitted s id declaration rules = .ok s') :
    ∃ before, s.keys.find? id = some before ∧ checkPresence rules = .ok () ∧
      validateStaticMembership s before.groupID id rules = .ok () ∧
        (s' = s ∨ ∃ t, s.writeRules id declaration rules = .ok t ∧
          fanOut P t.bumpSchemaRevision = .ok s') := by
  unfold updateDeclaration at h
  split at h
  next => cases h
  next before hbefore =>
    replace h := skip h
    obtain ⟨_, hrules, h⟩ := bind_ok h
    obtain ⟨_, hstatic, h⟩ := bind_ok h
    refine ⟨before, hbefore, hrules, hstatic, ?_⟩
    split at h
    case isTrue => exact .inl (Except.ok.inj h).symm
    case isFalse =>
      obtain ⟨t, hwrite, h⟩ := bind_ok h
      exact .inr ⟨t, hwrite, h⟩

theorem reclassify_committed {classification : Classification}
    (h : reclassify P around admitted s id classification = .ok s') :
    fanOut P (s.setClassification id classification).bumpSchemaRevision = .ok s' := by
  unfold reclassify at h
  split at h
  next => cases h
  next =>
    replace h := skip (skip (skip h))
    exact h

theorem setGroup_committed (h : setGroup P admitted s id groupID = .ok s') :
    s' = s ∨ ∃ before t, s.keys.find? id = some before ∧
      checkGroupMembership s groupID id before.rules = .ok () ∧
        s.setGroup id groupID = .ok t ∧ fanOut P t.bumpSchemaRevision = .ok s' := by
  unfold setGroup at h
  split at h
  next => cases h
  next before hbefore =>
    split at h
    case isTrue => exact .inl (Except.ok.inj h).symm
    case isFalse =>
      replace h := skip h
      obtain ⟨_, hgroup, h⟩ := bind_ok h
      obtain ⟨t, hset, h⟩ := bind_ok h
      exact .inr ⟨before, t, hbefore, hgroup, hset, h⟩

theorem deleteKey_committed (h : deleteKey P admitted s id = .ok s') :
    ∃ t, (s.discardKey id).deleteKeyRow id = .ok t ∧ fanOut P t.bumpSchemaRevision = .ok s' := by
  unfold deleteKey at h
  split at h
  next => cases h
  next =>
    replace h := skip (skip h)
    obtain ⟨t, hdelete, h⟩ := bind_ok h
    exact ⟨t, hdelete, h⟩

theorem createGroup_committed (h : createGroup P admitted s name = .ok s') :
    ∃ t, s.createGroup ⟨P.newID "kgr" s.minted, name⟩ = .ok t ∧
      s' = { t with minted := s.minted + 1 }.bumpSchemaRevision := by
  unfold createGroup at h
  replace h := skip h
  obtain ⟨t, hcreate, h⟩ := bind_ok h
  exact ⟨t, hcreate, (Except.ok.inj h).symm⟩

theorem renameGroup_committed (h : renameGroup admitted s id name = .ok s') :
    ∃ t, s.renameGroup id name = .ok t ∧ s' = t.bumpSchemaRevision := by
  unfold renameGroup at h
  replace h := skip (skip h)
  obtain ⟨t, hrename, h⟩ := bind_ok h
  exact ⟨t, hrename, (Except.ok.inj h).symm⟩

theorem deleteGroup_committed (h : deleteGroup P admitted s id = .ok s') :
    ∃ t, (s.clearGroupMembers id).deleteGroupRow id = .ok t ∧
      fanOut P t.bumpSchemaRevision = .ok s' := by
  unfold deleteGroup at h
  replace h := skip (skip h)
  obtain ⟨t, hdelete, h⟩ := bind_ok h
  exact ⟨t, hdelete, h⟩

theorem createEnvironment_committed {cloned : List (String × String)}
    (h : createEnvironment P admitted s name cloned = .ok s') :
    ∃ t, s.createEnvironment ⟨P.newID "env" s.minted, name⟩ = .ok t ∧
      deliver P { t with minted := s.minted + 1 }.bumpSchemaRevision (P.newID "env" s.minted)
        cloned = .ok s' := by
  unfold createEnvironment at h
  replace h := skip h
  obtain ⟨t, hcreate, h⟩ := bind_ok h
  exact ⟨t, hcreate, h⟩

theorem renameEnvironment_committed (h : renameEnvironment admitted s id name = .ok s') :
    ∃ t, s.renameEnvironment id name = .ok t ∧ s' = t.bumpSchemaRevision := by
  unfold renameEnvironment at h
  replace h := skip (skip h)
  obtain ⟨t, hrename, h⟩ := bind_ok h
  exact ⟨t, hrename, (Except.ok.inj h).symm⟩

theorem deleteEnvironment_committed (h : deleteEnvironment around admitted s env = .ok s') :
    ∃ t, ((s.cascadeEnvironmentPresence env).clearEnvironment env).deleteEnvironmentRow env =
        .ok t ∧ s' = t.bumpSchemaRevision := by
  unfold deleteEnvironment at h
  replace h := skip (skip (skip h))
  obtain ⟨t, hdelete, h⟩ := bind_ok h
  exact ⟨t, hdelete, (Except.ok.inj h).symm⟩

theorem applyBundle_committed {allowDelete : Bool} {b : Bundle}
    (h : applyBundle P around admitted allowDelete s b = .ok s') :
    s' = s ∨ ∃ res t, resolve b s.current = .ok res ∧
      executeResolution P.toMinter around s res = .ok t ∧ fanOut P t.bumpSchemaRevision = .ok s' := by
  unfold applyBundle at h
  replace h := skip (skip h)
  obtain ⟨res, hres, h⟩ := bind_ok h
  split at h
  case isTrue => exact .inl (Except.ok.inj h).symm
  case isFalse =>
    replace h := skip (skip h)
    obtain ⟨t, hexecute, h⟩ := bind_ok h
    exact .inr ⟨res, t, hres, hexecute, h⟩

/-- The transactions over values leave the definitions alone. -/
theorem definitions_values {op : Op} {around : Surroundings} (hop : match op with
      | .stage .. | .discard .. | .restore .. | .publish .. | .writeValues ..
      | .collectPayload .. => True
      | _ => False)
    (h : transact P C s ⟨op, around, admitted⟩ = .ok s') : s'.definitions = s.definitions := by
  cases op with
  | stage env keyID owner value =>
    simp only [transact, stage] at h
    split at h
    next => cases h
    next =>
      replace h := skip (skip h)
      exact Except.ok.inj h ▸ rfl
  | discard versionID | collectPayload env number =>
    replace h := skip h
    exact Except.ok.inj h ▸ rfl
  | restore env owner number keyIDs =>
    simp only [transact, restore] at h
    split at h
    case h_2 => cases h
    case h_1 =>
      replace h := skip (skip h)
      split at h
      case isTrue => exact Except.ok.inj h ▸ rfl
      case isFalse => exact Except.ok.inj h ▸ definitions_restoreKeys _ _ _ s
  | publish versionIDs =>
    replace h := skip (skip (skip h))
    refine definitions_foldlM _ (fun t env t' hpublish => ?_) h
    replace hpublish := skip hpublish
    obtain ⟨t₁, hmaterialize, hpublish⟩ := bind_ok hpublish
    cases hpublish
    exact (definitions_materialize hmaterialize :)
  | writeValues writes =>
    replace h := skip (skip h)
    exact definitions_foldlM _ (fun _ _ _ => definitions_deliver) h
  | _ => exact hop.elim

/-- **Every transaction leaves the references good.** -/
theorem integrity_transact {call : Call} (h : transact P C s call = .ok s') (hs : s.Integrity) :
    s'.Integrity := by
  obtain ⟨op, around, admitted⟩ := call
  cases op with
  | createKey spec =>
    obtain ⟨hrules, -, t, hcreate, hfan⟩ := createKey_committed h
    have ht : t.Integrity := integrity_createKey hcreate hrules hs
    exact integrity_of_definitions (definitions_fanOut hfan :) ht
  | renameKey id name =>
    obtain ⟨t, hrename, hfan⟩ := renameKey_committed h
    have ht : t.Integrity := integrity_renameKey hrename hs
    exact integrity_of_definitions (definitions_fanOut hfan :) ht
  | updateMetadata id folderPath description deprecated deprecationNote =>
    obtain rfl := updateMetadata_committed h
    exact (integrity_updateMetadata _ _ _ _ _ hs :)
  | updateDeclaration id declaration rules =>
    obtain ⟨before, -, hrules, -, rfl | ⟨t, hwrite, hfan⟩⟩ := updateDeclaration_committed h
    · exact hs
    · have ht : t.Integrity := integrity_writeRules hwrite hrules hs
      exact integrity_of_definitions (definitions_fanOut hfan :) ht
  | reclassify id classification =>
    have ht := integrity_setClassification id classification hs
    exact integrity_of_definitions (definitions_fanOut (reclassify_committed h) :) ht
  | setGroup id groupID =>
    obtain rfl | ⟨before, t, -, -, hset, hfan⟩ := setGroup_committed h
    · exact hs
    · have ht : t.Integrity := integrity_setGroup hset hs
      exact integrity_of_definitions (definitions_fanOut hfan :) ht
  | deleteKey id =>
    obtain ⟨t, hdelete, hfan⟩ := deleteKey_committed h
    have ht : t.Integrity := integrity_deleteKeyRow hdelete hs
    exact integrity_of_definitions (definitions_fanOut hfan :) ht
  | createGroup name =>
    obtain ⟨t, hcreate, rfl⟩ := createGroup_committed h
    exact (integrity_createGroup hcreate hs :)
  | renameGroup id name =>
    obtain ⟨t, hrename, rfl⟩ := renameGroup_committed h
    exact (integrity_renameGroup hrename hs :)
  | deleteGroup id =>
    obtain ⟨t, hdelete, hfan⟩ := deleteGroup_committed h
    have ht : t.Integrity := integrity_deleteGroupRow hdelete (integrity_clearGroupMembers id hs)
    exact integrity_of_definitions (definitions_fanOut hfan :) ht
  | createEnvironment name cloned =>
    obtain ⟨t, hcreate, hdeliver⟩ := createEnvironment_committed h
    have ht : t.Integrity := integrity_createEnvironment hcreate hs
    exact integrity_of_definitions (definitions_deliver hdeliver :) ht
  | renameEnvironment id name =>
    obtain ⟨t, hrename, rfl⟩ := renameEnvironment_committed h
    exact (integrity_renameEnvironment hrename hs :)
  | deleteEnvironment env =>
    obtain ⟨t, hdelete, rfl⟩ := deleteEnvironment_committed h
    exact (integrity_deleteEnvironmentRow hdelete (integrity_cascade env hs) :)
  | applyBundle raw allowDelete =>
    obtain ⟨b, -, h⟩ := bind_ok h
    obtain rfl | ⟨res, t, -, hexecute, hfan⟩ := applyBundle_committed h
    · exact hs
    · have ht : t.Integrity := integrity_executeResolution hexecute hs
      exact integrity_of_definitions (definitions_fanOut hfan :) ht
  | stage | discard | restore | publish | writeValues | collectPayload =>
    exact integrity_of_definitions (definitions_values trivial h) hs

end Hikyo.Catalogue
