import Hikyo.Definitions.Matching
import Hikyo.Service.CatalogueIntegrity

/-!
# Key groups stay satisfiable

The members of a key group are set together or absent together. If one member is required
in an environment and another one forbidden there, no publication of that environment can
succeed any more, so the rules of the members of a group must never conflict – not in an
environment that exists, and not in one that may be created and falls under a rule that
covers all (`Tables.Satisfiable`).

The services that write one key at a time check this on the rules alone, before they write. A
bundle is applied without that check. What stands in for it is the materialization of every
environment after the write, which refuses a conflict whatever the values are
(`not_conflict_of_validated`), as long as there is an environment. In a project without one a
bundle with a conflict is committed, and from then on no environment can be created.

`AppliesWithEnvironment` is the condition on an apply under which the project has an
environment after it.
-/

namespace Hikyo.Catalogue

open List
open Tx (bind_ok skip)

variable {P : Platform} {C : BundleCodec} {s s' : Tables}

/-- **Every key group can be met**: no two of its members conflict in any environment,
existing or not. -/
def Tables.Satisfiable (s : Tables) : Prop :=
  ∀ a ∈ s.keys.rows, ∀ b ∈ s.keys.rows, a.id ≠ b.id → a.groupID ≠ "" → a.groupID = b.groupID →
    a.rules.Compatible b.rules

theorem satisfiable_of_definitions (h : s'.definitions = s.definitions) (hs : s.Satisfiable) :
    s'.Satisfiable := by
  unfold Tables.Satisfiable
  rw [keys_of_definitions h]
  exact hs

/-- A key that asks for less: it is in the same group or in none, and its rules cover no
more. -/
structure Key.AtMost (k' k : Key) : Prop where
  id : k'.id = k.id
  group : k'.groupID = k.groupID ∨ k'.groupID = ""
  required : ∀ env, k'.rules.required.covers env = true → k.rules.required.covers env = true
  forbidden : ∀ env, k'.rules.forbidden.covers env = true → k.rules.forbidden.covers env = true

theorem Key.AtMost.of_eq {k' k : Key} (hid : k'.id = k.id) (hgroup : k'.groupID = k.groupID)
    (hrules : k'.rules = k.rules) : k'.AtMost k :=
  ⟨hid, .inl hgroup, fun _ h => hrules ▸ h, fun _ h => hrules ▸ h⟩

/-- Keys that ask for less do not come into conflict. -/
theorem satisfiable_of_atMost (hs : s.Satisfiable)
    (hkeys : ∀ k' ∈ s'.keys.rows, ∃ k ∈ s.keys.rows, k'.AtMost k) : s'.Satisfiable := by
  intro a' ha' b' hb' hid hgroup hsame env
  obtain ⟨a, ha, hidA, hgroupA, hreqA, hforbA⟩ := hkeys a' ha'
  obtain ⟨b, hb, hidB, hgroupB, hreqB, hforbB⟩ := hkeys b' hb'
  have hgA : a'.groupID = a.groupID := hgroupA.resolve_right hgroup
  have hgB : b'.groupID = b.groupID := hgroupB.resolve_right (hsame ▸ hgroup)
  obtain ⟨hab, hba⟩ := hs a ha b hb (hidA ▸ hidB ▸ hid) (hgA ▸ hgroup)
    (hgA.symm.trans (hsame.trans hgB)) env
  exact ⟨fun h => hab ⟨hreqA env h.1, hforbB env h.2⟩, fun h => hba ⟨hreqB env h.1, hforbA env h.2⟩⟩

/-! ## The static check -/

variable {groupID : String} {u : Unit}

theorem compatible_of_static {selfID : String} {self : PresenceRules}
    (h : validateStaticMembership s groupID selfID self = .ok u) (hgroup : groupID ≠ "")
    {k : Key} (hk : k ∈ s.keys.rows) (hmember : k.groupID = groupID) (hid : k.id ≠ selfID) :
    self.Compatible k.rules := by
  unfold validateStaticMembership at h
  rw [if_neg hgroup] at h
  have hk' := (Tx.forM_eq_ok _).mp h k (mem_filter.mpr ⟨hk, decide_eq_true hmember⟩)
  rw [if_neg hid] at hk'
  cases hcheck : checkGroupPresence self k.rules with
  | ok u => exact compatible_of_checkGroupPresence hcheck
  | error e =>
    rw [hcheck] at hk'
    cases hk'

/-- **One key is written under the static check.** The others are as before, and the
written one is compatible with the members of its group. -/
theorem satisfiable_of_static (self : Key) (hs : s.Satisfiable)
    (hstatic : validateStaticMembership s self.groupID self.id self.rules = .ok u)
    (hkeys : ∀ k' ∈ s'.keys.rows, k'.id ≠ self.id → ∃ k ∈ s.keys.rows, k'.AtMost k)
    (hself : ∀ k' ∈ s'.keys.rows, k'.id = self.id →
      k'.groupID = self.groupID ∧ k'.rules = self.rules) : s'.Satisfiable := by
  -- the written key against another one
  have hone : ∀ a ∈ s'.keys.rows, ∀ b ∈ s'.keys.rows, a.id = self.id → b.id ≠ self.id →
      a.groupID ≠ "" → a.groupID = b.groupID → a.rules.Compatible b.rules := by
    intro a ha b hb hida hidb hgroup hsame env
    obtain ⟨hga, hra⟩ := hself a ha hida
    obtain ⟨k, hk, hid, hgk, hreq, hforb⟩ := hkeys b hb hidb
    have hmember : k.groupID = self.groupID :=
      (hgk.resolve_right (hsame ▸ hgroup)).symm.trans (hsame.symm.trans hga)
    obtain ⟨hab, hba⟩ := compatible_of_static hstatic (hga ▸ hgroup) hk hmember (hid ▸ hidb) env
    rw [hra]
    exact ⟨fun h => hab ⟨h.1, hforb env h.2⟩, fun h => hba ⟨hreq env h.1, h.2⟩⟩
  intro a ha b hb hid hgroup hsame
  by_cases hida : a.id = self.id
  · exact hone a ha b hb hida (fun hidb => hid (hida.trans hidb.symm)) hgroup hsame
  · by_cases hidb : b.id = self.id
    · exact (hone b hb a ha hidb hida (hsame ▸ hgroup) hsame.symm).symm
    · obtain ⟨ka, hka, hidA, hgA, hreqA, hforbA⟩ := hkeys a ha hida
      obtain ⟨kb, hkb, hidB, hgB, hreqB, hforbB⟩ := hkeys b hb hidb
      intro env
      obtain ⟨hab, hba⟩ := hs ka hka kb hkb (hidA ▸ hidB ▸ hid)
        (hgA.resolve_right hgroup ▸ hgroup) ((hgA.resolve_right hgroup).symm.trans
          (hsame.trans (hgB.resolve_right (hsame ▸ hgroup)))) env
      exact ⟨fun h => hab ⟨hreqA env h.1, hforbB env h.2⟩,
        fun h => hba ⟨hreqB env h.1, hforbA env h.2⟩⟩

/-! ## The check of a materialized environment -/

/-- **Where an assignment of values passes, no group has a conflict.** A required member is
set and a forbidden one absent, and the group is not partial. -/
theorem not_conflict_of_validated {env : String} {cells : List ResolvedCell}
    (h : validateResolvedPublish P env cells = .ok u) {a b : ResolvedCell} (ha : a ∈ cells)
    (hb : b ∈ cells) (hgroup : a.key.groupID ≠ "") (hsame : a.key.groupID = b.key.groupID) :
    ¬ (a.key.rules.required.covers env = true ∧ b.key.rules.forbidden.covers env = true) := by
  rintro ⟨hreq, hforb⟩
  have hset : a.value.isSome = b.value.isSome := group_of_validated h ha hb hgroup hsame
  rw [isSome_of_validated h ha hreq, isNone_of_validated h hb hforb] at hset
  cases hset

/-- **What is checked in every environment is satisfiable**, if there is one: a conflict in
an environment that does not exist is one between rules that cover all. -/
theorem satisfiable_of_validated (hs : s.Integrity) (hne : s.environmentIDs ≠ [])
    (hvalid : ∀ env ∈ s.environmentIDs, ∃ cells : List ResolvedCell,
      cells.map ResolvedCell.key = s.keys.rows ∧ validateResolvedPublish P env cells = .ok ()) :
    s.Satisfiable := by
  -- in the environments that exist
  have hexist : ∀ a ∈ s.keys.rows, ∀ b ∈ s.keys.rows, a.groupID ≠ "" → a.groupID = b.groupID →
      ∀ env ∈ s.environmentIDs,
        ¬ (a.rules.required.covers env = true ∧ b.rules.forbidden.covers env = true) := by
    intro a ha b hb hgroup hsame env henv
    obtain ⟨cells, hkeys, hcheck⟩ := hvalid env henv
    rw [← hkeys] at ha hb
    obtain ⟨ca, hca, rfl⟩ := mem_map.mp ha
    obtain ⟨cb, hcb, rfl⟩ := mem_map.mp hb
    exact not_conflict_of_validated hcheck hca hcb hgroup hsame
  -- and so in all of them
  have hany : ∀ a ∈ s.keys.rows, ∀ b ∈ s.keys.rows, a.groupID ≠ "" → a.groupID = b.groupID →
      ∀ env, ¬ (a.rules.required.covers env = true ∧ b.rules.forbidden.covers env = true) := by
    rintro a ha b hb hgroup hsame env ⟨hreq, hforb⟩
    have hnot := hexist a ha b hb hgroup hsame
    have hlisted : ∀ p : Presence, p.Stored s.environmentIDs → p.covers env = true →
        p.mode = .all ∨ env ∈ s.environmentIDs := by
      intro p hp hcovers
      unfold Presence.covers at hcovers
      cases hm : p.mode with
      | none =>
        rw [hm] at hcovers
        cases hcovers
      | all => exact .inl rfl
      | explicit =>
        rw [hm] at hcovers
        exact .inr (hp.exist env (contains_iff_mem.mp hcovers))
    rcases hlisted _ (hs a ha).required hreq with halla | henv
    · rcases hlisted _ (hs b hb).forbidden hforb with hallb | henv
      · obtain ⟨e, he⟩ := exists_mem_of_ne_nil _ hne
        refine hnot e he ⟨?_, ?_⟩
        · unfold Presence.covers
          rw [halla]
        · unfold Presence.covers
          rw [hallb]
      · exact hnot env henv ⟨hreq, hforb⟩
    · exact hnot env henv ⟨hreq, hforb⟩
  intro a ha b hb _ hgroup hsame env
  exact ⟨hany a ha b hb hgroup hsame env, hany b hb a ha (hsame ▸ hgroup) hsame.symm env⟩

/-! ## The environments after an apply -/

variable {id : String}

variable {around : Surroundings} {res : Resolution}

/-- An environment stays, unless it is one that is deleted. -/
theorem environment_survives {gone : List Entity} (hdel : id ∉ gone.map Entity.id) :
    Survives around gone fun t => id ∈ t.environmentIDs where
  deleteKey ht h := (deleteKeyRow_eq_ok h).2 ▸ ht
  deleteGroup ht h := (deleteGroupRow_eq_ok h).2 ▸ ht
  deleteEnvironment hmem ht h := by
    replace h := skip h
    obtain ⟨-, -, rfl⟩ := deleteEnvironmentRow_eq_ok h
    unfold Tables.environmentIDs
    rw [environmentIDs_delete]
    refine mem_filter.mpr ⟨ht, decide_eq_true ?_⟩
    rintro rfl
    exact hdel (mem_map_of_mem hmem)
  renameEnvironment ht h := by
    obtain ⟨environments, rfl, hids⟩ := renameEnvironment_eq_ok h
    exact (congrArg (id ∈ ·) hids).mpr ht
  renameGroup ht h := by
    obtain ⟨groups, rfl, -⟩ := renameGroup_eq_ok h
    exact ht
  renameKey ht h := by
    obtain ⟨keys, rfl, -⟩ := renameKey_eq_ok h
    exact ht
  createGroup ht h := by
    obtain ⟨groups, rfl, -⟩ := createGroup_eq_ok h
    exact ht
  updateMetadata ht := ht
  writeRules ht _ h := (writeRules_eq_ok h).2 ▸ ht
  setClassification ht := ht
  setGroup ht h := (setGroup_eq_ok h).2 ▸ ht

variable {m : Minter}

theorem mem_environmentIDs_executeKeyCreate {envIDs groupIDs : List (String × String)}
    {k : BundleKey} (hid : id ∈ s.environmentIDs)
    (h : executeKeyCreate m envIDs groupIDs s k = .ok s') : id ∈ s'.environmentIDs := by
  unfold executeKeyCreate at h
  obtain ⟨rules, -, h⟩ := bind_ok h
  replace h := skip h
  obtain ⟨s₁, hcreate, h⟩ := bind_ok h
  obtain ⟨-, keys, rfl, -⟩ := createKey_eq_ok hcreate
  exact Except.ok.inj h ▸ hid

/-- What is created is there after the creations, and what was there stays. -/
theorem mem_environmentIDs_creates :
    ∀ (es : List Entity) {s : Tables}, es.foldlM Tables.createEnvironment s = .ok s' →
      (id ∈ s.environmentIDs ∨ id ∈ es.map Entity.id) → id ∈ s'.environmentIDs
  | [], s, h, hid => by
    cases h
    exact hid.resolve_right not_mem_nil
  | e :: es, s, h, hid => by
    rw [foldlM_cons] at h
    obtain ⟨s₁, hcreate, h⟩ := bind_ok h
    obtain ⟨environments, rfl, hrows⟩ := createEnvironment_eq_ok hcreate
    refine mem_environmentIDs_creates es h ?_
    rw [map_cons, mem_cons] at hid
    have hids : ({ s with environments } : Tables).environmentIDs = e.id :: s.environmentIDs := by
      show environments.rows.map Entity.id = _
      rw [hrows]
      rfl
    rw [hids, mem_cons]
    rcases hid with hid | hid | hid
    · exact .inl (.inr hid)
    · exact .inl (.inl hid)
    · exact .inr hid

/-- **An execution leaves an environment**, if it deletes not all of them or creates one. -/
theorem environmentIDs_ne_nil (h : executeResolution m around s res = .ok s')
    (hne : (∃ id ∈ s.environmentIDs, id ∉ res.envDeletes.map Entity.id) ∨ res.envCreates ≠ []) :
    s'.environmentIDs ≠ [] := by
  obtain ⟨s₁, hdeletes, h⟩ := bind_ok h
  obtain ⟨s₂, htopology, h⟩ := bind_ok h
  obtain ⟨s₃, hcreates, h⟩ := bind_ok h
  obtain ⟨t₁, hpark, htopology⟩ := bind_ok htopology
  obtain ⟨t₂, henvs, htopology⟩ := bind_ok htopology
  obtain ⟨t₃, hgroups, hfinish⟩ := bind_ok htopology
  obtain ⟨r₂, hcreate₂, ht₂⟩ := bind_ok henvs
  obtain ⟨r₃, hcreate₃, ht₃⟩ := bind_ok hgroups
  have hstart : ∃ id, id ∈ t₁.environmentIDs ∨
      id ∈ (mintEntities m "env" t₁.minted res.envCreates).map Entity.id := by
    rcases hne with ⟨id, hin, hdel⟩ | hcreate
    · have hkept : Survives around _ _ := environment_survives hdel
      exact ⟨id, .inl (hkept.parkRenames hpark (hkept.executeDeletes hdeletes hin))⟩
    · obtain ⟨name, names, hnames⟩ := exists_cons_of_ne_nil hcreate
      rw [hnames]
      exact ⟨m.newID "env" t₁.minted, .inr mem_cons_self⟩
  obtain ⟨id, hid⟩ := hstart
  cases ht₂
  cases ht₃
  -- nothing is deleted from here on
  have hkept : Survives around [] fun t => id ∈ t.environmentIDs :=
    environment_survives not_mem_nil
  have hid₂ : id ∈ r₂.environmentIDs := mem_environmentIDs_creates _ hcreate₂ hid
  have hid₃ : id ∈ r₃.environmentIDs := by
    refine Tx.foldlM_invariant (fun t => id ∈ t.environmentIDs) _
      (fun _ _ _ _ => hkept.createGroup) ?_ hcreate₃
    exact hid₂
  have hid₄ := Tx.foldlM_invariant (fun t => id ∈ t.environmentIDs) _
    (fun _ _ _ _ => mem_environmentIDs_executeKeyCreate) (hkept.finishRenames hfinish hid₃) hcreates
  exact ne_nil_of_mem (Tx.foldlM_invariant (fun t => id ∈ t.environmentIDs) _
    (fun _ _ _ _ => hkept.executeKeyUpdate) hid₄ h)

/-- **The condition on an apply**: the bundle names an environment, or it is additive and
the project has one. -/
def AppliesWithEnvironment (s : Tables) (call : Call) : Prop :=
  match call.op with
  | .applyBundle raw _ =>
    raw.environments ≠ [] ∨ (raw.baseRevision = none ∧ s.environmentIDs ≠ [])
  | _ => True

theorem canonicalize_eq_ok {raw b : Bundle} (h : canonicalize C raw = .ok b) :
    b.baseRevision = raw.baseRevision ∧
      b.environments = Table.orderBy Entity.name raw.environments := by
  unfold canonicalize at h
  replace h := skip h
  obtain ⟨keys, -, h⟩ := bind_ok h
  replace h := skip h
  cases h
  exact ⟨rfl, rfl⟩

/-- Under the condition, the resolution leaves an environment. -/
theorem resolution_leaves_environment {raw b : Bundle}
    (hraw : raw.environments ≠ [] ∨ (raw.baseRevision = none ∧ s.environmentIDs ≠ []))
    (hb : canonicalize C raw = .ok b) (hres : resolve b s.current = .ok res) :
    (∃ id ∈ s.environmentIDs, id ∉ res.envDeletes.map Entity.id) ∨ res.envCreates ≠ [] := by
  obtain ⟨hbase, henvs⟩ := canonicalize_eq_ok hb
  obtain ⟨envMatch, _, _, _, hmatch, -, -, -, rfl⟩ := resolve_eq_ok hres
  rcases hraw with hraw | ⟨hadditive, hids⟩
  · -- the first entry of the bundle is bound or created
    have hne : b.environments ≠ [] := by
      rw [henvs]
      exact fun hnil => hraw (List.Perm.nil_eq (hnil ▸ Table.perm_orderBy _ _)).symm
    obtain ⟨boundBy, -, hbound, -⟩ := matchEntities_eq_ok hmatch
    obtain ⟨e, es, hes⟩ := exists_cons_of_ne_nil hne
    have hlength : envMatch.boundDBID.length = b.environments.length := by
      rw [hbound]
      exact (bound_bindNames _ b.environments boundBy).length
    obtain ⟨d, ds, hds⟩ : ∃ d ds, envMatch.boundDBID = d :: ds := by
      refine exists_cons_of_ne_nil fun hnil => ?_
      rw [hnil, hes] at hlength
      exact absurd hlength (by simp)
    have hp : (e, d) ∈ b.environments.zip envMatch.boundDBID := by
      rw [hes, hds]
      exact mem_cons_self
    by_cases hd : d = ""
    · refine .inr (ne_nil_of_mem (a := e.name) ?_)
      exact mem_map.mpr ⟨(e, d), mem_filter.mpr ⟨hp, by simpa using hd⟩, rfl⟩
    · obtain ⟨hin, hkept⟩ := kept_of_matchEntities hmatch hp hd
      exact .inl ⟨d, hin, fun hdel => hkept (mem_refsFor.mp hdel)⟩
  · obtain ⟨id, hid⟩ := exists_mem_of_ne_nil _ hids
    refine .inl ⟨id, hid, fun hdel => ?_⟩
    obtain ⟨_, -, -, hdeletes⟩ := matchEntities_eq_ok hmatch
    have hnone : b.additive = true := by
      unfold Bundle.additive
      rw [hbase, hadditive]
      rfl
    rw [hnone, if_pos rfl] at hdeletes
    have hmem := mem_refsFor.mp hdel
    rw [hdeletes] at hmem
    cases hmem

/-! ## Every transaction -/

theorem atMost_self : ∀ k ∈ s.keys.rows, ∃ k₀ ∈ s.keys.rows, k.AtMost k₀ :=
  fun k hk => ⟨k, hk, .of_eq rfl rfl rfl⟩

variable {f : Key → Key}

theorem atMost_of_mem_update {p : Key → Bool} {k' : Key} (hk' : k' ∈ Table.update p f s.keys.rows)
    (hf : ∀ k, (f k).AtMost k) : ∃ k ∈ s.keys.rows, k'.AtMost k := by
  rcases Table.mem_update.mp hk' with ⟨k, hk, -, rfl⟩ | ⟨hk, -⟩
  · exact ⟨k, hk, hf k⟩
  · exact atMost_self k' hk

variable {hid : ∀ k, (f k).id = k.id} {hname : ∀ k, (f k).name = k.name}

/-- Keys after a write to the one with the identity `id`. -/
theorem writeKey_others :
    ∀ k' ∈ (s.writeKey id f hid hname).keys.rows, k'.id ≠ id → ∃ k ∈ s.keys.rows, k'.AtMost k := by
  intro k' hk' hne
  rcases Table.mem_update.mp hk' with ⟨k, -, hp, rfl⟩ | ⟨hk, -⟩
  · exact absurd ((hid k).trans (of_decide_eq_true hp)) hne
  · exact ⟨k', hk, .of_eq rfl rfl rfl⟩

theorem writeKey_self :
    ∀ k' ∈ (s.writeKey id f hid hname).keys.rows, k'.id = id →
      ∃ k ∈ s.keys.rows, k.id = id ∧ k' = f k := by
  intro k' hk' heq
  rcases Table.mem_update.mp hk' with ⟨k, hk, hp, rfl⟩ | ⟨-, hp⟩
  · exact ⟨k, hk, of_decide_eq_true hp, rfl⟩
  · exact absurd heq (of_decide_eq_false hp)

/-- A write to one key that passes the check of its group. -/
theorem satisfiable_writeKey {before : Key} (hs : s.Satisfiable)
    (hbefore : s.keys.find? id = some before)
    (hstatic : validateStaticMembership s (f before).groupID id (f before).rules = .ok ()) :
    (s.writeKey id f hid hname).Satisfiable := by
  obtain ⟨hmem, hkey⟩ := Table.Named.find?_eq_some hbefore
  refine satisfiable_of_static { f before with id := id } hs hstatic writeKey_others ?_
  intro k' hk' heq
  obtain ⟨k, hk, hkid, rfl⟩ := writeKey_self k' hk' heq
  rw [Table.Named.eq_of_id (c := Key.columns) hk hmem (hkid.trans hkey.symm)]
  exact ⟨rfl, rfl⟩

variable {admitted : Except ServiceError Unit}

theorem satisfiable_createKey {spec : KeySpec}
    (h : createKey P admitted s spec = .ok s') (hs : s.Satisfiable) : s'.Satisfiable := by
  obtain ⟨-, hgroup, t, hcreate, hfan⟩ := createKey_committed h
  have hdef : s'.definitions = t.definitions := (definitions_fanOut hfan :)
  have hstatic := skip hgroup
  obtain ⟨-, keys, rfl, hrows⟩ := createKey_eq_ok hcreate
  refine satisfiable_of_definitions hdef
    (satisfiable_of_static (spec.key (P.newID "key" s.minted)) hs hstatic ?_ ?_)
  · intro k' hk' hne
    rw [show ({ s with keys } : Tables).keys = keys from rfl, hrows] at hk'
    rcases mem_cons.mp hk' with rfl | hk'
    · exact absurd rfl hne
    · exact atMost_self k' hk'
  · intro k' hk' heq
    have hnew : spec.key (P.newID "key" s.minted) ∈ keys.rows := by
      rw [hrows]
      exact mem_cons_self
    rw [Table.Named.eq_of_id (c := Key.columns) hk' hnew heq]
    exact ⟨rfl, rfl⟩

theorem satisfiable_updateDeclaration {declaration : String} {rules : PresenceRules}
    (h : updateDeclaration P admitted s id declaration rules = .ok s') (hs : s.Satisfiable) :
    s'.Satisfiable := by
  obtain ⟨before, hbefore, -, hstatic, rfl | ⟨t, hwrite, hfan⟩⟩ := updateDeclaration_committed h
  · exact hs
  · have hdef : s'.definitions = t.definitions := (definitions_fanOut hfan :)
    obtain ⟨-, rfl⟩ := writeRules_eq_ok hwrite
    exact satisfiable_of_definitions hdef (satisfiable_writeKey hs hbefore hstatic)

theorem satisfiable_setGroup
    (h : setGroup P admitted s id groupID = .ok s') (hs : s.Satisfiable) : s'.Satisfiable := by
  obtain rfl | ⟨before, t, hbefore, hgroup, hset, hfan⟩ := setGroup_committed h
  · exact hs
  · have hdef : s'.definitions = t.definitions := (definitions_fanOut hfan :)
    have hstatic := skip hgroup
    obtain ⟨-, rfl⟩ := setGroup_eq_ok hset
    exact satisfiable_of_definitions hdef (satisfiable_writeKey hs hbefore hstatic)

theorem satisfiable_applyBundle {allowDelete : Bool} {raw b : Bundle} (hi : s.Integrity)
    (hraw : raw.environments ≠ [] ∨ (raw.baseRevision = none ∧ s.environmentIDs ≠ []))
    (hb : canonicalize C raw = .ok b) (h : applyBundle P around admitted allowDelete s b = .ok s')
    (hs : s.Satisfiable) : s'.Satisfiable := by
  obtain rfl | ⟨res, t, hres, hexecute, hfan⟩ := applyBundle_committed h
  · exact hs
  · have ht : t.Integrity := integrity_executeResolution hexecute hi
    have hne := environmentIDs_ne_nil hexecute (resolution_leaves_environment hraw hb hres)
    exact satisfiable_of_definitions (definitions_fanOut hfan :)
      (satisfiable_of_validated (s := t) ht hne fun env henv => validated_fanOut hfan henv)

/-- **Every transaction leaves the key groups satisfiable**, an apply under its
condition. -/
theorem satisfiable_transact {call : Call} (hok : AppliesWithEnvironment s call)
    (h : transact P C s call = .ok s') (hi : s.Integrity) (hs : s.Satisfiable) : s'.Satisfiable := by
  obtain ⟨op, around, admitted⟩ := call
  cases op with
  | createKey spec => exact satisfiable_createKey h hs
  | renameKey id name =>
    obtain ⟨t, hrename, hfan⟩ := renameKey_committed h
    have hdef : s'.definitions = t.definitions := (definitions_fanOut hfan :)
    obtain ⟨keys, rfl, hrows⟩ := renameKey_eq_ok hrename
    refine satisfiable_of_definitions hdef (satisfiable_of_atMost hs fun k' hk' => ?_)
    rw [show ({ s with keys } : Tables).keys = keys from rfl, hrows] at hk'
    exact atMost_of_mem_update hk' fun _ => .of_eq rfl rfl rfl
  | updateMetadata id folderPath description deprecated deprecationNote =>
    obtain rfl := updateMetadata_committed h
    exact satisfiable_of_atMost hs
      fun _ hk' => atMost_of_mem_update hk' fun _ => .of_eq rfl rfl rfl
  | updateDeclaration id declaration rules => exact satisfiable_updateDeclaration h hs
  | reclassify id classification =>
    exact satisfiable_of_definitions (definitions_fanOut (reclassify_committed h))
      (satisfiable_of_atMost hs fun _ hk' => atMost_of_mem_update hk' fun _ => .of_eq rfl rfl rfl)
  | setGroup id groupID => exact satisfiable_setGroup h hs
  | deleteKey id =>
    obtain ⟨t, hdelete, hfan⟩ := deleteKey_committed h
    have hdef : s'.definitions = t.definitions := (definitions_fanOut hfan :)
    obtain ⟨-, rfl⟩ := deleteKeyRow_eq_ok hdelete
    exact satisfiable_of_definitions hdef (satisfiable_of_atMost hs
      fun k hk => atMost_self k (Table.Named.mem_delete.mp hk).1)
  | createGroup name =>
    obtain ⟨t, hcreate, rfl⟩ := createGroup_committed h
    obtain ⟨groups, rfl, -⟩ := createGroup_eq_ok hcreate
    exact hs
  | renameGroup id name =>
    obtain ⟨t, hrename, rfl⟩ := renameGroup_committed h
    obtain ⟨groups, rfl, -⟩ := renameGroup_eq_ok hrename
    exact hs
  | deleteGroup id =>
    obtain ⟨t, hdelete, hfan⟩ := deleteGroup_committed h
    have hdef : s'.definitions = t.definitions := (definitions_fanOut hfan :)
    obtain ⟨-, rfl⟩ := deleteGroupRow_eq_ok hdelete
    exact satisfiable_of_definitions hdef (satisfiable_of_atMost hs fun _ hk' =>
      atMost_of_mem_update hk' fun _ => ⟨rfl, .inr rfl, fun _ h => h, fun _ h => h⟩)
  | createEnvironment name cloned =>
    obtain ⟨t, hcreate, hdeliver⟩ := createEnvironment_committed h
    have hdef : s'.definitions = t.definitions := (definitions_deliver hdeliver :)
    obtain ⟨environments, rfl, -⟩ := createEnvironment_eq_ok hcreate
    exact satisfiable_of_definitions hdef hs
  | renameEnvironment id name =>
    obtain ⟨t, hrename, rfl⟩ := renameEnvironment_committed h
    obtain ⟨environments, rfl, -⟩ := renameEnvironment_eq_ok hrename
    exact hs
  | deleteEnvironment env =>
    obtain ⟨t, hdelete, rfl⟩ := deleteEnvironment_committed h
    obtain ⟨-, -, rfl⟩ := deleteEnvironmentRow_eq_ok hdelete
    refine satisfiable_of_atMost hs fun _ hk' =>
      atMost_of_mem_update hk' fun _ => ⟨rfl, .inl rfl, fun e he => ?_, fun e he => ?_⟩
    all_goals exact covers_of_covers_without ((covers_collapsed _ e).symm.trans he)
  | applyBundle raw allowDelete =>
    obtain ⟨b, hb, h⟩ := bind_ok h
    exact satisfiable_applyBundle hi hok hb h hs
  | stage | discard | restore | publish | writeValues | collectPayload =>
    exact satisfiable_of_definitions (definitions_values trivial h) hs

/-! ## Every run -/

/-- **Key groups stay satisfiable.** In every run in which each apply leaves the project an
environment, no two members of a key group ever conflict. -/
theorem groups_stay_satisfiable (P : Platform) (C : BundleCodec) (calls : List Call)
    (hok : Tx.Along (step P C) AppliesWithEnvironment Tables.empty calls) :
    (Tx.exec (step P C) Tables.empty calls).Satisfiable := by
  have hboth : (Tx.exec (step P C) Tables.empty calls).Integrity ∧
      (Tx.exec (step P C) Tables.empty calls).Satisfiable := by
    refine Tx.exec_invariant_along (AppliesWithEnvironment)
      (fun s : Tables => s.Integrity ∧ s.Satisfiable) ?_ calls Tables.empty hok
      ⟨nofun, nofun⟩
    rintro s call hcall ⟨hi, hs⟩
    exact Tx.commit_invariant (fun s : Tables => s.Integrity ∧ s.Satisfiable) ⟨hi, hs⟩
      fun s' h => ⟨integrity_transact h hi, satisfiable_transact hcall h hi hs⟩
  exact hboth.2

/-- A bundle with two members of one group, the first under a rule that requires it and
the second forbidden everywhere. -/
def groupBundle (environments : List Entity) (required : PresenceMode) : Bundle where
  formatVersion := 1
  baseRevision := none
  environments := environments
  keyGroups := [⟨"", "g"⟩]
  keys :=
    [ ⟨"", "A", "", .config, "", false, "", "g", "", ⟨required, []⟩, ⟨.none, []⟩⟩,
      ⟨"", "B", "", .config, "", false, "", "g", "", ⟨.none, []⟩, ⟨.all, []⟩⟩ ]

theorem groups_stay_satisfiable_apply : (Tx.exec (step .plain .plain) Tables.empty
      [(Op.applyBundle (groupBundle [⟨"", "prod"⟩] .none) false).call]).keys.rows.length = 2 ∧
    (Tx.exec (step .plain .plain) Tables.empty
      [(Op.applyBundle (groupBundle [⟨"", "prod"⟩] .none) false).call]).Satisfiable :=
  ⟨by decide +kernel, groups_stay_satisfiable .plain .plain _
    ⟨.inl (cons_ne_nil _ _), trivial⟩⟩

/-- **Without an environment nothing decides the conflict.** The bundle is committed. -/
theorem conflicting_groups_applied : ¬ (Tx.exec (step .plain .plain) Tables.empty
      [(Op.applyBundle (groupBundle [] .all) false).call]).Satisfiable := by
  intro h
  have hrows : (Tx.exec (step .plain .plain) Tables.empty
      [(Op.applyBundle (groupBundle [] .all) false).call]).keys.rows =
      [ ⟨"key_2", "B", "", .config, "", false, "", "kgr_0", "", ⟨⟨.none, []⟩, ⟨.all, []⟩⟩⟩,
        ⟨"key_1", "A", "", .config, "", false, "", "kgr_0", "", ⟨⟨.all, []⟩, ⟨.none, []⟩⟩⟩ ] := by
    decide +kernel
  unfold Tables.Satisfiable at h
  rw [hrows] at h
  exact (h _ (mem_cons_of_mem _ mem_cons_self) _ mem_cons_self (by decide)
    (by decide) rfl "env").1 ⟨rfl, rfl⟩

end Hikyo.Catalogue
