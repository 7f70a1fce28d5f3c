import Hikyo.Service.PublishedContents

/-!
# The history of an environment

Between two revisions of an environment the definitions move, drafts are staged, superseded and
discarded, and old payloads are collected. The question is whether a revision still holds what was
published: for each declared key the version the call published, and otherwise what the revision
before it delivered.

`Tables.Coherent` is the invariant. Its core is `current`: what the latest revision of an
environment delivers is what its published cells hold. So a materialization, which reads
the cells, continues the revision before it, which it never reads for its entries.

A transaction first changes the definitions and then materializes some environments, each once.
`Prepared` describes the first part – nothing is lost but with its key or its environment, and what
is new has a new identity – statement by statement. `Looped` describes the second.
`coherent_committed` and `continues_committed` put the two together.
-/

namespace Hikyo.Catalogue

open List
open Tx (bind_ok skip ensured checked)

variable {P : Platform} {C : BundleCodec} {s s' t t' : Tables} {env keyID : String}

/-! ## Numbers -/

/-- The revisions of a history are numbered from 1, without gaps; the latest is first. -/
def Numbered (h : List Revision) : Prop :=
  h.map Revision.number = (List.range' 1 h.length).reverse

variable {r : Revision}

section

variable {h : List Revision}

theorem numbered_cons : Numbered (r :: h) ↔ r.number = h.length + 1 ∧ Numbered h := by
  unfold Numbered
  rw [length_cons, range'_concat, reverse_append, map_cons]
  show r.number :: _ = (1 + 1 * h.length) :: _ ↔ _
  rw [cons.injEq, one_mul, add_comm]
  exact Iff.rfl

/-- The revision with the highest number is the first one. -/
theorem argmax_of_numbered (hnum : Numbered h) : h.argmax Revision.number = h.head? := by
  induction h with
  | nil => rfl
  | cons r h ih =>
    obtain ⟨hr, hnum⟩ := numbered_cons.mp hnum
    rw [argmax_cons, ih hnum]
    cases h with
    | nil => rfl
    | cons r' h =>
      have hr' := (numbered_cons.mp hnum).1
      show (if r.number < r'.number then some r' else some r) = some r
      rw [if_neg (by rw [hr, hr', length_cons]; omega)]

end

theorem numbered_nil : Numbered [] := rfl

/-! ## The invariant -/

/-- What the latest revision of an environment delivers for a key. -/
def Tables.delivered (s : Tables) (env keyID : String) : Option (String × String) :=
  (s.history env).head?.bind fun r => r.cell keyID

/-- **What holds between transactions.** -/
structure Tables.Coherent (P : Platform) (s : Tables) : Prop where
  normal : s.Normal P
  environments : ∀ id ∈ s.environmentIDs, ∃ n < s.minted, id = P.newID "env" n
  keys : ∀ id ∈ s.keyIDs, ∃ n < s.minted, id = P.newID "key" n
  cells : ∀ v ∈ s.values.rows, v.environmentID ∈ s.environmentIDs ∧ v.keyID ∈ s.keyIDs
  drafts : ∀ d ∈ s.drafts.rows, d.environmentID ∈ s.environmentIDs
  revisions : ∀ r ∈ s.revisions, r.environmentID ∈ s.environmentIDs
  nodup : ∀ r ∈ s.revisions, (r.entries.map Entry.keyID).Nodup
  numbered : ∀ env, Numbered (s.history env)
  /-- the latest revision delivers what the cells hold -/
  current : ∀ env keyID, s.delivered env keyID = s.published env keyID

theorem coherent_empty : Tables.empty.Coherent P where
  normal := ⟨nofun, nofun, nofun⟩
  environments _ h := nomatch h
  keys _ h := nomatch h
  cells _ h := nomatch h
  drafts _ h := nomatch h
  revisions _ h := nomatch h
  nodup _ h := nomatch h
  numbered _ := rfl
  current _ _ := rfl

theorem history_eq_nil (h : ∀ r ∈ s.revisions, r.environmentID ∈ s.environmentIDs)
    (henv : env ∉ s.environmentIDs) : s.history env = [] := by
  refine filter_eq_nil_iff.mpr fun r hr hd => henv ?_
  rw [← of_decide_eq_true hd]
  exact h r hr

theorem valueEntry_eq_none
    (h : ∀ v ∈ s.values.rows, v.environmentID ∈ s.environmentIDs ∧ v.keyID ∈ s.keyIDs)
    (hnot : env ∉ s.environmentIDs ∨ keyID ∉ s.keyIDs) : s.valueEntry env keyID = none := by
  rw [valueEntry_eq_find?, Table.Keyed.find?_eq_none]
  intro v hv hcell
  obtain ⟨rfl, rfl⟩ := Prod.mk.inj hcell
  rcases hnot with hnot | hnot
  · exact hnot (h v hv).1
  · exact hnot (h v hv).2

theorem delivered_congr (h : s'.history env = s.history env) :
    s'.delivered env keyID = s.delivered env keyID := by
  unfold Tables.delivered
  rw [h]

theorem published_congr (h : s'.valueEntry env keyID = s.valueEntry env keyID) :
    s'.published env keyID = s.published env keyID := by
  unfold Tables.published
  rw [h]

/-! ## Preparing the definitions -/

/-- **The definitions have been changed** from `s` to `t`, and nothing was materialized. A
row stays exactly as long as what it belongs to; an identity that was not there is a new
one, below `hi`. The next one to be minted is `n`. -/
structure Prepared (P : Platform) (s : Tables) (n hi : ℕ) (t : Tables) : Prop where
  schema : t.schemaRevision = s.schemaRevision
  minted : t.minted = n
  low : s.minted ≤ n
  high : n ≤ hi
  environments : ∀ id ∈ t.environmentIDs, id ∈ s.environmentIDs ∨
    ∃ n, s.minted ≤ n ∧ n < hi ∧ id = P.newID "env" n
  keys : ∀ id ∈ t.keyIDs, id ∈ s.keyIDs ∨ ∃ n, s.minted ≤ n ∧ n < hi ∧ id = P.newID "key" n
  values : ∀ v, v ∈ t.values.rows ↔
    v ∈ s.values.rows ∧ v.environmentID ∈ t.environmentIDs ∧ v.keyID ∈ t.keyIDs
  drafts : ∀ d ∈ t.drafts.rows, d ∈ s.drafts.rows ∧ d.environmentID ∈ t.environmentIDs
  revisions : t.revisions = s.revisions.filter fun r => r.environmentID ∈ t.environmentIDs

theorem Tables.Coherent.prepared (hs : s.Coherent P) : Prepared P s s.minted s.minted s where
  schema := rfl
  minted := rfl
  low := le_rfl
  high := le_rfl
  environments _ h := .inl h
  keys _ h := .inl h
  values v := ⟨fun hv => ⟨hv, hs.cells v hv⟩, And.left⟩
  drafts d hd := ⟨hd, hs.drafts d hd⟩
  revisions := (filter_eq_self.mpr fun r hr => decide_eq_true (hs.revisions r hr)).symm

variable {kind : String}

/-- An identity of the start is not a new one. -/
theorem not_new {ids : List String} {n m : ℕ}
    (hids : ∀ id ∈ ids, ∃ i < m, id = P.newID kind i) (hn : m ≤ n) : P.newID kind n ∉ ids := by
  intro hmem
  obtain ⟨i, hi, heq⟩ := hids _ hmem
  rw [P.newID_inj heq] at hn
  exact absurd hi (Nat.not_lt.mpr hn)

variable {e : Entity} {id : String}

namespace Prepared

variable {n hi : ℕ}

variable (h : Prepared P s n hi t)

include h

theorem mono {hi' : ℕ} (hle : hi ≤ hi') : Prepared P s n hi' t :=
  { h with
    high := h.high.trans hle
    environments := fun id hid => (h.environments id hid).imp_right
      fun ⟨i, hlow, hlt, heq⟩ => ⟨i, hlow, hlt.trans_le hle, heq⟩
    keys := fun id hid => (h.keys id hid).imp_right
      fun ⟨i, hlow, hlt, heq⟩ => ⟨i, hlow, hlt.trans_le hle, heq⟩ }

/-- A statement about other columns. -/
theorem same (henvs : t'.environmentIDs = t.environmentIDs) (hkeys : t'.keyIDs = t.keyIDs)
    (hvalues : t'.values = t.values) (hdrafts : ∀ d ∈ t'.drafts.rows, d ∈ t.drafts.rows)
    (hrevisions : t'.revisions = t.revisions) (hminted : t'.minted = t.minted)
    (hschema : t'.schemaRevision = t.schemaRevision) : Prepared P s n hi t' where
  schema := hschema.trans h.schema
  minted := hminted.trans h.minted
  low := h.low
  high := h.high
  environments := henvs ▸ h.environments
  keys := hkeys ▸ h.keys
  values := by rw [henvs, hkeys, hvalues]; exact h.values
  drafts d hd := henvs ▸ h.drafts d (hdrafts d hd)
  revisions := by rw [henvs, hrevisions]; exact h.revisions

variable {i : ℕ}

/-- The identifiers below `i` have been used up. -/
theorem mint (hlow : s.minted ≤ i) (hhigh : i ≤ hi) : Prepared P s i hi { t with minted := i } :=
  { h with minted := rfl, low := hlow, high := hhigh }

variable {keys : Table.Named Key.columns}

theorem newKey (hs : s.Coherent P) (hlow : s.minted ≤ i)
    (hhigh : i < hi) {k : Key} (hk : k.id = P.newID "key" i)
    (hrows : keys.rows = k :: t.keys.rows) : Prepared P s n hi { t with keys } := by
  have hids : ({ t with keys } : Tables).keyIDs = P.newID "key" i :: t.keyIDs := by
    show keys.rows.map Key.id = _
    rw [hrows, map_cons, hk]
    rfl
  refine { h with keys := fun id hid => ?_, values := fun v => ?_ }
  · rw [hids] at hid
    rcases mem_cons.mp hid with rfl | hid
    · exact .inr ⟨i, hlow, hhigh, rfl⟩
    · exact h.keys id hid
  · rw [hids]
    refine (h.values v).trans (and_congr_right fun hv => and_congr_right fun _ => ?_)
    refine ⟨mem_cons_of_mem _, fun hmem => ?_⟩
    rcases mem_cons.mp hmem with heq | hmem
    · exact absurd (heq ▸ (hs.cells v hv).2) (not_new hs.keys hlow)
    · exact hmem

theorem newEnvironment (hs : s.Coherent P) (hlow : s.minted ≤ i)
    (hhigh : i < hi) {environments : Table.Named Entity.columns}
    (he : e.id = P.newID "env" i) (hrows : environments.rows = e :: t.environments.rows) :
    Prepared P s n hi { t with environments } := by
  have hids : ({ t with environments } : Tables).environmentIDs =
      P.newID "env" i :: t.environmentIDs := by
    show environments.rows.map Entity.id = _
    rw [hrows, map_cons, he]
    rfl
  -- no row of the start is in the new environment
  have hold : ∀ id ∈ s.environmentIDs,
      (id ∈ t.environmentIDs ↔ id ∈ ({ t with environments } : Tables).environmentIDs) := by
    intro id hid
    rw [hids]
    refine ⟨mem_cons_of_mem _, fun hmem => ?_⟩
    rcases mem_cons.mp hmem with rfl | hmem
    · exact absurd hid (not_new hs.environments hlow)
    · exact hmem
  refine { h with
    environments := fun id hid => ?_
    values := fun v => ?_
    drafts := fun d hd => ?_
    revisions := ?_ }
  · rw [hids] at hid
    rcases mem_cons.mp hid with rfl | hid
    · exact .inr ⟨i, hlow, hhigh, rfl⟩
    · exact h.environments id hid
  · refine (h.values v).trans (and_congr_right fun hv => and_congr_left fun _ => ?_)
    exact hold _ (hs.cells v hv).1
  · obtain ⟨hmem, henv⟩ := h.drafts d hd
    exact ⟨hmem, hids ▸ mem_cons_of_mem _ henv⟩
  · show t.revisions = _
    rw [h.revisions]
    refine filter_congr fun r hr => ?_
    rw [decide_eq_decide]
    exact hold _ (hs.revisions r hr)

variable {values : Table.Keyed ValueEntry.cell} {drafts : Table.Keyed Draft.id}

/-- A key goes with its cells. -/
theorem deleteKey (hvalues : ∀ v, v ∈ values.rows ↔ v ∈ t.values.rows ∧ v.keyID ≠ id)
    (hdrafts : ∀ d ∈ drafts.rows, d ∈ t.drafts.rows) : Prepared P s n hi
      { t with keys := t.keys.delete fun k => k.id = id, values := values, drafts := drafts } := by
  have hids : ∀ x, x ∈ (t.keys.delete fun k => k.id = id).rows.map Key.id ↔
      x ∈ t.keyIDs ∧ x ≠ id := by
    intro x
    constructor
    · intro hx
      obtain ⟨k, hk, rfl⟩ := mem_map.mp hx
      obtain ⟨hk, hne⟩ := Table.Named.mem_delete.mp hk
      exact ⟨mem_map_of_mem hk, of_decide_eq_false hne⟩
    · rintro ⟨hx, hne⟩
      obtain ⟨k, hk, rfl⟩ := mem_map.mp hx
      exact mem_map_of_mem (Table.Named.mem_delete.mpr ⟨hk, decide_eq_false hne⟩)
  refine { h with
    keys := fun x hx => h.keys x ((hids x).mp hx).1
    values := fun v => ?_
    drafts := fun d hd => h.drafts d (hdrafts d hd) }
  show v ∈ values.rows ↔ v ∈ s.values.rows ∧ v.environmentID ∈ t.environmentIDs ∧ v.keyID ∈ _
  rw [hvalues v, h.values v, and_assoc, and_assoc]
  exact and_congr_right fun _ => and_congr_right fun _ => (hids v.keyID).symm

/-- An environment goes with its cells, drafts and revisions. -/
theorem deleteEnvironment {env : String} (hkeys : keys.rows.map Key.id = t.keyIDs)
    (hvalues : ∀ v, v ∈ values.rows ↔ v ∈ t.values.rows ∧ v.environmentID ≠ env)
    (hdrafts : ∀ d ∈ drafts.rows, d ∈ t.drafts.rows ∧ d.environmentID ≠ env) : Prepared P s n hi
      { t with
        environments := t.environments.delete fun e => e.id = env
        keys := keys
        values := values
        drafts := drafts
        revisions := t.revisions.filter fun r => r.environmentID ≠ env } := by
  have hids : ∀ x, x ∈ (t.environments.delete fun e => e.id = env).rows.map Entity.id ↔
      x ∈ t.environmentIDs ∧ x ≠ env := by
    intro x
    rw [environmentIDs_delete, mem_filter, decide_eq_true_iff]
  refine { h with
    environments := fun x hx => h.environments x ((hids x).mp hx).1
    keys := fun x hx => h.keys x (hkeys ▸ hx)
    values := fun v => ?_
    drafts := fun d hd => ?_
    revisions := ?_ }
  · show v ∈ values.rows ↔ v ∈ s.values.rows ∧
      v.environmentID ∈ (t.environments.delete fun e => e.id = env).rows.map Entity.id ∧
        v.keyID ∈ keys.rows.map Key.id
    rw [hvalues v, h.values v, hids, hkeys, and_assoc, and_assoc]
    exact and_congr_right fun _ => ⟨fun ⟨henv, hkey, hne⟩ => ⟨⟨henv, hne⟩, hkey⟩,
      fun ⟨⟨henv, hne⟩, hkey⟩ => ⟨henv, hkey, hne⟩⟩
  · obtain ⟨hd, hne⟩ := hdrafts d hd
    obtain ⟨hmem, henv⟩ := h.drafts d hd
    exact ⟨hmem, (hids _).mpr ⟨henv, hne⟩⟩
  · show t.revisions.filter _ = _
    rw [h.revisions, filter_filter]
    refine filter_congr fun r _ => ?_
    rw [← Bool.decide_and, decide_eq_decide, and_comm]
    exact (hids r.environmentID).symm

/-! ### What is read afterwards -/

/-- An environment that is there has its history. -/
theorem history_of_mem (henv : env ∈ t.environmentIDs) : t.history env = s.history env := by
  unfold Tables.history
  rw [h.revisions, filter_filter]
  refine filter_congr fun r _ => ?_
  rw [← Bool.decide_and, decide_eq_decide]
  refine and_iff_left_of_imp ?_
  rintro rfl
  exact henv

theorem revisions_there : ∀ r ∈ t.revisions, r.environmentID ∈ t.environmentIDs := by
  intro r hr
  rw [h.revisions] at hr
  exact of_decide_eq_true (mem_filter.mp hr).2

theorem values_there :
    ∀ v ∈ t.values.rows, v.environmentID ∈ t.environmentIDs ∧ v.keyID ∈ t.keyIDs :=
  fun v hv => ((h.values v).mp hv).2

/-- A cell whose key and environment are there is as it was. -/
theorem valueEntry_of_mem (henv : env ∈ t.environmentIDs)
    (hkey : keyID ∈ t.keyIDs) : t.valueEntry env keyID = s.valueEntry env keyID := by
  refine Table.Keyed.find?_congr fun v hv => ?_
  obtain ⟨rfl, rfl⟩ := Prod.mk.inj hv
  rw [h.values v]
  exact and_iff_left ⟨henv, hkey⟩

theorem normal (hs : s.Normal P) : t.Normal P := by
  refine ⟨fun v hv => hs.values v ((h.values v).mp hv).1,
    fun d hd => hs.drafts d (h.drafts d hd).1, fun r hr => hs.entries r ?_⟩
  rw [h.revisions] at hr
  exact (mem_filter.mp hr).1

end Prepared

/-! ### Statement by statement -/

variable {name : String}

section Statements

variable {n hi : ℕ} {around : Surroundings}

theorem map_keyID_renamed (id name : String) (rows : List Key) :
    (Table.Named.renamed Key.columns id name rows).map Key.id = rows.map Key.id :=
  Table.Named.map_id_renamed (c := Key.columns) id name rows

section

variable (h : Prepared P s n hi t)

include h

/-- A write to the keys. -/
theorem prepared_updateKeys {p : Key → Bool} {f : Key → Key} {hid : ∀ k, (f k).id = k.id}
    {hname : ∀ k, (f k).name = k.name} :
    Prepared P s n hi { t with keys := t.keys.update p f hid hname } :=
  h.same rfl (Table.map_update hid) rfl (fun _ hd => hd) rfl rfl rfl

theorem prepared_renameKey (hstep : t.renameKey id name = .ok t') : Prepared P s n hi t' := by
  obtain ⟨keys, rfl, hrows⟩ := renameKey_eq_ok hstep
  refine h.same rfl ?_ rfl (fun _ hd => hd) rfl rfl rfl
  show keys.rows.map Key.id = _
  rw [hrows]
  exact map_keyID_renamed id name t.keys.rows

theorem prepared_renameEnvironment
    (hstep : t.renameEnvironment id name = .ok t') : Prepared P s n hi t' := by
  obtain ⟨environments, rfl, hids⟩ := renameEnvironment_eq_ok hstep
  exact h.same hids rfl rfl (fun _ hd => hd) rfl rfl rfl

theorem prepared_renameGroup (hstep : t.renameGroup id name = .ok t') : Prepared P s n hi t' := by
  obtain ⟨groups, rfl, -⟩ := renameGroup_eq_ok hstep
  exact h.same rfl rfl rfl (fun _ hd => hd) rfl rfl rfl

theorem prepared_createGroup {g : Entity}
    (hstep : t.createGroup g = .ok t') : Prepared P s n hi t' := by
  obtain ⟨groups, rfl, -⟩ := createGroup_eq_ok hstep
  exact h.same rfl rfl rfl (fun _ hd => hd) rfl rfl rfl

theorem prepared_deleteGroup
    (hstep : (t.clearGroupMembers id).deleteGroupRow id = .ok t') : Prepared P s n hi t' := by
  obtain ⟨-, rfl⟩ := deleteGroupRow_eq_ok hstep
  refine h.same rfl ?_ rfl (fun _ hd => hd) rfl rfl rfl
  refine Table.map_update ?_
  exact fun _ => rfl

theorem prepared_writeRules {declaration : String} {rules : PresenceRules}
    (hstep : t.writeRules id declaration rules = .ok t') : Prepared P s n hi t' := by
  obtain ⟨-, rfl⟩ := writeRules_eq_ok hstep
  exact prepared_updateKeys h

theorem prepared_setGroup {groupID : String}
    (hstep : t.setGroup id groupID = .ok t') : Prepared P s n hi t' := by
  obtain ⟨-, rfl⟩ := setGroup_eq_ok hstep
  exact prepared_updateKeys h

/-- A key that is deleted one by one has no cells left. -/
theorem prepared_deleteKey
    (hstep : (t.discardKey id).deleteKeyRow id = .ok t') : Prepared P s n hi t' := by
  obtain ⟨hfree, rfl⟩ := deleteKeyRow_eq_ok hstep
  exact h.deleteKey (fun v => ⟨fun hv => ⟨hv, hfree v hv⟩, And.left⟩)
    fun d hd => (Table.Keyed.mem_delete.mp hd).1

theorem prepared_deleteEnvironment
    (hstep : ((t.cascadeEnvironmentPresence env).clearEnvironment env).deleteEnvironmentRow env =
      .ok t') : Prepared P s n hi t' := by
  obtain ⟨-, -, rfl⟩ := deleteEnvironmentRow_eq_ok hstep
  refine h.deleteEnvironment ?_ (fun v => ?_) fun d hd => ?_
  · refine Table.map_update ?_
    exact fun _ => rfl
  · rw [ne_eq, ← decide_eq_false_iff_not]
    exact Table.Keyed.mem_delete
  · obtain ⟨hd, hne⟩ := Table.Keyed.mem_delete.mp hd
    exact ⟨hd, of_decide_eq_false hne⟩

end

theorem prepared_survives {gone : List Entity} : Survives around gone (Prepared P s n hi) where
  deleteKey h hstep := by
    obtain ⟨-, rfl⟩ := deleteKeyRow_eq_ok hstep
    refine h.deleteKey (fun v => ?_) fun d hd => (Table.Keyed.mem_delete.mp hd).1
    rw [ne_eq, ← decide_eq_false_iff_not]
    exact Table.Keyed.mem_delete
  deleteGroup := prepared_deleteGroup
  deleteEnvironment _ h hstep := by
    replace hstep := skip hstep
    obtain ⟨hfree, -, rfl⟩ := deleteEnvironmentRow_eq_ok hstep
    refine h.deleteEnvironment ?_ (fun v => ⟨fun hv => ⟨hv, hfree v hv⟩, And.left⟩) fun d hd => ?_
    · refine Table.map_update ?_
      exact fun _ => rfl
    · obtain ⟨hd, hne⟩ := Table.Keyed.mem_delete.mp hd
      exact ⟨hd, of_decide_eq_false hne⟩
  renameEnvironment := prepared_renameEnvironment
  renameGroup := prepared_renameGroup
  renameKey := prepared_renameKey
  createGroup h := prepared_createGroup h
  updateMetadata h := prepared_updateKeys h
  writeRules h _ := prepared_writeRules h
  setClassification h := prepared_updateKeys h
  setGroup h := prepared_setGroup h

theorem id_of_mem_mintEntities {m : Minter} (names : List String) :
    ∀ n, e ∈ mintEntities m kind n names →
      ∃ i, n ≤ i ∧ i < n + names.length ∧ e.id = m.newID kind i := by
  induction names with
  | nil => exact nofun
  | cons name names ih =>
    intro n he
    rw [length_cons]
    rcases mem_cons.mp he with rfl | he
    · exact ⟨n, le_rfl, by omega, rfl⟩
    · obtain ⟨i, hlow, hhigh, hid⟩ := ih (n + 1) he
      exact ⟨i, by omega, by omega, hid⟩

variable {names : List String}

theorem prepared_createEnvironments (hs : s.Coherent P)
    (h : Prepared P s n n t) (hstep : createEnvironments P.toMinter t names = .ok t') :
    Prepared P s (n + names.length) (n + names.length) t' := by
  obtain ⟨u, hcreate, hstep⟩ := bind_ok hstep
  cases hstep
  have hu : Prepared P s n (n + names.length) u := by
    refine Tx.foldlM_invariant (Prepared P s n (n + names.length)) _ ?_
      (h.mono (Nat.le_add_right _ _)) hcreate
    intro b e he b' hb hcreate
    rw [h.minted] at he
    obtain ⟨i, hlow, hhigh, hid⟩ := id_of_mem_mintEntities names n he
    obtain ⟨environments, rfl, hrows⟩ := createEnvironment_eq_ok hcreate
    exact hb.newEnvironment hs (h.low.trans hlow) hhigh hid hrows
  rw [h.minted]
  exact hu.mint (h.low.trans (Nat.le_add_right _ _)) le_rfl

theorem prepared_createGroups (h : Prepared P s n n t)
    (hstep : createGroups P.toMinter t names = .ok t') :
    Prepared P s (n + names.length) (n + names.length) t' := by
  obtain ⟨u, hcreate, hstep⟩ := bind_ok hstep
  cases hstep
  have hu : Prepared P s n n u :=
    Tx.foldlM_invariant (Prepared P s n n) _ (fun _ _ _ _ hb => prepared_createGroup hb) h hcreate
  rw [h.minted]
  exact (hu.mono (Nat.le_add_right _ names.length)).mint
    (h.low.trans (Nat.le_add_right _ _)) le_rfl

theorem prepared_executeKeyCreate {envIDByName groupIDByName : List (String × String)}
    {k : BundleKey} (hs : s.Coherent P) (h : Prepared P s n n t)
    (hstep : executeKeyCreate P.toMinter envIDByName groupIDByName t k = .ok t') :
    Prepared P s (n + 1) (n + 1) t' := by
  unfold executeKeyCreate at hstep
  obtain ⟨rules, -, hstep⟩ := bind_ok hstep
  replace hstep := skip hstep
  obtain ⟨u, hcreate, hstep⟩ := bind_ok hstep
  cases hstep
  obtain ⟨-, keys, rfl, hrows⟩ := createKey_eq_ok hcreate
  rw [h.minted] at hrows ⊢
  have hnew := (h.mono (Nat.le_succ _)).newKey hs h.low (Nat.lt_succ_self _) rfl hrows
  exact hnew.mint (h.low.trans (Nat.le_succ _)) le_rfl

/-- **A resolution that is carried out.** -/
theorem prepared_executeResolution {res : Resolution} (hs : s.Coherent P)
    (hstep : executeResolution P.toMinter around s res = .ok t) : ∃ n, Prepared P s n n t := by
  unfold executeResolution at hstep
  obtain ⟨t₁, hdeletes, hstep⟩ := bind_ok hstep
  obtain ⟨t₂, htopology, hstep⟩ := bind_ok hstep
  obtain ⟨t₃, hcreates, hstep⟩ := bind_ok hstep
  have hkept : ∀ {n hi}, Survives around res.envDeletes (Prepared P s n hi) := prepared_survives
  have h₁ := hkept.executeDeletes hdeletes hs.prepared
  -- names and topology
  obtain ⟨u₁, hpark, htopology⟩ := bind_ok htopology
  obtain ⟨u₂, henvs, htopology⟩ := bind_ok htopology
  obtain ⟨u₃, hgroups, htopology⟩ := bind_ok htopology
  have hu₂ := prepared_createEnvironments hs (hkept.parkRenames hpark h₁) henvs
  have h₂ := hkept.finishRenames htopology (prepared_createGroups hu₂ hgroups)
  -- keys
  have h₃ : ∃ n, Prepared P s n n t₃ :=
    Tx.foldlM_invariant (fun t => ∃ n, Prepared P s n n t) _
      (fun _ _ _ _ ⟨n, h⟩ hcreate => ⟨n + 1, prepared_executeKeyCreate hs h hcreate⟩)
      ⟨_, h₂⟩ hcreates
  obtain ⟨n, h₃⟩ := h₃
  exact ⟨n, Tx.foldlM_invariant (Prepared P s n n) _
    (fun _ _ _ _ => hkept.executeKeyUpdate) h₃ hstep⟩

end Statements

/-! ## Materializing some environments -/

/-- What belongs to one environment. -/
def Tables.part (s : Tables) (env : String) : List Revision × (String → Option ValueEntry) :=
  (s.history env, s.valueEntry env)

section Loops

variable {versions : String → Option (Option String)} {r : Revision}

theorem Advance.history (h : Advance P env versions s s' r) :
    s'.history env = r :: s.history env := by
  unfold Tables.history
  rw [h.revisions, filter_cons_of_pos]
  exact decide_eq_true h.environment

theorem Advance.part_other (h : Advance P env versions s s' r) {env' : String}
    (hne : env' ≠ env) : s'.part env' = s.part env' := by
  refine Prod.ext ?_ (funext fun keyID => h.others env' keyID hne)
  show s'.history env' = s.history env'
  unfold Tables.history
  rw [h.revisions, filter_cons_of_neg]
  rw [decide_eq_true_iff, h.environment]
  exact hne.symm

/-- **Some environments have been materialized**, each once, and with `f`. -/
structure Looped (P : Platform) {γ : Type} (f : Tables → γ → Except ServiceError Tables)
    (index : γ → String) (versions : γ → String → Option (Option String)) (l : List γ)
    (t s' : Tables) : Prop where
  normal : s'.Normal P
  definitions : s'.definitions = t.definitions
  schema : s'.schemaRevision = t.schemaRevision
  minted : t.minted ≤ s'.minted
  drafts : ∀ d ∈ s'.drafts.rows, d ∈ t.drafts.rows
  values : ∀ v ∈ s'.values.rows, v ∈ t.values.rows ∨
    (v.environmentID ∈ l.map index ∧ v.keyID ∈ t.keyIDs)
  revisions : ∀ r ∈ s'.revisions, r ∈ t.revisions ∨
    (r.environmentID ∈ l.map index ∧ (r.entries.map Entry.keyID).Nodup)
  others : ∀ env, env ∉ l.map index → s'.part env = t.part env
  rounds : ∀ c ∈ l, ∃ u u' r, f u c = .ok u' ∧ Advance P (index c) (versions c) u u' r ∧
    u.definitions = t.definitions ∧ u.schemaRevision = t.schemaRevision ∧
    u.part (index c) = t.part (index c) ∧ s'.part (index c) = u'.part (index c)

variable {γ : Type} {f : Tables → γ → Except ServiceError Tables} {index : γ → String}
  {versions : γ → String → Option (Option String)} {l : List γ}

theorem looped_nil (ht : t.Normal P) : Looped P f index versions [] t t where
  normal := ht
  definitions := rfl
  schema := rfl
  minted := le_rfl
  drafts _ hd := hd
  values _ hv := .inl hv
  revisions _ hr := .inl hr
  others _ _ := rfl
  rounds _ hc := nomatch hc

theorem looped_foldlM (hf : ∀ t c t', t.Normal P → f t c = .ok t' →
      ∃ r, Advance P (index c) (versions c) t t' r) (hnodup : (l.map index).Nodup) (ht : t.Normal P)
    (h : l.foldlM f t = .ok s') : Looped P f index versions l t s' := by
  have hloop := Tx.foldlM_part Tables.part index
    (fun u : Tables => u.Normal P ∧ u.definitions = t.definitions ∧
      u.schemaRevision = t.schemaRevision ∧ t.minted ≤ u.minted ∧
      (∀ d ∈ u.drafts.rows, d ∈ t.drafts.rows) ∧
      (∀ v ∈ u.values.rows, v ∈ t.values.rows ∨
        (v.environmentID ∈ l.map index ∧ v.keyID ∈ t.keyIDs)) ∧
      ∀ r ∈ u.revisions, r ∈ t.revisions ∨
        (r.environmentID ∈ l.map index ∧ (r.entries.map Entry.keyID).Nodup)) l
    (f := f) ?_ hnodup
    ⟨ht, rfl, rfl, le_rfl, fun _ hd => hd, fun _ hv => .inl hv, fun _ hr => .inl hr⟩ h
  · obtain ⟨⟨hnormal, hdef, hschema, hminted, hdrafts, hvalues, hrevisions⟩, hothers, hrounds⟩ :=
      hloop
    refine ⟨hnormal, hdef, hschema, hminted, hdrafts, hvalues, hrevisions, hothers, fun c hc => ?_⟩
    obtain ⟨u, u', ⟨hu, hudef, huschema, -⟩, hround, hbefore, hafter⟩ := hrounds c hc
    obtain ⟨r, hadvance⟩ := hf u c u' hu hround
    exact ⟨u, u', r, hround, hadvance, hudef, huschema, hbefore, hafter⟩
  · rintro u c hc u' ⟨hnormal, hdef, hschema, hminted, hdrafts, hvalues, hrevisions⟩ hround
    obtain ⟨r, hadvance⟩ := hf u c u' hnormal hround
    have hkeyIDs : u.keyIDs = t.keyIDs :=
      congrArg (fun k => k.rows.map Key.id) (keys_of_definitions hdef)
    refine ⟨⟨hadvance.normal_tables hnormal, hadvance.definitions.trans hdef,
      hadvance.schema.trans hschema, hminted.trans hadvance.minted,
      fun d hd => hdrafts d (hadvance.drafts d hd), fun v hv => ?_, fun r' hr' => ?_⟩,
      fun env hne => hadvance.part_other hne⟩
    · rcases hadvance.rows v hv with hv | ⟨henv, hkey, -⟩
      · exact hvalues v hv
      · exact .inr ⟨henv ▸ mem_map_of_mem hc, hkeyIDs ▸ hkey⟩
    · rw [hadvance.revisions] at hr'
      rcases mem_cons.mp hr' with rfl | hr'
      · exact .inr ⟨hadvance.environment ▸ mem_map_of_mem hc, hadvance.nodup⟩
      · exact hrevisions r' hr'

end Loops

/-! ## What a transaction does to a history -/

/-- The entries of the latest revision. -/
def Tables.latestEntries (s : Tables) (env : String) : List Entry :=
  ((s.history env).head?.map Revision.entries).getD []

/-- **The next revision of an environment**, from `s` to `s'`. -/
structure NextRevision (s s' : Tables) (versions : String → Option (Option String))
    (env : String) (r : Revision) : Prop where
  number : r.number = (s.history env).length + 1
  schema : r.schemaRevision = s'.schemaRevision
  /-- a key has the version that is published for it, or what it had -/
  published : ∀ k ∈ s'.keys.rows, match versions k.id with
    | some v => (r.entry k.id).map Entry.value = v
    | none => r.cell k.id = s.delivered env k.id
  declared : ∀ e ∈ r.entries, ∃ k ∈ s'.keys.rows,
    e.keyID = k.id ∧ e.keyName = k.name ∧ e.classification = k.classification
  changes : ∀ c, c ∈ r.changes ↔ Differs (s.latestEntries env) r.entries c
  once : (r.changes.map ChangedKey.keyID).Nodup
  meets : r.Meets env s'.keys.rows

/-- **A history continues**: it stays, or goes with its environment, or an old payload is
collected, or there is one more revision. -/
inductive Continues (s s' : Tables) (versions : String → Option (Option String))
    (env : String) : Prop
  | same (h : s'.history env = s.history env)
  | deleted (henv : env ∉ s'.environmentIDs) (h : s'.history env = [])
  | collected (number : ℕ) (hold : number ≠ currentRevision s env)
      (h : s'.history env =
        Table.update (fun r => r.number = number) Revision.collect (s.history env))
  | published (r : Revision) (h : s'.history env = r :: s.history env)
      (hr : NextRevision s s' versions env r)

theorem latest_of_numbered (h : Numbered (s.history env)) :
    s.latest env = (s.history env).head? := argmax_of_numbered h

theorem currentRevision_of_numbered (h : Numbered (s.history env)) :
    currentRevision s env = (s.history env).length := by
  unfold currentRevision
  rw [latest_of_numbered h]
  cases hh : s.history env with
  | nil => rfl
  | cons r rest =>
    rw [hh] at h
    exact (numbered_cons.mp h).1

/-- An entry of a revision is among its entries. -/
theorem cell_eq_none (h : ∀ e ∈ r.entries, e.keyID ≠ keyID) : r.cell keyID = none := by
  unfold Revision.cell Revision.entry
  rw [find?_eq_none.mpr fun e he hd => h e he (of_decide_eq_true hd)]
  rfl

section Committed

variable {γ : Type} {f : Tables → γ → Except ServiceError Tables} {index : γ → String}
  {versions : γ → String → Option (Option String)} {l : List γ} {n m : ℕ}

theorem map_value_entry (r : Revision) (keyID : String) :
    (r.entry keyID).map Entry.value = (r.cell keyID).map Prod.fst := by
  unfold Revision.cell
  rw [Option.map_map]
  rfl

theorem nodup_latestEntries (hs : s.Coherent P) (env : String) :
    ((s.latestEntries env).map Entry.keyID).Nodup := by
  unfold Tables.latestEntries
  cases hh : s.history env with
  | nil => exact nodup_nil
  | cons r rest =>
    have hr : r ∈ s.history env := hh ▸ mem_cons_self
    exact hs.nodup r (mem_filter.mp hr).1

/-- **An environment that is materialized gets its next revision**, and the revision holds
its cells. -/
theorem next_committed (hs : s.Coherent P) (hp : Prepared P s n n t)
    (hl : Looped P f index versions l { t with schemaRevision := m } s') {c : γ} (hc : c ∈ l)
    (hthere : index c ∈ t.environmentIDs) :
    ∃ r, s'.history (index c) = r :: s.history (index c) ∧
      NextRevision s s' (versions c) (index c) r ∧
      ∀ keyID ∈ t.keyIDs, r.cell keyID = s'.published (index c) keyID := by
  obtain ⟨u, u', r, -, hadvance, hudef, huschema, hbefore, hafter⟩ := hl.rounds c hc
  have hhistory : u.history (index c) = s.history (index c) :=
    (congrArg Prod.fst hbefore).trans (hp.history_of_mem hthere)
  have hvalues : s'.valueEntry (index c) = u'.valueEntry (index c) := congrArg Prod.snd hafter
  have hukeys : u.keys = t.keys := keys_of_definitions hudef
  have hkeys : s'.keys = t.keys := keys_of_definitions hl.definitions
  have hids : u.keyIDs = t.keyIDs := congrArg (fun k => k.rows.map Key.id) hukeys
  have hnumbered : Numbered (u.history (index c)) := hhistory ▸ hs.numbered _
  have hlatest : ((u.latest (index c)).map Revision.entries).getD [] = s.latestEntries (index c) := by
    rw [latest_of_numbered hnumbered, hhistory]
    rfl
  have hcells : ∀ keyID ∈ t.keyIDs, r.cell keyID = s'.published (index c) keyID := by
    intro keyID hkey
    rw [hadvance.cells keyID (hids ▸ hkey)]
    exact (published_congr (congrFun hvalues keyID)).symm
  refine ⟨r, ?_, ?_, hcells⟩
  · rw [show s'.history (index c) = u'.history (index c) from congrArg Prod.fst hafter,
      hadvance.history, hhistory]
  constructor
  case number => rw [hadvance.number, currentRevision_of_numbered hnumbered, hhistory]
  case schema => rw [hadvance.recorded, huschema, hl.schema]
  case published =>
    intro k hk
    have hkey : k.id ∈ t.keyIDs := mem_map_of_mem (hkeys ▸ hk)
    split
    next v hv =>
      rw [map_value_entry, hcells k.id hkey]
      unfold Tables.published
      rw [Option.map_map, hvalues]
      exact hadvance.moved k.id (hids ▸ hkey) v hv
    next hnone =>
      rw [hcells k.id hkey, hs.current]
      refine published_congr ?_
      rw [hvalues, hadvance.kept k.id hnone, ← hp.valueEntry_of_mem hthere hkey]
      exact congrFun (congrArg Prod.snd hbefore) k.id
  case declared => exact hkeys ▸ hukeys ▸ hadvance.declared
  case changes =>
    intro change
    rw [hadvance.changes, ← hlatest]
    exact mem_lineage (hlatest.symm ▸ nodup_latestEntries hs _) change
  case once =>
    rw [hadvance.changes]
    exact nodup_lineage (hlatest.symm ▸ nodup_latestEntries hs _) hadvance.nodup
  case meets => exact hkeys ▸ hukeys ▸ hadvance.meets

/-- **After the definitions were prepared and environments materialized, everything is
coherent again.** The cells of an environment that was not materialized must not have
changed. -/
theorem coherent_committed (hs : s.Coherent P) (hp : Prepared P s n n t)
    (hl : Looped P f index versions l { t with schemaRevision := m } s')
    (hthere : ∀ c ∈ l, index c ∈ t.environmentIDs)
    (hquiet : ∀ env ∈ t.environmentIDs, env ∉ l.map index →
      ∀ keyID, t.valueEntry env keyID = s.valueEntry env keyID) : s'.Coherent P := by
  have henvs : s'.environmentIDs = t.environmentIDs := environmentIDs_of_definitions hl.definitions
  have hkeys : s'.keyIDs = t.keyIDs :=
    congrArg (fun k => k.rows.map Key.id) (keys_of_definitions hl.definitions)
  have hle : n ≤ s'.minted := hp.minted ▸ hl.minted
  have hminted : ∀ {kind id : String}, ((∃ i < s.minted, id = P.newID kind i) ∨
      ∃ i, s.minted ≤ i ∧ i < n ∧ id = P.newID kind i) → ∃ i < s'.minted, id = P.newID kind i := by
    rintro kind id (⟨i, hi, rfl⟩ | ⟨i, -, hi, rfl⟩)
    · exact ⟨i, hi.trans_le (hp.low.trans hle), rfl⟩
    · exact ⟨i, hi.trans_le hle, rfl⟩
  have hloop : ∀ env ∈ l.map index, env ∈ t.environmentIDs := by
    intro env henv
    obtain ⟨c, hc, rfl⟩ := mem_map.mp henv
    exact hthere c hc
  have hcells : ∀ v ∈ s'.values.rows, v.environmentID ∈ s'.environmentIDs ∧ v.keyID ∈ s'.keyIDs := by
    intro v hv
    rw [henvs, hkeys]
    rcases hl.values v hv with hv | ⟨henv, hkey⟩
    · exact hp.values_there v hv
    · exact ⟨hloop _ henv, hkey⟩
  have hrevisions : ∀ r ∈ s'.revisions, r.environmentID ∈ s'.environmentIDs := by
    intro r hr
    rw [henvs]
    rcases hl.revisions r hr with hr | ⟨henv, -⟩
    · exact hp.revisions_there r hr
    · exact hloop _ henv
  -- the history of an environment, by whether it was materialized
  have hround : ∀ env ∈ l.map index, ∃ r, s'.history env = r :: s.history env ∧
      r.number = (s.history env).length + 1 ∧
      ∀ keyID, r.cell keyID = s'.published env keyID := by
    intro env henv
    obtain ⟨c, hc, rfl⟩ := mem_map.mp henv
    obtain ⟨r, hhistory, hnext, hlive⟩ := next_committed hs hp hl hc (hthere c hc)
    refine ⟨r, hhistory, hnext.number, fun keyID => ?_⟩
    by_cases hkey : keyID ∈ t.keyIDs
    · exact hlive keyID hkey
    · unfold Tables.published
      rw [valueEntry_eq_none hcells (.inr (hkeys ▸ hkey)), cell_eq_none]
      · rfl
      · rintro e he rfl
        obtain ⟨k, hk, hid, -⟩ := hnext.declared e he
        exact hkey (hkeys ▸ hid ▸ mem_map_of_mem hk)
  have hstay : ∀ env ∈ t.environmentIDs, env ∉ l.map index → s'.history env = s.history env :=
    fun env henv hnot => (congrArg Prod.fst (hl.others env hnot)).trans (hp.history_of_mem henv)
  constructor
  case normal => exact hl.normal
  case environments =>
    intro id hid
    exact hminted ((hp.environments id (henvs ▸ hid)).imp_left (hs.environments id))
  case keys =>
    intro id hid
    exact hminted ((hp.keys id (hkeys ▸ hid)).imp_left (hs.keys id))
  case cells => exact hcells
  case drafts => exact fun d hd => henvs ▸ (hp.drafts d (hl.drafts d hd)).2
  case revisions => exact hrevisions
  case nodup =>
    intro r hr
    rcases hl.revisions r hr with hr | ⟨-, hnodup⟩
    · have hr : r ∈ t.revisions := hr
      rw [hp.revisions] at hr
      exact hs.nodup r (mem_filter.mp hr).1
    · exact hnodup
  case numbered =>
    intro env
    by_cases henv : env ∈ t.environmentIDs
    · by_cases hmem : env ∈ l.map index
      · obtain ⟨r, hhistory, hnumber, -⟩ := hround env hmem
        rw [hhistory]
        exact numbered_cons.mpr ⟨hnumber, hs.numbered env⟩
      · rw [hstay env henv hmem]
        exact hs.numbered env
    · rw [history_eq_nil hrevisions (henvs ▸ henv)]
      exact numbered_nil
  case current =>
    intro env keyID
    by_cases henv : env ∈ t.environmentIDs
    · by_cases hmem : env ∈ l.map index
      · obtain ⟨r, hhistory, -, hcell⟩ := hround env hmem
        unfold Tables.delivered
        rw [hhistory]
        exact hcell keyID
      · rw [delivered_congr (hstay env henv hmem), hs.current env keyID]
        refine (published_congr ?_).symm
        exact (congrFun (congrArg Prod.snd (hl.others env hmem)) keyID).trans
          (hquiet env henv hmem keyID)
    · unfold Tables.delivered Tables.published
      rw [history_eq_nil hrevisions (henvs ▸ henv), valueEntry_eq_none hcells (.inl (henvs ▸ henv))]
      rfl

/-- **Every history continues.** -/
theorem continues_committed {sel : String → String → Option (Option String)} (hs : s.Coherent P)
    (hp : Prepared P s n n t) (hl : Looped P f index versions l { t with schemaRevision := m } s')
    (hthere : ∀ c ∈ l, index c ∈ t.environmentIDs) (hsel : ∀ c ∈ l, versions c = sel (index c))
    (env : String) : Continues s s' (sel env) env := by
  have henvs : s'.environmentIDs = t.environmentIDs := environmentIDs_of_definitions hl.definitions
  by_cases hmem : env ∈ l.map index
  · obtain ⟨c, hc, rfl⟩ := mem_map.mp hmem
    obtain ⟨r, hhistory, hnext, -⟩ := next_committed hs hp hl hc (hthere c hc)
    exact .published r hhistory (hsel c hc ▸ hnext)
  · have hhistory : s'.history env = t.history env := congrArg Prod.fst (hl.others env hmem)
    by_cases henv : env ∈ t.environmentIDs
    · exact .same (hhistory.trans (hp.history_of_mem henv))
    · exact .deleted (henvs ▸ henv) (hhistory.trans (history_eq_nil hp.revisions_there henv))

end Committed

/-! ## Transaction by transaction -/

/-- **The versions a transaction publishes** for a key in an environment: the drafts that
were selected or closed in, or the values that were written directly, in normal form. -/
def Op.versions (P : Platform) (s : Tables) (op : Op) (env keyID : String) :
    Option (Option String) :=
  match op with
  | .publish versionIDs => ((selectDrafts s versionIDs).find? fun d =>
      d.environmentID = env ∧ d.keyID = keyID).map Draft.value
  | .writeValues writes => ((writes.find? fun w => w.1 = env).bind fun w =>
      lastWrite w.2 keyID).map fun v => some (P.normalize v)
  | .createEnvironment _ cloned =>
    if env = P.newID "env" s.minted then
      (lastWrite cloned keyID).map fun v => some (P.normalize v)
    else none
  | _ => none

/-- **What a transaction that commits keeps and does.** The last part says what a schema
revision stands for: the definitions do not change without it. -/
structure Commits (P : Platform) (s s' : Tables)
    (versions : String → String → Option (Option String)) : Prop where
  coherent : s'.Coherent P
  continues : ∀ env, Continues s s' (versions env) env
  schema : s'.schemaRevision = s.schemaRevision + 1 ∨
    (s'.schemaRevision = s.schemaRevision ∧ s'.definitions = s.definitions)

section Transactions

variable {n : ℕ} {versions : String → String → Option (Option String)}

/-- The drafts change. -/
structure Staged (P : Platform) (s t : Tables) : Prop where
  frame : t = { s with drafts := t.drafts, minted := t.minted }
  minted : s.minted ≤ t.minted
  drafts : ∀ d ∈ t.drafts.rows, d.environmentID ∈ s.environmentIDs ∧
    ∀ v ∈ d.value, P.normalize v = v

theorem Staged.stageDraft (h : Staged P s t) (henv : env ∈ s.environmentIDs) {owner : String}
    {value : Option String} (hvalue : ∀ v ∈ value, P.normalize v = v) (secret : Bool) :
    Staged P s (stageDraft P t env keyID owner value secret) := by
  refine ⟨?_, h.minted.trans (Nat.le_succ _), fun d hd => ?_⟩
  · unfold Catalogue.stageDraft
    rw [h.frame]
  · rcases Table.Keyed.mem_put.mp hd with rfl | ⟨hd, -⟩
    · exact ⟨henv, hvalue⟩
    · exact h.drafts d (Table.Keyed.mem_delete.mp hd).1

/-- The history of an environment after a payload was collected. -/
theorem history_collect (s : Tables) (env : String) (number : ℕ) (e : String) : { s with
      revisions := Table.update (fun r => r.environmentID = env && r.number = number)
        Revision.collect s.revisions }.history e =
      Table.update (fun r => e = env && r.number = number) Revision.collect (s.history e) := by
  refine (Table.filter_update ?_).trans (Table.update_congr fun r hr => ?_)
  · exact fun _ => rfl
  have hre : r.environmentID = e := of_decide_eq_true (mem_filter.mp hr).2
  rw [hre]

variable {number : ℕ}

/-- The latest revision is not the one that is collected. -/
theorem head_collect (hnum : Numbered (s.history env)) (hne : number ≠ currentRevision s env) :
    (Table.update (fun r => r.number = number) Revision.collect (s.history env)).head? =
      (s.history env).head? := by
  rw [currentRevision_of_numbered hnum] at hne
  cases hh : s.history env with
  | nil => rfl
  | cons r rest =>
    rw [hh] at hnum hne
    show some (if decide (r.number = number) = true then r.collect else r) = some r
    rw [if_neg]
    rw [decide_eq_true_iff, (numbered_cons.mp hnum).1]
    exact fun heq => hne heq.symm

variable (hs : s.Coherent P)

include hs

theorem commits_refl : Commits P s s versions :=
  ⟨hs, fun _ => .same rfl, .inr ⟨rfl, rfl⟩⟩

/-- The definitions change, and every environment is materialized. -/
theorem commits_fanOut (hp : Prepared P s n n t)
    (h : fanOut P t.bumpSchemaRevision = .ok s') : Commits P s s' fun _ _ => none := by
  have hloop : Looped P (republish P) id (fun _ _ => none) t.environmentIDs
      { t with schemaRevision := t.schemaRevision + 1 } s' := by
    have ht := hp.normal hs.normal
    refine looped_foldlM (fun u c u' hu hround => ⟨_, advance_materialize hu ?_ hround⟩) ?_
      ⟨ht.values, ht.drafts, ht.entries⟩ h
    · exact fun _ hd => absurd hd not_mem_nil
    · rw [map_id]
      exact t.environments.ids_nodup
  refine ⟨coherent_committed hs hp hloop (fun _ hc => hc) ?_,
    continues_committed hs hp hloop (fun _ hc => hc) fun _ _ => rfl, .inl ?_⟩
  · intro env henv hnot
    rw [map_id] at hnot
    exact absurd henv hnot
  · rw [hloop.schema]
    exact congrArg (· + 1) hp.schema

/-- The definitions change, and no cell with them. -/
theorem commits_quiet (hp : Prepared P s n n t)
    (hvalues : ∀ env ∈ t.environmentIDs, ∀ keyID, t.valueEntry env keyID = s.valueEntry env keyID) :
    Commits P s t.bumpSchemaRevision fun _ _ => none := by
  have ht := hp.normal hs.normal
  have hloop : Looped P (republish P) id (fun _ _ => none) []
      { t with schemaRevision := t.schemaRevision + 1 } t.bumpSchemaRevision :=
    looped_nil ⟨ht.values, ht.drafts, ht.entries⟩
  exact ⟨coherent_committed hs hp hloop nofun fun env henv _ => hvalues env henv,
    continues_committed hs hp hloop nofun fun _ _ => rfl,
    .inl (congrArg (· + 1) hp.schema)⟩

theorem commits_staged (h : Staged P s t) : Commits P s t versions := by
  have hcoherent : t.Coherent P := by
    rw [h.frame]
    exact { hs with
      normal := ⟨hs.normal.values, fun d hd => (h.drafts d hd).2, hs.normal.entries⟩
      environments := fun id hid => (hs.environments id hid).imp
        fun i hi => ⟨hi.1.trans_le h.minted, hi.2⟩
      keys := fun id hid => (hs.keys id hid).imp fun i hi => ⟨hi.1.trans_le h.minted, hi.2⟩
      drafts := fun d hd => (h.drafts d hd).1 }
  refine ⟨hcoherent, fun env => .same ?_, .inr ⟨?_, ?_⟩⟩
  · rw [h.frame]
    rfl
  · rw [h.frame]
  · rw [h.frame]
    rfl

theorem Tables.Coherent.staged : Staged P s s :=
  ⟨rfl, le_rfl, fun d hd => ⟨hs.drafts d hd, hs.normal.drafts d hd⟩⟩

theorem staged_restoreKeys {target : Revision} (htarget : target ∈ s.history env)
    (owner : String) (keys : List Key) :
    ∀ t, Staged P s t → Staged P s (keys.foldl (restoreKey P env owner target) t) := by
  obtain ⟨hmem, hd⟩ := mem_filter.mp htarget
  have henv : env ∈ s.environmentIDs := of_decide_eq_true hd ▸ hs.revisions target hmem
  induction keys with
  | nil => exact fun _ h => h
  | cons k keys ih =>
    intro t h
    rw [foldl_cons]
    refine ih _ ?_
    unfold restoreKey
    dsimp only
    split
    · exact h
    · refine h.stageDraft henv (fun v hv => ?_) _
      obtain ⟨e, he, rfl⟩ := Option.map_eq_some_iff.mp hv
      exact hs.normal.entries target hmem e (mem_of_find?_eq_some he)

/-! ### Collected payloads -/

/-- An old payload is collected. -/
theorem commits_collectPayload
    (h : collectPayload s env number = .ok s') : Commits P s s' versions := by
  unfold collectPayload at h
  obtain ⟨u, hne, h⟩ := bind_ok h
  have hne := ensured hne
  obtain rfl : _ = s' := Except.ok.inj h
  have hhistory := history_collect s env number
  -- every row is one of the old ones, or one of them without its entries
  have hrow : ∀ r ∈ Table.update (fun r => r.environmentID = env && r.number = number)
      Revision.collect s.revisions, ∃ r₀ ∈ s.revisions, r.environmentID = r₀.environmentID ∧
        (r.entries = r₀.entries ∨ r.entries = []) := by
    intro r hr
    rcases Table.mem_update.mp hr with ⟨r₀, hr₀, -, rfl⟩ | ⟨hr, -⟩
    · exact ⟨r₀, hr₀, rfl, .inr rfl⟩
    · exact ⟨r, hr, rfl, .inl rfl⟩
  refine ⟨?_, fun e => ?_, .inr ⟨rfl, rfl⟩⟩
  · constructor
    case normal =>
      refine ⟨hs.normal.values, hs.normal.drafts, fun r hr e he => ?_⟩
      obtain ⟨r₀, hr₀, -, hentries | hentries⟩ := hrow r hr
      · exact hs.normal.entries r₀ hr₀ e (hentries ▸ he)
      · rw [hentries] at he
        cases he
    case environments => exact hs.environments
    case keys => exact hs.keys
    case cells => exact hs.cells
    case drafts => exact hs.drafts
    case revisions =>
      intro r hr
      obtain ⟨r₀, hr₀, henv, -⟩ := hrow r hr
      exact henv ▸ hs.revisions r₀ hr₀
    case nodup =>
      intro r hr
      obtain ⟨r₀, hr₀, -, hentries | hentries⟩ := hrow r hr
      · exact hentries ▸ hs.nodup r₀ hr₀
      · rw [hentries]
        exact nodup_nil
    case numbered =>
      intro e
      have hnum := hs.numbered e
      unfold Numbered at hnum ⊢
      have hnumber : ∀ r : Revision, r.collect.number = r.number := fun _ => rfl
      rw [hhistory e, Table.map_update hnumber, hnum, Table.update, length_map]
    case current =>
      intro e keyID
      refine Eq.trans ?_ (hs.current e keyID)
      unfold Tables.delivered
      rw [hhistory e]
      by_cases he : e = env
      · subst he
        simp only [decide_true, Bool.true_and]
        rw [head_collect (hs.numbered e) hne]
      · rw [Table.update_eq_self fun r _ => by simp [he]]
  · by_cases he : e = env
    · subst he
      refine .collected number hne ?_
      rw [hhistory e]
      simp only [decide_true, Bool.true_and]
    · refine .same ?_
      rw [hhistory e, Table.update_eq_self fun r _ => by simp [he]]

/-! ### Values -/

variable {admitted : Except ServiceError Unit}

theorem commits_createEnvironment {cloned : List (String × String)}
    (h : createEnvironment P admitted s name cloned = .ok s') :
    Commits P s s' ((Op.createEnvironment name cloned).versions P s) := by
  obtain ⟨t, hcreate, hdeliver⟩ := createEnvironment_committed h
  obtain ⟨environments, rfl, hrows⟩ := createEnvironment_eq_ok hcreate
  have hp : Prepared P s (s.minted + 1) (s.minted + 1)
      { s with environments, minted := s.minted + 1 } :=
    ((hs.prepared.mono (Nat.le_succ _)).newEnvironment hs le_rfl (Nat.lt_succ_self _) rfl
      hrows).mint (Nat.le_succ _) le_rfl
  have hthere : P.newID "env" s.minted ∈ environments.rows.map Entity.id := by
    rw [hrows]
    exact mem_cons_self
  have hloop : Looped P (fun t c => deliver P t c cloned) id
      (fun _ keyID => (lastWrite cloned keyID).map fun v => some (P.normalize v))
      [P.newID "env" s.minted]
      { s with environments, minted := s.minted + 1, schemaRevision := s.schemaRevision + 1 } s' := by
    have hnormal := hs.normal
    refine looped_foldlM (fun u c u' hu hround => (advance_deliver hu hround).2)
      (nodup_singleton _) ⟨hnormal.values, hnormal.drafts, hnormal.entries⟩ ?_
    rw [foldlM_cons]
    exact (Tx.except_bind_eq_ok _ _ _).mpr ⟨s', hdeliver, rfl⟩
  have hin : ∀ c ∈ [P.newID "env" s.minted], id c ∈ environments.rows.map Entity.id := by
    intro c hc
    rw [mem_singleton.mp hc]
    exact hthere
  refine ⟨coherent_committed hs hp hloop hin fun _ _ _ _ => rfl,
    continues_committed hs hp hloop hin fun c hc => ?_, .inl hloop.schema⟩
  funext keyID
  rw [mem_singleton.mp hc]
  exact (if_pos rfl).symm

theorem commits_publish {versionIDs : List String} (h : publish P admitted s versionIDs = .ok s') :
    Commits P s s' ((Op.publish versionIDs).versions P s) := by
  unfold publish at h
  replace h := skip (skip (skip h))
  have hselected : ∀ d ∈ selectDrafts s versionIDs, d ∈ s.drafts.rows :=
    fun d hd => (mem_filter.mp hd).1
  have hloop : Looped P (publishEnvironment P (selectDrafts s versionIDs)) id
      ((Op.publish versionIDs).versions P s)
      ((selectDrafts s versionIDs).map Draft.environmentID).dedup s s' := by
    refine looped_foldlM (fun u c u' hu hround => advance_publishEnvironment hu ?_ hround) ?_
      hs.normal h
    · exact fun d hd => hs.normal.drafts d (hselected d hd)
    · rw [map_id]
      exact nodup_dedup _
  have hin : ∀ c ∈ ((selectDrafts s versionIDs).map Draft.environmentID).dedup,
      id c ∈ s.environmentIDs := by
    intro c hc
    obtain ⟨d, hd, rfl⟩ := mem_map.mp (mem_dedup.mp hc)
    exact hs.drafts d (hselected d hd)
  exact ⟨coherent_committed hs hs.prepared hloop hin fun _ _ _ _ => rfl,
    continues_committed hs hs.prepared hloop hin fun _ _ => rfl,
    .inr ⟨hloop.schema, hloop.definitions⟩⟩

theorem commits_writeValues {writes : List (String × List (String × String))}
    (h : writeValues P admitted s writes = .ok s') :
    Commits P s s' ((Op.writeValues writes).versions P s) := by
  unfold writeValues at h
  replace h := skip h
  obtain ⟨u, hnodup, h⟩ := bind_ok h
  have hnodup := ensured hnodup
  have hloop : Looped P (fun s w => deliver P s w.1 w.2) Prod.fst
      (fun w keyID => (lastWrite w.2 keyID).map fun v => some (P.normalize v)) writes s s' :=
    looped_foldlM (fun u c u' hu hround => (advance_deliver hu hround).2) hnodup hs.normal h
  have hin : ∀ w ∈ writes, w.1 ∈ s.environmentIDs := by
    intro w hw
    obtain ⟨u, u', r, hround, -, hdef, -⟩ := hloop.rounds w hw
    rw [← environmentIDs_of_definitions hdef]
    obtain ⟨hthere, -⟩ := checked hround
    exact hthere
  refine ⟨coherent_committed hs hs.prepared hloop hin fun _ _ _ _ => rfl,
    continues_committed hs hs.prepared hloop hin fun w hw => ?_,
    .inr ⟨hloop.schema, hloop.definitions⟩⟩
  funext keyID
  have hfind : (writes.find? fun w' => w'.1 = w.1) = some w := by
    have hmap := find?_filterMap (f := some)
      (fun a b hab => congrArg Prod.fst (Option.some.inj hab).symm) hnodup hw
    rwa [filterMap_some] at hmap
  show _ = ((writes.find? fun w' => w'.1 = w.1).bind fun w' => lastWrite w'.2 keyID).map _
  rw [hfind]
  rfl

/-! ### All of them -/

/-- **What every transaction keeps and does.** -/
theorem commits_transact {call : Call} (h : transact P C s call = .ok s') :
    Commits P s s' (call.op.versions P s) := by
  obtain ⟨op, around, admitted⟩ := call
  cases op with
  | createKey spec =>
    obtain ⟨-, -, t, hcreate, hfan⟩ := createKey_committed h
    obtain ⟨-, keys, rfl, hrows⟩ := createKey_eq_ok hcreate
    exact commits_fanOut hs (((hs.prepared.mono (Nat.le_succ _)).newKey hs le_rfl
      (Nat.lt_succ_self _) rfl hrows).mint (Nat.le_succ _) le_rfl) hfan
  | renameKey id name =>
    obtain ⟨t, hrename, hfan⟩ := renameKey_committed h
    exact commits_fanOut hs (prepared_renameKey hs.prepared hrename) hfan
  | updateMetadata id folderPath description deprecated deprecationNote =>
    obtain rfl := updateMetadata_committed h
    exact commits_quiet hs (prepared_updateKeys hs.prepared) fun _ _ _ => rfl
  | updateDeclaration id declaration rules =>
    obtain ⟨before, -, -, -, rfl | ⟨t, hwrite, hfan⟩⟩ := updateDeclaration_committed h
    · exact commits_refl hs
    · exact commits_fanOut hs (prepared_writeRules hs.prepared hwrite) hfan
  | reclassify id classification =>
    exact commits_fanOut hs (prepared_updateKeys hs.prepared) (reclassify_committed h)
  | setGroup id groupID =>
    obtain rfl | ⟨before, t, -, -, hset, hfan⟩ := setGroup_committed h
    · exact commits_refl hs
    · exact commits_fanOut hs (prepared_setGroup hs.prepared hset) hfan
  | deleteKey id =>
    obtain ⟨t, hdelete, hfan⟩ := deleteKey_committed h
    exact commits_fanOut hs (prepared_deleteKey hs.prepared hdelete) hfan
  | createGroup name =>
    obtain ⟨t, hcreate, rfl⟩ := createGroup_committed h
    have hp := prepared_createGroup (hs.prepared.mono (Nat.le_succ _)) hcreate
    obtain ⟨groups, rfl, -⟩ := createGroup_eq_ok hcreate
    exact commits_quiet hs (hp.mint (Nat.le_succ _) le_rfl) fun _ _ _ => rfl
  | renameGroup id name =>
    obtain ⟨t, hrename, rfl⟩ := renameGroup_committed h
    have hp := prepared_renameGroup hs.prepared hrename
    obtain ⟨groups, rfl, -⟩ := renameGroup_eq_ok hrename
    exact commits_quiet hs hp fun _ _ _ => rfl
  | deleteGroup id =>
    obtain ⟨t, hdelete, hfan⟩ := deleteGroup_committed h
    exact commits_fanOut hs (prepared_deleteGroup hs.prepared hdelete) hfan
  | createEnvironment name cloned => exact commits_createEnvironment hs h
  | renameEnvironment id name =>
    obtain ⟨t, hrename, rfl⟩ := renameEnvironment_committed h
    have hp := prepared_renameEnvironment hs.prepared hrename
    obtain ⟨environments, rfl, -⟩ := renameEnvironment_eq_ok hrename
    exact commits_quiet hs hp fun _ _ _ => rfl
  | deleteEnvironment env =>
    obtain ⟨t, hdelete, rfl⟩ := deleteEnvironment_committed h
    have hp := prepared_deleteEnvironment hs.prepared hdelete
    obtain ⟨-, -, rfl⟩ := deleteEnvironmentRow_eq_ok hdelete
    -- an environment that is still there has its cells
    refine commits_quiet hs hp fun e he keyID => Table.Keyed.find?_delete_of_not fun v hv => ?_
    obtain ⟨rfl, -⟩ := Prod.mk.inj hv
    rw [Tables.environmentIDs, environmentIDs_delete] at he
    exact decide_eq_false (of_decide_eq_true (mem_filter.mp he).2)
  | applyBundle raw allowDelete =>
    obtain ⟨b, -, h⟩ := bind_ok h
    obtain rfl | ⟨res, t, -, hexecute, hfan⟩ := applyBundle_committed h
    · exact commits_refl hs
    · obtain ⟨n, hp⟩ := prepared_executeResolution hs hexecute
      exact commits_fanOut hs hp hfan
  | stage env keyID owner value =>
    simp only [transact, stage] at h
    split at h
    next => cases h
    next =>
      replace h := skip h
      obtain ⟨u, henv, h⟩ := bind_ok h
      cases h
      refine commits_staged hs (hs.staged.stageDraft (ensured henv) ?_ _)
      intro v hv
      obtain ⟨w, -, rfl⟩ := Option.map_eq_some_iff.mp hv
      exact P.normalize_normalize w
  | discard versionID =>
    replace h := skip h
    cases h
    exact commits_staged hs ⟨rfl, le_rfl, fun d hd =>
      hs.staged.drafts d (Table.Keyed.mem_delete.mp hd).1⟩
  | restore env owner number keyIDs =>
    simp only [transact, restore] at h
    split at h
    case h_2 => cases h
    case h_1 latest target hlatest htarget =>
      replace h := skip (skip h)
      split at h
      case isTrue =>
        cases h
        exact commits_refl hs
      case isFalse =>
        cases h
        exact commits_staged hs (staged_restoreKeys hs (mem_of_find?_eq_some htarget) owner _ s
          hs.staged)
  | publish versionIDs => exact commits_publish hs h
  | writeValues writes => exact commits_writeValues hs h
  | collectPayload env number => exact commits_collectPayload hs h

end Transactions

/-! ## Every run -/

theorem coherent_exec (P : Platform) (C : BundleCodec) (calls : List Call) :
    (Tx.exec (step P C) Tables.empty calls).Coherent P :=
  Tx.exec_invariant (Tables.Coherent P) (fun _ _ hs =>
    Tx.commit_invariant (Tables.Coherent P) hs fun _ h => (commits_transact hs h).coherent)
    calls Tables.empty coherent_empty

section Runs

variable (P : Platform) (C : BundleCodec) (calls : List Call) (env : String)

/-- The tables after a run of transactions. -/
def after : Tables := Tx.exec (step P C) Tables.empty calls

/-- **References stay good.** After every run the groups and presence rules of a key name
environments and groups that exist, a published cell has its environment and its key, and a draft
and a revision have their environment, whatever was deleted or applied in between. -/
theorem references_stay_good : (after P C calls).Integrity ∧
    (∀ v ∈ (after P C calls).values.rows, v.environmentID ∈ (after P C calls).environmentIDs ∧
      v.keyID ∈ (after P C calls).keyIDs) ∧
    (∀ d ∈ (after P C calls).drafts.rows, d.environmentID ∈ (after P C calls).environmentIDs) ∧
    ∀ r ∈ (after P C calls).revisions, r.environmentID ∈ (after P C calls).environmentIDs := by
  have hs : (after P C calls).Coherent P := coherent_exec P C calls
  refine ⟨?_, hs.cells, hs.drafts, hs.revisions⟩
  exact Tx.exec_invariant Tables.Integrity (fun _ _ hi =>
    Tx.commit_invariant Tables.Integrity hi fun _ h => integrity_transact h hi)
    calls Tables.empty nofun

/-- A history grew: what it held is still there in its order, some payloads collected. -/
def Extends (h h' : List Revision) : Prop :=
  ∃ new kept, h' = new ++ kept ∧ Forall₂ (fun r' r => r' = r ∨ r' = r.collect) kept h

variable {env} in
theorem Extends.continues {h : List Revision} {versions : String → Option (Option String)}
    (hext : Extends h (s.history env)) (hstep : Continues s s' versions env) :
    env ∉ s'.environmentIDs ∨ Extends h (s'.history env) := by
  obtain ⟨new, kept, hh, hkept⟩ := hext
  cases hstep with
  | same hsame => exact .inr ⟨new, kept, hsame.trans hh, hkept⟩
  | deleted henv _ => exact .inl henv
  | published r hr _ => exact .inr ⟨r :: new, kept, by rw [hr, hh, cons_append], hkept⟩
  | collected number _ hcollected =>
    refine .inr ⟨_, _, by rw [hcollected, hh]; exact map_append, ?_⟩
    refine forall₂_map_left_iff.mpr (hkept.imp fun r' r hr => ?_)
    -- collecting a payload twice is collecting it once
    rcases hr with rfl | rfl <;> split <;> simp [Revision.collect]

/-- **Histories only grow.** Whatever runs later, the revisions an environment had stay at the end
of its history, unchanged but for collected payloads, until the environment is deleted. -/
theorem histories_grow (later : List Call) :
    (∃ earlier, earlier <+: later ∧ env ∉ (after P C (calls ++ earlier)).environmentIDs) ∨
    Extends ((after P C calls).history env) ((after P C (calls ++ later)).history env) := by
  induction later using List.reverseRecOn with
  | nil =>
    rw [append_nil]
    exact .inr ⟨[], _, rfl, forall₂_same.mpr fun r _ => .inl rfl⟩
  | append_singleton later call ih =>
    rcases ih with ⟨earlier, hle, hgone⟩ | hext
    · exact .inl ⟨earlier, hle.trans (prefix_append _ _), hgone⟩
    have hs : (after P C (calls ++ later)).Coherent P := coherent_exec P C (calls ++ later)
    have hlast : after P C (calls ++ (later ++ [call])) =
        step P C (after P C (calls ++ later)) call := by
      rw [← append_assoc]
      exact Tx.exec_append _ _ _
    have hstep : Commits P _ (step P C (after P C (calls ++ later)) call) (call.op.versions P _) :=
      Tx.commit_invariant (fun s' => Commits P _ s' _) (commits_refl hs) fun _ h =>
        commits_transact hs h
    rw [← hlast] at hstep
    rcases hext.continues (hstep.continues env) with hgone | hgrown
    · exact .inl ⟨later ++ [call], prefix_refl _, hgone⟩
    · exact .inr hgrown

end Runs

end Hikyo.Catalogue
