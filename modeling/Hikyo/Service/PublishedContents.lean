import Hikyo.Service.CatalogueIntegrity

/-!
# What one materialization publishes

`materialize` checks published cells and drafts, moves the cells and adds a revision. What was
checked, what is live and what is delivered are three things in the source. They agree.

`Advance` says what the materialization of one environment does, in terms that do not mention the
loop over the cells. A key for which a version is published has the value of the version, or none;
every other key has the row it had (`moved`, `kept`). The revision holds the live cells of the
declared keys (`cells`), it meets the rules of the keys and of their groups (`meets`), and nothing
happens to another environment (`others`). `advance_materialize` is that statement for
`materialize`; `advance_deliver` and `advance_publishEnvironment` are the two ways in which
versions get there.

The value of a draft goes to the revision as it is and to the published row in normal
form. The two agree because drafts are in normal form when they are staged.
-/

namespace Hikyo.Catalogue

open List
open Tx (bind_ok skip ensured)

variable {P : Platform} {s s' t : Tables} {env keyID : String}

/-! ## Cells -/

/-- The value of a cell, and the row it comes from. -/
def Tables.published (s : Tables) (env keyID : String) : Option (String × String) :=
  (s.valueEntry env keyID).map fun v => (v.value, v.id)

theorem valueEntry_eq_find? (s : Tables) (env keyID : String) :
    s.valueEntry env keyID = s.values.find? (env, keyID) := rfl

/-- The entry of a key in a revision. -/
def Revision.entry (r : Revision) (keyID : String) : Option Entry :=
  r.entries.find? fun e => e.keyID = keyID

/-- The value a revision delivers for a key, and the row it comes from. -/
def Revision.cell (r : Revision) (keyID : String) : Option (String × String) :=
  (r.entry keyID).map fun e => (e.value, e.valueEntryID)

/-- The identities of the declared keys. -/
def Tables.keyIDs (s : Tables) : List String := s.keys.rows.map Key.id

/-- The value of a resolved cell, and the row it comes from. -/
def ResolvedCell.face (cell : ResolvedCell) : Option (String × String) :=
  cell.value.map fun value => (value, cell.entryID)

/-! ## Moving the cells -/

/-- **What moving the cells leaves alone**: everything but the rows of the keys that a
version is published for. -/
structure Moved (P : Platform) (env : String) (applies : List Draft) (s : Tables)
    (cells : List ResolvedCell) (out : Tables × List ResolvedCell) : Prop where
  frame : out.1 = { s with values := out.1.values, minted := out.1.minted }
  minted : s.minted ≤ out.1.minted
  checked : out.2.map (fun cell => (cell.key, cell.value)) =
    cells.map fun cell => (cell.key, cell.value)
  kept : ∀ env' keyID, env' ≠ env ∨ keyID ∉ cells.map (fun cell => cell.key.id) ∨
    applyFor applies keyID = none → out.1.valueEntry env' keyID = s.valueEntry env' keyID
  rows : ∀ v ∈ out.1.values.rows, v ∈ s.values.rows ∨
    (v.environmentID = env ∧ v.keyID ∈ cells.map (fun cell => cell.key.id) ∧
      P.normalize v.value = v.value)

variable {applies : List Draft} {cell : ResolvedCell} {cells : List ResolvedCell}

/-- A cell that is not the first of the list. -/
theorem Moved.cons {cell' : ResolvedCell}
    {out : Tables × List ResolvedCell} (h : Moved P env applies t cells out)
    (hframe : t = { s with values := t.values, minted := t.minted }) (hminted : s.minted ≤ t.minted)
    (hface : cell'.key = cell.key ∧ cell'.value = cell.value)
    (hkept : ∀ env' keyID, env' ≠ env ∨ keyID ≠ cell.key.id ∨ applyFor applies keyID = none →
      t.valueEntry env' keyID = s.valueEntry env' keyID)
    (hrows : ∀ v ∈ t.values.rows, v ∈ s.values.rows ∨
      (v.environmentID = env ∧ v.keyID = cell.key.id ∧ P.normalize v.value = v.value)) :
    Moved P env applies s (cell :: cells) (out.1, cell' :: out.2) := by
  refine ⟨?_, hminted.trans h.minted, ?_, fun env' keyID hor => ?_, fun v hv => ?_⟩
  · rw [h.frame, hframe]
  · rw [map_cons, map_cons, h.checked, hface.1, hface.2]
  · rw [map_cons, mem_cons, not_or] at hor
    rw [h.kept env' keyID (hor.imp_right (Or.imp_left And.right))]
    exact hkept env' keyID (hor.imp_right (Or.imp_left And.left))
  · rcases h.rows v hv with hv | ⟨henv, hkey, hnormal⟩
    · rcases hrows v hv with hv | ⟨henv, hkey, hnormal⟩
      · exact .inl hv
      · exact .inr ⟨henv, hkey ▸ mem_cons_self, hnormal⟩
    · exact .inr ⟨henv, mem_cons_of_mem _ hkey, hnormal⟩

theorem moved_moveCells (applies : List Draft) (cells : List ResolvedCell) :
    ∀ s : Tables, Moved P env applies s cells (moveCells P env applies s cells) := by
  induction cells with
  | nil => exact fun s => ⟨rfl, le_rfl, rfl, fun _ _ _ => rfl, fun _ hv => .inl hv⟩
  | cons cell cells ih =>
    intro s
    unfold moveCells
    split
    next =>
      exact (ih s).cons rfl le_rfl ⟨rfl, rfl⟩ (fun _ _ _ => rfl) fun _ hv => .inl hv
    next d hd =>
      -- the cell that is written is the one of the key
      have hcell : ∀ env' keyID, env' ≠ env ∨ keyID ≠ cell.key.id ∨ applyFor applies keyID = none →
          (env', keyID) ≠ (env, cell.key.id) := by
        rintro env' keyID hor heq
        obtain ⟨rfl, rfl⟩ := Prod.mk.inj heq
        rcases hor with h | h | h
        · exact h rfl
        · exact h rfl
        · rw [hd] at h
          cases h
      split
      next =>
        refine (ih _).cons rfl le_rfl ⟨rfl, rfl⟩ (fun env' keyID hor => ?_)
          fun v hv => .inl (Table.Keyed.mem_delete.mp hv).1
        refine Table.Keyed.find?_delete_of_not fun v hv => decide_eq_false ?_
        rw [hv]
        exact hcell env' keyID hor
      next value _ =>
        refine (ih _).cons rfl (Nat.le_succ _) ⟨rfl, rfl⟩ (fun env' keyID hor => ?_) fun v hv => ?_
        · exact Table.Keyed.find?_put_of_ne (hcell env' keyID hor).symm
        · rcases Table.Keyed.mem_put.mp hv with rfl | ⟨hv, -⟩
          · exact .inr ⟨rfl, rfl, P.normalize_normalize value⟩
          · exact .inl hv

/-- **The cells that were moved are the live ones.** What is not published was read from
its row, and what is published is in normal form. -/
theorem face_moveCells (applies : List Draft) (cells : List ResolvedCell) :
    ∀ s : Tables, (cells.map fun cell => cell.key.id).Nodup →
      (∀ cell ∈ cells, applyFor applies cell.key.id = none →
        cell.face = s.published env cell.key.id) →
      (∀ cell ∈ cells, ∀ d, applyFor applies cell.key.id = some d →
        cell.value = d.value ∧ ∀ v ∈ d.value, P.normalize v = v) →
      ∀ cell ∈ (moveCells P env applies s cells).2,
        cell.face = (moveCells P env applies s cells).1.published env cell.key.id := by
  induction cells with
  | nil => exact nofun
  | cons cell cells ih =>
    intro s hnodup hread happly
    obtain ⟨hnot, hnodup⟩ := nodup_cons.mp hnodup
    have hread' := fun c hc => hread c (mem_cons_of_mem _ hc)
    have happly' := fun c hc => happly c (mem_cons_of_mem _ hc)
    -- the rest of the loop does not touch the cell of this key
    have hlater : ∀ t : Tables, (moveCells P env applies t cells).1.published env cell.key.id =
        t.published env cell.key.id := fun t =>
      congrArg (Option.map _) ((moved_moveCells applies cells t).kept env cell.key.id
        (.inr (.inl hnot)))
    -- and this round does not touch the cells of the later keys
    have hother : ∀ t : Tables,
        (∀ keyID, keyID ≠ cell.key.id → t.valueEntry env keyID = s.valueEntry env keyID) →
        ∀ c ∈ cells, applyFor applies c.key.id = none → c.face = t.published env c.key.id := by
      intro t ht c hc hnone
      rw [hread' c hc hnone]
      refine congrArg (Option.map _) (ht c.key.id ?_).symm
      exact fun heq => hnot (mem_map.mpr ⟨c, hc, heq⟩)
    unfold moveCells
    split
    next hnone =>
      intro c hc
      rcases mem_cons.mp hc with rfl | hc
      · exact (hread c mem_cons_self hnone).trans (hlater s).symm
      · exact ih s hnodup hread' happly' c hc
    next d hd =>
      obtain ⟨hvalue, hnormal⟩ := happly cell mem_cons_self d hd
      split
      next hnone =>
        intro c hc
        rcases mem_cons.mp hc with rfl | hc
        · refine Eq.trans ?_ (hlater _).symm
          unfold ResolvedCell.face Tables.published
          rw [hvalue, hnone, valueEntry_eq_find?,
            Table.Keyed.find?_delete_of fun v hv => decide_eq_true hv]
          rfl
        · refine ih _ hnodup (hother _ fun keyID hne => ?_) happly' c hc
          refine Table.Keyed.find?_delete_of_not fun v hv => decide_eq_false ?_
          rw [hv]
          exact fun heq => hne (Prod.mk.inj heq).2
      next value hsome =>
        intro c hc
        rcases mem_cons.mp hc with rfl | hc
        · refine Eq.trans ?_ (hlater _).symm
          unfold ResolvedCell.face Tables.published
          dsimp only
          rw [hvalue, hsome, valueEntry_eq_find?,
            show (env, cell.key.id) = ValueEntry.cell
              ⟨P.newID "val" s.minted, env, cell.key.id, P.normalize value⟩ from rfl,
            Table.Keyed.find?_put_self, Option.map_some, Option.map_some, hnormal value hsome]
        · refine ih _ hnodup (hother _ fun keyID hne => ?_) happly' c hc
          exact Table.Keyed.find?_put_of_ne fun heq => hne (Prod.mk.inj heq).2.symm

/-! ## The entries of a revision -/

/-- A lookup by identity among what the rows of a list deliver finds what the row with that
identity delivers. -/
theorem find?_filterMap {α β κ : Type} [DecidableEq κ] {f : α → Option β} {id : α → κ} {id' : β → κ}
    (hf : ∀ a b, f a = some b → id' b = id a) {l : List α} (hnodup : (l.map id).Nodup) {a : α}
    (ha : a ∈ l) : ((l.filterMap f).find? fun b => id' b = id a) = f a := by
  induction l with
  | nil => cases ha
  | cons x l ih =>
    obtain ⟨hnot, hnodup⟩ := nodup_cons.mp hnodup
    -- nothing that another row delivers has the identity
    have hmiss : ∀ y, (∀ z ∈ l, id z ≠ id y) → ((l.filterMap f).find? fun b => id' b = id y) = none := by
      intro y hy
      rw [find?_eq_none]
      intro b hb heq
      obtain ⟨z, hz, hzb⟩ := mem_filterMap.mp hb
      exact hy z hz ((hf z b hzb).symm.trans (of_decide_eq_true heq))
    have hx : ∀ z ∈ l, id z ≠ id x := fun z hz heq => hnot (mem_map.mpr ⟨z, hz, heq⟩)
    rcases mem_cons.mp ha with rfl | ha
    · cases hfa : f a with
      | none => rw [filterMap_cons_none hfa, hmiss a hx]
      | some b =>
        rw [filterMap_cons_some hfa, find?_cons_of_pos]
        exact decide_eq_true (hf a b hfa)
    · cases hfx : f x with
      | none => rw [filterMap_cons_none hfx, ih hnodup ha]
      | some b =>
        rw [filterMap_cons_some hfx, find?_cons_of_neg, ih hnodup ha]
        rw [decide_eq_true_iff, hf x b hfx]
        exact fun heq => hx a ha heq.symm

theorem keyID_of_entry? (cell : ResolvedCell) (e : Entry) (h : cell.entry? = some e) :
    e.keyID = cell.key.id := by
  obtain ⟨value, -, rfl⟩ := Option.map_eq_some_iff.mp h
  rfl

theorem map_entry? (cell : ResolvedCell) :
    cell.entry?.map (fun e => (e.value, e.valueEntryID)) = cell.face := by
  unfold ResolvedCell.entry? ResolvedCell.face
  rw [Option.map_map]
  rfl

theorem nodup_entries (hnodup : (cells.map fun cell => cell.key.id).Nodup) :
    ((cells.filterMap ResolvedCell.entry?).map Entry.keyID).Nodup := by
  have hsub : ((cells.filterMap ResolvedCell.entry?).map Entry.keyID).Sublist
      (cells.map fun cell => cell.key.id) := by
    clear hnodup
    induction cells with
    | nil => exact List.Sublist.slnil
    | cons cell cells ih =>
      cases h : cell.entry? with
      | none =>
        rw [filterMap_cons_none h]
        exact ih.cons _
      | some e =>
        rw [filterMap_cons_some h, map_cons, map_cons, keyID_of_entry? cell e h]
        exact ih.cons_cons _
  exact hnodup.sublist hsub

/-! ## The changes of a revision -/

/-- **A difference of two lists of entries**, on key names and on the rows the values come
from. -/
def Differs (before after : List Entry) (c : ChangedKey) : Prop :=
  match c.change with
  | .added => ∃ e ∈ after, e.keyID = c.keyID ∧ e.keyName = c.name ∧ ∀ p ∈ before, p.keyID ≠ c.keyID
  | .edited => ∃ e ∈ after, ∃ p ∈ before, e.keyID = c.keyID ∧ e.keyName = c.name ∧
      p.keyID = c.keyID ∧ (p.keyName ≠ e.keyName ∨ p.valueEntryID ≠ e.valueEntryID)
  | .removed => ∃ p ∈ before, p.keyID = c.keyID ∧ p.keyName = c.name ∧
      ∀ e ∈ after, e.keyID ≠ c.keyID

theorem changeOf_eq_some {before : List Entry} (hbefore : (before.map Entry.keyID).Nodup)
    {e : Entry} {c : ChangedKey} :
    changeOf before e = some c ↔ c.keyID = e.keyID ∧ c.name = e.keyName ∧
      ((c.change = .added ∧ ∀ p ∈ before, p.keyID ≠ e.keyID) ∨
        (c.change = .edited ∧ ∃ p ∈ before, p.keyID = e.keyID ∧
          (p.keyName ≠ e.keyName ∨ p.valueEntryID ≠ e.valueEntryID))) := by
  unfold changeOf
  split
  next hnone =>
    have hmiss : ∀ p ∈ before, p.keyID ≠ e.keyID := fun p hp heq =>
      find?_eq_none.mp hnone p hp (decide_eq_true heq)
    constructor
    · intro h
      cases h
      exact ⟨rfl, rfl, .inl ⟨rfl, hmiss⟩⟩
    · rintro ⟨hid, hname, ⟨hchange, -⟩ | ⟨-, p, hp, hpid, -⟩⟩
      · rw [← hid, ← hname, ← hchange]
      · exact absurd hpid (hmiss p hp)
  next prior hprior =>
    have hfound := find?_some hprior
    have hid' : prior.keyID = e.keyID := of_decide_eq_true hfound
    have hmem := mem_of_find?_eq_some hprior
    split
    case isTrue hdiff =>
      constructor
      · intro h
        cases h
        exact ⟨rfl, rfl, .inr ⟨rfl, prior, hmem, hid', hdiff⟩⟩
      · rintro ⟨hid, hname, ⟨-, hmiss⟩ | ⟨hchange, -⟩⟩
        · exact absurd hid' (hmiss prior hmem)
        · rw [← hid, ← hname, ← hchange]
    case isFalse hsame =>
      refine iff_of_false nofun ?_
      rintro ⟨-, -, ⟨-, hmiss⟩ | ⟨-, p, hp, hpid, hdiff⟩⟩
      · exact hmiss prior hmem hid'
      · rw [inj_on_of_nodup_map hbefore hp hmem (hpid.trans hid'.symm)] at hdiff
        exact hsame hdiff

variable {latest : Option Revision} {after : List Entry}

/-- **The changes of a revision are the differences from the revision before.** -/
theorem mem_lineage
    (hbefore : (((latest.map Revision.entries).getD []).map Entry.keyID).Nodup) (c : ChangedKey) :
    c ∈ (lineage latest after).2 ↔ Differs ((latest.map Revision.entries).getD []) after c := by
  obtain ⟨id, name, change⟩ := c
  unfold lineage
  rw [Table.mem_orderBy, mem_append, mem_filterMap, removedFrom, mem_map]
  simp only [changeOf_eq_some hbefore]
  unfold Differs
  cases change with
  | added =>
    constructor
    · rintro (⟨e, he, hid, hname, ⟨-, hmiss⟩ | ⟨hc, -⟩⟩ | ⟨p, -, hp⟩)
      · exact ⟨e, he, hid.symm, hname.symm, fun p hp => hid ▸ hmiss p hp⟩
      · cases hc
      · exact nomatch (ChangedKey.mk.inj hp).2.2
    · rintro ⟨e, he, hid, hname, hmiss⟩
      exact .inl ⟨e, he, hid.symm, hname.symm, .inl ⟨rfl, fun p hp => hid ▸ hmiss p hp⟩⟩
  | edited =>
    constructor
    · rintro (⟨e, he, hid, hname, ⟨hc, -⟩ | ⟨-, p, hp, hpid, hdiff⟩⟩ | ⟨p, -, hp⟩)
      · cases hc
      · exact ⟨e, he, p, hp, hid.symm, hname.symm, hpid.trans hid.symm, hdiff⟩
      · exact nomatch (ChangedKey.mk.inj hp).2.2
    · rintro ⟨e, he, p, hp, hid, hname, hpid, hdiff⟩
      exact .inl ⟨e, he, hid.symm, hname.symm, .inr ⟨rfl, p, hp, hpid.trans hid.symm, hdiff⟩⟩
  | removed =>
    constructor
    · rintro (⟨e, -, -, -, ⟨hc, -⟩ | ⟨hc, -⟩⟩ | ⟨p, hp, heq⟩)
      · cases hc
      · cases hc
      · obtain ⟨hp, hgone⟩ := mem_filter.mp hp
        obtain ⟨rfl, rfl, -⟩ := ChangedKey.mk.inj heq
        refine ⟨p, hp, rfl, rfl, fun e he hid => of_decide_eq_true hgone ?_⟩
        exact mem_map.mpr ⟨e, he, hid⟩
    · rintro ⟨p, hp, rfl, rfl, hgone⟩
      refine .inr ⟨p, mem_filter.mpr ⟨hp, decide_eq_true fun hmem => ?_⟩, rfl⟩
      obtain ⟨e, he, hid⟩ := mem_map.mp hmem
      exact hgone e he hid

/-- No key changes twice. -/
theorem nodup_lineage (hbefore : (((latest.map Revision.entries).getD []).map Entry.keyID).Nodup)
    (hafter : (after.map Entry.keyID).Nodup) :
    ((lineage latest after).2.map ChangedKey.keyID).Nodup := by
  unfold lineage
  dsimp only
  refine ((Table.perm_orderBy _ _).map ChangedKey.keyID).nodup_iff.mpr ?_
  rw [map_append, nodup_append]
  have hchanged : ∀ id ∈ (after.filterMap (changeOf ((latest.map Revision.entries).getD []))).map
      ChangedKey.keyID, id ∈ after.map Entry.keyID := by
    intro id hid
    obtain ⟨c, hc, rfl⟩ := mem_map.mp hid
    obtain ⟨e, he, hec⟩ := mem_filterMap.mp hc
    exact mem_map.mpr ⟨e, he, ((changeOf_eq_some hbefore).mp hec).1.symm⟩
  refine ⟨?_, ?_, ?_⟩
  · clear hchanged
    induction after with
    | nil => exact nodup_nil
    | cons e after ih =>
      obtain ⟨hnot, hafter⟩ := nodup_cons.mp hafter
      cases hc : changeOf ((latest.map Revision.entries).getD []) e with
      | none =>
        rw [filterMap_cons_none hc]
        exact ih hafter
      | some c =>
        rw [filterMap_cons_some hc, map_cons]
        refine nodup_cons.mpr ⟨fun hmem => hnot ?_, ih hafter⟩
        obtain ⟨c', hc', hid⟩ := mem_map.mp hmem
        obtain ⟨e', he', hec'⟩ := mem_filterMap.mp hc'
        refine mem_map.mpr ⟨e', he', ?_⟩
        rw [← ((changeOf_eq_some hbefore).mp hec').1, hid, ((changeOf_eq_some hbefore).mp hc).1]
  · unfold removedFrom
    rw [map_map]
    exact hbefore.sublist (filter_sublist.map _)
  · rintro id hid id' hid' rfl
    unfold removedFrom at hid'
    rw [map_map] at hid'
    obtain ⟨p, hp, rfl⟩ := mem_map.mp hid'
    exact of_decide_eq_true (mem_filter.mp hp).2 (hchanged _ hid)

/-! ## One environment advances -/

/-- **A revision meets the rules** of the keys in its environment, and the members of a key
group are delivered together or not at all. -/
structure Revision.Meets (r : Revision) (env : String) (keys : List Key) : Prop where
  required : ∀ k ∈ keys, k.rules.required.covers env = true → (r.entry k.id).isSome = true
  forbidden : ∀ k ∈ keys, k.rules.forbidden.covers env = true → (r.entry k.id).isSome = false
  groups : ∀ k ∈ keys, ∀ k' ∈ keys, k.groupID ≠ "" → k.groupID = k'.groupID →
    (r.entry k.id).isSome = (r.entry k'.id).isSome

/-- **All values are in normal form.** -/
structure Tables.Normal (P : Platform) (s : Tables) : Prop where
  values : ∀ v ∈ s.values.rows, P.normalize v.value = v.value
  drafts : ∀ d ∈ s.drafts.rows, ∀ v ∈ d.value, P.normalize v = v
  entries : ∀ r ∈ s.revisions, ∀ e ∈ r.entries, P.normalize e.value = e.value

/-- **One environment advances by the revision `r`**, with `versions` the values, or
absences, that are published for some of the keys. -/
structure Advance (P : Platform) (env : String) (versions : String → Option (Option String))
    (s s' : Tables) (r : Revision) : Prop where
  definitions : s'.definitions = s.definitions
  schema : s'.schemaRevision = s.schemaRevision
  minted : s.minted ≤ s'.minted
  drafts : ∀ d ∈ s'.drafts.rows, d ∈ s.drafts.rows
  revisions : s'.revisions = r :: s.revisions
  environment : r.environmentID = env
  number : r.number = currentRevision s env + 1
  recorded : r.schemaRevision = s.schemaRevision
  rows : ∀ v ∈ s'.values.rows, v ∈ s.values.rows ∨
    (v.environmentID = env ∧ v.keyID ∈ s.keyIDs ∧ P.normalize v.value = v.value)
  others : ∀ env' keyID, env' ≠ env → s'.valueEntry env' keyID = s.valueEntry env' keyID
  kept : ∀ keyID, versions keyID = none → s'.valueEntry env keyID = s.valueEntry env keyID
  moved : ∀ keyID ∈ s.keyIDs, ∀ v, versions keyID = some v →
    (s'.valueEntry env keyID).map ValueEntry.value = v
  cells : ∀ keyID ∈ s.keyIDs, r.cell keyID = s'.published env keyID
  declared : ∀ e ∈ r.entries, ∃ k ∈ s.keys.rows,
    e.keyID = k.id ∧ e.keyName = k.name ∧ e.classification = k.classification
  nodup : (r.entries.map Entry.keyID).Nodup
  normal : ∀ e ∈ r.entries, P.normalize e.value = e.value
  changes : r.changes = (lineage (s.latest env) r.entries).2
  meets : r.Meets env s.keys.rows

/-! ### The cells of a materialization -/

section Materialization

variable {applies : List Draft} {k : Key}

theorem key_resolveCell : (resolveCell s env applies k).key = k := by
  unfold resolveCell
  dsimp only
  split
  · rfl
  · rfl

theorem value_resolveCell_of_apply {d : Draft} (h : applyFor applies k.id = some d) :
    (resolveCell s env applies k).value = d.value := by
  unfold resolveCell
  rw [h]

theorem face_resolveCell_of_none (h : applyFor applies k.id = none) :
    (resolveCell s env applies k).face = s.published env k.id := by
  unfold resolveCell ResolvedCell.face Tables.published
  rw [h]
  cases s.valueEntry env k.id with
  | none | some v => rfl

theorem keyIDs_resolvedCells (s : Tables) (env : String) (applies : List Draft) :
    (resolvedCells s env applies).map (fun cell => cell.key.id) = s.keyIDs := by
  unfold resolvedCells Tables.keyIDs
  rw [map_map]
  refine map_congr_left fun k _ => ?_
  show (resolveCell s env applies k).key.id = k.id
  rw [key_resolveCell]

/-- The tables and the cells after the move. -/
def movedCells (P : Platform) (env : String) (applies : List Draft) (s : Tables) :
    Tables × List ResolvedCell :=
  moveCells P env applies s (resolvedCells s env applies)

theorem moved_movedCells (P : Platform) (env : String) (applies : List Draft) (s : Tables) :
    Moved P env applies s (resolvedCells s env applies) (movedCells P env applies s) :=
  moved_moveCells applies _ s

theorem nodup_movedCells : ((movedCells P env applies s).2.map fun cell => cell.key.id).Nodup := by
  have hchecked := congrArg (List.map fun p : Key × Option String => p.1.id)
    (moved_movedCells P env applies s).checked
  rw [map_map, map_map] at hchecked
  have hids : (movedCells P env applies s).2.map (fun cell => cell.key.id) = s.keyIDs :=
    hchecked.trans (keyIDs_resolvedCells s env applies)
  rw [hids]
  exact s.keys.ids_nodup

/-- Every declared key has its cell. -/
theorem exists_movedCell (P : Platform) (env : String) (applies : List Draft)
    (hk : k ∈ s.keys.rows) : ∃ cell ∈ (movedCells P env applies s).2, cell.key = k ∧
      cell.value = (resolveCell s env applies k).value := by
  have hmem : (k, (resolveCell s env applies k).value) ∈
      (resolvedCells s env applies).map fun cell => (cell.key, cell.value) :=
    mem_map.mpr ⟨_, mem_map_of_mem hk, by rw [key_resolveCell]⟩
  rw [← (moved_movedCells P env applies s).checked] at hmem
  obtain ⟨cell, hc, heq⟩ := mem_map.mp hmem
  exact ⟨cell, hc, (Prod.mk.inj heq).1, (Prod.mk.inj heq).2⟩

/-- Every cell is the one of a declared key. -/
theorem key_movedCell (hcell : cell ∈ (movedCells P env applies s).2) : cell.key ∈ s.keys.rows := by
  have hmem := mem_map_of_mem (f := fun cell : ResolvedCell => (cell.key, cell.value)) hcell
  rw [(moved_movedCells P env applies s).checked] at hmem
  obtain ⟨c, hc, heq⟩ := mem_map.mp hmem
  obtain ⟨k, hk, rfl⟩ := mem_map.mp hc
  rw [← (Prod.mk.inj heq).1, key_resolveCell]
  exact hk

theorem face_movedCell (happlies : ∀ d ∈ applies, ∀ v ∈ d.value, P.normalize v = v)
    (hcell : cell ∈ (movedCells P env applies s).2) :
    cell.face = (movedCells P env applies s).1.published env cell.key.id := by
  refine face_moveCells applies _ s (keyIDs_resolvedCells s env applies ▸ s.keys.ids_nodup) ?_ ?_ cell hcell
  · intro c hc hnone
    obtain ⟨k, -, rfl⟩ := mem_map.mp hc
    rw [key_resolveCell] at hnone ⊢
    exact face_resolveCell_of_none hnone
  · intro c hc d hd
    obtain ⟨k, -, rfl⟩ := mem_map.mp hc
    rw [key_resolveCell] at hd
    exact ⟨value_resolveCell_of_apply hd, happlies d (mem_of_find?_eq_some hd)⟩

/-- The revision that is added. -/
def addedRevision (P : Platform) (env : String) (applies : List Draft) (s : Tables) : Revision :=
  nextRevision (movedCells P env applies s).1 env (movedCells P env applies s).2

theorem entry_addedRevision (hcell : cell ∈ (movedCells P env applies s).2) :
    (addedRevision P env applies s).entry cell.key.id = cell.entry? :=
  find?_filterMap keyID_of_entry? nodup_movedCells hcell

theorem isSome_addedRevision (hk : k ∈ s.keys.rows) :
    ((addedRevision P env applies s).entry k.id).isSome =
      (resolveCell s env applies k).value.isSome := by
  obtain ⟨cell, hc, rfl, hvalue⟩ := exists_movedCell P env applies hk
  rw [entry_addedRevision hc, ← hvalue]
  exact Option.isSome_map

/-- What was checked of the resolved cells holds of the revision. -/
theorem meets_addedRevision {u : Unit}
    (hvalid : validateResolvedPublish P env (resolvedCells s env applies) = .ok u) :
    (addedRevision P env applies s).Meets env s.keys.rows := by
  have hmem : ∀ k ∈ s.keys.rows, resolveCell s env applies k ∈ resolvedCells s env applies :=
    fun k hk => mem_map_of_mem hk
  constructor
  · intro k hk hreq
    rw [isSome_addedRevision hk]
    exact isSome_of_validated hvalid (hmem k hk) (by rwa [key_resolveCell])
  · intro k hk hforb
    rw [isSome_addedRevision hk]
    exact isNone_of_validated hvalid (hmem k hk) (by rwa [key_resolveCell])
  · intro k hk k' hk' hgroup hsame
    rw [isSome_addedRevision hk, isSome_addedRevision hk']
    exact group_of_validated hvalid (hmem k hk) (hmem k' hk') (by rwa [key_resolveCell])
      (by rwa [key_resolveCell, key_resolveCell])

theorem latest_movedCells : (movedCells P env applies s).1.latest env = s.latest env := by
  rw [(moved_movedCells P env applies s).frame]
  rfl

end Materialization

theorem advance_materialize (hs : s.Normal P)
    (happlies : ∀ d ∈ applies, ∀ v ∈ d.value, P.normalize v = v)
    (h : materialize P s env applies = .ok s') :
    Advance P env (fun keyID => (applyFor applies keyID).map Draft.value) s s'
      (addedRevision P env applies s) := by
  obtain ⟨hvalid, rfl⟩ := materialize_eq_ok h
  have hmoved := moved_movedCells P env applies s
  have hschema : (movedCells P env applies s).1.schemaRevision = s.schemaRevision := by
    rw [hmoved.frame]
  have hdrafts : (movedCells P env applies s).1.drafts = s.drafts := by rw [hmoved.frame]
  have hrevisions : (movedCells P env applies s).1.revisions = s.revisions := by rw [hmoved.frame]
  constructor
  case definitions => exact definitions_moveCells applies _ s
  case schema => exact hschema
  case minted => exact hmoved.minted
  case drafts => exact fun d hd => hdrafts ▸ hd
  case revisions => exact congrArg _ hrevisions
  case environment => rfl
  case number =>
    show (((movedCells P env applies s).1.latest env).map Revision.number).getD 0 + 1 = _
    rw [latest_movedCells]
    rfl
  case recorded => exact hschema
  case rows => exact fun v hv => keyIDs_resolvedCells s env applies ▸ hmoved.rows v hv
  case others => exact fun env' keyID hne => hmoved.kept env' keyID (.inl hne)
  case kept =>
    exact fun keyID hnone => hmoved.kept env keyID (.inr (.inr (Option.map_eq_none_iff.mp hnone)))
  case moved =>
    intro keyID hid v hv
    obtain ⟨k, hk, rfl⟩ := mem_map.mp hid
    obtain ⟨d, hd, rfl⟩ := Option.map_eq_some_iff.mp hv
    obtain ⟨cell, hc, rfl, hvalue⟩ := exists_movedCell P env applies hk
    have hface := congrArg (Option.map Prod.fst) (face_movedCell happlies hc)
    unfold ResolvedCell.face Tables.published at hface
    rw [Option.map_map, Option.map_map] at hface
    show ((movedCells P env applies s).1.valueEntry env cell.key.id).map ValueEntry.value = d.value
    rw [← value_resolveCell_of_apply hd, ← hvalue]
    exact hface.symm.trans Option.map_id'
  case cells =>
    intro keyID hid
    obtain ⟨k, hk, rfl⟩ := mem_map.mp hid
    obtain ⟨cell, hc, rfl, -⟩ := exists_movedCell P env applies hk
    unfold Revision.cell
    rw [entry_addedRevision hc, map_entry?, face_movedCell happlies hc]
    rfl
  case declared =>
    intro e he
    obtain ⟨cell, hc, hce⟩ := mem_filterMap.mp he
    obtain ⟨value, -, rfl⟩ := Option.map_eq_some_iff.mp hce
    exact ⟨cell.key, key_movedCell hc, rfl, rfl, rfl⟩
  case nodup => exact nodup_entries nodup_movedCells
  case normal =>
    intro e he
    obtain ⟨cell, hc, hce⟩ := mem_filterMap.mp he
    have hface := face_movedCell happlies hc
    rw [← map_entry?, hce, Option.map_some] at hface
    obtain ⟨v, hv, heq⟩ := Option.map_eq_some_iff.mp hface.symm
    rw [← (Prod.mk.inj heq).1]
    rcases hmoved.rows v (Table.Keyed.find?_eq_some.mp hv).1 with hv | ⟨-, -, hnormal⟩
    · exact hs.values v hv
    · exact hnormal
  case changes =>
    show (lineage ((movedCells P env applies s).1.latest env) _).2 = _
    rw [latest_movedCells]
    rfl
  case meets => exact meets_addedRevision hvalid

/-! ### The ways to a materialization -/

theorem Advance.normal_tables {versions : String → Option (Option String)} {r : Revision}
    (h : Advance P env versions s s' r) (hs : s.Normal P) : s'.Normal P := by
  refine ⟨fun v hv => ?_, fun d hd => hs.drafts d (h.drafts d hd), fun r' hr' => ?_⟩
  · rcases h.rows v hv with hv | ⟨-, -, hnormal⟩
    · exact hs.values v hv
    · exact hnormal
  · rw [h.revisions] at hr'
    rcases mem_cons.mp hr' with rfl | hr'
    · exact h.normal
    · exact hs.entries r' hr'

/-- A draft is published as a version of its cell. -/
theorem advance_publishEnvironment {selected : List Draft} (hs : s.Normal P)
    (hselected : ∀ d ∈ selected, ∀ v ∈ d.value, P.normalize v = v)
    (h : publishEnvironment P selected s env = .ok s') :
    ∃ r, Advance P env (fun keyID => (selected.find? fun d =>
      d.environmentID = env ∧ d.keyID = keyID).map Draft.value) s s' r := by
  unfold publishEnvironment at h
  replace h := skip h
  obtain ⟨t, hmaterialize, h⟩ := bind_ok h
  cases h
  have hadvance := advance_materialize hs
    (fun d hd => hselected d (mem_filter.mp hd).1) hmaterialize
  have hversions : (fun keyID => (applyFor (selected.filter fun d => d.environmentID = env)
      keyID).map Draft.value) = fun keyID => (selected.find? fun d =>
        d.environmentID = env ∧ d.keyID = keyID).map Draft.value := by
    funext keyID
    unfold applyFor
    rw [find?_filter]
    simp only [Bool.decide_and, Bool.decide_eq_true]
  rw [hversions] at hadvance
  refine ⟨_, { hadvance with drafts := fun d hd => ?_ }⟩
  exact hadvance.drafts d (Table.Keyed.mem_delete.mp hd).1

/-- The value that a list of cells gives a key: the last one. -/
def lastWrite : List (String × String) → String → Option String
  | [], _ => none
  | cell :: cells, keyID =>
    (lastWrite cells keyID).or (if cell.1 = keyID then some cell.2 else none)

/-- **What writing cells of one environment does.** -/
structure Written (P : Platform) (env : String) (cells : List (String × String)) (s t : Tables) :
    Prop where
  frame : t = { s with values := t.values, minted := t.minted }
  minted : s.minted ≤ t.minted
  rows : ∀ v ∈ t.values.rows, v ∈ s.values.rows ∨
    (v.environmentID = env ∧ v.keyID ∈ s.keyIDs ∧ P.normalize v.value = v.value)
  others : ∀ env' keyID, env' ≠ env → t.valueEntry env' keyID = s.valueEntry env' keyID
  kept : ∀ keyID, lastWrite cells keyID = none → t.valueEntry env keyID = s.valueEntry env keyID
  moved : ∀ keyID v, lastWrite cells keyID = some v →
    (t.valueEntry env keyID).map ValueEntry.value = some (P.normalize v)

theorem written_writeCells (cells : List (String × String)) :
    ∀ s : Tables, cells.foldlM (writeCell P env) s = .ok t → Written P env cells s t := by
  induction cells with
  | nil =>
    intro s h
    cases h
    exact ⟨rfl, le_rfl, fun _ hv => .inl hv, fun _ _ _ => rfl, fun _ _ => rfl, nofun⟩
  | cons cell cells ih =>
    intro s h
    rw [foldlM_cons] at h
    obtain ⟨s₁, hcell, h⟩ := bind_ok h
    unfold writeCell at hcell
    obtain ⟨u, hthere, hcell⟩ := bind_ok hcell
    cases hcell
    have hrest := ih _ h
    have hdeclared := (ensured hthere).2
    constructor
    case frame => exact hrest.frame
    case minted => exact (Nat.le_succ _).trans hrest.minted
    case rows =>
      intro v hv
      rcases hrest.rows v hv with hv | hv
      · rcases Table.Keyed.mem_put.mp hv with rfl | ⟨hv, -⟩
        · exact .inr ⟨rfl, hdeclared, P.normalize_normalize _⟩
        · exact .inl hv
      · exact .inr hv
    case others =>
      intro env' keyID hne
      rw [hrest.others env' keyID hne]
      exact Table.Keyed.find?_put_of_ne fun heq => hne (Prod.mk.inj heq).1.symm
    case kept =>
      intro keyID hnone
      obtain ⟨hlater, hthis⟩ := Option.or_eq_none_iff.mp hnone
      rw [hrest.kept keyID hlater]
      refine Table.Keyed.find?_put_of_ne fun heq => ?_
      rw [if_pos (Prod.mk.inj heq).2] at hthis
      cases hthis
    case moved =>
      intro keyID v hsome
      rcases Option.or_eq_some_iff.mp hsome with hlater | ⟨hlater, hthis⟩
      · exact hrest.moved keyID v hlater
      · -- the value is written in this round and not again
        split at hthis
        case isFalse => cases hthis
        case isTrue heq =>
          subst heq
          cases hthis
          rw [hrest.kept _ hlater, valueEntry_eq_find?,
            show (env, cell.1) = ValueEntry.cell
              ⟨P.newID "val" s.minted, env, cell.1, P.normalize cell.2⟩ from rfl,
            Table.Keyed.find?_put_self]
          rfl

/-- Cells are written directly, and published as they are then. -/
theorem advance_deliver {cells : List (String × String)} (hs : s.Normal P)
    (h : deliver P s env cells = .ok s') : env ∈ s.environmentIDs ∧
      ∃ r, Advance P env (fun keyID => (lastWrite cells keyID).map fun v => some (P.normalize v))
        s s' r := by
  unfold deliver at h
  obtain ⟨u, hthere, h⟩ := bind_ok h
  obtain ⟨t, hcells, h⟩ := bind_ok h
  refine ⟨ensured hthere, addedRevision P env [] t, ?_⟩
  have hwritten := written_writeCells cells s hcells
  have hnormal : t.Normal P := by
    refine ⟨fun v hv => ?_, ?_, ?_⟩
    · rcases hwritten.rows v hv with hv | ⟨-, -, hnormal⟩
      · exact hs.values v hv
      · exact hnormal
    · rw [hwritten.frame]
      exact hs.drafts
    · rw [hwritten.frame]
      exact hs.entries
  have hadvance := advance_materialize hnormal (fun _ hd => absurd hd not_mem_nil) h
  have hkeys : t.keys = s.keys := by rw [hwritten.frame]
  have hkeyIDs : t.keyIDs = s.keyIDs := congrArg (fun k => k.rows.map Key.id) hkeys
  have hdrafts : t.drafts = s.drafts := by rw [hwritten.frame]
  have hrevisions : t.revisions = s.revisions := by rw [hwritten.frame]
  have hschema : t.schemaRevision = s.schemaRevision := by rw [hwritten.frame]
  have hlatest : t.latest env = s.latest env := by
    rw [hwritten.frame]
    rfl
  constructor
  case definitions =>
    rw [hadvance.definitions, hwritten.frame]
    rfl
  case schema => exact hadvance.schema.trans hschema
  case minted => exact hwritten.minted.trans hadvance.minted
  case drafts => exact fun d hd => hdrafts ▸ hadvance.drafts d hd
  case revisions => exact hrevisions ▸ hadvance.revisions
  case environment => exact hadvance.environment
  case number =>
    rw [hadvance.number]
    unfold currentRevision
    rw [hlatest]
  case recorded => exact hadvance.recorded.trans hschema
  case rows =>
    intro v hv
    rcases hadvance.rows v hv with hv | hv
    · exact hwritten.rows v hv
    · exact .inr (hkeyIDs ▸ hv)
  case others =>
    exact fun env' keyID hne => (hadvance.others env' keyID hne).trans (hwritten.others env' keyID hne)
  case kept =>
    exact fun keyID hnone => (hadvance.kept keyID rfl).trans
      (hwritten.kept keyID (Option.map_eq_none_iff.mp hnone))
  case moved =>
    intro keyID _ v hv
    obtain ⟨w, hw, rfl⟩ := Option.map_eq_some_iff.mp hv
    rw [hadvance.kept keyID rfl]
    exact hwritten.moved keyID w hw
  case cells => exact hkeyIDs ▸ hadvance.cells
  case declared => exact hkeys ▸ hadvance.declared
  case nodup => exact hadvance.nodup
  case normal => exact hadvance.normal
  case changes => exact hlatest ▸ hadvance.changes
  case meets => exact hkeys ▸ hadvance.meets

end Hikyo.Catalogue
