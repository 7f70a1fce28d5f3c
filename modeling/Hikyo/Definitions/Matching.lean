import Hikyo.Definitions.Bundle

/-!
# What the matching of a bundle establishes

`matchEntities` runs over the entries of a bundle twice, first for the entries that carry
an identity and then for the others, with a table of what is bound so far.
`kept_of_matchEntities` says what comes out, without the table: an entry is bound to a row
that is there, and what an entry is bound to is not deleted.
-/

namespace Hikyo.Catalogue

open List
open Tx (bind_ok skip)

variable {kind : String} {current bundle : List Entity} {additive : Bool} {m : KindMatch}

/-! ## Binding identities -/

/-- The entries that carry an identity bind it, and it is there. The table only grows. -/
theorem bindIDs_eq_ok (es : List Entity) :
    ∀ {acc out : List (String × String)}, bindIDs kind current acc es = .ok out →
      (∀ id ∈ acc.map Prod.fst, id ∈ out.map Prod.fst) ∧
        ∀ e ∈ es, e.id ≠ "" → e.id ∈ current.map Entity.id ∧ e.id ∈ out.map Prod.fst := by
  induction es with
  | nil =>
    intro acc out h
    cases h
    exact ⟨fun _ hid => hid, nofun⟩
  | cons e es ih =>
    intro acc out h
    unfold bindIDs at h
    split at h
    case isTrue hempty =>
      obtain ⟨hgrows, hbound⟩ := ih h
      exact ⟨hgrows, forall_mem_cons.mpr ⟨fun hne => absurd hempty hne, hbound⟩⟩
    case isFalse hid =>
      split at h
      case isTrue => cases h
      case isFalse hmem =>
        split at h
        next => cases h
        next =>
          obtain ⟨hgrows, hbound⟩ := ih h
          refine ⟨fun id hin => hgrows id (mem_cons_of_mem _ hin),
            forall_mem_cons.mpr ⟨fun _ => ⟨not_not.mp hmem, ?_⟩, hbound⟩⟩
          exact hgrows e.id mem_cons_self

/-! ## Binding names -/

/-- What the second pass binds. The accumulator only grows, by what is bound; an entry
without an identity is bound to a row of its name. -/
structure Bound (current : List Entity) (acc : List (String × String)) (es : List Entity)
    (r : List String × List (String × String)) : Prop where
  length : r.1.length = es.length
  grows : ∀ id ∈ acc.map Prod.fst, id ∈ r.2.map Prod.fst
  byID : ∀ p ∈ es.zip r.1, p.1.id ≠ "" → p.2 = p.1.id
  byName : ∀ p ∈ es.zip r.1, p.1.id = "" → p.2 ≠ "" →
    p.2 ∈ r.2.map Prod.fst ∧ ∃ row ∈ current, row.id = p.2 ∧ row.name = p.1.name

theorem bound_bindNames (current : List Entity) (es : List Entity) :
    ∀ acc, Bound current acc es (bindNames current acc es) := by
  induction es with
  | nil => exact fun acc => ⟨rfl, fun _ h => h, nofun, nofun⟩
  | cons e es ih =>
    intro acc
    -- an entry that adds nothing to the table
    have hskip : ∀ d : String, (e.id ≠ "" → d = e.id) → (e.id = "" → d = "") →
        Bound current acc (e :: es) (d :: (bindNames current acc es).1,
          (bindNames current acc es).2) := by
      intro d hd hempty
      obtain ⟨hlength, hgrows, hbyID, hbyName⟩ := ih acc
      refine ⟨congrArg (· + 1) hlength, hgrows, fun p hp => ?_, fun p hp => ?_⟩
      · rcases mem_cons.mp hp with rfl | hp
        · exact hd
        · exact hbyID p hp
      · rcases mem_cons.mp hp with rfl | hp
        · exact fun hid hne => absurd (hempty hid) hne
        · exact hbyName p hp
    unfold bindNames
    split
    case isTrue hid => exact hskip e.id (fun _ => rfl) (fun h => absurd h hid)
    case isFalse hid =>
      have hid := not_not.mp hid
      split
      case h_2 => exact hskip "" (fun h => absurd hid h) (fun _ => rfl)
      case h_1 row hfind =>
        have hfound := find?_some hfind
        have hname : row.name = e.name := of_decide_eq_true hfound
        have hrow : row ∈ current := mem_of_find?_eq_some hfind
        split
        case isTrue => exact hskip "" (fun h => absurd hid h) (fun _ => rfl)
        case isFalse =>
          obtain ⟨hlength, hgrows, hbyID, hbyName⟩ := ih ((row.id, e.name) :: acc)
          refine ⟨congrArg (· + 1) hlength, fun id hmem => hgrows id (mem_cons_of_mem _ hmem),
            fun p hp => ?_, fun p hp => ?_⟩
          · rcases mem_cons.mp hp with rfl | hp
            · exact fun h => absurd hid h
            · exact hbyID p hp
          · rcases mem_cons.mp hp with rfl | hp
            · exact fun _ _ => ⟨hgrows row.id mem_cons_self, row, hrow, rfl, hname⟩
            · exact hbyName p hp

/-! ## The matching -/

theorem matchEntities_eq_ok (h : matchEntities kind bundle current additive = .ok m) :
    ∃ boundBy, bindIDs kind current [] bundle = .ok boundBy ∧
      m.boundDBID = (bindNames current boundBy bundle).1 ∧
      m.deletes = if additive then []
        else (current.filter fun row =>
          row.id ∉ (bindNames current boundBy bundle).2.map Prod.fst).map Entity.id := by
  unfold matchEntities at h
  obtain ⟨boundBy, hids, h⟩ := bind_ok h
  replace h := skip h
  cases h
  exact ⟨boundBy, hids, rfl, rfl⟩

/-- What is bound is there, and is not deleted. -/
theorem kept_of_matchEntities (h : matchEntities kind bundle current additive = .ok m)
    {p : Entity × String} (hp : p ∈ bundle.zip m.boundDBID) (hbound : p.2 ≠ "") :
    p.2 ∈ current.map Entity.id ∧ p.2 ∉ m.deletes := by
  obtain ⟨boundBy, hids, hbids, hdeletes⟩ := matchEntities_eq_ok h
  obtain ⟨-, hcurrent⟩ := bindIDs_eq_ok bundle hids
  have hnames := bound_bindNames current bundle boundBy
  rw [hbids] at hp
  have hin : p.2 ∈ current.map Entity.id ∧
      p.2 ∈ (bindNames current boundBy bundle).2.map Prod.fst := by
    by_cases hid : p.1.id = ""
    · obtain ⟨hmem, row, hrow, hrowid, -⟩ := hnames.byName p hp hid hbound
      exact ⟨mem_map.mpr ⟨row, hrow, hrowid⟩, hmem⟩
    · have hentry : p.1 ∈ bundle := (of_mem_zip hp).1
      rw [hnames.byID p hp hid]
      obtain ⟨hthere, hbound⟩ := hcurrent p.1 hentry hid
      exact ⟨hthere, hnames.grows _ hbound⟩
  refine ⟨hin.1, fun hdel => ?_⟩
  rw [hdeletes] at hdel
  split at hdel
  · cases hdel
  · obtain ⟨row, hrow, hrowid⟩ := mem_map.mp hdel
    exact absurd (hrowid ▸ hin.2) (of_decide_eq_true (mem_filter.mp hrow).2)

/-! ## The resolution -/

/-- What a resolution is made of. -/
theorem resolve_eq_ok {b : Bundle} {cur : CurrentState} {res : Resolution}
    (h : resolve b cur = .ok res) : ∃ envMatch groupMatch keyMatch keys,
      matchEntities "environment" b.environments cur.environments b.additive = .ok envMatch ∧
      matchEntities "key group" b.keyGroups cur.keyGroups b.additive = .ok groupMatch ∧
      matchEntities "key" (b.keys.map BundleKey.entity) (cur.keys.map Key.entity) b.additive =
        .ok keyMatch ∧
      resolveKeys true b.additive cur (b.environments.map Entity.name)
        (b.keyGroups.map Entity.name) (identityByName b.environments envMatch.boundDBID)
        (identityByName b.keyGroups groupMatch.boundDBID) (b.keys.zip keyMatch.boundDBID) =
          .ok keys ∧
      res =
        { additive := b.additive
          envCreates := createsOf b.environments envMatch.boundDBID
          envRenames := renamesOf b.environments cur.environments envMatch.boundDBID
          envDeletes := refsFor cur.environments envMatch.deletes
          groupCreates := createsOf b.keyGroups groupMatch.boundDBID
          groupRenames := renamesOf b.keyGroups cur.keyGroups groupMatch.boundDBID
          groupDeletes := refsFor cur.keyGroups groupMatch.deletes
          keyCreates := keys.1
          keyUpdates := keys.2
          keyDeletes := refsFor (cur.keys.map Key.entity) keyMatch.deletes
          revealKeys := Table.orderBy (fun name : String => name)
            ((keys.2.filter needsReveal).map fun u => u.desired.name) } := by
  unfold resolve resolveWith at h
  obtain ⟨envMatch, henvs, h⟩ := bind_ok h
  obtain ⟨groupMatch, hgroups, h⟩ := bind_ok h
  obtain ⟨keyMatch, hkeys, h⟩ := bind_ok h
  obtain ⟨keys, hresolve, h⟩ := bind_ok h
  exact ⟨envMatch, groupMatch, keyMatch, keys, henvs, hgroups, hkeys, hresolve,
    (Except.ok.inj h).symm⟩

theorem mem_refsFor {ids : List String} {id : String} :
    id ∈ (refsFor current ids).map Entity.id ↔ id ∈ ids := by
  unfold refsFor
  rw [map_map]
  exact Iff.of_eq (congrArg (id ∈ ·) (map_id ids))

end Hikyo.Catalogue
