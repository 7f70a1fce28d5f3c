import Hikyo.Lib.Transactions

/-!
# The mapping table of a provisioning binding

A mapping row gives the members of a group of an identity provider the capabilities of
a template, at a scope of the organisation. The table has one row for each group,
template and scope, but a row is *addressed* by its group and its scope: the template is
what an update changes. So a second row at an address makes both unreachable –
`addressedMapping` refuses to pick one, and asks for a template that no request is read
for. Deleting a group leaves its rows, which an administrator is to edit or delete.

What does not depend on the rows is left to the call (`admitted`): whether the caller is
authorized and the scope is in the organisation, and what becomes of the members' grants.
-/

namespace Hikyo.Scim

open List
open Tx (ensure bind_ok skip)

inductive ScimError where
  | invalid (detail : String)
  | template
  | notFound
  | conflict (detail : String)

inductive Level where
  | none | org | project | env

structure Mapping where
  id : String
  groupID : String
  template : String
  projectID : String
  envID : String
deriving DecidableEq

/-- What addresses or declares a row. -/
structure MappingSpec where
  groupID : String
  template : String
  projectID : String
  envID : String

/-- The groups of a binding and its mapping rows. -/
structure Binding where
  groups : List String
  mappings : Table.Keyed Mapping.id

/-- The group and the scope of a row. -/
def Mapping.address (row : Mapping) : String × String × String :=
  (row.groupID, row.projectID, row.envID)

def MappingSpec.address (spec : MappingSpec) : String × String × String :=
  (spec.groupID, spec.projectID, spec.envID)

def levelOf (spec : MappingSpec) : Level :=
  if spec.projectID = "" then .org else if spec.envID = "" then .project else .env

section Operations

-- the levels at which each template may be granted
variable (templates : String → Option (Level → Bool))

/-- A template that can be mapped, at a scope that it can be granted at. -/
def checkMappingScope (spec : MappingSpec) : Except ScimError Unit :=
  match templates spec.template with
  | none => .error .template
  | some applicable => do
    ensure (¬ applicable .none) .template
    ensure (¬ (spec.envID ≠ "" ∧ spec.projectID = ""))
      (.invalid "an environment scope needs its project")
    ensure (applicable (levelOf spec)) .template

variable (admitted : Except ScimError Unit) (b : Binding)

section

variable (id : String) (spec : MappingSpec)

/-- **The row at an address**, if there is exactly one. -/
def addressedMapping : Except ScimError Mapping :=
  match b.mappings.rows.filter fun row => row.address = spec.address with
  | [] => .error .notFound
  | [row] => .ok row
  | hits => .error (.conflict ("this group has " ++ toString hits.length ++
      " mapping rows at that scope; name the template to address one"))

/-- A new row, under an identifier that was minted for it. -/
def createMapping : Except ScimError Binding := do
  admitted
  checkMappingScope templates spec
  ensure (spec.groupID ∈ b.groups) .notFound
  -- the other unique index of the table
  ensure (∀ row ∈ b.mappings.rows, row.address = spec.address → row.template ≠ spec.template)
    (.conflict "")
  match b.mappings.insert ⟨id, spec.groupID, spec.template, spec.projectID, spec.envID⟩ with
  | none => .error (.conflict "")
  | some mappings => .ok { b with mappings }

/-- The template of the addressed row, in place. No other row is at that address, so
the index is kept. -/
def updateMapping : Except ScimError Binding := do
  admitted
  checkMappingScope templates spec
  let row ← addressedMapping b spec
  let retarget (r : Mapping) : Mapping := { r with template := spec.template }
  .ok { b with mappings := b.mappings.update (fun r => r.id = row.id) retarget fun _ => rfl }

def deleteMapping : Except ScimError Binding := do
  admitted
  let row ← addressedMapping b spec
  .ok { b with mappings := b.mappings.delete fun r => r.id = row.id }

def createGroup : Except ScimError Binding := do
  admitted
  .ok { b with groups := id :: b.groups }

/-- The group goes; its rows stay, and grant nothing. -/
def deleteGroup : Except ScimError Binding := do
  admitted
  ensure (id ∈ b.groups) .notFound
  .ok { b with groups := b.groups.filter fun g => g ≠ id }

end

end Operations

inductive Op where
  | createMapping (id : String) (spec : MappingSpec)
  | updateMapping (spec : MappingSpec)
  | deleteMapping (spec : MappingSpec)
  | createGroup (id : String)
  | deleteGroup (id : String)

structure Call where
  op : Op
  admitted : Except ScimError Unit

def transact (templates : String → Option (Level → Bool)) (call : Call) (b : Binding) :
    Except ScimError Binding :=
  match call.op with
  | .createMapping id spec => createMapping templates call.admitted b id spec
  | .updateMapping spec => updateMapping templates call.admitted b spec
  | .deleteMapping spec => deleteMapping call.admitted b spec
  | .createGroup id => createGroup call.admitted b id
  | .deleteGroup id => deleteGroup call.admitted b id

def step (templates : String → Option (Level → Bool)) (b : Binding) (call : Call) : Binding :=
  Tx.commit (transact templates call) b

/-! ## Rows that can be deleted -/

variable {templates : String → Option (Level → Bool)} {b : Binding} {row : Mapping}

/-- A request of an authorized administrator removes exactly this row. -/
def Deletable (b : Binding) (row : Mapping) : Prop :=
  ∃ spec b', deleteMapping (.ok ()) b spec = .ok b' ∧
    b'.mappings.rows = b.mappings.rows.filter fun r => r ≠ row

/-- No other row is at the row's address. -/
def Binding.Alone (b : Binding) (row : Mapping) : Prop :=
  ∀ row' ∈ b.mappings.rows, row'.address = row.address → row' = row

theorem addressedMapping_eq_ok {spec : MappingSpec} : addressedMapping b spec = .ok row ↔
    b.mappings.rows.filter (fun row => row.address = spec.address) = [row] := by
  unfold addressedMapping
  split
  · simp [*]
  · simp [*]
  · simp_all

/-- Deleting by the identifier takes away the row that has it. -/
theorem delete_id (hrow : row ∈ b.mappings.rows) :
    (b.mappings.delete fun r => r.id = row.id).rows = b.mappings.rows.filter fun r => r ≠ row := by
  refine filter_congr fun r hr => ?_
  rw [← decide_not]
  exact decide_eq_decide.mpr (not_congr ⟨b.mappings.eq_of_key hr hrow, congrArg Mapping.id⟩)

theorem deletable_iff (hrow : row ∈ b.mappings.rows) : Deletable b row ↔ b.Alone row := by
  constructor
  · rintro ⟨spec, b', h, hrows⟩ row' hrow' haddress
    obtain ⟨row₀, haddressed, h⟩ := bind_ok (show (addressedMapping b spec >>= _) = _ from h)
    cases h
    have hhits : ∀ r, r ∈ b.mappings.rows ∧ r.address = spec.address ↔ r = row₀ := by
      intro r
      simpa using congrArg (r ∈ ·) (addressedMapping_eq_ok.mp haddressed)
    obtain ⟨hrow₀, haddress₀⟩ := (hhits row₀).mpr rfl
    -- the row that goes is the one that was addressed
    obtain rfl : row = row₀ := by
      by_contra hne
      have hgone : row ∉ b.mappings.rows.filter fun r => r ≠ row := by simp
      rw [← hrows, delete_id hrow₀] at hgone
      exact hgone (by simp [hrow, hne])
    exact (hhits row').mp ⟨hrow', haddress.trans haddress₀⟩
  · intro halone
    let spec : MappingSpec := ⟨row.groupID, row.template, row.projectID, row.envID⟩
    have hhits : b.mappings.rows.filter (fun r => r.address = spec.address) = [row] := by
      refine perm_singleton.mp ((perm_ext_iff_of_nodup ?_ (nodup_singleton _)).mpr fun r => ?_)
      · have hrows : (b.mappings.rows.map Mapping.id).Nodup := by
          simpa [Table.UniqueOn] using b.mappings.unique
        exact hrows.of_map.filter _
      · rw [mem_filter, mem_singleton, decide_eq_true_eq]
        exact ⟨fun h => halone r h.1 h.2, fun h => h ▸ ⟨hrow, rfl⟩⟩
    refine ⟨spec, { b with mappings := b.mappings.delete fun r => r.id = row.id }, ?_,
      delete_id hrow⟩
    show (addressedMapping b spec >>= _) = _
    rw [addressedMapping_eq_ok.mpr hhits]
    rfl

/-! ## Every run -/

/-- A row is created where there is none. -/
def NewAddress (b : Binding) (call : Call) : Prop :=
  ∀ id spec, call.op = .createMapping id spec → ∀ row ∈ b.mappings.rows, row.address ≠ spec.address

/-- **Addresses stay unique**, if every row is created where there is none. -/
theorem addresses_step (b : Binding) (call : Call) (hnew : NewAddress b call)
    (hb : (b.mappings.rows.map Mapping.address).Nodup) :
    ((step templates b call).mappings.rows.map Mapping.address).Nodup := by
  refine Tx.commit_invariant (fun b : Binding => (b.mappings.rows.map Mapping.address).Nodup) hb
    fun b' h => ?_
  obtain ⟨op, admitted⟩ := call
  cases op with
  | createMapping id spec =>
    replace h := skip (skip (skip (skip h)))
    split at h
    next => cases h
    next mappings hinsert =>
      cases h
      show (mappings.rows.map Mapping.address).Nodup
      rw [(Table.Keyed.insert_eq_some hinsert).1, map_cons, nodup_cons]
      refine ⟨fun hmem => ?_, hb⟩
      obtain ⟨row, hrow, haddress⟩ := mem_map.mp hmem
      exact hnew id spec rfl row hrow haddress
  | updateMapping spec =>
    obtain ⟨row, -, h⟩ := bind_ok (skip (skip h))
    cases h
    show (map _ (Table.update _ _ _)).Nodup
    rw [Table.map_update]
    · exact hb
    · exact fun _ => rfl
  | deleteMapping spec =>
    obtain ⟨row, -, h⟩ := bind_ok (skip h)
    cases h
    exact hb.sublist (filter_sublist.map _)
  | createGroup id =>
    cases skip h
    exact hb
  | deleteGroup id =>
    cases skip (skip h)
    exact hb

def Binding.empty : Binding := ⟨[], .empty⟩

/-- **Which mapping rows can be deleted**: in every state a row can, by itself, exactly
if no other row has its group and scope; and in a run that creates no row at an address
that has one, every row can, in every state. -/
theorem mapping_rows_administrable (templates : String → Option (Level → Bool))
    (calls : List Call) : (∀ b : Binding, ∀ row ∈ b.mappings.rows, Deletable b row ↔ b.Alone row) ∧
      (Tx.Along (step templates) NewAddress .empty calls →
        ∀ row ∈ (Tx.exec (step templates) .empty calls).mappings.rows,
          Deletable (Tx.exec (step templates) .empty calls) row) := by
  refine ⟨fun b row => deletable_iff, fun halong row hrow => ?_⟩
  have hnodup := Tx.exec_invariant_along NewAddress _ addresses_step calls .empty halong nodup_nil
  exact (deletable_iff hrow).mpr fun row' hrow' haddress =>
    inj_on_of_nodup_map hnodup hrow' hrow haddress

/-- Two templates for one group at one scope. -/
def twoTemplates : List Call :=
  [⟨.createGroup "group", .ok ()⟩, ⟨.createMapping "first" ⟨"group", "viewer", "", ""⟩, .ok ()⟩,
    ⟨.createMapping "second" ⟨"group", "editor", "", ""⟩, .ok ()⟩]

/-- Every template at every scope. -/
def anywhere : String → Option (Level → Bool) :=
  fun _ => some fun l => l matches .org | .project | .env

/-- **A row can become undeletable.** -/
theorem mapping_row_stuck : ∃ row ∈ (Tx.exec (step anywhere) .empty twoTemplates).mappings.rows,
    ¬ Deletable (Tx.exec (step anywhere) .empty twoTemplates) row := by
  refine ⟨⟨"first", "group", "viewer", "", ""⟩, by decide, fun h => ?_⟩
  have hsame := (deletable_iff (by decide)).mp h ⟨"second", "group", "editor", "", ""⟩
    (by decide) rfl
  exact absurd hsame (by decide)

end Hikyo.Scim
