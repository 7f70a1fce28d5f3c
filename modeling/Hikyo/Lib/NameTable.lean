import Hikyo.Lib.Transactions

/-!
# Tables of named things

A table whose rows have an identity and a name, both unique. The identity is minted once
and never moves; the name is what people see, and it can be changed. A new name is
refused if another row has it, so a set of renames cannot simply be carried out one by
one: two rows that exchange their names block each other, whichever goes first.

`Table.Columns` says where the two columns of a row type are, `Table.Named` is a table
that carries both indexes, and its statements keep them.
-/

namespace Table

open List

/-- **Where a row keeps its identity and its name.** -/
structure Columns (α ι ν : Type) where
  id : α → ι
  name : α → ν
  setName : ν → α → α
  id_setName : ∀ n x, id (setName n x) = id x
  name_setName : ∀ n x, name (setName n x) = n
  setName_setName : ∀ n m x, setName n (setName m x) = setName n x

variable {α ι ν : Type}

variable {p : α → Bool} {f : α → α} {rows : List α}

/-- A selection by a column that the rewriting leaves alone can be made first. -/
theorem filter_update {q : α → Bool} (hq : ∀ r, q (f r) = q r) :
    (update p f rows).filter q = update p f (rows.filter q) := by
  unfold update
  rw [filter_map]
  refine congrArg _ (filter_congr fun r _ => ?_)
  show q (if p r then f r else r) = q r
  split
  · exact hq r
  · rfl

theorem update_congr {p' : α → Bool}
    (h : ∀ r ∈ rows, p r = p' r) : update p f rows = update p' f rows := by
  refine map_congr_left fun r hr => ?_
  rw [h r hr]

theorem update_eq_self (h : ∀ r ∈ rows, p r = false) : update p f rows = rows := by
  refine (map_congr_left fun r hr => ?_).trans (map_id rows)
  rw [h r hr]
  rfl

/-- **A table of named things**: identities are unique, and so are names. -/
structure Named (c : Columns α ι ν) where
  rows : List α
  ids_nodup : (rows.map c.id).Nodup
  names_nodup : (rows.map c.name).Nodup

attribute [simp] Columns.id_setName Columns.name_setName Columns.setName_setName

namespace Named

variable {c : Columns α ι ν}

def empty : Named c := ⟨[], nodup_nil, nodup_nil⟩

variable {t t' : Named c} {r r' : α}

theorem eq_of_id (hr : r ∈ t.rows) (hr' : r' ∈ t.rows) (h : c.id r = c.id r') : r = r' :=
  inj_on_of_nodup_map t.ids_nodup hr hr' h

theorem eq_of_name (hr : r ∈ t.rows) (hr' : r' ∈ t.rows) (h : c.name r = c.name r') : r = r' :=
  inj_on_of_nodup_map t.names_nodup hr hr' h

/-! ## Statements -/

/-- `DELETE`. -/
def delete (t : Named c) (p : α → Bool) : Named c where
  rows := t.rows.filter fun r => !p r
  ids_nodup := t.ids_nodup.sublist (filter_sublist.map _)
  names_nodup := t.names_nodup.sublist (filter_sublist.map _)

@[simp] theorem mem_delete : r ∈ (t.delete p).rows ↔ r ∈ t.rows ∧ p r = false := by
  simp [delete]

/-- `UPDATE`, of the other columns. -/
def update (t : Named c) (p : α → Bool) (f : α → α) (hid : ∀ r, c.id (f r) = c.id r)
    (hname : ∀ r, c.name (f r) = c.name r) : Named c where
  rows := Table.update p f t.rows
  ids_nodup := by
    rw [Table.map_update hid]
    exact t.ids_nodup
  names_nodup := by
    rw [Table.map_update hname]
    exact t.names_nodup

section Decidable

variable [DecidableEq ι] [DecidableEq ν]

def find? (t : Named c) (i : ι) : Option α := t.rows.find? fun r => c.id r = i

variable {i : ι}

omit [DecidableEq ν] in
theorem find?_eq_some (h : t.find? i = some r) : r ∈ t.rows ∧ c.id r = i := by
  have hfound := find?_some h
  exact ⟨mem_of_find?_eq_some h, of_decide_eq_true hfound⟩

/-- `INSERT`, refused if the identity or the name is there. -/
def insert (t : Named c) (x : α) : Option (Named c) :=
  if h : c.id x ∉ t.rows.map c.id ∧ c.name x ∉ t.rows.map c.name then
    some ⟨x :: t.rows, nodup_cons.mpr ⟨h.1, t.ids_nodup⟩, nodup_cons.mpr ⟨h.2, t.names_nodup⟩⟩
  else none

theorem insert_eq_some {x : α} (h : t.insert x = some t') :
    t'.rows = x :: t.rows ∧ c.id x ∉ t.rows.map c.id ∧ c.name x ∉ t.rows.map c.name := by
  unfold insert at h
  split at h
  case isTrue hx =>
    cases h
    exact ⟨rfl, hx⟩
  case isFalse => cases h

/-- The rows after the row `i` has taken the name `n`. -/
def renamed (c : Columns α ι ν) (i : ι) (n : ν) (rows : List α) : List α :=
  Table.update (fun r => c.id r = i) (c.setName n) rows

omit [DecidableEq ν] in
theorem map_id_renamed (i : ι) (n : ν) (rows : List α) :
    (renamed c i n rows).map c.id = rows.map c.id :=
  Table.map_update (c.id_setName n)

variable {n : ν}

omit [DecidableEq ν] in
theorem names_nodup_renamed (hn : ∀ r ∈ t.rows, c.id r ≠ i → c.name r ≠ n) :
    ((renamed c i n t.rows).map c.name).Nodup := by
  rw [renamed, Table.update, map_map]
  refine t.ids_nodup.of_map.map_on fun r hr r' hr' h => ?_
  simp only [Function.comp_apply, decide_eq_true_eq] at h
  by_cases hi : c.id r = i <;> by_cases hi' : c.id r' = i
  · exact eq_of_id hr hr' (hi.trans hi'.symm)
  · rw [if_pos hi, if_neg hi', c.name_setName] at h
    exact absurd h.symm (hn r' hr' hi')
  · rw [if_neg hi, if_pos hi', c.name_setName] at h
    exact absurd h (hn r hr hi)
  · rw [if_neg hi, if_neg hi'] at h
    exact eq_of_name hr hr' h

/-- `UPDATE` of the name, refused if another row has it. -/
def rename (t : Named c) (i : ι) (n : ν) : Option (Named c) :=
  if h : ∀ r ∈ t.rows, c.id r ≠ i → c.name r ≠ n then
    some ⟨renamed c i n t.rows, by rw [map_id_renamed]; exact t.ids_nodup, names_nodup_renamed h⟩
  else none

theorem rename_eq_some (h : t.rename i n = some t') : t'.rows = renamed c i n t.rows := by
  unfold rename at h
  split at h
  case isTrue => exact Option.some.inj h ▸ rfl
  case isFalse => cases h

end Decidable

end Named

end Table
