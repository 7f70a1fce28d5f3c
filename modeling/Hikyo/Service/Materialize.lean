import Hikyo.Store.CatalogueTables

/-!
# Materializing an environment

Whatever changes what an environment delivers ends here: a publication of drafts, an
import, a copy, a change of the definitions, the creation of the environment itself.
`materialize` resolves every declared key to the value it would have – the published one,
or the one of a draft that is being published –, checks the result as a whole, moves the
published cells and adds the next revision. The changes of the revision are computed from
the revision before it (`lineage`), on key names and on the rows the values come from and
never on the values.

The check of the resolved state is `validateResolvedPublish`: a required key is set, a
forbidden one is not, every value meets its declaration, and the members of a key group
are set together or absent together.
-/

namespace Hikyo.Catalogue

open Tx (ensure)
open RuleError (quoted)

/-- A declared key with what it resolves to. -/
structure ResolvedCell where
  key : Key
  value : Option String
  /-- the published row, or the empty string -/
  entryID : String
  /-- the value comes from a draft that was staged as a secret -/
  materialSecret : Bool

/-- **What materialization rests on**: the identifiers, the form in which values are
stored, the check of a value against the declaration of its key, and the checks of a whole
environment that are not about presence – parameters, sizes, storage. -/
structure Platform extends Minter where
  normalize : String → String
  normalize_normalize : ∀ v, normalize (normalize v) = normalize v
  checkValue : Key → String → String → Option ServiceError
  checkEnvironment : Tables → String → List ResolvedCell → Option ServiceError

namespace Tables

/-- The published row of a cell. -/
def valueEntry (s : Tables) (env keyID : String) : Option ValueEntry :=
  s.values.rows.find? fun v => v.cell = (env, keyID)

/-- The history of an environment. -/
def history (s : Tables) (env : String) : List Revision :=
  s.revisions.filter fun r => r.environmentID = env

/-- The revision with the highest number. -/
def latest (s : Tables) (env : String) : Option Revision :=
  (s.history env).argmax Revision.number

end Tables

/-! ## The resolved state -/

section

variable (P : Platform) (s : Tables) (env : String) (applies : List Draft)

variable (cells : List ResolvedCell)

/-- The draft that is being published for a key. -/
def applyFor (keyID : String) : Option Draft :=
  applies.find? fun d => d.keyID = keyID

/-- What a key resolves to: the published cell, overridden by the selection only. -/
def resolveCell (k : Key) : ResolvedCell :=
  let live := s.valueEntry env k.id
  let entryID := (live.map ValueEntry.id).getD ""
  match applyFor applies k.id with
  | none => ⟨k, live.map ValueEntry.value, entryID, false⟩
  | some d => ⟨k, d.value, if d.value.isNone then "" else entryID, false⟩

def resolvedCells : List ResolvedCell :=
  s.keys.rows.map (resolveCell s env applies)

/-! ## The checks -/

/-- One cell: presence, then the value. -/
def checkCell (cell : ResolvedCell) : Except ServiceError Unit :=
  match cell.value with
  | none =>
    ensure (cell.key.rules.required.covers env = false)
      (.invalid ("key " ++ quoted cell.key.name ++ " is `required_in` environment " ++ env ++
        " and resolves to absent: publish is vetoed"))
  | some value => do
    ensure (cell.key.rules.forbidden.covers env = false)
      (.invalid ("key " ++ quoted cell.key.name ++ " is `forbidden_in` environment " ++ env ++
        " and resolves to set: publish is vetoed"))
    match P.checkValue cell.key env value with
    | some e => .error e
    | none => .ok ()

/-- The members of a group. -/
def membersOf (groupID : String) : List ResolvedCell :=
  cells.filter fun cell => cell.key.groupID = groupID

/-- One group: all of its members are set, or none is. -/
def checkGroup (groupID : String) : Except ServiceError Unit :=
  let names := fun (set : Bool) => Table.orderBy (fun name : String => name)
    (((membersOf cells groupID).filter fun cell => cell.value.isSome = set).map
      fun cell => cell.key.name)
  ensure (names true = [] ∨ names false = [])
    (.invalid ("key group " ++ groupID ++ " resolves partially in environment " ++ env ++
      ": set [" ++ String.intercalate " " (names true) ++ "], absent [" ++
      String.intercalate " " (names false) ++ "]: a group's presence is all-or-none"))

/-- The groups that have a member. -/
def groupsOf : List String :=
  ((cells.map fun cell => cell.key.groupID).filter fun g => g ≠ "").dedup

/-- **`validateResolvedPublish`.** -/
def validateResolvedPublish : Except ServiceError Unit := do
  cells.forM (checkCell P env)
  (groupsOf cells).forM (checkGroup env cells)

/-! ## Moving the cells -/

/-- The cells that are published are written, each to a new row. -/
def moveCells (P : Platform) (env : String) (applies : List Draft) :
    Tables → List ResolvedCell → Tables × List ResolvedCell
  | s, [] => (s, [])
  | s, cell :: cells =>
    match applyFor applies cell.key.id with
    | none =>
      let rest := moveCells P env applies s cells
      (rest.1, cell :: rest.2)
    | some d =>
      match d.value with
      | none =>
        let rest := moveCells P env applies
          { s with values := s.values.delete fun v => v.cell = (env, cell.key.id) } cells
        (rest.1, cell :: rest.2)
      | some value =>
        let id := P.newID "val" s.minted
        let rest := moveCells P env applies
          { s with
            values := s.values.put ⟨id, env, cell.key.id, P.normalize value⟩
            minted := s.minted + 1 } cells
        (rest.1, { cell with entryID := id, materialSecret := d.materialSecret } :: rest.2)

/-! ## The revision -/

/-- What a cell delivers. -/
def ResolvedCell.entry? (cell : ResolvedCell) : Option Entry :=
  cell.value.map fun value =>
    ⟨cell.key.id, cell.key.name, cell.key.classification, value, cell.entryID⟩

/-- The change of an entry against the entries before. -/
def changeOf (before : List Entry) (e : Entry) : Option ChangedKey :=
  match before.find? fun prior => prior.keyID = e.keyID with
  | none => some ⟨e.keyID, e.keyName, .added⟩
  | some prior =>
    if prior.keyName ≠ e.keyName ∨ prior.valueEntryID ≠ e.valueEntryID then
      some ⟨e.keyID, e.keyName, .edited⟩
    else none

/-- The entries that are no longer there. -/
def removedFrom (before after : List Entry) : List ChangedKey :=
  (before.filter fun prior => prior.keyID ∉ after.map Entry.keyID).map
    fun prior => ⟨prior.keyID, prior.keyName, .removed⟩

/-- **`lineage`**: the number of the revision before, and what changed since, ordered by
name. -/
def lineage (latest : Option Revision) (after : List Entry) : ℕ × List ChangedKey :=
  let before := (latest.map Revision.entries).getD []
  ((latest.map Revision.number).getD 0,
    Table.orderBy ChangedKey.name (after.filterMap (changeOf before) ++ removedFrom before after))

/-- The published rows that are delivered as secrets. -/
def secretOccurrences : List String :=
  (cells.filter fun cell =>
    cell.value.isSome ∧ (cell.key.classification = .secret ∨ cell.materialSecret = true)).map
      ResolvedCell.entryID

/-- The next revision of an environment. -/
def nextRevision : Revision :=
  let entries := cells.filterMap ResolvedCell.entry?
  let line := lineage (s.latest env) entries
  { environmentID := env
    number := line.1 + 1
    schemaRevision := s.schemaRevision
    entries
    changes := line.2
    collected := false }

/-- **`materialize`**: resolve, check, move the cells, add the revision. -/
def materialize : Except ServiceError Tables := do
  let cells := resolvedCells s env applies
  validateResolvedPublish P env cells
  match P.checkEnvironment s env cells with
  | some e => .error e
  | none =>
    let moved := moveCells P env applies s cells
    return { moved.1 with
      revisions := nextRevision moved.1 env moved.2 :: moved.1.revisions
      occurrences := secretOccurrences moved.2 ++ moved.1.occurrences }

/-- `republish`: the environment as it is, under the definitions as they are. -/
def republish : Except ServiceError Tables :=
  materialize P s env []

/-- **`fanOut`**: every environment of the project. -/
def fanOut : Except ServiceError Tables :=
  s.environmentIDs.foldlM (republish P) s

end

end Hikyo.Catalogue
