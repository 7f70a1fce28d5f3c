import Hikyo.Lib.PrefixCode
import Hikyo.Crypto.AAD
import Hikyo.Store.ProjectTables

/-!
# The canonical encodings of a delivery

A fetch publishes two keyed values: the change token over the *manifest*, which
lists what is delivered, and the cursor over a tuple that holds the change token
together with whatever decides what the caller may see. Both are recomputed and
compared, so both encodings have to be injective. Every field is written behind
its length, every list behind its count; the manifest is sorted by key, and the
projection is sorted without repetitions, so neither depends on the order the
database gives the rows in.

`perm_of_manifest_eq` and `encodeCursor_inj` say what an encoding determines: the
rows up to their order, and every component of the tuple, the projection as a
set.
-/

namespace Hikyo

open List

/-- The classification as it is stored and printed. -/
def Classification.text : Classification → String
  | secret => "secret"
  | config => "config"

theorem Classification.text_injective : Function.Injective Classification.text := by
  intro a b h
  revert h
  cases a <;> cases b <;> decide

theorem utf8_injective : Function.Injective utf8 := by
  intro s t h
  have hbytes : s.toList.utf8Encode = t.toList.utf8Encode := congrArg List.toByteArray h
  rw [← String.toByteArray_ofList, ← String.toByteArray_ofList, String.toByteArray_inj,
    String.ofList_toList, String.ofList_toList] at hbytes
  exact hbytes

namespace Delivery

open PrefixCode (uvarint varint field counted)

/-! ## Modes and rows -/

/-- **The delivery projection**: which keys a fetch delivers at all. -/
inductive Mode where
  | full
  /-- no secret key is in the delivery or in its manifest -/
  | configOnly
deriving DecidableEq, Repr

def Mode.text : Mode → String
  | full => "full"
  | configOnly => "config-only"

theorem Mode.text_injective : Function.Injective Mode.text := by
  intro a b h
  revert h
  cases a <;> cases b <;> decide

/-- The mode a request names; the empty text is the default. -/
def normalizeMode (projection : String) : Option Mode :=
  if projection = "" ∨ projection = "full" then some .full
  else if projection = "config-only" then some .configOnly
  else none

/-- What a fetch reports about a key in one environment. -/
inductive Presence where
  | required
  | forbidden
  | optional
  /-- the snapshot delivers the key -/
  | set
deriving DecidableEq, Repr

/-- **One row of the manifest.** -/
structure Row where
  key : String
  classification : Classification
  /-- the value entry the plaintext comes from, or the empty string -/
  occurrence : String
  /-- the plaintext the snapshot delivers -/
  value : Bytes
deriving DecidableEq, Repr

/-! ## The manifest -/

/-- One field behind its length. -/
def appendField (dst s : Bytes) : Bytes := dst ++ uvarint.encode s.length ++ s

def manifestVersion : String := "v2"

/-- The four fields of a row. -/
def appendRow (out : Bytes) (r : Row) : Bytes :=
  appendField (appendField (appendField (appendField out (utf8 r.key))
    (utf8 r.classification.text)) (utf8 r.occurrence)) r.value

/-- **The bytes the change token is computed over.** -/
def manifest (rows : List Row) : Bytes :=
  let sorted := Table.orderBy Row.key rows
  let out := appendField [] (utf8 manifestVersion)
  let out := out ++ uvarint.encode sorted.length
  sorted.foldl appendRow out

/-- The fields of a row, as words. -/
def Row.words (r : Row) : Bytes × Bytes × Bytes × Bytes :=
  (utf8 r.key, utf8 r.classification.text, utf8 r.occurrence, r.value)

theorem Row.words_injective : Function.Injective Row.words := by
  rintro ⟨key, classification, occurrence, value⟩ ⟨key', classification', occurrence', value'⟩ h
  obtain ⟨hkey, h⟩ := Prod.mk.inj h
  obtain ⟨hclass, h⟩ := Prod.mk.inj h
  obtain ⟨hocc, hvalue⟩ := Prod.mk.inj h
  rw [Row.mk.injEq]
  exact ⟨utf8_injective hkey, Classification.text_injective (utf8_injective hclass),
    utf8_injective hocc, hvalue⟩

/-- A row as it stands in the manifest. -/
def rowCode : PrefixCode UInt8 Row :=
  ((field uvarint).prod ((field uvarint).prod ((field uvarint).prod (field uvarint)))).comap
    Row.words Row.words_injective

/-- The manifest as it is read: the version, then the counted rows. -/
def manifestCode : PrefixCode UInt8 (Bytes × List Row) :=
  (field uvarint).prod (counted uvarint rowCode)

theorem appendField_eq (dst s : Bytes) : appendField dst s = dst ++ (field uvarint).encode s :=
  append_assoc _ _ _

theorem appendRow_eq (out : Bytes) (r : Row) : appendRow out r = out ++ rowCode.encode r := by
  unfold appendRow
  rw [appendField_eq, appendField_eq, appendField_eq, appendField_eq]
  show _ = out ++ ((field uvarint).encode (utf8 r.key) ++
    ((field uvarint).encode (utf8 r.classification.text) ++
      ((field uvarint).encode (utf8 r.occurrence) ++ (field uvarint).encode r.value)))
  rw [append_assoc, append_assoc, append_assoc]

theorem foldl_appendRow : ∀ (rows : List Row) (out : Bytes),
    rows.foldl appendRow out = out ++ rows.flatMap rowCode.encode
  | [], out => (append_nil out).symm
  | r :: rows, out => by
    rw [foldl_cons, foldl_appendRow rows, appendRow_eq, flatMap_cons, append_assoc]

theorem manifest_eq (rows : List Row) :
    manifest rows = manifestCode.encode (utf8 manifestVersion, Table.orderBy Row.key rows) := by
  unfold manifest
  rw [foldl_appendRow, appendField_eq, nil_append, append_assoc]
  rfl

/-- **A manifest determines its rows**, up to their order. -/
theorem perm_of_manifest_eq {rows rows' : List Row} (h : manifest rows = manifest rows') :
    rows.Perm rows' := by
  rw [manifest_eq, manifest_eq] at h
  have hsorted := (Prod.mk.inj (manifestCode.encode_injective h)).2
  exact (Table.perm_orderBy Row.key rows).symm.trans
    (hsorted ▸ Table.perm_orderBy Row.key rows')

/-- The version comes first, behind its length. -/
theorem manifest_head (rows : List Row) : (manifest rows).head? = some 2 := by
  rw [manifest_eq]
  rfl

/-! ## The cursor -/

/-- **What a conditional fetch is bound to.** -/
structure Cursor where
  changeToken : String
  /-- the capabilities the caller holds at the environment, and the generation of
  the machine-reveal opt-in -/
  projection : List String
  /-- moves with every change of the principal's authority -/
  authorizationRevision : ℤ
  /-- moves with every pin of the principal in the environment -/
  pinGeneration : ℤ
  mode : Mode
  /-- the pinned revision when it is not the latest one, else 0 -/
  pinnedHistoricalRevision : ℤ
deriving DecidableEq, Repr

/-- Neighbours that are equal become one. -/
def compact {α : Type} [DecidableEq α] : List α → List α
  | [] => []
  | [a] => [a]
  | a :: b :: l => if a = b then compact (b :: l) else a :: compact (b :: l)

@[simp] theorem mem_compact {α : Type} [DecidableEq α] {x : α} :
    ∀ {l : List α}, x ∈ compact l ↔ x ∈ l
  | [] => Iff.rfl
  | [_] => Iff.rfl
  | a :: b :: l => by
    rw [compact]
    split
    case isTrue hab =>
      rw [mem_compact, hab, mem_cons (a := x) (b := b) (l := b :: l)]
      exact ⟨.inr, fun h => h.elim (fun hx => hx ▸ mem_cons_self) id⟩
    case isFalse => rw [mem_cons, mem_compact, mem_cons (l := b :: l)]

def cursorVersion : String := "v1"

/-- **The bytes the cursor is computed over.** -/
def encodeCursor (c : Cursor) : Bytes :=
  let projection := compact (Table.orderBy id c.projection)
  let out := appendField [] (utf8 cursorVersion)
  let out := appendField out (utf8 c.changeToken)
  let out := appendField out (utf8 c.mode.text)
  let out := out ++ uvarint.encode projection.length
  let out := projection.foldl (fun out p => appendField out (utf8 p)) out
  let out := out ++ varint.encode c.authorizationRevision
  let out := out ++ varint.encode c.pinGeneration
  out ++ varint.encode c.pinnedHistoricalRevision

/-- The components of a tuple in the order they are written. -/
def Cursor.words (c : Cursor) : Bytes × Bytes × Bytes × List String × ℤ × ℤ × ℤ :=
  (utf8 cursorVersion, utf8 c.changeToken, utf8 c.mode.text,
    compact (Table.orderBy id c.projection), c.authorizationRevision, c.pinGeneration,
    c.pinnedHistoricalRevision)

/-- The tuple as it is read. -/
def cursorCode : PrefixCode UInt8 (Bytes × Bytes × Bytes × List String × ℤ × ℤ × ℤ) :=
  (field uvarint).prod ((field uvarint).prod ((field uvarint).prod
    ((counted uvarint ((field uvarint).comap utf8 utf8_injective)).prod
      (varint.prod (varint.prod varint)))))

theorem foldl_appendField : ∀ (l : List String) (out : Bytes),
    l.foldl (fun out p => appendField out (utf8 p)) out =
      out ++ l.flatMap ((field uvarint).comap utf8 utf8_injective).encode
  | [], out => (append_nil out).symm
  | p :: l, out => by
    rw [foldl_cons, foldl_appendField l, appendField_eq, flatMap_cons, append_assoc]
    rfl

theorem encodeCursor_eq (c : Cursor) : encodeCursor c = cursorCode.encode c.words := by
  have hwords : cursorCode.encode c.words = (field uvarint).encode (utf8 cursorVersion) ++
      ((field uvarint).encode (utf8 c.changeToken) ++ ((field uvarint).encode (utf8 c.mode.text) ++
        ((counted uvarint ((field uvarint).comap utf8 utf8_injective)).encode
          (compact (Table.orderBy id c.projection)) ++
            (varint.encode c.authorizationRevision ++
              (varint.encode c.pinGeneration ++ varint.encode c.pinnedHistoricalRevision))))) := rfl
  unfold encodeCursor
  dsimp only
  rw [foldl_appendField, appendField_eq, appendField_eq, appendField_eq, nil_append, hwords]
  simp only [counted, append_assoc]

/-- **The tuple is determined by its encoding**, the projection as a set. -/
theorem encodeCursor_inj {c c' : Cursor} (h : encodeCursor c = encodeCursor c') :
    c.changeToken = c'.changeToken ∧ c.mode = c'.mode ∧
      (∀ p, p ∈ c.projection ↔ p ∈ c'.projection) ∧
      c.authorizationRevision = c'.authorizationRevision ∧ c.pinGeneration = c'.pinGeneration ∧
      c.pinnedHistoricalRevision = c'.pinnedHistoricalRevision := by
  rw [encodeCursor_eq, encodeCursor_eq] at h
  obtain ⟨-, h⟩ := Prod.mk.inj (cursorCode.encode_injective h)
  obtain ⟨htoken, h⟩ := Prod.mk.inj h
  obtain ⟨hmode, h⟩ := Prod.mk.inj h
  obtain ⟨hprojection, h⟩ := Prod.mk.inj h
  obtain ⟨hrevision, h⟩ := Prod.mk.inj h
  obtain ⟨hgeneration, hpinned⟩ := Prod.mk.inj h
  refine ⟨utf8_injective htoken, Mode.text_injective (utf8_injective hmode), fun p => ?_,
    hrevision, hgeneration, hpinned⟩
  calc p ∈ c.projection ↔ p ∈ compact (Table.orderBy id c.projection) := by simp
    _ ↔ p ∈ compact (Table.orderBy id c'.projection) := by rw [hprojection]
    _ ↔ p ∈ c'.projection := by simp

end Delivery

end Hikyo
