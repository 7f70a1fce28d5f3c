import Hikyo.Crypto.AAD
import Hikyo.Lib.Programs

/-!
# The offline snapshot store

Every delivering fetch leaves a sealed snapshot on the disk of the machine, to be
served from when the server cannot be reached. The snapshot describes itself: its
header – the scope it was fetched for, and what the server asserted with the
delivery – stands in the clear before the sealed payload and is the associated
data of the seal. Beside it stands the high-water mark, a second file with the
newest issuance that was saved and the digest of that snapshot's header.

`saveSnapshot` and `loadSnapshot` are the two operations as programs over the file system. Both
files are replaced by a rename, so a write either happens or does not; it may also happen and be
reported as failed, because the directory is synced after the rename. The cipher, JSON and the
clock's text format are the parameter `SnapshotFormat`, over any type of file contents; `byteFrame`
is the framing on disk.
-/

namespace Hikyo.Compose

open Tx (ensure)

/-! ## Bindings -/

/-- The locally known identity of one snapshot. -/
structure SnapshotScope where
  storageDir : String
  instanceOrigin : String
  orgID : String
  projectID : String
  environmentID : String
  credentialFingerprint : String
  configOnly : Bool
  targetNames : List String
deriving DecidableEq, Repr

/-- What the server asserted with the delivery. -/
structure SnapshotDelivery where
  credentialID : String
  pinnedRevision : ℤ
  changeToken : String
  projection : List String
  issuedAt : String
  expiresAt : String
deriving DecidableEq, Repr

/-- **A snapshot's identity**; without the delivery it only locates one. -/
structure SnapshotBinding where
  scope : SnapshotScope
  delivery : Option SnapshotDelivery
deriving DecidableEq, Repr

/-- The header of a snapshot, as it is serialized. -/
structure SnapshotAAD where
  instanceOrigin : String
  orgID : String
  projectID : String
  environmentID : String
  credentialID : String
  credentialFingerprint : String
  configOnly : Bool
  targetNames : List String
  pinnedRevision : ℤ
  changeToken : String
  projection : List String
  issuedAt : String
  expiresAt : String
deriving DecidableEq, Repr

structure SnapshotRow where
  name : String
  keyID : String
  classification : String
  value : String
  receipt : String
deriving DecidableEq, Repr

/-- **What a snapshot seals.** -/
structure SnapshotPayload where
  rows : List SnapshotRow
  generationStamps : List (String × String)
deriving DecidableEq, Repr

/-- The high-water mark. -/
structure HighWaterMark where
  issuedAt : String
  digest : String
deriving DecidableEq, Repr

/-- How saving or loading is refused. -/
inductive SnapshotError where
  | invalid (detail : String)
  | rollback
  | expired
  | context (detail : String)
  | framing
  | decrypt
  /-- a file could not be locked, read, listed or written -/
  | file (detail : String)
  /-- contents that do not parse -/
  | malformed (detail : String)
deriving DecidableEq, Repr

/-! ## What the store is given -/

/-- **A container**: a header in the clear, and what follows it. -/
structure SnapshotFrame (B : Type) where
  /-- the header fits the length prefix -/
  fits : B → Bool
  frame : B → B → B
  unframe : B → Option (B × B)
  unframe_frame : ∀ h c, fits h = true → unframe (frame h c) = some (h, c)

/-- **Contents, and what is done with them**: framing, serialization, the digest,
the cipher under the machine's snapshot key, and the clock's text format. -/
structure SnapshotFormat (B : Type) extends SnapshotFrame B where
  /-- an instant of the RFC 3339 text, in nanoseconds -/
  parseTime : String → Option ℤ
  formatTime : ℤ → String
  parseTime_formatTime : ∀ t, parseTime (formatTime t) = some t
  header : SnapshotAAD → B
  parseHeader : B → Option SnapshotAAD
  parseHeader_header : ∀ a, parseHeader (header a) = some a
  mark : HighWaterMark → B
  parseMark : B → Option HighWaterMark
  parseMark_mark : ∀ m, parseMark (mark m) = some m
  payload : SnapshotPayload → B
  parsePayload : B → Option SnapshotPayload
  parsePayload_payload : ∀ p, parsePayload (payload p) = some p
  scopeKey : SnapshotScope → String
  digest : B → String
  /-- sealing with given randomness, for a header -/
  sealSnapshot : B → B → B → B
  openSnapshot : B → B → Option B
  /-- the cipher is ideal: what it opens was sealed for that header -/
  openSnapshot_seal : ∀ r h h' p q,
    openSnapshot h (sealSnapshot r h' p) = some q → h = h' ∧ q = p

/-! ### The framing of byte strings -/

def snapshotMagic : Bytes := utf8 "HKS1"

def frameSnapshot (header sealed : Bytes) : Bytes :=
  snapshotMagic ++ (be32 (UInt32.ofNat header.length) ++ (header ++ sealed))

def unframeSnapshot (record : Bytes) : Option (Bytes × Bytes) :=
  if record.length < 8 then none
  else if record.take 4 ≠ snapshotMagic then none
  else
    let n := (uint32 (record.drop 4)).toNat
    if record.length < 8 + n then none
    else some ((record.drop 8).take n, record.drop (8 + n))

theorem unframeSnapshot_frameSnapshot {header sealed : Bytes} (h : header.length < 2 ^ 32) :
    unframeSnapshot (frameSnapshot header sealed) = some (header, sealed) := by
  have hmagic : snapshotMagic = [0x48, 0x4b, 0x53, 0x31] := by decide
  have hlength : (frameSnapshot header sealed).length = 8 + header.length + sealed.length := by
    simp [frameSnapshot, hmagic, be32]
    omega
  have htake : (frameSnapshot header sealed).take 4 = snapshotMagic := by
    rw [frameSnapshot, hmagic]
    rfl
  have hdrop : (frameSnapshot header sealed).drop 8 = header ++ sealed := by
    rw [frameSnapshot, hmagic]
    rfl
  have hn : (uint32 ((frameSnapshot header sealed).drop 4)).toNat = header.length := by
    have hcount : uint32 ((frameSnapshot header sealed).drop 4) =
        uint32 (be32 (UInt32.ofNat header.length)) := by
      rw [frameSnapshot, hmagic]
      rfl
    rw [hcount, uint32_be32]
    exact Nat.mod_eq_of_lt h
  unfold unframeSnapshot
  rw [if_neg (by omega), if_neg (not_not.mpr htake)]
  simp only [hn]
  rw [if_neg (by omega), ← List.drop_drop, hdrop, List.take_left, List.drop_left]

/-- The container as it is written to disk: a magic number, the length of the header in
four bytes, the header, the rest. -/
def byteFrame : SnapshotFrame Bytes where
  fits header := header.length < 2 ^ 32
  frame := frameSnapshot
  unframe := unframeSnapshot
  unframe_frame _ _ h := unframeSnapshot_frameSnapshot (of_decide_eq_true h)

/-! ## Validation -/

/-- The white space that is trimmed. -/
def isSpace (c : Char) : Bool :=
  c.toNat ∈ [0x09, 0x0a, 0x0b, 0x0c, 0x0d, 0x20, 0x85, 0xa0, 0x1680, 0x2028, 0x2029, 0x202f,
    0x205f, 0x3000] ∨ (0x2000 ≤ c.toNat ∧ c.toNat ≤ 0x200a)

def blank (s : String) : Bool := s.toList.all isSpace

/-- Sorted, without repetitions. -/
def canonicalStringSet (items : List String) : List String :=
  items.dedup.insertionSort (· ≤ ·)

def requireField (name value : String) : Except SnapshotError Unit :=
  ensure (blank value = false) (.invalid s!"crypto: snapshot binding {name} is required")

def canonicalRequiredSet (name : String) (items : List String) :
    Except SnapshotError (List String) := do
  ensure (items ≠ []) (.invalid s!"crypto: snapshot binding {name} set is required")
  ensure (∀ item ∈ items, blank item = false)
    (.invalid s!"crypto: snapshot binding {name} set contains an empty value")
  return canonicalStringSet items

def canonicalSnapshotScope (scope : SnapshotScope) : Except SnapshotError SnapshotScope := do
  requireField "storage dir" scope.storageDir
  requireField "instance origin" scope.instanceOrigin
  requireField "org id" scope.orgID
  requireField "project id" scope.projectID
  requireField "environment id" scope.environmentID
  requireField "credential fingerprint" scope.credentialFingerprint
  let targets ← canonicalRequiredSet "target" scope.targetNames
  return { scope with targetNames := targets }

variable {B : Type} (F : SnapshotFormat B)

/-- Parse an instant, naming the field that has it. -/
def readTime (field value : String) : Except SnapshotError ℤ :=
  match F.parseTime value with
  | some t => .ok t
  | none => .error (.invalid s!"{field} {value} is not RFC3339")

def canonicalSnapshotDelivery (delivery : SnapshotDelivery) :
    Except SnapshotError SnapshotDelivery := do
  requireField "credential id" delivery.credentialID
  requireField "change token" delivery.changeToken
  requireField "issued at" delivery.issuedAt
  requireField "expires at" delivery.expiresAt
  ensure (0 ≤ delivery.pinnedRevision)
    (.invalid "crypto: snapshot binding pinned revision must not be negative")
  let projection ← canonicalRequiredSet "projection" delivery.projection
  let issued ← readTime F "crypto: snapshot binding issued_at" delivery.issuedAt
  let expires ← readTime F "crypto: snapshot binding expires_at" delivery.expiresAt
  ensure (issued < expires) (.invalid "crypto: snapshot binding expires_at must be after issued_at")
  return { delivery with
    issuedAt := F.formatTime issued
    expiresAt := F.formatTime expires
    projection := projection }

/-- The bytes of a header; the two lists are canonical in them. -/
def SnapshotAAD.canonical (a : SnapshotAAD) : B :=
  F.header { a with
    targetNames := canonicalStringSet a.targetNames
    projection := canonicalStringSet a.projection }

namespace SnapshotBinding

section

variable (b : SnapshotBinding)

def new (scope : SnapshotScope) : Except SnapshotError SnapshotBinding := do
  let canonical ← canonicalSnapshotScope scope
  return ⟨canonical, none⟩

def validateScope : Except SnapshotError Unit := do
  let _ ← canonicalSnapshotScope b.scope

/-- Complete a binding; a binding is completed once. -/
def withDelivery (delivery : SnapshotDelivery) : Except SnapshotError SnapshotBinding := do
  b.validateScope
  ensure (b.delivery = none) (.invalid "crypto: snapshot binding already has delivery fields")
  let canonical ← canonicalSnapshotDelivery F delivery
  return { b with delivery := some canonical }

/-- The delivery of a complete binding. -/
def complete : Except SnapshotError SnapshotDelivery := do
  b.validateScope
  match b.delivery with
  | none => .error (.invalid "crypto: snapshot binding has no delivery fields")
  | some delivery => do
    let _ ← canonicalSnapshotDelivery F delivery
    return delivery

def aad : Except SnapshotError SnapshotAAD := do
  let delivery ← b.complete F
  return {
    instanceOrigin := b.scope.instanceOrigin
    orgID := b.scope.orgID
    projectID := b.scope.projectID
    environmentID := b.scope.environmentID
    credentialID := delivery.credentialID
    credentialFingerprint := b.scope.credentialFingerprint
    configOnly := b.scope.configOnly
    targetNames := b.scope.targetNames
    pinnedRevision := delivery.pinnedRevision
    changeToken := delivery.changeToken
    projection := delivery.projection
    issuedAt := delivery.issuedAt
    expiresAt := delivery.expiresAt }

def canonicalAAD : Except SnapshotError B := do
  let a ← b.aad F
  return a.canonical F

def storageDir : Except SnapshotError String := do
  b.validateScope
  return b.scope.storageDir

/-- The slot of a scope; the directory is only a locator and not part of it. -/
def storageKey : Except SnapshotError String := do
  b.validateScope
  return F.scopeKey { b.scope with storageDir := "" }

/-- The slot a scope had when the directory was part of it. -/
def legacyStorageKey : Except SnapshotError String := do
  b.validateScope
  return F.scopeKey b.scope

end

/-- The binding a header describes. -/
def parse (storageDir : String) (header : B) : Except SnapshotError SnapshotBinding :=
  match F.parseHeader header with
  | none => .error (.malformed "crypto: parse snapshot header")
  | some a => do
    let b ← new {
      storageDir := storageDir
      instanceOrigin := a.instanceOrigin
      orgID := a.orgID
      projectID := a.projectID
      environmentID := a.environmentID
      credentialFingerprint := a.credentialFingerprint
      configOnly := a.configOnly
      targetNames := a.targetNames }
    b.withDelivery F {
      credentialID := a.credentialID
      pinnedRevision := a.pinnedRevision
      changeToken := a.changeToken
      projection := a.projection
      issuedAt := a.issuedAt
      expiresAt := a.expiresAt }

/-- The locally knowable parts of two bindings agree. -/
def contextMatches (b expect : SnapshotBinding) : Except SnapshotError Unit := do
  let _ ← b.complete F
  expect.validateScope
  ensure (b.scope.instanceOrigin = expect.scope.instanceOrigin) (.context "instance")
  ensure (b.scope.orgID = expect.scope.orgID) (.context "org")
  ensure (b.scope.projectID = expect.scope.projectID) (.context "project")
  ensure (b.scope.environmentID = expect.scope.environmentID) (.context "environment")
  ensure (b.scope.credentialFingerprint = expect.scope.credentialFingerprint)
    (.context "credential")
  ensure (b.scope.configOnly = expect.scope.configOnly) (.context "config_only")
  ensure (b.scope.targetNames = expect.scope.targetNames) (.context "target set")

end SnapshotBinding

section

variable (expect : SnapshotBinding) (path : FilePath) (binding : SnapshotBinding) (dir : String)

def SnapshotPayload.validateReceipts (p : SnapshotPayload) : Except SnapshotError Unit :=
  ensure (∀ row ∈ p.rows, blank row.receipt = false)
    (.invalid "compose: snapshot lacks server-authenticated delivery receipts")

/-! ## Files -/

/-- The slots of a state directory: one for each scope, and the former shared one. -/
inductive Slot where
  | keyed (key : String)
  | shared
deriving DecidableEq, Repr

/-- The names in a state directory: `snapshot-<key>.bin` and `snapshot-<key>.hwm`, the
shared `snapshot.bin` and `snapshot.hwm`, and the rest. -/
inductive FileName where
  | snapshot (slot : Slot)
  | mark (slot : Slot)
  | other (name : String)
deriving DecidableEq, Repr

structure FilePath where
  dir : String
  name : FileName
deriving DecidableEq, Repr

def FilePath.isMark (p : FilePath) : Bool :=
  match p.name with
  | .mark _ => true
  | _ => false

/-- **The files of the machine.** -/
abbrev Files (B : Type) := Table.Keyed (Prod.fst : FilePath × B → FilePath)

inductive FileCall (B : Type) where
  | lock (dir : String)
  | read (path : FilePath)
  | list (dir : String)
  | write (path : FilePath) (data : B)

@[reducible] def FileCall.Answer : FileCall B → Type
  | .lock _ => Bool
  | .read _ => Option (Option B)
  | .list _ => Option (List FileName)
  | .write _ _ => Bool

/-- How a call ends. A write is a rename and a sync of the directory: the second may
fail after the first has happened. -/
inductive FileChoice where
  | success
  | failure
  | lateFailure
deriving DecidableEq, Repr

def execFile : (c : FileCall B) → FileChoice → Files B → c.Answer × Files B
  | .lock _, .success, s => (true, s)
  | .lock _, _, s => (false, s)
  | .read p, .success, s => (some ((s.find? p).map Prod.snd), s)
  | .read _, _, s => (none, s)
  | .list d, .success, s => (some ((s.rows.filter fun f => f.1.dir = d).map fun f => f.1.name), s)
  | .list _, _, s => (none, s)
  | .write p data, .success, s => (true, s.put (p, data))
  | .write _ _, .failure, s => (false, s)
  | .write p data, .lateFailure, s => (false, s.put (p, data))

/-- Programs over the files that may be refused. -/
abbrev FileProgram (B : Type) := ExceptT SnapshotError (Prog (FileCall B) FileCall.Answer)

def ofExcept {α : Type} (x : Except SnapshotError α) : FileProgram B α := ExceptT.mk (pure x)

def lockSnapshots : FileProgram B Unit := ExceptT.mk do
  match ← Prog.ask (FileCall.lock dir) with
  | true => return .ok ()
  | false => return .error (.file "compose: lock snapshot state")

/-- Read a file; a file that is not there is no error. -/
def readFile : FileProgram B (Option B) := ExceptT.mk do
  match ← Prog.ask (FileCall.read path) with
  | some content => return .ok content
  | none => return .error (.file "compose: read")

def readDir : FileProgram B (List FileName) := ExceptT.mk do
  match ← Prog.ask (FileCall.list dir) with
  | some names => return .ok names
  | none => return .error (.file "compose: discover prior snapshot slots")

def atomicWrite (data : B) : FileProgram B Unit := ExceptT.mk do
  match ← Prog.ask (FileCall.write path data) with
  | true => return .ok ()
  | false => return .error (.file "compose: write")

/-! ## The high-water mark -/

/-- The paths of a binding: its snapshot and its mark. -/
def snapshotPaths (b : SnapshotBinding) : Except SnapshotError (FilePath × FilePath) := do
  let dir ← b.storageDir
  let key ← b.storageKey F
  return (⟨dir, .snapshot (.keyed key)⟩, ⟨dir, .mark (.keyed key)⟩)

/-- A former slot that has a snapshot of the scope. -/
structure CompatibleSnapshot (B : Type) where
  slot : Slot
  record : B
  issued : ℤ

/-- A name of a former slot: the shared one, or one with a digest for a key. -/
def Slot.isFormer : Slot → Bool
  | .shared => true
  | .keyed key => key.length = 64 ∧ key.toList.all fun c =>
      ('0' ≤ c ∧ c ≤ '9') ∨ ('a' ≤ c ∧ c ≤ 'f') ∨ ('A' ≤ c ∧ c ≤ 'F')

/-- What a record in a former slot is worth: nothing unless its scope matches and its
seal opens. -/
def compatibleRecord (slot : Slot) (record : B) :
    Except SnapshotError (Option (CompatibleSnapshot B)) :=
  match F.unframe record with
  | none => .ok none
  | some (header, sealed) =>
    match SnapshotBinding.parse F dir header with
    | .error _ => .ok none
    | .ok binding =>
      if binding.contextMatches F expect = .ok () ∧ (F.openSnapshot header sealed).isSome then do
        let aad ← binding.aad F
        let issued ← readTime F "issued_at" aad.issuedAt
        return some ⟨slot, record, issued⟩
      else .ok none

/-- The loop over the directory's entries. -/
def scanSlots (expect : SnapshotBinding) (dir : String) (current : FilePath) :
    List FileName → FileProgram B (List (CompatibleSnapshot B))
  | [] => pure []
  | .snapshot slot :: names =>
    if slot.isFormer = true ∧ (⟨dir, .snapshot slot⟩ : FilePath) ≠ current then do
      match ← readFile ⟨dir, .snapshot slot⟩ with
      | none => ofExcept (.error (.file "compose: read prior snapshot slot"))
      | some record => do
        let found ← ofExcept (compatibleRecord F expect dir slot record)
        let rest ← scanSlots expect dir current names
        return found.toList ++ rest
    else scanSlots expect dir current names
  | _ :: names => scanSlots expect dir current names

/-- The former slots whose snapshot is of the scope. -/
def compatibleSnapshots : FileProgram B (List (CompatibleSnapshot B)) := do
  let dir ← ofExcept expect.storageDir
  let paths ← ofExcept (snapshotPaths F expect)
  let names ← readDir dir
  scanSlots F expect dir paths.1 names

/-- The recorded mark, if there is one. -/
def readHWM : FileProgram B (Option HighWaterMark) := do
  match ← readFile path with
  | none => return none
  | some content =>
    match F.parseMark content with
    | some m => return some m
    | none => ofExcept (.error (.malformed "compose: parse high-water mark"))

/-- The marks at some paths, each with its instant. -/
def readMarks : List FilePath → FileProgram B (List (HighWaterMark × ℤ))
  | [] => pure []
  | path :: paths => do
    match ← readHWM F path with
    | none => readMarks paths
    | some m => do
      let issued ← ofExcept (readTime F "compose: high-water mark" m.issuedAt)
      let rest ← readMarks paths
      return (m, issued) :: rest

/-- The first of the newest marks. -/
def newestMark : List (HighWaterMark × ℤ) → Option (HighWaterMark × ℤ)
  | [] => none
  | m :: ms =>
    match newestMark ms with
    | none => some m
    | some m' => if m.2 < m'.2 then some m' else some m

/-- **The mark of a scope**: the newest over its own slot and all former slots. -/
def snapshotHWM (b : SnapshotBinding) : FileProgram B (Option (HighWaterMark × ℤ)) := do
  let paths ← ofExcept (snapshotPaths F b)
  let dir ← ofExcept b.storageDir
  let legacyKey ← ofExcept (b.legacyStorageKey F)
  let compatible ← compatibleSnapshots F b
  let marks ← readMarks F ([paths.2, ⟨dir, .mark (.keyed legacyKey)⟩] ++
    compatible.map fun c => ⟨dir, .mark c.slot⟩)
  match newestMark marks with
  | none => return none
  | some newest =>
    ofExcept (ensure (∀ m ∈ marks, m.2 = newest.2 → m.1.digest = newest.1.digest) .rollback)
    return some newest

/-- What the mark allows: an issuance that is newer, or that is the marked snapshot. -/
def checkMark (mark : Option (HighWaterMark × ℤ)) (issued : ℤ) (digest : String) :
    Except SnapshotError Unit :=
  match mark with
  | none => .ok ()
  | some (m, t) => do
    ensure (¬ issued < t) .rollback
    ensure (¬ (issued = t ∧ digest ≠ m.digest)) .rollback

/-! ## Saving and loading -/

/-- What a save writes: the container and the mark, each with its place. -/
structure SaveFiles (B : Type) where
  snapshot : FilePath
  container : B
  hwm : FilePath
  mark : B
  issued : ℤ

/-- The part of a save that reads no file. -/
def prepareSave (payload : SnapshotPayload) (rnd : B) :
    Except SnapshotError (SaveFiles B × String) := do
  payload.validateReceipts
  let header ← binding.canonicalAAD F
  let aad ← binding.aad F
  let issued ← readTime F "compose: snapshot issued_at" aad.issuedAt
  ensure (F.fits header = true)
    (.invalid "compose: snapshot header exceeds the framing limit")
  let paths ← snapshotPaths F binding
  let digest := F.digest header
  return (⟨paths.1, F.frame header (F.sealSnapshot rnd header (F.payload payload)), paths.2,
    F.mark ⟨aad.issuedAt, digest⟩, issued⟩, digest)

/-- **Save a snapshot**: refuse an issuance older than the mark, write the snapshot,
then advance the mark. -/
def saveSnapshot (payload : SnapshotPayload) (rnd : B) : FileProgram B Unit := do
  let (files, digest) ← ofExcept (prepareSave F binding payload rnd)
  lockSnapshots files.snapshot.dir
  let mark ← snapshotHWM F binding
  ofExcept (checkMark mark files.issued digest)
  atomicWrite files.snapshot files.container
  atomicWrite files.hwm files.mark

/-- The zero of the clock, 1 January of year 1. -/
def zeroTime : ℤ := -62135596800000000000

/-- The newest of the former slots; the first one if several are. -/
def newestCompatible (cs : List (CompatibleSnapshot B)) : Option (CompatibleSnapshot B) :=
  (cs.foldl (fun best c => if best.2 < c.issued then (some c, c.issued) else best)
    (none, zeroTime)).1

/-- Where a load finds its record: the scope's slot, a former slot, the shared slot. -/
def locateSnapshot : FileProgram B B := do
  let dir ← ofExcept expect.storageDir
  let paths ← ofExcept (snapshotPaths F expect)
  match ← readFile paths.1 with
  | some record => return record
  | none => do
    let compatible ← compatibleSnapshots F expect
    match newestCompatible compatible with
    | some c => return c.record
    | none => do
      match ← readFile ⟨dir, .snapshot .shared⟩ with
      | some record => return record
      | none => ofExcept (.error (.file "compose: read snapshot"))

/-- What is left to do once the record and the mark are read. -/
def openLocated (header sealed : B) (issued expires : ℤ) (mark : Option (HighWaterMark × ℤ))
    (now maxAge : ℤ) : Except SnapshotError (SnapshotPayload × SnapshotBinding) := do
  checkMark mark issued (F.digest header)
  ensure (¬ min expires (issued + maxAge) < now) .expired
  match F.openSnapshot header sealed with
  | none => .error .decrypt
  | some plaintext =>
    match F.parsePayload plaintext with
    | none => .error (.malformed "compose: parse snapshot payload")
    | some payload => do
      payload.validateReceipts
      return (payload, binding)

/-- **Load a snapshot** for a scope. -/
def loadSnapshot (now maxAge : ℤ) : FileProgram B (SnapshotPayload × SnapshotBinding) := do
  ofExcept expect.validateScope
  let dir ← ofExcept expect.storageDir
  lockSnapshots dir
  let record ← locateSnapshot F expect
  match F.unframe record with
  | none => ofExcept (.error .framing)
  | some (header, sealed) => do
    let binding ← ofExcept (SnapshotBinding.parse F dir header)
    ofExcept (binding.contextMatches F expect)
    let aad ← ofExcept (binding.aad F)
    let issued ← ofExcept (readTime F "compose: snapshot issued_at" aad.issuedAt)
    let expires ← ofExcept (readTime F "compose: snapshot expires_at" aad.expiresAt)
    let mark ← snapshotHWM F expect
    ofExcept (openLocated F binding header sealed issued expires mark now maxAge)

end

end Hikyo.Compose
