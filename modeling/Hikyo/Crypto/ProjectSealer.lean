import Hikyo.Crypto.Envelope

/-!
# The project sealer

What a writer holds while it works on a project: every version of the project's
data key that could be opened when the sealer was built. It seals under the
newest of them and opens a record under the version the record's header names.
The set is fixed when the sealer is built; a rotation that happens later is not
seen. So a sealer may be stale, and `recordKeyVersion_sealRecord` says what can
be relied on all the same: what it seals names the version it reports.
-/

namespace Hikyo

open Tx (ensure skip)

/-- An unwrapped key. -/
structure KeyHandle where
  id : String
  version : UInt32
  key : Bytes
deriving DecidableEq, Repr

/-- The unwrapped versions of one key. -/
structure VersionSet where
  /-- the version new writes seal under -/
  active : UInt32
  /-- the handle of a version -/
  byVer : UInt32 → Option KeyHandle
  /-- a handle stands at its own version -/
  own_version : ∀ v h, byVer v = some h → h.version = v

/-- The set of the handles of a scope's rows; the newest version is active. -/
def buildVersionSet (handles : List KeyHandle) : VersionSet where
  active := handles.foldl (fun active h => if h.version > active then h.version else active) 0
  byVer v := handles.reverse.find? fun h => h.version = v
  own_version v h hfind := by simpa using List.find?_some hfind

/-- The handle new writes seal under; a missing one is the zero handle. -/
def VersionSet.activeHandle (vs : VersionSet) : KeyHandle :=
  (vs.byVer vs.active).getD ⟨"", 0, []⟩

structure ProjectSealer where
  orgID : String
  projectID : String
  deks : VersionSet

namespace ProjectSealer

section

variable (s : ProjectSealer) (A : Aead) (a : AAD)

def activeVersion : UInt32 := s.deks.active

def checkScope (orgID projectID : Bytes) : Except CryptoError Unit :=
  ensure (orgID = utf8 s.orgID ∧ projectID = utf8 s.projectID) .sealerScope

def checkAADScope : AAD → Except CryptoError Unit
  | .value a => s.checkScope a.orgID a.projectID
  | .projectField a => s.checkScope a.orgID a.projectID
  | a => .error (.sealerKind a.kind)

/-- Open a record under the version its header names. -/
def openVersioned (record : Bytes) : Except CryptoError Bytes := do
  let (h, _) ← parseHeader record
  match s.deks.byVer h.keyVersion with
  | none => .error .decrypt
  | some dek => Hikyo.openRecord A dek.key (utf8 dek.id) dek.version a record

def openRecord (record : Bytes) : Except CryptoError Bytes := do
  s.checkAADScope a
  s.openVersioned A a record

def sealRecord (rnd : Bytes) (a : AAD) (plaintext : Bytes) : Except CryptoError Bytes := do
  s.checkAADScope a
  let d := s.deks.activeHandle
  Hikyo.sealRecord A rnd d.key (utf8 d.id) d.version a plaintext

end

/-- **What a sealer seals names the version the sealer reports.** -/
theorem recordKeyVersion_sealRecord {s : ProjectSealer} {A : Aead} {rnd plaintext record : Bytes}
    {a : AAD} (h : s.sealRecord A rnd a plaintext = .ok record) :
    recordKeyVersion record = .ok s.activeVersion := by
  have hseal := skip h
  obtain ⟨-, hkey, hs, -, rfl⟩ := sealRecord_eq_ok.mp hseal
  rw [recordKeyVersion_append hs rfl]
  show Except.ok s.deks.activeHandle.version = .ok s.deks.active
  cases hactive : s.deks.byVer s.deks.active with
  | none =>
    -- the zero handle has no key, so nothing was sealed under it
    rw [VersionSet.activeHandle, hactive] at hkey
    cases hkey
  | some d =>
    rw [VersionSet.activeHandle, hactive]
    exact congrArg Except.ok (s.deks.own_version _ d hactive)

end ProjectSealer

end Hikyo
