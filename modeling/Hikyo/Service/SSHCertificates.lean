import Hikyo.Authz.Authorize

/-!
# SSH user certificates

An environment keeps certificate authorities. An authority is a name for a sequence of signing
keys: one is active and signs, the ones before it may still be trusted for an overlap, the others
are retired. A profile says who may ask for a certificate and what it may say. A certificate is
revoked by its requester or an administrator, with its profile, or by the sweep once its requester
may not ask any more.

Hosts see none of this. They follow two documents of the authority: the trust bundle
(`trustedKeys`), which is a list of public keys, and the revocation list (`krl`), which lists
serials under public keys. Both are computed when they are read, by two different queries.

Times are nanoseconds, as the clock of the service gives them; the store keeps
microseconds (`canonTime`). The results of the authorizer and of the reauthentication
gate are inputs of a call.
-/

namespace Hikyo.SSH

open Tx (ensure)

/-! ## Keys, serials, times -/

/-- **The public keys of the platform**: how a key is written as one line of text, and
how such a line is read. -/
structure KeyCodec (κ : Type) where
  authorizedKey : κ → String
  parsePublicKey : String → Option κ
  /-- a line that was written is read as the key it was written for -/
  parse_authorizedKey : ∀ key, parsePublicKey (authorizedKey key) = some key

/-- **A serial**, as `NewSerial` draws it: it fits a signed column, and it is not zero,
which a revocation list cannot hold. -/
structure Serial where
  value : ℕ
  pos : 0 < value
  fits : value < 2 ^ 63
deriving DecidableEq, Repr

def second : ℤ := 1000000000

/-- The time as the store keeps it. -/
def canonTime (now : ℤ) : ℤ := now - now % 1000

theorem canonTime_le (now : ℤ) : canonTime now ≤ now := by
  unfold canonTime
  omega

/-- Whole seconds, as a certificate states its validity. -/
def unix (t : ℤ) : ℤ := t / second

/-- The bound of a rotation overlap, in seconds. -/
def maxOverlap : ℤ := 30 * 24 * 60 * 60

/-- The bounds of a validity, in seconds. -/
def minTTL : ℤ := 60

def maxTTL : ℤ := 30 * 24 * 60 * 60

/-- A second count of a caller, bounded before it is used. -/
def sshSeconds (field : String) (seconds limit : ℤ) : Except ServiceError Unit :=
  ensure (0 ≤ seconds ∧ seconds ≤ limit)
    (.invalid (field ++ " must be between 0 and " ++ toString limit ++ " seconds"))

/-! ## Rows -/

inductive CAState where
  | active
  | tombstoned
deriving DecidableEq, Repr

structure CA where
  id : String
  name : String
  state : CAState
  /-- who configured it -/
  authority : String
deriving DecidableEq, Repr

inductive KeyState where
  | active
  /-- trusted until `retire_after`, never signing again -/
  | retiring
  | retired
deriving DecidableEq, Repr

/-- A signing key of an authority. The column holds the text of the public key. -/
structure CAKey (κ : Type) where
  id : String
  caID : String
  publicKey : κ
  state : KeyState
  createdAt : ℤ
  retireAfter : Option ℤ
deriving DecidableEq, Repr

inductive ProfileState where
  | enabled
  | disabled
  | tombstoned
deriving DecidableEq, Repr

inductive Algorithm where
  | ed25519
  | ecdsaP256
  | rsa3072
deriving DecidableEq, Repr

inductive Extension where
  | agentForwarding
  | portForwarding
  | pty
  | userRC
  | x11Forwarding
deriving DecidableEq, Repr

/-- A profile. Its lists are canonical: validated, sorted, without duplicates. -/
structure Profile where
  id : String
  caID : String
  name : String
  principals : List String
  extensions : List Extension
  keyAlgorithms : List Algorithm
  defaultTTL : ℤ
  maxTTL : ℤ
  state : ProfileState
deriving DecidableEq, Repr

/-- A line of the requester list of a profile. -/
structure Requester where
  profileID : String
  principal : String
deriving DecidableEq, Repr

inductive CertificateState where
  | issued
  | revoked
deriving DecidableEq, Repr

inductive RevocationReason where
  | explicit
  | authorityWithdrawn
  | profileDeleted
deriving DecidableEq, Repr

structure Certificate where
  id : String
  caID : String
  caKeyID : String
  profileID : String
  serial : Serial
  principals : List String
  extensions : List Extension
  validBefore : ℤ
  requester : String
  state : CertificateState
  revocationReason : Option RevocationReason
deriving DecidableEq, Repr

/-- Within one authority a serial is used once. -/
def Certificate.serialKey (c : Certificate) : String × ℕ := (c.caID, c.serial.value)

/-- **The rows of an environment.** -/
structure SSHTables (κ : Type) where
  cas : Table.Keyed CA.id
  keys : Table.Keyed (CAKey.id (κ := κ))
  profiles : Table.Keyed Profile.id
  requesters : List Requester
  certificates : Table.Keyed Certificate.serialKey

namespace SSHTables

variable {κ : Type}

def initial : SSHTables κ := ⟨.empty, .empty, .empty, [], .empty⟩

variable (s : SSHTables κ)

/-- A live authority. -/
def getCA (caID : String) : Except ServiceError CA :=
  match s.cas.rows.find? fun ca => ca.id = caID ∧ ca.state = .active with
  | some ca => .ok ca
  | none => .error .hidden

/-- `ORDER BY created_at DESC, id DESC`. -/
def caKeys (caID : String) : List (CAKey κ) :=
  ((Table.orderBy (fun k => toLex (k.createdAt, k.id)) s.keys.rows).reverse).filter
    fun k => k.caID = caID

def getProfile (profileID : String) : Except ServiceError Profile :=
  match s.profiles.rows.find? fun p => p.id = profileID ∧ p.state ≠ .tombstoned with
  | some p => .ok p
  | none => .error .hidden

def isRequester (profileID principal : String) : Prop := ⟨profileID, principal⟩ ∈ s.requesters

instance (profileID principal : String) : Decidable (s.isRequester profileID principal) :=
  inferInstanceAs (Decidable (_ ∈ _))

def getCertificate (id : String) : Except ServiceError Certificate :=
  match s.certificates.rows.find? fun c => c.id = id with
  | some c => .ok c
  | none => .error .hidden

/-- The active key of a live authority. -/
def activeCAKey (caID : String) : Except ServiceError (CAKey κ) := do
  let _ ← s.getCA caID
  match s.keys.rows.find? fun k => k.caID = caID ∧ k.state = .active with
  | some k => .ok k
  | none => .error .hidden

/-! ### Statements -/

/-- The material of a signing key: a fresh row identifier and the key. -/
structure KeyMaterial (κ : Type) where
  id : String
  publicKey : κ
deriving DecidableEq, Repr

/-- `SSHCreateCA`, with the index on the names of live authorities. -/
def createCA (id name authority : String) : Except ServiceError (SSHTables κ) := do
  ensure (∀ ca ∈ s.cas.rows, ca.state = .active → ca.name ≠ name) (.conflict "")
  match s.cas.insert ⟨id, name, .active, authority⟩ with
  | none => .error (.conflict "")
  | some cas => .ok { s with cas }

/-- `SSHInsertCAKey`, with the index that allows one active key. -/
def insertCAKey (caID : String) (material : KeyMaterial κ) (now : ℤ) :
    Except ServiceError (SSHTables κ) := do
  let ca ← s.getCA caID
  ensure (∀ k ∈ s.keys.rows, k.caID = ca.id → k.state ≠ .active) (.conflict "")
  match s.keys.insert ⟨material.id, ca.id, material.publicKey, .active, now, none⟩ with
  | none => .error (.conflict "")
  | some keys => .ok { s with keys }

/-- An `UPDATE` of the columns of a key that change. -/
def updateKeys (p : CAKey κ → Bool) (state : KeyState) (retireAfter : Option ℤ) : SSHTables κ :=
  { s with
    keys := s.keys.update p
      (fun k => { k with state, retireAfter := retireAfter.or k.retireAfter }) fun _ => rfl }

/-- `SSHRetireActiveCAKey`. -/
def retireActiveCAKey (caID : String) (retireAfter : ℤ) : Except ServiceError (SSHTables κ) :=
  match s.keys.rows.find? fun k => k.caID = caID ∧ k.state = .active with
  | none => .error .hidden
  | some key =>
    .ok (s.updateKeys (fun k => k.id = key.id ∧ k.state = .active) .retiring (some retireAfter))

/-- `SSHDeleteCA` and `SSHRetireAllCAKeys`. -/
def deleteCA (caID : String) : SSHTables κ :=
  let cas := s.cas.update (fun ca => ca.id = caID ∧ ca.state = .active)
    (fun ca => { ca with state := .tombstoned }) fun _ => rfl
  ({ s with cas }).updateKeys (fun k => k.caID = caID ∧ k.state ≠ KeyState.retired) .retired none

/-- `SSHRevokeCertificate`: an issued certificate is revoked, a revoked one stays as it
is. -/
def revokeWhere (p : Certificate → Bool) (reason : RevocationReason) : SSHTables κ :=
  { s with
    certificates := s.certificates.update (fun c => p c && c.state = .issued)
      (fun c => { c with state := .revoked, revocationReason := some reason }) fun _ => rfl }

/-- The live certificates of a profile, all of them or those whose requester is not kept. -/
def revokeProfileCertificates (profileID : String) (reason : RevocationReason)
    (keep : List String) (all : Bool) (now : ℤ) : SSHTables κ :=
  s.revokeWhere
    (fun c => c.profileID = profileID ∧ now < c.validBefore ∧ (all = true ∨ c.requester ∉ keep))
    reason

/-- `SSHActiveKeyLastExpiry`: the latest expiry among the live certificates the active key
signed. -/
def activeKeyLastExpiry (caID : String) (now : ℤ) : Option ℤ :=
  ((s.certificates.rows.filter fun c => c.caID = caID ∧ c.state = .issued ∧ now < c.validBefore ∧
      ∃ k ∈ s.keys.rows, k.id = c.caKeyID ∧ k.state = .active).map Certificate.validBefore).max?

/-- `SSHInsertCertificate`: only while the key is active and the profile enabled. -/
def insertCertificate (c : Certificate) : Except ServiceError (SSHTables κ) := do
  ensure (∃ k ∈ s.keys.rows, k.id = c.caKeyID ∧ k.caID = c.caID ∧ k.state = .active)
    (.conflict "")
  ensure (∃ p ∈ s.profiles.rows, p.id = c.profileID ∧ p.caID = c.caID ∧ p.state = .enabled)
    (.conflict "")
  ensure (∀ c' ∈ s.certificates.rows, c'.id ≠ c.id) (.conflict "")
  match s.certificates.insert c with
  | none => .error (.conflict "")
  | some certificates => .ok { s with certificates }

end SSHTables

open SSHTables (KeyMaterial)

variable {κ : Type}

/-! ## What hosts read -/

section

variable (w : KeyCodec κ) (s : SSHTables κ) (admission : Admission) (caID : String)

variable (id name : String) (material : KeyMaterial κ) (now : ℤ)

/-- A key is accepted by the hosts that follow the trust bundle. -/
def keyTrusted (k : CAKey κ) (now : ℤ) : Bool :=
  match k.state with
  | .active => true
  | .retiring =>
    match k.retireAfter with
    | some t => now < t
    | none => false
  | .retired => false

/-- A line of the trust bundle. -/
structure TrustedLine where
  publicKey : String
  caName : String
  keyID : String
deriving DecidableEq, Repr

def TrustedLine.text (l : TrustedLine) : String :=
  l.publicKey ++ " hikyo-ssh-ca:" ++ l.caName ++ ":" ++ l.keyID ++ "\n"

/-- **The trust bundle** of an authority: the active key, and the retiring ones inside
their overlap. -/
def trustedKeys : Except ServiceError (List TrustedLine) := do
  let ca ← s.getCA caID
  return ((s.caKeys ca.id).filter fun k => ca.state = .active && keyTrusted k now).map
    fun k => ⟨w.authorizedKey k.publicKey, ca.name, k.id⟩

/-- One row of the query behind the revocation list. -/
structure RevokedSerial where
  keyID : String
  caKeyPublicKey : String
  serial : ℕ
deriving DecidableEq, Repr

/-- A revoked certificate that has not expired, joined with its key if that is active or
inside its overlap. -/
def revokedSerial (c : Certificate) : Option RevokedSerial :=
  if c.caID = caID ∧ c.state = .revoked ∧ now < c.validBefore then
    (s.keys.rows.find? fun k => k.id = c.caKeyID ∧ keyTrusted k now = true).map
      fun k => ⟨k.id, w.authorizedKey k.publicKey, c.serial.value⟩
  else none

/-- `SSHRevokedSerials`. -/
def revokedSerials (limit : ℕ) : List RevokedSerial :=
  (Table.orderBy (fun r => toLex (r.keyID, r.serial))
    (s.certificates.rows.filterMap (revokedSerial w s caID now))).take limit

/-- The serials revoked under one public key. -/
structure KRLSection (κ : Type) where
  caKey : κ
  serials : List ℕ
deriving DecidableEq, Repr

/-- **A revocation list.** -/
structure KRL (κ : Type) where
  version : ℤ
  generatedAt : ℤ
  comment : String
  sections : List (KRLSection κ)
deriving DecidableEq, Repr

/-- The list names the serial under the key. -/
def KRL.Lists (list : KRL κ) (key : κ) (serial : ℕ) : Prop :=
  ∃ sec ∈ list.sections, sec.caKey = key ∧ serial ∈ sec.serials

/-- The bound of one revocation list. -/
def maxKRLSerials : ℕ := 65536

def krlTooLarge : ServiceError :=
  .conflict ("the key revocation list exceeds its bound of " ++ toString maxKRLSerials ++ " serials")

/-- The loop that groups the rows by the text of the key: a row joins the section of its
key, or starts it. -/
def addSerial (sections : List (String × KRLSection κ)) (r : RevokedSerial) :
    Except ServiceError (List (String × KRLSection κ)) :=
  if sections.any fun sec => sec.1 = r.caKeyPublicKey then
    .ok (sections.map fun sec =>
      if sec.1 = r.caKeyPublicKey then
        (sec.1, { sec.2 with serials := sec.2.serials ++ [r.serial] })
      else sec)
  else
    match w.parsePublicKey r.caKeyPublicKey with
    | none => .error (.internal "service: stored ssh CA public key is malformed")
    | some key => .ok (sections ++ [(r.caKeyPublicKey, ⟨key, [r.serial]⟩)])

/-- The serials of a section as they are written: sorted, once each, without zero. -/
def writtenSerials (serials : List ℕ) : List ℕ :=
  ((serials.filter fun n => n ≠ 0).insertionSort (· ≤ ·)).dedup

/-- `EncodeKRL` drops empty sections and refuses too many serials. -/
def encodeKRL (list : KRL κ) : Except ServiceError (KRL κ) := do
  let sections := (list.sections.map fun sec => { sec with serials := writtenSerials sec.serials })
    |>.filter fun sec => sec.serials ≠ []
  ensure ((sections.map fun sec => sec.serials.length).sum ≤ maxKRLSerials) krlTooLarge
  return { list with sections }

/-- **The revocation list** of an authority: the revoked serials that have not expired, of
keys that are still trusted. Over its bound it is refused, never truncated. -/
def krl : Except ServiceError (KRL κ) := do
  let ca ← s.getCA caID
  let serials := revokedSerials w s caID (canonTime now) (maxKRLSerials + 1)
  ensure (serials.length ≤ maxKRLSerials) krlTooLarge
  let sections ← serials.foldlM (addSerial w) []
  encodeKRL ⟨unix now, now, "hikyo ssh-ca " ++ ca.id, sections.map Prod.snd⟩

/-! ## The services -/

/-- The caller of a request, as the transaction's authorizer resolved it. -/
structure SSHCaller where
  principal : String
  /-- holds manage-identities over the project -/
  managesIdentities : Bool
deriving DecidableEq, Repr

/-- What the chokepoint – authorization, admission, the fence on the sealing key – answers
inside the transaction. -/
abbrev Admission := Except ServiceError SSHCaller

def isNameCharacter (c : Char) : Bool :=
  c.isLower || c.isDigit || c = '-' || c = '_' || c = '.'

def validSSHName (name : String) : Except ServiceError Unit := do
  ensure (name ≠ "" ∧ name.utf8ByteSize ≤ 64) (.invalid "name must be 1 to 64 characters")
  ensure (name.toList.all isNameCharacter = true)
    (.invalid "name may contain only lowercase letters, digits, '-', '_' and '.'")

/-- `CreateCA`, with a key that was generated or imported. -/
def createCA : Except ServiceError (SSHTables κ) := do
  validSSHName name
  let caller ← admission
  let s ← s.createCA id name caller.principal
  s.insertCAKey id material (canonTime now)

/-- The overlap of a rotation, in seconds: as asked for, or until the last live certificate
of the active key has expired. -/
def rotationOverlap (overlap : Option ℤ) (now : ℤ) : ℤ :=
  match overlap with
  | some seconds => seconds
  | none =>
    match s.activeKeyLastExpiry caID now with
    | none => min 0 maxOverlap
    | some last => min ((last - now + second - 1) / second) maxOverlap

/-- `RotateCA`: the active key starts to retire, and a new key takes its place. -/
def rotateCA (overlap : Option ℤ) (now : ℤ) : Except ServiceError (SSHTables κ) := do
  overlap.forM fun seconds => sshSeconds "overlap" seconds maxOverlap
  let _ ← admission
  let now := canonTime now
  let _ ← s.getCA caID
  let retired ← s.retireActiveCAKey caID (now + rotationOverlap s caID overlap now * second)
  retired.insertCAKey caID material now

/-- `RetireCAKey` ends the overlap of a retiring key. -/
def retireCAKey (caID keyID : String) : Except ServiceError (SSHTables κ) := do
  let _ ← admission
  let _ ← s.getCA caID
  ensure (∃ k ∈ s.keys.rows, k.id = keyID ∧ k.caID = caID) .hidden
  ensure (∃ k ∈ s.keys.rows, k.id = keyID ∧ k.caID = caID ∧ k.state = .retiring) (.conflict "")
  return s.updateKeys (fun k => k.id = keyID ∧ k.caID = caID ∧ k.state = .retiring) .retired none

/-- `DeleteCA` deletes the record: the authority is gone and its keys are retired. -/
def deleteCA : Except ServiceError (SSHTables κ) := do
  let _ ← admission
  let ca ← s.getCA caID
  ensure (∀ p ∈ s.profiles.rows, p.caID = caID → p.state = .tombstoned)
    (.conflict "the SSH CA still has profiles; delete them first")
  return s.deleteCA ca.id

/-- A request to write a profile. -/
structure ProfileRequest where
  caID : String
  name : String
  principals : List String
  extensions : List Extension
  keyAlgorithms : List Algorithm
  defaultTTL : ℤ
  maxTTL : ℤ
  enabled : Bool
  requesters : List String
deriving DecidableEq, Repr

/-- `normalizeProfile`: validate a request and bring its lists into canonical form. -/
def normalizeProfile (validPrincipal : String → Bool) (req : ProfileRequest) :
    Except ServiceError ProfileRequest := do
  validSSHName req.name
  ensure (req.caID ≠ "") (.invalid "a profile names its CA")
  sshSeconds "default_ttl_seconds" req.defaultTTL SSH.maxTTL
  sshSeconds "max_ttl_seconds" req.maxTTL SSH.maxTTL
  ensure (1 ≤ req.principals.length ∧ req.principals.length ≤ 32)
    (.invalid "a profile needs 1 to 32 principals")
  ensure (req.principals.all validPrincipal = true) (.invalid "invalid principal")
  ensure req.principals.Nodup (.invalid "duplicate principal")
  ensure (req.keyAlgorithms ≠ []) (.invalid "a profile needs at least one key algorithm")
  ensure (minTTL ≤ req.maxTTL) (.invalid "max_ttl must be between 1m0s and 720h0m0s")
  ensure (minTTL ≤ req.defaultTTL ∧ req.defaultTTL ≤ req.maxTTL)
    (.invalid "default_ttl must be between 1m0s and max_ttl")
  ensure (req.requesters.length ≤ 256) (.invalid "at most 256 requesters")
  ensure ("" ∉ req.requesters) (.invalid "empty requester id")
  return { req with
    principals := req.principals.insertionSort (· ≤ ·)
    extensions := req.extensions.dedup
    keyAlgorithms := req.keyAlgorithms.dedup
    requesters := (req.requesters.insertionSort (· ≤ ·)).dedup }

/-- The row a request writes. -/
def ProfileRequest.row (req : ProfileRequest) (id caID : String) : Profile where
  id
  caID
  name := req.name
  principals := req.principals
  extensions := req.extensions
  keyAlgorithms := req.keyAlgorithms
  defaultTTL := req.defaultTTL
  maxTTL := req.maxTTL
  state := if req.enabled then .enabled else .disabled

/-- The requester list of a profile is replaced. -/
def replaceRequesters (profileID : String) (principals : List String) : SSHTables κ :=
  { s with
    requesters := (s.requesters.filter fun q => q.profileID ≠ profileID) ++
      principals.map fun p => ⟨profileID, p⟩ }

/-- The index on the names of live profiles. -/
def profileNameFree : Prop :=
  ∀ p ∈ s.profiles.rows, p.state ≠ .tombstoned → p.name = name → p.id = id

end

instance (s : SSHTables κ) (id name : String) : Decidable (profileNameFree s id name) :=
  inferInstanceAs (Decidable (∀ _ ∈ _, _ → _ → _))

section

variable (s : SSHTables κ) (admission : Admission) (id : String)

/-- `CreateProfile`. -/
def createProfile (validPrincipal : String → Bool) (admission : Admission)
    (id : String) (req : ProfileRequest) : Except ServiceError (SSHTables κ) := do
  let req ← normalizeProfile validPrincipal req
  let _ ← admission
  let ca ← s.getCA req.caID
  ensure (profileNameFree s id req.name) (.conflict "")
  match s.profiles.insert (req.row id ca.id) with
  | none => .error (.conflict "")
  | some profiles => .ok (replaceRequesters { s with profiles } id req.requesters)

/-- `UpdateProfile`: a requester that is taken off the list loses its certificates in the
same transaction. -/
def updateProfile (validPrincipal : String → Bool) (admission : Admission)
    (id : String) (req : ProfileRequest) (now : ℤ) : Except ServiceError (SSHTables κ) := do
  let req ← normalizeProfile validPrincipal req
  let _ ← admission
  let current ← s.getProfile id
  let _ ← s.getCA req.caID
  ensure (current.caID = req.caID) .hidden
  ensure (profileNameFree s id req.name) (.conflict "")
  let s := { s with profiles := s.profiles.put (req.row id current.caID) }
  let s := replaceRequesters s id req.requesters
  return s.revokeProfileCertificates id .authorityWithdrawn req.requesters false (canonTime now)

/-- `DeleteProfile` deletes the record, and revokes what was issued only if asked to. The
requester rows stay. -/
def deleteProfile (revokeIssued : Bool) (now : ℤ) : Except ServiceError (SSHTables κ) := do
  let _ ← admission
  let p ← s.getProfile id
  let s := if revokeIssued then
      s.revokeProfileCertificates id .profileDeleted [] true (canonTime now)
    else s
  return { s with profiles := s.profiles.put { p with state := .tombstoned } }

/-- A request for a certificate. `extensions` is absent to take those of the profile. -/
structure IssueRequest where
  profileID : String
  keyAlgorithm : Algorithm
  principals : List String
  extensions : Option (List Extension)
  ttl : ℤ
deriving DecidableEq, Repr

/-- `Resolve`: what a request makes of a profile. Every field may only narrow it. -/
def resolve (p : Profile) (req : IssueRequest) :
    Except ServiceError (List String × List Extension × ℤ) := do
  let principals ← match req.principals, p.principals with
    | [], [only] => .ok [only]
    | [], _ =>
      .error (.invalid "the profile allows several principals; name the ones you need")
    | asked, allowed => do
      ensure (∀ a ∈ asked, a ∈ allowed) (.invalid "principal is not allowed by the profile")
      .ok asked.dedup
  let extensions ← match req.extensions with
    | none => .ok p.extensions
    | some asked => do
      ensure (∀ e ∈ asked, e ∈ p.extensions) (.invalid "extension is not allowed by the profile")
      .ok asked.dedup
  ensure (req.ttl = 0 ∨ (minTTL ≤ req.ttl ∧ req.ttl ≤ p.maxTTL))
    (.invalid "ttl must be between 1m0s and the profile's max_ttl")
  return (principals, extensions, if req.ttl = 0 then p.defaultTTL else req.ttl)

/-- `Issue`: one transaction authorizes, reads the active key and the enabled profile
again, signs and records. -/
def issue (ceremony : Except ServiceError Unit) (id : String) (serial : Serial) (req : IssueRequest)
    (now : ℤ) : Except ServiceError (SSHTables κ) := do
  sshSeconds "ttl_seconds" req.ttl SSH.maxTTL
  let now := canonTime now
  let caller ← admission
  ensure (s.isRequester req.profileID caller.principal) .hidden
  let profile ← s.getProfile req.profileID
  ensure (profile.state = .enabled) (.conflict "the SSH profile is disabled")
  ceremony
  ensure (req.keyAlgorithm ∈ profile.keyAlgorithms)
    (.invalid "key algorithm is not allowed by the profile")
  let (principals, extensions, ttl) ← resolve profile req
  let key ← s.activeCAKey profile.caID
  s.insertCertificate
    { id, caID := profile.caID, caKeyID := key.id, profileID := profile.id, serial, principals,
      extensions, validBefore := unix (now + ttl * second) * second,
      requester := caller.principal, state := .issued, revocationReason := none }

/-- `RevokeCertificate`, by its requester or by who manages identities. -/
def revokeCertificate : Except ServiceError (SSHTables κ) := do
  let caller ← admission
  let c ← s.getCertificate id
  ensure (c.requester = caller.principal ∨ caller.managesIdentities = true) .hidden
  return s.revokeWhere (fun c => c.id = id) .explicit

/-- A live certificate as the sweep listed it, in an earlier read. -/
structure SweepCandidate where
  id : String
  requesterListed : Bool
deriving DecidableEq, Repr

/-- Whether the requester has definitely lost its authority: it is off the list, or refused
by the authorizer. An error of the authorizer is no refusal. -/
def SweepCandidate.withdrawn (c : SweepCandidate) (refused : Except ServiceError Bool) :
    Except ServiceError Bool :=
  if c.requesterListed then refused else .ok true

/-- `sweepOne` revokes a certificate whose requester has lost its authority. -/
def sweepOne (c : SweepCandidate) (refused : Except ServiceError Bool) :
    Except ServiceError (SSHTables κ) := do
  let withdrawn ← c.withdrawn refused
  return if withdrawn then s.revokeWhere (fun c' => c'.id = c.id) .authorityWithdrawn else s

end

end Hikyo.SSH
