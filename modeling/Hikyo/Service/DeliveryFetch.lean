import Hikyo.Store.DeliveryTables

/-!
# The machine fetch

`fetchAs` delivers the authorized projection of an environment's committed snapshot, or answers
that the caller's cursor is current. One path decides both: the caller is authorized, the rows are
computed and keyed, and only then the presented cursor is compared with the one just computed. So a
caller that lost its access is never told "current".

The loop over the entries (`deliveryEntries`) builds two lists at once. A row of
the *manifest* holds the plaintext of what is delivered, so that the change token
moves when a value moves; a *key* carries the plaintext only where the caller is
authorized for it. A secret the caller may not see has neither plaintext nor
occurrence in its manifest row and is not decrypted at all. Which entries are
decrypted is part of the result (`FetchRun.opened`).

The cipher, the key derivation, the MAC, the text encodings and the validation
of declared values come from other packages, as fields of `World`.
-/

namespace Hikyo.Delivery

open Tx (ensure)
open Parameters (Values Contract StoredContract)

/-! ## Keyed values -/

/-- What an offline receipt attests. -/
structure OfflineReceiptClaims where
  principal : PrincipalId
  credential : String
  keyID : KeyId
  name : String
  classification : Classification
  revision : ℕ
  changeToken : String
  issuedAt : ℕ
  expiresAt : Option ℕ
deriving DecidableEq, Repr

/-- **What other packages provide.** -/
structure World where
  /-- unwrap a key under the keyring's master key -/
  unwrapTier3 : WrappedKey → Except String Bytes
  /-- HKDF with SHA-256: a key for an info text -/
  hkdf : Bytes → Bytes → Bytes
  /-- HMAC with SHA-256 -/
  hmac : Bytes → Bytes → Bytes
  base64url : Bytes → String
  /-- the JSON text of the claims -/
  marshalClaims : OfflineReceiptClaims → Bytes
  /-- compile the pattern of a parameter -/
  compile : String → Except String (String → Bool)
  /-- validate a value against the declaration of a key -/
  validateLiteral : (name declaration : String) → Bytes → Except FetchError Unit

/-- Open a sealed field of the project. -/
abbrev FieldOpener := ProjectFieldAAD → Bytes → Except String Bytes

/-- The keys one transaction signs with. -/
structure TokenSnapshot where
  receipt : Bytes
  change : Bytes
  cursor : Bytes

/-- The key for a label, in the scope of an environment. -/
def deriveScopedTokenKeyFrom (W : World) (root : Bytes) (label : String) (scope : Scope) :
    Except CryptoError Bytes := do
  let info ← appendLP [] (utf8 label)
  let info ← appendLP info (utf8 scope.org)
  let info ← appendLP info (utf8 scope.project)
  let info ← appendLP info (utf8 scope.env)
  .ok (W.hkdf root info)

/-- A derivation as a fetch reports it. -/
def scopedKey (W : World) (root : Bytes) (label : String) (scope : Scope) :
    Except FetchError Bytes :=
  match deriveScopedTokenKeyFrom W root label scope with
  | .error _ => .error (.internal "crypto: derive scoped token key")
  | .ok key => .ok key

section

variable (W : World) (t : EnvironmentTables) (call : FetchCall) (caller : Caller)

variable (grants : List Grant) (acc : Rows) (e : SnapshotEntry)

/-- **The keys of the active token key**, each for its own use. -/
def deliveryTokenSnapshot (row : WrappedKey) (scope : Scope) : Except FetchError TokenSnapshot := do
  ensure (row.purpose = .token ∧ row.orgID = "" ∧ row.projectID = "" ∧ row.version ≠ 0)
    (.internal "crypto: receipt signer requires the active root token key")
  match W.unwrapTier3 row with
  | .error detail => .error (.internal detail)
  | .ok root => do
    let receipt ← scopedKey W root "hikyo/offline-snapshot-receipt/v1" scope
    let change ← scopedKey W root "wenv/change-token/v1" scope
    let cursor ← scopedKey W root "hikyo/delivery-cursor/v1" scope
    .ok ⟨receipt, change, cursor⟩

/-- The scheme's version and the MAC. -/
def tag (key message : Bytes) : String := "v1:" ++ W.base64url (W.hmac key message)

/-! ## Requests and answers -/

/-- The controls of a fetch. -/
structure FetchOptions where
  parameters : Values
  projection : String
  acknowledgedKeys : List String
  target : String

/-- **One call**, with what the process decides beside the store. -/
structure FetchCall where
  actor : Actor
  scope : Scope
  cursor : String
  opts : FetchOptions
  /-- the clock, read inside the transaction -/
  now : ℕ
  /-- the project's sealer, resolved before the transaction -/
  sealer : Except FetchError FieldOpener
  /-- the fetch rate of the organisation -/
  orgBudget : Except FetchError Unit
  /-- the fetch rate of a service account -/
  principalBudget : PrincipalId → Except FetchError Unit

/-- **One key as it is delivered.** -/
structure DeliveredKey where
  keyID : KeyId
  name : String
  classification : Classification
  presence : Presence
  /-- there if and only if the plaintext crosses -/
  value : Option Bytes
  /-- the claims and their signature -/
  snapshotReceipt : Option (OfflineReceiptClaims × String)
deriving DecidableEq, Repr

structure FetchResult where
  current : Bool
  cursor : String
  changeToken : String
  credentialExpiresAt : Option ℕ
  schemaRevision : ℕ
  revision : ℕ
  /-- empty if the cursor is current -/
  keys : List DeliveredKey
  /-- 0 without a pin -/
  pinnedRevision : ℕ
  pinExpired : Bool
  credentialID : String
  issuedAt : ℕ
  snapshotExpiresAt : Option ℕ
  fileTargetGeneration : ℕ
deriving DecidableEq, Repr

/-! ## The request -/

def maxAcknowledgedKeys : ℕ := 64
def maxKeyNameBytes : ℕ := 128

/-- `[A-Z_][A-Z0-9_]*`, bounded. -/
def validKeyName (name : String) : Bool :=
  match name.toList with
  | [] => false
  | c :: cs => decide (('A' ≤ c ∧ c ≤ 'Z') ∨ c = '_') && cs.all Parameters.isNameChar &&
      decide ((utf8 name).length ≤ maxKeyNameBytes)

/-- **What is checked before anything is read**: the parameters, the mode and the
acknowledged keys. -/
def checkOptions (opts : FetchOptions) : Except FetchError Mode :=
  match Parameters.checkSupplied opts.parameters with
  | .error detail => .error (.invalid detail)
  | .ok _ =>
    match normalizeMode opts.projection with
    | none => .error (.invalid ("unknown delivery projection \"" ++ opts.projection ++ "\""))
    | some mode => do
      ensure (opts.acknowledgedKeys.length ≤ maxAcknowledgedKeys)
        (.invalid ("acknowledged_keys carries " ++ toString opts.acknowledgedKeys.length ++
          " entries, at most " ++ toString maxAcknowledgedKeys ++ " are allowed"))
      match opts.acknowledgedKeys.find? fun name => !validKeyName name with
      | some name => .error (.invalid
          ("acknowledged_keys entry \"" ++ name ++ "\" is not a valid key name"))
      | none => .ok mode

/-! ## Authorization -/

/-- `read` at the environment. -/
def fetchFormula : Formula := [⟨.read, .env⟩]

/-- What a developer credential stands on: authority over the whole environment. -/
def developerFormula : Formula := [⟨.read, .env⟩, ⟨.reveal, .env⟩]

def pinSetFormula : Formula := [⟨.pin, .env⟩, ⟨.publish, .env⟩]

def pinSetHistoryFormula : Formula := [⟨.revealHistory, .env⟩]

/-- The human's current authority over the whole environment. -/
def developerEnvironmentAuthority (authority : PrincipalId) : Bool :=
  evaluateWithRules developerFormula t.scope (t.grants authority) (t.rules authority) none

/-- Whether the caller holds the formula of a fetch. -/
def fetchHeld : Bool :=
  if caller.principalClass = .developer then
    developerEnvironmentAuthority t caller.authorityPrincipal
  else
    evaluate fetchFormula t.scope (t.grants caller.principal) ||
      (caller.principalClass = .human &&
        evaluateWithRules fetchFormula t.scope (t.grants caller.principal)
          (t.rules caller.principal) none)

/-- **Authenticate the caller and authorize the fetch.** -/
def authorizeFetch : Except FetchError Caller := do
  let caller ← t.resolve call.actor call.now
  ensure (call.scope = t.scope) .notFound
  ensure (caller.principalClass = .developer →
    t.scope = caller.developerScope ∧ t.isProtected = false) .notFound
  ensure (fetchHeld t caller) .notFound
  t.admits caller
  .ok caller

/-- `RecordedPrincipalHolds`: the grants of the principal a delegation names. -/
def recordedPrincipalHolds (principal : PrincipalId) (f : Formula) : Except FetchError Bool := do
  ensure (caller.principal ≠ "") (.internal "authz: empty caller principal")
  ensure (principal ≠ "") (.internal "authz: empty recorded authority principal")
  .ok (t.profilePermits principal && evaluate f t.scope (t.grants principal))

/-! ## The pin -/

/-- What the pin of a caller selects. -/
structure Selection where
  /-- the pinned snapshot; none for the latest one -/
  selected : Option Snapshot
  /-- the pinned revision is not the latest one -/
  pinnedNonCurrent : Bool
  pinnedRevision : ℕ
  pinExpired : Bool

/-- An absent row is not found. -/
def found {α : Type} : Option α → Except FetchError α
  | none => .error .notFound
  | some a => .ok a

/-- A revision that is not the latest one takes the authority to reveal history. -/
def historyHeld (pin : RevisionPin) (snapshot latest : Snapshot) : Except FetchError Bool :=
  if snapshot.revision = latest.revision then .ok true
  else recordedPrincipalHolds t caller pin.authorityPrincipalID pinSetHistoryFormula

/-- The pinned snapshot is served while its recorded authority still holds. -/
def pinnedSnapshot (pin : RevisionPin) (now : ℕ) : Except FetchError Selection := do
  let holds ← recordedPrincipalHolds t caller pin.authorityPrincipalID pinSetFormula
  ensure holds (.invalid ("pinned delivery is refused because the recorded authority no longer " ++
    "holds pin and publish grants"))
  let snapshot ← found (t.atRevision pin.revision)
  let latest ← found t.latest
  let historical ← historyHeld t caller pin snapshot latest
  ensure historical (.invalid ("pinned delivery of revision " ++ toString pin.revision ++
    " is refused because the recorded authority no longer holds reveal-history"))
  ensure (snapshot.payloadPresent)
    (.collectedRevision snapshot.revision snapshot.collectionPolicy)
  .ok ⟨some snapshot, snapshot.revision ≠ latest.revision, pin.revision, pin.expiresAt ≤ now⟩

/-- **Which snapshot a caller is routed to.** -/
def selectSnapshot (now : ℕ) : Except FetchError Selection :=
  match t.pinFor caller.principal with
  | none => .ok ⟨none, false, 0, false⟩
  | some pin =>
    if caller.principalClass = .developer then .error .notFound
    else pinnedSnapshot t caller pin now

/-! ## What the caller holds -/

/-- Whether a grant covers a capability at a scope. -/
def holds (capability : Capability) (target : Scope) : Bool :=
  grants.any fun g => g.capability = capability && covers g.scope target

/-- The grants without the two disclosure capabilities. -/
def withoutReveal : List Grant :=
  grants.filter fun g => !decide (g.capability = .reveal ∨ g.capability = .revealHistory)

/-- The two capabilities a developer credential delegates. -/
def developerDeliveryGrants : Except FetchError (List Grant) := do
  ensure (caller.principalClass = .developer ∧ caller.authorityPrincipal ≠ "")
    (.internal "authz: developer delivery grants require a resolved developer identity")
  ensure (caller.developerScope = t.scope) .notFound
  ensure (developerEnvironmentAuthority t caller.authorityPrincipal) .notFound
  .ok [⟨.read, t.scope⟩, ⟨.reveal, t.scope⟩]

/-- Whether the machine-reveal opt-in is on for the caller, and its generation. -/
def machineRevealOptIn : Bool × ℕ :=
  if caller.principalClass.isServiceAccountKind then
    match t.machineReveal with
    | none => (false, 0)
    | some m => (m.enabled, m.generation)
  else (true, 0)

/-- The grant rows of the caller. -/
def callerGrants : Except FetchError (List Grant) :=
  if caller.principalClass = .developer then developerDeliveryGrants t caller
  else .ok (t.grantRows caller.principal)

/-- The grants a delivery is projected by. -/
def effectiveGrants : Except FetchError (List Grant) := do
  let grants ← callerGrants t caller
  .ok (if (machineRevealOptIn t caller).1 then grants else withoutReveal grants)

/-- **The authorized projection**, the cursor's account of what the caller may
see. -/
def projectionOf (scope : Scope) (revealGeneration : ℕ) : List String :=
  ([Capability.read, .reveal, .revealHistory].filter fun c => holds grants c scope).map
    Capability.text ++
  if 0 < revealGeneration then ["machine-reveal-generation:" ++ toString revealGeneration] else []

/-! ## The file target -/

/-- **The keys a caller is narrowed to**, none if it is not bound, and the
generation of the target. -/
def fileTargetSelection (principal : PrincipalId) (requested : String) :
    Except FetchError (Option (List KeyId) × ℕ) :=
  match t.fileTargetFor principal with
  | none => do
    ensure (requested = "") .notFound
    .ok (none, 0)
  | some bound => do
    ensure (requested ≠ "") (.invalid ("this service account is bound to file target " ++ bound.id ++
      "; fetch with target=" ++ bound.id))
    ensure (requested = bound.id ∧ bound.environmentID = t.scope.env) .notFound
    .ok (some bound.keys, bound.generation)

/-! ## The rows -/

def maxRenderBytesPerTarget : ℕ := 2 ^ 20
def maxValueBytes : ℕ := 65536

def decodeParameterContract : StoredContract → Except FetchError Contract
  | .unreadable detail => .error (.internal ("service: invalid stored parameter contract: " ++ detail))
  | .null => .error (.internal "service: stored parameter contract must be an object")
  | .object c => do
    ensure (c.version = 0 ∨ c.version = 1)
      (.internal ("service: unsupported parameter contract version " ++ toString c.version))
    ensure (c.version = 1 ∨ (c.declarations.keys = [] ∧ c.schemas.keys = []))
      (.internal "service: nonempty parameter contract requires version 1")
    .ok c

/-- The contract of a snapshot, if what is supplied meets it. -/
def snapshotParameters (contract : StoredContract) (supplied : Values) :
    Except FetchError Contract := do
  let contract ← decodeParameterContract contract
  match Parameters.validate W.compile contract.declarations supplied with
  | .error detail => .error (.invalid detail)
  | .ok _ => .ok contract

/-- The text of a key whose declaration is a template is resolved and validated. -/
def resolveConfig (contract : Contract) (supplied : Values) (name : String)
    (classification : Classification) (value : Bytes) : Except FetchError Bytes :=
  if classification ≠ .config then .ok value
  else
    match contract.schemas.lookup name with
    | none => .ok value
    | some declaration =>
      match Parameters.resolve value supplied maxValueBytes with
      | .error detail => .error (.invalid ("key \"" ++ name ++ "\": " ++ detail))
      | .ok resolved => do
        W.validateLiteral name declaration resolved
        .ok resolved

/-- What decides about an entry besides the entry. -/
structure Projection where
  mode : Mode
  /-- whether secret values cross -/
  revealsSecret : Bool
  /-- the keys of the file target -/
  only : Option (List KeyId)
deriving DecidableEq, Repr

/-- How far an entry reaches the caller. -/
inductive Reach where
  /-- not in the delivery -/
  | omitted
  /-- the key without its value -/
  | presence
  /-- with its plaintext -/
  | plaintext
deriving DecidableEq, Repr

/-- **How far an entry reaches the caller**, in the order the loop decides it. -/
def Projection.reach (p : Projection) (e : SnapshotEntry) : Reach :=
  if p.only.any fun keys => decide (e.keyID ∉ keys) then .omitted
  else if e.classification = .secret ∧ p.mode = .configOnly then .omitted
  else if e.classification = .secret ∧ p.revealsSecret = false then .presence
  else .plaintext

/-- The two lists a delivery builds, and what was rendered so far. -/
structure Rows where
  keys : List DeliveredKey
  manifest : List Row
  renderBytes : ℕ
deriving DecidableEq, Repr

/-- The key of an entry, with the value that crosses. -/
def deliveredKey (value : Option Bytes) : DeliveredKey where
  keyID := e.keyID
  name := e.keyName
  classification := e.classification
  presence := .set
  value := value
  snapshotReceipt := none

/-- Presence is authorized; plaintext and occurrence are not. -/
def Rows.addPresence : Rows where
  keys := acc.keys ++ [deliveredKey e none]
  manifest := acc.manifest ++ [⟨e.keyName, e.classification, "", []⟩]
  renderBytes := acc.renderBytes

def Rows.addPlaintext (resolved : Bytes) : Rows where
  keys := acc.keys ++ [deliveredKey e (some resolved)]
  manifest := acc.manifest ++ [⟨e.keyName, e.classification, e.valueEntryID, resolved⟩]
  renderBytes := acc.renderBytes + resolved.length

/-- Open, resolve and add one entry. -/
def openEntry (opener : FieldOpener) (contract : Contract) (supplied : Values)
    (acc : Rows) (e : SnapshotEntry) : Except FetchError Rows :=
  match opener (snapshotAAD e) e.ciphertext with
  | .error detail => .error (.internal ("service: snapshot entry " ++ e.id ++ ": " ++ detail))
  | .ok plain => do
    let resolved ← resolveConfig W contract supplied e.keyName e.classification plain
    ensure (acc.renderBytes + resolved.length ≤ maxRenderBytesPerTarget)
      (.invalid "resolved environment exceeds the per-target render limit")
    .ok (acc.addPlaintext e resolved)

/-- **The loop over the entries**: which ones were opened, and the rows. -/
def deliveryEntries (W : World) (opener : FieldOpener) (contract : Contract) (supplied : Values)
    (p : Projection) : Rows → List SnapshotEntry → List SnapshotEntry × Except FetchError Rows
  | acc, [] => ([], .ok acc)
  | acc, e :: es =>
    match p.reach e with
    | .omitted => deliveryEntries W opener contract supplied p acc es
    | .presence => deliveryEntries W opener contract supplied p (acc.addPresence e) es
    | .plaintext =>
      match openEntry W opener contract supplied acc e with
      | .error err => ([e], .error err)
      | .ok acc =>
        let (opened, rows) := deliveryEntries W opener contract supplied p acc es
        (e :: opened, rows)

/-- The rows of a snapshot. -/
def deliveryRows (opener : FieldOpener) (snapshot : Snapshot)
    (supplied : Values) (p : Projection) : List SnapshotEntry × Except FetchError Rows :=
  match snapshotParameters W snapshot.parameterContract supplied with
  | .error err => ([], .error err)
  | .ok contract =>
    deliveryEntries W opener contract supplied p ⟨[], [], 0⟩ (t.entriesOf snapshot)

/-! ## The fetch -/

/-- What is known before the first entry is read. -/
structure Prepared where
  mode : Mode
  opener : FieldOpener
  caller : Caller
  selection : Selection
  grants : List Grant
  revealGeneration : ℕ
  only : Option (List KeyId)
  targetGeneration : ℕ
  /-- the pinned or the latest snapshot -/
  snapshot : Snapshot

/-- A snapshot to deliver: the selected one or the latest. -/
def snapshotToDeliver (selection : Selection) : Except FetchError Snapshot :=
  match selection.selected with
  | some snapshot => .ok snapshot
  | none =>
    match t.latest with
    | none => .error .notMaterialized
    | some snapshot => .ok snapshot

/-- The fetch rate of a service account is charged once the caller is known. -/
def chargePrincipal : Except FetchError Unit :=
  if caller.principalClass.isServiceAccountKind then call.principalBudget caller.principal
  else .ok ()

/-- **Everything up to the rows.** -/
def prepare : Except FetchError Prepared := do
  let mode ← checkOptions call.opts
  let opener ← call.sealer
  call.orgBudget
  let caller ← authorizeFetch t call
  chargePrincipal call caller
  let selection ← selectSnapshot t caller call.now
  let grants ← effectiveGrants t caller
  let (only, targetGeneration) ← fileTargetSelection t caller.principal call.opts.target
  let snapshot ← snapshotToDeliver t selection
  .ok ⟨mode, opener, caller, selection, grants, (machineRevealOptIn t caller).2, only,
    targetGeneration, snapshot⟩

end

namespace Prepared

section

variable (q : Prepared) (scope : Scope)

/-- The capability a secret value takes: history for a pinned revision that is not
the latest one. -/
def secretCap : Capability :=
  if q.selection.pinnedNonCurrent then .revealHistory else .reveal

def revealsSecret : Bool := holds q.grants q.secretCap scope

def projection : Projection where
  mode := q.mode
  revealsSecret := q.revealsSecret scope
  only := q.only

/-- What the cursor is computed over. -/
def cursorTuple (changeToken : String) (authorizationRevision : ℕ)
    (pinGeneration : ℕ) : Cursor where
  changeToken := changeToken
  projection := projectionOf q.grants scope q.revealGeneration
  authorizationRevision := authorizationRevision
  pinGeneration := pinGeneration
  mode := q.mode
  pinnedHistoricalRevision :=
    if q.selection.pinnedNonCurrent then q.selection.pinnedRevision else 0

end

end Prepared

/-- `SnapshotMaxAge`, in seconds. -/
def snapshotMaxAge : ℕ := 7 * 24 * 60 * 60

section

variable (W : World) (t : EnvironmentTables)

/-- A delivered value carries a receipt, unless a developer fetches it. -/
def issueOfflineReceipt (signer : TokenSnapshot) (principal : PrincipalId)
    (out : FetchResult) (key : DeliveredKey) : OfflineReceiptClaims × String :=
  let claims : OfflineReceiptClaims :=
    ⟨principal, out.credentialID, key.keyID, key.name, key.classification, out.revision,
      out.changeToken, out.issuedAt, out.snapshotExpiresAt⟩
  (claims, tag W signer.receipt (W.marshalClaims claims))

def withReceipt (signer : TokenSnapshot) (caller : Caller) (out : FetchResult)
    (key : DeliveredKey) : DeliveredKey :=
  if key.value = none ∨ caller.principalClass = .developer then key
  else { key with snapshotReceipt := some (issueOfflineReceipt W signer caller.principal out key) }

/-- `ActiveTokenKeyForReceipt` -/
def activeTokenKey : Except FetchError WrappedKey :=
  match t.tokenKey with
  | none => .error .noKey
  | some row => .ok row

/-- **Key the rows and compare the cursor.** -/
def finish (call : FetchCall) (q : Prepared) (rows : Rows) : Except FetchError FetchResult := do
  let row ← activeTokenKey t
  let signer ← deliveryTokenSnapshot W row t.scope
  let authorizationRevision ← found (t.principalGeneration q.caller.principal)
  let changeToken := tag W signer.change
    (Parameters.parameterizedManifest rows.manifest call.opts.parameters)
  let computed := tag W signer.cursor (encodeCursor
    (q.cursorTuple t.scope changeToken authorizationRevision (t.pinGeneration q.caller.principal)))
  let current := decide (call.cursor ≠ "" ∧ call.cursor = computed)
  let out : FetchResult :=
    { current := current
      cursor := computed
      changeToken := changeToken
      credentialExpiresAt := q.caller.credentialExpiresAt
      schemaRevision := q.snapshot.schemaRevision
      revision := q.snapshot.revision
      keys := []
      pinnedRevision := q.selection.pinnedRevision
      pinExpired := q.selection.pinExpired
      credentialID := q.caller.credentialID
      issuedAt := call.now
      snapshotExpiresAt :=
        if q.caller.principalClass = .developer then none else some (call.now + snapshotMaxAge)
      fileTargetGeneration := q.targetGeneration }
  .ok (if current then out
    else { out with keys := rows.keys.map (withReceipt W signer q.caller out) })

/-- A fetch as it ran: the entries it opened, the rows it computed, and its
answer. -/
structure FetchRun where
  opened : List SnapshotEntry
  rows : Except FetchError Rows
  answer : Except FetchError FetchResult

/-- **The fetch.** -/
def fetchAs (call : FetchCall) : FetchRun :=
  match prepare t call with
  | .error err => ⟨[], .error err, .error err⟩
  | .ok q =>
    let (opened, rows) :=
      deliveryRows W t q.opener q.snapshot call.opts.parameters (q.projection t.scope)
    ⟨opened, rows, rows >>= finish W t call q⟩

end

end Hikyo.Delivery
