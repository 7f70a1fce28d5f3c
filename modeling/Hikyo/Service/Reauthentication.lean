import Hikyo.Store.ReauthTables

/-!
# Reauthentication

The services that open, hand over and spend reauthentication windows. Each is one
transaction on the tables: it is refused and leaves nothing, or it commits.

A window is opened by a TOTP code (`reauthTOTP`), by a passkey that signed one exact
decision (`reauthPasskeyStart`, `reauthPasskeyFinish`), by the redemption of a handoff
that a browser approved with its own windows (`startCLIReauth`, `approveCLIReauth`,
`redeemCLIReauth`), or by the step-up of a workspace session (`startStepUp`,
`approveStepUp`, `redeemStepUp`). It is spent by `consumeReauthWindow`, and ended by
`lowerEffectiveWindow` when the settings of its environment are tightened.

What is decided outside comes in as an argument: for which environments the caller is authorized,
what an assertion or a code came to, the minted identifiers and secrets, the clock. All times and
durations are in nanoseconds.
-/

namespace Hikyo.Reauth

open Tx (ensure)

/-- A refusal under one name, whatever the cause. -/
def refusedAs {α : Type} (e : ReauthError) : Except ReauthError α → Except ReauthError α
  | .ok a => .ok a
  | .error _ => .error e

theorem refusedAs_eq_ok {α : Type} {e : ReauthError} {x : Except ReauthError α} {a : α} :
    refusedAs e x = .ok a ↔ x = .ok a := by
  cases x with
  | ok => exact Iff.rfl
  | error => exact ⟨nofun, nofun⟩

/-! ## The effective window and the hard cap -/

def minute : ℤ := 60000000000

def defaultReauthHardCap : ℤ := 15 * minute

/-- The life of a challenge, of a handoff, and of an exact decision. -/
def ceremonyLifetime : ℤ := 5 * minute

def handoffExpiry : ℤ := 10 * minute

def protectedWindowCap : ℤ := 0

section

variable (cfg : ReauthConfig) (s : ReauthTables)

/-- The bound on the age of a window. -/
def ReauthConfig.hardCap : ℤ :=
  if 0 < cfg.reauthHardCap then cfg.reauthHardCap else defaultReauthHardCap

def effectiveWindow (isProtected hasWindow : Bool) (window instanceDefault : ℤ) : ℤ :=
  let base := if hasWindow then window else instanceDefault
  if isProtected then min base protectedWindowCap else base

/-- **The one source of the effective window.** An environment that is not there has
none. -/
def effectiveReauthWindow (environmentID : String) : ℤ :=
  if environmentID = "" then cfg.reauthWindow
  else
    match s.environments.rows.find? (·.id = environmentID) with
    | none => 0
    | some e => effectiveWindow e.isProtected e.hasWindow e.window cfg.reauthWindow

/-! ## Settings -/

/-- The settings a caller asks for. -/
structure EnvironmentSettings where
  isProtected : Bool
  expectedProtected : Option Bool
  hasWindow : Bool
  window : ℤ
deriving DecidableEq, Repr

/-- What is stored: a protected environment has a window within the cap. -/
def EnvironmentSettings.stored (want : EnvironmentSettings) (environmentID : String) :
    EnvironmentRow :=
  if want.isProtected then ⟨environmentID, true, true, min want.window protectedWindowCap⟩
  else ⟨environmentID, false, want.hasWindow, want.window⟩

def EnvironmentRow.effective (e : EnvironmentRow) : ℤ :=
  effectiveWindow e.isProtected e.hasWindow e.window cfg.reauthWindow

/-- Every open window on the environment is invalidated. -/
def lowerEffectiveWindow (environmentID : String) : ReauthTables :=
  ({ s with windows := s.windows.delete (·.environmentID = environmentID) } : ReauthTables).record
    (.windowLowered environmentID)

def setEnvironment (authorized : Bool) (environmentID : String)
    (want : EnvironmentSettings) (s : ReauthTables) : Except ReauthError ReauthTables := do
  ensure (¬ (want.hasWindow = true ∧ want.window < 0)) .negativeWindow
  ensure (authorized = true) .unauthorized
  match s.environments.rows.find? (·.id = environmentID) with
  | none => throw .unauthorized
  | some before =>
    ensure (want.expectedProtected = none ∨ want.expectedProtected = some before.isProtected)
      .environmentSettingsRace
    ensure (¬ (want.isProtected = true ∧ want.hasWindow = true ∧ protectedWindowCap < want.window))
      .protectedWindowCap
    let after := want.stored environmentID
    ensure (¬ (after.effective cfg ≤ 0 ∧ cfg.hardCap ≤ 0)) .noReauthHardCap
    let s := { s with environments := s.environments.put after }
    return if after.effective cfg < before.effective cfg then lowerEffectiveWindow s environmentID
      else s

end

/-! ## Requests -/

/-- What a decision is built from. -/
inductive IntentRequest where
  | unbound (environmentID : String)
  | disclosure (purpose : ReauthPurpose) (environmentIDs keyIDs : List String)
  | adapter (operation : ReauthOperation) (environmentIDs : List String)
  | developerCredential (environmentID : String) (keyIDs : List String) (lifetime : ℕ)
      (consent : Bool)
  | selfConfig (target : SelfConfigReauthTarget)
deriving DecidableEq, Repr

def IntentRequest.intent (digest : JsonText.Text → String) :
    IntentRequest → Except ReauthError ReauthIntent
  | .unbound environmentID => newUnboundReauthIntent environmentID
  | .disclosure purpose environmentIDs keyIDs =>
    newDisclosureReauthIntentFor purpose environmentIDs keyIDs
  | .adapter operation environmentIDs =>
    newReauthIntentForAdapterOperation operation environmentIDs
  | .developerCredential environmentID keyIDs lifetime consent =>
    newDeveloperCredentialReauthIntent digest environmentID keyIDs lifetime consent
  | .selfConfig target => newSelfConfigReauthIntent digest target

/-- An act on the configuration of the instance, or the minting of a developer credential. -/
def ReauthIntent.isExact (i : ReauthIntent) : Bool := i.isSelfConfig || i.isDeveloperCredential

def exactPurpose (purpose : Option ReauthPurpose) : Prop :=
  purpose = some .selfConfig ∨ purpose = some .developerCredential

instance (purpose : Option ReauthPurpose) : Decidable (exactPurpose purpose) :=
  inferInstanceAs (Decidable (_ ∨ _))

/-! ## Consumption -/

inductive WindowBindingKind where
  | unbound
  | operationBound
  | adapterBound
  | intentBound
deriving DecidableEq, Repr

section

variable (cfg : ReauthConfig) (s : ReauthTables)

variable (σ : Session) (w : ReauthWindow) (intent : ReauthIntent) (binding : ReauthIntentBinding)

/-- The four columns of a binding, read as one closed shape. -/
def windowBindingKind (w : WindowGrant) : Except ReauthError WindowBindingKind :=
  if exactPurpose w.boundPurpose ∧ w.boundOperation ≠ none ∧ w.boundKeySet ≠ "" ∧
      w.boundEnvironmentSet = "" ∧ w.singleDecision = true then .ok .intentBound
  else if w.boundPurpose = none ∧ w.boundOperation = none ∧ w.boundKeySet = "" ∧
      w.boundEnvironmentSet = "" then .ok .unbound
  else if w.boundPurpose = none ∧ w.boundOperation ≠ none ∧ w.boundEnvironmentSet = "" then
    .ok .operationBound
  else if w.boundPurpose ≠ none ∧ w.boundOperation ≠ none ∧ w.boundKeySet = "" ∧
      w.boundEnvironmentSet ≠ "" then .ok .adapterBound
  else .error .reauthUnitMismatch

/-- Only a TOTP code or a passkey of the last five minutes is fresh enough for an exact
decision. -/
def validateExactIntentFactor (w : WindowGrant) (now : ℤ) : Except ReauthError Unit :=
  ensure (w.authenticatedAt ≤ now ∧ now < w.authenticatedAt + 5 * minute) .reauthWindowExpired

/-- The atomic claim of a single decision. -/
def claim : Except ReauthError ReauthTables :=
  match s.claimWindow w with
  | none => .error .reauthWindowSpent
  | some s' => .ok s'

/-- The last part of a consumption: a single decision is matched with what was signed and
claimed, a sliding window is slid. -/
def spendWindow (now : ℤ) : Except ReauthError ReauthTables :=
  if w.singleDecision = true then
    match s.webAuthnCeremonyByID w.ceremonyID with
    | none => .error .unauthorized
    | some ceremony => do
      ensure (some ceremony.operationBinding.text =
        binding.challengeBinding.map SignedBinding.text) .reauthUnitMismatch
      claim s w
  else
    let effWin := effectiveReauthWindow cfg s binding.environmentID
    if effWin ≤ 0 then .error .reauthWindowExpired
    else
      match s.slideReauthWindow w (min (now + effWin) w.hardExpiresAt) with
      | none => .error .reauthWindowExpired
      | some s' => .ok s'

/-- What the kind of a window allows. -/
def useWindow (now : ℤ) : WindowBindingKind → Except ReauthError ReauthTables
  | .intentBound => do
    ensure (exactPurpose binding.purpose ∧ binding.purpose = w.boundPurpose ∧
      binding.operation = w.boundOperation ∧ binding.keySet = w.boundKeySet) .reauthUnitMismatch
    validateExactIntentFactor w.toWindowGrant now
    -- a code of an authenticator does not pass where a passkey is required by now
    ensure (¬ (binding.purpose = some .developerCredential ∧ w.factorClass ≠ .webauthn ∧
      effectiveReauthWindow cfg s binding.environmentID ≤ 0)) .reauthWindowClosed
    claim s w
  | .unbound => spendWindow cfg s w binding now
  | .operationBound => do
    ensure (binding.operation = w.boundOperation ∧ binding.keySet = w.boundKeySet)
      .reauthUnitMismatch
    spendWindow cfg s w binding now
  | .adapterBound => do
    ensure (binding.purpose = w.boundPurpose ∧ binding.operation = w.boundOperation ∧
      binding.environmentSet = w.boundEnvironmentSet) .reauthUnitMismatch
    spendWindow cfg s w binding now

/-- The entry of a consumption in the journal. -/
def consumption (now : ℤ) : Consumption where
  sessionID := w.sessionID
  principal := ((s.sessionByID w.sessionID).map Session.principal).getD ""
  binding := binding
  ceremonyID := w.ceremonyID
  singleDecision := w.singleDecision
  time := now
  credentialEpoch := s.epoch
  origin := w.origin

/-- **The disclosure-time half of the gate.** -/
def consumeReauthWindow (sessionID : String)
    (binding : ReauthIntentBinding) (now : ℤ) : Except ReauthError ReauthTables :=
  match s.reauthWindowFor sessionID binding.environmentID with
  | none => .error .noReauthWindow
  | some w => do
    ensure (w.credentialEpoch = s.epoch ∧ now < w.hardExpiresAt ∧ now < w.windowExpiresAt)
      .reauthWindowExpired
    let kind ← windowBindingKind w.toWindowGrant
    ensure (¬ (exactPurpose binding.purpose ∧ kind ≠ .intentBound)) .reauthUnitMismatch
    let s' ← useWindow cfg s w binding now kind
    return s'.record (.consumed (consumption s w binding now))

/-- The doors to a consumption. -/
inductive ConsumptionDoor where
  /-- a disclosure, or the minting of a developer credential -/
  | disclosure
  /-- one environment of an adapter's set -/
  | adapter (environmentID : String)
  | developerCredential
  | selfConfig (authorized : Bool)
deriving DecidableEq, Repr

/-- `ConsumeReauthWindow`, `ConsumeAdapterReauthWindow`, `ConsumeDeveloperCredentialReauth`
and `ConsumeSelfConfigReauth`. -/
def consumeThrough (door : ConsumptionDoor) (sessionID : String)
    (request : IntentRequest) (now : ℤ) (s : ReauthTables) : Except ReauthError ReauthTables := do
  let intent ← request.intent cfg.digest
  match door with
  | .disclosure =>
    ensure (intent.isAdapter = false ∧ intent.isSelfConfig = false) .reauthUnitMismatch
    consumeReauthWindow cfg s sessionID (← intent.bindingFor "") now
  | .adapter environmentID =>
    ensure (intent.isAdapter = true) .reauthUnitMismatch
    consumeReauthWindow cfg s sessionID (← intent.bindingFor environmentID) now
  | .developerCredential =>
    ensure (intent.isDeveloperCredential = true ∧ sessionID ≠ "") .reauthUnitMismatch
    consumeReauthWindow cfg s sessionID (← intent.bindingFor "") now
  | .selfConfig authorized =>
    ensure (intent.isSelfConfig = true ∧ sessionID ≠ "") .reauthUnitMismatch
    ensure (authorized = true) .unauthorized
    consumeReauthWindow cfg s sessionID (← intent.bindingFor "") now

/-! ## TOTP -/

/-- The environments a code opens windows for, each with its idle time. -/
def totpShares (authorized : List String) : Except ReauthError (List (String × ℤ)) :=
  intent.environmentIDs.foldlM (fun shares environmentID => do
    ensure (environmentID ∈ authorized) .unauthorized
    let effWin := effectiveReauthWindow cfg s environmentID
    if intent.isDeveloperCredential then
      ensure (0 < effWin) .reauthWindowClosed
      return shares ++ [(environmentID, 5 * minute)]
    else if intent.isSelfConfig then
      return shares ++ [(environmentID, 5 * minute)]
    else if effWin ≤ 0 then
      -- an adapter's set leaves such an environment to a passkey
      ensure (intent.isUnbound = false) .reauthWindowClosed
      return shares
    else
      return shares ++ [(environmentID, effWin)]) []

/-- A code that verified against a credential, as it was read before. -/
structure TOTPProof where
  account : String
  credentialID : String
  rowVersion : ℕ
  step : ℤ
deriving DecidableEq, Repr

/-- The window a code opens. -/
def totpWindow (proof : TOTPProof) (intent : ReauthIntent)
    (binding : ReauthIntentBinding) (now : ℤ) (share : String × ℤ) : ReauthWindow where
  environmentID := share.1
  ceremonyID := .totp proof.credentialID
  factorClass := .totp
  singleDecision := intent.isExact
  authenticatedAt := now
  windowExpiresAt := min (now + share.2) (now + cfg.hardCap)
  hardExpiresAt := now + cfg.hardCap
  boundKeySet := binding.keySet
  boundPurpose := binding.purpose
  boundOperation := binding.operation
  boundEnvironmentSet := binding.environmentSet
  origin := s.journal.length
  sessionID := σ.id
  credentialEpoch := s.epoch
  consumed := false

/-- The entry of a code in the journal. -/
def totpCompletion (proof : TOTPProof) (intent : ReauthIntent)
    (now : ℤ) (shares : List (String × ℤ)) : Completion where
  ceremonyID := .totp proof.credentialID
  principal := σ.principal
  environmentIDs := shares.map Prod.fst
  time := now
  credentialEpoch := s.epoch
  signed := none
  zeroWindow := false
  singleDecision := intent.isExact

/-- The last phase of `ReauthTOTP` and `ReauthAdapterTOTP`. -/
def reauthTOTP (presented : String) (request : IntentRequest) (proof : TOTPProof)
    (authorized : List String) (now : ℤ) (s : ReauthTables) : Except ReauthError ReauthTables := do
  let intent ← request.intent cfg.digest
  ensure (intent.isUnbound = true ∨ intent.isAdapter = true ∨ intent.isExact = true)
    .reauthUnitMismatch
  ensure (intent.environmentIDs ≠ [] ∧
    (intent.isUnbound = true → intent.environmentIDs.length = 1)) .noReauthWindow
  let binding ← intent.bindingFor (intent.environmentIDs.headD "")
  let σ ← s.authenticate presented now
  match s.totp.rows.find? (·.principal = proof.account) with
  | none => throw .noTOTPFactor
  | some confirmed =>
    let shares ← totpShares cfg s intent authorized
    ensure (shares ≠ []) .reauthWindowClosed
    -- the step is spent on the row that the code was verified against
    ensure (confirmed.id = proof.credentialID ∧ confirmed.rowVersion = proof.rowVersion ∧
      confirmed.lastStep < proof.step)
      (if confirmed.id = proof.credentialID ∧ proof.step ≤ confirmed.lastStep then
        .totpStepAlreadyUsed else .unauthenticated)
    ensure (proof.account = σ.principal) (.invalid "rotation account does not own session")
    let advanced :=
      { confirmed with rowVersion := confirmed.rowVersion + 1, lastStep := proof.step }
    let s₁ := ({ s with totp := s.totp.put advanced } : ReauthTables).record
      (.reauthenticated (totpCompletion s σ proof intent now shares))
    return (shares.map (totpWindow cfg s σ proof intent binding now)).foldl
      ReauthTables.openReauthWindow s₁

/-! ## Passkeys -/

variable (ceremony : WebAuthnCeremony) (digest : JsonText.Text → String) (principal : String) (now : ℤ)

def reauthPasskeyStart (presented : String) (request : IntentRequest)
    (ceremonyID challenge : String) (authorized : List String) (now : ℤ) (s : ReauthTables) :
    Except ReauthError ReauthTables := do
  let intent ← request.intent cfg.digest
  ensure (intent.isUnbound = false) .reauthUnitMismatch
  let binding ← intent.bindingFor intent.environmentID
  let σ ← s.authenticate presented now
  ensure (∀ env ∈ intent.environmentIDs, env ∈ authorized) .unauthorized
  match binding.challengeBinding with
  | none => throw .reauthUnitMismatch
  | some signed =>
    match s.ceremonies.insert
      { id := ceremonyID, challenge, principal := σ.principal, sessionID := σ.id,
        operationBinding := signed, environmentID := binding.environmentID,
        credentialEpoch := s.epoch, expiresAt := now + ceremonyLifetime, consumed := false } with
    | none => throw .conflict
    | some ceremonies => return { s with ceremonies }

/-- The window of a signed challenge, before its binding is written on it. -/
def passkeyWindow : ReauthWindow :=
  let effWin := effectiveReauthWindow cfg s ceremony.environmentID
  { environmentID := ceremony.environmentID, ceremonyID := .webauthn ceremony.id,
    factorClass := .webauthn, singleDecision := effWin ≤ 0, authenticatedAt := now,
    windowExpiresAt :=
      if effWin ≤ 0 ∨ now + cfg.hardCap < now + effWin then now + cfg.hardCap else now + effWin,
    hardExpiresAt := now + cfg.hardCap, boundKeySet := "", boundPurpose := none,
    boundOperation := none, boundEnvironmentSet := "", origin := s.journal.length,
    sessionID := ceremony.sessionID, credentialEpoch := s.epoch, consumed := false }

/-- An exact decision is spent once, within five minutes. -/
def bindExactIntent : ReauthWindow :=
  { w with
    boundPurpose := binding.purpose, boundOperation := binding.operation,
    boundKeySet := binding.keySet, singleDecision := true,
    windowExpiresAt := now + 5 * minute, hardExpiresAt := now + 5 * minute }

/-- The exact decision of a text, built anew. -/
def rebuiltIntent : SignedBinding → Except ReauthError ReauthIntent
  | .selfConfig _ target => newSelfConfigReauthIntent digest target
  | .developerCredential environmentID keyIDs target =>
    newDeveloperCredentialReauthIntent digest environmentID keyIDs target.lifetime
      target.consentCurrentAndFuture
  | .disclosure _ _ _ | .adapter _ _ _ => .error .reauthUnitMismatch

/-- The exact decision that a text spells, which must give the text again. -/
def exactIntentOf (b : SignedBinding) : Except ReauthError ReauthIntent := do
  let intent ← rebuiltIntent digest b
  ensure (intent.exactBinding.map SignedBinding.text = some b.text) .reauthUnitMismatch
  return intent

/-- The binding of a signed challenge, written on its window. -/
def boundPasskeyWindow : Except ReauthError ReauthWindow :=
  let window := passkeyWindow cfg s ceremony now
  match ceremony.operationBinding with
  | .disclosure _ _ _ => .ok window
  | .selfConfig _ _ | .developerCredential _ _ _ => do
    let intent ← exactIntentOf cfg.digest ceremony.operationBinding
    return bindExactIntent window (← intent.bindingFor "") now
  | .adapter operation environmentID environmentIDs => do
    let derived ← refusedAs .reauthUnitMismatch do
      let intent ← newReauthIntentForAdapterOperation operation environmentIDs
      let target ← intent.forEnvironment environmentID
      target.bindingFor environmentID
    ensure (environmentID = ceremony.environmentID ∧
      derived.challengeBinding.map SignedBinding.text = some ceremony.operationBinding.text)
      .reauthUnitMismatch
    return { window with
      boundPurpose := derived.purpose, boundOperation := derived.operation,
      boundEnvironmentSet := derived.environmentSet }

/-- What the relying party says of an assertion that verified. -/
inductive AssertionVerdict where
  | accepted
  /-- the sign count gives a clone away; the sessions that the credential minted are swept -/
  | cloned (swept : List String)
deriving DecidableEq, Repr

/-- The principal's sessions and approvals in flight are not to be trusted any more. -/
def advanceGeneration : ReauthTables :=
  { s with
    generations := Function.update s.generations principal (s.generations principal + 1)
    workspaceHandoffs := s.workspaceHandoffs.delete fun h =>
      h.consumed = false ∧ h.principal = some principal }

/-- The windows and the handoffs of a session go with it. -/
def endSessions (ids : List String) : ReauthTables :=
  { s with
    sessions := s.sessions.delete (·.id ∈ ids)
    windows := s.windows.delete (·.sessionID ∈ ids)
    cliHandoffs := s.cliHandoffs.delete (·.sessionID ∈ ids) }

/-- The entry of a signed challenge in the journal. -/
def passkeyCompletion (window : ReauthWindow) (now : ℤ) : Completion where
  ceremonyID := .webauthn ceremony.id
  principal := σ.principal
  environmentIDs := [ceremony.environmentID]
  time := now
  credentialEpoch := s.epoch
  signed := some ceremony.operationBinding
  zeroWindow := effectiveReauthWindow cfg s ceremony.environmentID ≤ 0
  singleDecision := window.singleDecision

def reauthPasskeyFinish (presented challenge : String) (verdict : AssertionVerdict) (now : ℤ)
    (s : ReauthTables) : Except ReauthError ReauthTables := do
  let σ ← s.authenticate presented now
  match s.webAuthnCeremonyByChallenge challenge with
  | none => throw .noWebAuthnCeremony
  | some ceremony =>
    ensure (ceremony.consumed = false ∧ now < ceremony.expiresAt ∧
      ceremony.principal = σ.principal ∧ ceremony.sessionID = σ.id ∧
      ceremony.environmentID ≠ "" ∧
      ceremony.operationBinding.environmentID = ceremony.environmentID) .noWebAuthnCeremony
    ensure (ceremony.credentialEpoch = s.epoch) .unauthenticated
    let s₁ := { s with ceremonies := s.ceremonies.put { ceremony with consumed := true } }
    match verdict with
    | .cloned swept => return advanceGeneration (endSessions s₁ swept) σ.principal
    | .accepted =>
      let window ← boundPasskeyWindow cfg s ceremony now
      return (s₁.record (.reauthenticated
        (passkeyCompletion cfg s σ ceremony window now))).openReauthWindow window

/-! ## Handoffs to the command line -/

/-- The closed table of purposes and operations a handoff admits. -/
def cliReauthPurposeOperation : ReauthPurpose → ReauthOperation → Bool
  | .developerCredential, operation => operation = .developerCredentialMint
  | .selfConfig, operation =>
    operation = .selfConfigAdopt ∨ operation = .selfConfigApply ∨ operation = .selfConfigTest
  | .adapter, operation => adapterReauthOperation operation
  | .reveal, operation => operation = .valueReveal
  | .copy, operation => operation = .valueCopySource
  | .publish, operation => operation = .valueCopyDestination
  | .approve, operation => operation = .approvalVote
  | .reject, operation => operation = .approvalVote
  | .bypass, operation => operation = .approvalBypass
  | .mint, _ => false
  | .access, _ => false

/-- Whether a handoff carries keys or a text: all but an adapter's do. -/
def cliReauthKeyBound (purpose : ReauthPurpose) : Bool := purpose ≠ .adapter

def startCLIReauth (presented : String) (request : IntentRequest)
    (id state pkceChallenge : String) (wellFormed : Bool) (authorized : List String) (now : ℤ)
    (s : ReauthTables) : Except ReauthError ReauthTables := do
  let intent ← request.intent cfg.digest
  ensure (intent.environmentIDs ≠ []) .reauthUnitMismatch
  let binding ← refusedAs (.invalid "") (intent.bindingFor (intent.environmentIDs.headD ""))
  ensure (wellFormed = true) (.invalid "")
  match binding.purpose, binding.operation with
  | some purpose, some operation =>
    ensure (cliReauthPurposeOperation purpose operation = true) (.invalid "")
    let handoffUnit : HandoffUnit :=
      match intent.exactBinding with
      | some exactBinding => .exact exactBinding
      | none => .keySet binding.keySet
    ensure (cliReauthKeyBound purpose = decide (handoffUnit ≠ .keySet "")) .reauthUnitMismatch
    ensure (∀ keyID ∈ intent.keyIDs, keyID ≠ "" ∧ '\n' ∉ keyID.toList) .reauthUnitMismatch
    let σ ← s.authenticate presented now
    ensure (σ.artifact = .cli) .unauthenticated
    ensure (∀ env ∈ intent.environmentIDs, env ∈ authorized) .unauthorized
    match s.cliHandoffs.insert
      { id, state, sessionID := σ.id, principal := σ.principal, purpose, operation,
        environmentSet := intent.environmentSet, handoffUnit, pkceChallenge,
        expiresAt := now + ceremonyLifetime, code := none, approvedWindows := [],
        consumed := false } with
    | none => throw .conflict
    | some cliHandoffs => return { s with cliHandoffs }
  | _, _ => throw (.invalid "")

/-- The decision a handoff is for, rebuilt from its row. -/
def reauthIntentFromCLIHandoff (h : CLIReauthHandoff) : Except ReauthError ReauthIntent :=
  refusedAs .reauthUnitMismatch <| match h.handoffUnit with
  | .exact b => do
    let intent ← exactIntentOf digest b
    ensure (some h.purpose = (descriptorForVariant intent.variant).bind IntentDescriptor.purpose ∧
      some h.operation = (descriptorForVariant intent.variant).bind IntentDescriptor.operation ∧
      intent.environmentSet = h.environmentSet) .reauthUnitMismatch
    return intent
  | .keySet joined => do
    ensure (h.purpose ≠ .developerCredential ∧ h.purpose ≠ .selfConfig) .reauthUnitMismatch
    let intent ← newReauthIntentFromBinding h.purpose h.operation (splitLines h.environmentSet)
      (if joined = "" then [] else splitLines joined)
    ensure (intent.environmentSet = h.environmentSet ∧ intent.keySet = joined) .reauthUnitMismatch
    return intent

/-- Whether the binding of a browser's window is the one the handoff is for. -/
def approvable (w : ReauthWindow) (authorized : Bool) (now : ℤ) : Except ReauthError Unit := do
  let kind ← refusedAs (if intent.isAdapter then .reauthRequired else .reauthUnitMismatch)
    (windowBindingKind w.toWindowGrant)
  if intent.isExact = true then
    ensure (intent.isSelfConfig = true → authorized = true) .unauthorized
    ensure (kind = .intentBound ∧ binding.keySet = w.boundKeySet ∧
      binding.operation = w.boundOperation ∧ binding.purpose = w.boundPurpose) .reauthUnitMismatch
    if intent.isDeveloperCredential = true then validateExactIntentFactor w.toWindowGrant now
  else if intent.isAdapter = false then
    ensure (kind = .unbound) .reauthUnitMismatch
    if w.singleDecision = true then
      match s.webAuthnCeremonyByID w.ceremonyID with
      | none => throw .unauthorized
      | some ceremony =>
        ensure (some ceremony.operationBinding.text =
          binding.challengeBinding.map SignedBinding.text) .reauthUnitMismatch
  else
    ensure (kind = .adapterBound ∧ w.boundPurpose = binding.purpose ∧
      w.boundOperation = binding.operation ∧ w.boundEnvironmentSet = binding.environmentSet)
      .reauthRequired

/-- One environment of an approval: the browser's window is checked, a single decision is
claimed, and the window is put on the list. -/
def approveShare (σ : Session) (authorized : Bool)
    (now : ℤ) (done : ReauthTables × List WindowGrant) (environmentID : String) :
    Except ReauthError (ReauthTables × List WindowGrant) := do
  let binding ← refusedAs .reauthUnitMismatch do
    let target ← intent.forEnvironment environmentID
    target.bindingFor environmentID
  match done.1.reauthWindowFor σ.id environmentID with
  | none => throw .reauthRequired
  | some w =>
    ensure (now < w.windowExpiresAt ∧ now < w.hardExpiresAt) .reauthRequired
    ensure (¬ (intent.isExact = false ∧ effectiveReauthWindow cfg done.1 environmentID ≤ 0 ∧
      (w.factorClass ≠ .webauthn ∨ w.singleDecision = false))) .reauthRequired
    approvable done.1 intent binding w authorized now
    if w.singleDecision = true then
      let s' ← claim done.1 w
      return (s', done.2 ++ [w.toWindowGrant])
    else return (done.1, done.2 ++ [w.toWindowGrant])

def approveCLIReauth (presented state code : String) (authorized : Bool)
    (now : ℤ) (s : ReauthTables) : Except ReauthError ReauthTables := do
  let σ ← s.authenticate presented now
  match s.cliHandoffByState state with
  | none => throw .cliReauthInvalid
  | some h =>
    ensure (h.Live now ∧ h.code = none) .cliReauthInvalid
    ensure (h.principal = σ.principal) .cliReauthInvalid
    let intent ← reauthIntentFromCLIHandoff cfg.digest h
    let done ← intent.environmentIDs.foldlM (approveShare cfg intent σ authorized now) (s, [])
    return { done.1 with
      cliHandoffs := done.1.cliHandoffs.put
        { h with code := some code, approvedWindows := done.2 } }

def withFactor (factors : List String) (class_ : FactorClass) : List String :=
  if class_.text ∈ factors then factors else factors ++ [class_.text]

/-- The window of a grant for a session, in an epoch. -/
def WindowGrant.openFor (a : WindowGrant) (sessionID : String) (epoch : ℕ) : ReauthWindow :=
  { toWindowGrant := a, sessionID, credentialEpoch := epoch, consumed := false }

/-- One approved window, opened for the session that redeems. -/
def redeemShare (s : ReauthTables) (approved : WindowGrant) : Except ReauthError ReauthTables := do
  ensure (now < approved.windowExpiresAt ∧ now < approved.hardExpiresAt) .cliReauthInvalid
  return s.openReauthWindow (approved.openFor σ.id s.epoch)

def redeemCLIReauth (code pkceVerifier : String) (now : ℤ)
    (s : ReauthTables) : Except ReauthError ReauthTables :=
  match s.cliHandoffByCode code with
  | none => .error .cliReauthInvalid
  | some h => do
    ensure (h.Live now ∧ h.approvedWindows ≠ []) .cliReauthInvalid
    ensure (cfg.pkceS256 pkceVerifier = h.pkceChallenge) .cliReauthInvalid
    let σ ← s.authenticateSessionByID h.sessionID now
    ensure (σ.principal = h.principal ∧ σ.artifact = .cli) .unauthenticated
    let s₁ := { s with
      cliHandoffs := s.cliHandoffs.put ({ h with consumed := true } : CLIReauthHandoff)
      factors := Function.update s.factors σ.id
        (h.approvedWindows.foldl (fun factors w => withFactor factors w.factorClass)
          (s.factors σ.id)) }
    h.approvedWindows.foldlM (redeemShare σ now) s₁

/-! ## Step-ups of a workspace -/

def startStepUp (request : IntentRequest) (id state origin : String)
    (pkceChallenge sessionID : String) (allowed : Bool) (now : ℤ) (s : ReauthTables) :
    Except ReauthError ReauthTables := do
  let intent ← request.intent cfg.digest
  ensure (intent.isAdapter = false ∧ intent.isUnbound = false ∧
    intent.environmentIDs.length = 1 ∧ sessionID ≠ "") (.invalid "")
  let binding ← intent.bindingFor ""
  ensure (binding.purpose ≠ some .mint) (.invalid "")
  ensure (allowed = true) .unauthorized
  match binding.operation with
  | none => throw (.invalid "")
  | some operation =>
    match (s.workspaceHandoffs.delete (·.expiresAt < now)).insert
      { id, state, origin, pkceChallenge, sessionID, operation,
        environmentID := binding.environmentID, keySet := binding.keySet, createdAt := now,
        expiresAt := now + handoffExpiry, code := none, principal := none, factors := [],
        factorClass := none, consumed := false } with
    | none => throw .conflict
    | some workspaceHandoffs => return { s with workspaceHandoffs }

/-- The class of the ceremony that was completed inside the popup. -/
def freshCeremonyClass (σ : Session) (h : WorkspaceHandoff) (now : ℤ) :
    Except ReauthError FactorClass := do
  ensure (h.environmentID ≠ "") (.handoffInvalid "step-up-not-environment-scoped")
  match s.reauthWindowFor σ.id h.environmentID with
  | none => throw (.handoffInvalid "step-up-no-fresh-ceremony")
  | some w =>
    ensure (w.credentialEpoch = s.epoch ∧ now < w.hardExpiresAt ∧ now < w.windowExpiresAt)
      (.handoffInvalid "step-up-ceremony-lapsed")
    ensure (h.createdAt ≤ w.authenticatedAt) (.handoffInvalid "step-up-ceremony-stale")
    return w.factorClass

def approveStepUp (presented state code : String) (allowed : Bool) (now : ℤ) (s : ReauthTables) :
    Except ReauthError ReauthTables := do
  let σ ← s.authenticate presented now
  match s.workspaceHandoffByState state with
  | none => throw (.handoffInvalid "unknown-transaction")
  | some h =>
    ensure (h.Live now) (.handoffInvalid "expired-or-consumed")
    ensure (allowed = true) (.handoffInvalid "origin-removed")
    let factorClass ← freshCeremonyClass s σ h now
    ensure (h.code = none) (.handoffInvalid "already-approved")
    let approved := { h with
      code := some code, principal := some σ.principal, factorClass := some factorClass,
      factors := withFactor (s.factors σ.id) factorClass }
    return { s with workspaceHandoffs := s.workspaceHandoffs.put approved }

/-- A passkey, or two different factors. -/
def adequateAssurance (factors : List String) : Bool :=
  "webauthn" ∈ factors ∨ 2 ≤ factors.dedup.length

/-- The session a step-up elevates, among the approver's own. -/
def stepUpTarget (h : WorkspaceHandoff) (principal : String) (now : ℤ) :
    Except ReauthError Session :=
  match s.sessionByID h.sessionID with
  | none => .error (.handoffInvalid "step-up-session-unknown")
  | some σ => do
    ensure (σ.principal = principal) (.handoffInvalid "step-up-session-unknown")
    ensure (σ.artifact = .workspace) (.handoffInvalid "step-up-not-a-workspace-session")
    ensure (σ.requestingOrigin = h.origin) (.handoffInvalid "step-up-origin-mismatch")
    ensure (now < σ.idleExpiresAt ∧ now < σ.absoluteExpiresAt)
      (.handoffInvalid "step-up-session-expired")
    return σ

/-- The window of an elevation, bound to the operation and the keys that were consented to. -/
def elevationWindow (h : WorkspaceHandoff) (σ : Session)
    (factorClass : FactorClass) (binding : ReauthIntentBinding) (now : ℤ) : ReauthWindow where
  environmentID := h.environmentID
  ceremonyID := .handoff h.id
  factorClass := factorClass
  singleDecision := false
  authenticatedAt := now
  windowExpiresAt :=
    min (now + effectiveReauthWindow cfg s h.environmentID) (now + cfg.hardCap)
  hardExpiresAt := now + cfg.hardCap
  boundKeySet := binding.keySet
  boundPurpose := none
  boundOperation := binding.operation
  boundEnvironmentSet := ""
  origin := s.journal.length
  sessionID := σ.id
  credentialEpoch := s.epoch
  consumed := false

/-- The entry of an elevation in the journal. -/
def elevationCompletion (h : WorkspaceHandoff) (σ : Session) (now : ℤ) : Completion where
  ceremonyID := .handoff h.id
  principal := σ.principal
  environmentIDs := [h.environmentID]
  time := now
  credentialEpoch := s.epoch
  signed := none
  zeroWindow := false
  singleDecision := false

/-- The step-up half of a redemption. -/
def elevate (h : WorkspaceHandoff) (principal : String)
    (now : ℤ) : Except ReauthError ReauthTables := do
  ensure (h.environmentID ≠ "") (.handoffInvalid "step-up-not-environment-scoped")
  let binding ← refusedAs (.handoffInvalid "step-up-binding-invalid") do
    let intent ← newReauthIntentForOperation h.operation h.environmentID
      (if h.keySet = "" then [] else splitLines h.keySet)
    intent.bindingFor ""
  ensure (binding.operation = some h.operation ∧ binding.keySet = h.keySet)
    (.handoffInvalid "step-up-binding-invalid")
  match h.factorClass with
  | none => throw (.handoffInvalid "step-up-no-fresh-ceremony")
  | some factorClass =>
    ensure (adequateAssurance h.factors = true) (.handoffInvalid "step-up-assurance-inadequate")
    let σ ← stepUpTarget s h principal now
    ensure (0 < effectiveReauthWindow cfg s h.environmentID)
      (.handoffInvalid "step-up-window-closed")
    let s₁ := { s with factors := Function.update s.factors σ.id h.factors }
    return (s₁.record (.reauthenticated (elevationCompletion s h σ now))).openReauthWindow
      (elevationWindow cfg s h σ factorClass binding now)

def redeemStepUp (code pkceVerifier origin : String) (allowed : Bool)
    (now : ℤ) (s : ReauthTables) : Except ReauthError ReauthTables :=
  match s.workspaceHandoffByCode code with
  | none => .error (.handoffInvalid "unknown-code")
  | some h => do
    ensure (h.Live now) (.handoffInvalid "expired-or-consumed")
    ensure (h.origin = origin) (.handoffInvalid "origin-mismatch")
    match h.principal with
    | none => throw (.handoffInvalid "never-approved")
    | some principal =>
      ensure (cfg.pkceS256 pkceVerifier = h.pkceChallenge) (.handoffInvalid "pkce-mismatch")
      ensure (allowed = true) (.handoffInvalid "origin-removed")
      let spent := s.workspaceHandoffs.put { h with consumed := true }
      elevate cfg { s with workspaceHandoffs := spent } h principal now

end

/-! ## Sessions, factors and environments -/

/-- A session is minted for its principal's generation and the current epoch. -/
def signIn (id principal : String) (artifact : SessionArtifact) (idleExpiresAt absoluteExpiresAt : ℤ)
    (requestingOrigin : String) (factors : List String) (s : ReauthTables) :
    Except ReauthError ReauthTables :=
  match s.sessions.insert
    { id, principal, artifact, generation := s.generations principal, credentialEpoch := s.epoch,
      idleExpiresAt, absoluteExpiresAt, requestingOrigin } with
  | none => .error .conflict
  | some sessions => .ok { s with sessions, factors := Function.update s.factors id factors }

/-- A restore advances the epoch and retires the approvals in flight of the workspaces. -/
def advanceRestoreEpoch (epoch : ℕ) (s : ReauthTables) : Except ReauthError ReauthTables := do
  ensure (s.epoch < epoch) .conflict
  return { s with
    epoch
    workspaceHandoffs := s.workspaceHandoffs.delete fun h =>
      h.consumed = false ∧ h.principal ≠ none }

def confirmTOTP (credential : TOTPCredential) (s : ReauthTables) : ReauthTables :=
  { s with totp := s.totp.put credential }

def createEnvironment (environmentID : String) (s : ReauthTables) :
    Except ReauthError ReauthTables :=
  match s.environments.insert ⟨environmentID, false, false, 0⟩ with
  | none => .error .conflict
  | some environments => .ok { s with environments }

end Hikyo.Reauth
