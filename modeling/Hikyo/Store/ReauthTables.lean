import Hikyo.Service.ReauthIntent

/-!
# The tables of reauthentication

A reauthentication window is a row for a session and an environment. It is opened
by a ceremony, spent or slid by consumptions, and superseded in place by the next
ceremony of the same session for the same environment. A consent can also travel: a
browser session hands its windows to a command-line session inside a handoff record,
and a step-up in a popup elevates the session of a workspace.

The state holds these tables with the ones they depend on – sessions, generations, the credential
epoch, the settings of the environments, the factors – and a journal. The journal is the audit
trail as far as it concerns consents: every completed ceremony, every lowering of an effective
window, every consumption. Nothing reads it, nor the `origin` of a window, the place in the journal
of the ceremony that opened it.
-/

namespace Hikyo.Reauth

/-! ## Rows -/

inductive SessionArtifact where
  | cli
  | browser
  | workspace
deriving DecidableEq, Repr

/-- A session. The bearer of a session is its identifier here: rotations replace
the bearer and keep the session. -/
structure Session where
  id : String
  principal : String
  artifact : SessionArtifact
  generation : ℕ
  credentialEpoch : ℕ
  idleExpiresAt : ℤ
  absoluteExpiresAt : ℤ
  /-- the origin a workspace session is bound to -/
  requestingOrigin : String
deriving DecidableEq, Repr

/-- The settings of an environment that the effective window is computed from. -/
structure EnvironmentRow where
  id : String
  isProtected : Bool
  hasWindow : Bool
  window : ℤ
deriving DecidableEq, Repr

/-- A confirmed TOTP factor, with the last step that was spent. -/
structure TOTPCredential where
  id : String
  principal : String
  rowVersion : ℕ
  lastStep : ℤ
deriving DecidableEq, Repr

inductive FactorClass where
  | totp
  | webauthn
deriving DecidableEq, Repr

def FactorClass.text : FactorClass → String
  | .totp => "totp"
  | .webauthn => "webauthn"

/-- What opened a window: a TOTP credential, a challenge that was signed, or a
workspace handoff. The identifiers of the three carry different prefixes. -/
inductive CeremonyID where
  | totp (credentialID : String)
  | webauthn (challengeID : String)
  | handoff (handoffID : String)
deriving DecidableEq, Repr

/-- A challenge of a passkey reauthentication and the decision it is for. -/
structure WebAuthnCeremony where
  id : String
  challenge : String
  principal : String
  sessionID : String
  operationBinding : SignedBinding
  environmentID : String
  credentialEpoch : ℕ
  expiresAt : ℤ
  consumed : Bool
deriving DecidableEq, Repr

/-- The parts of a window that a handoff carries from one session to another. -/
structure WindowGrant where
  environmentID : String
  ceremonyID : CeremonyID
  factorClass : FactorClass
  singleDecision : Bool
  authenticatedAt : ℤ
  windowExpiresAt : ℤ
  hardExpiresAt : ℤ
  boundKeySet : String
  boundPurpose : Option ReauthPurpose
  boundOperation : Option ReauthOperation
  boundEnvironmentSet : String
  /-- where the ceremony stands in the journal; no query reads it -/
  origin : ℕ
deriving DecidableEq, Repr

/-- A reauthentication window. -/
structure ReauthWindow extends WindowGrant where
  sessionID : String
  credentialEpoch : ℕ
  consumed : Bool
deriving DecidableEq, Repr

/-- There is one window for a session and an environment. -/
def ReauthWindow.key (w : ReauthWindow) : String × String := (w.sessionID, w.environmentID)

/-- The unit a handoff is bound to: the joined keys of a disclosure, or the text of an
exact decision. -/
inductive HandoffUnit where
  | keySet (joined : String)
  | exact (binding : SignedBinding)
deriving DecidableEq, Repr

/-- A handoff of a browser's consent to a command-line session. -/
structure CLIReauthHandoff where
  id : String
  state : String
  sessionID : String
  principal : String
  purpose : ReauthPurpose
  operation : ReauthOperation
  environmentSet : String
  handoffUnit : HandoffUnit
  pkceChallenge : String
  expiresAt : ℤ
  code : Option String
  approvedWindows : List WindowGrant
  consumed : Bool
deriving DecidableEq, Repr

def CLIReauthHandoff.Live (h : CLIReauthHandoff) (now : ℤ) : Prop :=
  h.consumed = false ∧ now < h.expiresAt

instance (h : CLIReauthHandoff) (now : ℤ) : Decidable (h.Live now) :=
  inferInstanceAs (Decidable (_ ∧ _))

/-- A step-up of a workspace session. -/
structure WorkspaceHandoff where
  id : String
  state : String
  origin : String
  pkceChallenge : String
  sessionID : String
  operation : ReauthOperation
  environmentID : String
  keySet : String
  createdAt : ℤ
  expiresAt : ℤ
  code : Option String
  /-- who approved it -/
  principal : Option String
  factors : List String
  factorClass : Option FactorClass
  consumed : Bool
deriving DecidableEq, Repr

def WorkspaceHandoff.Live (h : WorkspaceHandoff) (now : ℤ) : Prop :=
  h.consumed = false ∧ now < h.expiresAt

instance (h : WorkspaceHandoff) (now : ℤ) : Decidable (h.Live now) :=
  inferInstanceAs (Decidable (_ ∧ _))

/-! ## The journal -/

/-- A completed ceremony. -/
structure Completion where
  ceremonyID : CeremonyID
  principal : String
  environmentIDs : List String
  time : ℤ
  credentialEpoch : ℕ
  /-- what a passkey signed -/
  signed : Option SignedBinding
  /-- whether the effective window was zero, for a passkey -/
  zeroWindow : Bool
  /-- whether what it opened can be spent once only -/
  singleDecision : Bool
deriving DecidableEq, Repr

/-- A committed consumption. -/
structure Consumption where
  sessionID : String
  principal : String
  /-- the decision it is for -/
  binding : ReauthIntentBinding
  ceremonyID : CeremonyID
  singleDecision : Bool
  time : ℤ
  credentialEpoch : ℕ
  origin : ℕ
deriving DecidableEq, Repr

inductive ReauthEvent where
  | reauthenticated (c : Completion)
  | windowLowered (environmentID : String)
  | consumed (k : Consumption)
deriving DecidableEq, Repr

/-! ## The state -/

structure ReauthTables where
  sessions : Table.Keyed Session.id
  /-- the factors a session has shown -/
  factors : String → List String
  generations : String → ℕ
  epoch : ℕ
  environments : Table.Keyed EnvironmentRow.id
  totp : Table.Keyed TOTPCredential.id
  ceremonies : Table.Keyed WebAuthnCeremony.id
  windows : Table.Keyed ReauthWindow.key
  cliHandoffs : Table.Keyed CLIReauthHandoff.id
  workspaceHandoffs : Table.Keyed WorkspaceHandoff.id
  journal : List ReauthEvent

/-- What the instance is configured with, and the functions of the platform. -/
structure ReauthConfig where
  /-- the default effective window, in nanoseconds -/
  reauthWindow : ℤ
  /-- the hard cap; zero when it is not configured -/
  reauthHardCap : ℤ
  /-- SHA-256, in hexadecimal -/
  digest : JsonText.Text → String
  /-- the S256 transformation of a PKCE verifier -/
  pkceS256 : String → String

namespace ReauthTables

def initial : ReauthTables where
  sessions := .empty
  factors _ := []
  generations _ := 0
  epoch := 0
  environments := .empty
  totp := .empty
  ceremonies := .empty
  windows := .empty
  cliHandoffs := .empty
  workspaceHandoffs := .empty
  journal := []

variable (s : ReauthTables)

def record (e : ReauthEvent) : ReauthTables := { s with journal := s.journal ++ [e] }

def sessionByID (id : String) : Option Session := s.sessions.rows.find? (·.id = id)

def reauthWindowFor (sessionID environmentID : String) : Option ReauthWindow :=
  s.windows.rows.find? (·.key = (sessionID, environmentID))

def webAuthnCeremonyByID : CeremonyID → Option WebAuthnCeremony
  | .webauthn id => s.ceremonies.rows.find? (·.id = id)
  | _ => none

def webAuthnCeremonyByChallenge (challenge : String) : Option WebAuthnCeremony :=
  s.ceremonies.rows.find? (·.challenge = challenge)

def cliHandoffByState (state : String) : Option CLIReauthHandoff :=
  s.cliHandoffs.rows.find? (·.state = state)

def cliHandoffByCode (code : String) : Option CLIReauthHandoff :=
  s.cliHandoffs.rows.find? (·.code = some code)

def workspaceHandoffByState (state : String) : Option WorkspaceHandoff :=
  s.workspaceHandoffs.rows.find? (·.state = state)

def workspaceHandoffByCode (code : String) : Option WorkspaceHandoff :=
  s.workspaceHandoffs.rows.find? (·.code = some code)

/-- Opening a window supersedes the one the session had for the environment. -/
def openReauthWindow (w : ReauthWindow) : ReauthTables := { s with windows := s.windows.put w }

/-- The claim of a single-decision window. -/
def claimWindow (w : ReauthWindow) : Option ReauthTables :=
  if w.singleDecision = true ∧ w.consumed = false then
    some { s with windows := s.windows.put { w with consumed := true } }
  else none

/-- A new end of the idle clock of a sliding window. -/
def slideReauthWindow (w : ReauthWindow) (expiresAt : ℤ) : Option ReauthTables :=
  if w.singleDecision = false ∧ w.consumed = false then
    some { s with windows := s.windows.put { w with windowExpiresAt := expiresAt } }
  else none

/-! ## Sessions -/

/-- A session that is there, within its clocks, of its principal's generation and of the
current epoch. -/
def authenticateSessionByID (id : String) (now : ℤ) : Except ReauthError Session :=
  match s.sessionByID id with
  | none => .error .unauthenticated
  | some σ => do
    Tx.ensure (now < σ.idleExpiresAt ∧ now < σ.absoluteExpiresAt) .unauthenticated
    Tx.ensure (s.generations σ.principal = σ.generation) .unauthenticated
    Tx.ensure (s.epoch = σ.credentialEpoch) .unauthenticated
    return σ

/-- The door of account security, closed to workspace sessions. -/
def authenticate (presented : String) (now : ℤ) : Except ReauthError Session := do
  let σ ← s.authenticateSessionByID presented now
  Tx.ensure (σ.artifact ≠ .workspace) .unauthenticated
  return σ

variable {s}

variable {id : String} {σ : Session}

theorem mem_of_sessionByID (h : s.sessionByID id = some σ) :
    σ ∈ s.sessions.rows ∧ σ.id = id := by
  refine ⟨List.mem_of_find?_eq_some h, ?_⟩
  have hid := List.find?_some h
  rwa [decide_eq_true_eq] at hid

theorem mem_of_reauthWindowFor {sessionID environmentID : String} {w : ReauthWindow}
    (h : s.reauthWindowFor sessionID environmentID = some w) :
    w ∈ s.windows.rows ∧ w.sessionID = sessionID ∧ w.environmentID = environmentID := by
  have hkey := List.find?_some h
  rw [decide_eq_true_eq] at hkey
  exact ⟨List.mem_of_find?_eq_some h, (Prod.mk.inj hkey).1, (Prod.mk.inj hkey).2⟩

theorem mem_of_webAuthnCeremonyByID {id : CeremonyID} {c : WebAuthnCeremony}
    (h : s.webAuthnCeremonyByID id = some c) : c ∈ s.ceremonies.rows ∧ id = .webauthn c.id := by
  cases id with
  | totp | handoff => cases h
  | webauthn id =>
    have hid := List.find?_some h
    rw [decide_eq_true_eq] at hid
    exact ⟨List.mem_of_find?_eq_some h, congrArg _ hid.symm⟩

variable {now : ℤ}

/-- **A session that authenticates** is in the table and of the current epoch. -/
theorem of_authenticateSessionByID
    (h : s.authenticateSessionByID id now = .ok σ) :
    σ ∈ s.sessions.rows ∧ σ.id = id ∧ σ.credentialEpoch = s.epoch := by
  unfold authenticateSessionByID at h
  cases hσ : s.sessionByID id with
  | none => rw [hσ] at h; cases h
  | some row =>
    rw [hσ] at h
    replace h := Tx.skip (Tx.skip h)
    obtain ⟨_, hepoch, h⟩ := Tx.bind_ok h
    obtain rfl : row = σ := Except.ok.inj h
    obtain ⟨hmem, hid⟩ := mem_of_sessionByID hσ
    exact ⟨hmem, hid, (Tx.ensured hepoch).symm⟩

theorem of_authenticate {presented : String}
    (h : s.authenticate presented now = .ok σ) :
    σ ∈ s.sessions.rows ∧ σ.id = presented ∧ σ.credentialEpoch = s.epoch ∧
      σ.artifact ≠ .workspace := by
  obtain ⟨row, hrow, h⟩ := Tx.bind_ok h
  obtain ⟨_, hartifact, h⟩ := Tx.bind_ok h
  obtain rfl : row = σ := Except.ok.inj h
  obtain ⟨hmem, hid, hepoch⟩ := of_authenticateSessionByID hrow
  exact ⟨hmem, hid, hepoch, Tx.ensured hartifact⟩

end ReauthTables

end Hikyo.Reauth
