import Hikyo.Rollout.Plan

/-!
# Rollout commands and who may give them

The coordinator tells the executor what to do by signed commands. An enrollment is
the operator's record of who may sign: without an `Authority` it is the
compatibility profile, one Ed25519 key; with one it is the strict profile, a
generation, the required algorithms and the identity of each key. `verifyCommand`
is the check of a new command, and it is made against the installed enrollment
alone. `anchored` is the weaker check of a command that was accepted earlier,
possibly under an older generation.

The highest generation that was ever in force is recorded beside the journal, and
`checkFloor` refuses an enrollment that falls behind it.

Signatures are a parameter (`Scheme`): which of them verify under a key. What is
signed is the command itself; the two input formats are told apart by their labels.
-/

namespace Hikyo.Rollout

/-! ## Keys and trust -/

inductive Algorithm where
  | ed25519
  | mldsa65
  | other (name : String)
deriving DecidableEq, Countable

structure Authority where
  profile : String
  generation : ℕ
  required : List Algorithm
  keyIDs : List String
deriving DecidableEq, Countable

structure CommandAuthority where
  authority : Authority
  targetDigest : String
deriving DecidableEq, Countable

structure CommandSignature where
  algorithm : Algorithm
  keyID : String
  signature : String
deriving DecidableEq, Countable

/-- The keys that a verifier holds, at most one for each algorithm. -/
structure PublicKeys where
  ed25519 : Option String
  mldsa65 : Option String
deriving DecidableEq

def PublicKeys.key (keys : PublicKeys) : Algorithm → Option String
  | .ed25519 => keys.ed25519
  | .mldsa65 => keys.mldsa65
  | .other _ => none

/-! ## Commands -/

inductive Action where
  | prepare
  | submit
  | observe
  | restore
  /-- an action that is none of these -/
  | other (name : String)
deriving DecidableEq, Countable

/-- A command. Instants are nanoseconds since the zero time. -/
structure Command where
  enrollmentID : String
  sequence : UInt64
  action : Action
  intent : Intent
  planDigest : String
  changes : List Change
  previousTemplateStamp : String
  topology : Option SingletonTopologyChange
  bootstrap : Option BootstrapChanges
  acknowledgement : Option ApplicationAcknowledgement
  issuedAt : ℤ
  expiresAt : ℤ
  authority : Option CommandAuthority
deriving DecidableEq, Countable

structure SignedCommand where
  command : Command
  signature : String
  signatures : List CommandSignature
deriving DecidableEq, Countable

/-- What is signed: a command, in the format of one of the two profiles. -/
inductive SignatureInput where
  | v1 (command : Command)
  | v2 (command : Command)
deriving DecidableEq

/-- **Signatures and key identities.** -/
structure Scheme where
  keyID : Algorithm → String → String
  validKeyID : Algorithm → String → Bool
  /-- a signature has the length that the algorithm fixes -/
  wellSized : Algorithm → String → Bool
  verify : Algorithm → String → SignatureInput → String → Bool
  /-- the serialized command stays within `maxRecordBytes` -/
  commandFits : Command → Bool

structure Enrollment where
  id : String
  ownerInstanceID : String
  incarnation : String
  target : Target
  journalSecret : String
  journalSecretUID : String
  authority : Option Authority
deriving DecidableEq

variable (P : Platform) (S : Scheme)

def authorityProfile : String := "pqc-auth/1"

section

variable (e : Enrollment) (keys : PublicKeys) (c : Command) (signed : SignedCommand)

def validAuthority (a : Authority) : Bool :=
  a.profile = authorityProfile && a.generation ≠ 0 && a.keyIDs.length = a.required.length &&
    (a.required = [.ed25519, .mldsa65] || a.required = [.mldsa65]) &&
    (a.required.zip a.keyIDs).all fun (algorithm, id) => S.validKeyID algorithm id

/-- The enrollment's own checks; names of cluster objects are the operator's affair. -/
def validEnrollment : Bool :=
  safeName e.id && safeName e.ownerInstanceID && safeName e.incarnation &&
    safeName e.target.stableNodeID && validTopologyEnrollment e.target &&
    e.journalSecretUID ≠ "" && e.target.deploymentUID ≠ "" && e.authority.all (validAuthority S)

def PublicKeys.keyID (algorithm : Algorithm) : Option String :=
  (keys.key algorithm).map (S.keyID algorithm)

/-- **The held keys are exactly the enrolled ones.** -/
def checkKeys : Bool :=
  match e.authority with
  | none => keys.ed25519.isSome && keys.mldsa65.isNone
  | some a =>
    keys.ed25519.toList.length + keys.mldsa65.toList.length = a.required.length &&
      (a.required.zip a.keyIDs).all fun (algorithm, id) => keys.keyID S algorithm = some id

/-! ## Validity of a command -/

def expectedBinding : Option CommandAuthority :=
  e.authority.map fun a => ⟨a, P.digest e.target⟩

def tenMinutes : ℤ := 10 * 60 * 1000000000

def validAction : Bool :=
  match c.action with
  | .prepare => c.planDigest = "" &&
      (c.changes ≠ [] || c.bootstrap ≠ none || c.topology ≠ none) && c.changes.length ≤ 32 &&
      c.acknowledgement = none && validBootstrap P e.target c.bootstrap
  | .submit | .restore => P.validDigest c.planDigest && c.changes = [] && c.bootstrap = none &&
      c.acknowledgement = none
  | .observe => P.validDigest c.planDigest && c.changes = [] && c.bootstrap = none &&
      c.acknowledgement.all fun ack => ack.intent = c.intent && ack.planDigest = c.planDigest &&
        ack.deploymentUID = e.target.deploymentUID
  | .other _ => false

def validCommandShape : Bool :=
  c.enrollmentID = e.id && c.sequence ≠ 0 && validIntent c.intent &&
    c.intent.ownerInstanceID = e.ownerInstanceID && c.intent.incarnation = e.incarnation &&
    c.issuedAt ≠ 0 && c.expiresAt > c.issuedAt && c.expiresAt - c.issuedAt ≤ tenMinutes &&
    (c.previousTemplateStamp = "" || P.validDigest c.previousTemplateStamp) &&
    validTopology e.target c.topology &&
    (c.topology.all fun change => c.changes = [] &&
      (c.bootstrap = none || change.before = change.after)) &&
    validAction P e c

/-- **A valid command names the verifier's own trust state and target.** -/
def validCommand : Bool :=
  validCommandShape P e c && c.authority = expectedBinding P e

/-! ## Signatures -/

/-- One signature for each required algorithm, in order, under the pinned keys. -/
def envelopeMatches (required : List Algorithm) (ids : List String) : Bool :=
  signed.signature = "" && signed.signatures.length = required.length &&
    (signed.signatures.zip (required.zip ids)).all fun (s, algorithm, id) =>
      s.algorithm = algorithm && s.keyID = id && S.wellSized s.algorithm s.signature

def validEnvelope : Bool :=
  match e.authority with
  | none => signed.command.authority = none && signed.signatures = [] &&
      S.wellSized .ed25519 signed.signature
  | some a => envelopeMatches S signed a.required a.keyIDs

def verifyAlgorithm (input : SignatureInput) (s : CommandSignature) : Bool :=
  (keys.key s.algorithm).any fun key => S.verify s.algorithm key input s.signature

/-- **The check of a new command**, under the verifier's own trust state. -/
def verifyCommand : Bool :=
  validCommand P e signed.command && validEnvelope S e signed && S.commandFits signed.command &&
    match e.authority with
    | none => keys.ed25519.any fun key =>
        S.verify .ed25519 key (.v1 signed.command) signed.signature
    | some _ => signed.signatures.all (verifyAlgorithm S keys (.v2 signed.command))

/-- **The check of a command that was accepted earlier.** The post-quantum signature must
verify; a classical one is looked at only if its key is still the enrolled one. -/
def anchored : Bool :=
  validCommandShape P e signed.command && match e.authority, signed.command.authority with
    | none, none => verifyCommand P S e keys signed
    | none, some _ => false
    | some a, none => .ed25519 ∈ a.required && signed.signatures = [] &&
        S.wellSized .ed25519 signed.signature && S.commandFits signed.command &&
        keys.ed25519.any fun key => S.verify .ed25519 key (.v1 signed.command) signed.signature
    | some a, some binding =>
      validAuthority S binding.authority && binding.authority.generation ≤ a.generation &&
        envelopeMatches S signed binding.authority.required binding.authority.keyIDs &&
        S.commandFits signed.command &&
        (signed.signatures.all fun s =>
          if (keys.keyID S s.algorithm).getD "" = s.keyID then
            verifyAlgorithm S keys (.v2 signed.command) s
          else s.algorithm ≠ .mldsa65) &&
        (signed.signatures.any fun s => s.algorithm = .mldsa65 &&
          (keys.keyID S s.algorithm).getD "" = s.keyID)

end

/-! ## The generation floor -/

/-- **A trust state older than, or different from, the recorded one is refused.** -/
def checkFloor (recorded current : Option Authority) : Except RolloutError Unit :=
  match recorded, current with
  | none, _ => .ok ()
  | some _, none => .error .trust
  | some r, some c =>
    if c.generation < r.generation then .error .trust
    else if c.generation = r.generation ∧ c ≠ r then .error .trust
    else .ok ()

def parseTrustRecord : Slot Authority → Except RolloutError (Option Authority)
  | .absent => .ok none
  | .garbled => .error .trust
  | .stored a => if validAuthority S a then .ok (some a) else .error .trust

end Hikyo.Rollout
