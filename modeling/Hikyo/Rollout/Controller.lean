import Hikyo.Rollout.Authority
import Hikyo.Rollout.Executor

/-!
# The rollout controller

The controller reads a command from its mailbox, which anybody may have written,
and carries it out. What it has accepted it keeps in a journal of its own: the
signed command, the plan that was prepared, and the response once there is one. A
command is accepted by one write of the journal, before anything is done for it,
so that a controller that is stopped takes up the same command again; and the
generation floor is part of the same write.

`reconcile` is one pass, `reconcileTrust` the check at the start. Both are programs
over the mailbox, the journal, the clock and the executor. The system around them
keeps a history – which commands were accepted and under what trust state, and what
the executor was called for – that no program looks at.
-/

namespace Hikyo.Rollout

open Tx (ensure)

/-! ## The journal -/

inductive Outcome where
  | complete
  | unsupported
deriving DecidableEq, Repr

structure Response where
  enrollmentID : String
  sequence : UInt64
  commandDigest : String
  planDigest : String
  templateStamp : String
  resources : Option ResourceVersions
  receipt : Option Receipt
  outcome : Outcome
deriving DecidableEq

/-- **What has been accepted**, the plan it is about, and the response. -/
structure Journal where
  accepted : SignedCommand
  plan : Option Record
  response : Option Response
deriving DecidableEq

/-- The contents of the journal Secret. A journal is stored as it was written; whether it
decodes again is a matter of its size. -/
structure JournalContent where
  trust : Slot Authority
  journal : Slot Journal
deriving DecidableEq

/-- The journal Secret with its name. -/
structure JournalSecret where
  name : String
  secret : Secret JournalContent
deriving DecidableEq

/-! ## Calls -/

/-- The calls of the executor. -/
inductive ExecutorStep where
  | submit
  | observe
  | cancelPrepared
  | restore
deriving DecidableEq, Repr

/-- **The circumstances of an acceptance.** -/
structure Acceptance where
  signed : SignedCommand
  enrollment : Enrollment
  keys : PublicKeys
  now : ℤ
deriving DecidableEq

inductive ControllerCall where
  | readCommand
  | readJournal
  | now
  /-- write the journal with a newly accepted command -/
  | acceptCommand (s : Secret JournalContent) (a : Acceptance)
  | putJournal (s : Secret JournalContent)
  | writeResponse (r : Response)
  | prepare (signed : SignedCommand)
  | execute (signed : SignedCommand) (plan : Option Record) (step : ExecutorStep)

def ControllerAns : ControllerCall → Type
  | .readCommand => Except RolloutError (Slot SignedCommand)
  | .readJournal => Except RolloutError JournalSecret
  | .now => ℤ
  | .acceptCommand _ _ => Except RolloutError (Secret JournalContent)
  | .putJournal _ => Except RolloutError (Secret JournalContent)
  | .writeResponse _ => Except RolloutError Unit
  | .prepare _ => Except RolloutError Record
  | .execute _ _ _ => Except RolloutError Receipt

/-- A program of the controller. -/
abbrev Control := ExceptT RolloutError (Prog ControllerCall ControllerAns)

namespace Control

def ask (c : ControllerCall) : Prog ControllerCall ControllerAns (ControllerAns c) := Prog.ask c

def readCommand : Control (Slot SignedCommand) := ExceptT.mk (ask .readCommand)
def readJournal : Control JournalSecret := ExceptT.mk (ask .readJournal)
def now : Control ℤ := ExceptT.lift (ask .now)
def acceptCommand (s : Secret JournalContent) (a : Acceptance) : Control (Secret JournalContent) :=
  ExceptT.mk (ask (.acceptCommand s a))
def putJournal (s : Secret JournalContent) : Control (Secret JournalContent) :=
  ExceptT.mk (ask (.putJournal s))
def writeResponse (r : Response) : Control Unit := ExceptT.mk (ask (.writeResponse r))

/-- Call the executor, and keep its answer, good or bad. -/
def prepare (signed : SignedCommand) : Control (Except RolloutError Record) :=
  ExceptT.lift (ask (.prepare signed))
def execute (signed : SignedCommand) (plan : Option Record) (step : ExecutorStep) :
    Control (Except RolloutError Receipt) :=
  ExceptT.lift (ask (.execute signed plan step))

/-- A check that needs no call. -/
def check {α : Type} (r : Except RolloutError α) : Control α := ExceptT.mk (pure r)

end Control

/-! ## One pass -/

/-- The parameters of the controller: those of its parts, and whether a journal stays
within `maxRecordBytes`. -/
structure Setting extends Platform where
  scheme : Scheme
  journalFits : Journal → Bool

variable (W : Setting) (e : Enrollment) (keys : PublicKeys)

/-- The refusal of a journal that cannot be anchored. -/
def trustError : RolloutError := if e.authority = none then .conflict else .trust

section

variable (signed : SignedCommand) (journal : Option Journal)

/-- The journal Secret, if it is the enrolled one. -/
def fixedJournal (j : JournalSecret) : Except RolloutError (Secret JournalContent) := do
  ensure (j.name = e.journalSecret) .conflict
  ensure (j.secret.uid = e.journalSecretUID ∧ j.secret.immutable = false) .conflict
  pure j.secret

/-- The stored journal, if it decodes and what it accepted can be anchored. -/
def loadJournal : Slot Journal → Except RolloutError (Option Journal)
  | .absent => .ok none
  | .garbled => .error (trustError e)
  | .stored j =>
    if W.journalFits j ∧ anchored W.toPlatform W.scheme e keys j.accepted then .ok (some j)
    else .error (trustError e)

def acceptedSequence : UInt64 :=
  (journal.map fun j => j.accepted.command.sequence).getD 0

/-- The command is the one that the journal has accepted. -/
def isAccepted : Bool :=
  journal.any fun j => W.digest signed = W.digest j.accepted

/-- **The command to go on with.** An accepted command without a response comes first; only
a restore overtakes it. -/
def selectCommand : SignedCommand :=
  match journal with
  | none => signed
  | some j =>
    if signed.command.sequence > j.accepted.command.sequence ∧ j.response = none ∧
        signed.command.action ≠ .restore then j.accepted
    else signed

/-- The journal that accepts a command. -/
def acceptedJournal : Except RolloutError Journal := do
  let plan := journal.bind Journal.plan
  if signed.command.action ≠ .prepare then
    ensure (plan.any fun r => r.digest = signed.command.planDigest &&
      r.plan.intent = signed.command.intent) .conflict
    pure ⟨signed, plan, none⟩
  else
    match journal, plan with
    | some j, some _ =>
      let staged := decide (j.accepted.command.action = .prepare) &&
        j.response.any fun r => r.outcome = .complete
      let terminal := j.response.any fun r => r.receipt.any fun receipt => receipt.phase.terminal
      ensure (staged ∨ terminal) .conflict
      pure ⟨signed, none, none⟩
    | _, _ => pure ⟨signed, none, none⟩

/-- The floor that an acceptance leaves behind. -/
def raisedTrust (stored : Slot Authority) (recorded : Option Authority) : Slot Authority :=
  match e.authority with
  | none => stored
  | some current =>
    if recorded.all fun r => r.generation < current.generation then .stored current else stored

def previousTemplateStamp (p : PlanData) : String := p.delta.beforeStamp.getD ""

/-- The response to a command, before its outcome is known. -/
def blankResponse (outcome : Outcome) : Response where
  enrollmentID := e.id
  sequence := signed.command.sequence
  commandDigest := W.digest signed
  planDigest := signed.command.planDigest
  templateStamp := ""
  resources := none
  receipt := none
  outcome := outcome

/-- The response that reports a receipt. -/
def receiptResponse (receipt : Receipt) : Response :=
  { blankResponse W e signed .complete with
    receipt := some receipt, resources := some receipt.resources }

/-- The response that reports a plan. -/
def planResponse (r : Record) : Response :=
  { blankResponse W e signed .complete with
    planDigest := r.digest
    templateStamp := stampFor W.toPlatform r.plan
    resources := some r.plan.resources }

end

/-- A conflict or an outage is retried with the same command; any other refusal of the
executor is the response. -/
def retried (err : RolloutError) : Bool := err = .unavailable || err = .conflict

open Control

section

variable (secret : Secret JournalContent) (journal : Journal)

/-- Keep the response, then send it. -/
def respond (response : Response) : Control Unit := do
  let _ ← putJournal { secret with content :=
    { secret.content with journal := .stored { journal with response := some response } } }
  writeResponse response

/-- Keep and send what the executor made of a command about a plan. -/
def respondReceipt : Except RolloutError Receipt → Control Unit
  | .ok receipt => respond secret journal (receiptResponse W e journal.accepted receipt)
  | .error err =>
    if retried err then throw err
    else respond secret journal (blankResponse W e journal.accepted .unsupported)

/-- **Carry out the accepted command** and keep the response. -/
def runAccepted : Control Unit := do
  let command := journal.accepted.command
  check (ensure (command.action = .prepare ∨ journal.plan.any fun r =>
    W.digest command.topology = W.digest r.plan.topology &&
      command.previousTemplateStamp = previousTemplateStamp r.plan) .conflict)
  match command.action with
  | .prepare =>
    match ← Control.prepare journal.accepted with
    | .ok r =>
      check (ensure (command.previousTemplateStamp = previousTemplateStamp r.plan)
        .conflict)
      respond secret { journal with plan := some r } (planResponse W e journal.accepted r)
    | .error err =>
      if retried err then throw err
      else respond secret journal (blankResponse W e journal.accepted .unsupported)
  | .submit =>
    check (ensure (journal.plan.any fun r => r.digest = command.planDigest)
      .conflict)
    respondReceipt W e secret journal (← execute journal.accepted journal.plan .submit)
  | .observe =>
    respondReceipt W e secret journal (← execute journal.accepted none .observe)
  | .restore =>
    match ← execute journal.accepted journal.plan .cancelPrepared with
    | .error .conflict =>
      respondReceipt W e secret journal (← execute journal.accepted none .restore)
    | answer => respondReceipt W e secret journal answer
  | .other _ => throw .invalid

/-- What is done once the command is in the journal. -/
def finishAccepted : Control Unit :=
  match journal.response with
  | some response => writeResponse response
  | none => runAccepted W e secret journal

end

/-- **One pass of the controller.** -/
def reconcile : Control Unit := do
  match ← readCommand with
  | .absent => pure ()
  | .garbled => throw .invalid
  | .stored signed =>
    let fresh := verifyCommand W.toPlatform W.scheme e keys signed
    let secret ← check (fixedJournal e (← readJournal))
    let recorded ← check (parseTrustRecord W.scheme secret.content.trust)
    check (checkFloor recorded e.authority)
    let journal ← check (loadJournal W e keys secret.content.journal)
    check (ensure (fresh ∨ isAccepted W signed journal) .invalid)
    let signed := selectCommand signed journal
    let accepted := acceptedSequence journal
    check (ensure (accepted ≤ signed.command.sequence ∧
      (signed.command.sequence = accepted → isAccepted W signed journal)) .conflict)
    if signed.command.sequence > accepted then
      let now ← Control.now
      check (ensure (signed.command.issuedAt ≤ now ∧ now < signed.command.expiresAt)
        .invalid)
      let next ← check (acceptedJournal signed journal)
      let secret ← acceptCommand { secret with content :=
        ⟨raisedTrust e secret.content.trust recorded, .stored next⟩ } ⟨signed, e, keys, now⟩
      finishAccepted W e secret next
    else
      match journal with
      | none => throw .conflict
      | some journal => finishAccepted W e secret journal

/-- **The check at the start.** The compatibility profile is stopped by a recorded strict
floor and by nothing else. -/
def reconcileTrust : Control Unit := do
  match (← ExceptT.lift (ask .readJournal)).bind (fixedJournal e) with
  | .error err => if e.authority = none then pure () else throw err
  | .ok secret =>
    let recorded ← check (parseTrustRecord W.scheme secret.content.trust)
    check (checkFloor recorded e.authority)
    match e.authority with
    | none => pure ()
    | some current =>
      check (match loadJournal W e keys secret.content.journal with
        | .ok _ => .ok ()
        | .error _ => .error .trust)
      if recorded.any fun r => r.generation = current.generation then pure ()
      else
        let _ ← putJournal { secret with content :=
          { secret.content with trust := .stored current } }
        pure ()

end Hikyo.Rollout
