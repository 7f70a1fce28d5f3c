import Hikyo.Rollout.Controller

/-!
# The controller in its surroundings

The programs of the controller are run against surroundings that are not on its
side. Whoever likes writes the mailbox, so a read of it may give anything. A call
of the API server may fail, or be carried out with its reply lost, and the whole
process may stop at any call. Between any two calls somebody may edit the
Deployment, or delete it. What nobody else writes is the journal.

All this is in the `Choice` that resolves a call. The executor is run call by call
against choices of its own.

`ControllerSystem` adds the process: it is started with an enrollment and keys –
another enrollment with every start, if the operator installs one – makes its
passes, and stops.
-/

namespace Hikyo.Rollout

/-! ## The surroundings -/

/-- What happens that matters for who may do what. -/
inductive Event where
  | accepted (a : Acceptance)
  | prepared (signed : SignedCommand) (answer : Except RolloutError Record)
  | executed (signed : SignedCommand) (plan : Option Record) (step : ExecutorStep)

/-- The state that outlives the process, with its history. -/
structure ControlState where
  cluster : Cluster
  journal : JournalSecret
  history : List Event

/-- Somebody else's edit of the Deployment: none, or what it is afterwards. -/
abbrev Edit := Option (Option Deployment)

def Cluster.edited (cl : Cluster) : Edit → Cluster
  | none => cl
  | some d => { cl with deployment := d }

/-- **How the surroundings resolve a call**: an edit before it, its reply, and – for the
calls that these matter to – the contents of the mailbox, the time, and the choices for
the calls of the executor; without choices, all of those succeed. -/
structure Choice where
  edit : Edit
  reply : Reply
  mailbox : Slot SignedCommand
  now : ℤ
  calls : Option (List (Edit × Reply))

/-- The reply to a read. -/
def answerRead {α : Type} (a : α) : Reply → Except RolloutError α
  | .ok => .ok a
  | .lost => .error .unavailable
  | .failed err => .error (apiError err)

/-- A call of the executor, after an edit. -/
def execEdited (c : ApiCall) (x : Edit × Reply) (cl : Cluster) : ApiAns c × Cluster :=
  execApi c x.2 (cl.edited x.1)

/-- The executor's part of a call. One that is stopped reports an outage, if anybody is
there to hear it. -/
def runApi {α : Type} (p : Api α) (calls : Option (List (Edit × Reply))) (cl : Cluster) :
    Except RolloutError α × Cluster :=
  match calls with
  | none => Prog.eval execApi Reply.ok p.run cl
  | some l =>
    match Prog.run execEdited p.run l cl with
    | (some a, cl') => (a, cl')
    | (none, cl') => (.error .unavailable, cl')

variable (W : Setting)

/-- Preparation as a program: one look at the cluster. -/
def prepareApi (t : Target) (command : Command) : Api Record := do
  let cl ← Api.read
  Api.check (prepareFor W.toPlatform t command.intent command.changes command.bootstrap
    command.topology cl)

/-- The executor's program for a command about a plan. -/
def stepApi (t : Target) (command : Command) (plan : Option Record) : ExecutorStep → Api Receipt
  | .submit => submit W.toPlatform t command.intent command.planDigest plan
  | .observe => observe W.toPlatform t command.intent command.planDigest command.acknowledgement
  | .cancelPrepared => cancelPrepared W.toPlatform t command.intent command.planDigest plan
  | .restore => restore W.toPlatform t command.intent command.planDigest

/-- **What the surroundings do with a call** of a controller for the target `t`. -/
def execControl (t : Target) :
    (c : ControllerCall) → Choice → ControlState → ControllerAns c × ControlState
  | .readCommand, x, s =>
    (answerRead x.mailbox x.reply, { s with cluster := s.cluster.edited x.edit })
  | .readJournal, x, s =>
    (answerRead s.journal x.reply, { s with cluster := s.cluster.edited x.edit })
  | .now, x, s => (x.now, { s with cluster := s.cluster.edited x.edit })
  | .acceptCommand j a, x, s =>
    let (answer, j') := putSecret s.journal.secret j x.reply
    (answer,
      { cluster := s.cluster.edited x.edit
        journal := { s.journal with secret := j' }
        history := s.history ++
          if s.journal.secret.version = j.version ∧ x.reply.carriedOut then [.accepted a] else [] })
  | .putJournal j, x, s =>
    let (answer, j') := putSecret s.journal.secret j x.reply
    (answer,
      { s with
        cluster := s.cluster.edited x.edit
        journal := { s.journal with secret := j' } })
  | .writeResponse _, x, s =>
    (answerRead () x.reply, { s with cluster := s.cluster.edited x.edit })
  | .prepare signed, x, s =>
    let (answer, cl) := runApi (prepareApi W t signed.command) x.calls (s.cluster.edited x.edit)
    (answer, { s with cluster := cl, history := s.history ++ [.prepared signed answer] })
  | .execute signed plan step, x, s =>
    let (answer, cl) :=
      runApi (stepApi W t signed.command plan step) x.calls (s.cluster.edited x.edit)
    (answer, { s with cluster := cl, history := s.history ++ [.executed signed plan step] })

/-! ## The process -/

structure ControllerSystem where
  state : ControlState
  running : Option (Enrollment × PublicKeys)

inductive ControllerOp where
  /-- the process starts with what the operator has installed -/
  | start (e : Enrollment) (keys : PublicKeys) (choices : List Choice)
  /-- one pass -/
  | tick (choices : List Choice)
  | stop
  /-- somebody edits the Deployment -/
  | edit (d : Option Deployment)

namespace ControllerSystem

/-- **One step of the system.** -/
def step (s : ControllerSystem) : ControllerOp → ControllerSystem
  | .start e keys choices =>
    if validEnrollment W.scheme e ∧ checkKeys W.scheme e keys then
      match Prog.run (execControl W e.target) (reconcileTrust W e keys).run choices s.state with
      | (some (.ok ()), state) => ⟨state, some (e, keys)⟩
      | (_, state) => ⟨state, none⟩
    else { s with running := none }
  | .tick choices =>
    match s.running with
    | none => s
    | some (e, keys) =>
      { s with state :=
        (Prog.run (execControl W e.target) (reconcile W e keys).run choices s.state).2 }
  | .stop => { s with running := none }
  | .edit d => { s with state :=
      { s.state with cluster := { s.state.cluster with deployment := d } } }

/-- **A fresh journal**: nothing accepted and nothing done yet. The floor, the cluster and
the installed enrollment are any. -/
structure Fresh (s : ControllerSystem) : Prop where
  journal : s.state.journal.secret.content.journal = .absent
  history : s.state.history = []
  running : s.running = none

end ControllerSystem

end Hikyo.Rollout
