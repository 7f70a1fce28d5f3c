import Hikyo.Lib.Programs
import Hikyo.Rollout.Plan

/-!
# The executor

The executor carries out a prepared plan. `submit` writes the request, the
rollback material and a receipt before it touches the configuration Secret and
the Deployment; `observe` looks whether the rollout has arrived; `restore` takes
the plan back, and `cancelPrepared` proves that there is nothing to take back.
Each of them can be repeated: what has been done already is recognized from
digests, versions and the phase in the receipt.

The API server is called one object at a time. A write names the version it was
made from and is refused if that is not the current one; it can also be carried
out and its reply lost. The programs are those of `Prog`, and `execApi` is what
the server does with one call.
-/

namespace Hikyo.Rollout

open Tx (ensure)

/-! ## The API server -/

/-- The calls. The reads of one attempt – the Deployment and the four Secrets – are one
call: nothing that the executor does comes between them. -/
inductive ApiCall where
  | read
  | putConfig (s : Secret ConfigContent)
  | putRollback (s : Secret (Slot RollbackRecord))
  | putRequest (s : Secret (Slot Record))
  | putReceipt (s : Secret (Slot Receipt))
  | putDeployment (d : Deployment)

def ApiAns : ApiCall → Type
  | .read => Except RolloutError Cluster
  | .putConfig _ => Except RolloutError (Secret ConfigContent)
  | .putRollback _ => Except RolloutError (Secret (Slot RollbackRecord))
  | .putRequest _ => Except RolloutError (Secret (Slot Record))
  | .putReceipt _ => Except RolloutError (Secret (Slot Receipt))
  | .putDeployment _ => Except RolloutError Deployment

/-- The two classes of API errors, of `apiError`. -/
inductive ApiError where
  | conflict
  | unavailable
deriving DecidableEq, Repr

def apiError : ApiError → RolloutError
  | .conflict => .conflict
  | .unavailable => .unavailable

/-- How a call comes out: carried out, carried out with the reply lost, or not carried
out. -/
inductive Reply where
  | ok
  | lost
  | failed (e : ApiError)
deriving DecidableEq, Repr

/-- The write is carried out. -/
def Reply.carriedOut : Reply → Bool
  | .ok | .lost => true
  | .failed _ => false

/-- One write: what the caller hears, and what is there afterwards. -/
def answer {α : Type} (current : Bool) (old new : α) : Reply → Except RolloutError α × α
  | .ok => if current then (.ok new, new) else (.error .conflict, old)
  | .lost => if current then (.error .unavailable, new) else (.error .conflict, old)
  | .failed e => (.error (apiError e), old)

/-- A write of a Secret, made from the version it carries. -/
def putSecret {α : Type} (old s : Secret α) (r : Reply) :
    Except RolloutError (Secret α) × Secret α :=
  answer (old.version = s.version) old
    { old with version := old.version + 1, content := s.content } r

theorem answer_cases {α : Type} (current : Bool) (old new : α) (r : Reply) :
    ((answer current old new r).2 = old ∧ (∃ err, (answer current old new r).1 = .error err) ∧
        ¬ (current = true ∧ r.carriedOut = true)) ∨
      ((answer current old new r).2 = new ∧ current = true ∧ r.carriedOut = true ∧
        ∀ a, (answer current old new r).1 = .ok a → a = new) := by
  cases current with
  | false =>
    refine .inl ?_
    cases r with
    | ok | lost | failed e => exact ⟨rfl, ⟨_, rfl⟩, fun h => nomatch h.1⟩
  | true =>
    cases r with
    | ok => exact .inr ⟨rfl, rfl, rfl, fun a ha => (Except.ok.inj ha).symm⟩
    | lost => exact .inr ⟨rfl, rfl, rfl, fun a ha => nomatch ha⟩
    | failed e => exact .inl ⟨rfl, ⟨_, rfl⟩, fun h => nomatch h.2⟩

/-- **What a write of a Secret can do**: nothing, or all of it. -/
theorem putSecret_cases {α : Type} (old s : Secret α) (r : Reply) :
    ((putSecret old s r).2 = old ∧ (∃ err, (putSecret old s r).1 = .error err) ∧
        ¬ (old.version = s.version ∧ r.carriedOut = true)) ∨
      ((putSecret old s r).2 = { old with version := old.version + 1, content := s.content } ∧
        old.version = s.version ∧ r.carriedOut = true ∧
        ∀ s', (putSecret old s r).1 = .ok s' →
          s' = { old with version := old.version + 1, content := s.content }) := by
  rcases answer_cases (decide (old.version = s.version)) old
    { old with version := old.version + 1, content := s.content } r with
    ⟨h, herr, hnot⟩ | ⟨h, hcurrent, hdone, hok⟩
  · exact .inl ⟨h, herr, fun hboth => hnot ⟨decide_eq_true hboth.1, hboth.2⟩⟩
  · exact .inr ⟨h, of_decide_eq_true hcurrent, hdone, hok⟩

/-- A write that succeeds. -/
theorem putSecret_ok {α : Type} {old s : Secret α} (h : old.version = s.version) :
    putSecret old s .ok = (.ok { old with version := old.version + 1, content := s.content },
      { old with version := old.version + 1, content := s.content }) := by
  unfold putSecret
  rw [decide_eq_true h]
  rfl

/-- A write of the Deployment; its status is not written with it. -/
def putDeployment (old : Option Deployment) (d : Deployment) (r : Reply) :
    Except RolloutError Deployment × Option Deployment :=
  match old with
  | none => (.error .conflict, none)
  | some current =>
    let (a, d') := answer (current.version = d.version && current.uid = d.uid) current
      { d with version := current.version + 1, status := current.status } r
    (a, some d')

/-- **What the server does with a call.** -/
def execApi : (c : ApiCall) → Reply → Cluster → ApiAns c × Cluster
  | .read, .ok, cl => (.ok cl, cl)
  | .read, .lost, cl => (.error .unavailable, cl)
  | .read, .failed e, cl => (.error (apiError e), cl)
  | .putConfig s, r, cl =>
    let (a, s') := putSecret cl.config s r
    (a, { cl with config := s' })
  | .putRollback s, r, cl =>
    let (a, s') := putSecret cl.rollback s r
    (a, { cl with rollback := s' })
  | .putRequest s, r, cl =>
    let (a, s') := putSecret cl.request s r
    (a, { cl with request := s' })
  | .putReceipt s, r, cl =>
    let (a, s') := putSecret cl.receipt s r
    (a, { cl with receipt := s' })
  | .putDeployment d, r, cl =>
    let (a, d') := putDeployment cl.deployment d r
    (a, { cl with deployment := d' })

/-- A program of the executor. -/
abbrev Api := ExceptT RolloutError (Prog ApiCall ApiAns)

namespace Api

def ask (c : ApiCall) : Prog ApiCall ApiAns (ApiAns c) := Prog.ask c

def read : Api Cluster := ExceptT.mk (ask .read)
def putConfig (s : Secret ConfigContent) : Api (Secret ConfigContent) :=
  ExceptT.mk (ask (.putConfig s))
def putRollback (s : Secret (Slot RollbackRecord)) : Api (Secret (Slot RollbackRecord)) :=
  ExceptT.mk (ask (.putRollback s))
def putRequest (s : Secret (Slot Record)) : Api (Secret (Slot Record)) :=
  ExceptT.mk (ask (.putRequest s))
def putReceipt (s : Secret (Slot Receipt)) : Api (Secret (Slot Receipt)) :=
  ExceptT.mk (ask (.putReceipt s))
def putDeployment (d : Deployment) : Api Deployment :=
  ExceptT.mk (ask (.putDeployment d))

/-- A check that needs no call. -/
def check {α : Type} (r : Except RolloutError α) : Api α := ExceptT.mk (pure r)

end Api

/-! ## Stored records -/

variable (P : Platform) (t : Target)

section

variable (s : Secrets) (intent : Intent)

/-- A record as it decodes: too large a one does not. -/
def slotOf (r : Record) : Slot Record := if P.recordFits r then .stored r else .garbled

def loadRecord : Except RolloutError Record :=
  match s.request.content.decode with
  | none => .error .notSubmitted
  | some r =>
    if r.plan.intent = intent ∧ r.plan.targetDigest = P.digest t ∧ r.digest = P.digest r.plan ∧
        validPlan P t r.plan then .ok r
    else .error .conflict

def compatibleUIDs (p : PlanData) (d : Deployment) (s : Secrets) : Bool :=
  d.uid = p.resources.deployment.uid && s.config.uid = p.resources.config.uid &&
    s.rollback.uid = p.resources.rollback.uid && s.request.uid = p.resources.request.uid &&
    s.receipt.uid = p.resources.receipt.uid

/-- The resources are those that the plan was prepared from; only the version of the
Deployment may have moved on, with its status. -/
def preparedResourcesMatch (p : PlanData) (d : Deployment) (s : Secrets) : Bool :=
  d.uid = p.resources.deployment.uid &&
    resources { d with version := p.resources.deployment.version } s = p.resources &&
    P.digest d.spec = p.beforeSpecDigest && deploymentMetadataDigest P d = p.beforeMetadataDigest

def rollbackRecord (r : Record) : RollbackRecord :=
  ⟨r.digest, r.plan.intent, r.plan.configBefore, r.plan.delta⟩

def Phase.terminal : Phase → Bool
  | .applied | .restored => true
  | _ => false

/-- The slot is free for another decision: what the Secrets hold, if anything, is a
decision that has come to its end. -/
def slotFree : Bool :=
  match s.receipt.content, s.request.content with
  | .absent, .absent => true
  | .stored previous, .absent => previous.phase.terminal
  | .stored previous, .stored prior =>
    previous.phase.terminal && previous.intent = prior.plan.intent &&
      previous.planDigest = prior.digest
  | _, _ => false

/-- The receipt of a decision that has been submitted. -/
def ownReceipt : Option Receipt :=
  s.receipt.content.decode.filter fun receipt => receipt.intent = intent

def checkPending (wantDigest : String) : Except RolloutError Unit :=
  match loadRecord P t s intent, ownReceipt s intent with
  | .ok r, some receipt => ensure (r.digest = wantDigest ∧ receipt.planDigest = wantDigest ∧
      receipt.phase ≠ .restoring ∧ receipt.phase ≠ .restored ∧ receipt.phase ≠ .applied)
      .conflict
  | _, _ => .error .conflict

end

/-! ## The programs -/

open Api

def getCluster : Api (Deployment × Secrets) := do
  let cl ← Api.read
  check (get t cl)

section

variable (r : Record) (intent : Intent) (expectedPlanDigest : String) (plan : Option Record)

variable (d : Deployment) (s : Secrets)

def saveReceipt (s : Secret (Slot Receipt)) (receipt : Receipt) : Api Receipt := do
  let _ ← putReceipt { s with content := .stored receipt }
  pure receipt

/-- The record to carry out: the one that is stored, or the plan, which is stored now. -/
def submitRecord : Api (Record × Secrets) := do
  match loadRecord P t s intent, plan with
  | .ok r, plan =>
    check (ensure (r.digest = expectedPlanDigest) .conflict)
    check (ensure (∀ p ∈ plan, p.digest = r.digest) .conflict)
    pure (r, s)
  | .error e, none => throw e
  | .error _, some plan =>
    check (ensure (plan.plan.intent = intent ∧ plan.plan.targetDigest = P.digest t ∧
      plan.digest = P.digest plan.plan ∧ plan.digest = expectedPlanDigest) .invalid)
    check (ensure (slotFree s) .conflict)
    check (ensure (preparedResourcesMatch P plan.plan d s) .conflict)
    let request ← putRequest { s.request with content := slotOf P plan }
    pure (plan, { s with request := request })

/-- The rollback material, stored once. -/
def submitRollback : Api Secrets := do
  match s.rollback.content.decode.filter fun saved => saved.intent = r.plan.intent with
  | none =>
    check (ensure (s.rollback.resourceVersion = r.plan.resources.rollback) .conflict)
    let rollback ← putRollback { s.rollback with content := .stored (rollbackRecord r) }
    pure { s with rollback := rollback }
  | some saved =>
    check (ensure (P.digest saved = P.digest (rollbackRecord r)) .conflict)
    pure s

/-- The configuration Secret, from its state at preparation to the planned one. -/
def submitConfig : Api Secrets := do
  let stamp := stampFor P r.plan
  let config := s.config
  if config.content.data = r.plan.configAfter ∧
      annotation config.content.annotations = some stamp then
    pure s
  else
    check (ensure (config.content.data = r.plan.configBefore ∧
      config.resourceVersion = r.plan.resources.config) .conflict)
    let config ← putConfig { config with content :=
      ⟨setStamp config.content.annotations (some stamp), r.plan.configAfter⟩ }
    pure { s with config := config }

/-- The Deployment, likewise. -/
def submitDeployment : Api Deployment := do
  if P.digest d.spec = r.plan.afterSpecDigest then
    pure d
  else
    check (ensure (P.digest d.spec = r.plan.beforeSpecDigest) .conflict)
    check (ensure (deploymentMetadataDigest P d = r.plan.beforeMetadataDigest)
      .conflict)
    let spec ← check (applyDelta P.toDigests d.spec t.container r.plan.delta
      (some (stampFor P r.plan)))
    check (ensure (P.digest spec = r.plan.afterSpecDigest) .conflict)
    Api.putDeployment { d with spec := spec }

/-- What remains of `submit` when the record, the rollback material and the receipt are
stored. -/
def submitInputs (receipt : Receipt) (s : Secrets) : Api Receipt := do
  check (checkPending P t s r.plan.intent r.digest)
  let s ← submitConfig P r s
  let receipt := { receipt with
    phase := .configWritten
    resources := { receipt.resources with config := s.config.resourceVersion } }
  let _ ← saveReceipt s.receipt receipt
  let (d, s) ← getCluster t
  check (ensure (compatibleUIDs r.plan d s) .conflict)
  check (checkPending P t s r.plan.intent r.digest)
  let d ← submitDeployment P t r d
  saveReceipt s.receipt { receipt with
    phase := .rolloutRequested
    resources := { receipt.resources with deployment := d.resourceVersion } }

/-- The rollback material and the first receipt, then the inputs. -/
def submitStored : Api Receipt := do
  check (ensure (compatibleUIDs r.plan d s) .conflict)
  match ownReceipt s r.plan.intent with
  | some receipt =>
    check (ensure (receipt.planDigest = r.digest) .conflict)
    check (ensure (receipt.phase ≠ .restoring ∧ receipt.phase ≠ .restored)
      .conflict)
    if receipt.phase = .applied then
      pure receipt
    else
      let s ← submitRollback P r s
      if receipt.phase = .prepared then
        let _ ← saveReceipt s.receipt receipt
        let (_, s) ← getCluster t
        submitInputs P t r receipt s
      else
        submitInputs P t r receipt s
  | none =>
    let s ← submitRollback P r s
    let receipt : Receipt :=
      ⟨r.plan.intent, r.digest, d.uid, .prepared, r.plan.resources, false⟩
    let _ ← saveReceipt s.receipt receipt
    let (_, s) ← getCluster t
    submitInputs P t r receipt s

/-- **Carry a plan out**, or take up where an earlier attempt stopped. -/
def submit : Api Receipt := do
  check (ensure (validIntent intent ∧ P.validDigest expectedPlanDigest) .invalid)
  let (d, s) ← getCluster t
  let (r, s) ← submitRecord P t intent expectedPlanDigest plan d s
  submitStored P t r d s

/-- **Look whether the rollout has arrived.** -/
def observe (ack : Option ApplicationAcknowledgement) : Api Receipt := do
  check (ensure (P.validDigest expectedPlanDigest) .invalid)
  let (d, s) ← getCluster t
  let r ← check (loadRecord P t s intent)
  check (ensure (r.digest = expectedPlanDigest) .conflict)
  check (ensure (compatibleUIDs r.plan d s) .conflict)
  match (ownReceipt s intent).filter fun receipt => receipt.planDigest = r.digest with
  | none => throw .notSubmitted
  | some receipt =>
    if receipt.phase = .restoring ∨ receipt.phase = .restored then
      pure receipt
    else if (receipt.phase = .prepared ∨ receipt.phase = .configWritten) ∧
        P.digest d.spec = r.plan.beforeSpecDigest ∧
        (s.config.content.data = r.plan.configBefore ∨
          s.config.content.data = r.plan.configAfter) then
      check (ensure (ack = none) .conflict)
      pure receipt
    else
      check (ensure (P.digest d.spec = r.plan.afterSpecDigest ∧
        s.config.content.data = r.plan.configAfter ∧
        annotation s.config.content.annotations = some (stampFor P r.plan))
        .conflict)
      if rolloutReady d r.plan.replicas = false ∨ receipt.phase = .applied then
        pure receipt
      else
        match ack with
        | none => saveReceipt s.receipt { receipt with phase := .rolloutReady }
        | some ack =>
          check (ensure (ack.intent = intent ∧ ack.planDigest = r.digest ∧
            ack.deploymentUID = d.uid ∧ ack.readyReplicas = r.plan.replicas)
            .conflict)
          saveReceipt s.receipt
            { receipt with phase := .applied, applicationAcknowledged := true }

/-- The configuration Secret, back to its state at preparation. -/
def restoreConfig : Api Unit := do
  let config := s.config
  if config.content.data = r.plan.configBefore ∧
      P.digest ( annotation config.content.annotations) = P.digest r.plan.configBeforeStamp then
    pure ()
  else
    let _ ← putConfig { config with content :=
      ⟨setStamp config.content.annotations r.plan.configBeforeStamp, r.plan.configBefore⟩ }
    pure ()

/-- The Deployment, likewise. -/
def restoreDeployment : Api Deployment := do
  if P.digest d.spec = r.plan.beforeSpecDigest then
    pure d
  else
    let spec ← check (revertDelta P.toDigests d.spec t.container r.plan.delta)
    check (ensure (P.digest spec = r.plan.beforeSpecDigest) .conflict)
    Api.putDeployment { d with spec := spec }

/-- **Take a plan back.** -/
def restore : Api Receipt := do
  check (ensure (P.validDigest expectedPlanDigest) .invalid)
  let (d, s) ← getCluster t
  let r ← check (loadRecord P t s intent)
  check (ensure (r.digest = expectedPlanDigest) .conflict)
  check (ensure (compatibleUIDs r.plan d s) .conflict)
  check (ensure (s.rollback.content.decode.any fun rollback =>
    rollback.digest = r.digest && rollback.intent = intent &&
      rollback.config = r.plan.configBefore && P.digest rollback.delta = P.digest r.plan.delta)
    .conflict)
  match (ownReceipt s intent).filter fun receipt => receipt.planDigest = r.digest with
  | none => throw .notSubmitted
  | some receipt =>
    check (ensure (P.digest d.spec = r.plan.afterSpecDigest ∨
      P.digest d.spec = r.plan.beforeSpecDigest) .conflict)
    check (ensure (s.config.content.data = r.plan.configAfter ∨
      s.config.content.data = r.plan.configBefore) .conflict)
    let receipt := { receipt with phase := .restoring, applicationAcknowledged := false }
    let _ ← saveReceipt s.receipt receipt
    restoreConfig P r s
    let d ← restoreDeployment P t r d
    let (_, s) ← getCluster t
    saveReceipt s.receipt { receipt with
      phase := .restored
      resources := { receipt.resources with
        config := s.config.resourceVersion, deployment := d.resourceVersion } }

/-- **Prove that a prepared plan has changed nothing yet**, and end it. What an interrupted
`submit` has stored about the plan itself may be there. -/
def cancelPrepared : Api Receipt := do
  match plan with
  | none => throw .invalid
  | some plan =>
    check (ensure (validIntent intent ∧ P.validDigest expectedPlanDigest ∧
      plan.plan.intent = intent ∧ plan.plan.targetDigest = P.digest t ∧
      plan.digest = expectedPlanDigest ∧ P.digest plan.plan = expectedPlanDigest ∧
      validPlan P t plan.plan) .invalid)
    let (d, s) ← getCluster t
    check (ensure (compatibleUIDs plan.plan d s ∧ P.digest d.spec = plan.plan.beforeSpecDigest ∧
      s.config.resourceVersion = plan.plan.resources.config ∧
      s.config.content.data = plan.plan.configBefore) .conflict)
    let ownedRequest := decide (s.request.resourceVersion ≠ plan.plan.resources.request)
    check (ensure (ownedRequest → s.request.content.decode.any fun saved =>
      saved.digest = expectedPlanDigest && P.digest saved.plan = expectedPlanDigest)
      .conflict)
    check (ensure (s.rollback.resourceVersion = plan.plan.resources.rollback ∨
      (ownedRequest ∧ s.rollback.content.decode.any fun saved =>
        saved.intent = intent && saved.digest = expectedPlanDigest &&
          saved.config = plan.plan.configBefore &&
          P.digest saved.delta = P.digest plan.plan.delta)) .conflict)
    check (ensure (s.receipt.resourceVersion = plan.plan.resources.receipt ∨
      (ownedRequest ∧ s.receipt.content.decode.any fun saved =>
        saved.intent = intent && saved.planDigest = expectedPlanDigest &&
          saved.deploymentUID = d.uid && !saved.applicationAcknowledged &&
          (saved.phase = .prepared || saved.phase = .restored))) .conflict)
    let receipt : Receipt :=
      ⟨intent, expectedPlanDigest, d.uid, .restored, resources d s, false⟩
    if ownedRequest then
      saveReceipt s.receipt receipt
    else
      pure receipt

/-- **Cancel, or restore if there is something to take back.** -/
def cancelOrRestore (plan : Record) : Api Receipt :=
  tryCatch (cancelPrepared P t intent expectedPlanDigest (some plan)) fun e =>
    if e = .conflict then restore P t intent expectedPlanDigest else throw e

end

end Hikyo.Rollout
