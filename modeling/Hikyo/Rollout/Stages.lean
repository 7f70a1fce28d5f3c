import Hikyo.Rollout.Executor
import Hikyo.Rollout.Preparation

/-!
# How far a plan has got

An executor that is stopped and started again finds in the cluster what the earlier
attempts have left. `Stage` is an abstract picture of that: which of the three records
are the plan's own, the phase of its receipt, whether the configuration Secret and the
Deployment are as planned or as before. `Represents` ties a stage to a cluster,
relative to the cluster that the plan was prepared from, and `Stage.Coherent` says
which stages there can be: rollback material is stored before anything is changed, a
receipt never claims more than there is, and only a restore goes back.

The second half are the moves: what each single write of the executor does to the
stage.
-/

namespace Hikyo.Rollout

open List
open Tx (ensure_of bind_ok)

def Cluster.secrets (cl : Cluster) : Secrets := ⟨cl.config, cl.rollback, cl.request, cl.receipt⟩

/-! ## A Deployment that the executor serves -/

/-- The checks of `get` on a specification. -/
structure Serves (t : Target) (spec : DeploymentSpec) : Prop where
  recreate : spec.recreate = true
  replicas : spec.replicas = none ∨ spec.replicas = some 1
  container : ∃ c, container spec t.container = some c ∧ stableNodeID t c = true

/-- A Secret that `get` accepts. -/
abbrev Usable {α : Type} (s : Secret α) : Prop := s.uid ≠ "" ∧ s.immutable = false

section Get

variable {t : Target} {cl : Cluster} {d : Deployment}

theorem get_of_serves (hd : cl.deployment = some d) (huid : d.uid = t.deploymentUID)
    (hserves : Serves t d.spec) (hconfig : Usable cl.config) (hrollback : Usable cl.rollback)
    (hrequest : Usable cl.request) (hreceipt : Usable cl.receipt) :
    get t cl = .ok (d, cl.secrets) := by
  obtain ⟨c, hc, hnode⟩ := hserves.container
  unfold get
  rw [hd]
  dsimp only
  rw [ensure_of huid, ensure_of hserves.recreate, hc, ensure_of (Option.isSome_some),
    ensure_of hserves.replicas, Option.any_some, ensure_of hnode, ensure_of hconfig,
    ensure_of hrollback, ensure_of hrequest, ensure_of hreceipt]
  rfl

end Get

/-- The node identity stands once, as an enrolled literal. -/
def NodeIDStands (t : Target) (env : List EnvVar) : Prop :=
  ∃ v, env.filter (fun v => v.name = nodeIDVariable) = [v] ∧ allowedNodeID t v.value = true ∧
    v.valueFrom = none

variable {t : Target}

theorem stableNodeID_iff {c : Container} : stableNodeID t c = true ↔ NodeIDStands t c.env := by
  unfold stableNodeID NodeIDStands
  constructor
  · intro h
    split at h
    next v hv =>
      rw [Bool.and_eq_true, decide_eq_true_eq] at h
      exact ⟨v, hv, h⟩
    next => cases h
  · rintro ⟨v, hv, hallowed, hliteral⟩
    rw [hv]
    dsimp only
    rw [hallowed, hliteral]
    rfl

variable {H : Digests}

theorem nodeIDStands_applyEnv {env env' : List EnvVar} {e : EnvDelta}
    (hnamed : e.after.name = e.name) (hkeeps : KeepsNodeID t e) (h : NodeIDStands t env)
    (happly : applyEnv H env e = .ok env') : NodeIDStands t env' := by
  obtain ⟨v, hv, hstands⟩ := h
  have hmem : v ∈ env ∧ v.name = nodeIDVariable := by
    have hmem : v ∈ env.filter (fun v => v.name = nodeIDVariable) := hv ▸ mem_singleton.mpr rfl
    obtain ⟨hmem, hname⟩ := mem_filter.mp hmem
    exact ⟨hmem, of_decide_eq_true hname⟩
  by_cases hname : e.name = nodeIDVariable
  · rcases applyEnv_eq_ok.mp happly with ⟨-, hall, -⟩ | ⟨b, -, -, rfl⟩
    · exact absurd (hmem.2.trans hname.symm) (hall v hmem.1)
    · refine ⟨e.after, ?_, hkeeps hname⟩
      rw [hname]
      exact List.filter_replaceKey_self (hnamed.trans hname) hv
  · refine ⟨v, ?_, hstands⟩
    rcases applyEnv_eq_ok.mp happly with ⟨-, -, rfl⟩ | ⟨b, -, -, rfl⟩
    · rw [filter_append, hv, filter_cons_of_neg, filter_nil, append_nil]
      rw [decide_eq_true_eq, hnamed]
      exact hname
    · rw [List.filter_replaceKey (fun x hx => mem_singleton.mp hx ▸ hnamed)
        (fun h => hname h.symm)]
      exact hv

variable {spec : DeploymentSpec}

theorem serves_applyDelta {spec' : DeploymentSpec} {delta : DeploymentDelta} {stamp : Option String}
    (h : Serves t spec) (hnamed : ∀ e ∈ delta.environment, e.after.name = e.name)
    (hkeeps : ∀ e ∈ delta.environment, KeepsNodeID t e)
    (happly : applyDelta H spec t.container delta stamp = .ok spec') : Serves t spec' := by
  obtain ⟨c, hc, hnode⟩ := h.container
  unfold applyDelta at happly
  rw [hc] at happly
  obtain ⟨env, henv, happly⟩ := bind_ok happly
  obtain ⟨args, -, happly⟩ := bind_ok happly
  obtain ⟨ports, -, happly⟩ := bind_ok happly
  obtain ⟨volumes, -, happly⟩ := bind_ok happly
  obtain ⟨aliases, -, happly⟩ := bind_ok happly
  cases happly
  refine ⟨h.recreate, h.replicas, _, container_setContainer hc (name_of_container hc :), ?_⟩
  refine stableNodeID_iff.mpr ?_
  -- the entries are applied one by one, and each leaves the node identity in place
  have hstands : ∀ (es : List EnvDelta) (env₀ : List EnvVar), (∀ e ∈ es, e.after.name = e.name) →
      (∀ e ∈ es, KeepsNodeID t e) → NodeIDStands t env₀ → ∀ env₁,
      es.foldlM (applyEnv H) env₀ = .ok env₁ → NodeIDStands t env₁ := by
    intro es
    induction es with
    | nil =>
      intro env₀ _ _ hstands env₁ hfold
      cases hfold
      exact hstands
    | cons e es ih =>
      intro env₀ hnamed hkeeps hstands env₁ hfold
      rw [foldlM_cons] at hfold
      obtain ⟨env₂, henv₂, hfold⟩ := bind_ok hfold
      obtain ⟨hnamed₁, hnamed⟩ := forall_mem_cons.mp hnamed
      obtain ⟨hkeeps₁, hkeeps⟩ := forall_mem_cons.mp hkeeps
      exact ih env₂ hnamed hkeeps (nodeIDStands_applyEnv hnamed₁ hkeeps₁ hstands henv₂) env₁ hfold
  exact hstands delta.environment c.env hnamed hkeeps (stableNodeID_iff.mp hnode) env henv

/-! ## A plan and the cluster it was prepared from -/

/-- **A valid plan, with the cluster that it was prepared from** and the specification that it
plans for. -/
structure Planned (P : Platform) (t : Target) (cl₀ : Cluster) (r : Record) where
  before : Deployment
  after : DeploymentSpec
  read : get t cl₀ = .ok (before, cl₀.secrets)
  served : Serves t after
  resources : r.plan.resources = resources before cl₀.secrets
  configBefore : r.plan.configBefore = cl₀.config.content.data
  configBeforeStamp : r.plan.configBeforeStamp = annotation cl₀.config.content.annotations
  beforeSpec : r.plan.beforeSpecDigest = P.digest before.spec
  beforeMetadata : r.plan.beforeMetadataDigest = deploymentMetadataDigest P before
  afterSpec : r.plan.afterSpecDigest = P.digest after
  applied : applyDelta P.toDigests before.spec t.container r.plan.delta
    (some (stampFor P r.plan)) = .ok after
  reverted : revertDelta P.toDigests after t.container r.plan.delta = .ok before.spec
  target : r.plan.targetDigest = P.digest t
  digest : r.digest = P.digest r.plan
  fits : P.recordFits r = true
  valid : validPlan P t r.plan = true
  intended : validIntent r.plan.intent = true

variable {P : Platform} {t : Target} {cl₀ : Cluster} {r : Record}

/-- **Preparation gives such a plan.** -/
theorem planned_of_prepareFor {intent : Intent} {changes : List Change}
    {bootstrap : Option BootstrapChanges} {topology : Option SingletonTopologyChange}
    (h : prepareFor P t intent changes bootstrap topology cl₀ = .ok r)
    (hvalid : validPlan P t r.plan = true) : Nonempty (Planned P t cl₀ r) := by
  obtain ⟨changes', h⟩ := prepareFor_eq_ok h
  obtain ⟨hp⟩ := prepare_eq_ok h
  obtain ⟨hd, (hsecrets : hp.secrets = cl₀.secrets), -, hrecreate, hreplicas, hcontainer, -⟩ :=
    get_eq_ok hp.got
  obtain ⟨after, delta, hdeltas⟩ := planDeltas_only hp.planned
  have hdelta : r.plan.delta = hp.deltas.delta := by rw [hp.plan_eq]
  have hstamp : stampFor P r.plan = stampFor P hp.deltas := by rw [hp.plan_eq]; rfl
  have hserves : Serves t hp.spec :=
    serves_applyDelta ⟨hrecreate, hreplicas, hcontainer⟩
      (fun e he => (hp.recorded.environment e he).after) (planDeltas_nodeID hp.planned rfl) hp.applied
  obtain ⟨spec, happlied, hreverted⟩ := applyDelta_of_recorded (H := P.toDigests) hp.found
    hp.recorded (some (stampFor P hp.deltas))
  obtain rfl : hp.spec = spec := Except.ok.inj (hp.applied.symm.trans happlied)
  refine ⟨⟨hp.deployment, hp.spec, hsecrets ▸ hp.got, hserves, ?_, ?_, ?_, ?_, ?_, ?_, ?_, ?_, ?_,
    ?_, hp.fits, hvalid, ?_⟩⟩
  · rw [hp.plan_eq, hdeltas, hsecrets]
    rfl
  · rw [hp.plan_eq, hdeltas, hsecrets]
    rfl
  · rw [hp.plan_eq, hdeltas, hsecrets]
    rfl
  · rw [hp.plan_eq, hdeltas]
    rfl
  · rw [hp.plan_eq, hdeltas]
    rfl
  · rw [hp.plan_eq]
  · rw [hdelta, hstamp]
    exact happlied
  · rw [hdelta]
    exact hreverted
  · rw [hp.plan_eq, hdeltas]
    rfl
  · exact hp.digest_eq
  · rw [hp.plan_eq, hdeltas]
    exact hp.validIntent

/-! ## Stages -/

/-- **How far a plan has got**: which records are its own, the phase of its receipt, whether
the configuration Secret was ever written, and whether it and the Deployment are as planned. -/
structure Stage where
  request : Bool
  rollback : Bool
  phase : Option Phase
  moved : Bool
  config : Bool
  spec : Bool
deriving DecidableEq

/-- **The stages there can be.** -/
structure Stage.Coherent (g : Stage) : Prop where
  rollback : g.rollback = true → g.request = true
  receipt : g.phase ≠ none → g.request = true
  kept : ∀ p, g.phase = some p → p ≠ .restored → g.rollback = true
  moved : g.moved = true → g.rollback = true ∧ g.phase ≠ none
  spec : g.spec = true → g.phase ≠ none
  prepared : g.phase = some .prepared → g.spec = false
  configWritten : g.phase = some .configWritten → g.config = true
  requested : ∀ p, g.phase = some p →
    p = .rolloutRequested ∨ p = .rolloutReady ∨ p = .applied → g.config = true ∧ g.spec = true
  restored : g.phase = some .restored → g.config = false ∧ g.spec = false
  back : g.moved = true → g.config = false → g.phase = some .restoring ∨ g.phase = some .restored

/-- The planned contents of the configuration Secret. -/
def plannedConfig (P : Platform) (cl₀ : Cluster) (r : Record) : ConfigContent :=
  ⟨setStamp cl₀.config.content.annotations (some (stampFor P r.plan)), r.plan.configAfter⟩

/-- The Secret is as it was at preparation, or it has been written with `a` since. -/
inductive Written {α : Type} (s₀ : Secret α) (a : α) : Bool → Secret α → Prop
  | not : Written s₀ a false s₀
  | own {s : Secret α} (uid : s.uid = s₀.uid) (mutable : s.immutable = s₀.immutable)
      (content : s.content = a) (later : s₀.version < s.version) : Written s₀ a true s

/-- A receipt of the plan. -/
structure Receipt.Of (r : Record) (uid : String) (rc : Receipt) : Prop where
  intent : rc.intent = r.plan.intent
  planDigest : rc.planDigest = r.digest
  deploymentUID : rc.deploymentUID = uid
  acknowledged : rc.phase = .restored → rc.applicationAcknowledged = false

/-- **The cluster is at a stage of the plan.** -/
structure Represents (h : Planned P t cl₀ r) (g : Stage) (cl : Cluster) : Prop where
  deployment : ∃ d, cl.deployment = some d ∧ d.uid = h.before.uid ∧
    d.metadata = h.before.metadata ∧ d.spec = if g.spec then h.after else h.before.spec
  configUID : cl.config.uid = cl₀.config.uid
  configMutable : cl.config.immutable = cl₀.config.immutable
  config : cl.config.content = if g.config then plannedConfig P cl₀ r else cl₀.config.content
  unmoved : g.moved = false → cl.config.version = cl₀.config.version ∧
    cl.config.content = cl₀.config.content
  later : g.moved = true → cl₀.config.version < cl.config.version
  request : Written cl₀.request (.stored r) g.request cl.request
  rollback : Written cl₀.rollback (.stored (rollbackRecord r)) g.rollback cl.rollback
  receipt : (g.phase = none ∧ cl.receipt = cl₀.receipt) ∨ ∃ rc : Receipt, g.phase = some rc.phase ∧
    rc.Of r h.before.uid ∧ Written cl₀.receipt (.stored rc) true cl.receipt

/-- **The invariant of every attempt.** -/
def Recoverable (h : Planned P t cl₀ r) (cl : Cluster) : Prop :=
  ∃ g, Represents h g cl ∧ g.Coherent

variable {h : Planned P t cl₀ r} {g : Stage} {cl : Cluster}

/-- Nothing has been done for the plan. -/
def Stage.start : Stage := ⟨false, false, none, false, false, false⟩

theorem Stage.start_coherent : Stage.start.Coherent := by
  constructor <;> simp [Stage.start]

theorem Planned.deployment (h : Planned P t cl₀ r) : cl₀.deployment = some h.before :=
  (get_eq_ok h.read).1

theorem Planned.start (h : Planned P t cl₀ r) : Represents h Stage.start cl₀ where
  deployment := ⟨h.before, h.deployment, rfl, rfl, rfl⟩
  configUID := rfl
  configMutable := rfl
  config := rfl
  unmoved _ := ⟨rfl, rfl⟩
  later hmoved := nomatch hmoved
  request := .not
  rollback := .not
  receipt := .inl ⟨rfl, rfl⟩

variable {α : Type}

variable {s₀ : Secret α} {a : α}

theorem Written.eq {s : Secret α} (h : Written s₀ a false s) : s = s₀ := by
  cases h
  rfl

theorem Written.content {s : Secret α} (h : Written s₀ a true s) :
    s.content = a ∧ s₀.version < s.version := by
  cases h with
  | own _ _ hcontent hlater => exact ⟨hcontent, hlater⟩

variable {own : Bool}

theorem Written.uid {s : Secret α} (h : Written s₀ a own s) :
    s.uid = s₀.uid ∧ s.immutable = s₀.immutable := by
  cases h with
  | not => exact ⟨rfl, rfl⟩
  | own huid hmutable => exact ⟨huid, hmutable⟩

theorem Written.usable {s : Secret α} (h : Written s₀ a own s)
    (h₀ : Usable s₀) : Usable s := ⟨h.uid.1.symm ▸ h₀.1, h.uid.2.symm ▸ h₀.2⟩

theorem Written.version {s : Secret α} (h : Written s₀ a own s) :
    s₀.version ≤ s.version := by
  cases h with
  | not => exact le_refl _
  | own _ _ _ hlater => exact le_of_lt hlater

/-- The next write of a Secret that is as it was or written already. -/
theorem Written.put {s : Secret α} (h : Written s₀ a own s)
    (b : α) : Written s₀ b true { s with version := s.version + 1, content := b } :=
  .own h.uid.1 h.uid.2 rfl (Nat.lt_succ_of_le h.version)

variable {d : Deployment}

/-- Taking the stamp back gives the contents of before. -/
theorem Planned.config_restored (h : Planned P t cl₀ r) :
    (⟨setStamp (plannedConfig P cl₀ r).annotations r.plan.configBeforeStamp,
      r.plan.configBefore⟩ : ConfigContent) = cl₀.config.content := by
  unfold plannedConfig setStamp
  dsimp only
  rw [ setAnnotation_setAnnotation, h.configBeforeStamp, h.configBefore,
    setAnnotation_lookup (show annotation _ = _ from rfl)]

variable {p : Phase}

section

variable (hrep : Represents h g cl)

include hrep

/-- The Deployment, at a stage. -/
theorem Represents.deployed
    (hd : cl.deployment = some d) : d.uid = h.before.uid ∧ d.metadata = h.before.metadata ∧
      d.spec = if g.spec then h.after else h.before.spec := by
  obtain ⟨d', hd', hdeployed⟩ := hrep.deployment
  obtain rfl : d' = d := Option.some.inj (hd'.symm.trans hd)
  exact hdeployed

theorem Represents.receiptUID :
    cl.receipt.uid = cl₀.receipt.uid ∧ cl.receipt.immutable = cl₀.receipt.immutable ∧
      cl₀.receipt.version ≤ cl.receipt.version := by
  rcases hrep.receipt with ⟨-, heq⟩ | ⟨rc, -, -, hwritten⟩
  · rw [heq]
    exact ⟨rfl, rfl, le_refl _⟩
  · exact ⟨hwritten.uid.1, hwritten.uid.2, hwritten.version⟩

/-- **The executor serves every stage.** -/
theorem Represents.get (hd : cl.deployment = some d) : get t cl = .ok (d, cl.secrets) := by
  obtain ⟨-, -, huid, hrecreate, hreplicas, hcontainer, hconfig, hrollback, hrequest, hreceipt⟩ :=
    get_eq_ok h.read
  obtain ⟨huid', -, hspec⟩ := hrep.deployed hd
  refine get_of_serves hd (huid'.trans huid) ?_ ?_ (hrep.rollback.usable hrollback)
    (hrep.request.usable hrequest) ?_
  · rw [hspec]
    split
    · exact h.served
    · exact ⟨hrecreate, hreplicas, hcontainer⟩
  · exact ⟨hrep.configUID.symm ▸ hconfig.1, hrep.configMutable.symm ▸ hconfig.2⟩
  · obtain ⟨huid, hmutable, -⟩ := hrep.receiptUID
    exact ⟨huid.symm ▸ hreceipt.1, hmutable.symm ▸ hreceipt.2⟩

theorem Represents.compatibleUIDs
    (hd : cl.deployment = some d) : compatibleUIDs r.plan d cl.secrets = true := by
  have huid := (hrep.deployed hd).1
  unfold Rollout.compatibleUIDs
  rw [h.resources]
  simp only [Bool.and_eq_true, decide_eq_true_eq]
  exact ⟨⟨⟨⟨huid, hrep.configUID⟩, hrep.rollback.uid.1⟩, hrep.request.uid.1⟩, hrep.receiptUID.1⟩

/-! ## What an executor finds -/

/-- A stored plan of its own is loaded. -/
theorem Represents.loadRecord (hrequest : g.request = true) :
    loadRecord P t cl.secrets r.plan.intent = .ok r := by
  have hcontent : cl.secrets.request.content = .stored r := (hrequest ▸ hrep.request).content.1
  unfold Rollout.loadRecord
  rw [hcontent]
  exact if_pos ⟨rfl, h.target, h.digest, h.valid⟩

theorem Represents.rollbackContent (hrollback : g.rollback = true) :
    cl.rollback.content = .stored (rollbackRecord r) := (hrollback ▸ hrep.rollback).content.1

/-- The receipt of the plan, if there is one. -/
theorem Represents.ownReceipt (hphase : g.phase = some p) :
    ∃ rc : Receipt, rc.phase = p ∧ rc.Of r h.before.uid ∧ cl.receipt.content = .stored rc ∧
      cl₀.receipt.version < cl.receipt.version ∧
      ownReceipt cl.secrets r.plan.intent = some rc := by
  rcases hrep.receipt with ⟨hnone, -⟩ | ⟨rc, hrc, hof, hwritten⟩
  · cases hnone.symm.trans hphase
  · obtain ⟨hcontent, hlater⟩ := hwritten.content
    refine ⟨rc, Option.some.inj (hrc.symm.trans hphase), hof, hcontent, hlater, ?_⟩
    unfold Rollout.ownReceipt
    show cl.receipt.content.decode.filter _ = _
    rw [hcontent]
    exact Option.filter_eq_some_iff.mpr ⟨rfl, decide_eq_true hof.intent⟩

/-- A configuration Secret with the planned data and stamp has the planned contents. -/
theorem Represents.config_planned (hdata : cl.config.content.data = r.plan.configAfter)
    (hstamp : annotation cl.config.content.annotations = some (stampFor P r.plan)) :
    cl.config.content = plannedConfig P cl₀ r := by
  have hconfig := hrep.config
  split at hconfig
  · exact hconfig
  · rw [hconfig] at hdata hstamp ⊢
    unfold plannedConfig setStamp
    rw [setAnnotation_lookup hstamp, ← hdata]

/-- One with the data and the stamp of before has the contents of before. -/
theorem Represents.config_before (hdata : cl.config.content.data = r.plan.configBefore)
    (hstamp : annotation cl.config.content.annotations = r.plan.configBeforeStamp) :
    cl.config.content = cl₀.config.content := by
  have hconfig := hrep.config
  split at hconfig
  · rw [hconfig] at hdata hstamp ⊢
    unfold plannedConfig setStamp at hdata hstamp ⊢
    dsimp only at hdata
    unfold annotation at hstamp
    rw [lookup_setAnnotation_self, h.configBeforeStamp] at hstamp
    rw [setAnnotation_lookup hstamp.symm, hdata, h.configBefore]
  · exact hconfig

/-! ## Moves -/

theorem Represents.asPlanned (hcontent : cl.config.content = plannedConfig P cl₀ r) :
    Represents h { g with config := true } cl := { hrep with config := hcontent }

theorem Represents.asBefore
    (hcontent : cl.config.content = cl₀.config.content) :
    Represents h { g with config := false } cl := { hrep with config := hcontent }

theorem Represents.withSpec (after : Bool) (hd : cl.deployment = some d)
    (hspec : d.spec = if after then h.after else h.before.spec) :
    Represents h { g with spec := after } cl where
  deployment := by
    obtain ⟨huid, hmetadata, -⟩ := hrep.deployed hd
    exact ⟨d, hd, huid, hmetadata, hspec⟩
  configUID := hrep.configUID
  configMutable := hrep.configMutable
  config := hrep.config
  unmoved := hrep.unmoved
  later := hrep.later
  request := hrep.request
  rollback := hrep.rollback
  receipt := hrep.receipt

theorem Represents.putRequest : Represents h { g with request := true } { cl with request :=
      { cl.request with version := cl.request.version + 1, content := .stored r } } :=
  { hrep with request := hrep.request.put _ }

theorem Represents.putRollback : Represents h { g with rollback := true } { cl with rollback :=
      { cl.rollback with
        version := cl.rollback.version + 1, content := .stored (rollbackRecord r) } } :=
  { hrep with rollback := hrep.rollback.put _ }

theorem Represents.putReceipt {rc : Receipt} (hof : rc.Of r h.before.uid) :
    Represents h { g with phase := some rc.phase } { cl with receipt :=
      { cl.receipt with version := cl.receipt.version + 1, content := .stored rc } } :=
  { hrep with
    receipt := by
      obtain ⟨huid, hmutable, hversion⟩ := hrep.receiptUID
      exact .inr ⟨rc, rfl, hof, .own huid hmutable rfl (Nat.lt_succ_of_le hversion)⟩ }

theorem Represents.putConfig {planned : Bool} {content : ConfigContent}
    (hcontent : content = if planned then plannedConfig P cl₀ r else cl₀.config.content) :
    Represents h { g with moved := true, config := planned } { cl with config :=
      { cl.config with version := cl.config.version + 1, content := content } } :=
  { hrep with
    config := hcontent
    unmoved := nofun
    later := fun _ => by
      show cl₀.config.version < cl.config.version + 1
      cases hmoved : g.moved with
      | false => rw [(hrep.unmoved hmoved).1]; exact Nat.lt_succ_self _
      | true => exact Nat.lt_succ_of_lt (hrep.later hmoved) }

/-- The Deployment after a write of its specification. -/
def Deployment.written (d : Deployment) (spec : DeploymentSpec) : Deployment :=
  { d with spec := spec, version := d.version + 1 }

/-- The Deployment after Kubernetes has reported on it. -/
def Deployment.reported (st : DeploymentStatus) (d : Deployment) : Deployment :=
  { d with status := st, version := d.version + 1 }

theorem Represents.putDeployment (after : Bool)
    (hd : cl.deployment = some d) (hspec : spec = if after then h.after else h.before.spec) :
    Represents h { g with spec := after } { cl with deployment := some (d.written spec) } :=
  { hrep with
    deployment := by
      obtain ⟨huid, hmetadata, -⟩ := hrep.deployed hd
      exact ⟨_, rfl, huid, hmetadata, hspec⟩ }

theorem Represents.reported (st : DeploymentStatus) :
    Represents h g { cl with deployment := cl.deployment.map (Deployment.reported st) } :=
  { hrep with
    deployment := by
      obtain ⟨d, hd, huid, hmetadata, hspec⟩ := hrep.deployment
      exact ⟨d.reported st, by rw [hd]; rfl, huid, hmetadata, hspec⟩ }

end

namespace Stage.Coherent

variable (hg : g.Coherent)

include hg

theorem toRequest : Coherent { g with request := true } :=
  { hg with rollback := fun _ => rfl, receipt := fun _ => rfl }

theorem toRollback (hrequest : g.request = true) : Coherent { g with rollback := true } :=
  { hg with
    rollback := fun _ => hrequest
    kept := fun _ _ _ => rfl
    moved := fun hmoved => ⟨rfl, (hg.moved hmoved).2⟩ }

/-- **A receipt may say no more than there is.** -/
theorem toPhase (hrequest : g.request = true) (hrollback : p ≠ .restored → g.rollback = true)
    (hprepared : p = .prepared → g.spec = false) (hwritten : p = .configWritten → g.config = true)
    (hrequested : p = .rolloutRequested ∨ p = .rolloutReady ∨ p = .applied →
      g.config = true ∧ g.spec = true)
    (hrestored : p = .restored → g.config = false ∧ g.spec = false)
    (hback : g.moved = true → g.config = false → p = .restoring ∨ p = .restored) :
    Coherent { g with phase := some p } where
  rollback := hg.rollback
  receipt _ := hrequest
  kept q hq := by
    cases hq
    exact hrollback
  moved hmoved := ⟨(hg.moved hmoved).1, nofun⟩
  spec _ := nofun
  prepared h := hprepared (Option.some.inj h)
  configWritten h := hwritten (Option.some.inj h)
  requested q hq := by
    cases hq
    exact hrequested
  restored h := hrestored (Option.some.inj h)
  back hmoved hconfig := by
    rcases hback hmoved hconfig with rfl | rfl
    · exact .inl rfl
    · exact .inr rfl

/-- The configuration Secret is found, or put, as planned. -/
theorem toConfig (hphase : g.phase = some p) (hp : p ≠ .restored)
    (moved : Bool) : Coherent { g with moved := moved, config := true } :=
  { hg with
    moved := fun _ => ⟨hg.kept p hphase hp, fun h => nomatch h.symm.trans hphase⟩
    configWritten := fun _ => rfl
    requested := fun q hq hcases => ⟨rfl, (hg.requested q hq hcases).2⟩
    restored := fun h => absurd (Option.some.inj (hphase.symm.trans h)) hp
    back := fun _ h => nomatch h }

/-- It is put back, once the receipt says so. -/
theorem backConfig (hphase : g.phase = some .restoring) (moved : Bool) :
    Coherent { g with moved := moved, config := false } :=
  { hg with
    moved := fun _ => ⟨hg.kept _ hphase (by decide), fun h => nomatch h.symm.trans hphase⟩
    configWritten := fun h => nomatch hphase.symm.trans h
    requested := fun q hq hcases => by
      obtain rfl := Option.some.inj (hphase.symm.trans hq)
      simp at hcases
    restored := fun h => nomatch hphase.symm.trans h
    back := fun _ _ => .inl hphase }

/-- The Deployment is found, or put, as planned. -/
theorem toSpec (hphase : g.phase = some p) (hp : p ≠ .restored)
    (hprepared : p ≠ .prepared) : Coherent { g with spec := true } :=
  { hg with
    spec := fun _ h => nomatch h.symm.trans hphase
    prepared := fun h => absurd (Option.some.inj (hphase.symm.trans h)) hprepared
    requested := fun q hq hcases => ⟨(hg.requested q hq hcases).1, rfl⟩
    restored := fun h => absurd (Option.some.inj (hphase.symm.trans h)) hp }

theorem backSpec (hphase : g.phase = some .restoring) : Coherent { g with spec := false } :=
  { hg with
    spec := nofun
    prepared := fun _ => rfl
    requested := fun q hq hcases => by
      obtain rfl := Option.some.inj (hphase.symm.trans hq)
      simp at hcases
    restored := fun h => nomatch hphase.symm.trans h }

/-- Nothing has been changed yet, or everything is back. -/
theorem unchanged (hmoved : g.moved = false)
    (hphase : ∀ p, g.phase = some p → p = .prepared ∨ p = .restored) :
    Coherent { g with config := false, spec := false } :=
  { hg with
    spec := nofun
    prepared := fun _ => rfl
    configWritten := fun h => by simpa using hphase _ h
    requested := fun p hp hcases => by
      rcases hphase p hp with rfl | rfl
      · simp at hcases
      · simp at hcases
    restored := fun _ => ⟨rfl, rfl⟩
    back := fun h => nomatch hmoved.symm.trans h }

end Stage.Coherent

end Hikyo.Rollout
