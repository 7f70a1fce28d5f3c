import Hikyo.Rollout.Controller
import Hikyo.Rollout.Preparation

/-!
# When a preparation is refused for good

The controller keeps trying a prepare command that meets a conflict or an outage,
and it answers one that is refused in any other way. `Agrees` says that the
Deployment is what a prepare command was made for: the enrolled one, with the
template stamp that the command names, with the mode and the node identity that its
topology change starts from, with the inputs of the installed upgrade source. On
such a Deployment a preparation does not conflict (`prepareFor_final`), and the plan
it gives starts from the stamp of the command (`previousTemplateStamp_of_prepareFor`).
-/

namespace Hikyo.Rollout

open List
open Tx (ensure_of ensure_of_not)

/-! ## Refusals for good -/

/-- **If it is refused, then not for a retry.** -/
def Final {α : Type} (x : Except RolloutError α) : Prop :=
  ∀ err, x = .error err → retried err = false

section Final

variable {α β : Type} {x : Except RolloutError α} {f : α → Except RolloutError β}

theorem Final.ok (a : α) : Final (.ok a : Except RolloutError α) := nofun

variable {err : RolloutError}

theorem Final.error (h : retried err = false) :
    Final (.error err : Except RolloutError α) := fun _ herr => Except.error.inj herr ▸ h

theorem Final.bind (hx : Final x) (hf : ∀ a, x = .ok a → Final (f a)) : Final (x >>= f) := by
  cases x with
  | error err => exact Final.error (hx err rfl)
  | ok a => exact hf a rfl

theorem Final.check {p : Prop} [Decidable p] {f : Unit → Except RolloutError β}
    (h : retried err = false) (hf : p → Final (f ())) : Final (Tx.ensure p err >>= f) := by
  by_cases hp : p
  · rw [ensure_of hp]
    exact hf hp
  · rw [ensure_of_not hp]
    exact Final.error h

theorem Final.whenSome {o : Option α} {g : α → β → Except RolloutError β} {b : β}
    (h : ∀ a, o = some a → Final (g a b)) : Final (whenSome o g b) := by
  cases o with
  | none => exact Final.ok b
  | some a => exact h a rfl

theorem Final.mapM {g : α → Except RolloutError β} {l : List α} (h : ∀ a ∈ l, Final (g a)) :
    Final (l.mapM g) := by
  induction l with
  | nil =>
    rw [mapM_nil]
    exact Final.ok []
  | cons a l ih =>
    rw [mapM_cons]
    refine Final.bind (h a mem_cons_self) fun b _ => ?_
    refine Final.bind (ih fun a ha => h a (mem_cons_of_mem _ ha)) fun bs _ => ?_
    exact Final.ok _

end Final

variable {P : Platform} {t : Target} {c : Container}

/-! ## The parts of a preparation -/

theorem resolve_final (change : Change) (replicas : ℤ) : Final (resolve P t change replicas) := by
  unfold resolve
  refine Final.check rfl fun _ => ?_
  split_ifs
  · split
    · exact Final.error rfl
    · exact Final.ok _
  · split
    · exact Final.error rfl
    · exact Final.check rfl fun _ => Final.ok _
  · split
    · exact Final.error rfl
    · refine Final.check rfl fun _ => ?_
      split
      · exact Final.error rfl
      · exact Final.check rfl fun _ => Final.ok _
  · refine Final.check rfl fun _ => ?_
    exact Final.check rfl fun _ => Final.ok _
  · exact Final.error rfl
  · exact Final.ok _

theorem envDelta_final (after : EnvVar) : Final (envDelta c after) := by
  unfold envDelta
  split
  · exact Final.ok _
  · exact Final.ok _
  · exact Final.error rfl

theorem changeArguments_final (v value : String) : Final (changeArguments c v value) := by
  unfold changeArguments
  split
  · exact Final.ok _
  · unfold argumentDelta
    split
    · exact Final.ok _
    · split
      · split
        · exact Final.error rfl
        · split
          · exact Final.error rfl
          · exact Final.ok _
      · exact Final.ok _
    · exact Final.error rfl

theorem changePorts_final (v value : String) : Final (changePorts P c v value) := by
  unfold changePorts
  split
  · exact Final.ok _
  · unfold listenerDelta
    split
    · exact Final.check rfl fun _ => Final.ok _
    · exact Final.error rfl

theorem prepareChanges_final (previous : Option String) (changes : List Change) (p : PlanData) :
    Final (prepareChanges P t c previous changes p) := by
  induction changes generalizing previous p with
  | nil => exact Final.ok p
  | cons change rest ih =>
    unfold prepareChanges
    refine Final.check rfl fun _ => Final.bind ?_ fun p' _ => ih _ p'
    unfold prepareChange
    refine Final.bind (resolve_final change p.replicas) fun value _ => ?_
    refine Final.bind (envDelta_final _) fun e _ => ?_
    refine Final.bind (changeArguments_final _ value) fun args _ => ?_
    exact Final.bind (changePorts_final _ value) fun ports _ => Final.ok _

theorem prepareDatabaseDelta_final (spec : DeploymentSpec) (proof : SourceProof)
    (delta : DeploymentDelta) : Final (prepareDatabaseDelta t spec c proof delta) := by
  unfold prepareDatabaseDelta
  split
  · exact Final.error rfl
  · refine Final.bind (envDelta_final _) fun e _ => ?_
    split
    · exact Final.ok _
    · exact Final.error rfl

theorem prepareRootDelta_final (spec : DeploymentSpec) (proof : SourceProof)
    (delta : DeploymentDelta) : Final (prepareRootDelta t spec proof delta) := by
  unfold prepareRootDelta
  split
  · exact Final.error rfl
  · split
    · split
      · refine Final.check rfl fun _ => ?_
        exact Final.check rfl fun _ => Final.ok _
      · exact Final.error rfl
    · exact Final.error rfl

/-! ## A Deployment that a command was made for -/

/-- The inputs of the topology are those that the change starts from. -/
def TopologyAgrees (c : Container) (change : SingletonTopologyChange) : Prop :=
  ∀ x ∈ (topologyEnvironment change.before).zip (topologyEnvironment change.after),
    correspondsTo change.before.ha x.1 (c.env.find? fun v => v.name = x.2.name) = true

/-- The inputs of the installed upgrade source, as far as they are there, are there once and
as the source says. -/
def UpgradeAgrees (t : Target) (spec : DeploymentSpec) (c : Container) : Prop :=
  ∀ name source, spec.template.annotations.lookup upgradeAliasAnnotation = some name →
    t.upgradeSources.lookup name = some source → ∀ input ∈ source.environment,
      c.env.filter (fun v => v.name = input.name) = [] ∨
        c.env.filter (fun v => v.name = input.name) = [input]

/-- **The Deployment is what a prepare command was made for.** -/
structure Agrees (t : Target) (command : Command) (d : Deployment) : Prop where
  uid : d.uid = t.deploymentUID
  stamp : ( annotation d.spec.template.annotations).getD "" = command.previousTemplateStamp
  topology : ∀ c change, container d.spec t.container = some c →
    command.topology = some change → TopologyAgrees c change
  upgrade : ∀ c b proof, container d.spec t.container = some c → command.bootstrap = some b →
    b.upgrade = some proof → UpgradeAgrees t d.spec c

theorem topologyEnvDelta_final {ha : Bool} {before after : EnvVar}
    (h : correspondsTo ha before (c.env.find? fun v => v.name = after.name) = true) :
    Final (topologyEnvDelta c ha before after) := by
  unfold topologyEnvDelta
  refine Final.bind (envDelta_final _) fun e he => ?_
  obtain ⟨hrecorded, hname, -⟩ := envDelta_eq_ok he
  have hbefore : c.env.find? (fun v => v.name = after.name) = e.before := by
    rw [← hname, ← head?_filter, hrecorded.before]
    cases e.before with
    | none | some b => rfl
  rw [hbefore] at h
  rw [ensure_of h]
  exact Final.ok e

theorem prepareTopologyDelta_final {change : SingletonTopologyChange} {p : PlanData}
    (h : TopologyAgrees c change) : Final (prepareTopologyDelta t c change p) := by
  unfold prepareTopologyDelta
  refine Final.check rfl fun _ => ?_
  refine Final.bind (Final.mapM fun x hx => topologyEnvDelta_final (h x hx)) fun es _ => ?_
  split
  · exact Final.ok _
  · exact Final.ok _

/-- The inputs of two upgrade sources have the same names, in the same order. -/
theorem environment_zip {before source : UpgradeCustodySource} {x : EnvVar × EnvVar}
    (h : x ∈ before.environment.zip source.environment) :
    x.1 ∈ before.environment ∧ x.2.name = x.1.name := by
  refine ⟨(of_mem_zip h).1, ?_⟩
  have hall : ∀ x ∈ before.environment.zip source.environment, x.2.name = x.1.name := by
    unfold UpgradeCustodySource.environment
    simp
  exact hall x h

variable {spec : DeploymentSpec} {delta : DeploymentDelta}

theorem prepareUpgradeDelta_final {proof : SourceProof} (h : UpgradeAgrees t spec c) :
    Final (prepareUpgradeDelta P t spec c proof delta) := by
  unfold prepareUpgradeDelta
  split
  · exact Final.error rfl
  next name hname =>
    split
    next before source hbefore _ =>
      refine Final.bind (Final.mapM fun x hx => ?_) fun es _ => Final.ok _
      obtain ⟨previous, next⟩ := x
      obtain ⟨hmem, hsame : next.name = previous.name⟩ := environment_zip hx
      unfold upgradeEnvDelta
      dsimp only
      rw [hsame]
      rcases h name before hname hbefore previous hmem with hnil | hone
      · rw [hnil]
        exact Final.error rfl
      · rw [hone]
        dsimp only
        rw [if_pos rfl]
        exact Final.ok _
    next => exact Final.error rfl

theorem prepareBootstrapDelta_final {b : BootstrapChanges}
    (h : ∀ proof, b.upgrade = some proof → UpgradeAgrees t spec c) :
    Final (prepareBootstrapDelta P t spec c b delta) := by
  unfold prepareBootstrapDelta
  refine Final.check rfl fun _ => ?_
  refine Final.bind (Final.whenSome fun proof _ => prepareDatabaseDelta_final _ _ _) fun _ _ => ?_
  refine Final.bind (Final.whenSome fun proof _ => prepareRootDelta_final _ _ _) fun _ _ => ?_
  exact Final.whenSome fun proof hproof => prepareUpgradeDelta_final (h proof hproof)

variable {cl : Cluster} {d : Deployment}

theorem get_final (hd : cl.deployment = some d)
    (huid : d.uid = t.deploymentUID) : Final (get t cl) := by
  unfold get
  rw [hd]
  dsimp only
  rw [ensure_of huid]
  refine Final.bind (Final.ok ()) fun _ _ => ?_
  iterate 7 refine Final.check rfl fun _ => ?_
  exact Final.check rfl fun _ => Final.ok _

variable {command : Command}

/-- **A preparation on such a Deployment does not conflict.** The delta that is recorded from
the Deployment applies to it. -/
theorem prepare_final
    (hd : cl.deployment = some d) (h : Agrees t command d) (changes : List Change) :
    Final (prepare P t command.intent changes command.bootstrap command.topology cl) := by
  unfold prepare
  refine Final.check rfl fun _ => ?_
  refine Final.bind (get_final hd h.uid) fun ds hget => ?_
  obtain ⟨d', s⟩ := ds
  obtain rfl : d' = d := by
    obtain ⟨hd', -⟩ := get_eq_ok hget
    exact Option.some.inj (hd'.symm.trans hd)
  refine Final.check rfl fun _ => ?_
  dsimp only
  split
  · exact Final.error rfl
  next c hc =>
    refine Final.check rfl fun _ => ?_
    refine Final.bind ?_ fun p hp => ?_
    · unfold planDeltas
      refine Final.bind (prepareChanges_final _ _ _) fun p₁ hp₁ => ?_
      obtain ⟨after, delta, rfl⟩ := prepareChanges_only hp₁
      refine Final.bind (Final.whenSome fun b hb => ?_) fun delta _ => ?_
      · exact prepareBootstrapDelta_final fun proof hproof => h.upgrade c b proof hc hb hproof
      · exact Final.whenSome fun change hchange =>
          prepareTopologyDelta_final (h.topology c change hc hchange)
    · have hrecorded := planDeltas_recorded hp (changes_sorted changes) rfl
      obtain ⟨spec, hspec, -⟩ := applyDelta_of_recorded (H := P.toDigests) hc hrecorded
        (some (stampFor P p))
      rw [hspec]
      refine Final.bind (Final.ok spec) fun _ _ => ?_
      exact Final.check rfl fun _ => Final.ok _

/-- **A prepare command that agrees with the Deployment is answered.** -/
theorem prepareFor_final
    (hd : cl.deployment = some d) (h : Agrees t command d) :
    Final (prepareFor P t command.intent command.changes command.bootstrap command.topology cl) := by
  have hprepare := fun changes => prepare_final (P := P) hd h changes
  unfold prepareFor
  split
  next change b htopology hbootstrap =>
    rw [htopology, hbootstrap] at hprepare
    refine Final.check rfl fun _ => ?_
    refine Final.check rfl fun _ => ?_
    rw [hbootstrap, htopology]
    exact hprepare []
  next change htopology hbootstrap =>
    rw [htopology, hbootstrap] at hprepare
    refine Final.check rfl fun _ => ?_
    rw [htopology]
    exact hprepare []
  next b htopology hbootstrap =>
    rw [htopology, hbootstrap] at hprepare
    refine Final.check rfl fun _ => ?_
    rw [hbootstrap]
    exact hprepare command.changes
  next htopology hbootstrap =>
    rw [htopology, hbootstrap] at hprepare
    exact hprepare command.changes

/-- **The plan starts from the stamp of the Deployment.** -/
theorem previousTemplateStamp_of_prepareFor
    {r : Record} (hd : cl.deployment = some d) (h : Agrees t command d)
    (hr : prepareFor P t command.intent command.changes command.bootstrap command.topology cl =
      .ok r) : command.previousTemplateStamp = previousTemplateStamp r.plan := by
  obtain ⟨changes', hr⟩ := prepareFor_eq_ok hr
  obtain ⟨hp⟩ := prepare_eq_ok hr
  obtain rfl : hp.deployment = d := by
    obtain ⟨hd', -⟩ := get_eq_ok hp.got
    exact Option.some.inj (hd'.symm.trans hd)
  unfold previousTemplateStamp
  rw [hp.plan_eq, ← h.stamp, hp.recorded.beforeStamp]

end Hikyo.Rollout
