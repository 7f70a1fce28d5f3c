import Hikyo.Rollout.DeltaRoundTrip
import Hikyo.Rollout.Plan

/-!
# What preparation gives

A plan that `prepare` returns is taken apart here, once. `Prepares` has the
Deployment, the Secrets and the container that were read, and says how the plan is
made from them; `planDeltas_only` says that everything but the configuration and
the delta is fixed before any delta is worked out.

The delta is recorded from the Deployment that was read (`planDeltas_recorded`), so
it can be applied and taken back (`applyDelta_of_recorded`). What keeps its parts
from meeting each other is in the names: the variables of a command come in order
and once each, and the inputs that a bootstrap change or a topology change sets are
not in their vocabulary.
-/

namespace Hikyo.Rollout

open List
open Tx (bind_ok skip checked)

variable {P : Platform} {t : Target} {cl : Cluster} {c : Container}

/-! ## One entry of a delta -/

variable {after : EnvVar} {e : EnvDelta}

theorem envDelta_eq_ok (h : envDelta c after = .ok e) :
    EnvRecorded c.env e ∧ e.name = after.name ∧ e.after = after := by
  unfold envDelta at h
  split at h
  next hnil =>
    cases h
    exact ⟨⟨rfl, hnil⟩, rfl, rfl⟩
  next before hone =>
    cases h
    exact ⟨⟨rfl, hone⟩, rfl, rfl⟩
  next => cases h

variable {α : Type}

/-- What is found once, is found at its place. -/
theorem getElem?_of_filter_zipIdx {l : List α} {p : α × ℕ → Bool} {a : α} {i : ℕ}
    (h : l.zipIdx.filter p = [(a, i)]) : l[i]? = some a ∧ p (a, i) = true := by
  have hmem : (a, i) ∈ l.zipIdx.filter p := by
    rw [h]
    exact mem_singleton.mpr rfl
  obtain ⟨hmem, hp⟩ := mem_filter.mp hmem
  exact ⟨List.mk_mem_zipIdx_iff_getElem?.mp hmem, hp⟩

variable {value : String} {as : List ArgDelta}

theorem argumentDelta_eq_ok {flag : String} (hflag : flag ∈ ruledFlags)
    (h : argumentDelta c flag value = .ok as) :
    as = [] ∨ ∃ a, as = [a] ∧ a.flag = flag ∧ ArgRecorded c.args a := by
  unfold argumentDelta at h
  split at h
  next => exact .inl (Except.ok.inj h).symm
  next arg i hone =>
    obtain ⟨hget, hp⟩ := getElem?_of_filter_zipIdx hone
    split at h
    next harg =>
      subst harg
      split at h
      next => cases h
      next value' hnext =>
        split at h
        next => cases h
        next hdash =>
          refine .inr ⟨_, (Except.ok.inj h).symm, rfl, hflag, i + 1, rfl, hnext, .inr ?_⟩
          exact ⟨i, rfl, hget, Bool.eq_false_iff.mpr hdash⟩
    next harg =>
      refine .inr ⟨_, (Except.ok.inj h).symm, rfl, hflag, i, rfl, hget, .inl ⟨?_, ?_⟩⟩
      · rw [Bool.or_eq_true, decide_eq_true_eq] at hp
        exact hp.resolve_left harg
      · exact hasPrefix_append _ _
  next => cases h

variable {ps : List PortDelta}

theorem listenerDelta_eq_ok {port : String}
    (hport : port = "http" ∨ port = "ops") (h : listenerDelta P c port value = .ok ps) :
    ∃ p, ps = [p] ∧ p.name = port ∧ PortRecorded c.ports p := by
  unfold listenerDelta at h
  split at h
  next p i hone =>
    obtain ⟨hget, hp⟩ := getElem?_of_filter_zipIdx hone
    obtain ⟨_, _, h⟩ := bind_ok h
    exact ⟨_, (Except.ok.inj h).symm, rfl, hport, i, p, rfl, hget, of_decide_eq_true hp, rfl⟩
  next => cases h

/-! ## The changes of a command -/

theorem variableFlag_mem {v flag : String} (h : variableFlag v = some flag) :
    flag ∈ ruledFlags := by
  unfold variableFlag at h
  split_ifs at h <;> exact Option.some.inj h ▸ by decide

theorem variableFlag_inj {v w flag : String} (hv : variableFlag v = some flag)
    (hw : variableFlag w = some flag) : v = w := by
  unfold variableFlag at hv hw
  split_ifs at hv hw <;> subst_vars <;> first | rfl | exact absurd (hv.trans hw.symm) (by decide)

theorem listenerPort_name {v port : String} (h : listenerPort v = some port) :
    port = "http" ∨ port = "ops" := by
  unfold listenerPort at h
  split_ifs at h
  · exact .inl (Option.some.inj h).symm
  · exact .inr (Option.some.inj h).symm

theorem listenerPort_inj {v w port : String} (hv : listenerPort v = some port)
    (hw : listenerPort w = some port) : v = w := by
  unfold listenerPort at hv hw
  split_ifs at hv hw <;> subst_vars <;> first | rfl | exact absurd (hv.trans hw.symm) (by decide)

theorem changeArguments_eq_ok {v : String}
    (h : changeArguments c v value = .ok as) :
    (∀ a ∈ as, ArgRecorded c.args a) ∧ (as.map ArgDelta.flag).Sublist (variableFlag v).toList := by
  unfold changeArguments at h
  split at h
  next =>
    cases h
    exact ⟨fun a ha => (not_mem_nil ha).elim, nil_sublist _⟩
  next flag hflag =>
    rcases argumentDelta_eq_ok (variableFlag_mem hflag) h with rfl | ⟨a, rfl, rfl, ha⟩
    · exact ⟨fun a ha => (not_mem_nil ha).elim, nil_sublist _⟩
    · rw [hflag]
      exact ⟨fun b hb => mem_singleton.mp hb ▸ ha, List.Sublist.refl _⟩

theorem changePorts_eq_ok {v : String}
    (h : changePorts P c v value = .ok ps) :
    (∀ p ∈ ps, PortRecorded c.ports p) ∧ ps.map PortDelta.name = (listenerPort v).toList := by
  unfold changePorts at h
  split at h
  next hport =>
    cases h
    rw [hport]
    exact ⟨fun a ha => (not_mem_nil ha).elim, rfl⟩
  next port hport =>
    obtain ⟨p, rfl, rfl, hp⟩ := listenerDelta_eq_ok (listenerPort_name hport) h
    rw [hport]
    exact ⟨fun q hq => mem_singleton.mp hq ▸ hp, rfl⟩

variable {change : Change}

/-- A variable that a change may set. The node identity is in the vocabulary, and it is not
set by a change. -/
theorem allowed_of_resolve {replicas : ℤ}
    (h : resolve P t change replicas = .ok value) :
    allowed change.var = true ∧ change.var ≠ nodeIDVariable := by
  unfold resolve at h
  obtain ⟨hvalid, h⟩ := checked h
  refine ⟨hvalid.1, fun hvar => ?_⟩
  rw [hvar, if_neg (by decide), if_neg (by decide), if_neg (by decide), if_neg (by decide),
    if_pos rfl] at h
  cases h

/-! ## Where a plan comes from -/

variable {p' : PlanData}

theorem prepareChange_eq_ok {p : PlanData}
    (h : prepareChange P t c p change = .ok p') :
    ∃ value e args ports, resolve P t change p.replicas = .ok value ∧
      envDelta c (configEnv t change.var) = .ok e ∧
      changeArguments c change.var value = .ok args ∧
      changePorts P c change.var value = .ok ports ∧
      p' = { p with
        configAfter := p.configAfter.insert change.var value
        delta := { p.delta with
          environment := p.delta.environment ++ [e]
          arguments := p.delta.arguments ++ args
          ports := p.delta.ports ++ ports } } := by
  unfold prepareChange at h
  obtain ⟨value, hvalue, h⟩ := bind_ok h
  obtain ⟨e, he, h⟩ := bind_ok h
  obtain ⟨args, hargs, h⟩ := bind_ok h
  obtain ⟨ports, hports, h⟩ := bind_ok h
  exact ⟨value, e, args, ports, hvalue, he, hargs, hports, (Except.ok.inj h).symm⟩

variable {previous : Option String} {changes : List Change}

theorem prepareChanges_only
    {p : PlanData} (h : prepareChanges P t c previous changes p = .ok p') :
    ∃ after delta, p' = { p with configAfter := after, delta := delta } := by
  induction changes generalizing previous p with
  | nil => exact ⟨p.configAfter, p.delta, (Except.ok.inj h).symm⟩
  | cons change rest ih =>
    unfold prepareChanges at h
    obtain ⟨_, _, h⟩ := bind_ok h
    obtain ⟨p₁, hp₁, h⟩ := bind_ok h
    obtain ⟨_, _, _, _, _, _, _, _, rfl⟩ := prepareChange_eq_ok hp₁
    obtain ⟨after, delta, rfl⟩ := ih h
    exact ⟨after, delta, rfl⟩

theorem whenSome_eq_ok {β : Type} {o : Option α} {f : α → β → Except RolloutError β} {b b' : β}
    (h : whenSome o f b = .ok b') : (o = none ∧ b' = b) ∨ ∃ a, o = some a ∧ f a b = .ok b' := by
  cases o with
  | none => exact .inl ⟨rfl, (Except.ok.inj h).symm⟩
  | some a => exact .inr ⟨a, rfl, h⟩

theorem prepareTopologyDelta_eq_ok {change : SingletonTopologyChange} {p : PlanData}
    (h : prepareTopologyDelta t c change p = .ok p') : ∃ es, validTopology t (some change) = true ∧
      ((topologyEnvironment change.before).zip (topologyEnvironment change.after)).mapM
        (fun x => topologyEnvDelta c change.before.ha x.1 x.2) = .ok es ∧
      p.changes = [] ∧
      p' = if p.bootstrap = none then
        { p with delta := { p.delta with environment := p.delta.environment ++ es } } else p := by
  unfold prepareTopologyDelta at h
  obtain ⟨hvalid, h⟩ := checked h
  obtain ⟨es, hes, h⟩ := bind_ok h
  refine ⟨es, hvalid.1, hes, hvalid.2.2.1, ?_⟩
  split at h
  next hnone => rw [if_pos hnone]; exact (Except.ok.inj h).symm
  next hsome => rw [if_neg hsome]; exact (Except.ok.inj h).symm

variable {d : Deployment}

/-- **Only the configuration and the delta of a plan are worked out.** -/
theorem planDeltas_only {p : PlanData} (h : planDeltas P t p d c = .ok p') :
    ∃ after delta, p' = { p with configAfter := after, delta := delta } := by
  unfold planDeltas at h
  obtain ⟨p₁, hp₁, h⟩ := bind_ok h
  obtain ⟨delta, -, h⟩ := bind_ok h
  obtain ⟨after, delta₁, rfl⟩ := prepareChanges_only hp₁
  rcases whenSome_eq_ok h with ⟨_, rfl⟩ | ⟨change, -, h⟩
  · exact ⟨after, delta, rfl⟩
  · obtain ⟨es, -, -, -, rfl⟩ := prepareTopologyDelta_eq_ok h
    split
    · exact ⟨after, _, rfl⟩
    · exact ⟨after, delta, rfl⟩

/-! ## A plan records its Deployment -/

/-- The part of a delta that changes of variables add. -/
structure ChangesRecorded (c : Container) (changes : List Change) (es : List EnvDelta)
    (as : List ArgDelta) (ps : List PortDelta) : Prop where
  environment : ∀ e ∈ es, EnvRecorded c.env e
  environmentNames : es.map EnvDelta.name = changes.map Change.var
  arguments : ∀ a ∈ as, ArgRecorded c.args a
  argumentFlags : (as.map ArgDelta.flag).Sublist (changes.filterMap fun ch => variableFlag ch.var)
  ports : ∀ p ∈ ps, PortRecorded c.ports p
  portNames : ps.map PortDelta.name = changes.filterMap fun ch => listenerPort ch.var

theorem filterMap_cons_toList {β : Type} (f : α → Option β) (a : α) (l : List α) :
    (a :: l).filterMap f = (f a).toList ++ l.filterMap f := by
  cases h : f a with
  | none => rw [filterMap_cons_none h]; rfl
  | some b => rw [filterMap_cons_some h]; rfl

theorem prepareChanges_recorded
    {p : PlanData} (h : prepareChanges P t c previous changes p = .ok p') :
    ∃ es as ps, ChangesRecorded c changes es as ps ∧
      (∀ change ∈ changes, allowed change.var = true ∧ change.var ≠ nodeIDVariable) ∧
      p'.delta = { p.delta with
        environment := p.delta.environment ++ es
        arguments := p.delta.arguments ++ as
        ports := p.delta.ports ++ ps } := by
  induction changes generalizing previous p with
  | nil =>
    cases h
    refine ⟨[], [], [], ⟨by simp, rfl, by simp, .refl _, by simp, rfl⟩, by simp, ?_⟩
    rw [append_nil, append_nil, append_nil]
  | cons change rest ih =>
    unfold prepareChanges at h
    replace h := skip h
    obtain ⟨p₁, hp₁, h⟩ := bind_ok h
    obtain ⟨value, e, args, ports, hvalue, he, hargs, hports, rfl⟩ := prepareChange_eq_ok hp₁
    obtain ⟨es, as, ps, hrest, hallowed, hdelta⟩ := ih h
    obtain ⟨he, hname, -⟩ := envDelta_eq_ok he
    obtain ⟨hargs, hflags⟩ := changeArguments_eq_ok hargs
    obtain ⟨hports, hnames⟩ := changePorts_eq_ok hports
    refine ⟨e :: es, args ++ as, ports ++ ps, ⟨?_, ?_, ?_, ?_, ?_, ?_⟩, ?_, ?_⟩
    · exact forall_mem_cons.mpr ⟨he, hrest.environment⟩
    · rw [map_cons, map_cons, hrest.environmentNames, hname]
      rfl
    · exact forall_mem_append.mpr ⟨hargs, hrest.arguments⟩
    · rw [map_append, filterMap_cons_toList]
      exact hflags.append hrest.argumentFlags
    · exact forall_mem_append.mpr ⟨hports, hrest.ports⟩
    · rw [map_append, hnames, hrest.portNames, filterMap_cons_toList]
    · exact forall_mem_cons.mpr ⟨allowed_of_resolve hvalue, hallowed⟩
    · rw [hdelta]
      dsimp only
      rw [append_assoc, append_assoc, append_assoc, singleton_append]

/-- **The variables of a command come once each**: they are in order, and no two neighbours
are the same. -/
theorem prepareChanges_nodup {p : PlanData}
    (h : prepareChanges P t c previous changes p = .ok p')
    (hsorted : changes.Pairwise fun a b => a.var ≤ b.var)
    (hprevious : ∀ v, previous = some v → ∀ change ∈ changes, v ≤ change.var) :
    (∀ v, previous = some v → ∀ change ∈ changes, v < change.var) ∧
      changes.Pairwise fun a b => a.var < b.var := by
  induction changes generalizing previous p with
  | nil => exact ⟨fun _ _ _ h => (not_mem_nil h).elim, List.Pairwise.nil⟩
  | cons change rest ih =>
    unfold prepareChanges at h
    obtain ⟨hne, h⟩ := checked h
    obtain ⟨p₁, -, h⟩ := bind_ok h
    obtain ⟨hfirst, hsorted⟩ := pairwise_cons.mp hsorted
    have hnext : ∀ v, some change.var = some v → ∀ ch ∈ rest, v ≤ ch.var :=
      fun v hv ch hch => Option.some.inj hv ▸ hfirst ch hch
    obtain ⟨habove, hpairwise⟩ := ih h hsorted hnext
    refine ⟨fun v hv ch hch => ?_, pairwise_cons.mpr ⟨habove _ rfl, hpairwise⟩⟩
    have hlt : v < change.var :=
      lt_of_le_of_ne (hprevious v hv change mem_cons_self) fun heq => hne (heq ▸ hv)
    rcases mem_cons.mp hch with rfl | hch
    · exact hlt
    · exact lt_trans hlt (habove _ rfl ch hch)

/-- The inputs that a bootstrap change sets. None of them is in the vocabulary of changes. -/
def bootstrapNames : List String :=
  ["HIKYO_DB", "HIKYO_UPGRADE_BUNDLE", "HIKYO_UPGRADE_STATE_DIR", "HIKYO_UPGRADE_EVIDENCE",
    "HIKYO_UPGRADE_BACKUP", "HIKYO_UPGRADE_OPERATOR_PUBLIC_KEY", "HIKYO_UPGRADE_TARGET_MANIFEST",
    "HIKYO_UPGRADE_LEGACY_WRITERS_STOPPED"]

theorem bootstrapNames_not_allowed : ∀ v ∈ bootstrapNames, allowed v = false := by decide

theorem upgradeEnvDelta_eq_ok {previous next : EnvVar}
    (h : upgradeEnvDelta P c previous next = .ok e) : EnvRecorded c.env e ∧ e.after = next := by
  unfold upgradeEnvDelta at h
  split at h
  next => cases h
  next before hone =>
    split at h
    next =>
      cases h
      exact ⟨⟨rfl, hone⟩, rfl⟩
    next => cases h
  next => cases h

theorem mapM_recorded {f : EnvVar × EnvVar → Except RolloutError EnvDelta}
    (hf : ∀ x e, f x = .ok e → EnvRecorded c.env e ∧ e.after = x.2) {xs : List (EnvVar × EnvVar)}
    {es : List EnvDelta} (h : xs.mapM f = .ok es) :
    (∀ e ∈ es, EnvRecorded c.env e ∧ e.after ∈ xs.map Prod.snd) ∧
      es.map EnvDelta.name = xs.map fun x => x.2.name := by
  induction xs generalizing es with
  | nil =>
    rw [mapM_nil] at h
    cases h
    exact ⟨fun e he => (not_mem_nil he).elim, rfl⟩
  | cons x xs ih =>
    rw [mapM_cons] at h
    obtain ⟨e, he, h⟩ := bind_ok h
    obtain ⟨es', hes', h⟩ := bind_ok h
    cases h
    obtain ⟨hrecorded, hnames⟩ := ih hes'
    obtain ⟨he, hafter⟩ := hf x e he
    refine ⟨forall_mem_cons.mpr ⟨⟨he, hafter ▸ mem_cons_self⟩, fun e he =>
      ⟨(hrecorded e he).1, mem_cons_of_mem _ (hrecorded e he).2⟩⟩, ?_⟩
    rw [map_cons, map_cons, hnames, ← he.after, hafter]

/-- What one source of a bootstrap change adds to a delta. -/
structure SourceAdded (spec : DeploymentSpec) (c : Container) (names aliases : List String)
    (delta delta' : DeploymentDelta) (es : List EnvDelta) (ss : List SourceAliasDelta) : Prop where
  environment : ∀ e ∈ es, EnvRecorded c.env e
  environmentNames : (es.map EnvDelta.name).Sublist names
  sourceAliases : ∀ s ∈ ss, AliasRecorded spec.template.annotations s
  aliasNames : (ss.map SourceAliasDelta.name).Sublist aliases
  rootSource : delta'.rootSource = delta.rootSource ∨
    ∃ r, delta'.rootSource = some r ∧ RootRecorded spec.template.volumes r
  delta_eq : delta' = { delta with
    environment := delta.environment ++ es
    rootSource := delta'.rootSource
    sourceAliases := delta.sourceAliases ++ ss }

variable {spec : DeploymentSpec} {delta delta' delta'' : DeploymentDelta}

theorem SourceAdded.refl (names aliases : List String) :
    SourceAdded spec c names aliases delta delta [] [] where
  environment _ h := (not_mem_nil h).elim
  environmentNames := nil_sublist _
  sourceAliases _ h := (not_mem_nil h).elim
  aliasNames := nil_sublist _
  rootSource := .inl rfl
  delta_eq := by rw [append_nil, append_nil]

theorem SourceAdded.trans {names names' aliases aliases' : List String} {es es' : List EnvDelta}
    {ss ss' : List SourceAliasDelta} (h : SourceAdded spec c names aliases delta delta' es ss)
    (h' : SourceAdded spec c names' aliases' delta' delta'' es' ss') :
    SourceAdded spec c (names ++ names') (aliases ++ aliases') delta delta'' (es ++ es')
      (ss ++ ss') where
  environment := forall_mem_append.mpr ⟨h.environment, h'.environment⟩
  environmentNames := by
    rw [map_append]
    exact h.environmentNames.append h'.environmentNames
  sourceAliases := forall_mem_append.mpr ⟨h.sourceAliases, h'.sourceAliases⟩
  aliasNames := by
    rw [map_append]
    exact h.aliasNames.append h'.aliasNames
  rootSource := by
    rcases h'.rootSource with heq | hsome
    · rw [heq]
      exact h.rootSource
    · exact .inr hsome
  delta_eq := by
    rw [h'.delta_eq, h.delta_eq]
    dsimp only
    rw [append_assoc, append_assoc]

variable {proof : SourceProof}

theorem prepareDatabaseDelta_added (h : prepareDatabaseDelta t spec c proof delta = .ok delta') :
    ∃ es ss, SourceAdded spec c ["HIKYO_DB"] [ databaseAliasAnnotation] delta delta' es ss := by
  unfold prepareDatabaseDelta at h
  split at h
  next => cases h
  next source _ =>
    obtain ⟨e, he, h⟩ := bind_ok h
    obtain ⟨hrecorded, hname, -⟩ := envDelta_eq_ok he
    split at h
    next =>
      cases h
      refine ⟨[e], [⟨ databaseAliasAnnotation, _, proof.alias⟩], ?_, ?_, ?_, .refl _, .inl rfl, rfl⟩
      · exact fun f hf => mem_singleton.mp hf ▸ hrecorded
      · rw [map_singleton, hname]
        exact .refl _
      · exact fun s hs => mem_singleton.mp hs ▸
          ⟨(by decide : databaseAliasAnnotation ∈ aliasAnnotations), rfl⟩
    next => cases h

theorem prepareRootDelta_added (h : prepareRootDelta t spec proof delta = .ok delta') :
    ∃ es ss, SourceAdded spec c [] [ rootAliasAnnotation] delta delta' es ss := by
  unfold prepareRootDelta at h
  split at h
  next => cases h
  next source _ =>
    split at h
    next v i hone =>
      split at h
      next name item rest hsecret =>
        replace h := skip (skip h)
        cases h
        obtain ⟨hget, hname⟩ := getElem?_of_filter_zipIdx hone
        refine ⟨[], [⟨ rootAliasAnnotation,
          spec.template.annotations.lookup rootAliasAnnotation, proof.alias⟩], ?_, .refl _, ?_, .refl _,
          .inr ⟨_, rfl, i, v, rfl, hget, of_decide_eq_true hname, hsecret⟩, ?_⟩
        · exact fun e he => (not_mem_nil he).elim
        · exact fun s hs => mem_singleton.mp hs ▸
            ⟨(by decide : rootAliasAnnotation ∈ aliasAnnotations), rfl⟩
        · rw [append_nil]
      next => cases h
    next => cases h

theorem prepareUpgradeDelta_added (h : prepareUpgradeDelta P t spec c proof delta = .ok delta') :
    ∃ es ss, SourceAdded spec c bootstrapNames.tail
      [ upgradeAliasAnnotation, upgradeProofAnnotation] delta delta' es ss := by
  unfold prepareUpgradeDelta at h
  split at h
  next => cases h
  next beforeAlias hbefore =>
    split at h
    next before source _ _ =>
      obtain ⟨es, hes, h⟩ := bind_ok h
      cases h
      obtain ⟨hrecorded, hnames⟩ := mapM_recorded (fun x e hx => upgradeEnvDelta_eq_ok hx) hes
      refine ⟨es, [⟨ upgradeAliasAnnotation, some beforeAlias, proof.alias⟩,
        ⟨ upgradeProofAnnotation, _, proof.proofDigest⟩], fun e he => (hrecorded e he).1, ?_, ?_, .refl _, .inl rfl,
        rfl⟩
      · rw [hnames]
        exact .refl _
      · refine forall_mem_cons.mpr
          ⟨⟨(by decide : upgradeAliasAnnotation ∈ aliasAnnotations), hbefore⟩, fun s hs => ?_⟩
        exact mem_singleton.mp hs ▸
          ⟨(by decide : upgradeProofAnnotation ∈ aliasAnnotations), rfl⟩
    next => cases h

theorem whenSome_added {o : Option α}
    {f : α → DeploymentDelta → Except RolloutError DeploymentDelta} {names aliases : List String}
    (hf : ∀ a, f a delta = .ok delta' →
      ∃ es ss, SourceAdded spec c names aliases delta delta' es ss)
    (h : whenSome o f delta = .ok delta') :
    ∃ es ss, SourceAdded spec c names aliases delta delta' es ss := by
  rcases whenSome_eq_ok h with ⟨-, rfl⟩ | ⟨a, -, h⟩
  · exact ⟨[], [], .refl names aliases⟩
  · exact hf a h

/-- **A bootstrap change adds inputs of its own names.** -/
theorem prepareBootstrapDelta_added {b : BootstrapChanges}
    (h : prepareBootstrapDelta P t spec c b delta = .ok delta') :
    ∃ es ss, SourceAdded spec c bootstrapNames aliasAnnotations delta delta' es ss := by
  unfold prepareBootstrapDelta at h
  replace h := skip h
  obtain ⟨delta₁, h₁, h⟩ := bind_ok h
  obtain ⟨delta₂, h₂, h₃⟩ := bind_ok h
  obtain ⟨es₁, ss₁, h₁⟩ := whenSome_added (fun _ h => prepareDatabaseDelta_added h) h₁
  obtain ⟨es₂, ss₂, h₂⟩ := whenSome_added (fun _ h => prepareRootDelta_added (c := c) h) h₂
  obtain ⟨es₃, ss₃, h₃⟩ := whenSome_added (fun _ h => prepareUpgradeDelta_added h) h₃
  exact ⟨_, _, (h₁.trans h₂).trans h₃⟩

/-- What one input of the topology is recorded as. -/
theorem topologyEnvDelta_eq_ok {ha : Bool} {before : EnvVar}
    (h : topologyEnvDelta c ha before after = .ok e) : EnvRecorded c.env e ∧ e.after = after := by
  obtain ⟨e', he', h⟩ := bind_ok h
  replace h := skip h
  cases h
  obtain ⟨hrecorded, -, hafter⟩ := envDelta_eq_ok he'
  exact ⟨hrecorded, hafter⟩

/-- An entry of the delta that sets the node identity sets it to an enrolled literal. -/
def KeepsNodeID (t : Target) (e : EnvDelta) : Prop :=
  e.name = nodeIDVariable → allowedNodeID t e.after.value = true ∧ e.after.valueFrom = none

/-- **A plan leaves the node identity an enrolled one.** Only a topology change sets it. -/
theorem planDeltas_nodeID {p : PlanData} (h : planDeltas P t p d c = .ok p')
    (hempty : p.delta = DeploymentDelta.empty ( annotation d.spec.template.annotations)) :
    ∀ e ∈ p'.delta.environment, KeepsNodeID t e := by
  unfold planDeltas at h
  obtain ⟨p₁, hp₁, h⟩ := bind_ok h
  obtain ⟨delta, hdelta, h⟩ := bind_ok h
  obtain ⟨es, as, ps, hchanges, hallowed, hp₁delta⟩ := prepareChanges_recorded hp₁
  obtain ⟨es', ss, hadded⟩ := whenSome_added (fun _ h => prepareBootstrapDelta_added h) hdelta
  have hdelta : ∀ e ∈ delta.environment, KeepsNodeID t e := by
    rw [hadded.delta_eq, hp₁delta, hempty]
    intro e he hname
    exfalso
    rcases mem_append.mp he with he | he
    · have hmem : e.name ∈ p.changes.map Change.var := by
        rw [← hchanges.environmentNames]
        exact mem_map.mpr ⟨e, he, rfl⟩
      obtain ⟨change, hchange, hvar⟩ := mem_map.mp hmem
      exact (hallowed change hchange).2 (hvar.trans hname)
    · have hmem := hadded.environmentNames.subset (mem_map.mpr ⟨e, he, rfl⟩)
      rw [hname] at hmem
      exact absurd hmem (by decide)
  rcases whenSome_eq_ok h with ⟨-, rfl⟩ | ⟨change, -, h⟩
  · exact hdelta
  · obtain ⟨ts, hvalid, hts, -, rfl⟩ := prepareTopologyDelta_eq_ok h
    obtain ⟨htopology, -⟩ := mapM_recorded (fun x e hx => topologyEnvDelta_eq_ok hx) hts
    split
    next =>
      refine forall_mem_append.mpr ⟨hdelta, fun e he hname => ?_⟩
      obtain ⟨hrecorded, hafter⟩ := htopology e he
      have hafter : e.after ∈ topologyEnvironment change.after := by
        obtain ⟨x, hx, hx'⟩ := mem_map.mp hafter
        exact hx' ▸ (of_mem_zip hx).2
      have hallowed : allowedNodeID t change.after.nodeID = true := by
        unfold validTopology at hvalid
        rw [Bool.and_eq_true] at hvalid
        exact hvalid.2
      unfold topologyEnvironment at hafter
      rcases mem_cons.mp hafter with heq | hafter
      · have hha : haVariable = nodeIDVariable := by
          rw [← hname, ← hrecorded.after, heq]
        exact absurd hha (by decide)
      · rw [mem_singleton.mp hafter]
        exact ⟨hallowed, rfl⟩
    next => exact hdelta

/-- **A plan's delta is recorded from the Deployment that was read.** -/
theorem planDeltas_recorded {p : PlanData}
    (h : planDeltas P t p d c = .ok p') (hsorted : p.changes.Pairwise fun a b => a.var ≤ b.var)
    (hempty : p.delta = DeploymentDelta.empty ( annotation d.spec.template.annotations)) :
    Recorded d.spec c p'.delta := by
  unfold planDeltas at h
  obtain ⟨p₁, hp₁, h⟩ := bind_ok h
  obtain ⟨delta, hdelta, h⟩ := bind_ok h
  obtain ⟨es, as, ps, hchanges, hallowed, hp₁delta⟩ := prepareChanges_recorded hp₁
  have hstrict := (prepareChanges_nodup hp₁ hsorted nofun).2
  have hvars : (p.changes.map Change.var).Nodup :=
    nodup_iff_pairwise_ne.mpr (pairwise_map.mpr (hstrict.imp fun h => ne_of_lt h))
  obtain ⟨after, delta₁, rfl⟩ := prepareChanges_only hp₁
  obtain ⟨es', ss, hadded⟩ := whenSome_added (fun _ h => prepareBootstrapDelta_added h) hdelta
  have hdelta₁ : delta₁ = ⟨es, as, ps, annotation d.spec.template.annotations, none, []⟩ := by
    refine hp₁delta.trans ?_
    rw [hempty]
    rfl
  subst hdelta₁
  have hflags : (p.changes.filterMap fun ch => variableFlag ch.var).Nodup := by
    have hmap : (p.changes.filterMap fun ch => variableFlag ch.var) =
        (p.changes.map Change.var).filterMap variableFlag := by rw [filterMap_map]; rfl
    rw [hmap]
    exact hvars.filterMap fun v w flag hv hw => variableFlag_inj hv hw
  have hports : (p.changes.filterMap fun ch => listenerPort ch.var).Nodup := by
    have hmap : (p.changes.filterMap fun ch => listenerPort ch.var) =
        (p.changes.map Change.var).filterMap listenerPort := by rw [filterMap_map]; rfl
    rw [hmap]
    exact hvars.filterMap fun v w port hv hw => listenerPort_inj hv hw
  have hrecorded : Recorded d.spec c delta := by
    rw [hadded.delta_eq]
    refine ⟨?_, ?_, hchanges.arguments, hflags.sublist hchanges.argumentFlags, hchanges.ports,
      hchanges.portNames ▸ hports, rfl, ?_, ?_, ?_⟩
    · exact forall_mem_append.mpr ⟨hchanges.environment, hadded.environment⟩
    · show ((es ++ es').map EnvDelta.name).Nodup
      rw [map_append, hchanges.environmentNames]
      refine hvars.append ((by decide : bootstrapNames.Nodup).sublist hadded.environmentNames)
        fun v hv hv' => ?_
      obtain ⟨change, hchange, rfl⟩ := mem_map.mp hv
      have hnot := bootstrapNames_not_allowed _ (hadded.environmentNames.subset hv')
      exact Bool.false_ne_true (hnot.symm.trans (hallowed change hchange).1)
    · intro r hr
      rcases hadded.rootSource with hnone | ⟨r', hr', hroot⟩
      · exact absurd (hnone.symm.trans hr) nofun
      · obtain rfl : r' = r := Option.some.inj (hr'.symm.trans hr)
        exact hroot
    · exact hadded.sourceAliases
    · exact (by decide : aliasAnnotations.Nodup).sublist hadded.aliasNames
  rcases whenSome_eq_ok h with ⟨-, rfl⟩ | ⟨change, -, h⟩
  · exact hrecorded
  · obtain ⟨ts, -, hts, hnone, rfl⟩ := prepareTopologyDelta_eq_ok h
    split
    next hbootstrap =>
      -- a topology change comes alone: the delta is empty so far
      obtain ⟨htopology, hnames⟩ := mapM_recorded (fun x e hx => topologyEnvDelta_eq_ok hx) hts
      rcases whenSome_eq_ok hdelta with ⟨-, rfl⟩ | ⟨b, hb, -⟩
      · have hes : es = [] := by
          have := hchanges.environmentNames
          rw [show p.changes = [] from hnone] at this
          exact map_eq_nil_iff.mp this
        subst hes
        refine { hrecorded with
          environment := fun e he => (htopology e he).1, environmentNames := ?_ }
        show (ts.map EnvDelta.name).Nodup
        rw [hnames]
        exact (by decide : [haVariable, nodeIDVariable].Nodup)
      · exact absurd (hb.symm.trans hbootstrap) nofun
    next => exact hrecorded

/-- **Preparation, taken apart.** -/
structure Prepares (P : Platform) (t : Target) (cl : Cluster) (intent : Intent)
    (changes : List Change) (bootstrap : Option BootstrapChanges)
    (topology : Option SingletonTopologyChange) (r : Record) where
  deployment : Deployment
  secrets : Secrets
  container : Container
  spec : DeploymentSpec
  deltas : PlanData
  validIntent : Rollout.validIntent intent = true
  got : get t cl = .ok (deployment, secrets)
  found : Rollout.container deployment.spec t.container = some container
  planned : planDeltas P t (initialPlan P t intent
    (changes.insertionSort fun a b => a.var ≤ b.var) bootstrap topology deployment secrets)
    deployment container = .ok deltas
  applied : applyDelta P.toDigests deployment.spec t.container deltas.delta
    (some (stampFor P deltas)) = .ok spec
  plan_eq : r.plan = { deltas with afterSpecDigest := P.digest spec }
  digest_eq : r.digest = P.digest r.plan
  fits : P.recordFits r = true

/-- **What was read is what the installation enrolled.** -/
theorem get_eq_ok {s : Secrets} (h : get t cl = .ok (d, s)) :
    cl.deployment = some d ∧ s = ⟨cl.config, cl.rollback, cl.request, cl.receipt⟩ ∧
      d.uid = t.deploymentUID ∧ d.spec.recreate = true ∧
      (d.spec.replicas = none ∨ d.spec.replicas = some 1) ∧
      (∃ c, container d.spec t.container = some c ∧ stableNodeID t c = true) ∧
      (cl.config.uid ≠ "" ∧ cl.config.immutable = false) ∧
      (cl.rollback.uid ≠ "" ∧ cl.rollback.immutable = false) ∧
      (cl.request.uid ≠ "" ∧ cl.request.immutable = false) ∧
      (cl.receipt.uid ≠ "" ∧ cl.receipt.immutable = false) := by
  unfold get at h
  split at h
  next => cases h
  next d' hd =>
    obtain ⟨huid, h⟩ := checked h
    obtain ⟨hrecreate, h⟩ := checked h
    obtain ⟨_, _, h⟩ := bind_ok h
    obtain ⟨hreplicas, h⟩ := checked h
    obtain ⟨hnode, h⟩ := checked h
    obtain ⟨hconfig, h⟩ := checked h
    obtain ⟨hrollback, h⟩ := checked h
    obtain ⟨hrequest, h⟩ := checked h
    obtain ⟨hreceipt, h⟩ := checked h
    obtain ⟨rfl, rfl⟩ := Prod.mk.inj (Except.ok.inj h)
    exact ⟨hd, rfl, huid, hrecreate, hreplicas,
      (Option.any_eq_true _ _).mp hnode,
      hconfig, hrollback,
      hrequest, hreceipt⟩

theorem changes_sorted (changes : List Change) :
    (changes.insertionSort fun a b => a.var ≤ b.var).Pairwise fun a b => a.var ≤ b.var := by
  have : Std.Total fun a b : Change => a.var ≤ b.var := ⟨fun a b => le_total a.var b.var⟩
  have : IsTrans Change fun a b => a.var ≤ b.var := ⟨fun _ _ _ h h' => le_trans h h'⟩
  exact pairwise_insertionSort _ changes

variable {intent : Intent} {bootstrap : Option BootstrapChanges}
  {topology : Option SingletonTopologyChange} {r : Record}

/-- **The delta of a prepared plan is recorded from the Deployment that was read.** -/
theorem Prepares.recorded (h : Prepares P t cl intent changes bootstrap topology r) :
    Recorded h.deployment.spec h.container h.deltas.delta :=
  planDeltas_recorded h.planned (changes_sorted changes) rfl

theorem prepare_eq_ok (h : prepare P t intent changes bootstrap topology cl = .ok r) :
    Nonempty (Prepares P t cl intent changes bootstrap topology r) := by
  unfold prepare at h
  obtain ⟨hvalid, h⟩ := checked h
  obtain ⟨⟨d, s⟩, hget, h⟩ := bind_ok h
  obtain ⟨_, _, h⟩ := bind_ok h
  dsimp only at h
  split at h
  next => cases h
  next c hc =>
    obtain ⟨_, _, h⟩ := bind_ok h
    obtain ⟨p, hp, h⟩ := bind_ok h
    obtain ⟨spec, hspec, h⟩ := bind_ok h
    obtain ⟨hfits, h⟩ := checked h
    cases h
    exact ⟨⟨d, s, c, spec, p, hvalid.1, hget, hc, hp, hspec, rfl, rfl, hfits⟩⟩

/-- What a command asks for is prepared by `prepare`. -/
theorem prepareFor_eq_ok (h : prepareFor P t intent changes bootstrap topology cl = .ok r) :
    ∃ changes', prepare P t intent changes' bootstrap topology cl = .ok r := by
  cases topology with
  | none =>
    cases bootstrap with
    | none => exact ⟨changes, h⟩
    | some b =>
      replace h := skip h
      exact ⟨changes, h⟩
  | some change =>
    cases bootstrap with
    | none =>
      replace h := skip h
      exact ⟨[], h⟩
    | some b =>
      replace h := skip (skip h)
      exact ⟨[], h⟩

theorem Prepares.plan_only (h : Prepares P t cl intent changes bootstrap topology r) :
    ∃ after delta, r.plan = { initialPlan P t intent
      (changes.insertionSort fun a b => a.var ≤ b.var) bootstrap topology h.deployment h.secrets
      with configAfter := after, delta := delta, afterSpecDigest := P.digest h.spec } := by
  obtain ⟨after, delta, hdeltas⟩ := planDeltas_only h.planned
  exact ⟨after, delta, by rw [h.plan_eq, hdeltas]⟩

/-- **A plan is for the intent it was prepared for.** -/
theorem intent_of_prepareFor (h : prepareFor P t intent changes bootstrap topology cl = .ok r) :
    r.plan.intent = intent := by
  obtain ⟨changes', h⟩ := prepareFor_eq_ok h
  obtain ⟨h⟩ := prepare_eq_ok h
  obtain ⟨after, delta, hplan⟩ := h.plan_only
  rw [hplan]
  rfl

end Hikyo.Rollout
