import Hikyo.Rollout.Stages

/-!
# Rollouts are exact and recoverable

Every program of the executor is followed through the stages of a plan, once, for any
replies of the API server. `Does` is the form of these statements: every state on the
way is `Recoverable`, a result satisfies a postcondition, and a program fails only if
`E` holds. With every reply allowed and `E` true, that is the invariant of an attempt
that may stop anywhere; with only successful replies and `E` false, it is a run to the
end.
-/

namespace Hikyo.Rollout

open Tx (ensure ensure_of ensure_of_not)

/-! ## Programs that fail only with a reason -/

/-- A result satisfies `post`; a failure has the reason `E`. -/
def Result (E : Prop) {α : Type} (post : α → Cluster → Prop) : Except RolloutError α → Cluster → Prop
  | .ok a, cl => post a cl
  | .error _, _ => E

/-- **Every state on the way satisfies `inv`**, a result satisfies `post`, and there is a
failure only if `E`. -/
def Does (E : Prop) (ok : Reply → Prop) (inv : Cluster → Prop) {α : Type} (p : Api α)
    (cl : Cluster) (post : α → Cluster → Prop) : Prop :=
  Prog.Safe (Prog.allowing execApi ok) inv (Result E post) p.run cl

variable {err : RolloutError} {q : Prop}

section Does

variable {E : Prop} {ok : Reply → Prop} {inv : Cluster → Prop} {α β : Type} {cl : Cluster}

variable {post : β → Cluster → Prop}

variable {p : Api α} {f : α → Api β}

theorem Does.bind (mid : α → Cluster → Prop) (h : Does E ok inv p cl mid)
    (hf : ∀ a cl, inv cl → mid a cl → Does E ok inv (f a) cl post) :
    Does E ok inv (p >>= f) cl post :=
  Prog.safe_except_bind h (fun _ _ _ herr => herr) hf

theorem Does.mono {post post' : α → Cluster → Prop} (h : Does E ok inv p cl post)
    (hpost : ∀ a cl, inv cl → post a cl → post' a cl) : Does E ok inv p cl post' := by
  refine Prog.Safe.mono h fun a cl hcl ha => ?_
  cases a with
  | ok a => exact hpost a cl hcl ha
  | error err => exact ha

theorem Does.pure {a : α} {post : α → Cluster → Prop} (hcl : inv cl) (ha : post a cl) :
    Does E ok inv (Pure.pure a : Api α) cl post := ⟨hcl, ha⟩

theorem Does.throw {post : α → Cluster → Prop} (hcl : inv cl) (hE : E) :
    Does E ok inv (MonadExcept.throw err : Api α) cl post := ⟨hcl, hE⟩

/-- A check that may fail. -/
theorem Does.check {r : Except RolloutError α} (hcl : inv cl) (herr : ∀ err, r = .error err → E)
    (hf : ∀ a, r = .ok a → Does E ok inv (f a) cl post) :
    Does E ok inv (Api.check r >>= f) cl post := by
  cases r with
  | error err => exact ⟨hcl, herr err rfl⟩
  | ok a => exact hf a rfl

/-- A condition that is met, or a reason. -/
theorem Does.ensure [Decidable q] {f : Unit → Api β} (hcl : inv cl) (hq : E ∨ q)
    (hf : q → Does E ok inv (f ()) cl post) :
    Does E ok inv (Api.check (Tx.ensure q err) >>= f) cl post := by
  by_cases h : q
  · rw [ensure_of h]
    exact hf h
  · rw [ensure_of_not h]
    exact ⟨hcl, hq.resolve_right h⟩

end Does

variable {P : Platform} {t : Target} {cl₀ : Cluster} {r : Record} {h : Planned P t cl₀ r}
  {E : Prop} {ok : Reply → Prop} {g : Stage} {cl : Cluster}

theorem Planned.validDigest (h : Planned P t cl₀ r) : P.validDigest r.digest = true :=
  h.digest ▸ P.validDigest_digest _

/-- An allowed reply is a success, or a reason to fail. -/
def Excuses (E : Prop) (ok : Reply → Prop) : Prop := ∀ x, ok x → x ≠ .ok → E

/-! ## Calls -/

theorem does_getCluster (hE : Excuses E ok) (hrep : Represents h g cl) (hg : g.Coherent) :
    Does E ok (Recoverable h) (getCluster t) cl (fun ds cl' => cl = cl' ∧
      cl.deployment = some ds.1 ∧ ds.2 = cl.secrets) := by
  have hcl : Recoverable h cl := ⟨g, hrep, hg⟩
  obtain ⟨d, hd, -⟩ := hrep.deployment
  refine Does.bind (fun cl' cl'' => cl = cl' ∧ cl = cl'') ⟨hcl, fun ⟨x, hx⟩ => ?_⟩ ?_
  · cases x with
    | ok => exact ⟨hcl, rfl, rfl⟩
    | lost | failed err => exact ⟨hcl, hE _ hx nofun⟩
  · rintro _ _ - ⟨rfl, rfl⟩
    rw [hrep.get hd]
    exact ⟨hcl, rfl, hd, rfl⟩

/-- What is there after a write of a Secret. -/
def Secret.put {α : Type} (s : Secret α) (a : α) : Secret α :=
  { s with version := s.version + 1, content := a }

variable {α : Type} {inv : Cluster → Prop}

/-- **What a write of a Secret comes to**: it is carried out or not, and it succeeds or there is
a reason. `upd` is the cluster with the Secret in its place. -/
theorem putSecret_does {x : Reply} {old s : Secret α}
    (upd : Secret α → Cluster) (hE : Excuses E ok) (hx : ok x) (hversion : s.version = old.version)
    (hold : inv (upd old)) (hnew : inv (upd (old.put s.content))) :
    inv (upd (putSecret old s x).2) ∧
      Result E (fun a cl' => a = old.put s.content ∧ cl' = upd a) (putSecret old s x).1
        (upd (putSecret old s x).2) := by
  have hcurrent : decide (old.version = s.version) = true := decide_eq_true hversion.symm
  cases x with
  | ok =>
    rw [putSecret_ok hversion.symm]
    exact ⟨hnew, rfl, rfl⟩
  | lost =>
    unfold putSecret
    rw [hcurrent]
    exact ⟨hnew, hE _ hx nofun⟩
  | failed err => exact ⟨hold, hE _ hx nofun⟩

theorem does_putRequest {s : Secret (Slot Record)} (hE : Excuses E ok)
    (hversion : s.version = cl.request.version) (hcl : Recoverable h cl)
    (hnew : Recoverable h { cl with request := cl.request.put s.content }) :
    Does E ok (Recoverable h) (Api.putRequest s) cl (fun s' cl' =>
      s' = cl.request.put s.content ∧ cl' = { cl with request := s' }) :=
  ⟨hcl, fun x => putSecret_does (fun s => { cl with request := s }) hE x.2 hversion hcl hnew⟩

theorem does_putRollback {s : Secret (Slot RollbackRecord)} (hE : Excuses E ok)
    (hversion : s.version = cl.rollback.version) (hcl : Recoverable h cl)
    (hnew : Recoverable h { cl with rollback := cl.rollback.put s.content }) :
    Does E ok (Recoverable h) (Api.putRollback s) cl (fun s' cl' =>
      s' = cl.rollback.put s.content ∧ cl' = { cl with rollback := s' }) :=
  ⟨hcl, fun x => putSecret_does (fun s => { cl with rollback := s }) hE x.2 hversion hcl hnew⟩

theorem does_putConfig {s : Secret ConfigContent} (hE : Excuses E ok)
    (hversion : s.version = cl.config.version) (hcl : Recoverable h cl)
    (hnew : Recoverable h { cl with config := cl.config.put s.content }) :
    Does E ok (Recoverable h) (Api.putConfig s) cl (fun s' cl' =>
      s' = cl.config.put s.content ∧ cl' = { cl with config := s' }) :=
  ⟨hcl, fun x => putSecret_does (fun s => { cl with config := s }) hE x.2 hversion hcl hnew⟩

variable {rc : Receipt}

/-- **The receipt is saved**, if it says no more than there is. -/
theorem does_saveReceipt (hE : Excuses E ok) (hrep : Represents h g cl) (hg : g.Coherent)
    (hof : rc.Of r h.before.uid) (hphase : Stage.Coherent { g with phase := some rc.phase }) :
    Does E ok (Recoverable h) (saveReceipt cl.receipt rc) cl (fun rc' cl' => rc' = rc ∧
      cl' = { cl with receipt := cl.receipt.put (.stored rc) } ∧
      Represents h { g with phase := some rc.phase } cl') := by
  have hnew : Represents h { g with phase := some rc.phase }
      { cl with receipt := cl.receipt.put (.stored rc) } := hrep.putReceipt hof
  refine Does.bind (fun s' cl' => s' = cl.receipt.put (.stored rc) ∧
    cl' = { cl with receipt := s' }) ⟨⟨g, hrep, hg⟩, fun x => ?_⟩ ?_
  · exact putSecret_does (fun s => { cl with receipt := s }) hE x.2 rfl ⟨g, hrep, hg⟩
      ⟨_, hnew, hphase⟩
  · rintro _ _ - ⟨rfl, rfl⟩
    exact ⟨⟨_, hnew, hphase⟩, rfl, rfl, hnew⟩

variable {d : Deployment}

/-- **The Deployment is written.** -/
theorem does_putDeployment {spec : DeploymentSpec} (hE : Excuses E ok)
    (hd : cl.deployment = some d) (hcl : Recoverable h cl)
    (hnew : Recoverable h { cl with deployment := some (d.written spec) }) :
    Does E ok (Recoverable h) (Api.putDeployment { d with spec := spec }) cl (fun d' cl' =>
      d' = d.written spec ∧ cl' = { cl with deployment := some d' }) := by
  refine ⟨hcl, fun ⟨x, hx⟩ => ?_⟩
  have hcurrent : (decide (d.version = d.version) && decide (d.uid = d.uid)) = true := by simp
  have hput : putDeployment cl.deployment { d with spec := spec } x =
      ((answer true d (d.written spec) x).1, some (answer true d (d.written spec) x).2) := by
    unfold Rollout.putDeployment
    rw [hd]
    dsimp only
    rw [hcurrent]
    rfl
  have hexec : execApi (.putDeployment { d with spec := spec }) x cl =
      ((answer true d (d.written spec) x).1,
        { cl with deployment := some (answer true d (d.written spec) x).2 }) := by
    show ((putDeployment cl.deployment { d with spec := spec } x).1,
      { cl with deployment := (putDeployment cl.deployment { d with spec := spec } x).2 }) = _
    rw [hput]
  have hold : { cl with deployment := some d } = cl := by rw [← hd]
  show Prog.Safe _ _ _ (.done (execApi (.putDeployment { d with spec := spec }) x cl).1)
    (execApi (.putDeployment { d with spec := spec }) x cl).2
  rw [hexec]
  cases x with
  | ok => exact ⟨hnew, rfl, rfl⟩
  | lost => exact ⟨hnew, hE _ hx nofun⟩
  | failed err => exact ⟨hold.symm ▸ hcl, hE _ hx nofun⟩

/-! ## The records of earlier plans -/

/-- **Nothing in the Secrets names the plan yet.** -/
structure NewTo (cl₀ : Cluster) (r : Record) : Prop where
  request : ∀ r', cl₀.request.content = .stored r' → r'.digest ≠ r.digest
  rollback : ∀ b, cl₀.rollback.content = .stored b → b.digest ≠ r.digest
  receipt : ∀ rc, cl₀.receipt.content = .stored rc → rc.planDigest ≠ r.digest

/-- **The slot is free for a decision**: an earlier one has come to its end, and it was not the
same one. -/
structure Free (cl₀ : Cluster) (intent : Intent) : Prop where
  slot : slotFree cl₀.secrets = true
  request : ∀ r', cl₀.request.content = .stored r' → r'.plan.intent ≠ intent
  rollback : ∀ b, cl₀.rollback.content = .stored b → b.intent ≠ intent
  receipt : ∀ rc, cl₀.receipt.content = .stored rc → rc.intent ≠ intent

theorem Slot.stored_of_decode {s : Slot α} {a : α} (h : s.decode = some a) : s = .stored a := by
  cases s with
  | absent | garbled => cases h
  | stored b => exact congrArg Slot.stored (Option.some.inj h)

variable {s : Secrets}

theorem loadRecord_eq_ok {intent : Intent} {r' : Record}
    (hload : loadRecord P t s intent = .ok r') :
    s.request.content = .stored r' ∧ r'.plan.intent = intent := by
  unfold loadRecord at hload
  split at hload
  next => cases hload
  next r₁ hr₁ =>
    split at hload
    next hvalid =>
      cases hload
      exact ⟨Slot.stored_of_decode hr₁, hvalid.1⟩
    next => cases hload

theorem Represents.request_eq (hrep : Represents h g cl) (hrequest : g.request = false) :
    cl.request = cl₀.request := (hrequest ▸ hrep.request).eq

theorem Represents.rollback_eq (hrep : Represents h g cl) (hrollback : g.rollback = false) :
    cl.rollback = cl₀.rollback := (hrollback ▸ hrep.rollback).eq

theorem Represents.receipt_eq (hrep : Represents h g cl) (hphase : g.phase = none) :
    cl.receipt = cl₀.receipt := by
  rcases hrep.receipt with ⟨-, heq⟩ | ⟨rc, hrc, -⟩
  · exact heq
  · cases hphase.symm.trans hrc

/-- Before the request is stored, nothing is. -/
theorem Stage.Coherent.untouched (hg : g.Coherent) (hrequest : g.request = false) :
    g.phase = none ∧ g.rollback = false ∧ g.moved = false ∧ g.spec = false := by
  have hno : g.request ≠ true := fun h => nomatch hrequest.symm.trans h
  have hrollback : ¬ g.rollback = true := fun h => hno (hg.rollback h)
  have hphase : g.phase = none := by
    by_contra hphase
    exact hno (hg.receipt hphase)
  exact ⟨hphase, Bool.eq_false_iff.mpr hrollback,
    Bool.eq_false_iff.mpr fun h => hrollback (hg.moved h).1,
    Bool.eq_false_iff.mpr fun h => hg.spec h hphase⟩

/-- Before the request is stored, the resources are those of the plan. -/
theorem Represents.preparedResourcesMatch (hrep : Represents h g cl) (hg : g.Coherent)
    (hrequest : g.request = false) (hd : cl.deployment = some d) :
    preparedResourcesMatch P r.plan d cl.secrets = true := by
  obtain ⟨hphase, hrollback, hmoved, hspec⟩ := hg.untouched hrequest
  obtain ⟨huid, hmetadata, hdspec⟩ := hrep.deployed hd
  rw [hspec] at hdspec
  have hconfig : cl.config.resourceVersion = cl₀.config.resourceVersion := by
    unfold Secret.resourceVersion
    rw [hrep.configUID, (hrep.unmoved hmoved).1]
  unfold Rollout.preparedResourcesMatch
  rw [h.resources, h.beforeSpec, h.beforeMetadata]
  simp only [Bool.and_eq_true, decide_eq_true_eq]
  refine ⟨⟨⟨huid, ?_⟩, ?_⟩, ?_⟩
  · unfold resources Cluster.secrets Deployment.resourceVersion
    dsimp only
    rw [hconfig, hrep.rollback_eq hrollback, hrep.request_eq hrequest, hrep.receipt_eq hphase, huid]
  · rw [hdspec]
    rfl
  · unfold deploymentMetadataDigest
    rw [huid, hmetadata]

/-! ## Submitting -/

variable {plan : Option Record}

theorem submitRecord_does (hE : Excuses E ok) (hnew : NewTo cl₀ r)
    (hplan : plan = some r ∨ plan = none) (hfree : E ∨ Free cl₀ r.plan.intent ∧ plan = some r)
    (hrep : Represents h g cl) (hg : g.Coherent) (hd : cl.deployment = some d) :
    Does E ok (Recoverable h) (submitRecord P t r.plan.intent r.digest plan d cl.secrets) cl
      (fun rs cl' => rs = (r, cl'.secrets) ∧ cl'.deployment = some d ∧
        Represents h { g with request := true } cl') := by
  have hcl : Recoverable h cl := ⟨g, hrep, hg⟩
  unfold submitRecord
  cases hrequest : g.request with
  | true =>
    rw [hrep.loadRecord hrequest]
    have hsame : g = { g with request := true } := by rw [← hrequest]
    refine Does.ensure hcl (.inr rfl) fun _ => Does.ensure hcl (.inr ?_) fun _ => ?_
    · intro p hp
      rcases hplan with rfl | rfl
      · rw [Option.some.inj (Option.mem_def.mp hp)]
      · cases hp
    · exact Does.pure hcl ⟨rfl, hd, hsame ▸ hrep⟩
  | false =>
    obtain ⟨hphase, hrollback, -, -⟩ := hg.untouched hrequest
    have hsecrets : cl.secrets.request.content = cl₀.request.content := by
      show cl.request.content = _
      rw [hrep.request_eq hrequest]
    cases hload : loadRecord P t cl.secrets r.plan.intent with
    | ok r' =>
      obtain ⟨hstored, hintent⟩ := loadRecord_eq_ok hload
      rw [hsecrets] at hstored
      refine Does.ensure hcl ?_ fun hdigest => absurd hdigest (hnew.request r' hstored)
      exact hfree.imp_right fun hfree => absurd hintent (hfree.1.request r' hstored)
    | error err =>
      rcases hplan with rfl | rfl
      · refine Does.ensure hcl (.inr ⟨rfl, h.target, h.digest, rfl⟩) fun _ => ?_
        refine Does.ensure hcl (hfree.imp_right fun hfree => ?_) fun _ => ?_
        · have hslot : slotFree cl.secrets = slotFree cl₀.secrets := by
            unfold slotFree Cluster.secrets
            dsimp only
            rw [hrep.request_eq hrequest, hrep.receipt_eq hphase]
          exact hslot.trans hfree.1.slot
        refine Does.ensure hcl (.inr (hrep.preparedResourcesMatch hg hrequest hd)) fun _ => ?_
        have hslotOf : slotOf P r = .stored r := if_pos h.fits
        have hnext : Represents h { g with request := true }
            { cl with request := cl.request.put (.stored r) } := hrep.putRequest
        rw [hslotOf]
        refine Does.bind _ (does_putRequest hE rfl hcl ⟨_, hnext, hg.toRequest⟩) ?_
        rintro _ _ hcl' ⟨rfl, rfl⟩
        exact Does.pure hcl' ⟨rfl, hd, hnext⟩
      · refine Does.throw hcl (hfree.resolve_right fun hfree => nomatch hfree.2)

theorem submitRollback_does (hE : Excuses E ok) (hnew : NewTo cl₀ r)
    (hfree : E ∨ g.rollback = true ∨ Free cl₀ r.plan.intent) (hrep : Represents h g cl)
    (hg : g.Coherent) (hrequest : g.request = true) :
    Does E ok (Recoverable h) (submitRollback P r cl.secrets) cl (fun s' cl' =>
      s' = cl'.secrets ∧ cl'.deployment = cl.deployment ∧
        Represents h { g with rollback := true } cl') := by
  have hcl : Recoverable h cl := ⟨g, hrep, hg⟩
  unfold submitRollback
  rw [show cl.secrets.rollback = cl.rollback from rfl]
  cases hrollback : g.rollback with
  | true =>
    have hsame : g = { g with rollback := true } := by rw [← hrollback]
    have hfilter : (Slot.stored (rollbackRecord r)).decode.filter
        (fun saved => saved.intent = r.plan.intent) = some (rollbackRecord r) :=
      Option.filter_eq_some_iff.mpr ⟨rfl, decide_eq_true rfl⟩
    rw [hrep.rollbackContent hrollback, hfilter]
    exact Does.ensure hcl (.inr rfl) fun _ => Does.pure hcl ⟨rfl, rfl, hsame ▸ hrep⟩
  | false =>
    have heq := hrep.rollback_eq hrollback
    cases hsaved : cl.rollback.content.decode.filter (fun saved => saved.intent = r.plan.intent) with
    | some saved =>
      obtain ⟨hdecode, hintent⟩ := Option.filter_eq_some_iff.mp hsaved
      have hstored := Slot.stored_of_decode hdecode
      rw [heq] at hstored
      refine Does.ensure hcl ?_ fun hdigest => ?_
      · rcases hfree with hfree | hfree | hfree
        · exact .inl hfree
        · cases hrollback.symm.trans hfree
        · exact absurd (of_decide_eq_true hintent) (hfree.rollback saved hstored)
      · have hsame : saved = rollbackRecord r := P.digest_inj.mp hdigest
        exact absurd (congrArg RollbackRecord.digest hsame) (hnew.rollback saved hstored)
    | none =>
      have hnext : Represents h { g with rollback := true }
          { cl with rollback := cl.rollback.put (.stored (rollbackRecord r)) } := hrep.putRollback
      have hversion : cl.secrets.rollback.resourceVersion = r.plan.resources.rollback := by
        rw [h.resources]
        show cl.rollback.resourceVersion = cl₀.rollback.resourceVersion
        rw [heq]
      refine Does.ensure hcl (.inr hversion) fun _ => ?_
      refine Does.bind _ (does_putRollback hE rfl hcl ⟨_, hnext, hg.toRollback hrequest⟩) ?_
      rintro _ _ hcl' ⟨rfl, rfl⟩
      exact Does.pure hcl' ⟨rfl, rfl, hnext⟩

/-- A phase in which a submission goes on. -/
def Phase.pending (p : Phase) : Prop := p ≠ .restoring ∧ p ≠ .restored ∧ p ≠ .applied

variable {p : Phase}

/-- What is stored of the plan is found to be pending. -/
theorem Represents.checkPending (hrep : Represents h g cl) (hg : g.Coherent)
    (hphase : g.phase = some p) (hp : p.pending) :
    checkPending P t cl.secrets r.plan.intent r.digest = .ok () := by
  obtain ⟨rc, rfl, hof, -, -, hown⟩ := hrep.ownReceipt hphase
  unfold Rollout.checkPending
  rw [hrep.loadRecord (hg.receipt (by simp [hphase])), hown]
  have hall : r.digest = r.digest ∧ rc.planDigest = r.digest ∧ rc.phase ≠ .restoring ∧
      rc.phase ≠ .restored ∧ rc.phase ≠ .applied := ⟨rfl, hof.planDigest, hp⟩
  exact ensure_of hall _

section

variable (hE : Excuses E ok) (hrep : Represents h g cl) (hg : g.Coherent)

include hE hrep hg

theorem submitConfig_does (hphase : g.phase = some p) (hp : p.pending) :
    Does E ok (Recoverable h) (submitConfig P r cl.secrets) cl (fun s' cl' =>
      s' = cl'.secrets ∧ ∃ moved, Represents h { g with moved := moved, config := true } cl') := by
  have hcl : Recoverable h cl := ⟨g, hrep, hg⟩
  unfold submitConfig
  dsimp only
  split
  next hplanned =>
    exact Does.pure hcl ⟨rfl, g.moved, hrep.asPlanned (hrep.config_planned hplanned.1 hplanned.2)⟩
  next hnot =>
    -- it is not as planned, so it has not been written yet
    have hconfig : g.config = false := by
      refine Bool.eq_false_iff.mpr fun hconfig => hnot ?_
      have hcontent := hrep.config
      rw [hconfig] at hcontent
      show cl.config.content.data = _ ∧ annotation cl.config.content.annotations = _
      rw [hcontent]
      exact ⟨rfl, lookup_setAnnotation_self⟩
    have hmoved : g.moved = false := by
      refine Bool.eq_false_iff.mpr fun hmoved => ?_
      rcases hg.back hmoved hconfig with hback | hback
      · exact hp.1 (Option.some.inj (hphase.symm.trans hback))
      · exact hp.2.1 (Option.some.inj (hphase.symm.trans hback))
    have hcontent : cl.config.content = cl₀.config.content := by
      have hcontent := hrep.config
      rw [hconfig] at hcontent
      exact hcontent
    have hbefore : cl.config.content.data = r.plan.configBefore ∧
        cl.config.resourceVersion = r.plan.resources.config := by
      refine ⟨by rw [hcontent, h.configBefore], ?_⟩
      rw [h.resources]
      unfold Secret.resourceVersion
      rw [hrep.configUID, (hrep.unmoved hmoved).1]
      rfl
    refine Does.ensure hcl (.inr hbefore) fun _ => ?_
    let content : ConfigContent :=
      ⟨setStamp cl.config.content.annotations (some (stampFor P r.plan)), r.plan.configAfter⟩
    have hnext : Represents h { g with moved := true, config := true }
        { cl with config := cl.config.put content } := by
      refine hrep.putConfig ?_
      show (⟨setStamp cl.config.content.annotations (some (stampFor P r.plan)),
        r.plan.configAfter⟩ : ConfigContent) = _
      rw [hcontent]
      rfl
    refine Does.bind _ (does_putConfig hE rfl hcl ⟨_, hnext, hg.toConfig hphase hp.2.1 true⟩) ?_
    rintro _ _ hcl' ⟨rfl, rfl⟩
    exact Does.pure hcl' ⟨rfl, true, hnext⟩

theorem submitDeployment_does (hphase : g.phase = some p) (hp : p ≠ .restored)
    (hprepared : p ≠ .prepared) (hd : cl.deployment = some d) :
    Does E ok (Recoverable h) (submitDeployment P t r d) cl (fun d' cl' =>
      cl'.deployment = some d' ∧ cl'.secrets = cl.secrets ∧
        Represents h { g with spec := true } cl') := by
  have hcl : Recoverable h cl := ⟨g, hrep, hg⟩
  obtain ⟨huid, hmetadata, hspec⟩ := hrep.deployed hd
  unfold submitDeployment
  split
  next hafter =>
    rw [h.afterSpec, P.digest_inj] at hafter
    exact Does.pure hcl ⟨hd, rfl, hrep.withSpec true hd hafter⟩
  next hnot =>
    have hbefore : d.spec = h.before.spec := by
      cases hg' : g.spec with
      | true =>
        rw [hg'] at hspec
        exact absurd (by rw [h.afterSpec, hspec]; rfl) hnot
      | false =>
        rw [hg'] at hspec
        exact hspec
    have hmeta : deploymentMetadataDigest P d = r.plan.beforeMetadataDigest := by
      rw [h.beforeMetadata]
      unfold deploymentMetadataDigest
      rw [huid, hmetadata]
    refine Does.ensure hcl (.inr (by rw [h.beforeSpec, hbefore])) fun _ => ?_
    refine Does.ensure hcl (.inr hmeta) fun _ => ?_
    rw [hbefore, h.applied]
    refine Does.check hcl (by simp) fun spec hspec => ?_
    cases hspec
    refine Does.ensure hcl (.inr h.afterSpec.symm) fun _ => ?_
    have hnext : Represents h { g with spec := true }
        { cl with deployment := some (d.written h.after) } := hrep.putDeployment true hd rfl
    refine (does_putDeployment hE hd hcl ⟨_, hnext, hg.toSpec hphase hp hprepared⟩).mono ?_
    rintro _ _ - ⟨rfl, rfl⟩
    exact ⟨rfl, rfl, hnext⟩

/-- **The inputs are written**: the configuration Secret, then the Deployment, and the receipt
after each of them. -/
theorem submitInputs_does
    (hphase : g.phase = some rc.phase) (hof : rc.Of r h.before.uid) (hp : rc.phase.pending) :
    Does E ok (Recoverable h) (submitInputs P t r rc cl.secrets) cl (fun rc' _ =>
      rc'.phase = .rolloutRequested) := by
  have hcl : Recoverable h cl := ⟨g, hrep, hg⟩
  have hrequest : g.request = true := hg.receipt (by simp [hphase])
  have hrollback : g.rollback = true := hg.kept _ hphase hp.2.1
  unfold submitInputs
  rw [hrep.checkPending hg hphase hp]
  refine Does.check hcl (by simp) fun _ _ => ?_
  refine Does.bind _ (submitConfig_does hE hrep hg hphase hp) ?_
  rintro _ cl₁ hcl₁ ⟨rfl, moved, hrep₁⟩
  have hg₁ := hg.toConfig hphase hp.2.1 moved
  have hof₁ : Receipt.Of r h.before.uid { rc with
      phase := .configWritten
      resources := { rc.resources with config := cl₁.secrets.config.resourceVersion } } :=
    ⟨hof.intent, hof.planDigest, hof.deploymentUID, by simp⟩
  have hg₂ : Stage.Coherent { g with moved := moved, config := true, phase := some .configWritten } :=
    hg₁.toPhase hrequest (fun _ => hrollback) nofun (fun _ => rfl)
      (fun h => by simp at h) nofun nofun
  refine Does.bind _ (does_saveReceipt hE hrep₁ hg₁ hof₁ hg₂) ?_
  rintro _ cl₂ hcl₂ ⟨-, -, hrep₂⟩
  refine Does.bind _ (does_getCluster hE hrep₂ hg₂) ?_
  rintro ⟨d, _⟩ _ - ⟨rfl, hd, rfl⟩
  refine Does.ensure hcl₂ (.inr (hrep₂.compatibleUIDs hd)) fun _ => ?_
  rw [hrep₂.checkPending (p := .configWritten) hg₂ rfl ⟨by decide, by decide, by decide⟩]
  refine Does.check hcl₂ nofun fun _ _ => ?_
  refine Does.bind _ (submitDeployment_does (p := .configWritten) hE hrep₂ hg₂ rfl (by decide)
    (by decide) hd) ?_
  rintro d' cl₃ - ⟨-, hsecrets, hrep₃⟩
  have hg₃ := hg₂.toSpec (p := .configWritten) rfl (by decide) (by decide)
  have hreceipt : cl₂.secrets.receipt = cl₃.receipt := (congrArg Secrets.receipt hsecrets).symm
  rw [hreceipt]
  refine (does_saveReceipt hE hrep₃ hg₃ ?_ ?_).mono ?_
  · exact ⟨hof.intent, hof.planDigest, hof.deploymentUID, by simp⟩
  · exact hg₃.toPhase hrequest (fun _ => hrollback) nofun nofun
      (fun _ => ⟨rfl, rfl⟩) nofun nofun
  · rintro _ _ - ⟨rfl, -⟩
    rfl

end

/-- A submission that goes on with the receipt that is there, or with a new one. -/
theorem submitStored_does (hE : Excuses E ok) (hnew : NewTo cl₀ r)
    (hfree : E ∨ Free cl₀ r.plan.intent)
    (hpending : E ∨ ∀ p, g.phase = some p → p ≠ .restoring ∧ p ≠ .restored)
    (hrep : Represents h g cl) (hg : g.Coherent) (hrequest : g.request = true)
    (hd : cl.deployment = some d) :
    Does E ok (Recoverable h) (submitStored P t r d cl.secrets) cl (fun rc _ =>
      rc.phase = .rolloutRequested ∨ rc.phase = .applied) := by
  have hcl : Recoverable h cl := ⟨g, hrep, hg⟩
  have huid : d.uid = h.before.uid := by
    have huid := (hrep.deployed hd).1
    exact huid
  unfold submitStored
  refine Does.ensure hcl (.inr (hrep.compatibleUIDs hd)) fun _ => ?_
  cases hphase : g.phase with
  | some p =>
    obtain ⟨rc, rfl, hof, -, -, hown⟩ := hrep.ownReceipt hphase
    rw [hown]
    refine Does.ensure hcl (.inr hof.planDigest) fun _ => ?_
    refine Does.ensure hcl (hpending.imp_right fun hp => hp _ hphase) fun hrestore => ?_
    split
    next happlied => exact Does.pure hcl (.inr happlied)
    next happlied =>
      have hp : rc.phase.pending := ⟨hrestore.1, hrestore.2, happlied⟩
      have hrollback : g.rollback = true := hg.kept _ hphase hrestore.2
      have hsame : g = { g with rollback := true } := by rw [← hrollback]
      refine Does.bind _ (submitRollback_does hE hnew (.inr (.inl hrollback)) hrep hg hrequest) ?_
      rintro _ cl₁ hcl₁ ⟨rfl, -, hrep₁⟩
      rw [← hsame] at hrep₁
      split
      next hprepared =>
        have hspec := hg.prepared (hprepared ▸ hphase)
        have hg₁ : Stage.Coherent { g with phase := some rc.phase } := by
          rw [← hphase]
          exact hg
        refine Does.bind _ (does_saveReceipt hE hrep₁ hg hof hg₁) ?_
        rintro _ cl₂ - ⟨-, -, hrep₂⟩
        refine Does.bind _ (does_getCluster hE hrep₂ hg₁) ?_
        rintro ⟨_, _⟩ _ - ⟨rfl, -, rfl⟩
        exact (submitInputs_does hE hrep₂ hg₁ rfl hof hp).mono fun _ _ _ h => .inl h
      next =>
        exact (submitInputs_does hE hrep₁ hg hphase hof hp).mono fun _ _ _ h => .inl h
  | none =>
    have hreceipt := hrep.receipt_eq hphase
    cases hown : ownReceipt cl.secrets r.plan.intent with
    | some rc =>
      -- a receipt of the same intent, and of another plan
      obtain ⟨hdecode, hintent⟩ := Option.filter_eq_some_iff.mp hown
      have hstored : cl₀.receipt.content = .stored rc :=
        hreceipt ▸ Slot.stored_of_decode hdecode
      refine Does.ensure hcl (hfree.imp_right fun hfree => ?_) fun hdigest => ?_
      · exact absurd (of_decide_eq_true hintent) (hfree.receipt rc hstored)
      · exact absurd hdigest (hnew.receipt rc hstored)
    | none =>
      refine Does.bind _ (submitRollback_does hE hnew (hfree.imp_right .inr) hrep hg hrequest) ?_
      rintro _ cl₁ hcl₁ ⟨rfl, -, hrep₁⟩
      have hg₁ := hg.toRollback hrequest
      have hspec : g.spec = false := Bool.eq_false_iff.mpr fun h => hg.spec h hphase
      have hmoved : g.moved ≠ true := fun h => (hg.moved h).2 hphase
      have hof : Receipt.Of r h.before.uid
          ⟨r.plan.intent, r.digest, d.uid, .prepared, r.plan.resources, false⟩ :=
        ⟨rfl, rfl, huid, nofun⟩
      have hg₂ : Stage.Coherent { g with rollback := true, phase := some .prepared } :=
        hg₁.toPhase hrequest (fun _ => rfl) (fun _ => hspec) nofun
          (fun h => by simp at h) nofun (fun h => absurd h hmoved)
      refine Does.bind _ (does_saveReceipt hE hrep₁ hg₁ hof hg₂) ?_
      rintro _ cl₂ - ⟨-, -, hrep₂⟩
      refine Does.bind _ (does_getCluster hE hrep₂ hg₂) ?_
      rintro ⟨_, _⟩ _ - ⟨rfl, -, rfl⟩
      refine (submitInputs_does hE hrep₂ hg₂ rfl hof ?_).mono fun _ _ _ h => .inl h
      exact ⟨nofun, nofun, nofun⟩

/-- **A submission.** -/
theorem submit_does (hE : Excuses E ok) (hnew : NewTo cl₀ r)
    (hplan : plan = some r ∨ plan = none) (hfree : E ∨ Free cl₀ r.plan.intent ∧ plan = some r)
    (hpending : E ∨ ∀ p, g.phase = some p → p ≠ .restoring ∧ p ≠ .restored)
    (hrep : Represents h g cl) (hg : g.Coherent) :
    Does E ok (Recoverable h) (submit P t r.plan.intent r.digest plan) cl (fun rc _ =>
      rc.phase = .rolloutRequested ∨ rc.phase = .applied) := by
  have hcl : Recoverable h cl := ⟨g, hrep, hg⟩
  have hdigest := h.validDigest
  refine Does.ensure hcl (.inr ⟨h.intended, hdigest⟩) fun _ => ?_
  refine Does.bind _ (does_getCluster hE hrep hg) ?_
  rintro ⟨d, _⟩ _ - ⟨rfl, hd, rfl⟩
  refine Does.bind _ (submitRecord_does hE hnew hplan hfree hrep hg hd) ?_
  rintro _ cl₁ - ⟨rfl, hd₁, hrep₁⟩
  exact submitStored_does (g := { g with request := true }) hE hnew (hfree.imp_right And.left)
    hpending hrep₁ hg.toRequest rfl hd₁

/-! ## Observing -/

/-- The stored plan, as an observation or a restore finds it: it is this one, or there is a
reason to fail. -/
theorem does_loadRecord {f : Record → Api α} {post : α → Cluster → Prop} (hnew : NewTo cl₀ r)
    (hrep : Represents h g cl) (hg : g.Coherent) (hrequest : E ∨ g.request = true)
    (hf : g.request = true → Does E ok (Recoverable h) (f r) cl post) :
    Does E ok (Recoverable h) (Api.check (loadRecord P t cl.secrets r.plan.intent) >>= fun r' =>
      Api.check (ensure (r'.digest = r.digest) .conflict) >>= fun _ => f r') cl post := by
  have hcl : Recoverable h cl := ⟨g, hrep, hg⟩
  cases hown : g.request with
  | true =>
    rw [hrep.loadRecord hown]
    refine Does.check hcl (by simp) fun r' hr' => ?_
    obtain rfl := Except.ok.inj hr'
    exact Does.ensure hcl (.inr rfl) fun _ => hf hown
  | false =>
    have hreason : E := hrequest.resolve_right fun h => nomatch hown.symm.trans h
    refine Does.check hcl (fun _ _ => hreason) fun r' hr' => ?_
    refine Does.ensure hcl (.inl hreason) fun hdigest => ?_
    obtain ⟨hstored, -⟩ := loadRecord_eq_ok hr'
    have heq : cl.secrets.request = cl₀.request := hrep.request_eq hown
    rw [heq] at hstored
    exact absurd hdigest (hnew.request r' hstored)

/-- The receipt, likewise. -/
theorem ownReceipt_filter (hnew : NewTo cl₀ r) (hrep : Represents h g cl) :
    (g.phase = none ∧ (ownReceipt cl.secrets r.plan.intent).filter
        (fun receipt => receipt.planDigest = r.digest) = none) ∨
      ∃ rc : Receipt, g.phase = some rc.phase ∧ rc.Of r h.before.uid ∧
        (ownReceipt cl.secrets r.plan.intent).filter
          (fun receipt => receipt.planDigest = r.digest) = some rc := by
  cases hphase : g.phase with
  | none =>
    refine .inl ⟨rfl, ?_⟩
    rw [Option.filter_eq_none_iff]
    intro rc hrc hdigest
    obtain ⟨hdecode, -⟩ := Option.filter_eq_some_iff.mp hrc
    have heq : cl.secrets.receipt = cl₀.receipt := hrep.receipt_eq hphase
    rw [heq] at hdecode
    exact hnew.receipt rc (Slot.stored_of_decode hdecode) (of_decide_eq_true hdigest)
  | some p =>
    obtain ⟨rc, rfl, hof, -, -, hown⟩ := hrep.ownReceipt hphase
    refine .inr ⟨rc, rfl, hof, ?_⟩
    rw [hown]
    exact Option.filter_eq_some_iff.mpr ⟨rfl, decide_eq_true hof.planDigest⟩

/-- **An observation.** It fails as it likes, and writes nothing but a receipt that is true. -/
theorem observe_does {ack : Option ApplicationAcknowledgement} (hnew : NewTo cl₀ r)
    (hrep : Represents h g cl) (hg : g.Coherent) :
    Does True ok (Recoverable h) (observe P t r.plan.intent r.digest ack) cl
      (fun _ _ => True) := by
  have hE : Excuses True ok := fun _ _ _ => trivial
  have hcl : Recoverable h cl := ⟨g, hrep, hg⟩
  refine Does.ensure hcl (.inl trivial) fun _ => ?_
  refine Does.bind _ (does_getCluster hE hrep hg) ?_
  rintro ⟨d, _⟩ _ - ⟨rfl, hd, rfl⟩
  refine does_loadRecord hnew hrep hg (.inl trivial) fun hrequest => ?_
  refine Does.ensure hcl (.inl trivial) fun _ => ?_
  rcases ownReceipt_filter hnew hrep with ⟨-, hnone⟩ | ⟨rc, hphase, hof, hsome⟩
  · rw [hnone]
    exact Does.throw hcl trivial
  · rw [hsome]
    dsimp only
    split_ifs with hback hwaiting
    · exact Does.pure hcl trivial
    · exact Does.ensure hcl (.inl trivial) fun _ => Does.pure hcl trivial
    · exact Does.ensure hcl (.inl trivial) fun _ => Does.pure hcl trivial
    · refine Does.ensure hcl (.inl trivial) fun hplanned => ?_
      -- both are as planned, and the receipt may say so
      obtain ⟨hspec, hdata, hstamp⟩ := hplanned
      rw [h.afterSpec, P.digest_inj] at hspec
      have hnot : rc.phase ≠ .restored := fun h => hback (.inr h)
      have hrollback := hg.kept _ hphase hnot
      have hprepared : rc.phase ≠ .prepared := by
        intro hprepared
        have hdspec := (hrep.deployed hd).2.2
        rw [hg.prepared (hprepared ▸ hphase)] at hdspec
        refine hwaiting ⟨.inl hprepared, ?_, .inr hdata⟩
        rw [h.beforeSpec, hdspec]
        rfl
      have hrep₁ := (hrep.asPlanned (hrep.config_planned hdata hstamp)).withSpec true hd hspec
      have hg₁ : Stage.Coherent { g with config := true, spec := true } :=
        (hg.toConfig hphase hnot g.moved).toSpec hphase hnot hprepared
      have hg₂ : ∀ p : Phase, p = .rolloutReady ∨ p = .applied →
          Stage.Coherent { g with config := true, spec := true, phase := some p } := by
        intro p hp
        refine hg₁.toPhase hrequest (fun _ => hrollback) ?_ (fun _ => rfl) (fun _ => ⟨rfl, rfl⟩)
          ?_ (by simp)
        · rintro rfl
          simp at hp
        · rintro rfl
          simp at hp
      cases ack with
      | none =>
        refine (does_saveReceipt hE hrep₁ hg₁ ?_ (hg₂ _ (.inl rfl))).mono fun _ _ _ _ => trivial
        exact ⟨hof.intent, hof.planDigest, hof.deploymentUID, by simp⟩
      | some ack =>
        refine Does.ensure hcl (.inl trivial) fun _ => ?_
        refine (does_saveReceipt hE hrep₁ hg₁ ?_ (hg₂ _ (.inr rfl))).mono fun _ _ _ _ => trivial
        exact ⟨hof.intent, hof.planDigest, hof.deploymentUID, by simp⟩

/-! ## Restoring -/

theorem restoreConfig_does (hE : Excuses E ok) (hrep : Represents h g cl) (hg : g.Coherent)
    (hphase : g.phase = some .restoring) (hs : s.config = cl.config) :
    Does E ok (Recoverable h) (restoreConfig P r s) cl (fun _ cl' =>
      cl'.deployment = cl.deployment ∧
        ∃ moved, Represents h { g with moved := moved, config := false } cl') := by
  have hcl : Recoverable h cl := ⟨g, hrep, hg⟩
  unfold restoreConfig
  dsimp only
  rw [hs]
  split
  next hbefore =>
    refine Does.pure hcl ⟨rfl, g.moved, hrep.asBefore ?_⟩
    exact hrep.config_before hbefore.1 (P.digest_inj.mp hbefore.2)
  next hnot =>
    have hcontent : cl.config.content = plannedConfig P cl₀ r := by
      have hcontent := hrep.config
      split at hcontent
      · exact hcontent
      · refine absurd ?_ hnot
        rw [hcontent, h.configBefore, h.configBeforeStamp]
        exact ⟨rfl, rfl⟩
    let content : ConfigContent :=
      ⟨setStamp cl.config.content.annotations r.plan.configBeforeStamp, r.plan.configBefore⟩
    have hnext : Represents h { g with moved := true, config := false }
        { cl with config := cl.config.put content } := by
      refine hrep.putConfig ?_
      show (⟨setStamp cl.config.content.annotations r.plan.configBeforeStamp,
        r.plan.configBefore⟩ : ConfigContent) = _
      rw [hcontent]
      exact h.config_restored
    refine Does.bind _ (does_putConfig hE rfl hcl ⟨_, hnext, hg.backConfig hphase true⟩) ?_
    rintro _ _ hcl' ⟨rfl, rfl⟩
    exact Does.pure hcl' ⟨rfl, true, hnext⟩

theorem restoreDeployment_does (hE : Excuses E ok) (hrep : Represents h g cl)
    (hg : g.Coherent) (hphase : g.phase = some .restoring) (hd : cl.deployment = some d) :
    Does E ok (Recoverable h) (restoreDeployment P t r d) cl (fun _ cl' =>
      Represents h { g with spec := false } cl') := by
  have hcl : Recoverable h cl := ⟨g, hrep, hg⟩
  obtain ⟨huid, hmetadata, hspec⟩ := hrep.deployed hd
  unfold restoreDeployment
  split
  next hbefore =>
    rw [h.beforeSpec, P.digest_inj] at hbefore
    exact Does.pure hcl (hrep.withSpec false hd hbefore)
  next hnot =>
    have hafter : d.spec = h.after := by
      split at hspec
      · exact hspec
      · exact absurd (by rw [h.beforeSpec, hspec]) hnot
    rw [hafter, h.reverted]
    refine Does.check hcl (by simp) fun spec hspec => ?_
    cases hspec
    refine Does.ensure hcl (.inr h.beforeSpec.symm) fun _ => ?_
    have hnext : Represents h { g with spec := false }
        { cl with deployment := some (d.written h.before.spec) } :=
      hrep.putDeployment false hd rfl
    refine (does_putDeployment hE hd hcl ⟨_, hnext, hg.backSpec hphase⟩).mono ?_
    rintro _ _ - ⟨rfl, rfl⟩
    exact hnext

/-- **The cluster is as it was at preparation**: the contents of the configuration Secret and
the specification of the Deployment. -/
def AsBefore (h : Planned P t cl₀ r) (cl : Cluster) : Prop :=
  cl.config.content = cl₀.config.content ∧ ∃ d, cl.deployment = some d ∧ d.spec = h.before.spec

theorem Represents.asBefore_of (hrep : Represents h g cl) (hconfig : g.config = false)
    (hspec : g.spec = false) : AsBefore h cl := by
  refine ⟨?_, ?_⟩
  · have hcontent := hrep.config
    rw [hconfig] at hcontent
    exact hcontent
  · obtain ⟨d, hd, -, -, hd'⟩ := hrep.deployment
    rw [hspec] at hd'
    exact ⟨d, hd, hd'⟩

/-- **A restore.** -/
theorem restore_does (hE : Excuses E ok) (hnew : NewTo cl₀ r) (hrep : Represents h g cl)
    (hg : g.Coherent) (hstored : E ∨ g.rollback = true ∧ g.phase ≠ none) :
    Does E ok (Recoverable h) (restore P t r.plan.intent r.digest) cl (fun rc cl' =>
      rc.phase = .restored ∧ AsBefore h cl') := by
  have hcl : Recoverable h cl := ⟨g, hrep, hg⟩
  have hdigest := h.validDigest
  refine Does.ensure hcl (.inr hdigest) fun _ => ?_
  refine Does.bind _ (does_getCluster hE hrep hg) ?_
  rintro ⟨d, _⟩ _ - ⟨rfl, hd, rfl⟩
  refine does_loadRecord hnew hrep hg (hstored.imp_right fun h => hg.receipt h.2)
    fun hrequest => ?_
  refine Does.ensure hcl (.inr (hrep.compatibleUIDs hd)) fun _ => ?_
  refine Does.ensure hcl (hstored.imp_right fun hstored => ?_) fun hsaved => ?_
  · show (cl.rollback.content.decode.any _) = true
    rw [hrep.rollbackContent hstored.1]
    refine (Option.any_eq_true _ _).mpr ⟨rollbackRecord r, rfl, ?_⟩
    simp [rollbackRecord]
  have hrollback : g.rollback = true := by
    by_contra hnot
    obtain ⟨b, hb, hmatch⟩ := (Option.any_eq_true _ _).mp hsaved
    have heq : cl.secrets.rollback = cl₀.rollback := hrep.rollback_eq (Bool.eq_false_iff.mpr hnot)
    rw [heq] at hb
    simp only [Bool.and_eq_true, decide_eq_true_eq] at hmatch
    exact hnew.rollback b (Slot.stored_of_decode hb) hmatch.1.1.1
  rcases ownReceipt_filter hnew hrep with ⟨hphase, hnone⟩ | ⟨rc, hphase, hof, hsome⟩
  · rw [hnone]
    exact Does.throw hcl (hstored.resolve_right fun hstored => hstored.2 hphase)
  rw [hsome]
  dsimp only
  have hspec := (hrep.deployed hd).2.2
  refine Does.ensure hcl (.inr ?_) fun _ => Does.ensure hcl (.inr ?_) fun _ => ?_
  · rw [h.afterSpec, h.beforeSpec, P.digest_inj, P.digest_inj, hspec]
    split
    · exact .inl rfl
    · exact .inr rfl
  · show cl.config.content.data = _ ∨ cl.config.content.data = _
    rw [hrep.config, h.configBefore]
    split
    · exact .inl rfl
    · exact .inr rfl
  have hof₁ : Receipt.Of r h.before.uid
      { rc with phase := .restoring, applicationAcknowledged := false } :=
    ⟨hof.intent, hof.planDigest, hof.deploymentUID, by simp⟩
  have hg₁ : Stage.Coherent { g with phase := some .restoring } :=
    hg.toPhase hrequest (fun _ => hrollback) (by simp) (by simp)
      (by simp) (by simp) (fun _ _ => .inl rfl)
  refine Does.bind _ (does_saveReceipt hE hrep hg hof₁ hg₁) ?_
  rintro _ cl₁ - ⟨-, hcl₁, hrep₁⟩
  refine Does.bind _ (restoreConfig_does hE hrep₁ hg₁ rfl (by rw [hcl₁]; rfl)) ?_
  rintro _ cl₂ - ⟨hd₂, moved, hrep₂⟩
  have hg₂ := hg₁.backConfig rfl moved
  have hdeployment : cl₂.deployment = some d := by
    rw [hd₂, hcl₁]
    exact hd
  refine Does.bind _ (restoreDeployment_does hE hrep₂ hg₂ rfl hdeployment) ?_
  rintro d'' cl₃ - hrep₃
  have hg₃ := hg₂.backSpec rfl
  refine Does.bind _ (does_getCluster hE hrep₃ hg₃) ?_
  rintro ⟨_, _⟩ _ - ⟨rfl, -, rfl⟩
  refine (does_saveReceipt hE hrep₃ hg₃ ?_ ?_).mono ?_
  · exact ⟨hof.intent, hof.planDigest, hof.deploymentUID, fun _ => rfl⟩
  · exact hg₃.toPhase hrequest (fun h => absurd rfl h) (by simp) (by simp)
      (by simp) (fun _ => ⟨rfl, rfl⟩) (fun _ _ => .inr rfl)
  · rintro _ _ - ⟨rfl, -, hrep₄⟩
    exact ⟨rfl, hrep₄.asBefore_of rfl rfl⟩

/-! ## Cancelling -/

/-- What a cancellation comes to: the plan is restored, or there is a conflict because there is
something to take back, and everything that a restore needs for it. -/
def CancelPost (E : Prop) (h : Planned P t cl₀ r) (g : Stage) (cl : Cluster) :
    Except RolloutError Receipt → Cluster → Prop
  | .ok rc, cl' => rc.phase = .restored ∧ AsBefore h cl'
  | .error err, cl' => E ∨ err = .conflict ∧ cl' = cl ∧ g.rollback = true ∧ g.phase ≠ none

theorem safe_ensure [Decidable q] {f : Unit → Api α} {post : Except RolloutError α → Cluster → Prop}
    (hcl : inv cl)
    (herr : ¬ q → post (.error err) cl)
    (hf : q → Prog.Safe (Prog.allowing execApi ok) inv post (f ()).run cl) :
    Prog.Safe (Prog.allowing execApi ok) inv post (Api.check (ensure q err) >>= f).run cl := by
  by_cases hq : q
  · rw [ensure_of hq]
    exact hf hq
  · rw [ensure_of_not hq]
    exact ⟨hcl, herr hq⟩

theorem Represents.ownedRequest (hrep : Represents h g cl) :
    decide (cl.secrets.request.resourceVersion ≠ r.plan.resources.request) = g.request := by
  rw [h.resources]
  show decide (cl.request.resourceVersion ≠ cl₀.request.resourceVersion) = g.request
  cases hrequest : g.request with
  | false =>
    rw [hrep.request_eq hrequest]
    exact decide_eq_false fun h => h rfl
  | true =>
    refine decide_eq_true fun hversion => ?_
    have hlater := (hrequest ▸ hrep.request).content.2
    exact absurd (congrArg ResourceVersion.version hversion) (Nat.ne_of_gt hlater)

/-- As long as a restore would not find what it needs, nothing has been changed. -/
theorem Represents.unchanged (hrep : Represents h g cl) (hg : g.Coherent)
    (hnot : ¬ (g.rollback = true ∧ g.phase ≠ none)) (hd : cl.deployment = some d) :
    d.spec = h.before.spec ∧ g.moved = false := by
  have hmoved : g.moved = false := Bool.eq_false_iff.mpr fun hmoved => hnot (hg.moved hmoved)
  have hspec : g.spec = false := by
    refine Bool.eq_false_iff.mpr fun hspec => hnot ⟨?_, hg.spec hspec⟩
    obtain ⟨p, hp⟩ := Option.ne_none_iff_exists'.mp (hg.spec hspec)
    refine hg.kept p hp fun hrestored => ?_
    exact nomatch hspec.symm.trans (hg.restored (hrestored ▸ hp)).2
  have hdspec := (hrep.deployed hd).2.2
  rw [hspec] at hdspec
  exact ⟨hdspec, hmoved⟩

/-- **A cancellation.** -/
theorem cancelPrepared_safe (hE : Excuses E ok) (hrep : Represents h g cl) (hg : g.Coherent) :
    Prog.Safe (Prog.allowing execApi ok) (Recoverable h) (CancelPost E h g cl)
      (cancelPrepared P t r.plan.intent r.digest (some r)).run cl := by
  have hcl : Recoverable h cl := ⟨g, hrep, hg⟩
  have hdigest := h.validDigest
  have hall : validIntent r.plan.intent = true ∧ P.validDigest r.digest = true ∧
      r.plan.intent = r.plan.intent ∧ r.plan.targetDigest = P.digest t ∧ r.digest = r.digest ∧
      P.digest r.plan = r.digest ∧ validPlan P t r.plan = true :=
    ⟨h.intended, hdigest, rfl, h.target, rfl, h.digest.symm, h.valid⟩
  refine safe_ensure hcl (fun hnot => absurd hall hnot) fun _ => ?_
  refine Prog.safe_except_bind (does_getCluster hE hrep hg) (fun _ _ _ herr => .inl herr) ?_
  rintro ⟨d, _⟩ _ - ⟨rfl, hd, rfl⟩
  -- the Deployment and the configuration Secret are those of before
  refine safe_ensure hcl (fun hnot => .inr ⟨rfl, rfl, ?_⟩) fun hbefore => ?_
  · by_contra hno
    obtain ⟨hspec, hmoved⟩ := hrep.unchanged hg hno hd
    refine hnot ⟨hrep.compatibleUIDs hd, by rw [h.beforeSpec, hspec], ?_, ?_⟩
    · rw [h.resources]
      show cl.config.resourceVersion = cl₀.config.resourceVersion
      unfold Secret.resourceVersion
      rw [hrep.configUID, (hrep.unmoved hmoved).1]
    · show cl.config.content.data = _
      rw [(hrep.unmoved hmoved).2, h.configBefore]
  obtain ⟨-, hspec, hversion, -⟩ := hbefore
  rw [h.beforeSpec, P.digest_inj] at hspec
  have hmoved : g.moved = false := by
    refine Bool.eq_false_iff.mpr fun hmoved => ?_
    rw [h.resources] at hversion
    exact absurd (congrArg ResourceVersion.version hversion) (Nat.ne_of_gt (hrep.later hmoved))
  have hasBefore : AsBefore h cl := ⟨(hrep.unmoved hmoved).2, d, hd, hspec⟩
  dsimp only
  rw [hrep.ownedRequest]
  -- the stored plan and the rollback material are the plan's own, or of before
  refine safe_ensure hcl (fun hnot => (hnot fun hrequest => ?_).elim) fun _ => ?_
  · have hcontent : cl.request.content = .stored r := (hrequest ▸ hrep.request).content.1
    show cl.request.content.decode.any _ = true
    rw [hcontent]
    refine (Option.any_eq_true _ _).mpr ⟨r, rfl, ?_⟩
    rw [decide_eq_true rfl, decide_eq_true h.digest.symm]
    rfl
  refine safe_ensure hcl (fun hnot => absurd ?_ hnot) fun _ => ?_
  · cases hrollback : g.rollback with
    | false =>
      refine .inl ?_
      rw [h.resources]
      exact congrArg Secret.resourceVersion (hrep.rollback_eq hrollback)
    | true =>
      refine .inr ⟨hg.rollback hrollback, ?_⟩
      show cl.rollback.content.decode.any _ = true
      rw [hrep.rollbackContent hrollback]
      refine (Option.any_eq_true _ _).mpr ⟨rollbackRecord r, rfl, ?_⟩
      simp [rollbackRecord]
  -- and so is the receipt, unless it says that something was changed
  refine safe_ensure hcl (fun hnot => .inr ⟨rfl, rfl, ?_⟩) fun hown => ?_
  · cases hphase : g.phase with
    | none =>
      refine absurd (.inl ?_) hnot
      rw [h.resources]
      exact congrArg Secret.resourceVersion (hrep.receipt_eq hphase)
    | some p =>
      refine ⟨?_, by simp⟩
      refine hg.kept p hphase fun hrestored => hnot (.inr ?_)
      obtain ⟨rc, rfl, hof, hcontent, -, -⟩ := hrep.ownReceipt hphase
      have hrequest : g.request = true := hg.receipt (by simp [hphase])
      refine ⟨hrequest, ?_⟩
      show cl.receipt.content.decode.any _ = true
      rw [hcontent]
      refine (Option.any_eq_true _ _).mpr ⟨rc, rfl, ?_⟩
      have huid : d.uid = h.before.uid := (hrep.deployed hd).1
      simp [hof.intent, hof.planDigest, hof.deploymentUID, huid, hof.acknowledged hrestored,
        hrestored]
  split
  next hrequest =>
    have hphases : ∀ p, g.phase = some p → p = .prepared ∨ p = .restored := by
      intro p hphase
      obtain ⟨rc, rfl, hof, hcontent, hlater, -⟩ := hrep.ownReceipt hphase
      rcases hown with hversion | ⟨-, hown⟩
      · rw [h.resources] at hversion
        exact absurd (congrArg ResourceVersion.version hversion) (Nat.ne_of_gt hlater)
      · obtain ⟨rc', hrc', hmatch⟩ := (Option.any_eq_true _ _).mp hown
        have hcontent' : cl.secrets.receipt.content.decode = some rc :=
          congrArg Slot.decode hcontent
        obtain rfl : rc = rc' := Option.some.inj (hcontent'.symm.trans hrc')
        simp only [Bool.and_eq_true, Bool.or_eq_true, decide_eq_true_eq] at hmatch
        exact hmatch.2
    have hrep₁ := (hrep.asBefore (hrep.unmoved hmoved).2).withSpec false hd hspec
    have hg₁ := hg.unchanged hmoved hphases
    have huid := (hrep.deployed hd).1
    refine Prog.Safe.mono (does_saveReceipt hE hrep₁ hg₁ ⟨rfl, rfl, huid, fun _ => rfl⟩ ?_) ?_
    · exact hg₁.toPhase hrequest (fun h => absurd rfl h) (by simp) (by simp)
        (fun h => by simp at h) (fun _ => ⟨rfl, rfl⟩) (fun _ _ => .inr rfl)
    · intro a cl' _ ha
      cases a with
      | error err => exact .inl ha
      | ok rc =>
        obtain ⟨rfl, -, hrep₂⟩ := ha
        exact ⟨rfl, hrep₂.asBefore_of rfl rfl⟩
  next => exact ⟨hcl, rfl, hasBefore⟩

/-- **A cancellation, or a restore if there is something to take back.** -/
theorem cancelOrRestore_does (hE : Excuses E ok) (hnew : NewTo cl₀ r) (hrep : Represents h g cl)
    (hg : g.Coherent) :
    Does E ok (Recoverable h) (cancelOrRestore P t r.plan.intent r.digest r) cl (fun rc cl' =>
      rc.phase = .restored ∧ AsBefore h cl') := by
  refine Prog.safe_bind (cancelPrepared_safe hE hrep hg) fun a cl' hcl' ha => ?_
  cases a with
  | ok rc => exact ⟨hcl', ha⟩
  | error err =>
    show Does E ok (Recoverable h) (if err = .conflict then _ else _) cl' _
    rcases ha with hreason | ⟨rfl, rfl, hstored⟩
    · split
      · obtain ⟨g', hrep', hg'⟩ := hcl'
        exact restore_does hE hnew hrep' hg' (.inl hreason)
      · exact Does.throw hcl' hreason
    · rw [if_pos rfl]
      exact restore_does hE hnew hrep hg (.inr hstored)

end Hikyo.Rollout
