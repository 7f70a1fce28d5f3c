import Hikyo.Rollout.Recovery
import Hikyo.Rollout.Submittable

/-!
# Attempts, one after another

An executor may be started again and again – to submit a plan, to look at it, to take
it back – and each time it may stop anywhere. This module is about such sequences.

Before a plan there were others, and the Secrets may hold what they left. What keeps
the records of two plans apart is that a plan names the versions of the objects that it
was prepared from: a record can be stored only after that, at a later version. `Settled`
says so of everything that is stored, and it holds after any attempts whatsoever. It
follows that nothing in the Secrets names a plan that has just been prepared (`NewTo`),
which is where the derivations of `Recovery` begin.
-/

namespace Hikyo.Rollout

open Tx (ensure_of ensure_of_not ensured)

/-- **What can happen to the objects of an executor**: an attempt, with the replies of the API
server up to where it stops, or a report of Kubernetes on the Deployment. -/
inductive Attempt where
  | submit (intent : Intent) (planDigest : String) (plan : Option Record) (replies : List Reply)
  | observe (intent : Intent) (planDigest : String) (ack : Option ApplicationAcknowledgement)
      (replies : List Reply)
  | restore (intent : Intent) (planDigest : String) (replies : List Reply)
  | cancelOrRestore (intent : Intent) (planDigest : String) (plan : Record) (replies : List Reply)
  | report (status : DeploymentStatus)

variable (P : Platform) (t : Target)

def attempt (cl : Cluster) : Attempt → Cluster
  | .submit intent planDigest plan replies =>
    (Prog.run execApi (submit P t intent planDigest plan).run replies cl).2
  | .observe intent planDigest ack replies =>
    (Prog.run execApi (observe P t intent planDigest ack).run replies cl).2
  | .restore intent planDigest replies =>
    (Prog.run execApi (restore P t intent planDigest).run replies cl).2
  | .cancelOrRestore intent planDigest plan replies =>
    (Prog.run execApi (cancelOrRestore P t intent planDigest plan).run replies cl).2
  | .report status =>
    { cl with deployment := cl.deployment.map (Deployment.reported status) }

/-! ## Records and versions -/

/-- The Secrets of the records have moved on since the plan, or not. -/
structure Dated (p : PlanData) (cl : Cluster) : Prop where
  request : p.resources.request.version ≤ cl.request.version
  rollback : p.resources.rollback.version ≤ cl.rollback.version
  receipt : p.resources.receipt.version ≤ cl.receipt.version

/-- **Everything that is stored was stored after its plan was prepared.** -/
structure Settled (cl : Cluster) : Prop where
  request : ∀ r, cl.request.content = .stored r → r.digest = P.digest r.plan ∧
    Dated r.plan cl ∧ r.plan.resources.request.version < cl.request.version
  rollback : ∀ b, cl.rollback.content = .stored b → ∃ p : PlanData, b.digest = P.digest p ∧
    p.resources.rollback.version < cl.rollback.version
  receipt : ∀ rc, cl.receipt.content = .stored rc → ∃ p : PlanData, rc.planDigest = P.digest p ∧
    p.resources.receipt.version < cl.receipt.version

/-- The Secrets hold no records. -/
structure Unused (cl : Cluster) : Prop where
  request : cl.request.content.decode = none
  rollback : cl.rollback.content.decode = none
  receipt : cl.receipt.content.decode = none

variable {P t} {cl cl₀ : Cluster} {r : Record}

theorem settled_of_unused (h : Unused cl) : Settled P cl where
  request r hr := by
    have hnone := h.request
    rw [hr] at hnone
    cases hnone
  rollback b hb := by
    have hnone := h.rollback
    rw [hb] at hnone
    cases hnone
  receipt rc hrc := by
    have hnone := h.receipt
    rw [hrc] at hnone
    cases hnone

/-- **Nothing names a plan that has just been prepared.** -/
theorem Settled.newTo (hs : Settled P cl₀) (h : Planned P t cl₀ r) : NewTo cl₀ r where
  request r' hr' hdigest := by
    obtain ⟨hr'digest, -, hlater⟩ := hs.request r' hr'
    have hplan : r'.plan = r.plan := P.digest_inj.mp (hr'digest.symm.trans (hdigest.trans h.digest))
    rw [hplan, h.resources] at hlater
    exact lt_irrefl _ hlater
  rollback b hb hdigest := by
    obtain ⟨p, hp, hlater⟩ := hs.rollback b hb
    obtain rfl : p = r.plan := P.digest_inj.mp (hp.symm.trans (hdigest.trans h.digest))
    rw [h.resources] at hlater
    exact lt_irrefl _ hlater
  receipt rc hrc hdigest := by
    obtain ⟨p, hp, hlater⟩ := hs.receipt rc hrc
    obtain rfl : p = r.plan := P.digest_inj.mp (hp.symm.trans (hdigest.trans h.digest))
    rw [h.resources] at hlater
    exact lt_irrefl _ hlater

/-- **An executor that carries a record out.** -/
structure Working (P : Platform) (r : Record) (cl : Cluster) : Prop where
  settled : Settled P cl
  digest : r.digest = P.digest r.plan
  dated : Dated r.plan cl

theorem Settled.working (hs : Settled P cl) (hr : cl.request.content = .stored r) :
    Working P r cl :=
  have ⟨hdigest, hdated, _⟩ := hs.request r hr
  ⟨hs, hdigest, hdated⟩

/-! ### Writes -/

variable {p : PlanData}

theorem Dated.putRollback (h : Dated p cl) (b : Slot RollbackRecord) :
    Dated p { cl with rollback := cl.rollback.put b } :=
  { h with rollback := Nat.le_succ_of_le h.rollback }

theorem Dated.putReceipt (h : Dated p cl) (rc : Slot Receipt) :
    Dated p { cl with receipt := cl.receipt.put rc } :=
  { h with receipt := Nat.le_succ_of_le h.receipt }

theorem Working.putRollback (h : Working P r cl) :
    Working P r { cl with rollback := cl.rollback.put (.stored (rollbackRecord r)) } where
  settled :=
    { request := fun r' hr' =>
        have ⟨hdigest, hdated, hlater⟩ := h.settled.request r' hr'
        ⟨hdigest, hdated.putRollback _, hlater⟩
      rollback := fun b hb => by
        obtain rfl : rollbackRecord r = b := Slot.stored.inj hb
        exact ⟨r.plan, h.digest, Nat.lt_succ_of_le h.dated.rollback⟩
      receipt := h.settled.receipt }
  digest := h.digest
  dated := h.dated.putRollback _

variable {rc : Receipt}

theorem Working.putReceipt (h : Working P r cl) (hrc : rc.planDigest = r.digest) :
    Working P r { cl with receipt := cl.receipt.put (.stored rc) } where
  settled :=
    { request := fun r' hr' =>
        have ⟨hdigest, hdated, hlater⟩ := h.settled.request r' hr'
        ⟨hdigest, hdated.putReceipt _, hlater⟩
      rollback := h.settled.rollback
      receipt := fun rc' hrc' => by
        obtain rfl : rc = rc' := Slot.stored.inj hrc'
        exact ⟨r.plan, hrc.trans h.digest, Nat.lt_succ_of_le h.dated.receipt⟩ }
  digest := h.digest
  dated := h.dated.putReceipt _

/-- The configuration Secret and the Deployment hold no records. -/
theorem Working.elsewhere (h : Working P r cl) (config : Secret ConfigContent)
    (deployment : Option Deployment) :
    Working P r { cl with config := config, deployment := deployment } where
  settled :=
    { request := fun r' hr' =>
        have ⟨hdigest, hdated, hlater⟩ := h.settled.request r' hr'
        ⟨hdigest, ⟨hdated.request, hdated.rollback, hdated.receipt⟩, hlater⟩
      rollback := h.settled.rollback
      receipt := h.settled.receipt }
  digest := h.digest
  dated := ⟨h.dated.request, h.dated.rollback, h.dated.receipt⟩

/-! ### Programs -/

/-- Every state on the way satisfies `inv`, whatever the replies are. -/
abbrev Settles (inv : Cluster → Prop) {α : Type} (p : Api α) (cl : Cluster)
    (post : α → Cluster → Prop) : Prop :=
  Does True (fun _ => True) inv p cl post

variable {α : Type}

theorem result_of {post : α → Cluster → Prop} (x : Except RolloutError α)
    (h : ∀ a, post a cl) : Result True post x cl := by
  cases x with
  | ok a => exact h a
  | error err => trivial

variable {inv : Cluster → Prop}

theorem Settles.check {β : Type} {x : Except RolloutError α} {f : α → Api β}
    {post : β → Cluster → Prop} (hcl : inv cl) (hf : ∀ a, x = .ok a → Settles inv (f a) cl post) :
    Settles inv (Api.check x >>= f) cl post := Does.check hcl (fun _ _ => trivial) hf

/-- What a read of the cluster gives. -/
theorem settles_getCluster (hcl : inv cl) :
    Settles inv (getCluster t) cl (fun ds cl' => cl = cl' ∧ ds.2 = cl.secrets) := by
  refine Does.bind (fun c cl' => cl = cl' ∧ c = cl) ⟨hcl, fun x => ?_⟩ ?_
  · obtain ⟨x, -⟩ := x
    cases x with
    | ok => exact ⟨hcl, rfl, rfl⟩
    | lost | failed err => exact ⟨hcl, trivial⟩
  · rintro c _ - ⟨rfl, rfl⟩
    refine ⟨hcl, ?_⟩
    show Result True _ (get t c) c
    cases hget : get t c with
    | error err => trivial
    | ok ds => exact ⟨rfl, (get_eq_ok hget).2.1⟩

variable {α : Type}

variable {s : Secrets}

variable {d : Deployment}

section

variable (h : Working P r cl)

include h

theorem settles_saveReceipt {s : Secret (Slot Receipt)}
    (hrc : rc.planDigest = r.digest) : Settles (Working P r)
    (saveReceipt s rc) cl (fun _ _ => True) := by
  refine Does.bind (fun _ _ => True) ⟨h, fun x => ⟨?_, result_of _ fun _ => trivial⟩⟩ fun _ _ hcl _ => ⟨hcl, trivial⟩
  show Working P r { cl with receipt := (putSecret cl.receipt { s with content := .stored rc } x.1).2 }
  rcases putSecret_cases cl.receipt { s with content := .stored rc } x.1 with ⟨hold, -⟩ | ⟨hnew, -⟩
  · rw [hold]
    exact h
  · rw [hnew]
    exact h.putReceipt hrc

theorem settles_submitRollback :
    Settles (Working P r) (submitRollback P r s) cl (fun _ _ => True) := by
  unfold submitRollback
  split
  · refine Settles.check h fun _ _ => ?_
    refine Does.bind (fun _ _ => True) ⟨h, fun x => ⟨?_, result_of _ fun _ => trivial⟩⟩
      fun _ _ hcl _ => ⟨hcl, trivial⟩
    show Working P r { cl with rollback := (putSecret cl.rollback
      { s.rollback with content := .stored (rollbackRecord r) } x.1).2 }
    rcases putSecret_cases cl.rollback { s.rollback with content := .stored (rollbackRecord r) } x.1
      with ⟨hold, -⟩ | ⟨hnew, -⟩
    · rw [hold]
      exact h
    · rw [hnew]
      exact h.putRollback
  · exact Settles.check h fun _ _ => ⟨h, trivial⟩

theorem settles_putConfig {s : Secret ConfigContent} :
    Settles (Working P r) (Api.putConfig s) cl (fun _ _ => True) :=
  ⟨h, fun _ => ⟨h.elsewhere _ _, result_of _ fun _ => trivial⟩⟩

theorem settles_putDeployment : Settles (Working P r) (Api.putDeployment d) cl (fun _ _ => True) :=
  ⟨h, fun _ => ⟨h.elsewhere _ _, result_of _ fun _ => trivial⟩⟩

theorem settles_submitConfig : Settles (Working P r) (submitConfig P r s) cl (fun _ _ => True) := by
  unfold submitConfig
  dsimp only
  split
  · exact ⟨h, trivial⟩
  · refine Settles.check h fun _ _ => ?_
    exact Does.bind _ (settles_putConfig h) fun _ _ hcl _ => ⟨hcl, trivial⟩

theorem settles_submitDeployment :
    Settles (Working P r) (submitDeployment P t r d) cl (fun _ _ => True) := by
  unfold submitDeployment
  split
  · exact ⟨h, trivial⟩
  · refine Settles.check h fun _ _ => ?_
    refine Settles.check h fun _ _ => ?_
    refine Settles.check h fun _ _ => ?_
    exact Settles.check h fun _ _ => settles_putDeployment h

theorem settles_submitInputs
    (hrc : rc.planDigest = r.digest) : Settles (Working P r)
    (submitInputs P t r rc s) cl (fun _ _ => True) := by
  refine Settles.check h fun _ _ => ?_
  refine Does.bind _ (settles_submitConfig h) fun s₁ _ h₁ _ => ?_
  refine Does.bind _ (settles_saveReceipt h₁ (by exact hrc)) fun _ _ h₂ _ => ?_
  refine Does.bind _ (settles_getCluster h₂) fun ds _ h₃ _ => ?_
  refine Settles.check h₃ fun _ _ => ?_
  refine Settles.check h₃ fun _ _ => ?_
  refine Does.bind _ (settles_submitDeployment h₃) fun d _ h₄ _ => ?_
  exact settles_saveReceipt h₄ (by exact hrc)

theorem settles_submitStored :
    Settles (Working P r) (submitStored P t r d s) cl (fun _ _ => True) := by
  refine Settles.check h fun _ _ => ?_
  dsimp only
  split
  next receipt _ =>
    refine Settles.check h fun _ hdigest => ?_
    have hdigest : receipt.planDigest = r.digest := ensured hdigest
    refine Settles.check h fun _ _ => ?_
    split
    · exact ⟨h, trivial⟩
    · refine Does.bind _ (settles_submitRollback h) fun s₁ _ h₁ _ => ?_
      split
      · refine Does.bind _ (settles_saveReceipt h₁ hdigest) fun _ _ h₂ _ => ?_
        exact Does.bind _ (settles_getCluster h₂) fun _ _ h₃ _ => settles_submitInputs h₃ hdigest
      · exact settles_submitInputs h₁ hdigest
  next =>
    refine Does.bind _ (settles_submitRollback h) fun s₁ _ h₁ _ => ?_
    refine Does.bind _ (settles_saveReceipt h₁ rfl) fun _ _ h₂ _ => ?_
    exact Does.bind _ (settles_getCluster h₂) fun _ _ h₃ _ => settles_submitInputs h₃ rfl

end

/-- **A request is stored after its plan was prepared**: at the time of the write, the versions
are still those of the plan. -/
theorem Settled.putRequest (hs : Settled P cl) {plan : Record}
    (hdigest : plan.digest = P.digest plan.plan)
    (hmatch : preparedResourcesMatch P plan.plan d cl.secrets = true) :
    Settled P { cl with request := cl.request.put (slotOf P plan) } ∧
      Working P plan { cl with request := cl.request.put (slotOf P plan) } := by
  unfold preparedResourcesMatch at hmatch
  simp only [Bool.and_eq_true, decide_eq_true_eq] at hmatch
  have hres := hmatch.1.1.2
  have hrequest : plan.plan.resources.request.version = cl.request.version :=
    (congrArg (fun res : ResourceVersions => res.request.version) hres).symm
  have hrollback : plan.plan.resources.rollback.version = cl.rollback.version :=
    (congrArg (fun res : ResourceVersions => res.rollback.version) hres).symm
  have hreceipt : plan.plan.resources.receipt.version = cl.receipt.version :=
    (congrArg (fun res : ResourceVersions => res.receipt.version) hres).symm
  have hdated : Dated plan.plan { cl with request := cl.request.put (slotOf P plan) } :=
    ⟨hrequest ▸ Nat.le_succ _, le_of_eq hrollback, le_of_eq hreceipt⟩
  have hsettled : Settled P { cl with request := cl.request.put (slotOf P plan) } :=
    { request := fun r' hr' => by
        have hstored : slotOf P plan = .stored r' := hr'
        unfold slotOf at hstored
        split at hstored
        · obtain rfl := Slot.stored.inj hstored
          exact ⟨hdigest, hdated, hrequest ▸ Nat.lt_succ_self _⟩
        · cases hstored
      rollback := hs.rollback
      receipt := hs.receipt }
  exact ⟨hsettled, hsettled, hdigest, hdated⟩

variable {post : α → Cluster → Prop}

variable {p : Api α}

/-- A program that works on a record keeps what is stored settled. -/
theorem Settles.settled
    (h : Settles (Working P r) p cl post) : Settles (Settled P) p cl post :=
  Prog.Safe.weaken h (fun _ hcl => hcl.settled) fun _ _ _ hpost => hpost

variable {intent : Intent} {planDigest : String} {plan : Option Record}

/-- The record that is carried out: it was stored earlier, or it is stored now. -/
theorem settles_submitRecord (h : Settled P cl) :
    Settles (Settled P) (submitRecord P t intent planDigest plan d cl.secrets) cl
      (fun rs cl' => Working P rs.1 cl') := by
  unfold submitRecord
  split
  next r hload =>
    have hworking : Working P r cl := h.working (loadRecord_eq_ok hload).1
    refine Settles.check h fun _ _ => ?_
    exact Settles.check h fun _ _ => ⟨h, hworking⟩
  next => exact ⟨h, trivial⟩
  next plan _ =>
    refine Settles.check h fun _ hplan => ?_
    have hplan := ensured hplan
    refine Settles.check h fun _ _ => ?_
    refine Settles.check h fun _ hmatch => ?_
    have hmatch := ensured hmatch
    refine Does.bind (fun _ cl' => Working P plan cl') ⟨h, fun x => ?_⟩
      fun _ _ hcl hworking => ⟨hcl, hworking⟩
    show Settled P { cl with request := (putSecret cl.request
        { cl.request with content := slotOf P plan } x.1).2 } ∧
      Result True _ (putSecret cl.request { cl.request with content := slotOf P plan } x.1).1
        { cl with request := (putSecret cl.request
          { cl.request with content := slotOf P plan } x.1).2 }
    rcases putSecret_cases cl.request { cl.request with content := slotOf P plan } x.1 with
      ⟨hold, ⟨err, herr⟩, -⟩ | ⟨hnew, -⟩
    · rw [hold, herr]
      exact ⟨h, trivial⟩
    · rw [hnew]
      obtain ⟨hsettled, hworking⟩ := h.putRequest hplan.2.2.1 hmatch
      exact ⟨hsettled, result_of _ fun _ => hworking⟩

theorem settles_submit
    (h : Settled P cl) : Settles (Settled P)
    (submit P t intent planDigest plan) cl (fun _ _ => True) := by
  refine Settles.check h fun _ _ => ?_
  refine Does.bind _ (settles_getCluster h) ?_
  rintro ⟨d, _⟩ _ - ⟨rfl, rfl⟩
  refine Does.bind _ (settles_submitRecord h) ?_
  rintro ⟨r, s⟩ cl₁ - hworking
  exact (settles_submitStored hworking).settled

theorem settles_observe {ack : Option ApplicationAcknowledgement} (h : Settled P cl) :
    Settles (Settled P) (observe P t intent planDigest ack) cl (fun _ _ => True) := by
  refine Settles.check h fun _ _ => ?_
  refine Does.bind _ (settles_getCluster h) ?_
  rintro ⟨d, _⟩ _ - ⟨rfl, rfl⟩
  refine Settles.check h fun r hload => ?_
  have hworking : Working P r cl := h.working (loadRecord_eq_ok hload).1
  refine Settles.check h fun _ _ => ?_
  refine Settles.check h fun _ _ => ?_
  split
  next => exact ⟨h, trivial⟩
  next receipt hreceipt =>
    have hdigest : receipt.planDigest = r.digest :=
      of_decide_eq_true (Option.filter_eq_some_iff.mp hreceipt).2
    split
    · exact ⟨h, trivial⟩
    · split
      · exact Settles.check h fun _ _ => ⟨h, trivial⟩
      · refine Settles.check h fun _ _ => ?_
        split
        · exact ⟨h, trivial⟩
        · split
          · refine Settles.settled (settles_saveReceipt hworking ?_)
            exact hdigest
          · refine Settles.check h fun _ _ => ?_
            refine Settles.settled (settles_saveReceipt hworking ?_)
            exact hdigest

theorem settles_restoreConfig (h : Working P r cl) :
    Settles (Working P r) (restoreConfig P r s) cl (fun _ _ => True) := by
  unfold restoreConfig
  dsimp only
  split
  · exact ⟨h, trivial⟩
  · exact Does.bind _ (settles_putConfig h) fun _ _ hcl _ => ⟨hcl, trivial⟩

theorem settles_restoreDeployment (h : Working P r cl) :
    Settles (Working P r) (restoreDeployment P t r d) cl (fun _ _ => True) := by
  unfold restoreDeployment
  split
  · exact ⟨h, trivial⟩
  · refine Settles.check h fun _ _ => ?_
    exact Settles.check h fun _ _ => settles_putDeployment h

theorem settles_restore (h : Settled P cl) :
    Settles (Settled P) (restore P t intent planDigest) cl (fun _ _ => True) := by
  refine Settles.check h fun _ _ => ?_
  refine Does.bind _ (settles_getCluster h) ?_
  rintro ⟨d, _⟩ _ - ⟨rfl, rfl⟩
  refine Settles.check h fun r hload => ?_
  have hworking : Working P r cl := h.working (loadRecord_eq_ok hload).1
  iterate 3 refine Settles.check h fun _ _ => ?_
  dsimp only
  split
  next => exact ⟨h, trivial⟩
  next receipt hreceipt =>
    have hdigest : receipt.planDigest = r.digest :=
      of_decide_eq_true (Option.filter_eq_some_iff.mp hreceipt).2
    refine Settles.check h fun _ _ => ?_
    refine Settles.check h fun _ _ => ?_
    refine Settles.settled (r := r) ?_
    refine Does.bind _ (settles_saveReceipt hworking hdigest) fun _ _ h₁ _ => ?_
    refine Does.bind _ (settles_restoreConfig h₁) fun _ _ h₂ _ => ?_
    refine Does.bind _ (settles_restoreDeployment h₂) fun _ _ h₃ _ => ?_
    refine Does.bind _ (settles_getCluster h₃) fun _ _ h₄ _ => ?_
    exact settles_saveReceipt h₄ hdigest

theorem settles_cancelPrepared (h : Settled P cl) :
    Settles (Settled P) (cancelPrepared P t intent planDigest plan) cl (fun _ _ => True) := by
  cases plan with
  | none => exact ⟨h, trivial⟩
  | some plan =>
    refine Settles.check h fun _ _ => ?_
    refine Does.bind _ (settles_getCluster h) ?_
    rintro ⟨d, _⟩ _ - ⟨rfl, rfl⟩
    refine Settles.check h fun _ _ => ?_
    refine Settles.check h fun _ hstored => ?_
    have hstored := ensured hstored
    refine Settles.check h fun _ _ => ?_
    refine Settles.check h fun _ _ => ?_
    dsimp only
    split
    next howned =>
      -- the plan that is cancelled is the one that is stored
      obtain ⟨r, hr, hmatch⟩ := (Option.any_eq_true _ _).mp (hstored howned)
      have hworking : Working P r cl := h.working (Slot.stored_of_decode hr)
      have hdigest : r.digest = planDigest := by
        simp only [Bool.and_eq_true, decide_eq_true_eq] at hmatch
        exact hmatch.1
      exact (settles_saveReceipt hworking hdigest.symm).settled
    next => exact ⟨h, trivial⟩

theorem settles_cancelOrRestore {plan : Record} (h : Settled P cl) :
    Settles (Settled P) (cancelOrRestore P t intent planDigest plan) cl (fun _ _ => True) := by
  refine Prog.safe_bind (settles_cancelPrepared h) fun a cl' hcl' _ => ?_
  cases a with
  | ok rc => exact ⟨hcl', trivial⟩
  | error err =>
    show Settles (Settled P) (if err = .conflict then _ else _) cl' _
    split
    · exact settles_restore hcl'
    · exact ⟨hcl', trivial⟩

/-- What holds along every program holds after every run. -/
theorem Settles.run (h : Settles inv p cl post) (replies : List Reply) :
    inv (Prog.run execApi p.run replies cl).2 :=
  (Prog.run_allowing h fun _ _ => trivial).1

/-- **Everything that is stored was stored after its plan was prepared, whatever was
attempted.** -/
theorem settled_exec (h : Settled P cl) (past : List Attempt) :
    Settled P (Tx.exec (attempt P t) cl past) := by
  refine Tx.exec_invariant (Settled P) (fun cl op hcl => ?_) past cl h
  cases op with
  | submit intent planDigest plan replies => exact (settles_submit hcl).run replies
  | observe intent planDigest ack replies => exact (settles_observe hcl).run replies
  | restore intent planDigest replies => exact (settles_restore hcl).run replies
  | cancelOrRestore intent planDigest plan replies =>
    exact (settles_cancelOrRestore hcl).run replies
  | report status =>
    exact
      { request := fun r' hr' =>
          have ⟨hdigest, hdated, hlater⟩ := hcl.request r' hr'
          ⟨hdigest, ⟨hdated.request, hdated.rollback, hdated.receipt⟩, hlater⟩
        rollback := hcl.rollback
        receipt := hcl.receipt }

/-! ## The attempts for one plan -/

variable {h : Planned P t cl₀ r} {g : Stage}

/-- The attempts that are made for a plan. -/
def Attempt.For (r : Record) : Attempt → Prop
  | .submit intent planDigest plan _ =>
    intent = r.plan.intent ∧ planDigest = r.digest ∧ (plan = some r ∨ plan = none)
  | .observe intent planDigest _ _ => intent = r.plan.intent ∧ planDigest = r.digest
  | .restore intent planDigest _ => intent = r.plan.intent ∧ planDigest = r.digest
  | .cancelOrRestore intent planDigest plan _ =>
    intent = r.plan.intent ∧ planDigest = r.digest ∧ plan = r
  | .report _ => True

/-- **The step**: wherever an attempt stops, the plan is at one of its stages. -/
theorem recoverable_attempt (hnew : NewTo cl₀ r) (op : Attempt) (hop : op.For r)
    (hcl : Recoverable h cl) : Recoverable h (attempt P t cl op) := by
  obtain ⟨g, hrep, hg⟩ := hcl
  have hE : Excuses True fun _ => True := fun _ _ _ => trivial
  cases op with
  | submit intent planDigest plan replies =>
    obtain ⟨rfl, rfl, hplan⟩ := hop
    exact Settles.run (submit_does hE hnew hplan (.inl trivial) (.inl trivial) hrep hg) replies
  | observe intent planDigest ack replies =>
    obtain ⟨rfl, rfl⟩ := hop
    exact Settles.run (observe_does hnew hrep hg) replies
  | restore intent planDigest replies =>
    obtain ⟨rfl, rfl⟩ := hop
    exact Settles.run (restore_does hE hnew hrep hg (.inl trivial)) replies
  | cancelOrRestore intent planDigest plan replies =>
    obtain ⟨rfl, rfl, rfl⟩ := hop
    exact Settles.run (cancelOrRestore_does hE hnew hrep hg) replies
  | report status => exact ⟨g, hrep.reported status, hg⟩

/-- **The run.** -/
theorem recoverable_exec (hnew : NewTo cl₀ r) (ops : List Attempt) (hops : ∀ op ∈ ops, op.For r) :
    Recoverable h (Tx.exec (attempt P t) cl₀ ops) :=
  Tx.exec_invariant_along (fun _ op => op.For r) (Recoverable h)
    (fun _ op hop hcl => recoverable_attempt hnew op hop hcl) ops cl₀
    (Tx.along_of_forall_mem cl₀ ops hops) ⟨_, h.start, Stage.start_coherent⟩

/-- The receipt of the plan says that it is being taken back, or that it has been. -/
def TakenBack (r : Record) (cl : Cluster) : Prop :=
  ∃ rc, cl.receipt.content = .stored rc ∧ rc.planDigest = r.digest ∧
    (rc.phase = .restoring ∨ rc.phase = .restored)

/-- A receipt that names the plan is its own. -/
theorem Represents.phase_of_stored (hnew : NewTo cl₀ r) (hrep : Represents h g cl)
    (hstored : cl.receipt.content = .stored rc) (hdigest : rc.planDigest = r.digest) :
    g.phase = some rc.phase := by
  rcases hrep.receipt with ⟨-, heq⟩ | ⟨rc', hphase, -, hwritten⟩
  · rw [heq] at hstored
    exact absurd hdigest (hnew.receipt rc hstored)
  · obtain rfl := Slot.stored.inj (hwritten.content.1.symm.trans hstored)
    exact hphase

/-- **After a restore has begun, a submission changes nothing.** -/
theorem settles_submit_takenBack {p : Phase} (hrep : Represents h g cl) (hg : g.Coherent)
    (hphase : g.phase = some p) (hback : p = .restoring ∨ p = .restored) :
    Settles (cl = ·) (submit P t r.plan.intent r.digest plan) cl (fun _ _ => True) := by
  have hrequest : g.request = true := hg.receipt fun hnone => nomatch hnone.symm.trans hphase
  obtain ⟨rc, rfl, -, -, -, hown⟩ := hrep.ownReceipt hphase
  refine Settles.check rfl fun _ _ => ?_
  refine Does.bind _ (settles_getCluster rfl) ?_
  rintro ⟨d, _⟩ _ - ⟨rfl, rfl⟩
  dsimp only
  unfold submitRecord
  rw [hrep.loadRecord hrequest]
  refine Does.bind (fun rs _ => rs = (r, cl.secrets)) ?_ ?_
  · refine Settles.check rfl fun _ _ => ?_
    exact Settles.check rfl fun _ _ => ⟨rfl, rfl⟩
  · rintro _ _ rfl rfl
    refine Settles.check rfl fun _ _ => ?_
    dsimp only
    rw [hown]
    refine Settles.check rfl fun _ _ => ?_
    refine Settles.check rfl fun _ hpending => ?_
    obtain ⟨hrestoring, hrestored⟩ := ensured hpending
    exact (hback.elim hrestoring hrestored).elim

/-! ## Exactness -/

/-- A program whose calls all succeed has the result that a derivation without a reason to fail
says. -/
theorem eval_of_does (h : Does False (· = .ok) inv p cl post) :
    ∃ a cl', Prog.eval execApi .ok p.run cl = (.ok a, cl') ∧ post a cl' := by
  have hpost := (Prog.eval_allowing h rfl).2
  cases heval : Prog.eval execApi .ok p.run cl with
  | mk x cl' =>
    rw [heval] at hpost
    cases x with
    | ok a => exact ⟨a, cl', rfl, hpost⟩
    | error err => exact hpost.elim

/-- **Rollouts are exact and recoverable.** After any attempts of the executor, a plan is prepared
and found valid; then there are any attempts for this plan, each of which stops anywhere. A
submission that runs to the end requests the rollout or finds it applied, if the slot was free for
the decision and no restore has begun; a cancellation or a restore that runs to the end puts
everything back; the plan is recorded as applied only while everything is as planned; and once a
restore has begun, no submission changes anything. -/
theorem rollout_exact_and_recoverable (P : Platform) (t : Target) (base : Cluster)
    (hbase : Unused base) (past : List Attempt) (intent : Intent) (changes : List Change)
    (bootstrap : Option BootstrapChanges) (topology : Option SingletonTopologyChange) (r : Record)
    (hprepared : prepareFor P t intent changes bootstrap topology
      (Tx.exec (attempt P t) base past) = .ok r)
    (hvalid : validPlan P t r.plan = true) (ops : List Attempt) (hops : ∀ op ∈ ops, op.For r) :
    let cl₀ := Tx.exec (attempt P t) base past
    let cl := Tx.exec (attempt P t) cl₀ ops
    (Free cl₀ r.plan.intent → ¬ TakenBack r cl → ∃ rc cl',
      Prog.eval execApi .ok (submit P t r.plan.intent r.digest (some r)).run cl = (.ok rc, cl') ∧
        (rc.phase = .rolloutRequested ∨ rc.phase = .applied)) ∧
    (∃ rc cl',
      Prog.eval execApi .ok (cancelOrRestore P t r.plan.intent r.digest r).run cl = (.ok rc, cl') ∧
        rc.phase = .restored ∧ cl'.config.content = cl₀.config.content ∧
        cl'.deployment.map Deployment.spec = cl₀.deployment.map Deployment.spec) ∧
    (∀ rc, cl.receipt.content = .stored rc → rc.planDigest = r.digest → rc.phase = .applied →
      cl.config.content.data = r.plan.configAfter ∧
      annotation cl.config.content.annotations = some (stampFor P r.plan) ∧
      cl.deployment.map (fun d => P.digest d.spec) = some r.plan.afterSpecDigest) ∧
    (TakenBack r cl → ∀ plan replies,
      (Prog.run execApi (submit P t r.plan.intent r.digest plan).run replies cl).2 = cl) := by
  intro cl₀ cl
  obtain ⟨h⟩ := planned_of_prepareFor hprepared hvalid
  have hnew : NewTo cl₀ r := (settled_exec (settled_of_unused hbase) past).newTo h
  obtain ⟨g, hrep, hg⟩ : Recoverable h cl := recoverable_exec hnew ops hops
  have hE : Excuses False (· = .ok) := fun _ hok hnot => hnot hok
  refine ⟨fun hfree hpending => ?_, ?_, ?_, ?_⟩
  · refine eval_of_does (submit_does hE hnew (.inl rfl) (.inr ⟨hfree, rfl⟩) (.inr ?_) hrep hg)
    intro p hphase
    obtain ⟨rc, rfl, hof, hstored, -⟩ := hrep.ownReceipt hphase
    exact ⟨fun h => hpending ⟨rc, hstored, hof.planDigest, .inl h⟩,
      fun h => hpending ⟨rc, hstored, hof.planDigest, .inr h⟩⟩
  · obtain ⟨rc, cl', heval, hphase, hconfig, d, hd, hspec⟩ :=
      eval_of_does (cancelOrRestore_does hE hnew hrep hg)
    refine ⟨rc, cl', heval, hphase, hconfig, ?_⟩
    rw [hd, (get_eq_ok h.read).1]
    exact congrArg some hspec
  · intro rc hstored hdigest happlied
    have hphase := hrep.phase_of_stored hnew hstored hdigest
    obtain ⟨hconfig, hspec⟩ := hg.requested _ hphase (.inr (.inr happlied))
    have hcontent := hrep.config
    rw [hconfig] at hcontent
    obtain ⟨d, hd, -, -, hdspec⟩ := hrep.deployment
    rw [hspec] at hdspec
    rw [if_pos rfl] at hcontent hdspec
    rw [hcontent, hd]
    refine ⟨rfl, lookup_setAnnotation_self, ?_⟩
    show some (P.digest d.spec) = _
    rw [hdspec, h.afterSpec]
  · rintro ⟨rc, hstored, hdigest, hback⟩ plan replies
    have hphase := hrep.phase_of_stored hnew hstored hdigest
    exact ((settles_submit_takenBack hrep hg hphase hback).run replies).symm

/-! ## A slot that is taken -/

theorem run_nil (p : Prog ApiCall ApiAns α) (cl : Cluster) :
    (Prog.run execApi p [] cl).2 = cl := by
  cases p with
  | done a | call c next => rfl

/-- A submission that stops when it has stored its plan. -/
theorem run_submit_request (h : Planned P t cl r) (hrequest : cl.request.content.decode = none)
    (hslot : slotFree cl.secrets = true) :
    (Prog.run execApi (submit P t r.plan.intent r.digest (some r)).run [.ok, .ok] cl).2 =
      { cl with request := cl.request.put (.stored r) } := by
  have hdigest := h.validDigest
  have hload : loadRecord P t cl.secrets r.plan.intent = .error .notSubmitted := by
    unfold loadRecord
    rw [show cl.secrets.request.content.decode = none from hrequest]
  have hslotOf : slotOf P r = .stored r := if_pos h.fits
  unfold submit
  rw [ensure_of ⟨h.intended, hdigest⟩]
  show (Prog.run execApi (Api.check (get t cl) >>= _).run [.ok] cl).2 = _
  rw [h.read]
  show (Prog.run execApi (submitRecord P t r.plan.intent r.digest (some r) h.before cl.secrets
    >>= _).run [.ok] cl).2 = _
  unfold submitRecord
  rw [hload]
  dsimp only
  rw [ensure_of ⟨rfl, h.target, h.digest, rfl⟩, ensure_of hslot,
    ensure_of (h.start.preparedResourcesMatch Stage.start_coherent rfl (get_eq_ok h.read).1),
    hslotOf]
  refine (run_nil _ _).trans ?_
  have hput : putSecret cl.request { cl.request with content := .stored r } .ok =
      (.ok (cl.request.put (.stored r)), cl.request.put (.stored r)) := putSecret_ok rfl
  exact congrArg (fun x : _ × Secret (Slot Record) => { cl with request := x.2 }) hput

/-- **A submission is refused while another decision has the slot.** -/
theorem eval_submit_taken (h : Planned P t cl r) {r' : Record}
    (hrequest : cl.request.content = .stored r') (hintent : r'.plan.intent ≠ r.plan.intent)
    (hslot : slotFree cl.secrets = false) :
    (Prog.eval execApi .ok (submit P t r.plan.intent r.digest (some r)).run cl).1 =
      .error .conflict := by
  have hdigest := h.validDigest
  have hload : loadRecord P t cl.secrets r.plan.intent = .error .conflict := by
    unfold loadRecord
    rw [show cl.secrets.request.content = .stored r' from hrequest]
    exact if_neg fun hno => hintent hno.1
  unfold submit
  rw [ensure_of ⟨h.intended, hdigest⟩]
  show (Prog.eval execApi .ok (Api.check (get t cl) >>= _).run cl).1 = _
  rw [h.read]
  show (Prog.eval execApi .ok (submitRecord P t r.plan.intent r.digest (some r) h.before cl.secrets
    >>= _).run cl).1 = _
  unfold submitRecord
  rw [hload]
  dsimp only
  rw [ensure_of ⟨rfl, h.target, h.digest, rfl⟩, ensure_of_not (Bool.eq_false_iff.mp hslot)]
  rfl

/-! ### In the plain installation -/

/-- A plan for the plain installation, whatever request there was before. -/
theorem plain_prepared {job : String} (hjob : job = "job" ∨ job = "other") (version : ℕ)
    (content : Slot Record) :
    ∃ r, prepareFor plainSetting.toPlatform plainTarget (plainIntent job) [plainChange] none none
        { plainCluster with request := ⟨"q", version, false, content⟩ } = .ok r ∧
      r.plan.intent = plainIntent job ∧
      validPlan plainSetting.toPlatform plainTarget r.plan = true := by
  refine exists_of_isOk ?_ fun r hr => ⟨intent_of_prepareFor hr, ?_⟩
  · rcases hjob with rfl | rfl <;> rfl
  · exact (validPlan_iff_movable rfl rfl hr).mpr movable_plain

/-- **A plan that is prepared while another decision has the slot cannot be submitted.** The first
submission stopped when it had stored its plan; the second plan is prepared and valid, nobody has
begun to restore it, and still its submission is refused. -/
theorem submit_refused_while_another_pends : ∃ r₁ r₂ : Record,
      prepareFor plainSetting.toPlatform plainTarget (plainIntent "job") [plainChange] none none
        plainCluster = .ok r₁ ∧
      let cl₀ := Tx.exec (attempt plainSetting.toPlatform plainTarget) plainCluster
        [.submit r₁.plan.intent r₁.digest (some r₁) [.ok, .ok]]
      prepareFor plainSetting.toPlatform plainTarget (plainIntent "other") [plainChange] none none
          cl₀ = .ok r₂ ∧
        validPlan plainSetting.toPlatform plainTarget r₂.plan = true ∧ ¬ TakenBack r₂ cl₀ ∧
        (Prog.eval execApi .ok (submit plainSetting.toPlatform plainTarget r₂.plan.intent r₂.digest
          (some r₂)).run cl₀).1 = .error .conflict := by
  obtain ⟨r₁, hr₁, hintent₁, hvalid₁⟩ := plain_prepared (.inl rfl) 0 .absent
  obtain ⟨r₂, hr₂, hintent₂, hvalid₂⟩ := plain_prepared (.inr rfl) 1 (.stored r₁)
  obtain ⟨h₁⟩ := planned_of_prepareFor hr₁ hvalid₁
  obtain ⟨h₂⟩ := planned_of_prepareFor hr₂ hvalid₂
  have hcl₀ : Tx.exec (attempt plainSetting.toPlatform plainTarget) plainCluster
      [.submit r₁.plan.intent r₁.digest (some r₁) [.ok, .ok]] =
        { plainCluster with request := ⟨"q", 1, false, .stored r₁⟩ } :=
    run_submit_request h₁ rfl rfl
  refine ⟨r₁, r₂, hr₁, ?_⟩
  rw [hcl₀]
  refine ⟨hr₂, hvalid₂, ?_, ?_⟩
  · rintro ⟨rc, hrc, -⟩
    cases hrc
  refine eval_submit_taken h₂ rfl ?_ rfl
  rw [hintent₁, hintent₂]
  decide

theorem rollout_exact_and_recoverable_plain :
    ∃ r : Record, prepareFor plainSetting.toPlatform plainTarget (plainIntent "job") [plainChange]
        none none plainCluster = .ok r ∧
      ∃ rc cl', Prog.eval execApi .ok (cancelOrRestore plainSetting.toPlatform plainTarget
          r.plan.intent r.digest r).run
          (Tx.exec (attempt plainSetting.toPlatform plainTarget) plainCluster
            [.submit r.plan.intent r.digest (some r) [.ok, .ok, .ok, .ok, .ok, .lost]]) =
          (.ok rc, cl') ∧
        rc.phase = .restored ∧ cl'.config.content = plainCluster.config.content ∧
        cl'.deployment.map Deployment.spec = plainCluster.deployment.map Deployment.spec := by
  obtain ⟨r, hr, -, hvalid⟩ := plain_prepared (.inl rfl) 0 .absent
  refine ⟨r, hr, ?_⟩
  refine (rollout_exact_and_recoverable plainSetting.toPlatform plainTarget plainCluster
    ⟨rfl, rfl, rfl⟩ [] (plainIntent "job") [plainChange] none none r hr hvalid
    [.submit r.plan.intent r.digest (some r) [.ok, .ok, .ok, .ok, .ok, .lost]] ?_).2.1
  intro op hop
  rw [List.mem_singleton.mp hop]
  exact ⟨rfl, rfl, .inl rfl⟩

end Hikyo.Rollout
