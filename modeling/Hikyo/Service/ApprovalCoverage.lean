import Hikyo.Service.ProjectRuns

/-!
# What a policy covers

A policy covers an environment so that its published values move only through a
reviewed request. Four services write published values: the publish of drafts,
the declaration of a value, the import and the copy. The publish goes through the
gate; import and copy end in a snapshot whose trigger the policy refuses. The
snapshot of a declare has the trigger `declare`, which `approvalGatedTrigger`
takes for a structural fan-out, and so a declare writes a covered environment
without any request (`declare_sidesteps_policy`).

Everything else keeps to the policy: in a run whose declares stay out of covered
environments every value that is set in one is set by a publish that resolves a
request of that environment (`covered_values_reviewed`).
-/

namespace Hikyo

variable {δ : Type}

/-! ## The environment the gate looks at -/

section Covered

variable {s : ProjectTables δ} {selection : List PendingChange}

theorem coveredEnvironment_eq_none (h : coveredEnvironment s selection = none) {env : EnvId}
    (henv : env ∈ selectionEnvs selection) : s.coveringPolicy env = none := by
  have hnone := List.findSome?_eq_none_iff.mp h env henv
  exact Option.map_eq_none_iff.mp hnone

variable {policy : ApprovalPolicy}

theorem coveredEnvironment_eq_some {env : EnvId}
    (h : coveredEnvironment s selection = some (env, policy)) :
    env ∈ selectionEnvs selection ∧ s.coveringPolicy env = some policy := by
  obtain ⟨env', henv', h⟩ := List.exists_of_findSome?_eq_some h
  obtain ⟨policy', hpolicy, h⟩ := Option.map_eq_some_iff.mp h
  obtain ⟨rfl, rfl⟩ := Prod.mk.inj h
  exact ⟨henv', hpolicy⟩

/-- A selection of one environment is in the covered one. -/
theorem eq_covered_of_mem {env env' : EnvId}
    (hcovered : coveredEnvironment s selection = some (env, policy))
    (hone : (selectionEnvs selection).length ≤ 1) (henv' : env' ∈ selectionEnvs selection) :
    env' = env := by
  have henv := (coveredEnvironment_eq_some hcovered).1
  cases hlist : selectionEnvs selection with
  | nil => exact absurd (hlist ▸ henv) List.not_mem_nil
  | cons a rest =>
    rw [hlist] at hone henv henv'
    obtain rfl := List.length_eq_zero_iff.mp (Nat.le_zero.mp (Nat.le_of_succ_le_succ hone))
    rw [List.mem_singleton.mp henv, List.mem_singleton.mp henv']

end Covered

/-! ## Reviewed writes -/

/-- The step sets or replaces a published value of the environment: a row appears
that was not there. -/
def SetsValueIn (s s' : ProjectTables δ) (env : EnvId) : Prop :=
  ∃ e ∈ s'.values.rows, e ∉ s.values.rows ∧ e.environmentID = env

/-- An active request of the environment is merged or bypassed. -/
def ResolvesRequestIn (s s' : ProjectTables δ) (env : EnvId) : Prop :=
  ∃ r ∈ s.requests.rows, r.environmentID = env ∧ r.state.isActive = true ∧
    ∃ r' ∈ s'.requests.rows, r'.toRequestPins = r.toRequestPins ∧
      (r'.state = .merged ∨ r'.state = .bypassed)

/-- The operation is a publish. -/
def ProjectOp.IsPublish (op : ProjectOp δ) : Prop :=
  ∃ caller env request now, op = .publish caller env request now

variable [DecidableEq δ] (W : Server δ)

/-- **A step that keeps to the policies**: where it sets a value of a covered
environment it is a publish that resolves a request of that environment. -/
def KeepsToPolicies (s : ProjectTables δ) (op : ProjectOp δ) : Prop :=
  ∀ env, (s.environment env).isSome → (s.coveringPolicy env).isSome →
    SetsValueIn s (s.step W op) env → op.IsPublish ∧ ResolvesRequestIn s (s.step W op) env

/-- A declare names no covered environment. -/
def DeclaresUncovered (s : ProjectTables δ) (op : ProjectOp δ) : Prop :=
  ∀ caller envs keyName value, op = .declare caller envs keyName value →
    ∀ env ∈ envs, s.coveringPolicy env = none

variable {W} {s : ProjectTables δ}

variable {s' : ProjectTables δ}

omit [DecidableEq δ] in
/-- What is written where no policy covers the environment sets nothing in a
covered one. -/
theorem not_setsValueIn {E : EnvId → Prop} {env : EnvId}
    (h : Writes W.ids E s s') (henv : ¬ E env) : ¬ SetsValueIn s s' env := by
  rintro ⟨e, he, hnew, rfl⟩
  exact (h.values e he).elim hnew henv

variable {op : ProjectOp δ}

omit [DecidableEq δ] in
/-- Outside the draft flow only a declare reaches a covered environment. -/
theorem not_mayWrite {env : EnvId} (hok : DeclaresUncovered s op)
    (hexists : (s.environment env).isSome) (hcovered : (s.coveringPolicy env).isSome) :
    ¬ op.MayWrite s env := by
  intro hmay
  have huncovered : s.coveringPolicy env ≠ none := Option.isSome_iff_ne_none.mp hcovered
  cases op with
  | declare caller envs keyName value => exact huncovered (hok caller envs keyName value rfl env hmay)
  | importValues | copy => exact huncovered hmay
  | createEnvironment => exact Option.isSome_iff_ne_none.mp hexists hmay
  | _ => exact hmay

omit [DecidableEq δ] in
/-- A publish that sets a value of a covered environment resolves a request of
it. -/
theorem resolvesRequestIn_of_publish {caller : Identity} {scope env : EnvId}
    {request : PublishRequest δ} {loaded : Option (ApprovalRequest δ)} {now : ℕ}
    {versionIDs : List VersionId} {reply : PublishReply δ}
    (hloaded : ∀ req, loaded = some req → req ∈ s.requests.rows)
    (h : PublishEffect W s caller scope request loaded now versionIDs s' reply)
    (hcovered : (s.coveringPolicy env).isSome) (hsets : SetsValueIn s s' env) :
    ResolvesRequestIn s s' env := by
  obtain ⟨e, he, hnew, rfl⟩ := hsets
  cases h with
  | staleDraft | refused | created => exact absurd he hnew
  | delivered hnone hpublish =>
    rcases (writes_publishEnvironments hpublish).values e he with hold | henv
    · exact absurd hold hnew
    · exact absurd (coveredEnvironment_eq_none hnone henv) (Option.isSome_iff_ne_none.mp hcovered)
  | @resolved req policy bypass selection closed s₁ hreq _ hsome hone hresolvable _ _ _ hpublish =>
    have hwrites := writes_publishEnvironments hpublish
    rcases hwrites.values e he with hold | henv
    · exact absurd hold hnew
    · have hmem := hloaded req hreq
      have hmem₁ : req ∈ s₁.requests.rows := hwrites.requests.symm ▸ hmem
      have hreqEnv : req.environmentID = e.environmentID :=
        (eq_covered_of_mem hsome hone henv).symm
      refine ⟨req, hmem, hreqEnv, hresolvable.active, _,
        (ProjectTables.mem_updateRequestState hmem₁).mpr (.inl rfl), rfl, ?_⟩
      cases bypass with
      | false => exact .inl rfl
      | true => exact .inr rfl

/-- **Every step but a declare into a covered environment keeps to the
policies.** -/
theorem keepsToPolicies_step (hok : DeclaresUncovered s op) : KeepsToPolicies W s op := by
  intro env hexists hcovered hsets
  have heffect := stepEffect W s op
  generalize s.step W op = s' at heffect hsets ⊢
  cases heffect with
  | unchanged | rotated =>
    obtain ⟨e, he, hnew, -⟩ := hsets
    exact absurd he hnew
  | written h => exact absurd hsets (not_setsValueIn h (not_mayWrite hok hexists hcovered))
  | policyEdit h =>
    obtain ⟨e, he, hnew, -⟩ := hsets
    exact absurd (h.values ▸ he) hnew
  | published _ h =>
    refine ⟨⟨_, _, _, _, rfl⟩, resolvesRequestIn_of_publish (fun req hnone => ?_) h hcovered hsets⟩
    cases hnone
  | publishedRequest _ hreq h =>
    refine ⟨⟨_, _, _, _, rfl⟩, resolvesRequestIn_of_publish (fun req hsome => ?_) h hcovered hsets⟩
    exact Option.some.inj hsome ▸ (ProjectTables.getRequest_eq_some hreq).1
  | voted _ _ _ h =>
    obtain ⟨e, he, hnew, -⟩ := hsets
    exact absurd (h.reviewEdit.values ▸ he) hnew
  | expired =>
    obtain ⟨e, he, hnew, -⟩ := hsets
    exact absurd ((reviewEdit_expireDue s _ _).1.values ▸ he) hnew
  | deleted =>
    obtain ⟨e, he, hnew, -⟩ := hsets
    exact absurd (Table.Keyed.mem_delete.mp he).1 hnew
  | catalogue h =>
    obtain ⟨e, he, hnew, -⟩ := hsets
    rcases h.values e he with hold | hfalse
    · exact absurd (Table.Keyed.mem_delete.mp hold).1 hnew
    · exact hfalse.elim

/-- **Policies are not sidestepped** in a run whose declares stay out of covered
environments, from any state of the tables. -/
theorem covered_values_reviewed (s : ProjectTables δ) (ops : List (ProjectOp δ))
    (hok : Tx.Along (ProjectTables.step W) DeclaresUncovered s ops) :
    Tx.Along (ProjectTables.step W) (KeepsToPolicies W) s ops :=
  hok.imp fun _ _ => keepsToPolicies_step

/-! ## A small project

One administrator who holds every capability these services ask for, one key and
one environment, which a policy covers. -/

namespace SmallProject

/-- The preview itself as its token. -/
abbrev Token := ℕ × EnvId × PreviewTokenInput

def server : Server Token where
  ids := ⟨fun n => String.ofList (List.replicate n 'x'), fun a b h => by
    simpa using congrArg List.length (String.ofList_injective h)⟩
  tokens := ⟨fun version env input => (version, env, input), id⟩
  sanitizeFreeText := id
  normalize _ value := value

/-- Everybody holds everything in the project, and nothing is refused. -/
def directory : Directory where
  grants _ := [.read, .reveal, .edit, .publish, .definitionsEdit, .projectSettings].map fun c =>
    ⟨c, { org := "o", project := "p" }⟩
  rules _ := []
  admits _ _ _ := true
  generation _ := 0
  account _ := none
  scimUser _ _ := none
  memberships _ _ := []
  mayName _ _ _ := true
  reauthenticated _ _ := true
  valueRefusal _ _ _ := none
  resolvedRefusal _ _ := none
  requiredIn _ _ := false
  parameterized _ := false

def human (principal : PrincipalId) : Identity := ⟨principal, true, true⟩

/-- One approval by bob, for all environments. -/
def policy : ApprovalPolicyInput where
  environmentID := ""
  minApprovals := 1
  allowSelfApproval := false
  requestTTLSeconds := 60
  enabled := true
  approvers := [⟨"principal", "bob", ""⟩]
  bypassers := []

def catalogue : Table.Keyed CatalogueKey.id := ⟨[⟨"k", "DB_URL", "", "", .config⟩], by decide⟩

/-- The key is declared, the environment created, the policy in force. -/
def setup : List (ProjectOp Token) :=
  [.editCatalogue (human "alice") catalogue, .createEnvironment (human "alice") "",
    .createPolicy (human "alice") policy]

/-- The environment's identifier, the first one minted. -/
def env : EnvId := "env_"

def covered : ProjectTables Token :=
  Tx.exec (ProjectTables.step server) (.init "o" "p" directory) setup

/-- What a publish of the one draft, or the merge of a request, carries. -/
def publication (versionIDs : List VersionId) (approvalRequestID : String) : PublishRequest Token where
  versionIDs := versionIDs
  previewToken := none
  confirmedProtectedEnvironments := []
  approvalRequestID := approvalRequestID
  bypass := none
  purpose := ""

/-- A draft is staged, put under review, approved by bob and merged. -/
def review : List (ProjectOp Token) :=
  [.stage (human "alice") env "DB_URL" (.set "v"),
    .publish (human "alice") env (publication ["pcv_xx"] "") 1,
    .vote (human "bob") env "areq_xxx" "approve" 2,
    .publish (human "alice") env (publication [] "areq_xxx") 3]

end SmallProject

open SmallProject in
/-- The review above: the last of its steps sets a value of the covered
environment. -/
theorem review_keepsToPolicies : Tx.Along (ProjectTables.step server) (KeepsToPolicies server)
        (.init "o" "p" directory) (setup ++ review) ∧
      (Tx.exec (ProjectTables.step server) covered review).valueEntry env "k" =
        some ⟨"val_xxxxx", env, "k", "v"⟩ := by
  refine ⟨covered_values_reviewed _ _ ?_, by decide⟩
  refine ⟨?_, ?_, ?_, ?_, ?_, ?_, ?_, trivial⟩ <;> exact nofun

open SmallProject in
/-- **A declare sidesteps the policy**: it sets the value of a covered environment
and there is no request at all. -/
theorem declare_sidesteps_policy :
    ¬ Tx.Along (ProjectTables.step server) (KeepsToPolicies server) (.init "o" "p" directory)
      (setup ++ [.declare (human "alice") [env] "DB_URL" "v"]) := by
  rintro ⟨-, -, -, hdeclare, -⟩
  have hsets : SetsValueIn covered
      (covered.step server (.declare (human "alice") [env] "DB_URL" "v")) env :=
    ⟨⟨"val_xx", env, "k", "v"⟩, by decide, by decide, rfl⟩
  obtain ⟨⟨caller, scope, request, now, hop⟩, -⟩ := hdeclare env (by decide) (by decide) hsets
  cases hop

end Hikyo
