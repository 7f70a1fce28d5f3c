import Hikyo.Domain.RuleContainment

/-!
# Formula evaluation and the grantor bound

An operation is authorized when each atom of its formula is covered by a grant
or reached by a rule (`evaluateWithRules`). Conferring a rule is bounded by
what the grantor holds: `ruleCapabilityHeld` decides it on the selector, by a
project grant, by environment grants, by one rule that contains the selector,
or by the union of all the grantor's selectors.

The union is sound for an atom at an environment with a key, since containment
is exact there. It is not sound for the other atoms. A project atom and an atom
without a key are satisfied by *one* rule that leaves the axis unnarrowed,
whereas several narrowed rules can add up to a selector that leaves it
unnarrowed. The main theorem says exactly when a held selector confers nothing
beyond the grantor's own reach: `AxiswiseHeld`.
-/

namespace Hikyo

open List

/-! ## Grants and formulas -/

/-- A capability at a scope; the empty scope is the instance. -/
structure Grant where
  /-- The capability granted. -/
  capability : Capability
  /-- Where it is granted, and everywhere below. -/
  scope : Scope
  deriving DecidableEq, Repr

/-- A capability evaluated at a level of the resolved chain. -/
structure Atom where
  /-- The capability asked for. -/
  cap : Capability
  /-- The level it is asked at. -/
  lvl : Level
  deriving DecidableEq, Repr

/-- A formula is a conjunction of atoms. -/
abbrev Formula := List Atom

/-- Cut a resolved chain to a level. -/
def truncate (s : Scope) : Level → Scope
  | .none => {}
  | .org => { org := s.org }
  | .project => { org := s.org, project := s.project }
  | .env => s

/-- Whether a grant's scope is an ancestor of a target, or the target itself.
The instance scope covers everything. -/
def covers (g target : Scope) : Bool :=
  if g.org = "" then true
  else if g.org ≠ target.org then false
  else if g.project = "" then true
  else if g.project ≠ target.project then false
  else if g.env = "" then true
  else g.env = target.env

/-- Every atom is covered by at least one grant. -/
def evaluate (f : Formula) (chain : Scope) (grants : List Grant) : Bool :=
  f.all fun atom =>
    grants.any fun g => g.capability = atom.cap && covers g.scope (truncate chain atom.lvl)

/-- **Every atom is covered by a grant or reached by a rule.** Rules are
additive: an exception inside one rule blocks neither another rule nor a
grant. -/
def evaluateWithRules (f : Formula) (chain : Scope) (grants : List Grant) (rules : List Rule)
    (key : Option RuleKey) : Bool :=
  f.all fun atom =>
    evaluate [atom] chain grants ||
      rules.any fun r => decide (r.validate = .ok ()) && r.reaches atom.cap atom.lvl chain key

/-! ## The grantor bound -/

variable {ε : Type}

section

variable (chain : Scope) (grants : List Grant) (capability : Capability)

/-- The selector with its key axis opened. -/
def Where.allKeys (w : Where) : Where := { w with keyMode := .all, keys := ∅ }

/-- The selector a rule holds its capability over. See confers the whole
environment's catalogue, whatever the key axis says. -/
def heldSelector (c : Capability) (w : Where) : Where :=
  if c = .read then w.allKeys else w

/-- Resolve the key items of a list, in order, stopping at the first failure;
the result pairs each identifier with its folder. -/
def resolveItems (resolve : String → Except ε RuleKey) :
    List RuleKeyItem → Except ε (List (String × String))
  | [] => .ok []
  | item :: rest =>
    if item.isFolder then resolveItems resolve rest
    else
      match resolve item.keyId with
      | .error e => .error e
      | .ok key =>
        match resolveItems resolve rest with
        | .error e => .error e
        | .ok pairs => .ok ((item.keyId, key.folder) :: pairs)

/-- Record resolved folders in a map, in order. -/
def recordFolders (m : String → Option String) (pairs : List (String × String)) :
    String → Option String :=
  pairs.foldl (fun m pair => Function.update m pair.1 (some pair.2)) m

/-- The selectors a principal's environment grants stand for: all keys of one
environment each. -/
def envGrantSelectors (grants : List Grant) : List Where :=
  (grants.filter fun g => g.scope.env ≠ "" &&
      evaluate [⟨capability, .env⟩] { chain with env := g.scope.env } [g]).map
    fun g => Where.onlyEnv chain.project g.scope.env

/-- Whether a rule counts for a capability in a project of an organization. -/
def ruleCounts (rule : Rule) : Bool :=
  rule.org = chain.org && rule.capability = capability && decide (rule.validate = .ok ())
    && rule.selector.projects.contains chain.project

/-- The loop over the grantor's rules: one rule that contains the target
settles the question, and at the end the union of everything met so far does. -/
def heldByRules (resolve : String → Except ε RuleKey) (chain : Scope) (capability : Capability)
    (target : Where) : List Rule → List Where → (String → Option String) → Except ε Bool
  | [], selectors, allFolders =>
    if 0 < selectors.length then
      .ok (whereUnionContainsInProject selectors target chain.project allFolders)
    else .ok false
  | rule :: rest, selectors, allFolders =>
    if !ruleCounts chain capability rule then
      heldByRules resolve chain capability target rest selectors allFolders
    else
      let outer := heldSelector capability rule.selector
      match resolveItems resolve (outer.keysAt chain.project ++ target.keysAt chain.project) with
      | .error e => .error e
      | .ok pairs =>
        if outer.containsWhereInProject target chain.project
            (recordFolders (fun _ => none) pairs) then .ok true
        else heldByRules resolve chain capability target rest (selectors ++ [outer])
          (recordFolders allFolders pairs)

/-- **Whether a capability is held over a selector** in the chain's project. -/
def ruleSelectorHeldResolving (rules : List Rule) (capability : Capability) (target : Where)
    (resolve : String → Except ε RuleKey) : Except ε Bool :=
  if evaluate [⟨capability, .project⟩] chain grants then .ok true
  else if target.envMode = .only ∧ 0 < (target.envsAt chain.project).length ∧
      (target.envsAt chain.project).all (fun env =>
        evaluate [⟨capability, .env⟩] { chain with env := env } grants) = true then .ok true
  else heldByRules resolve chain capability target rules
    (envGrantSelectors chain capability grants) (fun _ => none)

/-- **The grantor bound**: whether the grantor's own grants and rules hold the
target's capability over the target's selector in a project. -/
def ruleCapabilityHeld (rules : List Rule) (target : Rule)
    (project : ProjectId) (resolve : String → Except ε RuleKey) : Except ε Bool :=
  ruleSelectorHeldResolving { org := target.org, project := project } grants rules
    target.capability (heldSelector target.capability target.selector) resolve

end

/-! ## Evaluating one atom -/

theorem evaluate_singleton (atom : Atom) (chain : Scope) (grants : List Grant) :
    evaluate [atom] chain grants = true ↔
      ∃ g ∈ grants, g.capability = atom.cap ∧ covers g.scope (truncate chain atom.lvl) = true := by
  simp [evaluate]

theorem evaluateWithRules_singleton (atom : Atom) (chain : Scope) (grants : List Grant)
    (rules : List Rule) (key : Option RuleKey) :
    evaluateWithRules [atom] chain grants rules key = true ↔
      evaluate [atom] chain grants = true ∨
        ∃ r ∈ rules, r.validate = .ok () ∧ r.reaches atom.cap atom.lvl chain key = true := by
  simp [evaluateWithRules]

variable {org : OrgId} {project : ProjectId}

/-- A grant covering a project covers its environments. -/
theorem covers_env_of_project {g : Scope} (h : covers g { org := org, project := project } = true)
    (env : EnvId) : covers g ⟨org, project, env⟩ = true := by
  unfold covers at h ⊢
  by_cases henv : g.env = ""
  · simpa [henv] using h
  · simp only [henv, if_false, decide_false] at h ⊢
    split
    case isTrue => rfl
    case isFalse horg =>
      rw [if_neg horg] at h
      split
      case isTrue hne => rw [if_pos hne] at h; cases h
      case isFalse heq =>
        rw [if_neg heq] at h
        split
        case isTrue => rfl
        case isFalse hproj =>
          rw [if_neg hproj] at h
          split at h <;> cases h

variable {c : Capability} {grants : List Grant} {lvl : Level}

/-- **A project grant satisfies the atom below the project.** -/
theorem evaluate_of_project
    (h : evaluate [⟨c, .project⟩] { org := org, project := project } grants = true)
    (env : EnvId) (hlvl : lvl = .project ∨ lvl = .env) :
    evaluate [⟨c, lvl⟩] ⟨org, project, env⟩ grants = true := by
  obtain ⟨g, hg, hcap, hcov⟩ := (evaluate_singleton _ _ _).mp h
  refine (evaluate_singleton _ _ _).mpr ⟨g, hg, hcap, ?_⟩
  cases hlvl with
  | inl hp => rw [hp]; exact hcov
  | inr he => rw [he]; exact covers_env_of_project hcov env

/-! ## Reach through the held selector -/

namespace Where

/-- The selector leaves the environments of a project unnarrowed. -/
def EnvUnnarrowed (w : Where) (p : ProjectId) : Prop := w.envMode = .all ∧ w.envsAt p = []

/-- The selector leaves the keys of a project unnarrowed. -/
def KeyUnnarrowed (w : Where) (p : ProjectId) : Prop := w.keyMode = .all ∧ w.keysAt p = []

/-- The selector reaches the project level for a key: it leaves environments
unnarrowed or, for a catalogue definition, is no empty pick of them. -/
def ProjectKeyed (w : Where) (c : Capability) (p : ProjectId) : Prop :=
  if c = .definitionsEdit then ¬ (w.envMode = .only ∧ w.envsAt p = []) else w.EnvUnnarrowed p

theorem reachesLevel_project_none (w : Where) (c : Capability) (s : Scope) :
    w.reachesLevel c .project s none = true ↔ w.EnvUnnarrowed s.project := by
  simp [reachesLevel, EnvUnnarrowed]

theorem reachesLevel_project_some (w : Where) (c : Capability) (s : Scope) (key : RuleKey) :
    w.reachesLevel c .project s (some key) = true ↔ w.ProjectKeyed c s.project := by
  by_cases hc : c = .definitionsEdit
  · simp [reachesLevel, ProjectKeyed, hc, imp_iff_not_or]
  · simp [reachesLevel, ProjectKeyed, EnvUnnarrowed, hc]

theorem reachesKey_none_iff (w : Where) (p : ProjectId) :
    w.reachesKey p none = true ↔ w.KeyUnnarrowed p := reachesKey_none p

@[simp] theorem allKeys_keysAt (w : Where) (p : ProjectId) : w.allKeys.keysAt p = [] := rfl

end Where

section Held

variable (c : Capability) (w : Where)

@[simp] theorem heldSelector_envMode : (heldSelector c w).envMode = w.envMode := by
  unfold heldSelector
  split <;> rfl

@[simp] theorem heldSelector_envsAt (p : ProjectId) : (heldSelector c w).envsAt p = w.envsAt p := by
  unfold heldSelector
  split <;> rfl

theorem heldSelector_keyMode_known (h : w.keyMode.Known) : (heldSelector c w).keyMode.Known := by
  unfold heldSelector
  split
  case isTrue => exact trivial
  case isFalse => exact h

theorem heldSelector_reachesLevel (lvl : Level) (s : Scope) (key : Option RuleKey) :
    (heldSelector c w).reachesLevel c lvl s key = w.reachesLevel c lvl s key := by
  unfold heldSelector
  split <;> rfl

theorem heldSelector_reachesKey (p : ProjectId) (key : Option RuleKey) :
    (heldSelector c w).reachesKey p key = true ↔ c = .read ∨ w.reachesKey p key = true := by
  unfold heldSelector
  split
  case isTrue hread =>
    refine iff_of_true ?_ (.inl hread)
    simp [Where.reachesKey, show w.allKeys.keyMode = .all from rfl]
  case isFalse hread => rw [or_iff_right hread]

end Held

/-- **A rule's reach is its held selector's**: the capability, the organization
and the project agree, and both axes of the held selector admit the atom. -/
theorem Rule.reaches_iff_held (r : Rule) (c : Capability) (lvl : Level) (s : Scope)
    (key : Option RuleKey) : r.reaches c lvl s key = true ↔
      c = r.capability ∧ c ≠ .manageMembers ∧ s.org = r.org ∧ s.project ∈ r.selector.projects ∧
        (heldSelector c r.selector).reachesLevel c lvl s key = true ∧
        (heldSelector c r.selector).reachesKey s.project key = true := by
  rw [Rule.reaches_iff, heldSelector_reachesLevel, heldSelector_reachesKey]

/-! ## How a selector is held -/

/-- Every folder of the map comes from the resolver. -/
def FromResolver (resolve : String → Except ε RuleKey) (m : String → Option String) : Prop :=
  ∀ id folder, m id = some folder → ∃ key, resolve id = .ok key ∧ key.folder = folder

/-- A key is consistent with the resolver: a key the resolver knows by its
identifier sits in the folder it gives. -/
def ResolverConsistent (resolve : String → Except ε RuleKey) (key : RuleKey) : Prop :=
  key.id ≠ "" → ∀ k, resolve key.id = .ok k → k.folder = key.folder

variable {resolve : String → Except ε RuleKey} {key : RuleKey}

theorem ResolverConsistent.agrees (h : ResolverConsistent resolve key) {m : String → Option String}
    (hm : FromResolver resolve m) : KeyAgrees m key := by
  intro hid folder hfolder
  obtain ⟨k, hk, rfl⟩ := hm key.id folder hfolder
  exact h hid k hk

theorem resolveItems_eq_ok (items : List RuleKeyItem) :
    ∀ pairs, resolveItems resolve items = .ok pairs →
      ∀ pair ∈ pairs, ∃ key, resolve pair.1 = .ok key ∧ key.folder = pair.2 := by
  induction items with
  | nil =>
    intro pairs h pair hpair
    cases h
    exact absurd hpair not_mem_nil
  | cons item rest ih =>
    intro pairs h
    unfold resolveItems at h
    split at h
    case isTrue => exact ih pairs h
    case isFalse =>
      split at h
      next => cases h
      next key hkey =>
        split at h
        next => cases h
        next ps hps =>
          cases h
          intro pair hpair
          cases mem_cons.mp hpair with
          | inl heq => rw [heq]; exact ⟨key, hkey, rfl⟩
          | inr hin => exact ih ps hps pair hin

theorem fromResolver_recordFolders (pairs : List (String × String)) : ∀ m, FromResolver resolve m →
      (∀ pair ∈ pairs, ∃ key, resolve pair.1 = .ok key ∧ key.folder = pair.2) →
      FromResolver resolve (recordFolders m pairs) := by
  induction pairs with
  | nil => intro m hm _; exact hm
  | cons pair rest ih =>
    intro m hm hpairs
    refine ih _ ?_ fun q hq => hpairs q (mem_cons_of_mem _ hq)
    intro id folder hfolder
    change Function.update m pair.1 (some pair.2) id = some folder at hfolder
    by_cases hid : id = pair.1
    · subst hid
      rw [Function.update_self] at hfolder
      obtain ⟨key, hkey, hk⟩ := hpairs pair mem_cons_self
      exact ⟨key, hkey, hk.trans (Option.some.inj hfolder)⟩
    · rw [Function.update_of_ne hid] at hfolder
      exact hm id folder hfolder

theorem ruleCounts_iff (chain : Scope) (c : Capability) (rule : Rule) :
    ruleCounts chain c rule = true ↔
      rule.org = chain.org ∧ rule.capability = c ∧ rule.validate = .ok () ∧
        chain.project ∈ rule.selector.projects := by
  simp [ruleCounts, and_assoc]

variable {chain : Scope}

/-- **What the loop over the rules can find**: one counting rule that contains
the target, or a union of the given selectors with counting rules that does. -/
theorem heldByRules_eq_true {target : Where} (rules : List Rule) :
    ∀ selectors allFolders, FromResolver resolve allFolders →
      heldByRules resolve chain c target rules selectors allFolders = .ok true →
      (∃ rule ∈ rules, ruleCounts chain c rule = true ∧ ∃ m, FromResolver resolve m ∧
        (heldSelector c rule.selector).Contains target chain.project m) ∨
      (∃ outers m, FromResolver resolve m ∧
        (∀ w ∈ outers, w ∈ selectors ∨ ∃ rule ∈ rules, ruleCounts chain c rule = true ∧
          w = heldSelector c rule.selector) ∧
        whereUnionContainsInProject outers target chain.project m = true) := by
  induction rules with
  | nil =>
    intro selectors allFolders hfolders h
    unfold heldByRules at h
    split at h
    case isTrue =>
      exact .inr ⟨selectors, allFolders, hfolders, fun w hw => .inl hw, Except.ok.inj h⟩
    case isFalse => cases h
  | cons rule rest ih =>
    intro selectors allFolders hfolders h
    unfold heldByRules at h
    split at h
    case isTrue =>
      refine (ih selectors allFolders hfolders h).imp (fun ⟨r, hr, h⟩ => ?_)
        (fun ⟨outers, m, hm, hout, hu⟩ => ?_)
      · exact ⟨r, mem_cons_of_mem _ hr, h⟩
      · refine ⟨outers, m, hm, fun w hw => (hout w hw).imp id ?_, hu⟩
        intro ⟨r, hr, hrw⟩
        exact ⟨r, mem_cons_of_mem _ hr, hrw⟩
    case isFalse hcounts =>
      have hcounts' : ruleCounts chain c rule = true := by
        rwa [Bool.not_eq_true', Bool.not_eq_false] at hcounts
      dsimp only at h
      split at h
      next => cases h
      next pairs hpairs =>
        have hres := resolveItems_eq_ok _ pairs hpairs
        split at h
        case isTrue hcontains =>
          refine .inl ⟨rule, mem_cons_self, hcounts', _, ?_,
            Where.contains_of_containsWhereInProject hcontains⟩
          exact fromResolver_recordFolders pairs _ nofun hres
        case isFalse =>
          refine (ih _ _ (fromResolver_recordFolders pairs _ hfolders hres) h).imp
            (fun ⟨r, hr, h⟩ => ⟨r, mem_cons_of_mem _ hr, h⟩)
            (fun ⟨outers, m, hm, hout, hu⟩ => ⟨outers, m, hm, fun w hw => ?_, hu⟩)
          cases hout w hw with
          | inl hsel =>
            cases mem_append.mp hsel with
            | inl hold => exact .inl hold
            | inr hnew =>
              exact .inr ⟨rule, mem_cons_self, hcounts', mem_singleton.mp hnew⟩
          | inr hrule =>
            obtain ⟨r, hr, hrw⟩ := hrule
            exact .inr ⟨r, mem_cons_of_mem _ hr, hrw⟩

/-- An environment grant's selector is one the grants satisfy the atom at. -/
theorem mem_envGrantSelectors {w : Where} (hw : w ∈ envGrantSelectors chain c grants) :
    ∃ env, env ≠ "" ∧ w = Where.onlyEnv chain.project env ∧
      evaluate [⟨c, .env⟩] { chain with env := env } grants = true := by
  obtain ⟨g, hg, rfl⟩ := mem_map.mp hw
  obtain ⟨hmem, hcond⟩ := mem_filter.mp hg
  rw [Bool.and_eq_true, decide_eq_true_eq] at hcond
  refine ⟨g.scope.env, hcond.1, rfl, ?_⟩
  obtain ⟨g', hg', hcap, hcov⟩ := (evaluate_singleton _ _ _).mp hcond.2
  rw [mem_singleton.mp hg'] at hcap hcov
  exact (evaluate_singleton _ _ _).mpr ⟨g, hmem, hcap, hcov⟩

theorem onlyEnv_envsAt (p : ProjectId) (e : EnvId) : (Where.onlyEnv p e).envsAt p = [e] := by
  simp [Where.envsAt, ItemMap.get, Where.onlyEnv, AList.lookup, AList.singleton]

variable {env : EnvId}

theorem onlyEnv_envMatches {p : ProjectId} {e : EnvId}
    (h : selectorEnvMatches (Where.onlyEnv p e) p env = true) : env = e := by
  simpa [selectorEnvMatches, onlyEnv_envsAt,
    show (Where.onlyEnv p e).envMode = .only from rfl] using h

/-! ## Exactly when a held selector confers no more than is held -/

section Bound

variable (grants : List Grant) (rules : List Rule) (target : Rule) (project : ProjectId)
variable (resolve : String → Except ε RuleKey)

/-- **The grantor confers nothing beyond their own reach**: at project and at
environment level, for a key consistent with the resolver or for none, an atom
the target rule reaches is one that the grantor's grants and rules satisfy. -/
def ConfersWithin : Prop :=
  ∀ (lvl : Level) (env : EnvId) (key : Option RuleKey), lvl = .project ∨ lvl = .env →
    (∀ k, key = some k → ResolverConsistent resolve k) →
    target.reaches target.capability lvl ⟨target.org, project, env⟩ key = true →
    evaluateWithRules [⟨target.capability, lvl⟩] ⟨target.org, project, env⟩ grants rules key = true

/-- The rule counts towards the target's capability in the project. -/
def Counts (r : Rule) : Prop :=
  r ∈ rules ∧ ruleCounts { org := target.org, project := project } target.capability r = true

/-- The selector the target confers its capability over. -/
def conferred : Where := heldSelector target.capability target.selector

/-- The selector a counting rule holds the capability over. -/
def holding (r : Rule) : Where := heldSelector target.capability r.selector

/-- **What an axis left open asks for.** Whenever the target leaves an axis
open to atoms that name nothing on it, the selectors that leave the axis open
in the same way have to cover the other axis by themselves. -/
structure AxiswiseHeld : Prop where
  /-- No key: if the target leaves keys unnarrowed, then each environment it
  matches is granted or matched by a rule that leaves keys unnarrowed. -/
  without_key : (conferred target).KeyUnnarrowed project → ∀ env, env ≠ "" →
    selectorEnvMatches (conferred target) project env = true →
    evaluate [⟨target.capability, .env⟩] ⟨target.org, project, env⟩ grants = true ∨
      ∃ r, Counts rules target project r ∧ (holding target r).KeyUnnarrowed project ∧
        selectorEnvMatches (holding target r) project env = true
  /-- No environment: if the target reaches the project level for a key, then
  each key it matches is matched by a rule that reaches the project level. -/
  without_env : (conferred target).ProjectKeyed target.capability project →
    ∀ key, ResolverConsistent resolve key →
    selectorKeyMatches (conferred target) project key = true →
      ∃ r, Counts rules target project r ∧
        (holding target r).ProjectKeyed target.capability project ∧
        selectorKeyMatches (holding target r) project key = true
  /-- Neither: if the target is unnarrowed on both axes, so is one rule. -/
  without_both : (conferred target).EnvUnnarrowed project →
    (conferred target).KeyUnnarrowed project →
      ∃ r, Counts rules target project r ∧ (holding target r).EnvUnnarrowed project ∧
        (holding target r).KeyUnnarrowed project

variable {grants rules target project resolve}

variable {r : Rule}

theorem Counts.valid (h : Counts rules target project r) : r.Valid := by
  have hc := (ruleCounts_iff _ _ _).mp h.2
  exact (Rule.validate_eq_ok_iff r).mp hc.2.2.1

/-- A counting rule reaches what both axes of its held selector admit. -/
theorem Counts.reaches_iff (h : Counts rules target project r)
    (hcap : target.capability ≠ .manageMembers) (lvl : Level) (env : EnvId) (key : Option RuleKey) :
    r.reaches target.capability lvl ⟨target.org, project, env⟩ key = true ↔
      (holding target r).reachesLevel target.capability lvl ⟨target.org, project, env⟩ key = true ∧
        (holding target r).reachesKey project key = true := by
  obtain ⟨horg, hc, -, hproj⟩ := (ruleCounts_iff _ _ _).mp h.2
  rw [Rule.reaches_iff_held]
  constructor
  · intro hr
    exact hr.2.2.2.2
  · intro hr
    exact ⟨hc.symm, hcap, horg.symm, hproj, hr⟩

/-- A rule of the grantor that reaches an atom of the target's capability in
the project counts. -/
theorem counts_of_reaches (hr : r ∈ rules) (hv : r.validate = .ok ()) {key : Option RuleKey}
    (h : r.reaches target.capability lvl ⟨target.org, project, env⟩ key = true) :
    Counts rules target project r := by
  obtain ⟨hc, -, horg, hproj, -⟩ := (Rule.reaches_iff_held _ _ _ _ _).mp h
  exact ⟨hr, (ruleCounts_iff _ _ _).mpr ⟨horg.symm, hc.symm, hv, hproj⟩⟩

/-- **An atom of the target's capability is satisfied** exactly by a grant or
by a counting rule both of whose axes admit it. -/
theorem evaluateWithRules_iff_counts (hcap : target.capability ≠ .manageMembers) (lvl : Level)
    (env : EnvId) (key : Option RuleKey) :
    evaluateWithRules [⟨target.capability, lvl⟩] ⟨target.org, project, env⟩ grants rules key
        = true ↔
      evaluate [⟨target.capability, lvl⟩] ⟨target.org, project, env⟩ grants = true ∨
        ∃ r, Counts rules target project r ∧
          (holding target r).reachesLevel target.capability lvl ⟨target.org, project, env⟩ key
            = true ∧
          (holding target r).reachesKey project key = true := by
  rw [evaluateWithRules_singleton]
  refine or_congr_right ⟨?_, ?_⟩
  · intro ⟨r, hr, hv, hreach⟩
    have hcounts := counts_of_reaches hr hv hreach
    exact ⟨r, hcounts, (hcounts.reaches_iff hcap lvl env key).mp hreach⟩
  · intro ⟨r, hcounts, hadmit⟩
    exact ⟨r, hcounts.1, (Rule.validate_eq_ok_iff r).mpr hcounts.valid,
      (hcounts.reaches_iff hcap lvl env key).mpr hadmit⟩

/-- **A held selector is sound at an environment with a key**: what it matches
there is granted or matched by a counting rule. -/
theorem held_env_key (htarget : target.Valid)
    (hheld : ruleCapabilityHeld grants rules target project resolve = .ok true) (hne : env ≠ "")
    (hkey : ResolverConsistent resolve key)
    (henv : selectorEnvMatches (conferred target) project env = true)
    (hmatch : selectorKeyMatches (conferred target) project key = true) :
    evaluate [⟨target.capability, .env⟩] ⟨target.org, project, env⟩ grants = true ∨
      ∃ r, Counts rules target project r ∧
        selectorEnvMatches (holding target r) project env = true ∧
        selectorKeyMatches (holding target r) project key = true := by
  unfold ruleCapabilityHeld ruleSelectorHeldResolving at hheld
  split at hheld
  case isTrue hproj => exact .inl (evaluate_of_project hproj env (.inr rfl))
  case isFalse =>
  split at hheld
  case isTrue honly =>
    -- an only-selector whose environments are all granted
    obtain ⟨hmode, -, hall⟩ := honly
    have hmem : env ∈ (heldSelector target.capability target.selector).envsAt project := by
      have h := henv
      rw [selectorEnvMatches, conferred, hmode] at h
      simpa using h
    exact .inl (all_eq_true.mp hall env hmem)
  case isFalse =>
  have hempty : FromResolver resolve (fun _ => none) := by rintro _ _ ⟨⟩
  cases heldByRules_eq_true rules _ _ hempty hheld with
  | inl hone =>
    obtain ⟨r, hr, hcounts, m, hm, hcontains⟩ := hone
    exact .inr ⟨r, ⟨hr, hcounts⟩, hcontains.env_matches env henv,
      hcontains.key_matches key (hkey.agrees hm) hmatch⟩
  | inr hunion =>
    obtain ⟨outers, m, hm, houters, hu⟩ := hunion
    have hsome := isSome_of_whereUnionContains hu
    have hcons : KeyConsistent outers (conferred target) project m key := by
      intro hid hids
      obtain ⟨folder, hfolder⟩ := Option.isSome_iff_exists.mp (hsome key.id hids)
      rw [hfolder, (hkey.agrees hm) hid folder hfolder]
    have hnoempty : "" ∉ namedEnvs outers (conferred target) project := by
      intro hin
      obtain ⟨w, hw, he⟩ := (mem_namedEnvs _ _ _ "").mp hin
      cases mem_append.mp hw with
      | inr hinner =>
        rw [mem_singleton.mp hinner, conferred, heldSelector_envsAt] at he
        exact htarget.env_ne_empty he rfl
      | inl hout =>
        cases houters w hout with
        | inl hgrant =>
          obtain ⟨e, hene, rfl, -⟩ := mem_envGrantSelectors hgrant
          rw [onlyEnv_envsAt, mem_singleton] at he
          exact hene he.symm
        | inr hrule =>
          obtain ⟨r, hr, hcounts, rfl⟩ := hrule
          rw [heldSelector_envsAt] at he
          exact (Counts.valid ⟨hr, hcounts⟩).env_ne_empty he rfl
    obtain ⟨outer, hout, -, hoe, hok⟩ :=
      (whereUnionContainsInProject_iff hsome hnoempty).mp hu env hne key hcons henv hmatch
    cases houters outer hout with
    | inl hgrant =>
      obtain ⟨e, -, rfl, heval⟩ := mem_envGrantSelectors hgrant
      rw [onlyEnv_envMatches hoe]
      exact .inl heval
    | inr hrule =>
      obtain ⟨r, hr, hcounts, rfl⟩ := hrule
      exact .inr ⟨r, ⟨hr, hcounts⟩, hoe, hok⟩

/-- **Exactly when a held selector confers no more than is held.** A grantor
whose grants and rules hold the target's capability over its selector in a
project confers nothing beyond their own reach there if and only if the
target does not name the project, or the grantor holds a project grant, or the
axes the target leaves open are covered axis by axis. -/
theorem confersWithin_iff_axiswiseHeld (htarget : target.validate = .ok ())
    (hcap : target.capability ≠ .manageMembers)
    (hheld : ruleCapabilityHeld grants rules target project resolve = .ok true) :
    ConfersWithin grants rules target project resolve ↔
      (project ∈ target.selector.projects →
        evaluate [⟨target.capability, .project⟩] { org := target.org, project := project } grants
          = false →
        AxiswiseHeld grants rules target project resolve) := by
  have hvalid := (Rule.validate_eq_ok_iff target).mp htarget
  have hmodeE : (conferred target).envMode.Known := by
    rw [conferred, heldSelector_envMode]
    exact hvalid.envMode
  have hmodeK : (conferred target).keyMode.Known :=
    heldSelector_keyMode_known _ _ hvalid.keyMode
  have hmodes : ∀ r, Counts rules target project r →
      (holding target r).envMode.Known ∧ (holding target r).keyMode.Known := by
    intro r hr
    refine ⟨?_, heldSelector_keyMode_known _ _ hr.valid.keyMode⟩
    rw [holding, heldSelector_envMode]
    exact hr.valid.envMode
  -- what the target reaches, axis by axis
  have hreach : project ∈ target.selector.projects → ∀ lvl env key,
      (conferred target).reachesLevel target.capability lvl ⟨target.org, project, env⟩ key = true →
      (conferred target).reachesKey project key = true →
      target.reaches target.capability lvl ⟨target.org, project, env⟩ key = true :=
    fun hp lvl env key hl hk => (Rule.reaches_iff_held _ _ _ _ _).mpr ⟨rfl, hcap, rfl, hp, hl, hk⟩
  constructor
  · intro hconf hp hnogrant
    have hungranted : ∀ env, evaluate [⟨target.capability, .project⟩]
        ⟨target.org, project, env⟩ grants ≠ true := by
      intro env h
      exact Bool.eq_false_iff.mp hnogrant h
    refine ⟨?_, ?_, ?_⟩
    · intro hopen env hne henv
      have hr := hconf .env env none (.inr rfl) nofun
        (hreach hp _ _ _ ((Where.reachesLevel_env hmodeE _ _ _).mpr ⟨hne, henv⟩)
          ((Where.reachesKey_none_iff _ _).mpr hopen))
      refine ((evaluateWithRules_iff_counts hcap _ _ _).mp hr).imp id ?_
      intro ⟨r, hr, hl, hk⟩
      exact ⟨r, hr, (Where.reachesKey_none_iff _ _).mp hk,
        ((Where.reachesLevel_env (hmodes r hr).1 _ _ _).mp hl).2⟩
    · intro hopen key hkey hmatch
      have hr := hconf .project "" (some key) (.inl rfl) (fun k h => Option.some.inj h ▸ hkey)
        (hreach hp _ _ _ ((Where.reachesLevel_project_some _ _ _ _).mpr hopen)
          ((Where.reachesKey_some hmodeK _ _).trans hmatch))
      obtain ⟨r, hr, hl, hk⟩ :=
        ((evaluateWithRules_iff_counts hcap _ _ _).mp hr).resolve_left (hungranted "")
      exact ⟨r, hr, (Where.reachesLevel_project_some _ _ _ _).mp hl,
        (Where.reachesKey_some (hmodes r hr).2 _ _).symm.trans hk⟩
    · intro hopenE hopenK
      have hr := hconf .project "" none (.inl rfl) nofun
        (hreach hp _ _ _ ((Where.reachesLevel_project_none _ _ _).mpr hopenE)
          ((Where.reachesKey_none_iff _ _).mpr hopenK))
      obtain ⟨r, hr, hl, hk⟩ :=
        ((evaluateWithRules_iff_counts hcap _ _ _).mp hr).resolve_left (hungranted "")
      exact ⟨r, hr, (Where.reachesLevel_project_none _ _ _).mp hl,
        (Where.reachesKey_none_iff _ _).mp hk⟩
  · intro hcond lvl env key hlvl hkey htr
    obtain ⟨-, -, -, hp, hl, hk⟩ := (Rule.reaches_iff_held _ _ _ _ _).mp htr
    rw [evaluateWithRules_iff_counts hcap]
    cases hgrant : evaluate [⟨target.capability, .project⟩]
        { org := target.org, project := project } grants with
    | true => exact .inl (evaluate_of_project hgrant env hlvl)
    | false =>
      have haxis := hcond hp hgrant
      cases hlvl with
      | inl hproj =>
        subst hproj
        cases key with
        | none =>
          obtain ⟨r, hr, hre, hrk⟩ := haxis.without_both
            ((Where.reachesLevel_project_none _ _ _).mp hl)
            ((Where.reachesKey_none_iff _ _).mp hk)
          exact .inr ⟨r, hr, (Where.reachesLevel_project_none _ _ _).mpr hre,
            (Where.reachesKey_none_iff _ _).mpr hrk⟩
        | some k =>
          obtain ⟨r, hr, hre, hrk⟩ := haxis.without_env
            ((Where.reachesLevel_project_some _ _ _ _).mp hl) k (hkey k rfl)
            ((Where.reachesKey_some hmodeK _ _).symm.trans hk)
          exact .inr ⟨r, hr, (Where.reachesLevel_project_some _ _ _ _).mpr hre,
            (Where.reachesKey_some (hmodes r hr).2 _ _).trans hrk⟩
      | inr henvl =>
        subst henvl
        obtain ⟨hne, henv⟩ := (Where.reachesLevel_env hmodeE _ _ _).mp hl
        cases key with
        | none =>
          refine (haxis.without_key ((Where.reachesKey_none_iff _ _).mp hk) env hne henv).imp id ?_
          intro ⟨r, hr, hrk, hre⟩
          exact ⟨r, hr, (Where.reachesLevel_env (hmodes r hr).1 _ _ _).mpr ⟨hne, hre⟩,
            (Where.reachesKey_none_iff _ _).mpr hrk⟩
        | some k =>
          refine (held_env_key hvalid hheld hne (hkey k rfl) henv
            ((Where.reachesKey_some hmodeK _ _).symm.trans hk)).imp id ?_
          intro ⟨r, hr, hre, hrk⟩
          exact ⟨r, hr, (Where.reachesLevel_env (hmodes r hr).1 _ _ _).mpr ⟨hne, hre⟩,
            (Where.reachesKey_some (hmodes r hr).2 _ _).trans hrk⟩

end Bound

/-- The rule conferring `definitions-edit` over a selector. -/
def defineRule (org : OrgId) (w : Where) : Rule :=
  { capability := .definitionsEdit, org := org, selector := w }

/-- A grantor who holds one rule over the whole project confers a rule over
the whole project within their own reach. -/
theorem confersWithin_everything :
    ConfersWithin [] [defineRule "o" (.everything "p")] (defineRule "o" (.everything "p")) "p"
      (fun _ => .error ()) := by
  refine (confersWithin_iff_axiswiseHeld (by decide) (by decide) (by rfl)).mpr fun _ _ => ?_
  have hcounts : Counts [defineRule "o" (.everything "p")] (defineRule "o" (.everything "p")) "p"
      (defineRule "o" (.everything "p")) := ⟨mem_cons_self, by decide⟩
  exact ⟨fun hopen env _ henv => .inr ⟨_, hcounts, hopen, henv⟩,
    fun hopen key _ hkey => ⟨_, hcounts, hopen, hkey⟩,
    fun hopenE hopenK => ⟨_, hcounts, hopenE, hopenK⟩⟩

/-- Two rules whose environment exceptions complement one another hold the
whole project, but neither satisfies the project atom without a key – which
the rule conferred reaches. -/
theorem complementary_rules_confer_beyond : (defineRule "o" (.everything "p")).validate = .ok () ∧
      (∀ r ∈ [defineRule "o" (.allButEnv "p" "e1"), defineRule "o" (.onlyEnv "p" "e1")],
        r.validate = .ok ()) ∧
      ruleCapabilityHeld [] [defineRule "o" (.allButEnv "p" "e1"),
          defineRule "o" (.onlyEnv "p" "e1")] (defineRule "o" (.everything "p")) "p"
          (fun _ => .error ()) = .ok true ∧
      ¬ ConfersWithin [] [defineRule "o" (.allButEnv "p" "e1"),
          defineRule "o" (.onlyEnv "p" "e1")] (defineRule "o" (.everything "p")) "p"
          (fun _ => Except.error ()) := by
  refine ⟨by decide, by decide, by rfl, fun hconf => ?_⟩
  have hatom := hconf .project "" none (.inl rfl) nofun (by decide)
  exact absurd hatom (by decide)

end Hikyo
