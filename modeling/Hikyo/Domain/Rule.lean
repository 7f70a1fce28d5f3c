import Hikyo.Lib.Transactions

/-!
# Member access rules

A rule is one capability for one principal inside one organization, with a
selector – its *where* – of projects, environments and keys. The environment
and key axes are read per project: under `all` the items of a project are
exceptions, under `only` they are the complete list. `Rule.validate` is the
shape authority, applied on every write and every read; `Rule.reaches` answers
whether a rule satisfies one atom of an authorization formula.

Capabilities and scope levels are those of the permission model. Identifiers
are the opaque strings of the source, the empty string standing for an absent
one, and a Go map from projects to item lists is an association list with
distinct keys.
-/

namespace Hikyo

open List
open Tx (ensure ensure_eq_ok except_bind_eq_ok)

/-! ## Capabilities, levels and scopes -/

/-- The closed set of capability atoms. -/
inductive Capability where
  | read | reveal | revealHistory | edit | publish | pin
  | definitionsEdit | projectSettings | manageIdentities | manageAdapters
  | manageMembers | manageProjects
  | backupExport | restore | rotateRootKey | rotateMasterKey | rotateDEK | reencrypt
  | instanceConfig | instanceDirectory
  | scimProvision | auditRead | credentialReset | reportDeliveryStatus
  | cryptoUse | cryptoManage | issueCertificate
  deriving DecidableEq, Repr

namespace Capability

/-- The atom as it is stored and printed. -/
def text : Capability → String
  | read => "read" | reveal => "reveal" | revealHistory => "reveal-history"
  | edit => "edit" | publish => "publish" | pin => "pin"
  | definitionsEdit => "definitions-edit" | projectSettings => "project-settings"
  | manageIdentities => "manage-identities" | manageAdapters => "manage-adapters"
  | manageMembers => "manage-members" | manageProjects => "manage-projects"
  | backupExport => "backup-export" | restore => "restore"
  | rotateRootKey => "rotate-root-key" | rotateMasterKey => "rotate-master-key"
  | rotateDEK => "rotate-dek" | reencrypt => "reencrypt"
  | instanceConfig => "instance-config" | instanceDirectory => "instance-directory"
  | scimProvision => "scim-provision" | auditRead => "audit-read"
  | credentialReset => "credential-reset"
  | reportDeliveryStatus => "report-delivery-status"
  | cryptoUse => "crypto-use" | cryptoManage => "crypto-manage"
  | issueCertificate => "issue-certificate"

end Capability

/-- The depth a scope addresses, or an atom is evaluated at. -/
inductive Level where
  | none | org | project | env
  deriving DecidableEq, Repr

/-- An organization's identifier. -/
abbrev OrgId := String
/-- A project's identifier. -/
abbrev ProjectId := String
/-- An environment's identifier. -/
abbrev EnvId := String
/-- A principal's identifier. -/
abbrev PrincipalId := String

/-- A node of the tenant chain as a request names it: the organization, the
project in it, the environment in that. The empty scope is the instance. -/
structure Scope where
  /-- The organization, or the empty string. -/
  org : OrgId := ""
  /-- The project, or the empty string. -/
  project : ProjectId := ""
  /-- The environment, or the empty string. -/
  env : EnvId := ""
  deriving DecidableEq, Repr

/-! ## Selectors -/

/-- How the items of an axis are read: as exceptions, as the complete list, or
– a stored text that is neither – not at all. -/
inductive AxisMode where
  | all | only
  | other (text : String)
  deriving DecidableEq, Repr

namespace AxisMode

/-- The mode is one of the two the product writes. -/
def Known : AxisMode → Prop
  | all | only => True
  | other _ => False

instance : DecidablePred Known
  | all | only => isTrue trivial
  | other _ => isFalse id

/-- The mode as it is stored and printed. -/
def text : AxisMode → String
  | all => "all"
  | only => "only"
  | other t => t

end AxisMode

/-- One item of the key axis: a folder path, or a single key by its stable
identifier. -/
structure RuleKeyItem where
  /-- The folder path of a folder item. -/
  folder : String := ""
  /-- The identifier of a key item. -/
  keyId : String := ""
  /-- Which of the two the item is. -/
  isFolder : Bool := false
  deriving DecidableEq, Repr

/-- The items of one axis, by project. -/
abbrev ItemMap (α : Type) := AList (fun _ : ProjectId => List α)

/-- The items bound to a project; a project absent from the map has none. -/
def ItemMap.get {α : Type} (m : ItemMap α) (p : ProjectId) : List α :=
  (m.lookup p).getD []

/-- **A rule's reach**: the projects it names, and per project the items of
its environment axis and of its key axis. -/
structure Where where
  /-- The projects the rule names. -/
  projects : List ProjectId := []
  /-- How the environment items are read. -/
  envMode : AxisMode := .all
  /-- The environment items, by project. -/
  envs : ItemMap EnvId := ∅
  /-- How the key items are read. -/
  keyMode : AxisMode := .all
  /-- The key items, by project. -/
  keys : ItemMap RuleKeyItem := ∅

/-- One stored rule with its selector. -/
structure Rule where
  /-- The rule's identifier. -/
  id : String := ""
  /-- The principal holding the rule. -/
  principal : PrincipalId := ""
  /-- The one capability the rule confers. -/
  capability : Capability
  /-- The organization the rule lives in. -/
  org : OrgId
  /-- Where the capability is conferred. -/
  selector : Where

/-- The key a key-aware authorization addresses. The identifier is empty for a
key being created, which only folder items can match. -/
structure RuleKey where
  /-- The key's stable identifier, or the empty string. -/
  id : String := ""
  /-- The folder the key sits in. -/
  folder : String := ""
  deriving DecidableEq, Repr

namespace Where

/-- The environment items of a project. -/
def envsAt (w : Where) (p : ProjectId) : List EnvId := ItemMap.get w.envs p

/-- The key items of a project. -/
def keysAt (w : Where) (p : ProjectId) : List RuleKeyItem := ItemMap.get w.keys p

/-- The selector narrows environments anywhere. -/
def envNarrowed (w : Where) : Bool :=
  w.envMode ≠ .all || w.envs.entries.any (fun e => 0 < e.2.length)

/-- The selector narrows keys anywhere. -/
def keyNarrowed (w : Where) : Bool :=
  w.keyMode ≠ .all || w.keys.entries.any (fun e => 0 < e.2.length)

end Where

/-! ## Validation -/

/-- The narrowest selector a capability may sit on. -/
inductive RuleShape where
  /-- May be narrowed by environment and by key. -/
  | key
  /-- May be narrowed by environment, never by key. -/
  | env
  /-- Needs every environment and every key of its projects. -/
  | project
  deriving DecidableEq, Repr

/-- The capabilities a rule may carry, with their shapes; every other atom is
refused. -/
def ruleShapeOf : Capability → Option RuleShape
  | .read => some .env
  | .edit => some .key
  | .publish => some .key
  | .pin => some .env
  | .reveal => some .key
  | .revealHistory => some .key
  | .definitionsEdit => some .key
  | .manageMembers => some .key
  | .manageIdentities => some .project
  | .manageAdapters => some .project
  | .projectSettings => some .project
  | _ => none

/-- The bound on a selector's items: projects, environments and keys
together. -/
def maxRuleItems : ℕ := 500

/-- The sentinel an error wraps. -/
inductive ErrKind where
  | invalid | limitExceeded
  deriving DecidableEq, Repr

/-- What `Rule.validate` refuses, one constructor per refusal. -/
inductive RuleError where
  | noOrg
  | capabilityWithoutRule (c : Capability)
  | noProject
  | projectEmptyOrTwice (p : ProjectId)
  | envMode (m : AxisMode)
  | keyMode (m : AxisMode)
  | envOutside (p : ProjectId)
  | envEmptyOrTwice (e : EnvId)
  | onlyWithoutEnv
  | keyOutside (p : ProjectId)
  | keyMalformedOrTwice
  | onlyWithoutKey
  | tooManyItems
  | keyNarrowed (c : Capability)
  | projectNarrowed (c : Capability)
  deriving DecidableEq, Repr

namespace RuleError

/-- Every refusal is an invalid request, but the one of the item bound. -/
def kind : RuleError → ErrKind
  | tooManyItems => .limitExceeded
  | _ => .invalid

/-- A text between double quotes. -/
def quoted (s : String) : String := "\"" ++ s ++ "\""

/-- The message of a refusal, after the sentinel's own text. -/
def message : RuleError → String
  | noOrg => "a rule lives in exactly one organization"
  | capabilityWithoutRule c => "capability " ++ quoted c.text ++ " cannot be held on a rule"
  | noProject => "a rule names at least one project"
  | projectEmptyOrTwice p => "project " ++ quoted p ++ " is empty or named twice"
  | envMode m => "environment mode " ++ quoted m.text
  | keyMode m => "key mode " ++ quoted m.text
  | envOutside p => "environment items name project " ++ quoted p ++ " outside the rule"
  | envEmptyOrTwice e => "environment " ++ quoted e ++ " is empty or named twice"
  | onlyWithoutEnv => "an only-environments rule names at least one environment"
  | keyOutside p => "key items name project " ++ quoted p ++ " outside the rule"
  | keyMalformedOrTwice => "a key item is malformed or named twice"
  | onlyWithoutKey => "an only-keys rule names at least one folder or key"
  | tooManyItems =>
    "a rule names at most " ++ toString maxRuleItems ++ " projects, environments and keys"
  | keyNarrowed c =>
    c.text ++ " cannot be narrowed by keys; it needs all keys of an environment"
  | projectNarrowed c => c.text ++ " needs a whole project (all environments, all keys)"

end RuleError

/-- The loop over a list that refuses the first item that is malformed or
stands earlier on the list; `seen` is the part already passed. -/
def checkItems {α : Type} [DecidableEq α] (malformed : α → Bool) (err : α → RuleError) :
    List α → List α → Except RuleError Unit
  | _, [] => .ok ()
  | seen, x :: xs =>
    if malformed x ∨ x ∈ seen then .error (err x)
    else checkItems malformed err (seen ++ [x]) xs

/-- The loop over an axis: every entry belongs to a named project and its items
pass `checkItems`; the result is the number of items. -/
def checkAxis {α : Type} [DecidableEq α] (projects : List ProjectId) (malformed : α → Bool)
    (outside : ProjectId → RuleError) (err : α → RuleError) :
    List (Sigma fun _ : ProjectId => List α) → Except RuleError ℕ
  | [] => .ok 0
  | ⟨p, items⟩ :: rest =>
    if p ∉ projects then .error (outside p)
    else
      match checkItems malformed err [] items with
      | .error e => .error e
      | .ok () =>
        match checkAxis projects malformed outside err rest with
        | .error e => .error e
        | .ok n => .ok (items.length + n)

/-- A key item has an identifier exactly when it is not a folder item. -/
def RuleKeyItem.malformed (k : RuleKeyItem) : Bool :=
  (!k.isFolder && k.keyId = "") || (k.isFolder && k.keyId ≠ "")

/-- The last check of `Rule.validate`: the narrowing a capability's shape
forbids. -/
def checkShape (c : Capability) (w : Where) : RuleShape → Except RuleError Unit
  | .key => .ok ()
  | .env => ensure (¬ (w.keyNarrowed = true ∧ c ≠ .read)) (.keyNarrowed c)
  | .project => ensure (¬ (w.keyNarrowed = true ∨ w.envNarrowed = true)) (.projectNarrowed c)

/-- **The shape authority for a rule.** A stored row that does not validate
reaches nothing. -/
def Rule.validate (r : Rule) : Except RuleError Unit := do
  ensure (r.org ≠ "") .noOrg
  match ruleShapeOf r.capability with
  | none => .error (.capabilityWithoutRule r.capability)
  | some shape =>
    let w := r.selector
    ensure (w.projects ≠ []) .noProject
    checkItems (fun p => p = "") .projectEmptyOrTwice [] w.projects
    ensure w.envMode.Known (.envMode w.envMode)
    ensure w.keyMode.Known (.keyMode w.keyMode)
    let envTotal ← checkAxis w.projects (fun e => e = "") .envOutside .envEmptyOrTwice
      w.envs.entries
    ensure (¬ (w.envMode = .only ∧ envTotal = 0)) .onlyWithoutEnv
    let keyTotal ← checkAxis w.projects RuleKeyItem.malformed .keyOutside
      (fun _ => .keyMalformedOrTwice) w.keys.entries
    ensure (¬ (w.keyMode = .only ∧ keyTotal = 0)) .onlyWithoutKey
    ensure (¬ (w.projects.length + envTotal + keyTotal > maxRuleItems)) .tooManyItems
    checkShape r.capability w shape

/-! ## Reach -/

/-- Whether `s` begins with `pre`. -/
def hasPrefix (s pre : String) : Bool := pre.toList.isPrefixOf s.toList

namespace Where

/-- The environment part of a reach: what an atom of capability `c` evaluated
at `lvl` asks of the environment axis. -/
def reachesLevel (w : Where) (c : Capability) (lvl : Level) (s : Scope)
    (key : Option RuleKey) : Bool :=
  let envs := w.envsAt s.project
  match lvl with
  | .project =>
    if c = .definitionsEdit ∧ key.isSome then
      -- the catalogue is shared by every environment, so a key-aware catalogue
      -- mutation only asks that the axis is not an empty pick
      !(w.envMode = .only && envs.length = 0)
    else !(w.envMode ≠ .all || 0 < envs.length)
  | .env =>
    if s.env = "" then false
    else
      let listed := envs.contains s.env
      !(w.envMode = .only && !listed || w.envMode = .all && listed)
  | _ => false

/-- Whether one item of the key axis matches a key. An exception of a folder
also excepts its subfolders; a pick of a folder admits that folder exactly. -/
def itemMatches (w : Where) (key : RuleKey) (it : RuleKeyItem) : Bool :=
  if !it.isFolder then key.id ≠ "" && it.keyId = key.id
  else if it.folder = key.folder then true
  else w.keyMode = .all && it.folder ≠ "" && hasPrefix key.folder (it.folder ++ "/")

/-- The key part of a reach: a selector narrowed by keys needs a key, and the
key has to match. -/
def reachesKey (w : Where) (p : ProjectId) (key : Option RuleKey) : Bool :=
  let items := w.keysAt p
  if w.keyMode = .all ∧ items.length = 0 then true
  else
    match key with
    | none => false
    | some key =>
      let matched := items.any (w.itemMatches key)
      if w.keyMode = .only then matched else !matched

end Where

/-- **Whether a rule satisfies one formula atom** – capability `c` evaluated at
level `lvl` – against the resolved chain `s`, for one key or for none. -/
def Rule.reaches (r : Rule) (c : Capability) (lvl : Level) (s : Scope)
    (key : Option RuleKey) : Bool :=
  if c ≠ r.capability ∨ c = .manageMembers ∨ s.org ≠ r.org then false
  else if !r.selector.projects.contains s.project then false
  else if !r.selector.reachesLevel c lvl s key then false
  -- See covers the environment catalogue, whatever the key axis says
  else if c = .read then true
  else r.selector.reachesKey s.project key

/-! ## What validation says -/

variable {α : Type}

/-- The item loop passes exactly the lists without a malformed item and
without repetition. -/
theorem checkItems_eq_ok_iff [DecidableEq α] (malformed : α → Bool)
    (err : α → RuleError) (l : List α) :
    ∀ (seen : List α) (u : Unit), checkItems malformed err seen l = .ok u ↔
      (∀ x ∈ l, malformed x = false) ∧ l.Nodup ∧ ∀ x ∈ l, x ∉ seen := by
  induction l with
  | nil => intro seen u; simp [checkItems]
  | cons x xs ih =>
    intro seen u
    unfold checkItems
    split
    case isTrue h =>
      refine iff_of_false nofun ?_
      rintro ⟨hmal, -, hseen⟩
      rcases h with h | h
      · rw [hmal x mem_cons_self] at h
        exact Bool.noConfusion h
      · exact hseen x mem_cons_self h
    case isFalse h =>
      obtain ⟨hmal, hnot⟩ := not_or.mp h
      rw [ih (seen ++ [x]) u]
      simp only [forall_mem_cons, nodup_cons, mem_append, mem_singleton,
        Bool.eq_false_iff, ne_eq, not_or]
      constructor
      · rintro ⟨hxs, hnd, hfresh⟩
        exact ⟨⟨hmal, hxs⟩, ⟨fun hx => (hfresh x hx).2 rfl, hnd⟩, hnot, fun y hy => (hfresh y hy).1⟩
      · rintro ⟨⟨-, hxs⟩, ⟨hx, hnd⟩, -, hfresh⟩
        exact ⟨hxs, hnd, fun y hy => ⟨hfresh y hy, fun hyx => hx (hyx ▸ hy)⟩⟩

/-- The number of items on an axis, over all its projects. -/
def ItemMap.total {α : Type} (m : ItemMap α) : ℕ := (m.entries.map (fun e => e.2.length)).sum

/-- One axis is in order: its items are bound to named projects, none is
malformed, and no project has the same item twice. -/
structure AxisOk {α : Type} (projects : List ProjectId) (malformed : α → Bool)
    (entries : List (Sigma fun _ : ProjectId => List α)) : Prop where
  /-- Items are bound to named projects. -/
  inside : ∀ e ∈ entries, e.1 ∈ projects
  /-- No item is malformed. -/
  wellFormed : ∀ e ∈ entries, ∀ x ∈ e.2, malformed x = false
  /-- No project has the same item twice. -/
  nodup : ∀ e ∈ entries, e.2.Nodup

/-- The axis loop passes exactly the axes in order, and counts their items. -/
theorem checkAxis_eq_ok_iff [DecidableEq α] (projects : List ProjectId)
    (malformed : α → Bool) (outside : ProjectId → RuleError) (err : α → RuleError)
    (entries : List (Sigma fun _ : ProjectId => List α)) :
    ∀ n, checkAxis projects malformed outside err entries = .ok n ↔
      AxisOk projects malformed entries ∧ n = (entries.map (fun e => e.2.length)).sum := by
  induction entries with
  | nil =>
    intro n
    refine ⟨fun h => ⟨⟨by simp, by simp, by simp⟩, (Except.ok.inj h).symm⟩, ?_⟩
    rintro ⟨-, rfl⟩
    rfl
  | cons e rest ih =>
    intro n
    obtain ⟨p, items⟩ := e
    have hitems := checkItems_eq_ok_iff malformed err items [] ()
    unfold checkAxis
    split
    case isTrue hp =>
      exact iff_of_false nofun (fun h => hp (h.1.inside _ mem_cons_self))
    case isFalse hp =>
      split
      next e he =>
        refine iff_of_false nofun (fun h => ?_)
        rw [hitems.mpr ⟨h.1.wellFormed _ mem_cons_self, h.1.nodup _ mem_cons_self,
          fun x _ => not_mem_nil⟩] at he
        cases he
      next hok =>
        obtain ⟨hwf, hnd, -⟩ := hitems.mp hok
        have hcons : AxisOk projects malformed (⟨p, items⟩ :: rest) ↔
            AxisOk projects malformed rest := by
          refine ⟨fun h => ⟨fun e he => h.inside e (mem_cons_of_mem _ he),
            fun e he => h.wellFormed e (mem_cons_of_mem _ he),
            fun e he => h.nodup e (mem_cons_of_mem _ he)⟩, fun h => ?_⟩
          exact ⟨forall_mem_cons.mpr ⟨not_not.mp hp, h.inside⟩,
            forall_mem_cons.mpr ⟨hwf, h.wellFormed⟩,
            forall_mem_cons.mpr ⟨hnd, h.nodup⟩⟩
        rw [hcons, map_cons, sum_cons]
        split
        next e he =>
          refine iff_of_false nofun (fun h => ?_)
          rw [(ih _).mpr ⟨h.1, rfl⟩] at he
          cases he
        next m hm =>
          obtain ⟨hrest, rfl⟩ := (ih m).mp hm
          exact ⟨fun h => ⟨hrest, (Except.ok.inj h).symm⟩, fun h => congrArg Except.ok h.2.symm⟩

/-- The narrowing a capability's shape allows. -/
def ShapeAllows (c : Capability) (w : Where) : Prop :=
  match ruleShapeOf c with
  | none => False
  | some .key => True
  | some .env => w.keyNarrowed = true → c = .read
  | some .project => w.keyNarrowed = false ∧ w.envNarrowed = false

/-- A selector that narrows no more is allowed for the same capabilities. -/
theorem ShapeAllows.mono {c : Capability} {w w' : Where} (h : ShapeAllows c w)
    (hkey : w.keyNarrowed = false → w'.keyNarrowed = false)
    (henv : w.envNarrowed = false → w'.envNarrowed = false) : ShapeAllows c w' := by
  unfold ShapeAllows at h ⊢
  split at h
  next => exact h.elim
  next => trivial
  next =>
    intro hnarrowed
    refine h (Bool.of_not_eq_false fun hf => ?_)
    rw [hkey hf] at hnarrowed
    exact Bool.noConfusion hnarrowed
  next => exact ⟨hkey h.1, henv h.2⟩

/-- **A rule in order**, as a conjunction of what the checks of
`Rule.validate` leave. -/
structure Rule.Valid (r : Rule) : Prop where
  /-- The rule lives in an organization. -/
  org : r.org ≠ ""
  /-- The capability may be held on a rule, with this narrowing. -/
  shape : ShapeAllows r.capability r.selector
  /-- The rule names a project. -/
  projects_ne_nil : r.selector.projects ≠ []
  /-- No named project is empty. -/
  project_ne_empty : ∀ p ∈ r.selector.projects, p ≠ ""
  /-- No project is named twice. -/
  projects_nodup : r.selector.projects.Nodup
  /-- The environment mode is one of the two. -/
  envMode : r.selector.envMode.Known
  /-- The key mode is one of the two. -/
  keyMode : r.selector.keyMode.Known
  /-- The environment items are in order. -/
  envs : AxisOk r.selector.projects (fun e => decide (e = "")) r.selector.envs.entries
  /-- An only-environments rule names an environment. -/
  envs_only : r.selector.envMode = .only → ItemMap.total r.selector.envs ≠ 0
  /-- The key items are in order. -/
  keys : AxisOk r.selector.projects RuleKeyItem.malformed r.selector.keys.entries
  /-- An only-keys rule names a folder or a key. -/
  keys_only : r.selector.keyMode = .only → ItemMap.total r.selector.keys ≠ 0
  /-- The selector is not too long. -/
  bounded : r.selector.projects.length + ItemMap.total r.selector.envs
    + ItemMap.total r.selector.keys ≤ maxRuleItems

theorem checkShape_eq_ok_iff (c : Capability) (w : Where) (shape : RuleShape)
    (h : ruleShapeOf c = some shape) : checkShape c w shape = .ok () ↔ ShapeAllows c w := by
  unfold ShapeAllows
  rw [h]
  cases shape with
  | key => exact iff_of_true rfl trivial
  | env | project => simp [checkShape, ensure_eq_ok]

/-- **Validation accepts exactly the rules in order.** -/
theorem Rule.validate_eq_ok_iff (r : Rule) : r.validate = .ok () ↔ r.Valid := by
  unfold Rule.validate
  simp only [except_bind_eq_ok, ensure_eq_ok]
  cases hshape : ruleShapeOf r.capability with
  | none =>
    refine iff_of_false (by rintro ⟨_, _, ⟨⟩⟩) (fun h => ?_)
    have hallow := h.shape
    rw [ShapeAllows, hshape] at hallow
    exact hallow
  | some shape =>
    simp only [except_bind_eq_ok, ensure_eq_ok, checkAxis_eq_ok_iff,
      checkShape_eq_ok_iff r.capability r.selector shape hshape, checkItems_eq_ok_iff]
    constructor
    · rintro ⟨-, horg, -, hne, -, ⟨hempty, hnd, -⟩, -, hem, -, hkm, n, ⟨henvs, rfl⟩, -, henvs1, m,
        ⟨hkeys, rfl⟩, -, hkeys1, -, hbound, hsh⟩
      exact ⟨horg, hsh, hne, fun p hp => of_decide_eq_false (hempty p hp), hnd, hem, hkm, henvs,
        fun ho ht => henvs1 ⟨ho, ht⟩, hkeys, fun ho ht => hkeys1 ⟨ho, ht⟩, not_lt.mp hbound⟩
    · intro h
      exact ⟨(), h.org, (), h.projects_ne_nil, (),
        ⟨fun p hp => decide_eq_false (h.project_ne_empty p hp), h.projects_nodup,
          fun p _ => not_mem_nil⟩, (), h.envMode, (), h.keyMode, _, ⟨h.envs, rfl⟩, (),
        fun hc => h.envs_only hc.1 hc.2, _, ⟨h.keys, rfl⟩, (), fun hc => h.keys_only hc.1 hc.2,
        (), not_lt.mpr h.bounded, h.shape⟩

instance (r : Rule) : Decidable (r.validate = .ok ()) :=
  match r.validate with
  | .ok () => isTrue rfl
  | .error _ => isFalse nofun

/-! ## Reading an axis per project -/

variable {p : ProjectId}

namespace ItemMap

variable {α : Type} (m : ItemMap α)

theorem get_of_mem_entries {l : List α}
    (h : (⟨p, l⟩ : Sigma fun _ : ProjectId => List α) ∈ m.entries) : get m p = l := by
  have hl : m.lookup p = some l := AList.mem_lookup_iff.mpr h
  rw [get, hl, Option.getD_some]

theorem mem_entries_of_get_ne_nil (h : get m p ≠ []) :
    (⟨p, get m p⟩ : Sigma fun _ : ProjectId => List α) ∈ m.entries := by
  cases hl : m.lookup p with
  | none => exact absurd (by rw [get, hl, Option.getD_none]) h
  | some l =>
    rw [get, hl, Option.getD_some]
    exact AList.mem_lookup_iff.mp hl

/-- An axis has no item at all exactly when it has none in any project. -/
theorem total_eq_zero_iff : total m = 0 ↔ ∀ p, get m p = [] := by
  rw [total, sum_eq_zero_iff]
  constructor
  · intro h p
    by_contra hne
    have hlen := h _ (mem_map_of_mem (mem_entries_of_get_ne_nil m hne))
    exact hne (length_eq_zero_iff.mp hlen)
  · intro h n hn
    obtain ⟨⟨p, l⟩, he, rfl⟩ := mem_map.mp hn
    have hl : l = [] := (get_of_mem_entries m he).symm.trans (h p)
    exact length_eq_zero_iff.mpr hl

/-- Some entry of an axis has an item exactly when the axis has one in some
project. -/
theorem any_entries_iff :
    m.entries.any (fun e => decide (0 < e.2.length)) = true ↔ ∃ p, get m p ≠ [] := by
  rw [any_eq_true]
  constructor
  · rintro ⟨⟨p, l⟩, he, hlen⟩
    refine ⟨p, ?_⟩
    rw [get_of_mem_entries m he]
    exact ne_nil_of_length_pos (of_decide_eq_true hlen)
  · rintro ⟨p, hne⟩
    exact ⟨_, mem_entries_of_get_ne_nil m hne, decide_eq_true (length_pos_of_ne_nil hne)⟩

end ItemMap

namespace AxisOk

variable {α : Type} {projects : List ProjectId} {malformed : α → Bool} {m : ItemMap α}

theorem mem_projects (h : AxisOk projects malformed m.entries)
    (hne : ItemMap.get m p ≠ []) : p ∈ projects :=
  h.inside _ (ItemMap.mem_entries_of_get_ne_nil m hne)

theorem get_wellFormed (h : AxisOk projects malformed m.entries) {x : α}
    (hx : x ∈ ItemMap.get m p) : malformed x = false :=
  h.wellFormed _ (ItemMap.mem_entries_of_get_ne_nil m (ne_nil_of_mem hx)) x hx

theorem get_nodup (h : AxisOk projects malformed m.entries) (p : ProjectId) :
    (ItemMap.get m p).Nodup := by
  by_cases hne : ItemMap.get m p = []
  · rw [hne]
    exact nodup_nil
  · exact h.nodup _ (ItemMap.mem_entries_of_get_ne_nil m hne)

end AxisOk

theorem Where.keyNarrowed_eq_false_iff (w : Where) :
    w.keyNarrowed = false ↔ w.keyMode = .all ∧ ∀ p, w.keysAt p = [] := by
  have h := ItemMap.any_entries_iff w.keys
  rw [← Bool.not_eq_true, Where.keyNarrowed, Bool.or_eq_true, h]
  simp [Where.keysAt]

theorem Where.envNarrowed_eq_false_iff (w : Where) :
    w.envNarrowed = false ↔ w.envMode = .all ∧ ∀ p, w.envsAt p = [] := by
  have h := ItemMap.any_entries_iff w.envs
  rw [← Bool.not_eq_true, Where.envNarrowed, Bool.or_eq_true, h]
  simp [Where.envsAt]

namespace Rule.Valid

variable {r : Rule}

theorem env_ne_empty (h : r.Valid) {e : EnvId} (he : e ∈ r.selector.envsAt p) : e ≠ "" :=
  of_decide_eq_false (h.envs.get_wellFormed he)

/-- A key item of a rule in order has a nonempty identifier. -/
theorem keyId_ne_empty (h : r.Valid) {it : RuleKeyItem}
    (hit : it ∈ r.selector.keysAt p) (hkey : it.isFolder = false) : it.keyId ≠ "" := by
  have hwf := h.keys.get_wellFormed hit
  intro hempty
  rw [RuleKeyItem.malformed, hkey, hempty] at hwf
  exact Bool.noConfusion hwf

end Rule.Valid

/-! ## What reach says -/

/-- **A reach is a conjunction**: the capability and the organization agree,
the project is named, and each axis admits the atom. -/
theorem Rule.reaches_iff (r : Rule) (c : Capability) (lvl : Level) (s : Scope)
    (key : Option RuleKey) : r.reaches c lvl s key = true ↔
      c = r.capability ∧ c ≠ .manageMembers ∧ s.org = r.org ∧ s.project ∈ r.selector.projects ∧
        r.selector.reachesLevel c lvl s key = true ∧
        (c = .read ∨ r.selector.reachesKey s.project key = true) := by
  unfold Rule.reaches
  by_cases hread : c = .read
  · simp [hread, and_assoc]
  · simp [hread, and_assoc]

end Hikyo
