import Hikyo.Authz.RuleDelegation

/-!
# Rules under deletion

Rules are stored as a row with their capability and modes, and one row per
selector item. When an environment, a key or a project is deleted, the items
naming it are dropped from every rule naming it, and a rule that no longer
validates is removed with the cause *emptied by deletion*. The source states
that pruning never changes what a rule reaches among objects that still exist.

This module embeds the two tables and the pruning, and settles that statement
in both directions. Pruning can *widen* a rule: the last exception of an axis
read as `all` narrows the axis for everybody, so dropping it opens the
project level, or the atoms without a key. And pruning can *lose* reach: a rule
for See ignores its key axis when it is evaluated but not when it is validated.
The two theorems say exactly when.
-/

namespace Hikyo

open List

/-! ## The stored rules -/

/-- The axis of a stored item. -/
inductive RuleAxis where
  | project | env | key | folder
  deriving DecidableEq, Repr

/-- The check constraint of the item table: exactly the column of the axis is
set. An absent column reads as the empty string. -/
def ItemCheck (axis : RuleAxis) (env : EnvId) (keyId folder : String) : Prop :=
  match axis with
  | .project => env = "" ∧ keyId = "" ∧ folder = ""
  | .env => env ≠ "" ∧ keyId = "" ∧ folder = ""
  | .key => env = "" ∧ keyId ≠ "" ∧ folder = ""
  | .folder => env = "" ∧ keyId = ""

instance (axis : RuleAxis) (env : EnvId) (keyId folder : String) :
    Decidable (ItemCheck axis env keyId folder) :=
  match axis with
  | .project => inferInstanceAs (Decidable (env = "" ∧ keyId = "" ∧ folder = ""))
  | .env => inferInstanceAs (Decidable (env ≠ "" ∧ keyId = "" ∧ folder = ""))
  | .key => inferInstanceAs (Decidable (env = "" ∧ keyId ≠ "" ∧ folder = ""))
  | .folder => inferInstanceAs (Decidable (env = "" ∧ keyId = ""))

/-- **One selector row**, with its id so that a deletion can drop exactly the
item naming the object being deleted. -/
structure StoredRuleItem where
  /-- The item's identifier. -/
  id : String
  /-- The axis the item is on. -/
  axis : RuleAxis
  /-- The project the item belongs to. -/
  project : ProjectId
  /-- The environment of an environment item. -/
  env : EnvId := ""
  /-- The key of a key item. -/
  keyId : String := ""
  /-- The folder of a folder item. -/
  folder : String := ""
  /-- The row passes the table's check. -/
  check : ItemCheck axis env keyId folder

/-- The header of a stored rule. -/
structure RuleRow where
  /-- The rule's identifier. -/
  id : String
  /-- The principal holding the rule. -/
  principal : PrincipalId
  /-- The capability conferred. -/
  capability : Capability
  /-- The organization. -/
  org : OrgId
  /-- How the environment items are read. -/
  envMode : AxisMode
  /-- How the key items are read. -/
  keyMode : AxisMode

/-- A rule as it is stored, for revocation and pruning. -/
structure StoredRule where
  /-- The rule the rows form. -/
  rule : Rule
  /-- Its selector rows. -/
  items : List StoredRuleItem

/-- **The two rule tables**, each listed in the order of its primary key. -/
structure RuleTables where
  /-- The rule rows. -/
  rules : List RuleRow
  /-- The item rows, with the rule each belongs to. -/
  items : List (String × StoredRuleItem)
  /-- Rule identifiers are unique. -/
  rules_nodup : (rules.map (fun r => r.id)).Nodup
  /-- Item identifiers are unique. -/
  items_nodup : (items.map (fun i => i.2.id)).Nodup

/-- Append an item to a project's list. -/
def ItemMap.push {α : Type} (m : ItemMap α) (p : ProjectId) (x : α) : ItemMap α :=
  m.insert p (ItemMap.get m p ++ [x])

/-- The selector with one more stored item. -/
def Where.addItem (w : Where) (it : StoredRuleItem) : Where :=
  match it.axis with
  | .project => { w with projects := w.projects ++ [it.project] }
  | .env => { w with envs := ItemMap.push w.envs it.project it.env }
  | .key => { w with keys := ItemMap.push w.keys it.project { keyId := it.keyId } }
  | .folder =>
    { w with keys := ItemMap.push w.keys it.project { folder := it.folder, isFolder := true } }

/-- The rule a header starts, before any item. -/
def RuleRow.start (row : RuleRow) : StoredRule :=
  { rule := { id := row.id, principal := row.principal, capability := row.capability,
              org := row.org, selector := { envMode := row.envMode, keyMode := row.keyMode } }
    items := [] }

/-- A stored rule with one more item. -/
def StoredRule.addItem (s : StoredRule) (it : StoredRuleItem) : StoredRule :=
  { rule := { s.rule with selector := s.rule.selector.addItem it }, items := s.items ++ [it] }

/-- The state of the loop over rule rows: the rules finished and the one being
read. -/
structure RuleFold where
  /-- The valid rules read so far. -/
  out : List StoredRule := []
  /-- The rule being read. -/
  cur : Option StoredRule := none

/-- Finish the rule being read: it is kept if it validates. -/
def RuleFold.flush (st : RuleFold) : List StoredRule :=
  match st.cur with
  | none => st.out
  | some cur => if cur.rule.validate = .ok () then st.out ++ [cur] else st.out

/-- One row of the loop. -/
def RuleFold.step (st : RuleFold) (row : RuleRow × StoredRuleItem) : RuleFold :=
  match st.cur with
  | none => { out := st.flush, cur := some (row.1.start.addItem row.2) }
  | some cur =>
    if cur.rule.id ≠ row.1.id then { out := st.flush, cur := some (row.1.start.addItem row.2) }
    else { st with cur := some (cur.addItem row.2) }

/-- **Group rows by rule and keep the rules that validate.** -/
def foldRules (rows : List (RuleRow × StoredRuleItem)) : List StoredRule :=
  (rows.foldl RuleFold.step {}).flush

namespace RuleTables

section

variable (t : RuleTables) (id : String)

/-- The items of a rule. -/
def itemsOfRule : List StoredRuleItem :=
  (t.items.filter (fun i => i.1 = id)).map (fun i => i.2)

/-- The rows of a rule joined with its items. -/
def ruleRows : List (RuleRow × StoredRuleItem) :=
  match t.rules.find? (fun r => r.id = id) with
  | none => []
  | some row => (t.itemsOfRule id).map (fun it => (row, it))

/-- **Read one stored rule** and whether it is valid; nothing when no row
exists. Rows that form no valid rule come back with their items and an empty
selector, never one anything could evaluate. -/
def getRule : Option (StoredRule × Bool) :=
  match t.ruleRows id with
  | [] => none
  | first :: rest =>
    match foldRules (first :: rest) with
    | [stored] => some (stored, true)
    | _ => some ({ rule := { id := first.1.id, principal := first.1.principal,
                             capability := first.1.capability, org := first.1.org,
                             selector := {} }
                   items := (first :: rest).map (fun row => row.2) }, false)

/-- Delete one item of a rule. -/
def deleteRuleItem (ruleId itemId : String) : RuleTables where
  rules := t.rules
  items := t.items.filter (fun i => ¬ (i.2.id = itemId ∧ i.1 = ruleId))
  rules_nodup := t.rules_nodup
  items_nodup := t.items_nodup.sublist (filter_sublist.map _)

/-- Delete a rule of a principal with its items. -/
def deleteRule (p : PrincipalId) : RuleTables where
  rules := t.rules.filter (fun r => ¬ (r.id = id ∧ r.principal = p))
  items := t.items.filter (fun i => i.1 ≠ id)
  rules_nodup := t.rules_nodup.sublist (filter_sublist.map _)
  items_nodup := t.items_nodup.sublist (filter_sublist.map _)

end

end RuleTables

/-! ## Pruning -/

/-- The refusals of a revocation. -/
inductive PruneError where
  /-- The rule to be revoked is not there. -/
  | noSuchRule
  deriving DecidableEq, Repr

/-- Remove a stored rule, loudly if it is not there. -/
def revokeRule (t : RuleTables) (stored : StoredRule) : Except PruneError RuleTables :=
  if t.rules.any (fun r => r.id = stored.rule.id && r.principal = stored.rule.principal) then
    .ok (t.deleteRule stored.rule.id stored.rule.principal)
  else .error .noSuchRule

/-- Drop the items of a list that `gone` matches from a rule. -/
def dropItems (gone : StoredRuleItem → Bool) (ruleId : String) (t : RuleTables)
    (items : List StoredRuleItem) : RuleTables :=
  items.foldl (fun t it => if gone it then t.deleteRuleItem ruleId it.id else t) t

/-- **Prune one rule**: drop the items naming the object being deleted, then
remove the rule if its rows no longer form a valid one. -/
def pruneRule (gone : StoredRuleItem → Bool) (t : RuleTables) (id : String) :
    Except PruneError RuleTables :=
  match t.getRule id with
  | none => .ok t
  | some (stored, _) =>
    let t' := dropItems gone id t stored.items
    match t'.getRule id with
    -- every item went: remove the bare row
    | none => revokeRule t' stored
    | some (after, valid) => if valid then .ok t' else revokeRule t' after

/-- Prune the rules of a list, one after the other. -/
def pruneRules (gone : StoredRuleItem → Bool) :
    List String → RuleTables → Except PruneError RuleTables
  | [], t => .ok t
  | id :: ids, t =>
    match pruneRule gone t id with
    | .error e => .error e
    | .ok t' => pruneRules gone ids t'

/-- **A deletion** of an object of an organization. The identifiers of the
deleted objects are those of rows, hence not empty. -/
inductive Deletion where
  /-- An environment of a project. -/
  | environment (org : OrgId) (project : ProjectId) (env : EnvId) (ne : env ≠ "")
  /-- A key of a project. -/
  | key (org : OrgId) (project : ProjectId) (keyId : String) (ne : keyId ≠ "")
  /-- A project, its environments and keys being gone already. -/
  | project (org : OrgId) (project : ProjectId)

namespace Deletion

/-- The organization the object is deleted from. -/
def org : Deletion → OrgId
  | environment org _ _ _ => org
  | key org _ _ _ => org
  | project org _ => org

/-- The items naming the object being deleted. -/
def gone : Deletion → StoredRuleItem → Bool
  | environment _ p e _ => fun it => it.project = p && it.env = e
  | key _ p k _ => fun it => it.project = p && it.keyId = k
  | project _ p => fun it => it.project = p

/-- The census of the rules naming the object: those of the organization with
an item naming it. -/
def ruleIds (d : Deletion) (t : RuleTables) : List String :=
  (t.rules.filter (fun r => r.org = d.org && (t.itemsOfRule r.id).any d.gone)).map
    (fun r => r.id)

/-- **Prune an object being deleted out of every rule naming it.** -/
def release (d : Deletion) (t : RuleTables) : Except PruneError RuleTables :=
  pruneRules d.gone (d.ruleIds t) t

/-- A project's own item goes with the deletion. -/
def dropsProject : Deletion → ProjectId → Bool
  | project _ p => fun q => q = p
  | _ => fun _ => false

/-- An environment item goes with the deletion. -/
def dropsEnv : Deletion → ProjectId → EnvId → Bool
  | environment _ p e _ => fun q x => q = p && x = e
  | key _ _ _ _ => fun _ _ => false
  | project _ p => fun q _ => q = p

/-- A key item goes with the deletion. -/
def dropsKey : Deletion → ProjectId → RuleKeyItem → Bool
  | environment _ _ _ _ => fun _ _ => false
  | key _ p k _ => fun q it => q = p && it.keyId = k
  | project _ p => fun q _ => q = p

end Deletion

/-! ## The rule a list of items forms -/

/-- The rule that a header and a list of items form. -/
def RuleRow.rule (row : RuleRow) (items : List StoredRuleItem) : Rule :=
  { id := row.id, principal := row.principal, capability := row.capability, org := row.org
    selector := items.foldl Where.addItem { envMode := row.envMode, keyMode := row.keyMode } }

/-- The key item a stored item stands for. -/
def StoredRuleItem.keyItem (it : StoredRuleItem) : RuleKeyItem :=
  if it.axis = .folder then { folder := it.folder, isFolder := true } else { keyId := it.keyId }

/-- A stored item on the key axis: a key or a folder. -/
def StoredRuleItem.onKeyAxis (it : StoredRuleItem) : Bool := it.axis = .key || it.axis = .folder

namespace ItemMap

variable {α : Type} (m : ItemMap α) (p : ProjectId) (x : α)

theorem get_push (q : ProjectId) :
    get (push m p x) q = if q = p then get m p ++ [x] else get m q := by
  unfold push
  by_cases hq : q = p
  · rw [if_pos hq, hq, get, AList.lookup_insert, Option.getD_some]
  · rw [if_neg hq, get, AList.lookup_insert_ne hq, get]

/-- One item more. -/
theorem total_push : total (push m p x) = total m + 1 := by
  have hentries : (push m p x).entries
      = ⟨p, get m p ++ [x]⟩ :: List.kerase p m.entries := AList.entries_insert
  rw [total, hentries, map_cons, sum_cons, total]
  by_cases hp : p ∈ m.entries.keys
  · obtain ⟨l, l₁, l₂, -, hsplit, herase⟩ := exists_of_kerase hp
    have hl : get m p = l := get_of_mem_entries m (by rw [hsplit]; simp)
    rw [herase, hsplit, hl]
    simp
    omega
  · have hget : get m p = [] := by
      by_contra hne
      exact hp (mem_keys_of_mem (mem_entries_of_get_ne_nil m hne))
    rw [kerase_of_notMem_keys hp, hget]
    simp
    omega

/-- No project is listed without items. -/
def NoEmpty : Prop := ∀ e ∈ m.entries, e.2 ≠ []

variable {m}

theorem NoEmpty.push (h : NoEmpty m) : NoEmpty (push m p x) := by
  intro e he
  have hentries : (ItemMap.push m p x).entries
      = ⟨p, get m p ++ [x]⟩ :: List.kerase p m.entries := AList.entries_insert
  rw [hentries] at he
  cases mem_cons.mp he with
  | inl heq => rw [heq]; simp
  | inr hin => exact h e ((kerase_sublist p m.entries).subset hin)

end ItemMap

variable {α : Type} {projects : List ProjectId}

/-- An axis without empty entries is in order if the items of each project are. -/
theorem AxisOk.of_get {m : ItemMap α} {malformed : α → Bool}
    (hne : ItemMap.NoEmpty m) (hin : ∀ q, ItemMap.get m q ≠ [] → q ∈ projects)
    (hwf : ∀ q, ∀ x ∈ ItemMap.get m q, malformed x = false)
    (hnodup : ∀ q, (ItemMap.get m q).Nodup) : AxisOk projects malformed m.entries := by
  have hentry : ∀ e ∈ m.entries, ItemMap.get m e.1 = e.2 :=
    fun e he => ItemMap.get_of_mem_entries m he
  refine ⟨fun e he => hin e.1 ?_, fun e he => ?_, fun e he => ?_⟩
  · rw [hentry e he]
    exact hne e he
  · exact hentry e he ▸ hwf e.1
  · exact hentry e he ▸ hnodup e.1

/-- The items on an axis of a project, as an axis of the selector reads
them. -/
def itemsOn {α : Type} (on : StoredRuleItem → Bool) (read : StoredRuleItem → α) (q : ProjectId)
    (items : List StoredRuleItem) : List α :=
  (items.filter (fun it => on it && it.project = q)).map read

section AddItem

variable (w : Where) (it : StoredRuleItem)

theorem addItem_projects :
    (w.addItem it).projects = w.projects ++ if it.axis = .project then [it.project] else [] := by
  unfold Where.addItem
  cases it.axis <;> simp

theorem addItem_envMode : (w.addItem it).envMode = w.envMode := by
  unfold Where.addItem
  cases it.axis <;> rfl

theorem addItem_keyMode : (w.addItem it).keyMode = w.keyMode := by
  unfold Where.addItem
  cases it.axis <;> rfl

theorem addItem_envs :
    (w.addItem it).envs = if it.axis = .env then ItemMap.push w.envs it.project it.env
      else w.envs := by
  unfold Where.addItem
  cases it.axis <;> simp

theorem addItem_keys :
    (w.addItem it).keys = if it.onKeyAxis then ItemMap.push w.keys it.project it.keyItem
      else w.keys := by
  unfold Where.addItem StoredRuleItem.onKeyAxis StoredRuleItem.keyItem
  cases it.axis <;> simp

end AddItem

section FoldItems

variable (items : List StoredRuleItem)

theorem foldItems_modes (w : Where) : (items.foldl Where.addItem w).envMode = w.envMode ∧
      (items.foldl Where.addItem w).keyMode = w.keyMode := by
  induction items generalizing w with
  | nil => exact ⟨rfl, rfl⟩
  | cons it rest ih =>
    rw [foldl_cons, (ih _).1, (ih _).2, addItem_envMode, addItem_keyMode]
    exact ⟨rfl, rfl⟩

theorem foldItems_projects (w : Where) : (items.foldl Where.addItem w).projects
      = w.projects ++ (items.filter (fun it => it.axis = .project)).map (fun it => it.project) := by
  induction items generalizing w with
  | nil => simp
  | cons it rest ih =>
    rw [foldl_cons, ih, addItem_projects, filter_cons]
    by_cases hax : it.axis = .project
    · simp [hax]
    · simp [hax]

/-- One axis of the selector under the fold, given what one item does to it. -/
theorem foldItems_axis (axis : Where → ItemMap α) (on : StoredRuleItem → Bool)
    (read : StoredRuleItem → α) (hstep : ∀ w it, axis (w.addItem it)
      = if on it then ItemMap.push (axis w) it.project (read it) else axis w) (w : Where) :
    (∀ q, ItemMap.get (axis (items.foldl Where.addItem w)) q
      = ItemMap.get (axis w) q ++ itemsOn on read q items) ∧
    ItemMap.total (axis (items.foldl Where.addItem w))
      = ItemMap.total (axis w) + (items.filter on).length ∧
    (ItemMap.NoEmpty (axis w) → ItemMap.NoEmpty (axis (items.foldl Where.addItem w))) := by
  induction items generalizing w with
  | nil => exact ⟨fun q => by simp [itemsOn], by simp, id⟩
  | cons it rest ih =>
    obtain ⟨hget, htotal, hne⟩ := ih (w.addItem it)
    rw [hstep] at hget htotal hne
    rw [foldl_cons]
    cases hon : on it with
    | false =>
      rw [hon] at hget htotal hne
      refine ⟨fun q => ?_, ?_, hne⟩
      · rw [hget q]
        simp [itemsOn, hon]
      · rw [htotal]
        simp [hon]
    | true =>
      rw [hon] at hget htotal hne
      refine ⟨fun q => ?_, ?_, fun h => hne (ItemMap.NoEmpty.push _ _ h)⟩
      · rw [hget q, if_pos rfl, ItemMap.get_push]
        by_cases hq : q = it.project
        · simp [itemsOn, hon, hq]
        · have hq' : it.project ≠ q := fun h => hq h.symm
          simp [itemsOn, hon, hq, hq']
      · rw [htotal, if_pos rfl, ItemMap.total_push]
        simp [hon]
        omega

end FoldItems

/-! ## The rule of a list of items, axis by axis -/

namespace RuleRow

variable (row : RuleRow) (items : List StoredRuleItem)

theorem rule_envMode : (row.rule items).selector.envMode = row.envMode :=
  (foldItems_modes items _).1

theorem rule_keyMode : (row.rule items).selector.keyMode = row.keyMode :=
  (foldItems_modes items _).2

theorem rule_projects : (row.rule items).selector.projects
      = (items.filter (fun it => it.axis = .project)).map (fun it => it.project) :=
  foldItems_projects items _

theorem rule_envsAt (q : ProjectId) : (row.rule items).selector.envsAt q
      = itemsOn (fun it => it.axis = .env) (fun it => it.env) q items :=
  (foldItems_axis items Where.envs (fun it => it.axis = .env) (fun it => it.env)
    (fun w it => by simpa using addItem_envs w it) _).1 q

theorem rule_keysAt (q : ProjectId) : (row.rule items).selector.keysAt q
      = itemsOn StoredRuleItem.onKeyAxis StoredRuleItem.keyItem q items :=
  (foldItems_axis items Where.keys _ _ addItem_keys _).1 q

theorem rule_envs_total : ItemMap.total (row.rule items).selector.envs
      = (items.filter (fun it => it.axis = .env)).length :=
  (foldItems_axis items Where.envs (fun it => it.axis = .env) (fun it => it.env)
    (fun w it => by simpa using addItem_envs w it) _).2.1.trans (Nat.zero_add _)

theorem rule_keys_total : ItemMap.total (row.rule items).selector.keys
      = (items.filter StoredRuleItem.onKeyAxis).length :=
  (foldItems_axis items Where.keys _ _ addItem_keys _).2.1.trans (Nat.zero_add _)

theorem rule_envs_noEmpty : ItemMap.NoEmpty (row.rule items).selector.envs :=
  (foldItems_axis items Where.envs (fun it => it.axis = .env) (fun it => it.env)
    (fun w it => by simpa using addItem_envs w it) _).2.2 (fun _ h => absurd h not_mem_nil)

theorem rule_keys_noEmpty : ItemMap.NoEmpty (row.rule items).selector.keys :=
  (foldItems_axis items Where.keys _ _ addItem_keys _).2.2
    (fun _ h => absurd h not_mem_nil)

end RuleRow

/-! ## What pruning leaves of a selector -/

variable {it : StoredRuleItem}

namespace Deletion

variable (d : Deletion)

/-- The items of a rule that a deletion leaves. -/
def kept (items : List StoredRuleItem) : List StoredRuleItem := items.filter (fun it => !d.gone it)

theorem gone_project (hax : it.axis = .project) : d.gone it = d.dropsProject it.project := by
  have hcheck := it.check
  rw [hax] at hcheck
  cases d with
  | environment org p e hne => simp [gone, dropsProject, hcheck.1, hne.symm]
  | key org p k hne => simp [gone, dropsProject, hcheck.2.1, hne.symm]
  | project org p => rfl

theorem gone_env (hax : it.axis = .env) : d.gone it = d.dropsEnv it.project it.env := by
  have hcheck := it.check
  rw [hax] at hcheck
  cases d with
  | environment org p e hne | project org p => rfl
  | key org p k hne => simp [gone, dropsEnv, hcheck.2.1, hne.symm]

theorem gone_key (hax : it.onKeyAxis = true) : d.gone it = d.dropsKey it.project it.keyItem := by
  have hcheck := it.check
  have haxis : it.axis = .key ∨ it.axis = .folder := by
    simpa [StoredRuleItem.onKeyAxis] using hax
  cases haxis with
  | inl h =>
    rw [h] at hcheck
    cases d with
    | environment org p e hne => simp [gone, dropsKey, hcheck.1, hne.symm]
    | key org p k hne => simp [gone, dropsKey, StoredRuleItem.keyItem, h]
    | project org p => rfl
  | inr h =>
    rw [h] at hcheck
    cases d with
    | environment org p e hne => simp [gone, dropsKey, hcheck.1, hne.symm]
    | key org p k hne => simp [gone, dropsKey, StoredRuleItem.keyItem, h, hcheck.2, hne.symm]
    | project org p => rfl

/-- Dropping items before reading an axis is dropping the values read. -/
theorem map_filter_kept (on : StoredRuleItem → Bool) (read : StoredRuleItem → α) (drops : α → Bool)
    (items : List StoredRuleItem) (h : ∀ it ∈ items, on it = true → d.gone it = drops (read it)) :
    ((d.kept items).filter on).map read
      = ((items.filter on).map read).filter (fun x => !drops x) := by
  induction items with
  | nil => rfl
  | cons it rest ih =>
    have ih' := ih fun i hi => h i (mem_cons_of_mem _ hi)
    have hit := h it mem_cons_self
    unfold kept at ih' ⊢
    cases hon : on it with
    | false =>
      cases hg : d.gone it with
      | false | true => simpa [hg, hon] using ih'
    | true =>
      have hdrops := hit hon
      cases hg : d.gone it with
      | false | true =>
        rw [hg] at hdrops
        simpa [hg, hon, ← hdrops] using ih'

variable (row : RuleRow) (items : List StoredRuleItem)

theorem kept_projects : (row.rule (d.kept items)).selector.projects
      = (row.rule items).selector.projects.filter (fun q => !d.dropsProject q) := by
  rw [RuleRow.rule_projects, RuleRow.rule_projects]
  exact d.map_filter_kept _ _ _ items fun it _ hax => d.gone_project (of_decide_eq_true hax)

theorem kept_envsAt (q : ProjectId) : (row.rule (d.kept items)).selector.envsAt q
      = ((row.rule items).selector.envsAt q).filter (fun e => !d.dropsEnv q e) := by
  rw [RuleRow.rule_envsAt, RuleRow.rule_envsAt]
  refine d.map_filter_kept _ _ _ items fun it _ hax => ?_
  rw [Bool.and_eq_true, decide_eq_true_eq, decide_eq_true_eq] at hax
  rw [d.gone_env hax.1, hax.2]

theorem kept_keysAt (q : ProjectId) : (row.rule (d.kept items)).selector.keysAt q
      = ((row.rule items).selector.keysAt q).filter (fun k => !d.dropsKey q k) := by
  rw [RuleRow.rule_keysAt, RuleRow.rule_keysAt]
  refine d.map_filter_kept _ _ _ items fun it _ hax => ?_
  rw [Bool.and_eq_true, decide_eq_true_eq] at hax
  rw [d.gone_key hax.1, hax.2]

/-- A deleted project keeps no item. -/
theorem kept_nil_of_dropsProject {q : ProjectId} (hq : d.dropsProject q = true) :
    (row.rule (d.kept items)).selector.envsAt q = [] ∧
      (row.rule (d.kept items)).selector.keysAt q = [] := by
  rw [kept_envsAt, kept_keysAt]
  cases d with
  | environment org p e hne | key org p k hne => cases hq
  | project org p =>
    have hqp : q = p := of_decide_eq_true hq
    constructor
    · exact filter_eq_nil_iff.mpr fun x _ => by simp [dropsEnv, hqp]
    · exact filter_eq_nil_iff.mpr fun x _ => by simp [dropsKey, hqp]

/-- One axis stays in order under a deletion. -/
theorem kept_axisOk {m m' : ItemMap α} {malformed : α → Bool} {drops : ProjectId → α → Bool}
    (hok : AxisOk projects malformed m.entries) (hne : ItemMap.NoEmpty m')
    (hget : ∀ q, ItemMap.get m' q = (ItemMap.get m q).filter (fun x => !drops q x))
    (hdrop : ∀ q, d.dropsProject q = true → ItemMap.get m' q = []) :
    AxisOk (projects.filter (fun q => !d.dropsProject q)) malformed m'.entries := by
  refine AxisOk.of_get hne (fun q hq => ?_) (fun q x hx => ?_) fun q => ?_
  · refine mem_filter.mpr ⟨hok.mem_projects fun hnil => hq ?_, ?_⟩
    · rw [hget, hnil]
      rfl
    · rw [Bool.not_eq_true']
      exact Bool.eq_false_iff.mpr fun h => hq (hdrop q h)
  · rw [hget] at hx
    exact hok.get_wellFormed (mem_filter.mp hx).1
  · rw [hget]
    exact (hok.get_nodup q).filter _

variable {row items}

theorem filter_kept_length_le (on : StoredRuleItem → Bool) :
    ((d.kept items).filter on).length ≤ (items.filter on).length :=
  (filter_sublist.filter on).length_le

/-- **Pruning keeps a rule in order** unless it leaves no project, or leaves
an axis read as a complete list without any item. -/
theorem kept_valid (hv : (row.rule items).Valid)
    (hprojects : (row.rule (d.kept items)).selector.projects ≠ [])
    (henvs : row.envMode = .only → ∃ q, (row.rule (d.kept items)).selector.envsAt q ≠ [])
    (hkeys : row.keyMode = .only → ∃ q, (row.rule (d.kept items)).selector.keysAt q ≠ []) :
    (row.rule (d.kept items)).Valid := by
  have hnotzero : ∀ {α : Type} (m : ItemMap α), (∃ q, ItemMap.get m q ≠ []) →
      ItemMap.total m ≠ 0 := by
    intro α m ⟨q, hq⟩ hzero
    exact hq ((ItemMap.total_eq_zero_iff m).mp hzero q)
  refine
    { org := hv.org
      shape := ?_
      projects_ne_nil := hprojects
      project_ne_empty := ?_
      projects_nodup := ?_
      envMode := ?_
      keyMode := ?_
      envs := ?_
      envs_only := ?_
      keys := ?_
      keys_only := ?_
      bounded := ?_ }
  · -- a narrowing that is there after pruning was there before
    have hkeyN : (row.rule items).selector.keyNarrowed = false →
        (row.rule (d.kept items)).selector.keyNarrowed = false := by
      intro h
      obtain ⟨hm, hall⟩ := (Where.keyNarrowed_eq_false_iff _).mp h
      refine (Where.keyNarrowed_eq_false_iff _).mpr ⟨?_, fun q => ?_⟩
      · rwa [RuleRow.rule_keyMode] at hm ⊢
      · rw [kept_keysAt, hall q]
        rfl
    have henvN : (row.rule items).selector.envNarrowed = false →
        (row.rule (d.kept items)).selector.envNarrowed = false := by
      intro h
      obtain ⟨hm, hall⟩ := (Where.envNarrowed_eq_false_iff _).mp h
      refine (Where.envNarrowed_eq_false_iff _).mpr ⟨?_, fun q => ?_⟩
      · rwa [RuleRow.rule_envMode] at hm ⊢
      · rw [kept_envsAt, hall q]
        rfl
    exact hv.shape.mono hkeyN henvN
  · intro p hp
    rw [kept_projects] at hp
    exact hv.project_ne_empty p (mem_filter.mp hp).1
  · rw [kept_projects]
    exact hv.projects_nodup.filter _
  · rw [RuleRow.rule_envMode, ← row.rule_envMode items]
    exact hv.envMode
  · rw [RuleRow.rule_keyMode, ← row.rule_keyMode items]
    exact hv.keyMode
  · rw [kept_projects]
    exact d.kept_axisOk hv.envs (row.rule_envs_noEmpty _) (d.kept_envsAt row items)
      fun q hq => (d.kept_nil_of_dropsProject row items hq).1
  · intro honly
    rw [RuleRow.rule_envMode] at honly
    exact hnotzero _ (henvs honly)
  · rw [kept_projects]
    exact d.kept_axisOk hv.keys (row.rule_keys_noEmpty _) (d.kept_keysAt row items)
      fun q hq => (d.kept_nil_of_dropsProject row items hq).2
  · intro honly
    rw [RuleRow.rule_keyMode] at honly
    exact hnotzero _ (hkeys honly)
  · have hb := hv.bounded
    rw [RuleRow.rule_projects, RuleRow.rule_envs_total, RuleRow.rule_keys_total, length_map] at hb ⊢
    exact (Nat.add_le_add (Nat.add_le_add (d.filter_kept_length_le _)
      (d.filter_kept_length_le _)) (d.filter_kept_length_le _)).trans hb

end Deletion

/-! ## Reading and pruning the tables -/

theorem foldl_addItem_start (row : RuleRow) (items : List StoredRuleItem) :
    items.foldl StoredRule.addItem row.start = ⟨row.rule items, items⟩ := by
  have h : ∀ (l : List StoredRuleItem) (s : StoredRule), l.foldl StoredRule.addItem s
      = ⟨{ s.rule with selector := l.foldl Where.addItem s.rule.selector }, s.items ++ l⟩ := by
    intro l
    induction l with
    | nil => intro s; simp
    | cons it rest ih =>
      intro s
      rw [foldl_cons, ih]
      simp [StoredRule.addItem]
  rw [h]
  rfl

/-- The loop over the rows of one rule reads that rule. -/
theorem foldl_step_same (row : RuleRow) (items : List StoredRuleItem) (out : List StoredRule) :
    ∀ s : StoredRule, s.rule.id = row.id →
      (items.map (fun it => (row, it))).foldl RuleFold.step ⟨out, some s⟩
        = ⟨out, some (items.foldl StoredRule.addItem s)⟩ := by
  induction items with
  | nil => intro s _; rfl
  | cons it rest ih =>
    intro s hs
    rw [map_cons, foldl_cons, foldl_cons]
    have hstep : RuleFold.step ⟨out, some s⟩ (row, it) = ⟨out, some (s.addItem it)⟩ := by
      simp [RuleFold.step, hs]
    rw [hstep]
    exact ih (s.addItem it) hs

theorem foldRules_same (row : RuleRow) {items : List StoredRuleItem} (hne : items ≠ []) :
    foldRules (items.map (fun it => (row, it)))
      = if (row.rule items).validate = .ok () then [⟨row.rule items, items⟩] else [] := by
  cases items with
  | nil => exact absurd rfl hne
  | cons it rest =>
    have hfirst : RuleFold.step {} (row, it) = ⟨[], some (row.start.addItem it)⟩ := rfl
    have hall : rest.foldl StoredRule.addItem (row.start.addItem it)
        = ⟨row.rule (it :: rest), it :: rest⟩ := foldl_addItem_start row (it :: rest)
    rw [foldRules, map_cons, foldl_cons, hfirst, foldl_step_same row rest _ _ rfl, hall]
    rfl

/-- A rule without items names no project. -/
theorem rule_nil_invalid (row : RuleRow) : ¬ (row.rule []).validate = .ok () := by
  rw [Rule.validate_eq_ok_iff]
  intro h
  exact h.projects_ne_nil rfl

namespace RuleTables

/-- The header of a rule. -/
def header (t : RuleTables) (id : String) : Option RuleRow := t.rules.find? (fun r => r.id = id)

/-- The rule that is stored under an identifier and valid, if there is one:
what authorization can evaluate. -/
def validRule (t : RuleTables) (id : String) : Option Rule :=
  match t.getRule id with
  | some (stored, true) => some stored.rule
  | _ => none

variable {t : RuleTables} {id : String}

variable {row : RuleRow}

theorem header_id (h : t.header id = some row) : row.id = id := by
  have hdec := find?_some h
  exact of_decide_eq_true hdec

/-- **Reading a stored rule**: the rule its rows form, when there are rows. -/
theorem getRule_of_header (h : t.header id = some row) (hne : t.itemsOfRule id ≠ []) :
    ((row.rule (t.itemsOfRule id)).validate = .ok () ∧
      t.getRule id = some (⟨row.rule (t.itemsOfRule id), t.itemsOfRule id⟩, true)) ∨
    (¬ (row.rule (t.itemsOfRule id)).validate = .ok () ∧
      ∃ stored, t.getRule id = some (stored, false) ∧ stored.rule.id = row.id ∧
        stored.rule.principal = row.principal ∧ stored.items = t.itemsOfRule id) := by
  have hrows : t.ruleRows id = (t.itemsOfRule id).map (fun it => (row, it)) := by
    unfold ruleRows
    rw [show t.rules.find? (fun r => r.id = id) = some row from h]
  cases hitems : t.itemsOfRule id with
  | nil => exact absurd hitems hne
  | cons it rest =>
    rw [hitems, map_cons] at hrows
    have hfold := foldRules_same row (show it :: rest ≠ [] from cons_ne_nil it rest)
    rw [map_cons] at hfold
    by_cases hv : (row.rule (it :: rest)).validate = .ok ()
    · refine .inl ⟨hv, ?_⟩
      rw [if_pos hv] at hfold
      simp only [getRule, hrows, hfold]
    · refine .inr ⟨hv, ?_⟩
      rw [if_neg hv] at hfold
      simp only [getRule, hrows, hfold]
      refine ⟨_, rfl, rfl, rfl, ?_⟩
      simp

theorem getRule_eq_none (h : t.header id = none ∨ t.itemsOfRule id = []) : t.getRule id = none := by
  have hrows : t.ruleRows id = [] := by
    unfold ruleRows
    cases hh : t.rules.find? (fun r => decide (r.id = id)) with
    | none => rfl
    | some row =>
      cases h with
      | inl hnone => cases hh.symm.trans hnone
      | inr hnil => simp [hnil]
  simp only [getRule, hrows]

theorem validRule_of_header (h : t.header id = some row) :
    t.validRule id = if (row.rule (t.itemsOfRule id)).validate = .ok ()
      then some (row.rule (t.itemsOfRule id)) else none := by
  by_cases hne : t.itemsOfRule id = []
  · rw [validRule, getRule_eq_none (.inr hne), hne, if_neg (rule_nil_invalid row)]
  · cases getRule_of_header h hne with
    | inl hv => rw [validRule, hv.2, if_pos hv.1]
    | inr hinv =>
      obtain ⟨hnv, stored, hget, -⟩ := hinv
      rw [validRule, hget, if_neg hnv]

theorem validRule_of_no_header (h : t.header id = none) : t.validRule id = none := by
  rw [validRule, getRule_eq_none (.inl h)]

/-- Two tables agree on a rule: same header, same items. -/
def SameFor (t t' : RuleTables) (id : String) : Prop :=
  t'.header id = t.header id ∧ t'.itemsOfRule id = t.itemsOfRule id

theorem SameFor.trans {t' t'' : RuleTables} (h : t.SameFor t' id)
    (h' : t'.SameFor t'' id) : t.SameFor t'' id :=
  ⟨h'.1.trans h.1, h'.2.trans h.2⟩

theorem SameFor.validRule_eq {t' : RuleTables} (h : t.SameFor t' id) :
    t'.validRule id = t.validRule id := by
  cases hh : t.header id with
  | none => rw [validRule_of_no_header hh, validRule_of_no_header (h.1.trans hh)]
  | some row => rw [validRule_of_header hh, validRule_of_header (h.1.trans hh), h.2]

theorem mem_itemsOfRule : it ∈ t.itemsOfRule id ↔ (id, it) ∈ t.items := by
  simp [itemsOfRule]

/-- Item identifiers tell items apart. -/
theorem item_eq_of_id_eq {a b : String × StoredRuleItem} (ha : a ∈ t.items)
    (hb : b ∈ t.items) (h : a.2.id = b.2.id) : a = b :=
  inj_on_of_nodup_map t.items_nodup ha hb h

/-- What the loop over items leaves of the tables. -/
theorem dropItems_tables (gone : StoredRuleItem → Bool) (ruleId : String)
    (l : List StoredRuleItem) : ∀ t : RuleTables, (dropItems gone ruleId t l).rules = t.rules ∧
      (dropItems gone ruleId t l).items = t.items.filter (fun i =>
        !(i.1 = ruleId && l.any (fun it => gone it && it.id = i.2.id))) := by
  induction l with
  | nil => intro t; simp [dropItems]
  | cons it rest ih =>
    intro t
    have hunfold : dropItems gone ruleId t (it :: rest)
        = dropItems gone ruleId (if gone it then t.deleteRuleItem ruleId it.id else t) rest := rfl
    rw [hunfold, (ih _).1, (ih _).2]
    cases hg : gone it with
    | false => exact ⟨rfl, by simp [hg]⟩
    | true =>
      refine ⟨rfl, ?_⟩
      rw [if_pos rfl, deleteRuleItem, filter_filter]
      refine filter_congr fun i _ => ?_
      by_cases hr : i.1 = ruleId
      · simp [hr, hg, Bool.and_comm, @eq_comm _ it.id i.2.id]
      · simp [hr]

/-- **Dropping a rule's items drops exactly the matched ones**, and only in
that rule. -/
theorem dropItems_spec (gone : StoredRuleItem → Bool) (t : RuleTables) (id : String) :
    (dropItems gone id t (t.itemsOfRule id)).itemsOfRule id
        = (t.itemsOfRule id).filter (fun it => !gone it) ∧
      (dropItems gone id t (t.itemsOfRule id)).header id = t.header id ∧
      ∀ id', id' ≠ id → t.SameFor (dropItems gone id t (t.itemsOfRule id)) id' := by
  obtain ⟨hrules, htable⟩ := dropItems_tables gone id (t.itemsOfRule id) t
  have hitems : (dropItems gone id t (t.itemsOfRule id)).items
      = t.items.filter (fun i => !(i.1 = id && gone i.2)) := by
    rw [htable]
    refine filter_congr fun i hi => congrArg _ ?_
    by_cases hid : i.1 = id
    · rw [decide_eq_true hid, Bool.true_and, Bool.true_and, Bool.eq_iff_iff, any_eq_true]
      simp only [Bool.and_eq_true, decide_eq_true_eq]
      constructor
      · intro ⟨it, hit, hg, heq⟩
        have hsame := item_eq_of_id_eq (mem_itemsOfRule.mp hit) hi heq
        rwa [show it = i.2 from congrArg Prod.snd hsame] at hg
      · intro hg
        refine ⟨i.2, ?_, hg, rfl⟩
        rw [mem_itemsOfRule, ← hid]
        exact hi
    · rw [decide_eq_false hid, Bool.false_and, Bool.false_and]
  have hheader : ∀ id', (dropItems gone id t (t.itemsOfRule id)).header id' = t.header id' :=
    fun id' => by unfold header; rw [hrules]
  refine ⟨?_, hheader id, fun id' hne => ⟨hheader id', ?_⟩⟩
  · unfold itemsOfRule at hitems ⊢
    rw [hitems, filter_filter, filter_map, filter_filter]
    refine congrArg _ (filter_congr fun i _ => ?_)
    by_cases hid : i.1 = id
    · simp [hid]
    · simp [hid]
  · unfold itemsOfRule at hitems ⊢
    rw [hitems, filter_filter]
    refine congrArg _ (filter_congr fun i _ => ?_)
    by_cases hid : i.1 = id'
    · simp [hid, hne]
    · simp [hid]

/-- Removing a rule removes it, and nothing else. -/
theorem deleteRule_spec (h : t.header id = some row) :
    (t.deleteRule id row.principal).header id = none ∧
      ∀ id', id' ≠ id → t.SameFor (t.deleteRule id row.principal) id' := by
  refine ⟨?_, fun id' hne => ⟨?_, ?_⟩⟩
  · refine find?_eq_none.mpr fun r hr hid => ?_
    obtain ⟨hmem, hkeep⟩ := mem_filter.mp hr
    have hrid : r.id = id := of_decide_eq_true hid
    have heq : r = row := inj_on_of_nodup_map t.rules_nodup hmem
      (mem_of_find?_eq_some h) (hrid.trans (header_id h).symm)
    exact (of_decide_eq_true hkeep) ⟨hrid, by rw [heq]⟩
  · unfold header deleteRule
    rw [find?_filter]
    refine congrArg (fun q => List.find? q t.rules) (funext fun r => ?_)
    by_cases hr : r.id = id'
    · simp [hr, hne]
    · simp [hr]
  · unfold itemsOfRule deleteRule
    rw [filter_filter]
    refine congrArg _ (filter_congr fun i _ => ?_)
    by_cases hi : i.1 = id'
    · simp [hi, hne]
    · simp [hi]

theorem revokeRule_of_header {stored : StoredRule} (h : t.header id = some row)
    (hid : stored.rule.id = row.id) (hp : stored.rule.principal = row.principal) :
    revokeRule t stored = .ok (t.deleteRule id row.principal) := by
  unfold revokeRule
  rw [if_pos, hid, hp, header_id h]
  refine any_eq_true.mpr ⟨row, mem_of_find?_eq_some h, ?_⟩
  simp [hid, hp]

/-- **What pruning one rule does.** It succeeds, leaves every other rule as it
was, and leaves of the rule itself what its remaining items form, if that is
valid. -/
theorem pruneRule_spec (gone : StoredRuleItem → Bool) (t : RuleTables) (id : String) :
    ∃ t', pruneRule gone t id = .ok t' ∧ (∀ id', id' ≠ id → t.SameFor t' id') ∧
      ∀ row, t.header id = some row →
        t'.validRule id
          = if (row.rule ((t.itemsOfRule id).filter (fun it => !gone it))).validate = .ok ()
            then some (row.rule ((t.itemsOfRule id).filter (fun it => !gone it))) else none := by
  cases hh : t.header id with
  | none =>
    refine ⟨t, ?_, fun id' _ => ⟨rfl, rfl⟩, fun row hrow => nomatch hrow⟩
    simp only [pruneRule, getRule_eq_none (.inl hh)]
  | some row =>
    by_cases hne : t.itemsOfRule id = []
    · refine ⟨t, ?_, fun id' _ => ⟨rfl, rfl⟩, fun row' hrow => ?_⟩
      · simp only [pruneRule, getRule_eq_none (.inr hne)]
      · rw [validRule_of_header (hh.trans hrow), hne]
        rfl
    obtain ⟨stored, valid, hget, hsid, hsp, hsitems⟩ : ∃ stored valid,
        t.getRule id = some (stored, valid) ∧ stored.rule.id = row.id ∧
          stored.rule.principal = row.principal ∧ stored.items = t.itemsOfRule id := by
      cases getRule_of_header hh hne with
      | inl hv => exact ⟨_, _, hv.2, rfl, rfl, rfl⟩
      | inr hinv =>
        obtain ⟨-, stored, hget, hid, hp, hitems⟩ := hinv
        exact ⟨stored, false, hget, hid, hp, hitems⟩
    obtain ⟨hkept, hheader, hframe⟩ := dropItems_spec gone t id
    have hheader' := hheader.trans hh
    have hdel := deleteRule_spec hheader'
    have hrevoke : ∀ s : StoredRule, s.rule.id = row.id → s.rule.principal = row.principal →
        revokeRule (dropItems gone id t (t.itemsOfRule id)) s
          = .ok ((dropItems gone id t (t.itemsOfRule id)).deleteRule id row.principal) :=
      fun s hid hp => revokeRule_of_header hheader' hid hp
    -- pruning to an invalid rule revokes it; the frame is the same either way
    have hgone : ∀ row', some row = some row' →
        ¬ (row.rule ((t.itemsOfRule id).filter (fun it => !gone it))).validate = .ok () →
        ((dropItems gone id t (t.itemsOfRule id)).deleteRule id row.principal).validRule id
          = if (row'.rule ((t.itemsOfRule id).filter (fun it => !gone it))).validate = .ok ()
            then some (row'.rule ((t.itemsOfRule id).filter (fun it => !gone it)))
            else none := by
      intro row' hrow hnv
      rw [← Option.some.inj hrow, if_neg hnv, validRule_of_no_header hdel.1]
    by_cases hnil : (dropItems gone id t (t.itemsOfRule id)).itemsOfRule id = []
    · refine ⟨_, ?_, fun id' h => (hframe id' h).trans (hdel.2 id' h),
        fun row' hrow => hgone row' hrow ?_⟩
      · simp only [pruneRule, hget, hsitems, getRule_eq_none (.inr hnil), hrevoke stored hsid hsp]
      · rw [← hkept, hnil]
        exact rule_nil_invalid row
    · cases getRule_of_header hheader' hnil with
      | inl hv =>
        refine ⟨dropItems gone id t (t.itemsOfRule id), ?_, hframe, fun row' hrow => ?_⟩
        · simp only [pruneRule, hget, hsitems, hv.2, if_true]
        · rw [validRule_of_header hheader', hkept, Option.some.inj hrow]
      | inr hinv =>
        obtain ⟨hnv, after, hget', hid, hp, -⟩ := hinv
        refine ⟨_, ?_, fun id' h => (hframe id' h).trans (hdel.2 id' h),
          fun row' hrow => hgone row' hrow (hkept ▸ hnv)⟩
        simp only [pruneRule, hget, hsitems, hget', hrevoke after hid hp]
        rfl

/-- Pruning a list of rules prunes each of them and nothing else. -/
theorem pruneRules_spec (gone : StoredRuleItem → Bool) (ids : List String) (hnd : ids.Nodup) :
    ∀ t : RuleTables, ∃ t', pruneRules gone ids t = .ok t' ∧ (∀ id, id ∉ ids → t.SameFor t' id) ∧
      ∀ id ∈ ids, ∀ row, t.header id = some row →
        t'.validRule id
          = if (row.rule ((t.itemsOfRule id).filter (fun it => !gone it))).validate = .ok ()
            then some (row.rule ((t.itemsOfRule id).filter (fun it => !gone it))) else none := by
  induction ids with
  | nil => exact fun t => ⟨t, rfl, fun id _ => ⟨rfl, rfl⟩, fun id h => absurd h not_mem_nil⟩
  | cons a ids ih =>
    intro t
    obtain ⟨ha, hnd'⟩ := nodup_cons.mp hnd
    obtain ⟨t₁, hok₁, hframe₁, hval₁⟩ := pruneRule_spec gone t a
    obtain ⟨t₂, hok₂, hframe₂, hval₂⟩ := ih hnd' t₁
    refine ⟨t₂, ?_, fun id hid => ?_, fun id hid row hrow => ?_⟩
    · simp only [pruneRules, hok₁, hok₂]
    · rw [mem_cons, not_or] at hid
      exact (hframe₁ id hid.1).trans (hframe₂ id hid.2)
    · by_cases hia : id = a
      · subst hia
        rw [(hframe₂ id ha).validRule_eq, hval₁ row hrow]
      · have hsame := hframe₁ id hia
        have hmem := (mem_cons.mp hid).resolve_left hia
        rw [hval₂ id hmem row (hsame.1.trans hrow), hsame.2]

end RuleTables

/-- **What a deletion does to a stored rule.** The release succeeds; a rule of
the organization becomes what its remaining items form, if that is valid; a
rule of another organization stays as it was. -/
theorem Deletion.release_spec (d : Deletion) (t : RuleTables) :
    ∃ t', d.release t = .ok t' ∧ ∀ id row, t.header id = some row →
      t'.validRule id =
        if row.org = d.org then
          if (row.rule (d.kept (t.itemsOfRule id))).validate = .ok ()
            then some (row.rule (d.kept (t.itemsOfRule id))) else none
        else t.validRule id := by
  have hnd : (d.ruleIds t).Nodup := t.rules_nodup.sublist (filter_sublist.map _)
  obtain ⟨t', hok, hframe, hval⟩ := RuleTables.pruneRules_spec d.gone (d.ruleIds t) hnd t
  refine ⟨t', hok, fun id row hrow => ?_⟩
  have hrid : row.id = id := RuleTables.header_id hrow
  have hrmem : row ∈ t.rules := mem_of_find?_eq_some hrow
  have hcensus : id ∈ d.ruleIds t ↔ row.org = d.org ∧ (t.itemsOfRule id).any d.gone = true := by
    constructor
    · intro hin
      obtain ⟨r, hr, hrid'⟩ := mem_map.mp hin
      obtain ⟨hmem, hcond⟩ := mem_filter.mp hr
      have heq : r = row :=
        inj_on_of_nodup_map t.rules_nodup hmem hrmem (hrid'.trans hrid.symm)
      rw [heq, Bool.and_eq_true, decide_eq_true_eq, hrid] at hcond
      exact hcond
    · intro ⟨horg, hany⟩
      refine mem_map.mpr ⟨row, mem_filter.mpr ⟨hrmem, ?_⟩, hrid⟩
      rw [Bool.and_eq_true, decide_eq_true_eq, hrid]
      exact ⟨horg, hany⟩
  by_cases hin : id ∈ d.ruleIds t
  · rw [if_pos (hcensus.mp hin).1]
    exact hval id hin row hrow
  · rw [(hframe id hin).validRule_eq]
    by_cases horg : row.org = d.org
    · -- nothing names the object, so every item is kept
      have hkept : d.kept (t.itemsOfRule id) = t.itemsOfRule id := by
        refine filter_eq_self.mpr fun it hit => ?_
        rw [Bool.not_eq_true']
        refine Bool.eq_false_iff.mpr fun hg => hin (hcensus.mpr ⟨horg, ?_⟩)
        exact any_eq_true.mpr ⟨it, hit, hg⟩
      rw [if_pos horg, hkept, RuleTables.validRule_of_header hrow]
    · rw [if_neg horg]

end Hikyo
