import Hikyo.Service.RulePruning

/-!
# Reach under deletion

What pruning does to the reach of a stored rule, atom by atom. The atoms are
those that name only objects surviving the deletion (`Deletion.Spares`).

Both theorems are equivalences. A deletion widens a rule exactly when it drops
the last exception of an axis read as `all` and some atom that names nothing
on that axis can use the opening (`Deletion.OpensAxis`). A deletion loses an
environment-level reach exactly when it takes the last key item of a
See rule that picks keys, while an environment of the rule survives
(`Deletion.EmptiesSee`).
-/

namespace Hikyo

open List

/-! ## Matching something -/

/-- A witness name not among some folders lies in none of them. -/
theorem folderWithin_freshEnv {folders : List String} {folder : String} (h : folder ∈ folders) :
    folderWithin (freshEnv folders) folder = false := by
  refine Bool.eq_false_iff.mpr fun hwithin => ?_
  rw [folderWithin_iff] at hwithin
  cases hwithin with
  | inl heq =>
    refine freshEnv_notMem folders ?_
    rw [String.toList_inj.mp heq]
    exact h
  | inr hpre => exact slash_notMem_witnessName _ (hpre.2.subset (by simp))

variable {p : ProjectId}

namespace Rule.Valid

variable {r : Rule}

/-- An environment axis that is no empty pick matches an environment. -/
theorem exists_env (hv : r.Valid) (h : r.selector.envMode = .all ∨ r.selector.envsAt p ≠ []) :
    ∃ env, env ≠ "" ∧ selectorEnvMatches r.selector p env = true := by
  cases hm : r.selector.envMode with
  | all =>
    refine ⟨freshEnv (r.selector.envsAt p), witnessName_ne_empty _, ?_⟩
    simp [selectorEnvMatches, hm, freshEnv_notMem]
  | only =>
    obtain ⟨env, henv⟩ := exists_mem_of_ne_nil _ (h.resolve_left (by simp [hm]))
    refine ⟨env, hv.env_ne_empty henv, ?_⟩
    simp [selectorEnvMatches, hm, henv]
  | other t => exact (show AxisMode.Known (.other t) from hm ▸ hv.envMode).elim

/-- A key axis that is no empty pick matches a key. -/
theorem exists_key (hv : r.Valid) (h : r.selector.keyMode = .all ∨ r.selector.keysAt p ≠ []) :
    ∃ key, r.selector.reachesKey p (some key) = true := by
  have heq := fun key => Where.reachesKey_some hv.keyMode p key
  cases hm : r.selector.keyMode with
  | all =>
    -- a key without identifier in a folder no item names
    refine ⟨{ folder := freshEnv ((r.selector.keysAt p).map (fun it => it.folder)) }, ?_⟩
    rw [heq, selectorKeyMatches, hm]
    have hnone : (r.selector.keysAt p).any (selectorItemMatches .all
        { folder := freshEnv ((r.selector.keysAt p).map (fun it => it.folder)) }) = false := by
      refine Bool.eq_false_iff.mpr fun hany => ?_
      obtain ⟨it, hit, hmatch⟩ := any_eq_true.mp hany
      cases hf : it.isFolder with
      | false => exact ((selectorItemMatches_key hf).mp hmatch).1 rfl
      | true =>
        rw [selectorItemMatches_all_folder hf] at hmatch
        exact Bool.eq_false_iff.mp (folderWithin_freshEnv (mem_map_of_mem hit)) hmatch
    rw [hnone]
    rfl
  | only =>
    obtain ⟨it, hit⟩ := exists_mem_of_ne_nil _ (h.resolve_left (by simp [hm]))
    have hpick : ∀ key, selectorItemMatches .only key it = true →
        ∃ key, r.selector.reachesKey p (some key) = true := by
      intro key hmatch
      refine ⟨key, ?_⟩
      rw [heq, selectorKeyMatches, hm, any_eq_true.mpr ⟨it, hit, hmatch⟩]
      rfl
    cases hf : it.isFolder with
    | false =>
      exact hpick { id := it.keyId }
        ((selectorItemMatches_key hf).mpr ⟨hv.keyId_ne_empty hit hf, rfl⟩)
    | true => exact hpick { folder := it.folder } ((selectorItemMatches_only_folder hf).mpr rfl)
  | other t => exact (show AxisMode.Known (.other t) from hm ▸ hv.keyMode).elim

end Rule.Valid

/-- A key axis admits an atom only if it is no empty pick. -/
theorem Where.all_or_ne_nil_of_reachesKey {w : Where} (hmode : w.keyMode.Known)
    {key : Option RuleKey} (h : w.reachesKey p key = true) :
    w.keyMode = .all ∨ w.keysAt p ≠ [] := by
  by_contra hc
  rw [not_or, not_not] at hc
  cases hm : w.keyMode with
  | all => exact hc.1 hm
  | only =>
    cases key with
    | none => exact hc.1 ((Where.reachesKey_none p).mp h).1
    | some k =>
      rw [Where.reachesKey_some hmode, selectorKeyMatches, hm, hc.2] at h
      cases h
  | other t => exact (show AxisMode.Known (.other t) from hm ▸ hmode).elim

/-! ## Atoms over surviving objects -/

variable {r : Rule}

namespace Deletion

/-- The atom's scope and key name only objects that survive the deletion. -/
def Spares : Deletion → Scope → Option RuleKey → Prop
  | environment org p e _ => fun s _ => ¬ (s.org = org ∧ s.project = p ∧ s.env = e)
  | key org p k _ => fun s key =>
    ∀ key', key = some key' → ¬ (s.org = org ∧ s.project = p ∧ key'.id = k)
  | project org p => fun s _ => ¬ (s.org = org ∧ s.project = p)

variable (d : Deletion) (row : RuleRow) (items : List StoredRuleItem)

variable {s : Scope}

theorem not_dropsProject_of_spares {key : Option RuleKey} (hs : d.Spares s key)
    (horg : s.org = d.org) : d.dropsProject s.project = false := by
  cases d with
  | environment org p e hne | key org p k hne => rfl
  | project org p => exact decide_eq_false fun h => hs ⟨horg, h⟩

theorem not_dropsEnv_of_spares {key : Option RuleKey} (hs : d.Spares s key)
    (horg : s.org = d.org) : d.dropsEnv s.project s.env = false := by
  cases d with
  | environment org p e hne =>
    refine Bool.eq_false_iff.mpr fun h => ?_
    simp only [dropsEnv, Bool.and_eq_true, decide_eq_true_eq] at h
    exact hs ⟨horg, h⟩
  | key org p k hne => rfl
  | project org p => exact decide_eq_false fun h => hs ⟨horg, h⟩

variable {k : RuleKey}

/-- A dropped key item does not match a surviving key. -/
theorem not_matches_of_drops (hv : r.Valid)
    (hs : d.Spares s (some k)) (horg : s.org = d.org) {it : RuleKeyItem}
    (hit : it ∈ r.selector.keysAt s.project) (hdrop : d.dropsKey s.project it = true)
    (mode : AxisMode) : selectorItemMatches mode k it = false := by
  refine Bool.eq_false_iff.mpr fun hmatch => ?_
  cases d with
  | environment org p e hne => cases hdrop
  | key org p kd hne =>
    simp only [dropsKey, Bool.and_eq_true, decide_eq_true_eq] at hdrop
    have hkey : it.isFolder = false := by
      have hwf := hv.keys.get_wellFormed hit
      refine Bool.eq_false_iff.mpr fun hf => ?_
      simp [RuleKeyItem.malformed, hdrop.2, hne, hf] at hwf
    exact hs k rfl ⟨horg, hdrop.1, ((selectorItemMatches_key hkey).mp hmatch).2.trans hdrop.2⟩
  | project org p => exact hs ⟨horg, of_decide_eq_true hdrop⟩

/-! ## One axis at a time -/

variable {d row items}

/-- At environment level, a surviving environment is admitted as before. -/
theorem kept_reachesLevel_env {key : Option RuleKey} (hs : d.Spares s key)
    (horg : s.org = d.org) (c : Capability) :
    (row.rule (d.kept items)).selector.reachesLevel c .env s key
      = (row.rule items).selector.reachesLevel c .env s key := by
  have hlisted : ((row.rule (d.kept items)).selector.envsAt s.project).contains s.env
      = ((row.rule items).selector.envsAt s.project).contains s.env := by
    rw [kept_envsAt, Bool.eq_iff_iff, contains_iff_mem, contains_iff_mem,
      mem_filter, d.not_dropsEnv_of_spares hs horg]
    exact and_iff_left rfl
  simp only [Where.reachesLevel, hlisted, RuleRow.rule_envMode]

/-- A surviving key is admitted as before. -/
theorem kept_reachesKey_some (hv : (row.rule items).Valid)
    (hs : d.Spares s (some k)) (horg : s.org = d.org) :
    (row.rule (d.kept items)).selector.reachesKey s.project (some k)
      = (row.rule items).selector.reachesKey s.project (some k) := by
  have hmode : (row.rule (d.kept items)).selector.keyMode.Known := by
    rw [RuleRow.rule_keyMode, ← row.rule_keyMode items]
    exact hv.keyMode
  rw [Where.reachesKey_some hmode, Where.reachesKey_some hv.keyMode]
  have hany : ((row.rule (d.kept items)).selector.keysAt s.project).any
        (selectorItemMatches row.keyMode k)
      = ((row.rule items).selector.keysAt s.project).any (selectorItemMatches row.keyMode k) := by
    rw [kept_keysAt, Bool.eq_iff_iff, any_eq_true, any_eq_true]
    constructor
    · intro ⟨it, hit, hmatch⟩
      exact ⟨it, (mem_filter.mp hit).1, hmatch⟩
    · intro ⟨it, hit, hmatch⟩
      refine ⟨it, mem_filter.mpr ⟨hit, ?_⟩, hmatch⟩
      rw [Bool.not_eq_true']
      refine Bool.eq_false_iff.mpr fun hdrop => ?_
      exact Bool.eq_false_iff.mp (d.not_matches_of_drops hv hs horg hit hdrop _) hmatch
  simp only [selectorKeyMatches, RuleRow.rule_keyMode, hany]

variable {q : ProjectId}

/-- Keys left unnarrowed stay unnarrowed. -/
theorem kept_keyUnnarrowed (h : (row.rule items).selector.KeyUnnarrowed q) :
    (row.rule (d.kept items)).selector.KeyUnnarrowed q := by
  obtain ⟨hmode, hnil⟩ := h
  refine ⟨?_, ?_⟩
  · rwa [RuleRow.rule_keyMode] at hmode ⊢
  · rw [kept_keysAt, hnil]
    rfl

variable {c : Capability}

/-- **No environment-level reach over surviving objects is lost** by the rule
that the remaining items form. -/
theorem kept_reaches_env (hv : (row.rule items).Valid) {key : Option RuleKey} (hs : d.Spares s key)
    (horg : s.org = d.org) (h : (row.rule items).reaches c .env s key = true) :
    (row.rule (d.kept items)).reaches c .env s key = true := by
  obtain ⟨hc, hmm, hso, hp, hl, hk⟩ := (Rule.reaches_iff _ _ _ _ _).mp h
  refine (Rule.reaches_iff _ _ _ _ _).mpr ⟨hc, hmm, hso, ?_, ?_, hk.imp id fun hk => ?_⟩
  · rw [kept_projects]
    refine mem_filter.mpr ⟨hp, ?_⟩
    rw [d.not_dropsProject_of_spares hs horg]
    rfl
  · rwa [kept_reachesLevel_env hs horg]
  · cases key with
    | none =>
      exact (Where.reachesKey_none_iff _ _).mpr
        (kept_keyUnnarrowed ((Where.reachesKey_none_iff _ _).mp hk))
    | some k => rwa [kept_reachesKey_some hv hs horg]

/-! ## Widening -/

variable (d) in
/-- **The deletion opens an axis of the rule**: it drops the last exceptions
of an axis read as `all` in a project, and an atom naming nothing on that axis
can use it.

Dropping the last excepted environment opens the project level – unless the
rule cannot be used there at all, or is a catalogue definition narrowed by keys,
which reaches the project level for its keys with exceptions or without.
Dropping the last excepted key opens the atoms without a key, unless the rule
is for See, which has them anyway, or matches no environment. -/
def OpensAxis (r : Rule) : Prop :=
  r.org = d.org ∧ r.capability ≠ .manageMembers ∧
    match d with
    | environment _ p e _ =>
      r.selector.envMode = .all ∧ r.selector.envsAt p ≠ [] ∧ (∀ x ∈ r.selector.envsAt p, x = e) ∧
        (r.capability = .read ∨
          (if r.capability = .definitionsEdit then r.selector.KeyUnnarrowed p
           else r.selector.keyMode = .all ∨ r.selector.keysAt p ≠ []))
    | key _ p k _ =>
      r.capability ≠ .read ∧ r.selector.keyMode = .all ∧ r.selector.keysAt p ≠ [] ∧
        (∀ it ∈ r.selector.keysAt p, it.keyId = k) ∧
        (r.selector.envMode = .all ∨ r.selector.envsAt p ≠ [])
    | project _ _ => False

variable {org : OrgId} {e : EnvId}

variable {hne : e ≠ ""}

theorem environment_kept_keysAt (q : ProjectId) :
    (row.rule ((environment org p e hne).kept items)).selector.keysAt q
      = (row.rule items).selector.keysAt q := by
  rw [kept_keysAt]
  exact filter_eq_self.mpr fun _ _ => rfl

variable {k : String}

theorem key_kept_envsAt {hne : k ≠ ""} (q : ProjectId) :
    (row.rule ((Deletion.key org p k hne).kept items)).selector.envsAt q
      = (row.rule items).selector.envsAt q := by
  rw [kept_envsAt]
  exact filter_eq_self.mpr fun _ _ => rfl

/-- A deletion of a project leaves the axes of every other project alone. -/
theorem project_kept_axes (hq : q ≠ p) :
    (row.rule ((Deletion.project org p).kept items)).selector.envsAt q
        = (row.rule items).selector.envsAt q ∧
      (row.rule ((Deletion.project org p).kept items)).selector.keysAt q
        = (row.rule items).selector.keysAt q := by
  rw [kept_envsAt, kept_keysAt]
  exact ⟨filter_eq_self.mpr fun x _ => by simp [dropsEnv, hq],
    filter_eq_self.mpr fun x _ => by simp [dropsKey, hq]⟩

/-- A deletion of an environment leaves the key axis alone. -/
theorem environment_kept_reachesKey (q : ProjectId) (key : Option RuleKey) :
    (row.rule ((environment org p e hne).kept items)).selector.reachesKey q key
      = (row.rule items).selector.reachesKey q key := by
  have hitem : (row.rule ((environment org p e hne).kept items)).selector.itemMatches
      = (row.rule items).selector.itemMatches := by
    funext k it
    simp only [Where.itemMatches, RuleRow.rule_keyMode]
  simp only [Where.reachesKey, environment_kept_keysAt, RuleRow.rule_keyMode, hitem]

/-- A deletion of a key leaves the environment axis alone. -/
theorem key_kept_reachesLevel {hne : k ≠ ""}
    (c : Capability) (lvl : Level) (s : Scope) (key : Option RuleKey) :
    (row.rule ((Deletion.key org p k hne).kept items)).selector.reachesLevel c lvl s key
      = (row.rule items).selector.reachesLevel c lvl s key := by
  simp only [Where.reachesLevel, key_kept_envsAt, RuleRow.rule_envMode]

variable {α : Type}

/-- Nothing of a list is left when nothing was there, or when the condition
for dropping holds and everything is to be dropped. -/
theorem filter_not_and_eq_nil_iff (l : List α) (a : Prop) [Decidable a]
    (b : α → Prop) [DecidablePred b] :
    l.filter (fun x => !(decide a && decide (b x))) = [] ↔ l = [] ∨ a ∧ ∀ x ∈ l, b x := by
  rw [filter_eq_nil_iff]
  simp only [Bool.not_eq_true', Bool.and_eq_false_iff, decide_eq_false_iff_not, not_or, not_not]
  constructor
  · intro h
    by_cases hnil : l = []
    · exact .inl hnil
    · obtain ⟨x, hx⟩ := exists_mem_of_ne_nil _ hnil
      exact .inr ⟨(h x hx).1, fun y hy => (h y hy).2⟩
  · intro h x hx
    cases h with
    | inl hnil =>
      rw [hnil] at hx
      exact absurd hx not_mem_nil
    | inr hall => exact ⟨hall.1, hall.2 x hx⟩

/-- The environments left are the listed ones other than the deleted one. -/
theorem environment_kept_eq_nil :
    (row.rule ((environment org p e hne).kept items)).selector.envsAt q = [] ↔
      (row.rule items).selector.envsAt q = [] ∨
        q = p ∧ ∀ x ∈ (row.rule items).selector.envsAt q, x = e := by
  rw [kept_envsAt]
  exact filter_not_and_eq_nil_iff _ _ _

/-- The key items left are those other than the deleted key's. -/
theorem key_kept_eq_nil {hne : k ≠ ""} :
    (row.rule ((Deletion.key org p k hne).kept items)).selector.keysAt q = [] ↔
      (row.rule items).selector.keysAt q = [] ∨
        q = p ∧ ∀ it ∈ (row.rule items).selector.keysAt q, it.keyId = k := by
  rw [kept_keysAt]
  exact filter_not_and_eq_nil_iff _ _ _

/-- At project level, dropping an environment admits an atom that was not
admitted only by emptying the exceptions, for an atom that is not a keyed
catalogue definition. -/
theorem environment_opens_project {key : Option RuleKey}
    (h : (row.rule ((environment org p e hne).kept items)).selector.reachesLevel c .project s key
      = true) (hnot : ¬ (row.rule items).selector.reachesLevel c .project s key = true) :
    s.project = p ∧ row.envMode = .all ∧ (row.rule items).selector.envsAt p ≠ [] ∧
      (∀ x ∈ (row.rule items).selector.envsAt p, x = e) ∧
      (c = .definitionsEdit → key = none) := by
  have hopen :
      (row.rule ((environment org p e hne).kept items)).selector.EnvUnnarrowed s.project →
      ¬ (row.rule items).selector.EnvUnnarrowed s.project →
      s.project = p ∧ row.envMode = .all ∧ (row.rule items).selector.envsAt p ≠ [] ∧
        ∀ x ∈ (row.rule items).selector.envsAt p, x = e := by
    intro ⟨hmode, hnil⟩ hnot
    rw [RuleRow.rule_envMode] at hmode
    have hne' : (row.rule items).selector.envsAt s.project ≠ [] := by
      intro hnil'
      exact hnot ⟨by rw [RuleRow.rule_envMode]; exact hmode, hnil'⟩
    obtain ⟨hq, hall⟩ := (environment_kept_eq_nil.mp hnil).resolve_left hne'
    rw [hq] at hne' hall
    exact ⟨hq, hmode, hne', hall⟩
  cases key with
  | none =>
    rw [Where.reachesLevel_project_none] at h hnot
    obtain ⟨h1, h2, h3, h4⟩ := hopen h hnot
    exact ⟨h1, h2, h3, h4, fun _ => rfl⟩
  | some k =>
    rw [Where.reachesLevel_project_some] at h hnot
    unfold Where.ProjectKeyed at h hnot
    by_cases hc : c = .definitionsEdit
    · -- a keyed catalogue definition only asks for a nonempty pick
      rw [if_pos hc] at h hnot
      obtain ⟨hmode, hnil⟩ := not_not.mp hnot
      refine absurd ⟨?_, environment_kept_eq_nil.mpr (.inl hnil)⟩ h
      rwa [RuleRow.rule_envMode] at hmode ⊢
    · rw [if_neg hc] at h hnot
      obtain ⟨h1, h2, h3, h4⟩ := hopen h hnot
      exact ⟨h1, h2, h3, h4, fun hd => absurd hd hc⟩

/-- **Without an opened axis nothing is widened**: what the remaining items
reach among surviving objects was reached before. -/
theorem reaches_of_kept_reaches (hv : (row.rule items).Valid) (horg : row.org = d.org)
    (hclosed : ¬ d.OpensAxis (row.rule items)) {lvl : Level}
    {key : Option RuleKey} (hlvl : lvl = .project ∨ lvl = .env) (hs : d.Spares s key)
    (h : (row.rule (d.kept items)).reaches c lvl s key = true) :
    (row.rule items).reaches c lvl s key = true := by
  obtain ⟨hc, hmm, hso, hp, hl, hk⟩ := (Rule.reaches_iff _ _ _ _ _).mp h
  have hsd : s.org = d.org := hso.trans horg
  rw [kept_projects] at hp
  refine (Rule.reaches_iff _ _ _ _ _).mpr ⟨hc, hmm, hso, (mem_filter.mp hp).1, ?_, ?_⟩
  · by_contra hnot
    cases hlvl with
    | inr he =>
      subst he
      rw [kept_reachesLevel_env hs hsd] at hl
      exact hnot hl
    | inl hpr =>
      subst hpr
      cases d with
      | key org p k hne =>
        rw [key_kept_reachesLevel] at hl
        exact hnot hl
      | project org p =>
        have hq : s.project ≠ p := fun hq => hs ⟨hsd, hq⟩
        refine hnot ?_
        simpa only [Where.reachesLevel, (project_kept_axes hq).1, RuleRow.rule_envMode] using hl
      | environment org p e hne =>
        obtain ⟨hq, hmode, hnil, hall, hdef⟩ := environment_opens_project hl hnot
        refine hclosed ⟨horg, hc ▸ hmm, ?_⟩
        refine ⟨by rw [RuleRow.rule_envMode]; exact hmode, hnil, hall, ?_⟩
        rw [← show c = (row.rule items).capability from hc]
        refine hk.imp id fun hkey => ?_
        rw [environment_kept_reachesKey, hq] at hkey
        by_cases hcd : c = .definitionsEdit
        · rw [if_pos hcd]
          rw [hdef hcd] at hkey
          exact (Where.reachesKey_none_iff _ _).mp hkey
        · rw [if_neg hcd]
          exact Where.all_or_ne_nil_of_reachesKey hv.keyMode hkey
  · refine (or_iff_not_imp_left.mpr fun hread => ?_)
    have hk' := hk.resolve_left hread
    cases key with
    | some k => rwa [kept_reachesKey_some hv hs hsd] at hk'
    | none =>
      by_contra hnot
      rw [Where.reachesKey_none_iff] at hk' hnot
      obtain ⟨hmode, hnil⟩ := hk'
      rw [RuleRow.rule_keyMode] at hmode
      have hne' : (row.rule items).selector.keysAt s.project ≠ [] := by
        intro hnil'
        exact hnot ⟨by rw [RuleRow.rule_keyMode]; exact hmode, hnil'⟩
      cases d with
      | environment org p e hne =>
        exact hne' ((environment_kept_keysAt _).symm.trans hnil)
      | project org p =>
        have hq : s.project ≠ p := fun hq => hs ⟨hsd, hq⟩
        exact hne' ((project_kept_axes hq).2.symm.trans hnil)
      | key org p k hne =>
        obtain ⟨hq, hall⟩ := (key_kept_eq_nil.mp hnil).resolve_left hne'
        rw [hq] at hne' hall
        refine hclosed ⟨horg, hc ▸ hmm, hc ▸ hread, ?_, hne', hall, ?_⟩
        · rw [RuleRow.rule_keyMode]
          exact hmode
        · rw [key_kept_reachesLevel] at hl
          by_contra hempty
          rw [not_or, not_not] at hempty
          cases hlvl with
          | inr he =>
            subst he
            have hmatch := ((Where.reachesLevel_env hv.envMode _ _ _).mp hl).2
            rw [hq, selectorEnvMatches, hempty.2] at hmatch
            simp [hempty.1] at hmatch
          | inl hpr =>
            subst hpr
            exact hempty.1 ((Where.reachesLevel_project_none _ _ _).mp hl).1

theorem exists_get_ne_nil {m : ItemMap α} (h : ItemMap.total m ≠ 0) :
    ∃ q, ItemMap.get m q ≠ [] := by
  by_contra hnone
  refine h ((ItemMap.total_eq_zero_iff m).mpr fun q => ?_)
  by_contra hne
  exact hnone ⟨q, hne⟩

/-- A rule one of whose axes a deletion opens survives the deletion. -/
theorem valid_of_opensAxis (hv : (row.rule items).Valid)
    (hopen : d.OpensAxis (row.rule items)) : (row.rule (d.kept items)).Valid := by
  obtain ⟨-, -, hopen⟩ := hopen
  cases d with
  | environment org p e hne =>
    obtain ⟨hmode, hnil, -, -⟩ := hopen
    rw [RuleRow.rule_envMode] at hmode
    refine kept_valid _ hv ?_ (fun honly => nomatch honly.symm.trans hmode) fun honly => ?_
    · rw [kept_projects]
      exact ne_nil_of_mem (mem_filter.mpr ⟨hv.envs.mem_projects hnil, rfl⟩)
    · obtain ⟨q, hq⟩ := exists_get_ne_nil (hv.keys_only (by rw [RuleRow.rule_keyMode]; exact honly))
      refine ⟨q, ?_⟩
      rw [environment_kept_keysAt]
      exact hq
  | key org p k hne =>
    obtain ⟨-, hmode, hnil, -, -⟩ := hopen
    rw [RuleRow.rule_keyMode] at hmode
    refine kept_valid _ hv ?_ (fun honly => ?_) fun honly => nomatch honly.symm.trans hmode
    · rw [kept_projects]
      exact ne_nil_of_mem (mem_filter.mpr ⟨hv.keys.mem_projects hnil, rfl⟩)
    · obtain ⟨q, hq⟩ := exists_get_ne_nil (hv.envs_only (by rw [RuleRow.rule_envMode]; exact honly))
      refine ⟨q, ?_⟩
      rw [key_kept_envsAt]
      exact hq
  | project org p => exact hopen.elim

/-- **An opened axis is used**: some atom over surviving objects is reached
after the deletion and was not before. -/
theorem exists_widened (hv : (row.rule items).Valid) (hopen : d.OpensAxis (row.rule items)) :
    ∃ c lvl s key, (lvl = .project ∨ lvl = .env) ∧ d.Spares s key ∧
      (row.rule (d.kept items)).reaches c lvl s key = true ∧
      ¬ (row.rule items).reaches c lvl s key = true := by
  obtain ⟨horg, hmm, hopen⟩ := hopen
  cases d with
  | environment org p e hne =>
    obtain ⟨hmode, hnil, hall, huse⟩ := hopen
    have hp : p ∈ (row.rule items).selector.projects := hv.envs.mem_projects hnil
    have hopened : (row.rule ((environment org p e hne).kept items)).selector.EnvUnnarrowed p := by
      rw [RuleRow.rule_envMode] at hmode
      exact ⟨(RuleRow.rule_envMode _ _).trans hmode, environment_kept_eq_nil.mpr (.inr ⟨rfl, hall⟩)⟩
    -- the atom at project level, with the key the key axis asks for
    obtain ⟨key, hkey, hdef⟩ : ∃ key, (row.capability = .read ∨
        (row.rule items).selector.reachesKey p key = true) ∧
        (row.capability = .definitionsEdit → key = none) := by
      cases huse with
      | inl hread => exact ⟨none, .inl hread, fun _ => rfl⟩
      | inr huse =>
        by_cases hcd : row.capability = .definitionsEdit
        · have hkeys : (row.rule items).selector.KeyUnnarrowed p := by
            rwa [if_pos (show (row.rule items).capability = .definitionsEdit from hcd)] at huse
          exact ⟨none, .inr ((Where.reachesKey_none_iff _ _).mpr hkeys), fun _ => rfl⟩
        · rw [if_neg (show ¬ (row.rule items).capability = .definitionsEdit from hcd)] at huse
          obtain ⟨key, hkey⟩ := hv.exists_key huse
          exact ⟨some key, .inr hkey, fun h => absurd h hcd⟩
    have hlevel : ∀ w : Where, w.reachesLevel row.capability .project ⟨row.org, p, ""⟩ key = true ↔
        w.EnvUnnarrowed p := by
      intro w
      cases key with
      | none => exact Where.reachesLevel_project_none w _ _
      | some k =>
        rw [Where.reachesLevel_project_some, Where.ProjectKeyed, if_neg (by simpa using hdef)]
    refine ⟨row.capability, .project, ⟨row.org, p, ""⟩, key, .inl rfl,
      fun h => hne h.2.2.symm, ?_, fun h => ?_⟩
    · refine (Rule.reaches_iff _ _ _ _ _).mpr ⟨rfl, hmm, rfl, ?_, (hlevel _).mpr hopened, ?_⟩
      · rw [kept_projects]
        exact mem_filter.mpr ⟨hp, rfl⟩
      · rwa [environment_kept_reachesKey]
    · have hl := ((Rule.reaches_iff _ _ _ _ _).mp h).2.2.2.2.1
      exact hnil ((hlevel _).mp hl).2
  | key org p k hne =>
    obtain ⟨hread, hmode, hnil, hall, henv⟩ := hopen
    have hp : p ∈ (row.rule items).selector.projects := hv.keys.mem_projects hnil
    obtain ⟨env, henvne, hmatch⟩ := hv.exists_env henv
    refine ⟨row.capability, .env, ⟨row.org, p, env⟩, none, .inr rfl,
      (by rintro _ ⟨⟩), ?_, fun h => ?_⟩
    · refine (Rule.reaches_iff _ _ _ _ _).mpr ⟨rfl, hmm, rfl, ?_, ?_, .inr ?_⟩
      · rw [kept_projects]
        exact mem_filter.mpr ⟨hp, rfl⟩
      · rw [key_kept_reachesLevel]
        exact (Where.reachesLevel_env hv.envMode _ _ _).mpr ⟨henvne, hmatch⟩
      · rw [RuleRow.rule_keyMode] at hmode
        exact (Where.reachesKey_none_iff _ _).mpr ⟨(RuleRow.rule_keyMode _ _).trans hmode,
          key_kept_eq_nil.mpr (.inr ⟨rfl, hall⟩)⟩
    · have hk := ((Rule.reaches_iff _ _ _ _ _).mp h).2.2.2.2.2.resolve_left hread
      exact hnil ((Where.reachesKey_none_iff _ _).mp hk).2
  | project org p => exact hopen.elim

end Deletion

/-- A valid stored rule is the rule its header and items form. -/
theorem RuleTables.exists_header_of_validRule {t : RuleTables} {id : String}
    (h : t.validRule id = some r) :
    ∃ row, t.header id = some row ∧ r = row.rule (t.itemsOfRule id) ∧ r.Valid := by
  cases hh : t.header id with
  | none =>
    rw [RuleTables.validRule_of_no_header hh] at h
    cases h
  | some row =>
    rw [RuleTables.validRule_of_header hh] at h
    split at h
    case isTrue hv =>
      cases h
      exact ⟨row, rfl, rfl, (Rule.validate_eq_ok_iff _).mp hv⟩
    case isFalse => cases h

/-- The rule stored under an identifier is valid and reaches the atom. -/
def RuleTables.Reaches (t : RuleTables) (id : String) (c : Capability) (lvl : Level) (s : Scope)
    (key : Option RuleKey) : Prop :=
  ∃ r, t.validRule id = some r ∧ r.reaches c lvl s key = true

/-- **Exactly when a deletion widens no rule.** For a valid stored rule and a
deletion, the release succeeds; and every atom at project or environment level
over surviving objects that the rule reaches afterwards was reached before, if
and only if the deletion does not open an axis of the rule. -/
theorem release_narrows_iff (d : Deletion) (t : RuleTables) (id : String) (r : Rule)
    (hr : t.validRule id = some r) : ∃ t', d.release t = .ok t' ∧
      ((∀ (c : Capability) (lvl : Level) (s : Scope) (key : Option RuleKey),
          lvl = .project ∨ lvl = .env → d.Spares s key →
          t'.Reaches id c lvl s key → r.reaches c lvl s key = true) ↔
        ¬ d.OpensAxis r) := by
  obtain ⟨row, hrow, rfl, hv⟩ := RuleTables.exists_header_of_validRule hr
  obtain ⟨t', hok, hafter⟩ := d.release_spec t
  have hval := hafter id row hrow
  refine ⟨t', hok, ?_, ?_⟩
  · intro hnarrow hopen
    have hvalid := Deletion.valid_of_opensAxis hv hopen
    obtain ⟨c, lvl, s, key, hlvl, hs, hreach, hnot⟩ := Deletion.exists_widened hv hopen
    rw [if_pos (show row.org = d.org from hopen.1), if_pos ((Rule.validate_eq_ok_iff _).mpr hvalid)] at hval
    exact hnot (hnarrow c lvl s key hlvl hs ⟨_, hval, hreach⟩)
  · intro hclosed c lvl s key hlvl hs hreach
    obtain ⟨r', hr', hreach⟩ := hreach
    rw [hval] at hr'
    by_cases horg : row.org = d.org
    · rw [if_pos horg] at hr'
      split at hr'
      case isTrue =>
        cases hr'
        exact Deletion.reaches_of_kept_reaches hv horg hclosed hlvl hs hreach
      case isFalse => cases hr'
    · rw [if_neg horg, hr] at hr'
      cases hr'
      exact hreach

/-- One rule `r1` for all environments of the project but `e1`. -/
def exceptOneTables : RuleTables where
  rules := [{ id := "r1", principal := "u", capability := .edit, org := "o", envMode := .all,
              keyMode := .all }]
  items := [("r1", { id := "i1", axis := .project, project := "p", check := by decide }),
    ("r1", { id := "i2", axis := .env, project := "p", env := "e1", check := by decide })]
  rules_nodup := by decide
  items_nodup := by decide

/-- Deleting an environment that the rule does not except widens nothing. -/
theorem exceptOne_release_other :
    ∃ t', (Deletion.environment "o" "p" "e2" (by decide)).release exceptOneTables = .ok t' ∧
      ∀ (c : Capability) (lvl : Level) (s : Scope) (key : Option RuleKey),
        lvl = .project ∨ lvl = .env →
        (Deletion.environment "o" "p" "e2" (by decide)).Spares s key →
        t'.Reaches "r1" c lvl s key →
        (editRule "o" (.allButEnv "p" "e1")).reaches c lvl s key = true := by
  obtain ⟨t', hok, hiff⟩ := release_narrows_iff (Deletion.environment "o" "p" "e2" (by decide))
    exceptOneTables "r1" _ rfl
  refine ⟨t', hok, hiff.mpr fun hopen => ?_⟩
  exact absurd (hopen.2.2.2.2.1 "e1" (by decide)) (by decide)

/-- Deleting the one excepted environment makes the rule reach the project
level, which it did not reach before. -/
theorem exceptOne_release_widens : exceptOneTables.Reaches "r1" .edit .env ⟨"o", "p", "e2"⟩ none ∧
      ¬ exceptOneTables.Reaches "r1" .edit .project ⟨"o", "p", ""⟩ none ∧
      (Deletion.environment "o" "p" "e1" (by decide)).Spares ⟨"o", "p", ""⟩ none ∧
      ∃ t', (Deletion.environment "o" "p" "e1" (by decide)).release exceptOneTables = .ok t' ∧
        t'.Reaches "r1" .edit .project ⟨"o", "p", ""⟩ none := by
  refine ⟨⟨_, rfl, by decide⟩, ?_, fun h => absurd h.2.2 (by decide), _, rfl, ⟨_, rfl, by decide⟩⟩
  intro ⟨r, hr, hreach⟩
  cases hr
  exact absurd hreach (by decide)

/-! ## Losing reach -/

/-- **The deletion empties a See rule**: the rule picks keys, the deletion
takes every key item it has, and a project of the rule survives in which it
reaches environments – any, or a surviving one it picks. -/
def Deletion.EmptiesSee (d : Deletion) (r : Rule) : Prop :=
  r.org = d.org ∧ r.capability = .read ∧ r.selector.keyMode = .only ∧
    (∀ q, ∀ it ∈ r.selector.keysAt q, d.dropsKey q it = true) ∧
    ∃ q ∈ r.selector.projects, d.dropsProject q = false ∧
      (r.selector.envMode = .all ∨ ∃ e ∈ r.selector.envsAt q, d.dropsEnv q e = false)

namespace Deletion

variable {d : Deletion} {row : RuleRow} {items : List StoredRuleItem}

/-- A rule reaching a surviving environment-level atom survives the deletion
unless the deletion empties it as a See rule. -/
theorem valid_of_reaches_env (hv : (row.rule items).Valid) (horg : row.org = d.org)
    (hkeep : ¬ d.EmptiesSee (row.rule items)) {c : Capability} {s : Scope}
    {key : Option RuleKey} (hs : d.Spares s key)
    (h : (row.rule items).reaches c .env s key = true) : (row.rule (d.kept items)).Valid := by
  obtain ⟨hc, -, hso, hp, hl, hk⟩ := (Rule.reaches_iff _ _ _ _ _).mp h
  have hsd : s.org = d.org := hso.trans horg
  have hproj := d.not_dropsProject_of_spares hs hsd
  have henvd := d.not_dropsEnv_of_spares hs hsd
  have hmatch := ((Where.reachesLevel_env hv.envMode _ _ _).mp hl).2
  -- the environment of the atom stays on an only-list
  have hlisted : row.envMode = .only → s.env ∈ (row.rule items).selector.envsAt s.project := by
    intro honly
    rw [selectorEnvMatches, RuleRow.rule_envMode, honly] at hmatch
    simpa using hmatch
  refine kept_valid _ hv ?_ (fun honly => ⟨s.project, ?_⟩) fun honly => ?_
  · rw [kept_projects]
    exact ne_nil_of_mem (mem_filter.mpr ⟨hp, by rw [hproj]; rfl⟩)
  · rw [kept_envsAt]
    exact ne_nil_of_mem (mem_filter.mpr ⟨hlisted honly, by rw [henvd]; rfl⟩)
  · by_contra hnone
    have hall : ∀ q, ∀ it ∈ (row.rule items).selector.keysAt q, d.dropsKey q it = true := by
      intro q it hit
      by_contra hkept
      refine hnone ⟨q, ?_⟩
      rw [kept_keysAt]
      exact ne_nil_of_mem
        (mem_filter.mpr ⟨hit, by rw [Bool.eq_false_iff.mpr hkept]; rfl⟩)
    have hmode : (row.rule items).selector.keyMode = .only := by
      rw [RuleRow.rule_keyMode]
      exact honly
    cases hk with
    | inl hread =>
      refine hkeep ⟨horg, hc.symm.trans hread, hmode, hall, s.project, hp, hproj, ?_⟩
      cases hm : (row.rule items).selector.envMode with
      | all => exact .inl rfl
      | only =>
        rw [RuleRow.rule_envMode] at hm
        exact .inr ⟨s.env, hlisted hm, henvd⟩
      | other text => exact (show AxisMode.Known (.other text) from hm ▸ hv.envMode).elim
    | inr hkey =>
      -- the item that matched the atom's key survives
      cases key with
      | none => cases hmode.symm.trans ((Where.reachesKey_none_iff _ _).mp hkey).1
      | some k =>
        rw [Where.reachesKey_some hv.keyMode, selectorKeyMatches, hmode] at hkey
        obtain ⟨it, hit, hitm⟩ : ∃ it ∈ (row.rule items).selector.keysAt s.project,
            selectorItemMatches .only k it = true := by simpa using hkey
        exact Bool.eq_false_iff.mp
          (d.not_matches_of_drops hv hs hsd hit (hall s.project it hit) .only) hitm

/-- An emptied See rule reached a surviving environment and is gone. -/
theorem exists_lost_of_emptiesSee (hv : (row.rule items).Valid)
    (hempty : d.EmptiesSee (row.rule items)) : ¬ (row.rule (d.kept items)).Valid ∧
      ∃ s, d.Spares s none ∧ (row.rule items).reaches .read .env s none = true := by
  obtain ⟨horg, hread, hmode, hall, q, hq, hproj, henv⟩ := hempty
  have hnil : ∀ p, (row.rule (d.kept items)).selector.keysAt p = [] := by
    intro p
    rw [kept_keysAt]
    exact filter_eq_nil_iff.mpr fun it hit => by simp [hall p it hit]
  refine ⟨fun hv' => ?_, ?_⟩
  · refine hv'.keys_only ?_ ((ItemMap.total_eq_zero_iff _).mpr hnil)
    rw [RuleRow.rule_keyMode] at hmode ⊢
    exact hmode
  · -- the deletion is not of an environment: it takes a key item
    have hnoenv : ∀ p e, d.dropsProject p = false → d.dropsEnv p e = false := by
      obtain ⟨p', hp'⟩ := exists_get_ne_nil (hv.keys_only hmode)
      obtain ⟨it, hit⟩ := exists_mem_of_ne_nil _ hp'
      have hdrop := hall p' it hit
      intro p e hpd
      cases d with
      | environment org p'' e' hne => cases hdrop
      | key org p'' k hne => rfl
      | project org p'' => exact hpd
    have hpick : (row.rule items).selector.envMode = .all ∨
        (row.rule items).selector.envsAt q ≠ [] := by
      exact henv.imp id fun h => h.elim fun _ he => ne_nil_of_mem he.1
    obtain ⟨env, hne, hmatch⟩ := hv.exists_env hpick
    refine ⟨⟨row.org, q, env⟩, ?_, ?_⟩
    · cases d with
      | environment org p e hne' =>
        intro h
        have hd := hnoenv q env rfl
        simp only [dropsEnv, Bool.and_eq_false_iff, decide_eq_false_iff_not] at hd
        exact hd.elim (fun h1 => h1 h.2.1) (fun h2 => h2 h.2.2)
      | key org p k hne' => rintro _ ⟨⟩
      | project org p => exact fun h => of_decide_eq_false hproj h.2
    · refine (Rule.reaches_iff _ _ _ _ _).mpr ⟨hread.symm, by decide, rfl, hq, ?_, .inl rfl⟩
      exact (Where.reachesLevel_env hv.envMode _ _ _).mpr ⟨hne, hmatch⟩

end Deletion

/-- **Exactly when a deletion loses no reach over surviving objects.** For a
valid stored rule and a deletion, the release succeeds; and every
environment-level atom over surviving objects that the rule reached is reached
afterwards, if and only if the deletion does not empty the rule as a See
rule. -/
theorem release_keeps_iff (d : Deletion) (t : RuleTables) (id : String) (r : Rule)
    (hr : t.validRule id = some r) : ∃ t', d.release t = .ok t' ∧
      ((∀ (c : Capability) (s : Scope) (key : Option RuleKey), d.Spares s key →
          r.reaches c .env s key = true → t'.Reaches id c .env s key) ↔
        ¬ d.EmptiesSee r) := by
  obtain ⟨row, hrow, rfl, hv⟩ := RuleTables.exists_header_of_validRule hr
  obtain ⟨t', hok, hafter⟩ := d.release_spec t
  have hval := hafter id row hrow
  refine ⟨t', hok, ?_, ?_⟩
  · intro hkeeps hempty
    obtain ⟨hinvalid, s, hs, hreach⟩ := Deletion.exists_lost_of_emptiesSee hv hempty
    obtain ⟨r', hr', -⟩ := hkeeps .read s none hs hreach
    rw [hval, if_pos (show row.org = d.org from hempty.1),
      if_neg fun h => hinvalid ((Rule.validate_eq_ok_iff _).mp h)] at hr'
    cases hr'
  · intro hkeep c s key hs hreach
    by_cases horg : row.org = d.org
    · have hvalid := Deletion.valid_of_reaches_env hv horg hkeep hs hreach
      have hso := ((Rule.reaches_iff _ _ _ _ _).mp hreach).2.2.1
      rw [if_pos horg, if_pos ((Rule.validate_eq_ok_iff _).mpr hvalid)] at hval
      exact ⟨_, hval, Deletion.kept_reaches_env hv hs (hso.trans horg) hreach⟩
    · rw [if_neg horg, hr] at hval
      exact ⟨_, hval, hreach⟩

/-- One See rule `r1` whose card picks the single key `k1`. -/
def seeOneKeyTables : RuleTables where
  rules := [{ id := "r1", principal := "u", capability := .read, org := "o", envMode := .all,
              keyMode := .only }]
  items := [("r1", { id := "i1", axis := .project, project := "p", check := by decide }),
    ("r1", { id := "i2", axis := .key, project := "p", keyId := "k1", check := by decide })]
  rules_nodup := by decide
  items_nodup := by decide

/-- Deleting a key that the rule does not pick loses nothing. -/
theorem seeOneKey_release_other :
    ∃ t', (Deletion.key "o" "p" "k2" (by decide)).release seeOneKeyTables = .ok t' ∧
      t'.Reaches "r1" .read .env ⟨"o", "p", "e1"⟩ none := by
  obtain ⟨t', hok, hiff⟩ := release_keeps_iff (Deletion.key "o" "p" "k2" (by decide))
    seeOneKeyTables "r1" _ rfl
  refine ⟨t', hok, hiff.mpr (fun hempty => ?_) .read ⟨"o", "p", "e1"⟩ none
    (fun key' h => nomatch h) (by decide)⟩
  exact absurd (hempty.2.2.2.1 "p" { keyId := "k1" } (by decide)) (by decide)

/-- Deleting the one picked key revokes the rule, although it let its holder
see every environment of the project. -/
theorem seeOneKey_release_loses : seeOneKeyTables.Reaches "r1" .read .env ⟨"o", "p", "e1"⟩ none ∧
      (Deletion.key "o" "p" "k1" (by decide)).Spares ⟨"o", "p", "e1"⟩ none ∧
      ∃ t', (Deletion.key "o" "p" "k1" (by decide)).release seeOneKeyTables = .ok t' ∧
        ¬ t'.Reaches "r1" .read .env ⟨"o", "p", "e1"⟩ none := by
  refine ⟨⟨_, rfl, by decide⟩, (fun key' h => nomatch h), _, rfl, ?_⟩
  intro ⟨r, hr, _⟩
  cases hr

end Hikyo
