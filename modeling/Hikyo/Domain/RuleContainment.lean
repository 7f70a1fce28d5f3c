import Hikyo.Lib.Paths
import Hikyo.Domain.Rule

/-!
# Selector containment

Delegation asks whether the selectors a principal holds contain the selector
it wants to confer, including objects that do not exist yet. The test is
symbolic: an environment nobody names stands for all unnamed environments, and
a key without an identifier in an unnamed child of each named folder stands
for all unnamed keys of that region of the folder tree.

The main result is that these finitely many witnesses suffice: the union test
answers exactly whether every environment and key the inner selector matches is
matched by one of the outer ones (`whereUnionContainsInProject_iff`). The
representatives of folders come from `SepPath.exists_representative`, the
termination of the search for unused witness names from
`FreshIndex.firstFree_of_blocks`.
-/

namespace Hikyo

open List

/-! ## The code's predicates -/

section

variable (outers : List Where) (inner : Where) (project : ProjectId)

/-- Whether a folder lies at or below another. The catalogue root is an exact
folder, not a universal subtree. -/
def folderWithin (folder ancestor : String) : Bool :=
  folder = ancestor || (ancestor ≠ "" && hasPrefix folder (ancestor ++ "/"))

/-- Whether a selector's environment axis matches an environment. -/
def selectorEnvMatches (w : Where) (project : ProjectId) (env : EnvId) : Bool :=
  let matched := (w.envsAt project).contains env
  w.envMode = .only && matched || w.envMode = .all && !matched

/-- Whether one item of a selector's key axis matches a key. -/
def selectorItemMatches (mode : AxisMode) (key : RuleKey) (item : RuleKeyItem) : Bool :=
  if !item.isFolder then key.id ≠ "" && key.id = item.keyId
  else if mode = .all then folderWithin key.folder item.folder
  else key.folder = item.folder

/-- Whether a selector's key axis matches a key. -/
def selectorKeyMatches (w : Where) (project : ProjectId) (key : RuleKey) : Bool :=
  let matched := (w.keysAt project).any (selectorItemMatches w.keyMode key)
  w.keyMode = .only && matched || w.keyMode = .all && !matched

/-- Append `x` unless it is there already. -/
def addNew {α : Type} [DecidableEq α] (acc : List α) (x : α) : List α :=
  if acc.contains x then acc else acc ++ [x]

/-- The environments some selector names, the inner selector's first. -/
def namedEnvs : List EnvId :=
  ((outers ++ [inner]).flatMap (fun w => w.envsAt project)).foldl addNew (inner.envsAt project)

/-- The key items of all the selectors. -/
def namedItems : List RuleKeyItem :=
  (outers ++ [inner]).flatMap (fun w => w.keysAt project)

/-- The folders some selector names, and the root. -/
def namedFolders : List String :=
  (((namedItems outers inner project).filter (fun it => it.isFolder)).map
    (fun it => it.folder)).foldl addNew [""]

/-- The keys some selector names by identifier. -/
def namedIds : List String :=
  (((namedItems outers inner project).filter (fun it => !it.isFolder)).map
    (fun it => it.keyId)).foldl addNew []

/-- The `i`-th witness name. -/
def witnessName (i : ℕ) : String := "selector-witness-" ++ toString i

/-- The first witness name that is not among the environments. -/
def freshEnv (envs : List EnvId) : EnvId :=
  witnessName (FreshIndex.firstFree (fun i => envs.contains (witnessName i)) (envs.length + 1) 0)

/-- The `i`-th witness below a folder. -/
def witnessChild (folder : String) (i : ℕ) : String :=
  if folder ≠ "" then folder ++ "/" ++ witnessName i else witnessName i

/-- The first witness below a folder that is at or above no named folder. -/
def freshChild (folders : List String) (folder : String) : String :=
  witnessChild folder (FreshIndex.firstFree
    (fun i => folders.any (fun named => folderWithin named (witnessChild folder i)))
    (folders.length + 1) 0)

/-- The folder regions: the named folders, and a fresh child of each. -/
def folderRegions (folders : List String) : List String :=
  folders ++ folders.map (freshChild folders)

/-- **The additive union contains a selector**, decided on witnesses. An
identifier without a known folder refuses containment. -/
def whereUnionContainsInProject (keyFolders : String → Option String) : Bool :=
  let envs := namedEnvs outers inner project
  let ids := namedIds outers inner project
  -- a key without an identifier stands for all keys no selector names
  let unnamed := (folderRegions (namedFolders outers inner project)).map
    (fun folder => ({ folder := folder } : RuleKey))
  match ids.mapM (fun id => (keyFolders id).map (fun folder => (⟨id, folder⟩ : RuleKey))) with
  | none => false
  | some named =>
    (envs ++ [freshEnv envs]).all fun env =>
      !selectorEnvMatches inner project env ||
      (unnamed ++ named).all fun key =>
        !selectorKeyMatches inner project key ||
        outers.any fun outer =>
          outer.projects.contains project && selectorEnvMatches outer project env
            && selectorKeyMatches outer project key

end

/-! ## The lists of names -/

variable {α : Type}

theorem mem_foldl_addNew [DecidableEq α] (l : List α) :
    ∀ (acc : List α) (x : α), x ∈ l.foldl addNew acc ↔ x ∈ acc ∨ x ∈ l := by
  induction l with
  | nil => intro acc x; simp
  | cons y ys ih =>
    intro acc x
    have hstep : x ∈ addNew acc y ↔ x ∈ acc ∨ x = y := by
      unfold addNew
      split
      case isTrue h =>
        refine ⟨.inl, fun hx => hx.elim id fun hxy => ?_⟩
        rw [hxy]
        exact contains_iff_mem.mp h
      case isFalse h => rw [mem_append, mem_singleton]
    rw [foldl_cons, ih, hstep, mem_cons, or_assoc]

section Names

variable (outers : List Where) (inner : Where) (project : ProjectId)

theorem mem_namedEnvs (env : EnvId) : env ∈ namedEnvs outers inner project ↔
      ∃ w ∈ outers ++ [inner], env ∈ w.envsAt project := by
  rw [namedEnvs, mem_foldl_addNew, mem_flatMap]
  refine ⟨fun h => h.elim (fun hin => ?_) id, .inr⟩
  exact ⟨inner, mem_append_right _ mem_cons_self, hin⟩

theorem mem_namedFolders (folder : String) : folder ∈ namedFolders outers inner project ↔
      folder = "" ∨ ∃ w ∈ outers ++ [inner], ∃ it ∈ w.keysAt project,
        it.isFolder = true ∧ it.folder = folder := by
  rw [namedFolders, mem_foldl_addNew, mem_singleton]
  refine or_congr_right ?_
  simp only [namedItems, mem_map, mem_filter, mem_flatMap]
  constructor
  · intro ⟨it, ⟨⟨w, hw, hit⟩, hfolder⟩, heq⟩
    exact ⟨w, hw, it, hit, hfolder, heq⟩
  · intro ⟨w, hw, it, hit, hfolder, heq⟩
    exact ⟨it, ⟨⟨w, hw, hit⟩, hfolder⟩, heq⟩

theorem mem_namedIds (id : String) : id ∈ namedIds outers inner project ↔
      ∃ w ∈ outers ++ [inner], ∃ it ∈ w.keysAt project, it.isFolder = false ∧ it.keyId = id := by
  rw [namedIds, mem_foldl_addNew, or_iff_right not_mem_nil]
  simp only [namedItems, mem_map, mem_filter, mem_flatMap, Bool.not_eq_true']
  constructor
  · intro ⟨it, ⟨⟨w, hw, hit⟩, hkey⟩, heq⟩
    exact ⟨w, hw, it, hit, hkey, heq⟩
  · intro ⟨w, hw, it, hit, hkey, heq⟩
    exact ⟨it, ⟨⟨w, hw, hit⟩, hkey⟩, heq⟩

end Names

/-! ## Witness names -/

theorem toList_witnessName (i : ℕ) :
    (witnessName i).toList = "selector-witness-".toList ++ (toString i).toList :=
  String.toList_append

theorem witnessName_injective : Function.Injective witnessName := by
  intro i j h
  exact Nat.repr_inj.mp ((String.append_right_inj _).mp h)

theorem witnessName_ne_empty (i : ℕ) : witnessName i ≠ "" := by
  intro h
  have hlist := congrArg String.toList h
  rw [toList_witnessName] at hlist
  cases hlist

theorem slash_notMem_toString (i : ℕ) : '/' ∉ (toString i).toList := by
  intro h
  have hrepr : (toString i).toList = Nat.toDigits 10 i := by
    show (Nat.repr i).toList = _
    rw [Nat.repr, String.toList_ofList]
  rw [hrepr] at h
  exact absurd (Nat.isDigit_of_mem_toDigits (by decide) (by decide) h) (by decide)

/-- A witness name is a single path segment. -/
theorem slash_notMem_witnessName (i : ℕ) : '/' ∉ (witnessName i).toList := by
  rw [toList_witnessName, mem_append, not_or]
  exact ⟨by decide, slash_notMem_toString i⟩

/-- **The fresh environment is fresh.** -/
theorem freshEnv_notMem (envs : List EnvId) : freshEnv envs ∉ envs := by
  have hfree := FreshIndex.firstFree_of_blocks envs (fun env i => env = witnessName i)
    (fun i => envs.contains (witnessName i)) (fun i => by simp)
    (fun env _ i j hi hj => witnessName_injective (hi.symm.trans hj))
  exact fun h => hfree _ h rfl

/-! ## Folders as separated paths -/

theorem hasPrefix_iff (s pre : String) : hasPrefix s pre = true ↔ pre.toList <+: s.toList :=
  isPrefixOf_iff_prefix

/-- `folderWithin` is the path order on the folders' characters. -/
theorem folderWithin_iff (folder ancestor : String) : folderWithin folder ancestor = true ↔
      SepPath.Within '/' folder.toList ancestor.toList := by
  have hempty : ancestor = "" ↔ ancestor.toList = [] := by
    rw [← String.toList_inj]
    exact Iff.rfl
  simp only [folderWithin, SepPath.Within, Bool.or_eq_true, Bool.and_eq_true, decide_eq_true_eq,
    hasPrefix_iff, String.toList_append, String.toList_inj, ne_eq, hempty]
  exact Iff.rfl

theorem toList_witnessChild (folder : String) (i : ℕ) : (witnessChild folder i).toList =
      SepPath.child '/' folder.toList (witnessName i).toList := by
  unfold witnessChild
  split
  case isTrue h =>
    have hne : folder.toList ≠ [] := fun hnil => h (String.toList_inj.mp hnil)
    rw [SepPath.child_of_ne_nil hne, String.toList_append, String.toList_append]
    show folder.toList ++ ['/'] ++ (witnessName i).toList = _
    simp
  case isFalse h =>
    rw [not_not.mp h]
    exact (SepPath.child_nil _ _).symm

/-- **The fresh child of a folder is at or above no named folder.** -/
theorem freshChild_free (folders : List String) (folder : String) :
    ∀ named ∈ folders, folderWithin named (freshChild folders folder) = false := by
  have hfree := FreshIndex.firstFree_of_blocks folders
    (fun named i => folderWithin named (witnessChild folder i) = true)
    (fun i => folders.any (fun named => folderWithin named (witnessChild folder i)))
    (fun i => any_eq_true)
    (fun named _ i j hi hj => by
      rw [folderWithin_iff, toList_witnessChild] at hi hj
      have hseg := SepPath.child_segment_unique (slash_notMem_witnessName i)
        (slash_notMem_witnessName j) hi hj
      exact witnessName_injective (String.toList_inj.mp hseg))
  intro named hnamed
  exact Bool.eq_false_iff.mpr (hfree named hnamed)

/-- **Every folder has a region.** A folder lies at or below the same named
folders, and is equal to the same named folders, as one of the regions. -/
theorem exists_region (folders : List String) (hroot : "" ∈ folders) (folder : String) :
    ∃ region ∈ folderRegions folders, ∀ named ∈ folders,
      folderWithin folder named = folderWithin region named ∧
        (folder = named ↔ region = named) := by
  -- each named folder's fresh child, as a segment below it
  have hsegment : ∀ a : List Char, ∃ seg : List Char, '/' ∉ seg ∧
      ∀ named ∈ folders, named.toList = a →
        (freshChild folders named).toList = SepPath.child '/' a seg := by
    intro a
    refine ⟨(witnessName (FreshIndex.firstFree (fun i => folders.any
      (fun n => folderWithin n (witnessChild (String.ofList a) i))) (folders.length + 1) 0)).toList,
      slash_notMem_witnessName _, fun named _ hname => ?_⟩
    have hof : String.ofList a = named := by
      rw [← hname, String.ofList_toList]
    rw [hof, ← hname, freshChild, toList_witnessChild]
  choose fresh hslash hfresh using hsegment
  obtain ⟨g, hg, hsame⟩ := SepPath.exists_representative '/'
    (folders.map String.toList) fresh (mem_map_of_mem hroot)
    (fun a _ => hslash a)
    (fun a ha n hn => by
      obtain ⟨named, hnamed, rfl⟩ := mem_map.mp ha
      obtain ⟨other, hother, rfl⟩ := mem_map.mp hn
      rw [← hfresh _ named hnamed rfl, ← folderWithin_iff, freshChild_free _ _ other hother]
      exact Bool.false_ne_true)
    folder.toList
  have hregion : ∃ region ∈ folderRegions folders, region.toList = g := by
    refine (mem_append.mp hg).elim (fun hmem => ?_) (fun hmem => ?_)
    · obtain ⟨named, hnamed, heq⟩ := mem_map.mp hmem
      exact ⟨named, mem_append_left _ hnamed, heq⟩
    · obtain ⟨a, ha, heq⟩ := mem_map.mp hmem
      obtain ⟨named, hnamed, rfl⟩ := mem_map.mp ha
      exact ⟨freshChild folders named, mem_append_right _ (mem_map_of_mem hnamed),
        (hfresh _ named hnamed rfl).trans heq⟩
  obtain ⟨region, hmem, rfl⟩ := hregion
  refine ⟨region, hmem, fun named hnamed => ?_⟩
  obtain ⟨hwithin, heq⟩ := hsame named.toList (mem_map_of_mem hnamed)
  rw [← folderWithin_iff, ← folderWithin_iff] at hwithin
  rw [String.toList_inj, String.toList_inj] at heq
  exact ⟨Bool.eq_iff_iff.mpr hwithin, heq⟩

/-! ## The union test is exact -/

section Exact

variable {outers : List Where} {inner : Where} {project : ProjectId}
variable {keyFolders : String → Option String}

/-- A key is consistent with the known folders: one that a selector names by
its identifier sits in the folder the map gives. Any other key may sit
anywhere. -/
def KeyConsistent (outers : List Where) (inner : Where) (project : ProjectId)
    (keyFolders : String → Option String) (key : RuleKey) : Prop :=
  key.id ≠ "" → key.id ∈ namedIds outers inner project → keyFolders key.id = some key.folder

/-- Every environment is matched by the same selectors as one of the
witnesses. -/
theorem exists_env_witness (env : EnvId) :
    ∃ e ∈ namedEnvs outers inner project ++ [freshEnv (namedEnvs outers inner project)],
      ∀ w ∈ outers ++ [inner],
        selectorEnvMatches w project env = selectorEnvMatches w project e := by
  by_cases henv : env ∈ namedEnvs outers inner project
  · exact ⟨env, mem_append_left _ henv, fun w _ => rfl⟩
  · refine ⟨freshEnv (namedEnvs outers inner project),
      mem_append_right _ mem_cons_self, fun w hw => ?_⟩
    have hcontains : ∀ e, e ∉ namedEnvs outers inner project →
        (w.envsAt project).contains e = false := by
      intro e he
      refine Bool.eq_false_iff.mpr fun h => he ?_
      exact (mem_namedEnvs _ _ _ e).mpr ⟨w, hw, contains_iff_mem.mp h⟩
    simp only [selectorEnvMatches, hcontains env henv, hcontains _ (freshEnv_notMem _)]

/-- A key that no selector names by identifier is matched by the same
selectors as a key without identifier in the region of its folder. -/
theorem exists_region_witness (key : RuleKey)
    (hid : key.id = "" ∨ key.id ∉ namedIds outers inner project) :
    ∃ region ∈ folderRegions (namedFolders outers inner project),
      ∀ w ∈ outers ++ [inner],
        selectorKeyMatches w project key = selectorKeyMatches w project { folder := region } := by
  obtain ⟨region, hregion, hsame⟩ := exists_region (namedFolders outers inner project)
    ((mem_namedFolders _ _ _ "").mpr (.inl rfl)) key.folder
  refine ⟨region, hregion, fun w hw => ?_⟩
  have hitem : ∀ it ∈ w.keysAt project,
      selectorItemMatches w.keyMode key it
        = selectorItemMatches w.keyMode { folder := region } it := by
    intro it hit
    cases hfolder : it.isFolder with
    | false =>
      have hleft : (key.id ≠ "" && key.id = it.keyId) = false := by
        refine Bool.eq_false_iff.mpr fun h => ?_
        simp only [ne_eq, Bool.and_eq_true, decide_eq_true_eq, decide_not, Bool.not_eq_true',
          decide_eq_false_iff_not] at h
        refine hid.elim h.1 fun hnot => hnot ?_
        exact (mem_namedIds _ _ _ _).mpr ⟨w, hw, it, hit, hfolder, h.2.symm⟩
      simp [selectorItemMatches, hfolder] at hleft ⊢
      exact hleft
    | true =>
      have hnamed : it.folder ∈ namedFolders outers inner project :=
        (mem_namedFolders _ _ _ _).mpr (.inr ⟨w, hw, it, hit, hfolder, rfl⟩)
      obtain ⟨hwithin, heq⟩ := hsame it.folder hnamed
      simp only [selectorItemMatches, hfolder, Bool.not_true, Bool.false_eq_true, if_false,
        hwithin, heq]
  have hany : (w.keysAt project).any (selectorItemMatches w.keyMode key)
      = (w.keysAt project).any (selectorItemMatches w.keyMode { folder := region }) := by
    rw [Bool.eq_iff_iff, any_eq_true, any_eq_true]
    exact exists_congr fun it => and_congr_right fun hit => by rw [hitem it hit]
  simp only [selectorKeyMatches, hany]

/-- Every key consistent with the folders is matched by the same selectors as
one of the witnesses. -/
theorem exists_key_witness {named : List RuleKey}
    (hnamed : ∀ id ∈ namedIds outers inner project, ∀ folder, keyFolders id = some folder →
      ⟨id, folder⟩ ∈ named)
    (key : RuleKey) (hkey : KeyConsistent outers inner project keyFolders key) :
    ∃ k ∈ (folderRegions (namedFolders outers inner project)).map
        (fun folder => ({ folder := folder } : RuleKey)) ++ named,
      ∀ w ∈ outers ++ [inner],
        selectorKeyMatches w project key = selectorKeyMatches w project k := by
  by_cases hid : key.id = "" ∨ key.id ∉ namedIds outers inner project
  · obtain ⟨region, hregion, hsame⟩ := exists_region_witness key hid
    exact ⟨{ folder := region }, mem_append_left _ (mem_map_of_mem hregion), hsame⟩
  · rw [not_or, not_not] at hid
    exact ⟨key, mem_append_right _ (hnamed key.id hid.2 key.folder (hkey hid.1 hid.2)),
      fun w _ => rfl⟩

/-- The named keys, each in its known folder. -/
theorem mapM_keyFolders_eq_some (ids : List String)
    (hdef : ∀ id ∈ ids, (keyFolders id).isSome = true) :
    ∃ named, ids.mapM (fun id => (keyFolders id).map (fun folder => (⟨id, folder⟩ : RuleKey)))
        = some named ∧
      ∀ key : RuleKey, key ∈ named ↔ key.id ∈ ids ∧ keyFolders key.id = some key.folder := by
  induction ids with
  | nil => exact ⟨[], rfl, fun key => by simp⟩
  | cons id ids ih =>
    obtain ⟨named, hnamed, hmem⟩ := ih fun id' h => hdef id' (mem_cons_of_mem _ h)
    obtain ⟨folder, hfolder⟩ := Option.isSome_iff_exists.mp (hdef id mem_cons_self)
    refine ⟨⟨id, folder⟩ :: named, ?_, fun key => ?_⟩
    · rw [mapM_cons, hnamed, hfolder]
      rfl
    · rw [mem_cons, hmem, mem_cons]
      constructor
      · intro h
        refine h.elim (fun heq => ?_) (fun hin => ⟨.inr hin.1, hin.2⟩)
        rw [heq]
        exact ⟨.inl rfl, hfolder⟩
      · intro ⟨hid, hkey⟩
        refine hid.elim (fun heq => .inl ?_) (fun hin => .inr ⟨hin, hkey⟩)
        rw [heq, hfolder] at hkey
        obtain ⟨kid, kfolder⟩ := key
        rw [show kid = id from heq, show kfolder = folder from (Option.some.inj hkey).symm]

/-- A union that contains a selector has the folder of every named key. -/
theorem isSome_of_whereUnionContains
    (h : whereUnionContainsInProject outers inner project keyFolders = true) :
    ∀ id ∈ namedIds outers inner project, (keyFolders id).isSome = true := by
  have hmap : ∀ ids : List String, ∀ named : List RuleKey,
      ids.mapM (fun id => (keyFolders id).map (fun folder => (⟨id, folder⟩ : RuleKey))) = some named →
      ∀ id ∈ ids, (keyFolders id).isSome = true := by
    intro ids
    induction ids with
    | nil => intro named _ id hid; exact absurd hid not_mem_nil
    | cons a ids ih =>
      intro named hnamed id hid
      rw [mapM_cons] at hnamed
      cases ha : keyFolders a with
      | none =>
        rw [ha] at hnamed
        cases hnamed
      | some folder =>
        cases hrest : ids.mapM (fun id => (keyFolders id).map (fun folder => (⟨id, folder⟩ : RuleKey))) with
        | none =>
          rw [ha, hrest] at hnamed
          cases hnamed
        | some rest =>
          cases mem_cons.mp hid with
          | inl heq => rw [heq, ha]; rfl
          | inr hin => exact ih rest hrest id hin
  unfold whereUnionContainsInProject at h
  dsimp only at h
  split at h
  next => cases h
  next named hnamed => exact hmap _ named hnamed

/-- **The union test is exact.** With every named key's folder known and no
selector naming the empty environment, the union contains the inner selector
exactly when every environment and every key the inner selector matches is
matched by an outer selector that names the project. -/
theorem whereUnionContainsInProject_iff
    (hdef : ∀ id ∈ namedIds outers inner project, (keyFolders id).isSome = true)
    (henv : "" ∉ namedEnvs outers inner project) :
    whereUnionContainsInProject outers inner project keyFolders = true ↔
      ∀ env, env ≠ "" → ∀ key, KeyConsistent outers inner project keyFolders key →
        selectorEnvMatches inner project env = true →
        selectorKeyMatches inner project key = true →
        ∃ outer ∈ outers, project ∈ outer.projects ∧ selectorEnvMatches outer project env = true ∧
          selectorKeyMatches outer project key = true := by
  obtain ⟨named, hnamed, hmem⟩ := mapM_keyFolders_eq_some _ hdef
  have hinner : inner ∈ outers ++ [inner] := mem_append_right _ mem_cons_self
  unfold whereUnionContainsInProject
  simp only [hnamed, all_eq_true, Bool.or_eq_true, Bool.not_eq_true', any_eq_true,
    Bool.and_eq_true, contains_iff_mem]
  constructor
  · intro hall env _ key hkey hie hik
    obtain ⟨e, he, hsameEnv⟩ := @exists_env_witness outers inner project env
    obtain ⟨k, hk, hsameKey⟩ := exists_key_witness
      (fun id hid folder hfolder => (hmem ⟨id, folder⟩).mpr ⟨hid, hfolder⟩) key hkey
    rw [hsameEnv inner hinner] at hie
    rw [hsameKey inner hinner] at hik
    have hke := (hall e he).resolve_left (by rw [hie]; nofun) k hk
    obtain ⟨outer, hout, ⟨hp, hoe⟩, hok⟩ :=
      hke.resolve_left (by rw [hik]; nofun)
    have hmemOut : outer ∈ outers ++ [inner] := mem_append_left _ hout
    exact ⟨outer, hout, hp, (hsameEnv outer hmemOut).trans hoe, (hsameKey outer hmemOut).trans hok⟩
  · intro hsem env hin
    by_cases hie : selectorEnvMatches inner project env = true
    · refine .inr fun key hkey => ?_
      by_cases hik : selectorKeyMatches inner project key = true
      · refine .inr ?_
        -- the witnesses are themselves a nonempty environment and a consistent key
        have hne : env ≠ "" := by
          refine (mem_append.mp hin).elim (fun h hc => henv (hc ▸ h)) (fun h => ?_)
          rw [mem_singleton.mp h]
          exact witnessName_ne_empty _
        have hcons : KeyConsistent outers inner project keyFolders key := by
          intro hid hids
          refine (mem_append.mp hkey).elim (fun h => ?_) (fun h => ((hmem key).mp h).2)
          obtain ⟨region, -, rfl⟩ := mem_map.mp h
          exact absurd rfl hid
        obtain ⟨outer, hout, hp, hoe, hok⟩ := hsem env hne key hcons hie hik
        exact ⟨outer, hout, ⟨hp, hoe⟩, hok⟩
      · exact .inl (Bool.eq_false_iff.mpr hik)
    · exact .inl (Bool.eq_false_iff.mpr hie)

end Exact

/-! ## One selector contains another -/

/-- Containment on one axis of plain items. -/
def axisContains {α : Type} [DecidableEq α] (outerMode : AxisMode) (outer : List α)
    (innerMode : AxisMode) (inner : List α) : Bool :=
  if innerMode = .only then
    inner.all (fun value => !(outerMode = .only && !outer.contains value ||
      outerMode = .all && outer.contains value)) && (outerMode = .only || outerMode = .all)
  else if innerMode ≠ .all || outerMode ≠ .all then false
  else outer.all (fun excluded => inner.contains excluded)

/-- A pick of the outer selector contains a pick of the inner one. -/
def keySelectionContains (outer inner : RuleKeyItem) (folders : String → Option String) : Bool :=
  if inner.isFolder then outer.isFolder && outer.folder = inner.folder
  else if !outer.isFolder then outer.keyId = inner.keyId
  else
    match folders inner.keyId with
    | none => false
    | some folder => folder = outer.folder

/-- A pick of the inner selector overlaps an exception of the outer one; a key
without a known folder overlaps. -/
def keySelectionOverlapsExclusion (selected excluded : RuleKeyItem)
    (folders : String → Option String) : Bool :=
  if selected.isFolder then
    if excluded.isFolder then folderWithin selected.folder excluded.folder
    else
      match folders excluded.keyId with
      | none => true
      | some folder => folder = selected.folder
  else if !excluded.isFolder then selected.keyId = excluded.keyId
  else
    match folders selected.keyId with
    | none => true
    | some folder => folderWithin folder excluded.folder

/-- An exception of one selector contains an exception of another. -/
def exclusionContains (outer inner : RuleKeyItem) (folders : String → Option String) : Bool :=
  if inner.isFolder then outer.isFolder && folderWithin inner.folder outer.folder
  else if !outer.isFolder then outer.keyId = inner.keyId
  else
    match folders inner.keyId with
    | none => false
    | some folder => folderWithin folder outer.folder

/-- **One selector contains another**, compared symbolically. Missing key
metadata refuses containment instead of assuming a folder. -/
def Where.containsWhereInProject (outer inner : Where) (project : ProjectId)
    (keyFolders : String → Option String) : Bool :=
  if !outer.projects.contains project || !inner.projects.contains project then false
  else if !axisContains outer.envMode (outer.envsAt project) inner.envMode
      (inner.envsAt project) then false
  else
    let o := outer.keysAt project
    let i := inner.keysAt project
    if inner.keyMode = .only then
      i.all fun selected =>
        match outer.keyMode with
        | .only => o.any (fun item => keySelectionContains item selected keyFolders)
        | .all =>
          !o.any (fun excluded => keySelectionOverlapsExclusion selected excluded keyFolders)
        | .other _ => false
    else if inner.keyMode ≠ .all || outer.keyMode ≠ .all then false
    -- every exception of the container is an exception of the contained
    else o.all (fun excluded => i.any (fun item => exclusionContains item excluded keyFolders))

/-- A key agrees with the known folders: if its folder is known, it sits
there. -/
def KeyAgrees (keyFolders : String → Option String) (key : RuleKey) : Prop :=
  key.id ≠ "" → ∀ folder, keyFolders key.id = some folder → folder = key.folder

theorem folderWithin_trans {f g h : String} (hfg : folderWithin f g = true)
    (hgh : folderWithin g h = true) : folderWithin f h = true := by
  rw [folderWithin_iff] at hfg hgh ⊢
  exact SepPath.Within.trans hfg hgh

variable {project : ProjectId}

/-- Containment on one axis, read on the values it matches. -/
theorem selectorEnvMatches_of_axisContains {outer inner : Where}
    (h : axisContains outer.envMode (outer.envsAt project) inner.envMode (inner.envsAt project)
      = true) (env : EnvId) (henv : selectorEnvMatches inner project env = true) :
    selectorEnvMatches outer project env = true := by
  unfold axisContains at h
  unfold selectorEnvMatches at henv ⊢
  cases hi : inner.envMode with
  | only =>
    simp only [hi, if_true, Bool.and_eq_true, all_eq_true] at h
    have hin : env ∈ inner.envsAt project := by simpa [hi] using henv
    have hout := h.1 env hin
    cases ho : outer.envMode with
    | only | all => simpa [ho] using hout
    | other t => simp [ho] at h
  | all =>
    have hin : env ∉ inner.envsAt project := by simpa [hi] using henv
    cases ho : outer.envMode with
    | only | other t => simp [hi, ho] at h
    | all =>
      have hsub : ∀ x ∈ outer.envsAt project, x ∈ inner.envsAt project := by
        simpa [hi, ho] using h
      simpa using fun hmem => hin (hsub env hmem)
  | other t => simp [hi] at henv

variable {key : RuleKey} {it : RuleKeyItem}

theorem selectorItemMatches_key {mode : AxisMode} (hit : it.isFolder = false) :
    selectorItemMatches mode key it = true ↔ key.id ≠ "" ∧ key.id = it.keyId := by
  simp [selectorItemMatches, hit]

theorem selectorItemMatches_all_folder (hit : it.isFolder = true) :
    selectorItemMatches .all key it = true ↔ folderWithin key.folder it.folder = true := by
  simp [selectorItemMatches, hit]

theorem selectorItemMatches_only_folder (hit : it.isFolder = true) :
    selectorItemMatches .only key it = true ↔ key.folder = it.folder := by
  simp [selectorItemMatches, hit]

section Items

variable {kf : String → Option String} {key : RuleKey} {a b : RuleKeyItem}

/-- A pick contained in another matches no more keys. -/
theorem keySelectionContains_sound (hagree : KeyAgrees kf key)
    (h : keySelectionContains a b kf = true) (hb : selectorItemMatches .only key b = true) :
    selectorItemMatches .only key a = true := by
  unfold keySelectionContains at h
  cases hbf : b.isFolder with
  | true =>
    have h' : a.isFolder = true ∧ a.folder = b.folder := by simpa [hbf] using h
    rw [selectorItemMatches_only_folder hbf] at hb
    rw [selectorItemMatches_only_folder h'.1]
    exact hb.trans h'.2.symm
  | false =>
    rw [selectorItemMatches_key hbf] at hb
    cases haf : a.isFolder with
    | false =>
      have h' : a.keyId = b.keyId := by simpa [hbf, haf] using h
      rw [selectorItemMatches_key haf]
      exact ⟨hb.1, hb.2.trans h'.symm⟩
    | true =>
      rw [selectorItemMatches_only_folder haf]
      cases hf : kf b.keyId with
      | none => simp [hbf, haf, hf] at h
      | some folder =>
        have h' : folder = a.folder := by simpa [hbf, haf, hf] using h
        exact (hagree hb.1 folder (hb.2 ▸ hf)).symm.trans h'

/-- A key that is both picked and excepted makes the two items overlap. -/
theorem keySelectionOverlapsExclusion_of_matches (hagree : KeyAgrees kf key)
    (hsel : selectorItemMatches .only key a = true) (hexc : selectorItemMatches .all key b = true) :
    keySelectionOverlapsExclusion a b kf = true := by
  unfold keySelectionOverlapsExclusion
  cases haf : a.isFolder with
  | true =>
    rw [selectorItemMatches_only_folder haf] at hsel
    cases hbf : b.isFolder with
    | true =>
      rw [selectorItemMatches_all_folder hbf, hsel] at hexc
      simpa using hexc
    | false =>
      rw [selectorItemMatches_key hbf] at hexc
      cases hf : kf b.keyId with
      | none => simp
      | some folder =>
        have hfolder := hagree hexc.1 folder (hexc.2 ▸ hf)
        simpa using hfolder.trans hsel
  | false =>
    rw [selectorItemMatches_key haf] at hsel
    cases hbf : b.isFolder with
    | false =>
      rw [selectorItemMatches_key hbf] at hexc
      simpa using hsel.2.symm.trans hexc.2
    | true =>
      rw [selectorItemMatches_all_folder hbf] at hexc
      cases hf : kf a.keyId with
      | none => simp
      | some folder =>
        have hfolder := hagree hsel.1 folder (hsel.2 ▸ hf)
        simpa [hfolder] using hexc

/-- An exception contained in another matches no more keys. -/
theorem exclusionContains_sound (hagree : KeyAgrees kf key) (h : exclusionContains a b kf = true)
    (hb : selectorItemMatches .all key b = true) : selectorItemMatches .all key a = true := by
  unfold exclusionContains at h
  cases hbf : b.isFolder with
  | true =>
    have h' : a.isFolder = true ∧ folderWithin b.folder a.folder = true := by
      simpa [hbf] using h
    rw [selectorItemMatches_all_folder hbf] at hb
    rw [selectorItemMatches_all_folder h'.1]
    exact folderWithin_trans hb h'.2
  | false =>
    rw [selectorItemMatches_key hbf] at hb
    cases haf : a.isFolder with
    | false =>
      have h' : a.keyId = b.keyId := by simpa [hbf, haf] using h
      rw [selectorItemMatches_key haf]
      exact ⟨hb.1, hb.2.trans h'.symm⟩
    | true =>
      rw [selectorItemMatches_all_folder haf]
      cases hf : kf b.keyId with
      | none => simp [hbf, haf, hf] at h
      | some folder =>
        have h' : folderWithin folder a.folder = true := by simpa [hbf, haf, hf] using h
        rwa [hagree hb.1 folder (hb.2 ▸ hf)] at h'

end Items

/-- **What containment of one selector in another gives**, axis by axis, on
what is matched and on what is left unnarrowed. -/
structure Where.Contains (outer inner : Where) (project : ProjectId)
    (keyFolders : String → Option String) : Prop where
  /-- The container names the project. -/
  project_mem : project ∈ outer.projects
  /-- The container matches the environments of the contained. -/
  env_matches : ∀ env, selectorEnvMatches inner project env = true →
    selectorEnvMatches outer project env = true
  /-- If the contained leaves environments unnarrowed, so does the container. -/
  env_unnarrowed : inner.envMode = .all → inner.envsAt project = [] →
    outer.envMode = .all ∧ outer.envsAt project = []
  /-- If the contained is not an empty pick, neither is the container. -/
  env_picks : ¬ (inner.envMode = .only ∧ inner.envsAt project = []) →
    ¬ (outer.envMode = .only ∧ outer.envsAt project = [])
  /-- The container matches the keys of the contained. -/
  key_matches : ∀ key, KeyAgrees keyFolders key → selectorKeyMatches inner project key = true →
    selectorKeyMatches outer project key = true
  /-- If the contained leaves keys unnarrowed, so does the container. -/
  key_unnarrowed : inner.keyMode = .all → inner.keysAt project = [] →
    outer.keyMode = .all ∧ outer.keysAt project = []

theorem axisContains_unnarrowed [DecidableEq α] {om im : AxisMode} {o i : List α}
    (h : axisContains om o im i = true) (him : im = .all) (hi : i = []) : om = .all ∧ o = [] := by
  subst him hi
  cases om with
  | all => simpa [axisContains, eq_nil_iff_forall_not_mem] using h
  | only | other t => simp [axisContains] at h

theorem axisContains_picks [DecidableEq α] {om im : AxisMode} {o i : List α}
    (h : axisContains om o im i = true) (hi : ¬ (im = .only ∧ i = [])) :
    ¬ (om = .only ∧ o = []) := by
  intro ⟨hom, ho⟩
  subst hom ho
  cases im with
  | only =>
    have hnil : i = [] := by
      simpa [axisContains, eq_nil_iff_forall_not_mem] using h
    exact hi ⟨rfl, hnil⟩
  | all | other t => simp [axisContains] at h

/-- **The containment test is sound.** -/
theorem Where.contains_of_containsWhereInProject {outer inner : Where}
    {kf : String → Option String} (h : outer.containsWhereInProject inner project kf = true) :
    outer.Contains inner project kf := by
  unfold Where.containsWhereInProject at h
  split at h
  case isTrue => cases h
  case isFalse hproj =>
  split at h
  case isTrue => cases h
  case isFalse haxis =>
  have hproj' : project ∈ outer.projects := by
    rw [Bool.or_eq_true, not_or, Bool.not_eq_true', Bool.not_eq_false] at hproj
    exact contains_iff_mem.mp hproj.1
  have haxis' : axisContains outer.envMode (outer.envsAt project) inner.envMode
      (inner.envsAt project) = true := by
    rwa [Bool.not_eq_true', Bool.not_eq_false] at haxis
  refine ⟨hproj', selectorEnvMatches_of_axisContains haxis', axisContains_unnarrowed haxis',
    axisContains_picks haxis', ?_, ?_⟩
  · intro key hagree hin
    unfold selectorKeyMatches at hin ⊢
    cases him : inner.keyMode with
    | only =>
      simp only [him, if_true, all_eq_true] at h
      obtain ⟨it, hit, hmatch⟩ : ∃ it ∈ inner.keysAt project,
          selectorItemMatches .only key it = true := by simpa [him] using hin
      have hsel := h it hit
      cases hom : outer.keyMode with
      | only =>
        obtain ⟨o, ho, hcontains⟩ : ∃ o ∈ outer.keysAt project,
            keySelectionContains o it kf = true := by simpa [hom] using hsel
        simpa using ⟨o, ho, keySelectionContains_sound hagree hcontains hmatch⟩
      | all =>
        have hfree : ∀ o ∈ outer.keysAt project,
            keySelectionOverlapsExclusion it o kf = false := by simpa [hom] using hsel
        have hnone : ∀ o ∈ outer.keysAt project, selectorItemMatches .all key o = false := by
          intro o ho
          refine Bool.eq_false_iff.mpr fun hexc => ?_
          exact Bool.eq_false_iff.mp (hfree o ho)
            (keySelectionOverlapsExclusion_of_matches hagree hmatch hexc)
        simpa using hnone
      | other t => simp [hom] at hsel
    | all =>
      cases hom : outer.keyMode with
      | all =>
        have hsub : ∀ o ∈ outer.keysAt project, ∃ it ∈ inner.keysAt project,
            exclusionContains it o kf = true := by simpa [him, hom] using h
        have hinner : ∀ it ∈ inner.keysAt project, selectorItemMatches .all key it = false := by
          simpa [him] using hin
        have hnone : ∀ o ∈ outer.keysAt project, selectorItemMatches .all key o = false := by
          intro o ho
          obtain ⟨it, hit, hcontains⟩ := hsub o ho
          refine Bool.eq_false_iff.mpr fun hexc => ?_
          exact Bool.eq_false_iff.mp (hinner it hit)
            (exclusionContains_sound hagree hcontains hexc)
        simpa using hnone
      | only | other t => simp [him, hom] at h
    | other t => simp [him] at hin
  · intro him hnil
    cases hom : outer.keyMode with
    | all =>
      simpa [him, hom, hnil, eq_nil_iff_forall_not_mem] using h
    | only | other t => simp [him, hom] at h

/-! ## Selector matches and rule reach -/

namespace Where

variable {w : Where}

/-- At environment level, the environment axis asks for a nonempty environment
that the selector matches. -/
theorem reachesLevel_env (hmode : w.envMode.Known) (c : Capability) (s : Scope)
    (key : Option RuleKey) : w.reachesLevel c .env s key = true ↔
      s.env ≠ "" ∧ selectorEnvMatches w s.project s.env = true := by
  cases hm : w.envMode with
  | all | only => simp [reachesLevel, selectorEnvMatches, hm]
  | other t =>
    rw [hm] at hmode
    exact hmode.elim

theorem itemMatches_eq (key : RuleKey) (it : RuleKeyItem) :
    w.itemMatches key it = selectorItemMatches w.keyMode key it := by
  unfold itemMatches selectorItemMatches folderWithin
  cases it.isFolder with
  | false => simp [@eq_comm _ it.keyId key.id]
  | true =>
    by_cases hfolder : it.folder = key.folder
    · simp [hfolder]
    · have hfolder' : key.folder ≠ it.folder := fun h => hfolder h.symm
      by_cases hall : w.keyMode = .all
      all_goals simp [hfolder, hfolder', hall]

/-- For an atom with a key, the key axis asks that the selector matches it. -/
theorem reachesKey_some (hmode : w.keyMode.Known) (p : ProjectId) (key : RuleKey) :
    w.reachesKey p (some key) = selectorKeyMatches w p key := by
  have hitems : w.itemMatches key = selectorItemMatches w.keyMode key :=
    funext (itemMatches_eq key)
  simp only [reachesKey, selectorKeyMatches, hitems]
  cases hm : w.keyMode with
  | all =>
    by_cases hnil : w.keysAt p = []
    · simp [hnil]
    · simp [hnil]
  | only => simp
  | other t =>
    rw [hm] at hmode
    exact hmode.elim

/-- For an atom without a key, the key axis asks that the selector does not
narrow keys in the project. -/
theorem reachesKey_none (p : ProjectId) :
    w.reachesKey p none = true ↔ w.keyMode = .all ∧ w.keysAt p = [] := by
  simp [reachesKey]

end Where

/-- All environments and all keys of one project. -/
def Where.everything (p : ProjectId) : Where := { projects := [p] }

/-- All environments of one project but one. -/
def Where.allButEnv (p : ProjectId) (e : EnvId) : Where :=
  { projects := [p], envs := AList.singleton p [e] }

/-- One environment of one project. -/
def Where.onlyEnv (p : ProjectId) (e : EnvId) : Where :=
  { projects := [p], envMode := .only, envs := AList.singleton p [e] }

/-- The rule conferring `edit` over a selector. -/
def editRule (org : OrgId) (w : Where) : Rule := { capability := .edit, org := org, selector := w }

variable {w : Where}

theorem editRule_reaches_env (henv : w.envMode.Known) (hkey : w.keyMode.Known)
    (org : OrgId) (project : ProjectId) (env : EnvId) (key : RuleKey) :
    (editRule org w).reaches .edit .env ⟨org, project, env⟩ (some key) = true ↔
      project ∈ w.projects ∧ env ≠ "" ∧ selectorEnvMatches w project env = true ∧
        selectorKeyMatches w project key = true := by
  have hedit : Capability.edit ≠ .manageMembers := by decide
  have hread : Capability.edit ≠ .read := by decide
  rw [Rule.reaches_iff, editRule, Where.reachesLevel_env henv, Where.reachesKey_some hkey]
  simp [hedit, hread, and_assoc]

/-- Each environment-level reach, at a nonempty environment, of an edit rule
with the inner selector is a reach of one with an outer selector naming the
project. The keys are those consistent with the folders: a named key sits in
its mapped folder, an unnamed one or one without identifier sits anywhere. -/
def UnionReaches (outers : List Where) (inner : Where) (project : ProjectId)
    (keyFolders : String → Option String) (org : OrgId) : Prop :=
  ∀ (env : EnvId) (key : RuleKey), env ≠ "" →
    (∀ w ∈ inner :: outers, ∀ it ∈ w.keysAt project, it.isFolder = false →
      it.keyId = key.id → key.id ≠ "" → keyFolders key.id = some key.folder) →
    (editRule org inner).reaches .edit .env ⟨org, project, env⟩ (some key) = true →
    ∃ outer ∈ outers, project ∈ outer.projects ∧
      (editRule org outer).reaches .edit .env ⟨org, project, env⟩ (some key) = true

/-- **Selector-union containment is exact for reach.** Let every selector have
a mode the product writes on both axes, name no empty environment in the
project, and have its named keys in the map of folders. Then the union test
answers whether each environment-level reach of an edit rule with the inner
selector is a reach of one with an outer selector. -/
theorem whereUnionContainsInProject_iff_reaches (outers : List Where) (inner : Where)
    (project : ProjectId) (keyFolders : String → Option String) (org : OrgId)
    (hmodes : ∀ w ∈ inner :: outers, w.envMode.Known ∧ w.keyMode.Known)
    (hproject : project ∈ inner.projects)
    (hfolders : ∀ w ∈ inner :: outers, ∀ it ∈ w.keysAt project, it.isFolder = false →
      (keyFolders it.keyId).isSome = true)
    (hnonempty : ∀ w ∈ inner :: outers, "" ∉ w.envsAt project) :
    whereUnionContainsInProject outers inner project keyFolders = true ↔
      UnionReaches outers inner project keyFolders org := by
  have hmem : ∀ w, w ∈ outers ++ [inner] ↔ w ∈ inner :: outers := by
    intro w
    rw [mem_append, mem_singleton, mem_cons, or_comm]
  have hids : ∀ id, id ∈ namedIds outers inner project ↔ ∃ w ∈ inner :: outers,
      ∃ it ∈ w.keysAt project, it.isFolder = false ∧ it.keyId = id := by
    intro id
    rw [mem_namedIds]
    exact exists_congr fun w => and_congr_left fun _ => hmem w
  have hconsistent : ∀ key : RuleKey, KeyConsistent outers inner project keyFolders key ↔
      ∀ w ∈ inner :: outers, ∀ it ∈ w.keysAt project, it.isFolder = false →
        it.keyId = key.id → key.id ≠ "" → keyFolders key.id = some key.folder := by
    intro key
    constructor
    · intro h w hw it hit hf hid hne
      exact h hne ((hids key.id).mpr ⟨w, hw, it, hit, hf, hid⟩)
    · intro h hne hid
      obtain ⟨w, hw, it, hit, hf, heq⟩ := (hids key.id).mp hid
      exact h w hw it hit hf heq hne
  rw [whereUnionContainsInProject_iff]
  · obtain ⟨hie, hik⟩ := hmodes inner mem_cons_self
    constructor
    · intro hsem env key hne hkey hreach
      obtain ⟨-, -, henv, hmatch⟩ := (editRule_reaches_env hie hik org project env key).mp hreach
      obtain ⟨outer, hout, hp, hoe, hok⟩ :=
        hsem env hne key ((hconsistent key).mpr hkey) henv hmatch
      obtain ⟨hmodeE, hmodeK⟩ := hmodes outer (mem_cons_of_mem _ hout)
      exact ⟨outer, hout, hp, (editRule_reaches_env hmodeE hmodeK org project env key).mpr
        ⟨hp, hne, hoe, hok⟩⟩
    · intro hreach env hne key hkey hie' hik'
      obtain ⟨outer, hout, hp, hor⟩ := hreach env key hne ((hconsistent key).mp hkey)
        ((editRule_reaches_env hie hik org project env key).mpr ⟨hproject, hne, hie', hik'⟩)
      obtain ⟨hmodeE, hmodeK⟩ := hmodes outer (mem_cons_of_mem _ hout)
      obtain ⟨-, -, hoe, hok⟩ := (editRule_reaches_env hmodeE hmodeK org project env key).mp hor
      exact ⟨outer, hout, hp, hoe, hok⟩
  · intro id hid
    obtain ⟨w, hw, it, hit, hf, rfl⟩ := (hids id).mp hid
    exact hfolders w hw it hit hf
  · intro henv
    obtain ⟨w, hw, he⟩ := (mem_namedEnvs _ _ _ "").mp henv
    exact hnonempty w ((hmem w).mp hw) he

/-- Two selectors whose environment exceptions complement one another contain
the whole project, so some one of them reaches each key at each environment. -/
theorem complementary_selectors_reach :
    ∃ outer ∈ [Where.allButEnv "p" "e1", Where.onlyEnv "p" "e1"], "p" ∈ outer.projects ∧
      (editRule "o" outer).reaches .edit .env ⟨"o", "p", "e1"⟩ (some ⟨"k", "a/b"⟩) = true :=
  (whereUnionContainsInProject_iff_reaches [Where.allButEnv "p" "e1", Where.onlyEnv "p" "e1"]
    (Where.everything "p") "p" (fun _ => none) "o" (by decide) (by decide) (by decide)
    (by decide)).mp (by decide) "e1" ⟨"k", "a/b"⟩ (by decide) (by decide) (by decide)

/-- A selector whose only environment is the empty one reaches nothing, so no
reach of it needs an outer selector; the union test refuses it nevertheless,
since the empty environment is one of its witnesses. -/
theorem whereUnionContains_empty_env :
    (∀ w ∈ [Where.onlyEnv "p" ""], w.envMode.Known ∧ w.keyMode.Known) ∧
      "p" ∈ (Where.onlyEnv "p" "").projects ∧
      (∀ w ∈ [Where.onlyEnv "p" ""], ∀ it ∈ w.keysAt "p", it.isFolder = false →
        ((fun _ => none : String → Option String) it.keyId).isSome = true) ∧
      ¬ (whereUnionContainsInProject [] (Where.onlyEnv "p" "") "p" (fun _ => none) = true ↔
        UnionReaches [] (Where.onlyEnv "p" "") "p" (fun _ => none) "o") := by
  have hreach : UnionReaches [] (Where.onlyEnv "p" "") "p" (fun _ => none) "o" := by
    intro env key hne _ h
    have henv := ((editRule_reaches_env (by decide) (by decide) "o" "p" env key).mp h).2.2.1
    rw [selectorEnvMatches, show (Where.onlyEnv "p" "").envsAt "p" = [""] from rfl] at henv
    simp [Where.onlyEnv, hne] at henv
  refine ⟨by decide, by decide, by decide, fun h => ?_⟩
  exact absurd (h.mpr hreach) (by decide)

/-! ## One selector against the union test -/

section Single

variable {outer inner : Where} {project : ProjectId} {kf : String → Option String}

/-- A key that one of the two selectors names sits in the folder the map has for it, if it
has one. -/
def KeyPlaced (outer inner : Where) (project : ProjectId) (kf : String → Option String)
    (key : RuleKey) : Prop :=
  key.id ∈ namedIds [outer] inner project → ∀ folder, kf key.id = some folder → folder = key.folder

/-- A selector that contains another matches the keys of the other; a key that neither
names is matched like one without identifier. -/
theorem Where.Contains.key_placed (h : outer.Contains inner project kf)
    (hkey : KeyPlaced outer inner project kf key) (hin : selectorKeyMatches inner project key = true) :
    selectorKeyMatches outer project key = true := by
  by_cases hid : key.id = "" ∨ key.id ∉ namedIds [outer] inner project
  · obtain ⟨region, -, hsame⟩ := exists_region_witness key hid
    rw [hsame inner (by simp)] at hin
    rw [hsame outer (by simp)]
    exact h.key_matches _ (fun hne => absurd rfl hne) hin
  · rw [not_or, not_not] at hid
    exact h.key_matches key (fun _ => hkey hid.2) hin

theorem selectorEnvMatches_known {env : EnvId}
    (h : selectorEnvMatches w project env = true) : w.envMode.Known := by
  cases hm : w.envMode with
  | other t => simp [selectorEnvMatches, hm] at h
  | _ => trivial

theorem selectorKeyMatches_known
    (h : selectorKeyMatches w project key = true) : w.keyMode.Known := by
  cases hm : w.keyMode with
  | other t => simp [selectorKeyMatches, hm] at h
  | _ => trivial

/-- What is contained has a mode the product writes on both axes. -/
theorem known_of_containsWhereInProject (h : outer.containsWhereInProject inner project kf = true) :
    inner.envMode.Known ∧ inner.keyMode.Known := by
  unfold Where.containsWhereInProject at h
  constructor
  · cases hm : inner.envMode with
    | other t => simp [axisContains, hm] at h
    | _ => trivial
  · cases hm : inner.keyMode with
    | other t => simp [hm] at h
    | _ => trivial

/-- **Containment of one selector in another is sound.** If `outer` contains `inner` in a
project, every atom at environment level that an edit rule with `inner` reaches there is
reached by one with `outer`, for every environment and every key that is placed, or none;
and the union test with a complete map of folders answers the same. -/
theorem containsWhereInProject_sound (h : outer.containsWhereInProject inner project kf = true) :
    (∀ (org : OrgId) (s : Scope) (key : Option RuleKey), s.project = project →
      (∀ k ∈ key, KeyPlaced outer inner project kf k) →
      (editRule org inner).reaches .edit .env s key = true →
        (editRule org outer).reaches .edit .env s key = true) ∧
    ((∀ id ∈ namedIds [outer] inner project, (kf id).isSome = true) →
      whereUnionContainsInProject [outer] inner project kf = true) := by
  have hcontains := Where.contains_of_containsWhereInProject h
  obtain ⟨henv, hkey⟩ := known_of_containsWhereInProject h
  constructor
  · rintro org s key rfl hplaced hreach
    obtain ⟨hc, hmembers, horg, -, hlevel, hread | hkeys⟩ := (Rule.reaches_iff _ _ _ _ _).mp hreach
    · exact absurd hread (by decide)
    obtain ⟨hne, hmatch⟩ := (Where.reachesLevel_env henv _ _ _).mp hlevel
    have hmatch' := hcontains.env_matches s.env hmatch
    refine (Rule.reaches_iff _ _ _ _ _).mpr ⟨hc, hmembers, horg, hcontains.project_mem,
      (Where.reachesLevel_env (selectorEnvMatches_known hmatch') _ _ _).mpr ⟨hne, hmatch'⟩,
      .inr ?_⟩
    cases key with
    | none =>
      obtain ⟨hall, hnil⟩ := (Where.reachesKey_none _).mp hkeys
      exact (Where.reachesKey_none _).mpr (hcontains.key_unnarrowed hall hnil)
    | some k =>
      have hin : selectorKeyMatches inner s.project k = true :=
        (Where.reachesKey_some hkey _ _).symm.trans hkeys
      have hout := hcontains.key_placed (hplaced k rfl) hin
      exact (Where.reachesKey_some (selectorKeyMatches_known hout) _ _).trans hout
  · intro hdef
    obtain ⟨named, hnamed, hmem⟩ := mapM_keyFolders_eq_some _ hdef
    unfold whereUnionContainsInProject
    simp only [hnamed, all_eq_true, Bool.or_eq_true, Bool.not_eq_true', any_eq_true,
      Bool.and_eq_true, contains_iff_mem]
    intro env _
    refine (Bool.eq_false_or_eq_true _).symm.imp_right fun hie key hk => ?_
    refine (Bool.eq_false_or_eq_true _).symm.imp_right fun hik => ?_
    -- a witness is a key without identifier, or a named one in its folder
    have hagree : KeyAgrees kf key := by
      intro hne folder hfolder
      rcases mem_append.mp hk with hk | hk
      · obtain ⟨region, -, rfl⟩ := mem_map.mp hk
        exact absurd rfl hne
      · exact Option.some.inj (hfolder.symm.trans ((hmem key).mp hk).2)
    exact ⟨outer, mem_cons_self, ⟨hcontains.project_mem, hcontains.env_matches env hie⟩,
      hcontains.key_matches key hagree hik⟩

/-- All environments but one contain another one. -/
theorem allButEnv_contains_onlyEnv :
    (Where.allButEnv "p" "e1").containsWhereInProject (Where.onlyEnv "p" "e2") "p" (fun _ => none) =
        true ∧
      (editRule "o" (Where.allButEnv "p" "e1")).reaches .edit .env ⟨"o", "p", "e2"⟩
        (some ⟨"k", "a"⟩) = true := by
  have h : (Where.allButEnv "p" "e1").containsWhereInProject (Where.onlyEnv "p" "e2") "p"
      (fun _ => none) = true := by decide
  exact ⟨h, (containsWhereInProject_sound h).1 "o" _ _ rfl nofun (by decide)⟩

end Single

end Hikyo
