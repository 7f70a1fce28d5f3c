import Hikyo.Lib.Undo
import Hikyo.Rollout.Deployment

/-!
# A recorded delta goes there and back

A delta that was recorded from a Deployment applies to it, and taking it back gives
the Deployment again, exactly. Both directions go through the parts of the delta in
the same order, so a part is taken back while the later ones are still applied: the
parts must not touch each other. For the entries with a name, and for the ports and
annotations, they do not because the names are different. For the arguments it is
the form of the flags that keeps the value of one flag from being the place of
another (`ArgRecorded.apart`).

`Recorded` collects what it means that a delta was recorded from a Deployment, and
`applyDelta_of_recorded` is the round trip.
-/

namespace Hikyo.Rollout

open List
open Tx (ensure_of bind_ok checked)

variable (H : Digests)

/-! ## The environment -/

variable {H} {env env' : List EnvVar} {e f : EnvDelta}

theorem applyEnv_eq_ok : applyEnv H env e = .ok env' ↔
    (e.before = none ∧ (∀ v ∈ env, v.name ≠ e.name) ∧ env' = env ++ [e.after]) ∨
      ∃ b, e.before = some b ∧ env.find? (fun v => v.name = e.name) = some b ∧
        env' = List.replaceKey EnvVar.name e.name [e.after] env := by
  unfold applyEnv
  rcases List.findIdx?_key EnvVar.name e.name env with
    ⟨hnone, hall⟩ | ⟨i, v, hi, hget, hfind, hset, -⟩
  · rw [hnone]
    have hfind : env.find? (fun v => v.name = e.name) = none :=
      find?_eq_none.mpr fun v hv h => hall v hv (of_decide_eq_true h)
    cases hb : e.before with
    | none =>
      refine ⟨fun h => .inl ⟨rfl, hall, (Except.ok.inj h).symm⟩, ?_⟩
      rintro (⟨-, -, rfl⟩ | ⟨b, hb', -⟩)
      · rfl
      · cases hb'
    | some b =>
      refine ⟨by simp, ?_⟩
      rintro (⟨hb', -⟩ | ⟨b', -, hfind', -⟩)
      · cases hb'
      · cases hfind.symm.trans hfind'
  · rw [hi]
    have hmem := mem_of_find?_eq_some hfind
    have hname : v.name = e.name := of_decide_eq_true (find?_some hfind :)
    cases hb : e.before with
    | none =>
      refine ⟨by simp, ?_⟩
      rintro (⟨-, hall, -⟩ | ⟨b, hb', -⟩)
      · exact absurd hname (hall v hmem)
      · cases hb'
    | some b =>
      dsimp only
      rw [hget, hset, hfind, Option.map_some]
      split
      next hdigest =>
        have hvb : v = b := H.digest_inj.mp (Option.some.inj hdigest)
        refine ⟨fun h => .inr ⟨b, rfl, congrArg some hvb, (Except.ok.inj h).symm⟩, ?_⟩
        rintro (⟨hb', -⟩ | ⟨b', -, -, rfl⟩)
        · cases hb'
        · rfl
      next hdigest =>
        refine ⟨by simp, ?_⟩
        rintro (⟨hb', -⟩ | ⟨b', hb', hv, -⟩)
        · cases hb'
        · have hvb : v = b := (Option.some.inj hv).trans (Option.some.inj hb').symm
          exact absurd (congrArg (fun v => some (H.digest v)) hvb) hdigest

theorem revertEnv_eq_ok : revertEnv H env e = .ok env' ↔
    env.find? (fun v => v.name = e.name) = some e.after ∧
      env' = List.replaceKey EnvVar.name e.name e.before.toList env := by
  unfold revertEnv
  rcases List.findIdx?_key EnvVar.name e.name env with
    ⟨hnone, hall⟩ | ⟨i, v, hi, hget, hfind, hset, herase⟩
  · rw [hnone]
    have hfind : env.find? (fun v => v.name = e.name) = none :=
      find?_eq_none.mpr fun v hv h => hall v hv (of_decide_eq_true h)
    exact ⟨by simp, by simp [hfind]⟩
  · rw [hi]
    dsimp only
    rw [hget, hfind, Option.map_some]
    split
    next hv =>
      obtain rfl := H.digest_inj.mp (Option.some.inj hv)
      cases hb : e.before with
      | none =>
        dsimp only
        rw [herase]
        exact ⟨fun h => ⟨rfl, (Except.ok.inj h).symm⟩, fun h => congrArg Except.ok h.2.symm⟩
      | some b =>
        dsimp only
        rw [hset]
        exact ⟨fun h => ⟨rfl, (Except.ok.inj h).symm⟩, fun h => congrArg Except.ok h.2.symm⟩
    next hv => exact ⟨by simp, fun h =>
      absurd (congrArg (fun v => some (H.digest v)) (Option.some.inj h.1)) hv⟩

/-- An entry keeps its name. -/
def EnvDelta.Named (e : EnvDelta) : Prop := e.after.name = e.name ∧ ∀ b ∈ e.before, b.name = e.name

/-- **The entry was recorded from this environment**: it stands there as it says, once. -/
structure EnvRecorded (env : List EnvVar) (e : EnvDelta) : Prop where
  after : e.after.name = e.name
  before : env.filter (fun v => v.name = e.name) = e.before.toList

theorem EnvRecorded.named (h : EnvRecorded env e) : e.Named := by
  refine ⟨h.after, fun b hb => ?_⟩
  have hmem : b ∈ env.filter (fun v => v.name = e.name) := by
    rw [h.before]
    exact Option.mem_toList.mpr hb
  exact of_decide_eq_true (mem_filter.mp hmem).2

theorem EnvRecorded.apply (h : EnvRecorded env e) :
    ∃ env', applyEnv H env e = .ok env' ∧ revertEnv H env' e = .ok env := by
  cases hb : e.before with
  | none =>
    have hnil : env.filter (fun v => decide (v.name = e.name)) = [] := by
      rw [h.before, hb]
      rfl
    have hall : ∀ v ∈ env, v.name ≠ e.name := fun v hv hname =>
      filter_eq_nil_iff.mp hnil v hv (decide_eq_true hname)
    have hfind : env.find? (fun v => decide (v.name = e.name)) = none :=
      find?_eq_none.mpr fun v hv h => hall v hv (of_decide_eq_true h)
    refine ⟨env ++ [e.after], applyEnv_eq_ok.mpr (.inl ⟨hb, hall, rfl⟩),
      revertEnv_eq_ok.mpr ⟨?_, ?_⟩⟩
    · rw [find?_append, hfind, Option.none_or, find?_cons, decide_eq_true h.after]
    · rw [hb]
      have hskip : ∀ l : List EnvVar, (∀ v ∈ l, v.name ≠ e.name) →
          List.replaceKey EnvVar.name e.name (none : Option EnvVar).toList (l ++ [e.after]) = l := by
        intro l hl
        induction l with
        | nil =>
          rw [nil_append, List.replaceKey, if_pos h.after]
          rfl
        | cons v l ih =>
          rw [cons_append, List.replaceKey, if_neg (hl v mem_cons_self),
            ih fun w hw => hl w (mem_cons_of_mem _ hw)]
      exact (hskip env hall).symm
  | some b =>
    have hfind : env.find? (fun v => decide (v.name = e.name)) = some b := by
      rw [← head?_filter, h.before, hb]
      rfl
    have hexists : ∃ v ∈ env, v.name = e.name :=
      ⟨b, mem_of_find?_eq_some hfind, of_decide_eq_true (find?_some hfind :)⟩
    refine ⟨_, applyEnv_eq_ok.mpr (.inr ⟨b, hb, hfind, rfl⟩), revertEnv_eq_ok.mpr ⟨?_, ?_⟩⟩
    · exact find?_replaceKey_self h.after hexists
    · rw [hb, List.replaceKey_replaceKey h.after]
      exact (List.replaceKey_self hfind).symm

/-- Two entries with names of their own, and different ones. -/
def EnvDelta.Apart (e f : EnvDelta) : Prop := e.name ≠ f.name ∧ e.Named ∧ f.Named

theorem find?_of_filter {p : EnvVar → Bool} {env env' : List EnvVar}
    (h : env'.filter p = env.filter p) : env'.find? p = env.find? p := by
  rw [← head?_filter, ← head?_filter, h]

theorem EnvRecorded.frame (hapart : e.Apart f) (hf : EnvRecorded env f)
    (h : applyEnv H env e = .ok env') : EnvRecorded env' f := by
  refine ⟨hf.after, ?_⟩
  obtain ⟨hne, henamed, -⟩ := hapart
  rcases applyEnv_eq_ok.mp h with ⟨-, -, rfl⟩ | ⟨b, -, -, rfl⟩
  · rw [filter_append, hf.before, filter_cons_of_neg, filter_nil, append_nil]
    rw [decide_eq_true_eq, henamed.1]
    exact hne
  · rw [List.filter_replaceKey (fun x hx => mem_singleton.mp hx ▸ henamed.1) hne.symm]
    exact hf.before

theorem revertEnv_diamond {x y x' y' : List EnvVar} (hapart : e.Apart f)
    (hundo : revertEnv H x e = .ok y) (hx : applyEnv H x f = .ok x')
    (hy : applyEnv H y f = .ok y') : revertEnv H x' e = .ok y' := by
  obtain ⟨hne, henamed, hfnamed⟩ := hapart
  obtain ⟨hfind, rfl⟩ := revertEnv_eq_ok.mp hundo
  have hexists : ∃ v ∈ x, v.name = e.name :=
    ⟨e.after, mem_of_find?_eq_some hfind, henamed.1⟩
  refine revertEnv_eq_ok.mpr ?_
  rcases applyEnv_eq_ok.mp hx with ⟨hnone, -, rfl⟩ | ⟨b, hb, hfb, rfl⟩
  · rcases applyEnv_eq_ok.mp hy with ⟨-, -, rfl⟩ | ⟨b, hb, -⟩
    · rw [find?_append, hfind, Option.some_or, List.replaceKey_append hexists]
      exact ⟨rfl, rfl⟩
    · cases hnone.symm.trans hb
  · have hafter : ∀ v ∈ [f.after], v.name = f.name :=
      fun v hv => mem_singleton.mp hv ▸ hfnamed.1
    have hbefore : ∀ v ∈ e.before.toList, v.name = e.name :=
      fun v hv => henamed.2 v (Option.mem_toList.mp hv)
    rcases applyEnv_eq_ok.mp hy with ⟨hnone, -⟩ | ⟨b', -, -, rfl⟩
    · cases hnone.symm.trans hb
    · refine ⟨?_, (List.replaceKey_comm hbefore hafter hne).symm⟩
      rw [find?_of_filter (List.filter_replaceKey hafter hne)]
      exact hfind

/-- **The environment, there and back.** -/
theorem environment_roundTrip {es : List EnvDelta} (h : ∀ e ∈ es, EnvRecorded env e)
    (hnames : (es.map EnvDelta.name).Nodup) :
    ∃ env', es.foldlM (applyEnv H) env = .ok env' ∧ es.foldlM (revertEnv H) env' = .ok env := by
  refine Undo.foldlM_undo EnvRecorded EnvDelta.Apart (fun _ _ he => he.apply)
    (fun _ _ _ _ hapart _ hf hs => hf.frame hapart hs)
    (fun _ _ _ _ _ _ hapart => revertEnv_diamond hapart) es env ?_ h
  have hpairwise := pairwise_map.mp (nodup_iff_pairwise_ne.mp hnames)
  refine hpairwise.imp_of_mem fun {e f} he hf hne => ?_
  exact ⟨hne, (h e he).named, (h f hf).named⟩

/-! ## The arguments -/

variable {index : ℤ}

section Arguments

variable {args args' : List String} {a b : ArgDelta}

variable {flag : String}

theorem replaceArg_eq_ok {old new : String} :
    replaceArg args flag index old new = .ok args' ↔
      ∃ i : ℕ, index = i ∧ flag ∈ ruledFlags ∧ belongsTo args flag i = true ∧
        args[i]? = some old ∧ args' = args.set i new := by
  unfold replaceArg
  constructor
  · intro h
    obtain ⟨hrange, h⟩ := checked h
    obtain ⟨hflag, h⟩ := checked h
    obtain ⟨hbelongs, h⟩ := checked h
    obtain ⟨hold, h⟩ := checked h
    exact ⟨index.toNat, (Int.toNat_of_nonneg hrange.1).symm, hflag,
      hbelongs, hold, (Except.ok.inj h).symm⟩
  · rintro ⟨i, rfl, hflag, hbelongs, hold, rfl⟩
    have hrange : i < args.length := (List.getElem?_eq_some_iff.mp hold).1
    rw [Int.toNat_natCast, ensure_of ⟨Int.natCast_nonneg i, Int.ofNat_lt.mpr hrange⟩,
      ensure_of hflag, ensure_of hbelongs, ensure_of hold]
    rfl

theorem hasPrefix_append (p s : String) : hasPrefix (p ++ s) p = true := by
  rw [hasPrefix_iff, String.toList_append]
  exact prefix_append _ _

theorem hasPrefix_trans {s p q : String} (hs : hasPrefix s p = true) (hp : hasPrefix p q = true) :
    hasPrefix s q = true := by
  rw [hasPrefix_iff] at hs hp ⊢
  exact hp.trans hs

/-- The value stands in one argument with its flag, before and after. -/
def ArgDelta.Inline (a : ArgDelta) : Prop :=
  hasPrefix a.before (a.flag ++ "=") = true ∧ hasPrefix a.after (a.flag ++ "=") = true

/-- **The argument was recorded from these arguments**: it is `flag=…`, or it follows the
flag and does not look like one. -/
structure ArgRecorded (args : List String) (a : ArgDelta) : Prop where
  flag : a.flag ∈ ruledFlags
  place : ∃ i : ℕ, a.index = i ∧ args[i]? = some a.before ∧
    (a.Inline ∨ ∃ k, i = k + 1 ∧ args[k]? = some a.flag ∧ hasPrefix a.before "-" = false)

/-- Two arguments do not touch each other: neither is the other's place, or its flag. -/
def ArgDelta.Apart (a b : ArgDelta) : Prop :=
  a.index ≠ b.index ∧ (b.index + 1 = a.index → a.Inline) ∧ (a.index + 1 = b.index → b.Inline)

theorem ruledFlags_dash : ∀ flag ∈ ruledFlags, hasPrefix flag "-" = true := by decide

theorem ruledFlags_inline_dash :
    ∀ flag ∈ ruledFlags, hasPrefix (flag ++ "=") "-" = true := by decide

theorem ruledFlags_not_inline :
    ∀ flag ∈ ruledFlags, ∀ flag' ∈ ruledFlags, hasPrefix flag (flag' ++ "=") = false := by decide

theorem ruledFlags_inline_inj : ∀ flag ∈ ruledFlags, ∀ flag' ∈ ruledFlags,
    (flag ++ "=").toList <+: (flag' ++ "=").toList → flag = flag' := by decide

/-- No argument is of two flags. -/
theorem flag_unique {s flag' : String} (hflag : flag ∈ ruledFlags)
    (hflag' : flag' ∈ ruledFlags) (h : hasPrefix s (flag ++ "=") = true)
    (h' : hasPrefix s (flag' ++ "=") = true) : flag = flag' := by
  rw [hasPrefix_iff] at h h'
  rcases prefix_or_prefix_of_prefix h h' with hp | hp
  · exact ruledFlags_inline_inj flag hflag flag' hflag' hp
  · exact (ruledFlags_inline_inj flag' hflag' flag hflag hp).symm

/-- What stands where an argument was recorded is not a flag. -/
theorem ArgRecorded.not_flag (h : ArgRecorded args a) (hflag : flag ∈ ruledFlags) :
    a.before ≠ flag := by
  rintro rfl
  obtain ⟨i, -, -, hinline | ⟨k, -, -, hdash⟩⟩ := h.place
  · exact Bool.false_ne_true ((ruledFlags_not_inline _ hflag _ h.flag).symm.trans hinline.1)
  · exact Bool.false_ne_true (hdash.symm.trans (ruledFlags_dash _ hflag))

/-- **Recorded arguments of different flags do not touch each other.** -/
theorem ArgRecorded.apart (ha : ArgRecorded args a) (hb : ArgRecorded args b)
    (hne : a.flag ≠ b.flag) : a.Apart b := by
  have hplace : ∀ {a b : ArgDelta}, ArgRecorded args a → ArgRecorded args b →
      b.index + 1 = a.index → a.Inline := by
    intro a b ha hb hindex
    obtain ⟨i, hi, -, hinline | ⟨k, rfl, hflag, -⟩⟩ := ha.place
    · exact hinline
    · obtain ⟨j, hj, hbefore, -⟩ := hb.place
      obtain rfl : j = k := by omega
      exact absurd (Option.some.inj (hbefore.symm.trans hflag)) (hb.not_flag ha.flag)
  refine ⟨fun hindex => ?_, hplace ha hb, hplace hb ha⟩
  obtain ⟨i, hi, hbefore, hforma⟩ := ha.place
  obtain ⟨j, hj, hbefore', hformb⟩ := hb.place
  obtain rfl : i = j := by omega
  have hsame : a.before = b.before := Option.some.inj (hbefore.symm.trans hbefore')
  have hdash : ∀ {a b : ArgDelta}, a.flag ∈ ruledFlags → a.before = b.before → a.Inline →
      hasPrefix b.before "-" = true := fun hflag hsame hinline =>
    hsame ▸ hasPrefix_trans hinline.1 (ruledFlags_inline_dash _ hflag)
  rcases hforma with hinline | ⟨k, rfl, hflag, hnodash⟩
  · rcases hformb with hinline' | ⟨k', -, -, hnodash'⟩
    · exact hne (flag_unique ha.flag hb.flag hinline.1 (hsame ▸ hinline'.1))
    · exact Bool.false_ne_true (hnodash'.symm.trans (hdash ha.flag hsame hinline))
  · rcases hformb with hinline' | ⟨k', hk', hflag', -⟩
    · exact Bool.false_ne_true (hnodash.symm.trans (hdash hb.flag hsame.symm hinline'))
    · obtain rfl : k = k' := by omega
      exact hne (Option.some.inj (hflag.symm.trans hflag'))

theorem belongsTo_of_inline {arg : String} {i : ℕ} (hget : args[i]? = some arg)
    (h : hasPrefix arg (flag ++ "=") = true) : belongsTo args flag i = true := by
  unfold belongsTo
  rw [hget, Option.any_some, h, Bool.true_or]

theorem belongsTo_of_follows {k : ℕ} (h : args[k]? = some flag) :
    belongsTo args flag (k + 1) = true := by
  unfold belongsTo
  rw [Nat.add_sub_cancel, h]
  simp

theorem ArgRecorded.apply (h : ArgRecorded args a) :
    ∃ args', applyArg args a = .ok args' ∧ revertArg args' a = .ok args := by
  obtain ⟨i, hi, hbefore, hform⟩ := h.place
  have hrange : i < args.length := (List.getElem?_eq_some_iff.mp hbefore).1
  have hset : (args.set i a.after)[i]? = some a.after := getElem?_set_self hrange
  refine ⟨args.set i a.after, replaceArg_eq_ok.mpr ⟨i, hi, h.flag, ?_, hbefore, rfl⟩,
    replaceArg_eq_ok.mpr ⟨i, hi, h.flag, ?_, hset, ?_⟩⟩
  · rcases hform with hinline | ⟨k, rfl, hflag, -⟩
    · exact belongsTo_of_inline hbefore hinline.1
    · exact belongsTo_of_follows hflag
  · rcases hform with hinline | ⟨k, rfl, hflag, -⟩
    · exact belongsTo_of_inline hset hinline.2
    · refine belongsTo_of_follows ?_
      rw [getElem?_set_ne (by omega), hflag]
  · rw [set_set]
    obtain ⟨_, hget⟩ := List.getElem?_eq_some_iff.mp hbefore
    rw [← hget, set_getElem_self]

theorem ArgRecorded.frame (hapart : a.Apart b) (hb : ArgRecorded args b)
    (h : applyArg args a = .ok args') : ArgRecorded args' b := by
  obtain ⟨i, hi, -, -, -, rfl⟩ := replaceArg_eq_ok.mp h
  obtain ⟨j, hj, hbefore, hform⟩ := hb.place
  obtain ⟨hne, -, hnext⟩ := hapart
  refine ⟨hb.flag, j, hj, ?_, ?_⟩
  · rw [getElem?_set_ne (by omega), hbefore]
  · rcases hform with hinline | ⟨k, rfl, hflag, hnodash⟩
    · exact .inl hinline
    · by_cases hik : i = k
      · exact .inl (hnext (by omega))
      · exact .inr ⟨k, rfl, by rw [getElem?_set_ne hik, hflag], hnodash⟩

theorem revertArg_diamond {x y x' y' : List String} (hapart : a.Apart b)
    (hundo : revertArg x a = .ok y) (hx : applyArg x b = .ok x') (hy : applyArg y b = .ok y') :
    revertArg x' a = .ok y' := by
  obtain ⟨i, hi, hflag, hbelongs, hafter, rfl⟩ := replaceArg_eq_ok.mp hundo
  obtain ⟨j, hj, -, -, -, rfl⟩ := replaceArg_eq_ok.mp hx
  obtain ⟨j', hj', -, -, -, rfl⟩ := replaceArg_eq_ok.mp hy
  obtain rfl : j = j' := by omega
  obtain ⟨hne, hprev, -⟩ := hapart
  have hij : i ≠ j := by omega
  have hget : (x.set j b.after)[i]? = some a.after := by
    rw [getElem?_set_ne hij.symm, hafter]
  refine replaceArg_eq_ok.mpr ⟨i, hi, hflag, ?_, hget, set_comm _ _ hij⟩
  by_cases hji : j + 1 = i
  · exact belongsTo_of_inline hget (hprev (by omega)).2
  · unfold belongsTo at hbelongs ⊢
    rw [hget]
    rw [hafter] at hbelongs
    cases i with
    | zero => exact hbelongs
    | succ k =>
      rw [Nat.add_sub_cancel] at hbelongs ⊢
      rw [getElem?_set_ne (by omega)]
      exact hbelongs

/-- **The arguments, there and back.** -/
theorem arguments_roundTrip {as : List ArgDelta} (h : ∀ a ∈ as, ArgRecorded args a)
    (hflags : (as.map ArgDelta.flag).Nodup) :
    ∃ args', as.foldlM applyArg args = .ok args' ∧ as.foldlM revertArg args' = .ok args := by
  refine Undo.foldlM_undo ArgRecorded ArgDelta.Apart (fun _ _ ha => ha.apply)
    (fun _ _ _ _ hapart _ hb hs => hb.frame hapart hs)
    (fun _ _ _ _ _ _ hapart => revertArg_diamond hapart) as args ?_ h
  have hpairwise := pairwise_map.mp (nodup_iff_pairwise_ne.mp hflags)
  exact hpairwise.imp_of_mem fun {a b} ha hb hne => (h a ha).apart (h b hb) hne

end Arguments

/-! ## The ports -/

variable {name : String}

theorem modify_of_getElem? {α : Type} {l : List α} {i : ℕ} {a : α} {f : α → α}
    (h : l[i]? = some a) : l.modify i f = l.set i (f a) := by
  rw [List.modify_eq_set_getElem?, h]
  rfl

section Ports

variable {ports ports' : List ContainerPort} {p q : PortDelta}

theorem replacePort_eq_ok {old new : ℤ} :
    replacePort ports name index old new = .ok ports' ↔
      ∃ (i : ℕ) (port : ContainerPort), index = i ∧ (name = "http" ∨ name = "ops") ∧
        ports[i]? = some port ∧ port.name = name ∧ port.containerPort = old ∧
        ports' = ports.set i { port with containerPort := new } := by
  unfold replacePort
  constructor
  · intro h
    obtain ⟨hrange, h⟩ := checked h
    obtain ⟨hnames, h⟩ := checked h
    obtain ⟨hname, h⟩ := checked h
    obtain ⟨hold, h⟩ := checked h
    obtain ⟨port, hport, hname⟩ := (Option.any_eq_true _ _).mp hname
    obtain ⟨port', hport', hold⟩ := (Option.any_eq_true _ _).mp hold
    obtain rfl : port = port' := Option.some.inj (hport.symm.trans hport')
    exact ⟨index.toNat, port, (Int.toNat_of_nonneg hrange.1).symm, hnames,
      hport, of_decide_eq_true hname, of_decide_eq_true hold,
      (Except.ok.inj h).symm.trans (modify_of_getElem? hport)⟩
  · rintro ⟨i, port, rfl, hnames, hport, hname, hold, rfl⟩
    have hrange : i < ports.length := (List.getElem?_eq_some_iff.mp hport).1
    rw [Int.toNat_natCast, ensure_of ⟨Int.natCast_nonneg i, Int.ofNat_lt.mpr hrange⟩,
      ensure_of hnames, hport, Option.any_some, Option.any_some, ensure_of (decide_eq_true hname),
      ensure_of (decide_eq_true hold)]
    exact congrArg Except.ok (modify_of_getElem? hport)

/-- **The port was recorded from these ports.** -/
structure PortRecorded (ports : List ContainerPort) (p : PortDelta) : Prop where
  name : p.name = "http" ∨ p.name = "ops"
  place : ∃ (i : ℕ) (port : ContainerPort), p.index = i ∧ ports[i]? = some port ∧
    port.name = p.name ∧ port.containerPort = p.before

theorem PortRecorded.apply (h : PortRecorded ports p) :
    ∃ ports', applyPort ports p = .ok ports' ∧ revertPort ports' p = .ok ports := by
  obtain ⟨i, port, hi, hport, hname, hbefore⟩ := h.place
  obtain ⟨hrange, hget⟩ := List.getElem?_eq_some_iff.mp hport
  refine ⟨_, replacePort_eq_ok.mpr ⟨i, port, hi, h.name, hport, hname, hbefore, rfl⟩,
    replacePort_eq_ok.mpr ⟨i, { port with containerPort := p.after }, hi, h.name,
      getElem?_set_self hrange, hname, rfl, ?_⟩⟩
  have hport' : { port with containerPort := p.before } = port := by rw [← hbefore]
  rw [set_set]
  show ports = ports.set i { port with containerPort := p.before }
  rw [hport', ← hget, set_getElem_self]

theorem PortRecorded.apart (hp : PortRecorded ports p) (hq : PortRecorded ports q)
    (hne : p.name ≠ q.name) : p.index ≠ q.index := by
  intro hindex
  obtain ⟨i, port, hi, hport, hname, -⟩ := hp.place
  obtain ⟨j, port', hj, hport', hname', -⟩ := hq.place
  obtain rfl : i = j := by omega
  obtain rfl : port = port' := Option.some.inj (hport.symm.trans hport')
  exact hne (hname.symm.trans hname')

theorem PortRecorded.frame (hapart : p.index ≠ q.index) (hq : PortRecorded ports q)
    (h : applyPort ports p = .ok ports') : PortRecorded ports' q := by
  obtain ⟨i, port, hi, -, -, -, -, rfl⟩ := replacePort_eq_ok.mp h
  obtain ⟨j, port', hj, hport', hname, hbefore⟩ := hq.place
  refine ⟨hq.name, j, port', hj, ?_, hname, hbefore⟩
  rw [getElem?_set_ne (by omega), hport']

theorem revertPort_diamond {x y x' y' : List ContainerPort} (hapart : p.index ≠ q.index)
    (hundo : revertPort x p = .ok y) (hx : applyPort x q = .ok x') (hy : applyPort y q = .ok y') :
    revertPort x' p = .ok y' := by
  obtain ⟨i, port, hi, hnames, hport, hname, hafter, rfl⟩ := replacePort_eq_ok.mp hundo
  obtain ⟨j, other, hj, -, hother, -, -, rfl⟩ := replacePort_eq_ok.mp hx
  obtain ⟨j', other', hj', -, hother', -, -, rfl⟩ := replacePort_eq_ok.mp hy
  obtain rfl : j = j' := by omega
  have hij : i ≠ j := by omega
  rw [getElem?_set_ne hij] at hother'
  obtain rfl : other = other' := Option.some.inj (hother.symm.trans hother')
  refine replacePort_eq_ok.mpr ⟨i, port, hi, hnames, ?_, hname, hafter, set_comm _ _ hij⟩
  rw [getElem?_set_ne hij.symm, hport]

/-- **The ports, there and back.** -/
theorem ports_roundTrip {ps : List PortDelta} (h : ∀ p ∈ ps, PortRecorded ports p)
    (hnames : (ps.map PortDelta.name).Nodup) : ∃ ports', ps.foldlM applyPort ports = .ok ports' ∧
      ps.foldlM revertPort ports' = .ok ports := by
  refine Undo.foldlM_undo PortRecorded (fun p q => p.index ≠ q.index) (fun _ _ hp => hp.apply)
    (fun _ _ _ _ hapart _ hq hs => hq.frame hapart hs)
    (fun _ _ _ _ _ _ hapart => revertPort_diamond hapart) ps ports ?_ h
  have hpairwise := pairwise_map.mp (nodup_iff_pairwise_ne.mp hnames)
  exact hpairwise.imp_of_mem fun {p q} hp hq hne => (h p hp).apart (h q hq) hne

end Ports

/-! ## The root volume -/

section Root

variable {volumes volumes' : List Volume}

theorem replaceRoot_eq_ok {old new : Option SecretVolumeSource} :
    replaceRoot H volumes index old new = .ok volumes' ↔
      ∃ (i : ℕ) (v : Volume), index = i ∧ volumes[i]? = some v ∧ v.name = "root-key-source" ∧
        v.secret = old ∧ volumes' = volumes.set i { v with secret := new } := by
  unfold replaceRoot
  constructor
  · intro h
    obtain ⟨hrange, h⟩ := checked h
    obtain ⟨hname, h⟩ := checked h
    obtain ⟨hold, h⟩ := checked h
    obtain ⟨v, hv, hname⟩ := (Option.any_eq_true _ _).mp hname
    obtain ⟨v', hv', hold⟩ := (Option.any_eq_true _ _).mp hold
    obtain rfl : v = v' := Option.some.inj (hv.symm.trans hv')
    exact ⟨index.toNat, v, (Int.toNat_of_nonneg hrange.1).symm, hv, of_decide_eq_true hname,
      H.digest_inj.mp (of_decide_eq_true hold), (Except.ok.inj h).symm.trans (modify_of_getElem? hv)⟩
  · rintro ⟨i, v, rfl, hv, hname, hold, rfl⟩
    have hrange : i < volumes.length := (List.getElem?_eq_some_iff.mp hv).1
    rw [Int.toNat_natCast, ensure_of ⟨Int.natCast_nonneg i, Int.ofNat_lt.mpr hrange⟩,
      hv, Option.any_some, Option.any_some, ensure_of (decide_eq_true hname),
      ensure_of (decide_eq_true (H.digest_inj.mpr hold))]
    exact congrArg Except.ok (modify_of_getElem? hv)

/-- **The root source was recorded from these volumes.** -/
def RootRecorded (volumes : List Volume) (r : RootSourceDelta) : Prop :=
  ∃ (i : ℕ) (v : Volume), r.index = i ∧ volumes[i]? = some v ∧ v.name = "root-key-source" ∧
    v.secret = r.before

/-- **The root volume, there and back.** -/
theorem root_roundTrip {r : Option RootSourceDelta} (h : ∀ d, r = some d → RootRecorded volumes d) :
    ∃ volumes', applyRoot H volumes r = .ok volumes' ∧ revertRoot H volumes' r = .ok volumes := by
  cases r with
  | none => exact ⟨volumes, rfl, rfl⟩
  | some d =>
    obtain ⟨i, v, hi, hv, hname, hbefore⟩ := h d rfl
    obtain ⟨hrange, hget⟩ := List.getElem?_eq_some_iff.mp hv
    refine ⟨_, replaceRoot_eq_ok.mpr ⟨i, v, hi, hv, hname, hbefore, rfl⟩,
      replaceRoot_eq_ok.mpr ⟨i, { v with secret := d.after }, hi, getElem?_set_self hrange,
        hname, rfl, ?_⟩⟩
    have hv' : { v with secret := d.before } = v := by rw [← hbefore]
    rw [set_set]
    show volumes = volumes.set i { v with secret := d.before }
    rw [hv', ← hget, set_getElem_self]

end Root

/-! ## The annotations -/

section Annotations

variable {a a' : Data} {n m : String} {o o' : Option String} {s s' : SourceAliasDelta}

@[simp]
theorem lookup_setAnnotation_self : ( setAnnotation a n o).lookup n = o := by
  cases o with
  | none => exact Finmap.lookup_erase n a
  | some v => exact Finmap.lookup_insert a

theorem lookup_setAnnotation_ne (hne : m ≠ n) : ( setAnnotation a n o).lookup m = a.lookup m := by
  cases o with
  | none => exact Finmap.lookup_erase_ne hne
  | some v => exact Finmap.lookup_insert_of_ne a hne

theorem setAnnotation_lookup (h : a.lookup n = o) : setAnnotation a n o = a := by
  refine Finmap.ext_lookup fun m => ?_
  by_cases hm : m = n
  · rw [hm, lookup_setAnnotation_self, h]
  · rw [lookup_setAnnotation_ne hm]

theorem setAnnotation_setAnnotation :
    setAnnotation ( setAnnotation a n o) n o' = setAnnotation a n o' := by
  refine Finmap.ext_lookup fun m => ?_
  by_cases hm : m = n
  · rw [hm, lookup_setAnnotation_self, lookup_setAnnotation_self]
  · rw [lookup_setAnnotation_ne hm, lookup_setAnnotation_ne hm, lookup_setAnnotation_ne hm]

theorem setAnnotation_comm (hne : n ≠ m) :
    setAnnotation ( setAnnotation a n o) m o' = setAnnotation ( setAnnotation a m o') n o := by
  refine Finmap.ext_lookup fun k => ?_
  by_cases hn : k = n
  · rw [hn, lookup_setAnnotation_ne hne, lookup_setAnnotation_self, lookup_setAnnotation_self]
  · rw [lookup_setAnnotation_ne hn]
    by_cases hm : k = m
    · rw [hm, lookup_setAnnotation_self, lookup_setAnnotation_self]
    · rw [lookup_setAnnotation_ne hm, lookup_setAnnotation_ne hm, lookup_setAnnotation_ne hn]

theorem replaceAlias_eq_ok : replaceAlias H a n o o' = .ok a' ↔
    n ∈ aliasAnnotations ∧ a.lookup n = o ∧ a' = setAnnotation a n o' := by
  unfold replaceAlias
  constructor
  · intro h
    obtain ⟨hname, h⟩ := checked h
    obtain ⟨hold, h⟩ := checked h
    exact ⟨hname, H.digest_inj.mp hold, (Except.ok.inj h).symm⟩
  · rintro ⟨hname, hold, rfl⟩
    rw [ensure_of hname, ensure_of (H.digest_inj.mpr hold)]
    rfl

/-- **The alias was recorded from these annotations.** -/
structure AliasRecorded (a : Data) (s : SourceAliasDelta) : Prop where
  name : s.name ∈ aliasAnnotations
  before : a.lookup s.name = s.before

variable {ss : List SourceAliasDelta}

/-- **The aliases, there and back.** -/
theorem aliases_roundTrip (h : ∀ s ∈ ss, AliasRecorded a s)
    (hnames : (ss.map SourceAliasDelta.name).Nodup) :
    ∃ a', ss.foldlM (applyAlias H) a = .ok a' ∧ ss.foldlM (revertAlias H) a' = .ok a := by
  refine Undo.foldlM_undo AliasRecorded (fun s s' => s.name ≠ s'.name) ?apply ?frame ?diamond
    ss a (pairwise_map.mp (nodup_iff_pairwise_ne.mp hnames)) h
  case apply =>
    intro a s hs
    refine ⟨_, replaceAlias_eq_ok.mpr ⟨hs.name, hs.before, rfl⟩,
      replaceAlias_eq_ok.mpr ⟨hs.name, lookup_setAnnotation_self, ?_⟩⟩
    rw [ setAnnotation_setAnnotation, setAnnotation_lookup hs.before]
  case frame =>
    intro a s s' a' hne _ hs' happly
    obtain ⟨-, -, rfl⟩ := replaceAlias_eq_ok.mp happly
    exact ⟨hs'.name, (lookup_setAnnotation_ne hne.symm).trans hs'.before⟩
  case diamond =>
    intro s s' x y x' y' hne hundo hx hy
    obtain ⟨hname, hafter, rfl⟩ := replaceAlias_eq_ok.mp hundo
    obtain ⟨-, -, rfl⟩ := replaceAlias_eq_ok.mp hx
    obtain ⟨-, -, rfl⟩ := replaceAlias_eq_ok.mp hy
    exact replaceAlias_eq_ok.mpr ⟨hname, (lookup_setAnnotation_ne hne).trans hafter,
      setAnnotation_comm hne⟩

theorem stampAnnotation_not_mem : stampAnnotation ∉ aliasAnnotations := by decide

theorem replaceAlias_setStamp (h : replaceAlias H a n o o' = .ok a') (t : Option String) :
    replaceAlias H (setStamp a t) n o o' = .ok (setStamp a' t) := by
  obtain ⟨hname, hold, rfl⟩ := replaceAlias_eq_ok.mp h
  have hne : n ≠ stampAnnotation := fun h => stampAnnotation_not_mem (h ▸ hname)
  exact replaceAlias_eq_ok.mpr ⟨hname, (lookup_setAnnotation_ne hne).trans hold,
    setAnnotation_comm hne⟩

/-- The stamp is none of the aliases: edits of aliases do not see it. -/
theorem foldlM_setStamp {edit : Data → SourceAliasDelta → Except RolloutError Data}
    (hedit : ∀ a s a' t, edit a s = .ok a' → edit (setStamp a t) s = .ok (setStamp a' t))
    (h : ss.foldlM edit a = .ok a') (t : Option String) :
    ss.foldlM edit (setStamp a t) = .ok (setStamp a' t) := by
  induction ss generalizing a with
  | nil =>
    cases h
    rfl
  | cons s ss ih =>
    rw [foldlM_cons] at h ⊢
    obtain ⟨a₁, ha₁, h⟩ := bind_ok h
    rw [hedit a s a₁ t ha₁]
    exact ih h

theorem applyAlias_setStamp (h : ss.foldlM (applyAlias H) a = .ok a')
    (t : Option String) : ss.foldlM (applyAlias H) (setStamp a t) = .ok (setStamp a' t) := by
  refine foldlM_setStamp (fun a s a' t h => ?_) h t
  exact replaceAlias_setStamp h t

theorem revertAlias_setStamp (h : ss.foldlM (revertAlias H) a = .ok a') (t : Option String) :
    ss.foldlM (revertAlias H) (setStamp a t) = .ok (setStamp a' t) := by
  refine foldlM_setStamp (fun a s a' t h => ?_) h t
  exact replaceAlias_setStamp h t

end Annotations

/-! ## The container -/

section Container

variable {spec : DeploymentSpec} {c c' : Container} {name : String}

theorem putContainer_eq (c : Container) (cs : List Container) :
    putContainer c cs = List.replaceKey Container.name c.name [c] cs := by
  induction cs with
  | nil => rfl
  | cons d cs ih => rw [putContainer, List.replaceKey, ih, singleton_append]

theorem name_of_container (h : container spec name = some c) : c.name = name :=
  of_decide_eq_true (find?_some h :)

theorem container_setContainer (h : container spec name = some c) (hc' : c'.name = name) :
    container (spec.setContainer c') name = some c' := by
  show (putContainer c' spec.template.containers).find? (fun c => c.name = name) = some c'
  rw [putContainer_eq, hc']
  exact find?_replaceKey_self hc' ⟨c, mem_of_find?_eq_some h, name_of_container h⟩

theorem setContainer_setContainer (h : container spec name = some c) (hc' : c'.name = name) :
    (spec.setContainer c').setContainer c = spec := by
  have hname := name_of_container h
  have hcontainers :
      putContainer c (putContainer c' spec.template.containers) = spec.template.containers := by
    rw [putContainer_eq, putContainer_eq, hname, hc', List.replaceKey_replaceKey hc',
      List.replaceKey_self h]
  unfold DeploymentSpec.setContainer
  dsimp only
  rw [hcontainers]

end Container

/-! ## The whole delta -/

/-- **The delta was recorded from this container of this specification.** Each part is there
as the delta says it was, and no two parts are the same one. -/
structure Recorded (spec : DeploymentSpec) (c : Container) (delta : DeploymentDelta) : Prop where
  environment : ∀ e ∈ delta.environment, EnvRecorded c.env e
  environmentNames : (delta.environment.map EnvDelta.name).Nodup
  arguments : ∀ a ∈ delta.arguments, ArgRecorded c.args a
  argumentFlags : (delta.arguments.map ArgDelta.flag).Nodup
  ports : ∀ p ∈ delta.ports, PortRecorded c.ports p
  portNames : (delta.ports.map PortDelta.name).Nodup
  beforeStamp : annotation spec.template.annotations = delta.beforeStamp
  rootSource : ∀ r, delta.rootSource = some r → RootRecorded spec.template.volumes r
  sourceAliases : ∀ s ∈ delta.sourceAliases, AliasRecorded spec.template.annotations s
  aliasNames : (delta.sourceAliases.map SourceAliasDelta.name).Nodup

/-- **A recorded delta applies, and it can be taken back.** -/
theorem applyDelta_of_recorded {spec : DeploymentSpec} {c : Container}
    {delta : DeploymentDelta} (hc : container spec name = some c) (h : Recorded spec c delta)
    (stamp : Option String) : ∃ spec', applyDelta H spec name delta stamp = .ok spec' ∧
      revertDelta H spec' name delta = .ok spec := by
  obtain ⟨env, henv, henv'⟩ := environment_roundTrip (H := H) h.environment h.environmentNames
  obtain ⟨args, hargs, hargs'⟩ := arguments_roundTrip h.arguments h.argumentFlags
  obtain ⟨ports, hports, hports'⟩ := ports_roundTrip h.ports h.portNames
  obtain ⟨volumes, hvolumes, hvolumes'⟩ := root_roundTrip (H := H) h.rootSource
  obtain ⟨aliases, haliases, haliases'⟩ := aliases_roundTrip (H := H) h.sourceAliases h.aliasNames
  let c' : Container := { c with env := env, args := args, ports := ports }
  have hname : c'.name = name := (name_of_container hc :)
  refine ⟨((spec.setContainer c').setVolumes volumes).setAnnotations (setStamp aliases stamp),
    ?_, ?_⟩
  · unfold applyDelta
    rw [hc]
    dsimp only
    rw [henv, hargs, hports]
    show (applyRoot H spec.template.volumes delta.rootSource >>= _) = _
    rw [hvolumes]
    show (delta.sourceAliases.foldlM (applyAlias H) (setStamp spec.template.annotations stamp) >>=
      _) = _
    rw [applyAlias_setStamp haliases]
    rfl
  · unfold revertDelta
    have hc' : container (((spec.setContainer c').setVolumes volumes).setAnnotations
        (setStamp aliases stamp)) name = some c' := container_setContainer hc hname
    rw [hc']
    dsimp only
    rw [henv', hargs', hports']
    show (revertRoot H volumes delta.rootSource >>= _) = _
    rw [hvolumes']
    show (delta.sourceAliases.foldlM (revertAlias H)
      (setStamp (setStamp aliases stamp) delta.beforeStamp) >>= _) = _
    have hstamp : setStamp spec.template.annotations delta.beforeStamp =
        spec.template.annotations := setAnnotation_lookup h.beforeStamp
    rw [show setStamp (setStamp aliases stamp) delta.beforeStamp =
      setStamp aliases delta.beforeStamp from setAnnotation_setAnnotation,
      revertAlias_setStamp haliases', hstamp]
    have hback := setContainer_setContainer hc hname
    exact congrArg Except.ok hback

end Hikyo.Rollout
