import Hikyo.Rollout.CommandOrder

/-!
# Can a prepared plan be submitted?

A plan is recorded and authorized before it is submitted, and its submission begins with
`validPlan`. The two read the container differently. Preparation takes the argument behind a
flag, and the number of a port, as they stand; the validity of a plan asks that such an
argument is not empty and has no control character, and that the number is one of a port.
`Movable` says that the container is as validity wants it, for one variable, and
`validPlan_iff_movable` that nothing else is between a plan and its submission.
-/

namespace Hikyo.Rollout

open List
open Tx (bind_ok skip checked)

/-- What follows the flag is a value that a plan may take the place of. -/
def Container.FlagMovable (c : Container) (flag : String) : Prop :=
  ∀ (i : ℕ) value, c.args[i]? = some flag → c.args[i + 1]? = some value →
    value ≠ "" ∧ containsControl value = false

/-- The ports of the name have the numbers of ports. -/
def Container.PortMovable (c : Container) (name : String) : Prop :=
  ∀ p ∈ c.ports, p.name = name → 1 ≤ p.containerPort ∧ p.containerPort ≤ 65535

/-- **What validity asks of the container** before it lets a plan change the variable. -/
def Movable (c : Container) (v : String) : Prop :=
  (∀ flag, variableFlag v = some flag → c.FlagMovable flag) ∧
    ∀ name, listenerPort v = some name → c.PortMovable name

variable {P : Platform} {t : Target} {cl : Cluster} {c : Container} {v value : String}
  {values : List (String × String)}

/-! ## One change -/

/-- What is found somewhere is in what is found. -/
theorem mem_of_filter_zipIdx {α : Type} {l : List α} {p : α × ℕ → Bool} {m : List (α × ℕ)} {a : α}
    {i : ℕ} (h : l.zipIdx.filter p = m) (hi : l[i]? = some a) (hp : p (a, i) = true) :
    (a, i) ∈ m := by
  rw [← h]
  exact mem_filter.mpr ⟨List.mk_mem_zipIdx_iff_getElem?.mpr hi, hp⟩

section Change

variable {x : String} (hvars : (values.map Prod.fst).Nodup) (hmem : (v, value) ∈ values)

include hvars hmem

/-- The value of the variable that a name belongs to. -/
theorem find?_value {f : String → Option String} (hf : ∀ {v w}, f v = some x → f w = some x → v = w)
    (hv : f v = some x) : values.find? (fun q => f q.1 = some x) = some (v, value) := by
  have hsome : (values.find? fun q => f q.1 = some x).isSome :=
    find?_isSome.mpr ⟨_, hmem, decide_eq_true hv⟩
  obtain ⟨q, hq⟩ := Option.isSome_iff_exists.mp hsome
  have hfst : q.1 = v := hf (of_decide_eq_true (find?_some hq :)) hv
  rw [hq, inj_on_of_nodup_map hvars (mem_of_find?_eq_some hq) hmem hfst]

variable {as : List ArgDelta}

theorem argumentDelta_valid (hflag : variableFlag v = some x)
    (h : argumentDelta c x value = .ok as) :
    (∀ a ∈ as, validArgument values a = true) ↔ c.FlagMovable x := by
  have hvalid : ∀ {a : ArgDelta}, a.flag = x → validArgument values a =
      if a.after = value then a.before ≠ "" && hasPrefix a.before "-" = false &&
        containsControl a.before = false
      else a.after = a.flag ++ "=" ++ value && hasPrefix a.before (a.flag ++ "=") := by
    rintro a rfl
    have hfind := find?_value hvars hmem variableFlag_inj hflag
    unfold validArgument
    rw [show values.find? _ = _ from hfind]
  unfold argumentDelta at h
  split at h
  next hnil =>
    cases h
    exact iff_of_true (fun a ha => (not_mem_nil ha).elim) fun i next hi =>
      (not_mem_nil (mem_of_filter_zipIdx hnil hi (by simp))).elim
  next arg i hone =>
    obtain ⟨hget, hprefix⟩ := getElem?_of_filter_zipIdx hone
    split at h
    next harg =>
      subst harg
      split at h
      next => cases h
      next next hnext =>
        split at h
        next => cases h
        next hdash =>
          cases h
          rw [forall_mem_singleton, hvalid rfl, if_pos rfl, Bool.eq_false_iff.mpr hdash]
          constructor
          · intro hok j next' hj hnext'
            have hin := mem_singleton.mp (mem_of_filter_zipIdx hone hj (by simp))
            obtain rfl := (Prod.mk.inj hin).2
            obtain rfl := Option.some.inj (hnext.symm.trans hnext')
            simpa using hok
          · intro hall
            simpa using hall i next hget hnext
    next harg =>
      cases h
      refine iff_of_true (fun a ha => ?_) fun j next hj => ?_
      · obtain rfl := mem_singleton.mp ha
        have hne : x ++ "=" ++ value ≠ value := fun heq => by
          have hlength := congrArg String.length heq
          simp [String.length_append] at hlength
        rw [hvalid rfl, if_neg hne]
        simpa [harg] using hprefix
      · have hin := mem_singleton.mp (mem_of_filter_zipIdx hone hj (by simp))
        exact absurd (Prod.mk.inj hin).1.symm harg
  next => cases h

variable {ps : List PortDelta}

theorem listenerDelta_valid (hport : listenerPort v = some x)
    (h : listenerDelta P c x value = .ok ps) :
    (∀ p ∈ ps, validPort P values p = true) ↔ c.PortMovable x := by
  have hfind := find?_value hvars hmem listenerPort_inj hport
  unfold listenerDelta at h
  split at h
  next p i hone =>
    replace h := skip h
    cases h
    obtain ⟨hget, hp⟩ := getElem?_of_filter_zipIdx hone
    have hvalid : validPort P values ⟨x, i, p.containerPort, portNumber P value⟩ =
        (1 ≤ p.containerPort && p.containerPort ≤ 65535 : Bool) := by
      unfold validPort
      rw [show values.find? _ = _ from hfind]
      simp
    rw [forall_mem_singleton, hvalid]
    constructor
    · intro hok q hq hname
      obtain ⟨j, hj⟩ := mem_iff_getElem?.mp hq
      have hin := mem_singleton.mp (mem_of_filter_zipIdx hone hj (decide_eq_true hname))
      obtain rfl := (Prod.mk.inj hin).1
      simpa using hok
    · intro hall
      simpa using hall p (mem_of_getElem? hget) (of_decide_eq_true hp)
  next => cases h

/-- **A change is valid exactly if the container lets it be made.** -/
theorem change_valid
    (has : changeArguments c v value = .ok as) (hps : changePorts P c v value = .ok ps) :
    (∀ a ∈ as, validArgument values a = true) ∧ (∀ p ∈ ps, validPort P values p = true) ↔
      Movable c v := by
  refine and_congr ?_ ?_
  · unfold changeArguments at has
    cases hflag : variableFlag v with
    | none =>
      rw [hflag] at has
      cases has
      simp
    | some flag =>
      rw [hflag] at has
      simp [argumentDelta_valid hvars hmem hflag has]
  · unfold changePorts at hps
    cases hport : listenerPort v with
    | none =>
      rw [hport] at hps
      cases hps
      simp
    | some port =>
      rw [hport] at hps
      simp [listenerDelta_valid hvars hmem hport hps]

end Change

/-! ## All changes -/

variable {previous : Option String} {changes : List Change}

theorem prepareChanges_valid {p p' : PlanData}
    (h : prepareChanges P t c previous changes p = .ok p')
    (hprevious : ∀ v, previous = some v → ∀ change ∈ changes, v < change.var)
    (hstrict : changes.Pairwise fun a b => a.var < b.var) :
    ∃ values es as ps, validChanges P t p.replicas previous changes es = some values ∧
      values.map Prod.fst = changes.map Change.var ∧
      p' = { p with
        configAfter := values.foldl (fun m (v, value) => m.insert v value) p.configAfter
        delta := { p.delta with
          environment := p.delta.environment ++ es
          arguments := p.delta.arguments ++ as
          ports := p.delta.ports ++ ps } } ∧
      ∀ V, (V.map Prod.fst).Nodup → values ⊆ V →
        ((∀ a ∈ as, validArgument V a = true) ∧ (∀ q ∈ ps, validPort P V q = true) ↔
          ∀ change ∈ changes, Movable c change.var) := by
  induction changes generalizing previous p with
  | nil =>
    cases h
    refine ⟨[], [], [], [], rfl, rfl, ?_, by simp⟩
    simp
  | cons change rest ih =>
    unfold prepareChanges at h
    replace h := skip h
    obtain ⟨p₁, hp₁, h⟩ := bind_ok h
    obtain ⟨value, e, args, ports, hvalue, he, hargs, hports, rfl⟩ := prepareChange_eq_ok hp₁
    obtain ⟨hfirst, hstrict⟩ := pairwise_cons.mp hstrict
    obtain ⟨values, es, as, ps, hvalid, hvars, rfl, hmovable⟩ :=
      ih h (fun v hv => Option.some.inj hv ▸ hfirst) hstrict
    obtain ⟨hrecorded, hname, hafter⟩ := envDelta_eq_ok he
    refine ⟨(change.var, value) :: values, e :: es, args ++ as, ports ++ ps, ?_, ?_, ?_, ?_⟩
    · have hbefore : e.before.all (fun v => v.name = e.name) = true :=
        (Option.all_eq_true _ _).mpr fun b hb => decide_eq_true (hrecorded.named.2 b hb)
      have hlt : previous.all (fun v => v < change.var) = true :=
        (Option.all_eq_true _ _).mpr fun v hv => decide_eq_true (hprevious v hv _ mem_cons_self)
      unfold validChanges
      rw [hvalue, hafter, hbefore, hlt, hname]
      simp [hvalid, configEnv]
    · rw [map_cons, map_cons, hvars]
    · simp
    · intro V hV hsub
      obtain ⟨hmem, hsub⟩ := cons_subset.mp hsub
      rw [forall_mem_append, forall_mem_append, forall_mem_cons,
        ← change_valid hV hmem hargs hports, ← hmovable V hV hsub]
      tauto

/-- The places of a recorded delta are places, and no two are the same. -/
theorem Recorded.places {spec : DeploymentSpec} {δ : DeploymentDelta} (h : Recorded spec c δ) :
    ((∀ a ∈ δ.arguments, 0 ≤ a.index) ∧ ∀ q ∈ δ.ports, 0 ≤ q.index) ∧
      (δ.arguments.map ArgDelta.index).Nodup ∧ (δ.ports.map PortDelta.index).Nodup := by
  have hflags := pairwise_map.mp (nodup_iff_pairwise_ne.mp h.argumentFlags)
  have hnames := pairwise_map.mp (nodup_iff_pairwise_ne.mp h.portNames)
  refine ⟨⟨fun a ha => ?_, fun q hq => ?_⟩, pairwise_map.mpr (hflags.imp_of_mem ?_),
    pairwise_map.mpr (hnames.imp_of_mem ?_)⟩
  · obtain ⟨i, hi, -⟩ := (h.arguments a ha).place
    omega
  · obtain ⟨i, _, hi, -⟩ := (h.ports q hq).place
    omega
  · exact fun ha hb hne => ((h.arguments _ ha).apart (h.arguments _ hb) hne).1
  · exact fun hp hq hne => (h.ports _ hp).apart (h.ports _ hq) hne

/-- The flags, or the ports, that values belong to are those of the changes. -/
theorem length_values (hvars : values.map Prod.fst = changes.map Change.var)
    (f : String → Option String) : (values.filter fun q => (f q.1).isSome).length =
      (changes.filterMap fun change => f change.var).length := by
  have hmap := congrArg (fun l => (l.filterMap f).length) hvars
  rw [filterMap_map, filterMap_map] at hmap
  rw [← countP_eq_length_filter]
  exact length_filterMap_eq_countP.symm.trans hmap

variable {d : Deployment} {s : Secrets} {intent : Intent} {r : Record}

/-- **A prepared plan is valid exactly if the container lets its changes be made.** -/
theorem validPlan_iff_movable (hget : get t cl = .ok (d, s))
    (hc : container d.spec t.container = some c)
    (h : prepare P t intent changes none none cl = .ok r) :
    validPlan P t r.plan = true ↔ ∀ change ∈ changes, Movable c change.var := by
  obtain ⟨hp⟩ := prepare_eq_ok h
  obtain ⟨rfl, rfl⟩ := Prod.mk.inj (Except.ok.inj (hp.got.symm.trans hget))
  obtain rfl := Option.some.inj (hp.found.symm.trans hc)
  -- what `prepare` checks before it plans
  obtain ⟨⟨-, hsome, hlength⟩, h⟩ := checked h
  obtain ⟨⟨d, s⟩, hgot, h⟩ := bind_ok h
  obtain ⟨rfl, rfl⟩ := Prod.mk.inj (Except.ok.inj (hp.got.symm.trans hgot))
  obtain ⟨hallowed, -⟩ := checked h
  have hreplicas : 1 ≤ hp.deployment.spec.replicas.getD 1 := by
    obtain ⟨-, -, -, -, hone | hone, -⟩ := get_eq_ok hgot <;> rw [hone] <;> decide
  -- what it plans
  obtain ⟨p, hchanges, hplanned⟩ := bind_ok hp.planned
  obtain ⟨hprevious, hstrict⟩ := prepareChanges_nodup hchanges (changes_sorted changes) nofun
  obtain ⟨_, _, _, hnames, -, hdelta⟩ := prepareChanges_recorded hchanges
  obtain ⟨values, es, as, ps, hvalid, hvars, rfl, hmovable⟩ :=
    prepareChanges_valid hchanges hprevious hstrict
  obtain ⟨rfl, rfl, rfl, -⟩ := DeploymentDelta.mk.inj hdelta
  have hdeltas := (Except.ok.inj (show Except.ok _ = .ok hp.deltas from hplanned)).symm
  have hrecorded : Recorded _ _ ⟨es, as, ps, _, none, []⟩ := hdeltas ▸ hp.recorded
  obtain ⟨⟨hindex, hportIndex⟩, hindices, hportIndices⟩ := hrecorded.places
  have hmem : ∀ change, change ∈ changes.insertionSort (fun a b => a.var ≤ b.var) ↔
      change ∈ changes := fun change => mem_insertionSort _
  have hsize : (changes.insertionSort fun a b => a.var ≤ b.var).length = changes.length :=
    length_insertionSort _ _
  generalize (changes.insertionSort fun a b => a.var ≤ b.var) = sorted at *
  have hnames : ChangesRecorded _ sorted es as ps := hnames
  have hvars : values.map Prod.fst = sorted.map Change.var := hvars
  have hvalid : validChanges P t (hp.deployment.spec.replicas.getD 1) none sorted es =
    some values := hvalid
  have hnodup : (values.map Prod.fst).Nodup := by
    rw [hvars, nodup_iff_pairwise_ne, pairwise_map]
    exact hstrict.imp fun hlt => ne_of_lt hlt
  have henvironment : es.length = sorted.length := by
    simpa using congrArg length hnames.environmentNames
  have harguments := hnames.argumentFlags.length_le
  have hports := congrArg length hnames.portNames
  rw [length_map] at harguments hports
  have hne : sorted ≠ [] := fun hnil => by
    rw [hnil] at hsize
    exact hsome ⟨length_eq_zero_iff.mp hsize.symm, rfl, rfl⟩
  obtain ⟨hbootstrap, htopology, hintent, hmetadata, htarget, hcount, hplan, hbefore, hafter,
      hdelta⟩ : r.plan.bootstrap = none ∧ r.plan.topology = none ∧ r.plan.intent = intent ∧
      r.plan.beforeMetadataDigest = P.digest (hp.deployment.uid, hp.deployment.metadata) ∧
      r.plan.targetDigest = P.digest t ∧ r.plan.replicas = hp.deployment.spec.replicas.getD 1 ∧
      r.plan.changes = sorted ∧ r.plan.configBefore = hp.secrets.config.content.data ∧
      r.plan.configAfter = values.foldl _ hp.secrets.config.content.data ∧
      r.plan.delta = ⟨es, as, ps, _, none, []⟩ := by
    rw [hp.plan_eq, hdeltas]
    exact ⟨rfl, rfl, rfl, rfl, rfl, rfl, rfl, rfl, rfl, rfl⟩
  have hkey : _ ↔ ∀ change ∈ sorted, _ := hmovable values hnodup (Subset.refl _)
  simp only [hmem] at hkey
  rw [← hkey]
  simp only [validPlan, validBootstrapDelta, validBootstrap, validSourceDelta, hbootstrap,
    htopology, hintent, hmetadata, htarget, hcount, hplan, hbefore, hafter, hdelta]
  simp [hp.validIntent, hvalid, hreplicas, hne, hsize, hlength, henvironment, length_values hvars,
    hports, harguments, hindices, hportIndices, hrecorded.argumentFlags, hrecorded.portNames]
  constructor
  · rintro ⟨-, has, hps⟩
    exact ⟨fun a ha => (has a ha).2, fun q hq => (hps q hq).2⟩
  · rintro ⟨has, hps⟩
    exact ⟨hallowed, fun a ha => ⟨hindex a ha, has a ha⟩, fun q hq => ⟨hportIndex q hq, hps q hq⟩⟩

/-- **A prepared plan can be submitted exactly if the container lets its changes be made.** What is
stored of the plan is read back as it was, with the digest that was authorized. -/
theorem prepared_submittable_iff (hget : get t cl = .ok (d, s))
    (hc : container d.spec t.container = some c)
    (h : prepare P t intent changes none none cl = .ok r) :
    (validPlan P t r.plan = true ↔ ∀ change ∈ changes, Movable c change.var) ∧
      (slotOf P r).decode = some r ∧ P.digest r.plan = r.digest := by
  obtain ⟨hp⟩ := prepare_eq_ok h
  refine ⟨validPlan_iff_movable hget hc h, ?_, hp.digest_eq.symm⟩
  rw [show slotOf P r = .stored r from if_pos hp.fits]
  rfl

/-! ### In the plain installation -/

def plainIntent (job : String) : Intent := ⟨job, "o", "i", "s", 1, 1, 1, 2⟩

def plainChange : Change := ⟨postgresPoolMax, "20"⟩

/-- No argument and no port goes with the change. -/
theorem movable_plain : ∀ change ∈ [plainChange], Movable c change.var :=
  forall_mem_singleton.mpr ⟨nofun, nofun⟩

theorem exists_of_isOk {x : Except RolloutError Record} {p : Record → Prop} (hx : x.isOk = true)
    (hp : ∀ r, x = .ok r → p r) : ∃ r, x = .ok r ∧ p r := by
  cases x with
  | error => cases hx
  | ok r => exact ⟨r, rfl, hp r rfl⟩

theorem prepared_submittable_plain : ∃ r, prepare plainSetting.toPlatform plainTarget
    (plainIntent "job") [plainChange] none none plainCluster = .ok r ∧
      validPlan plainSetting.toPlatform plainTarget r.plan = true :=
  exists_of_isOk rfl fun _ hr => (prepared_submittable_iff rfl rfl hr).1.mpr movable_plain

/-- The plain installation with a certificate, whose flag has an empty argument. -/
def certificateTarget : Target :=
  { plainTarget with
    sources := Finmap.singleton tlsCertificateFile (Finmap.singleton "live" "/tls.pem") }

def certificateCluster : Cluster :=
  { plainCluster with
    deployment := plainCluster.deployment.map fun d =>
      { d with
        spec := d.spec.setContainer ⟨"server", [⟨nodeIDVariable, "node", none⟩],
          ["--tls-cert-file", ""], [], none, none, none, ""⟩ } }

/-- **An empty argument is planned to be replaced, and then the plan is refused.** -/
theorem empty_argument_refused : ∃ r, prepare plainSetting.toPlatform certificateTarget
    (plainIntent "job") [⟨tlsCertificateFile, "live"⟩] none none certificateCluster = .ok r ∧
      ¬ validPlan plainSetting.toPlatform certificateTarget r.plan = true := by
  refine exists_of_isOk rfl fun r hr hvalid => ?_
  have hmovable := (validPlan_iff_movable rfl rfl hr).mp hvalid _ mem_cons_self
  exact (hmovable.1 _ rfl 0 "" rfl rfl).1 rfl

end Hikyo.Rollout
