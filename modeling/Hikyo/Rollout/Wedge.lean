import Hikyo.Rollout.CommandOrder
import Hikyo.Rollout.Refusals

/-!
# Can the controller always go on?

An accepted command that has no response yet is finished before any other is accepted; only a
restore overtakes it, and a restore needs a plan. So an accepted *prepare* command, which has no
plan yet, can be overtaken by nothing. A conflict is no answer: it is retried. If the Deployment
has drifted away from what the command was made for, every retry conflicts and the controller
accepts nothing any more (`stuck_keeps`).

`NotWedged` says that there is a way on: nothing is accepted, or the response is
there, or one more pass gives it, or some signed command can be accepted.
`never_wedges` proves it for every state that is reached by steps that keep the
Deployment in agreement with a prepare command from before its acceptance to its
response (`Agrees`), and that accept no command whose journal entry is too large to be
read back or whose sequence number is the last one.
-/

namespace Hikyo.Rollout

open Tx (ensure ensure_of skip except_bind_eq_ok ensured checked)

/-! ## Passes and the way on -/

/-- A call that succeeds, at a time and over the contents of the mailbox. -/
def fairChoice (mailbox : Slot SignedCommand) (now : ℤ) : Choice := ⟨none, .ok, mailbox, now, none⟩

section NotWedged

variable (W : Setting) (e : Enrollment) (keys : PublicKeys)

section

variable (now : ℤ) (s : ControlState)

/-- **A pass whose calls all succeed.** -/
def fairPass (mailbox : Slot SignedCommand) (now : ℤ) (s : ControlState) : ControlState :=
  (Prog.eval (execControl W e.target) (fairChoice mailbox now) (reconcile W e keys).run s).2

/-- One more pass journals a response to the accepted command. -/
def Responds (j : Journal) : Prop :=
  ∃ mailbox j', (fairPass W e keys mailbox now s).journal.secret.content.journal = .stored j' ∧
    j'.accepted = j.accepted ∧ j'.response.isSome = true

/-- A validly signed, unexpired command with a higher sequence number would be accepted. -/
def Admits (j : Journal) : Prop :=
  ∃ signed j', verifyCommand W.toPlatform W.scheme e keys signed = true ∧
    signed.command.issuedAt ≤ now ∧ now < signed.command.expiresAt ∧
    j.accepted.command.sequence < signed.command.sequence ∧
    (fairPass W e keys (.stored signed) now s).journal.secret.content.journal = .stored j' ∧
    j'.accepted = signed

/-- **There is a way on.** -/
def NotWedged : Prop :=
  s.journal.secret.content.journal = .absent ∨
    ∃ j, s.journal.secret.content.journal = .stored j ∧
      (j.response.isSome = true ∨ Responds W e keys now s j ∨ Admits W e keys now s j)

/-- What happens to a controller with a fixed enrollment. -/
inductive PassOp where
  /-- a pass over one content of the mailbox; it stops where the choices end -/
  | pass (mailbox : Slot SignedCommand) (choices : List Choice)
  /-- a restart, with the check that it makes -/
  | restart (choices : List Choice)
  /-- somebody edits the Deployment -/
  | edit (d : Option Deployment)

def passStep : PassOp → ControlState
  | .pass mailbox choices =>
    (Prog.run (execControl W e.target) (reconcile W e keys).run
      (choices.map fun x => { x with mailbox := mailbox }) s).2
  | .restart choices =>
    (Prog.run (execControl W e.target) (reconcileTrust W e keys).run choices s).2
  | .edit d => { s with cluster := { s.cluster with deployment := d } }

end

end NotWedged

/-! ## The condition -/

/-- The Deployment is there and what the command was made for. -/
def AgreesWith (t : Target) (command : Command) (d : Option Deployment) : Prop :=
  ∃ d', d = some d' ∧ Agrees t command d'

/-- A prepare command that waits for its plan: the accepted one, or the one in the mailbox. -/
def Awaited (s : ControlState) (mailbox : Slot SignedCommand) (command : Command) : Prop :=
  command.action = .prepare ∧
    ((∃ j, s.journal.secret.content.journal = .stored j ∧ j.response = none ∧
        j.accepted.command = command) ∨
      ∃ signed, mailbox = .stored signed ∧ signed.command = command)

/-- Whoever edits the Deployment during the call leaves it in `A`. -/
structure Choice.EditsTo (A : Option Deployment → Prop) (x : Choice) : Prop where
  edit : ∀ d, x.edit = some d → A d
  calls : ∀ calls, x.calls = some calls → ∀ y ∈ calls, ∀ d, y.1 = some d → A d

/-- The journal that holds a command once it is accepted. -/
def journalOf (s : ControlState) (signed : SignedCommand) : Journal :=
  ⟨signed, if signed.command.action = .prepare then none
    else s.journal.secret.content.journal.decode.bind Journal.plan, none⟩

/-- **The condition on a step.** A command that comes through the mailbox has not the last
sequence number, and its journal can be read back. While a prepare command waits for its
plan, the Deployment agrees with it, whoever edits it. -/
def Steady (W : Setting) (t : Target) (s : ControlState) : PassOp → Prop
  | .pass mailbox choices =>
    (∀ signed, mailbox = .stored signed → signed.command.sequence ≠ 18446744073709551615 ∧
      W.journalFits (journalOf s signed) = true) ∧
    ∀ command, Awaited s mailbox command → AgreesWith t command s.cluster.deployment ∧
      ∀ x ∈ choices, x.EditsTo (AgreesWith t command)
  | .restart choices => ∀ command, Awaited s .absent command →
      ∀ x ∈ choices, x.EditsTo (AgreesWith t command)
  | .edit d => ∀ command, Awaited s .absent command → AgreesWith t command d

/-! ## The invariant -/

section Sound

variable (W : Setting) (e : Enrollment) (keys : PublicKeys)

/-- The journal Secret is the enrolled one. -/
structure Fixed (j : JournalSecret) : Prop where
  name : j.name = e.journalSecret
  uid : j.secret.uid = e.journalSecretUID
  mutable : j.secret.immutable = false

/-- The recorded floor lets the enrollment through. -/
def Trusted (trust : Slot Authority) : Prop :=
  ∃ recorded, parseTrustRecord W.scheme trust = .ok recorded ∧
    checkFloor recorded e.authority = .ok ()

/-- A journal that can be taken up: it is read back, and what it has accepted can be carried
out or overtaken. -/
structure Ready (j : Journal) : Prop where
  fits : W.journalFits j = true
  anchored : anchored W.toPlatform W.scheme e keys j.accepted = true
  sequence : j.accepted.command.sequence ≠ 18446744073709551615
  about : j.accepted.command.action ≠ .prepare → ∃ r, j.plan = some r ∧
    r.digest = j.accepted.command.planDigest ∧ r.plan.intent = j.accepted.command.intent

/-- **The journal is empty, or complete, or can be taken up** on a Deployment that agrees with
it. -/
def Sound (s : ControlState) : Prop :=
  s.journal.secret.content.journal = .absent ∨
    ∃ j, s.journal.secret.content.journal = .stored j ∧ Fixed e s.journal ∧ Trusted W e s.trust ∧
      (j.response = none → Ready W e keys j ∧
        (j.accepted.command.action = .prepare →
          AgreesWith e.target j.accepted.command s.cluster.deployment))

/-- The states in which the command of `j` is carried out. -/
structure Held (j : Journal) (s : ControlState) : Prop where
  fixed : Fixed e s.journal
  trusted : Trusted W e s.trust
  journal : ∃ j', s.journal.secret.content.journal = .stored j' ∧ j'.accepted = j.accepted ∧
    (j' = j ∨ j'.response.isSome = true)
  agrees : j.accepted.command.action = .prepare →
    AgreesWith e.target j.accepted.command s.cluster.deployment

end Sound

variable {W : Setting} {e : Enrollment} {keys : PublicKeys} {s : ControlState} {j : Journal}

theorem Held.sound (h : Held W e j s) (hready : j.response = none → Ready W e keys j) :
    Sound W e keys s := by
  obtain ⟨j', hj', haccepted, hcases⟩ := h.journal
  refine .inr ⟨j', hj', h.fixed, h.trusted, fun hnone => ?_⟩
  rcases hcases with rfl | hsome
  · exact ⟨hready hnone, h.agrees⟩
  · rw [hnone] at hsome
    cases hsome

variable {x : Choice}

variable {A : Option Deployment → Prop} {cl : Cluster}

theorem EditsTo.edited
    (hx : x.EditsTo A) (h : A cl.deployment) : A (cl.edited x.edit).deployment := by
  cases hedit : x.edit with
  | none => exact h
  | some d => exact hx.edit d hedit

/-- The Deployment moves and nothing else. -/
theorem Held.drift {s' : ControlState} (h : Held W e j s) (hjournal : s'.journal = s.journal)
    (hagrees : j.accepted.command.action = .prepare →
      AgreesWith e.target j.accepted.command s'.cluster.deployment) : Held W e j s' where
  fixed := hjournal ▸ h.fixed
  trusted := by
    have htrust : s'.trust = s.trust := by
      unfold ControlState.trust
      rw [hjournal]
    exact htrust ▸ h.trusted
  journal := hjournal ▸ h.journal
  agrees := hagrees

/-! ## Carrying a command out -/

/-- The choices under which a prepare command keeps its Deployment. -/
def Keeping (t : Target) (command : Command) (ok : Choice → Prop) : Prop :=
  command.action = .prepare → ∀ x, ok x → x.EditsTo (AgreesWith t command)

variable {ok : Choice → Prop}

theorem Held.edited (h : Held W e j s) (hok : Keeping e.target j.accepted.command ok) (hx : ok x) :
    Held W e j { s with cluster := s.cluster.edited x.edit } :=
  h.drift rfl fun haction => EditsTo.edited (hok haction x hx) (h.agrees haction)

/-- The journal is written with a response. -/
theorem Held.putJournal {j' : Journal} (h : Held W e j s)
    (hok : Keeping e.target j.accepted.command ok) (hx : ok x) (haccepted : j'.accepted = j.accepted)
    (hresponse : j'.response.isSome = true) :
    Held W e j (execControl W e.target (.putJournal { s.journal.secret with content :=
      { s.journal.secret.content with journal := .stored j' } }) x s).2 := by
  have hedited := h.edited hok hx
  rcases putSecret_cases s.journal.secret { s.journal.secret with content :=
      { s.journal.secret.content with journal := .stored j' } } x.reply with
    ⟨hkeep, -, -⟩ | ⟨hput, -, -, -⟩
  · exact hedited.drift (congrArg (JournalSecret.mk s.journal.name) hkeep) hedited.agrees
  · refine ⟨⟨h.fixed.name, ?_, ?_⟩, ?_, ⟨j', ?_, haccepted, .inr hresponse⟩, hedited.agrees⟩
    · exact (congrArg Secret.uid hput).trans h.fixed.uid
    · exact (congrArg Secret.immutable hput).trans h.fixed.mutable
    · have htrust : (execControl W e.target (.putJournal { s.journal.secret with content :=
          { s.journal.secret.content with journal := .stored j' } }) x s).2.trust = s.trust :=
        (congrArg (fun secret => secret.content.trust) hput :)
      exact htrust ▸ h.trusted
    · exact (congrArg (fun secret => secret.content.journal) hput :)

variable {secret : Secret JournalContent}

theorem respond_held (j' : Journal) (h : Held W e j s)
    (hok : Keeping e.target j.accepted.command ok) (hsecret : s.journal.secret = secret)
    (haccepted : j'.accepted = j.accepted) (response : Response) :
    Prog.Safe (Prog.allowing (execControl W e.target) ok) (Held W e j) (fun _ _ => True)
      (respond secret j' response).run s := by
  subst hsecret
  refine keeps_bind (fun _ _ => True) ⟨h, fun x => ⟨?_, trivial⟩⟩ fun _ s hs _ => ?_
  · exact h.putJournal hok x.2 haccepted rfl
  · exact ⟨hs, fun x => ⟨hs.edited hok x.2, trivial⟩⟩

variable {command : Command}

/-- A preparation reads the cluster and changes nothing. -/
theorem deployment_of_prepareApi (hx : x.EditsTo A) (h : A cl.deployment) :
    A (runApi (prepareApi W e.target command) x.calls cl).2.deployment := by
  cases hcalls : x.calls with
  | none => exact h
  | some l =>
    cases l with
    | nil => exact h
    | cons y l =>
      obtain ⟨edit, reply⟩ := y
      have hedited : A (cl.edited edit).deployment := by
        cases edit with
        | none => exact h
        | some d => exact hx.calls _ hcalls _ List.mem_cons_self d rfl
      cases reply with
      | ok | lost | failed err => exact hedited

theorem carries_held (hok : Keeping e.target j.accepted.command ok) :
    Carries (Prog.allowing (execControl W e.target) ok) (Held W e j) (fun _ _ => True) secret j where
  prepare haction s x h hsecret := by
    have hedits := hok haction x.1 x.2
    exact ⟨h.drift rfl fun _ => deployment_of_prepareApi hedits
      (EditsTo.edited hedits (h.agrees haction)), hsecret, fun _ _ => trivial⟩
  execute haction _ _ s x _ h hsecret :=
    ⟨h.drift rfl fun hprepare => absurd hprepare haction, hsecret⟩
  respond j' response s hj' h hsecret := by
    rcases hj' with rfl | ⟨-, r, rfl, -⟩
    · exact respond_held j' h hok hsecret rfl response
    · exact respond_held { j with plan := some r } h hok hsecret rfl response

theorem finishAccepted_held (h : Held W e j s)
    (hok : Keeping e.target j.accepted.command ok) (hsecret : s.journal.secret = secret) :
    Prog.Safe (Prog.allowing (execControl W e.target) ok) (Held W e j) (fun _ _ => True)
      (finishAccepted W e secret j).run s := by
  unfold finishAccepted
  split
  · exact ⟨h, fun x => ⟨h.edited hok x.2, trivial⟩⟩
  · exact (carries_held hok).runAccepted h hsecret

/-! ## A pass -/

/-- The choices of a pass over a content of the mailbox that keep every waiting prepare
command's Deployment. -/
def Careful (t : Target) (s : ControlState) (mailbox : Slot SignedCommand) (x : Choice) : Prop :=
  x.mailbox = mailbox ∧ ∀ command, Awaited s mailbox command → x.EditsTo (AgreesWith t command)

/-- Before a pass accepts or carries out anything, only the Deployment has moved. -/
structure Drifted (t : Target) (mailbox : Slot SignedCommand) (s₀ s : ControlState) : Prop where
  journal : s.journal = s₀.journal
  agrees : ∀ command, Awaited s₀ mailbox command → AgreesWith t command s.cluster.deployment

variable {s₀ : ControlState} {mailbox : Slot SignedCommand}

theorem Drifted.edited (h : Drifted e.target mailbox s₀ s) (hx : Careful e.target s₀ mailbox x) :
    Drifted e.target mailbox s₀ { s with cluster := s.cluster.edited x.edit } :=
  ⟨h.journal, fun command hawaited => EditsTo.edited (hx.2 command hawaited)
    (h.agrees command hawaited)⟩

theorem Drifted.sound (h : Drifted e.target mailbox s₀ s) (hs₀ : Sound W e keys s₀) :
    Sound W e keys s := by
  unfold Sound ControlState.trust at hs₀ ⊢
  rw [h.journal]
  rcases hs₀ with habsent | ⟨j, hj, hfixed, htrusted, hready⟩
  · exact .inl habsent
  · refine .inr ⟨j, hj, hfixed, htrusted, fun hnone => ⟨(hready hnone).1, fun haction => ?_⟩⟩
    exact h.agrees _ ⟨haction, .inl ⟨j, hj, hnone, rfl⟩⟩

variable {w : JournalSecret}

theorem fixed_of_fixedJournal (h : fixedJournal e w = .ok secret) : Fixed e w := by
  obtain ⟨hname, h⟩ := checked h
  obtain ⟨huid, -⟩ := checked h
  exact ⟨hname, huid.1, huid.2⟩

theorem Fixed.fixedJournal (h : Fixed e w) : fixedJournal e w = .ok w.secret := by
  unfold Rollout.fixedJournal
  rw [ensure_of h.name, ensure_of ⟨h.uid, h.mutable⟩]
  rfl

variable {signed : SignedCommand} {journal : Option Journal} {next : Journal}

/-- A prepare command is accepted without a plan. -/
theorem plan_of_prepare (haction : signed.command.action = .prepare)
    (hnext : acceptedJournal signed journal = .ok next) : next.plan = none := by
  unfold acceptedJournal at hnext
  dsimp only at hnext
  rw [if_neg (not_not.mpr haction)] at hnext
  split at hnext
  · replace hnext := skip hnext
    exact congrArg Journal.plan (Except.ok.inj hnext).symm
  · exact congrArg Journal.plan (Except.ok.inj hnext).symm

/-- The journal of an acceptance is the one that the condition is about. -/
theorem journalOf_of_accepted
    (hjournal : loadJournal W e keys s.journal.secret.content.journal = .ok journal)
    (hnext : acceptedJournal signed journal = .ok next) : next = journalOf s signed := by
  obtain ⟨haccepted, hresponse, hplan⟩ := acceptedJournal_eq_ok hnext
  have hdecode : s.journal.secret.content.journal.decode = journal := by
    rcases loadJournal_eq_ok hjournal with ⟨habsent, rfl⟩ | ⟨j, hj, rfl, -, -⟩
    · rw [habsent]
      rfl
    · rw [hj]
      rfl
  unfold journalOf
  rw [hdecode]
  obtain ⟨accepted, plan, response⟩ := next
  obtain rfl : accepted = signed := haccepted
  obtain rfl : response = none := hresponse
  rcases hplan with ⟨haction, hnone⟩ | ⟨r, hr, hsome, -⟩
  · obtain rfl : plan = none := hnone
    rw [if_pos haction]
  · by_cases haction : accepted.command.action = .prepare
    · have hnone := plan_of_prepare haction hnext
      exact absurd (hnone.symm.trans hsome) nofun
    · rw [if_neg haction, hr]
      exact congrArg (Journal.mk accepted · none) hsome

variable {recorded : Option Authority}

variable {now : ℤ}

section

variable (henrolled : validEnrollment W.scheme e = true)

include henrolled

/-- An enrollment is let through by its own floor. -/
theorem trusted_current {current : Authority}
    (hcurrent : e.authority = some current) : Trusted W e (.stored current) := by
  refine ⟨some current, ?_, ?_⟩
  · exact if_pos (validAuthority_of_enrolled henrolled hcurrent).1
  · rw [hcurrent]
    unfold checkFloor
    dsimp only
    rw [if_neg (lt_irrefl _), if_neg fun h => h.2 rfl]

/-- The floor that an acceptance leaves behind lets the enrollment through again. -/
theorem trusted_raisedTrust {trust : Slot Authority}
    (hparse : parseTrustRecord W.scheme trust = .ok recorded)
    (hfloor : checkFloor recorded e.authority = .ok ()) :
    Trusted W e (raisedTrust e trust recorded) := by
  unfold raisedTrust
  split
  next => exact ⟨recorded, hparse, hfloor⟩
  next current hcurrent =>
    split
    · exact trusted_current henrolled hcurrent
    · exact ⟨recorded, hparse, hfloor⟩

/-- **A command that is accepted can be taken up.** -/
theorem ready_of_accepted (hkeys : checkKeys W.scheme e keys = true)
    (hverify : verifyCommand W.toPlatform W.scheme e keys signed = true)
    (hnext : acceptedJournal signed journal = .ok next)
    (hsequence : signed.command.sequence ≠ 18446744073709551615)
    (hfits : W.journalFits next = true) : Ready W e keys next := by
  obtain ⟨haccepted, -, hplan⟩ := acceptedJournal_eq_ok hnext
  refine ⟨hfits, ?_, ?_, fun haction => ?_⟩
  · rw [haccepted]
    exact anchored_of_verifyCommand henrolled hkeys hverify
  · rw [haccepted]
    exact hsequence
  · rw [haccepted] at haction ⊢
    rcases hplan with ⟨hprepare, -⟩ | ⟨r, -, hr, hdigest, hintent⟩
    · exact absurd hprepare haction
    · exact ⟨r, hr, hdigest, hintent⟩

/-- **The write of an acceptance** leaves the old journal, or the new one. -/
theorem acceptCommand_sound (hs₀ : Sound W e keys s₀) (h : Drifted e.target (.stored signed) s₀ s)
    (hx : Careful e.target s₀ (.stored signed) x) (hfixed : Fixed e s.journal)
    (hrecorded : parseTrustRecord W.scheme s.journal.secret.content.trust = .ok recorded)
    (hfloor : checkFloor recorded e.authority = .ok ())
    (hnext : acceptedJournal signed journal = .ok next) (hready : Ready W e keys next) :
    let s' := (execControl W e.target (.acceptCommand { s.journal.secret with content :=
      ⟨raisedTrust e s.journal.secret.content.trust recorded, .stored next⟩ }
      ⟨signed, e, keys, now⟩) x s)
    Sound W e keys s'.2 ∧ ∀ secret, s'.1 = .ok secret →
      s'.2.journal.secret = secret ∧ Held W e next s'.2 := by
  intro s'
  have hedited := h.edited hx
  obtain ⟨haccepted, -, -⟩ := acceptedJournal_eq_ok hnext
  rcases putSecret_cases s.journal.secret { s.journal.secret with content :=
      ⟨raisedTrust e s.journal.secret.content.trust recorded, .stored next⟩ } x.reply with
    ⟨hkeep, ⟨err, herr⟩, -⟩ | ⟨hput, -, -, hok⟩
  · refine ⟨?_, fun secret hsecret => nomatch herr.symm.trans hsecret⟩
    have hdrift : Drifted e.target (.stored signed) s₀ s'.2 :=
      ⟨(congrArg (JournalSecret.mk s.journal.name) hkeep).trans h.journal, hedited.agrees⟩
    exact hdrift.sound hs₀
  · have hheld : Held W e next s'.2 := by
      refine ⟨⟨hfixed.name, ?_, ?_⟩, ?_, ⟨next, ?_, rfl, .inl rfl⟩, fun haction => ?_⟩
      · exact (congrArg Secret.uid hput).trans hfixed.uid
      · exact (congrArg Secret.immutable hput).trans hfixed.mutable
      · have htrust : s'.2.trust = raisedTrust e s.journal.secret.content.trust recorded :=
          (congrArg (fun secret => secret.content.trust) hput :)
        exact htrust ▸ trusted_raisedTrust henrolled hrecorded hfloor
      · exact (congrArg (fun secret => secret.content.journal) hput :)
      · rw [haccepted] at haction ⊢
        exact hedited.agrees _ ⟨haction, .inr ⟨signed, rfl, rfl⟩⟩
    exact ⟨hheld.sound fun _ => hready, fun secret hsecret =>
      ⟨hput.trans (hok secret hsecret).symm, hheld⟩⟩

/-- **A pass keeps the journal sound.** -/
theorem reconcile_sound (hkeys : checkKeys W.scheme e keys = true) (hs₀ : Sound W e keys s₀)
    (hmailbox : ∀ signed, mailbox = .stored signed →
      signed.command.sequence ≠ 18446744073709551615 ∧ W.journalFits (journalOf s₀ signed) = true)
    (hagrees : ∀ command, Awaited s₀ mailbox command →
      AgreesWith e.target command s₀.cluster.deployment) :
    Prog.Safe (Prog.allowing (execControl W e.target) (Careful e.target s₀ mailbox))
      (Sound W e keys) (fun _ _ => True) (reconcile W e keys).run s₀ := by
  have hdrift₀ : Drifted e.target mailbox s₀ s₀ := ⟨rfl, hagrees⟩
  refine keeps_bind (fun a s => Drifted e.target mailbox s₀ s ∧ ∀ m, a = .ok m → m = mailbox)
    ⟨hs₀, fun x => ⟨?_, hdrift₀.edited x.2, ?_⟩⟩ fun m s₁ hs₁ hmid => ?_
  · exact (hdrift₀.edited x.2).sound hs₀
  · intro m hm
    exact (eq_of_answerRead hm).symm.trans x.2.1
  obtain ⟨hdrift₁, hm⟩ := hmid
  obtain rfl := hm m rfl
  cases m with
  | absent => exact ⟨hs₁, trivial⟩
  | garbled => exact keeps_throw hs₁
  | stored signed =>
    obtain ⟨hsequence, hfits⟩ := hmailbox signed rfl
    refine keeps_bind (fun a s => Drifted e.target (.stored signed) s₀ s ∧
      ∀ w, a = .ok w → s.journal = w) ⟨hs₁, fun x => ⟨?_, hdrift₁.edited x.2, ?_⟩⟩
      fun w s₂ hs₂ hmid => ?_
    · exact (hdrift₁.edited x.2).sound hs₀
    · exact fun w hw => eq_of_answerRead hw
    obtain ⟨hdrift₂, hw⟩ := hmid
    obtain rfl := hw w rfl
    refine keeps_check hs₂ fun secret hsecret => keeps_check hs₂ fun recorded hrecorded => ?_
    refine keeps_check hs₂ fun _ hfloor => keeps_check hs₂ fun journal hjournal => ?_
    refine keeps_check hs₂ fun _ hfresh => keeps_check hs₂ fun _ _ => ?_
    have hfresh := ensured hfresh
    have hfixed := fixed_of_fixedJournal hsecret
    obtain rfl := fixedJournal_eq_ok hsecret
    split
    next habove =>
      obtain ⟨hselect, hfresh⟩ := fresh_of_above hfresh habove
      rw [hselect]
      refine keeps_bind (fun _ s => Drifted e.target (.stored signed) s₀ s)
        ⟨hs₂, fun x => ⟨(hdrift₂.edited x.2).sound hs₀, hdrift₂.edited x.2⟩⟩
        fun now s₃ hs₃ hdrift₃ => ?_
      refine keeps_check hs₃ fun _ _ => keeps_check hs₃ fun next hnext => ?_
      have hready : Ready W e keys next := by
        refine ready_of_accepted henrolled hkeys hfresh hnext hsequence ?_
        have hjournal₀ := hdrift₂.journal ▸ hjournal
        rw [journalOf_of_accepted hjournal₀ hnext]
        exact hfits
      have hsame : s₃.journal = s₂.journal := hdrift₃.journal.trans hdrift₂.journal.symm
      rw [← hsame] at hfixed hrecorded ⊢
      refine keeps_bind (fun a s => ∀ secret, a = .ok secret →
        s.journal.secret = secret ∧ Held W e next s) ⟨hs₃, fun x => ?_⟩ fun secret s₄ hs₄ hmid => ?_
      · exact acceptCommand_sound henrolled hs₀ hdrift₃ x.2 hfixed hrecorded hfloor hnext hready
      · obtain ⟨hsecret, hheld⟩ := hmid secret rfl
        have hkeeping : Keeping e.target next.accepted.command
            (Careful e.target s₀ (.stored signed)) := by
          intro haction x hx
          rw [(acceptedJournal_eq_ok hnext).1] at haction ⊢
          exact hx.2 _ ⟨haction, .inr ⟨signed, rfl, rfl⟩⟩
        exact (finishAccepted_held hheld hkeeping hsecret).weaken
          (fun _ hs => hs.sound fun _ => hready) fun _ _ _ _ => trivial
    next =>
      rcases loadJournal_eq_ok hjournal with ⟨-, rfl⟩ | ⟨j, hstored, rfl, -, -⟩
      · exact keeps_throw hs₂
      · rcases hs₂ with habsent | ⟨j', hj', -, htrusted, hready⟩
        · cases habsent.symm.trans hstored
        obtain rfl : j' = j := Slot.stored.inj (hj'.symm.trans hstored)
        have hstored₀ : s₀.journal.secret.content.journal = .stored j' := hdrift₂.journal ▸ hstored
        by_cases hnone : j'.response = none
        · have hheld : Held W e j' s₂ :=
            ⟨hfixed, htrusted, ⟨j', hj', rfl, .inl rfl⟩, (hready hnone).2⟩
          have hkeeping : Keeping e.target j'.accepted.command
              (Careful e.target s₀ (.stored signed)) := fun haction x hx =>
            hx.2 _ ⟨haction, .inl ⟨j', hstored₀, hnone, rfl⟩⟩
          exact (finishAccepted_held hheld hkeeping rfl).weaken
            (fun _ hs => hs.sound fun hnone => (hready hnone).1) fun _ _ _ _ => trivial
        · -- the response is there, and only sent once more
          obtain ⟨response, hresponse⟩ := Option.ne_none_iff_exists'.mp hnone
          have hs₂' : Sound W e keys s₂ := hdrift₂.sound hs₀
          unfold finishAccepted
          dsimp only
          rw [hresponse]
          exact ⟨hs₂', fun x => ⟨(hdrift₂.edited x.2).sound hs₀, trivial⟩⟩

/-- **So does the check at the start**: it raises the floor and leaves the journal. -/
theorem reconcileTrust_sound
    (hs₀ : Sound W e keys s₀) : Prog.Safe (Prog.allowing (execControl W e.target) fun x =>
      ∀ command, Awaited s₀ .absent command → x.EditsTo (AgreesWith e.target command))
      (Sound W e keys) (fun _ _ => True) (reconcileTrust W e keys).run s₀ := by
  have hdrift₀ : Drifted e.target .absent s₀ s₀ := by
    refine ⟨rfl, fun command hawaited => ?_⟩
    obtain ⟨haction, ⟨j, hj, hnone, rfl⟩ | ⟨signed, hsigned, -⟩⟩ := hawaited
    · rcases hs₀ with habsent | ⟨j', hj', -, -, hready⟩
      · cases habsent.symm.trans hj
      · obtain rfl : j' = j := Slot.stored.inj (hj'.symm.trans hj)
        exact (hready hnone).2 haction
    · cases hsigned
  have hedited : ∀ {s : ControlState} {x : Choice}, Drifted e.target .absent s₀ s →
      (∀ command, Awaited s₀ .absent command → x.EditsTo (AgreesWith e.target command)) →
      Drifted e.target .absent s₀ { s with cluster := s.cluster.edited x.edit } :=
    fun hdrift hx => ⟨hdrift.journal, fun command hawaited =>
      EditsTo.edited (hx command hawaited) (hdrift.agrees command hawaited)⟩
  refine keeps_bind (fun a s => Drifted e.target .absent s₀ s ∧
      ∀ w, a = .ok (.ok w) → s.journal = w)
    ⟨hs₀, fun x => ⟨(hedited hdrift₀ x.2).sound hs₀, hedited hdrift₀ x.2,
      fun w hw => eq_of_answerRead (Except.ok.inj hw)⟩⟩ fun answer s₁ hs₁ hmid => ?_
  obtain ⟨hdrift₁, hw⟩ := hmid
  cases hfixed : answer.bind (fixedJournal e) with
  | error err =>
    dsimp only
    split
    · exact ⟨hs₁, trivial⟩
    · exact keeps_throw hs₁
  | ok secret =>
    obtain ⟨w, rfl, hsecret⟩ := (except_bind_eq_ok answer (fixedJournal e) secret).mp hfixed
    obtain rfl := hw w rfl
    obtain rfl := fixedJournal_eq_ok hsecret
    refine keeps_check hs₁ fun recorded hrecorded => keeps_check hs₁ fun _ hfloor => ?_
    cases hcurrent : e.authority with
    | none => exact ⟨hs₁, trivial⟩
    | some current =>
      dsimp only
      refine keeps_check hs₁ fun _ _ => ?_
      split
      · exact ⟨hs₁, trivial⟩
      · refine keeps_bind (fun _ _ => True) ⟨hs₁, fun x => ⟨?_, trivial⟩⟩
          fun _ s₂ hs₂ _ => ⟨hs₂, trivial⟩
        rcases putSecret_cases s₁.journal.secret { s₁.journal.secret with content :=
            { s₁.journal.secret.content with trust := .stored current } } x.1.reply with
          ⟨hkeep, -, -⟩ | ⟨hput, -, -, -⟩
        · have hdrift := hedited hdrift₁ x.2
          have hdrift' : Drifted e.target .absent s₀ (execControl W e.target (.putJournal
              { s₁.journal.secret with content :=
                { s₁.journal.secret.content with trust := .stored current } }) x.1 s₁).2 :=
            ⟨(congrArg (JournalSecret.mk s₁.journal.name) hkeep).trans hdrift₁.journal,
              hdrift.agrees⟩
          exact hdrift'.sound hs₀
        · rcases (hedited hdrift₁ x.2).sound hs₀ with habsent | ⟨j, hj, hfixed, -, hready⟩
          · exact .inl ((congrArg (fun secret => secret.content.journal) hput).trans habsent)
          · refine .inr ⟨j, ?_, ⟨hfixed.name, ?_, ?_⟩, ?_, hready⟩
            · exact (congrArg (fun secret => secret.content.journal) hput).trans hj
            · exact (congrArg Secret.uid hput).trans hfixed.uid
            · exact (congrArg Secret.immutable hput).trans hfixed.mutable
            · have htrust : (execControl W e.target (.putJournal { s₁.journal.secret with content :=
                  { s₁.journal.secret.content with trust := .stored current } }) x.1 s₁).2.trust =
                  .stored current := (congrArg (fun secret => secret.content.trust) hput :)
              exact (congrArg (Trusted W e) htrust).mpr (trusted_current henrolled hcurrent)

/-- **Every steady step keeps the journal sound.** -/
theorem passStep_sound
    (hkeys : checkKeys W.scheme e keys = true) {op : PassOp} (hop : Steady W e.target s op)
    (h : Sound W e keys s) : Sound W e keys (passStep W e keys s op) := by
  cases op with
  | pass mailbox choices =>
    obtain ⟨hmailbox, hawaited⟩ := hop
    have hsafe := reconcile_sound henrolled hkeys h hmailbox fun command hcommand =>
      (hawaited command hcommand).1
    refine (Prog.run_allowing hsafe fun x hx => ?_).1
    obtain ⟨y, hy, rfl⟩ := List.mem_map.mp hx
    refine ⟨rfl, fun command hcommand => ?_⟩
    have hedits := (hawaited command hcommand).2 y hy
    exact ⟨hedits.edit, hedits.calls⟩
  | restart choices =>
    refine (Prog.run_allowing (reconcileTrust_sound henrolled h) fun x hx => ?_).1
    exact fun command hcommand => hop command hcommand x hx
  | edit d =>
    have hdrift : Drifted e.target .absent s
        { s with cluster := { s.cluster with deployment := d } } :=
      ⟨rfl, fun command hcommand => hop command hcommand⟩
    exact hdrift.sound h

end

/-! ## The way on -/

section WayOn

open Control

/-- A pass over a command that may be looked at comes to the point where it is selected. -/
theorem eval_reconcile (hx : x = fairChoice (.stored signed) x.now) (hfixed : Fixed e s.journal)
    (hparse : parseTrustRecord W.scheme s.journal.secret.content.trust = .ok recorded)
    (hfloor : checkFloor recorded e.authority = .ok ())
    (hj : s.journal.secret.content.journal = .stored j) (hfits : W.journalFits j = true)
    (hanchored : anchored W.toPlatform W.scheme e keys j.accepted = true)
    (hfresh : verifyCommand W.toPlatform W.scheme e keys signed = true ∨
      isAccepted W signed (some j) = true) :
    Prog.eval (execControl W e.target) x (reconcile W e keys).run s =
      Prog.eval (execControl W e.target) x (do
        let signed := selectCommand signed (some j)
        let accepted := acceptedSequence (some j)
        check (ensure (accepted ≤ signed.command.sequence ∧
          (signed.command.sequence = accepted → isAccepted W signed (some j)))
          .conflict)
        if signed.command.sequence > accepted then
          let now ← Control.now
          check (ensure (signed.command.issuedAt ≤ now ∧ now < signed.command.expiresAt)
            .invalid)
          let next ← check (acceptedJournal signed (some j))
          let secret ← acceptCommand { s.journal.secret with content :=
            ⟨raisedTrust e s.journal.secret.content.trust recorded, .stored next⟩ }
            ⟨signed, e, keys, now⟩
          finishAccepted W e secret next
        else finishAccepted W e s.journal.secret j : Control Unit).run s := by
  have hload : loadJournal W e keys s.journal.secret.content.journal = .ok (some j) := by
    rw [hj]
    exact if_pos ⟨hfits, hanchored⟩
  have hcommand : Prog.eval (execControl W e.target) x readCommand.run s =
      (.ok (.stored signed), s) := by
    rw [hx]
    rfl
  have hread : Prog.eval (execControl W e.target) x readJournal.run s = (.ok s.journal, s) := by
    rw [hx]
    rfl
  unfold reconcile
  rw [Prog.eval_ok_bind hcommand]
  dsimp only
  rw [Prog.eval_ok_bind hread, hfixed.fixedJournal]
  show Prog.eval (execControl W e.target) x (check (parseTrustRecord W.scheme
    s.journal.secret.content.trust) >>= _).run s = _
  rw [hparse]
  show Prog.eval (execControl W e.target) x (check (checkFloor recorded e.authority) >>= _).run s =
    _
  rw [hfloor]
  show Prog.eval (execControl W e.target) x (check (loadJournal W e keys
    s.journal.secret.content.journal) >>= _).run s = _
  rw [hload]
  show Prog.eval (execControl W e.target) x (check (ensure _ _) >>= _).run s = _
  rw [ensure_of hfresh]
  rfl

/-- A response is kept when the calls succeed. -/
theorem eval_respond {mailbox : Slot SignedCommand} (history : List Event) (j' : Journal)
    (response : Response) (haccepted : j'.accepted = j.accepted) :
    ∃ j₁, (Prog.eval (execControl W e.target) (fairChoice mailbox now)
        (respond s.journal.secret j' response).run
        { s with history := history }).2.journal.secret.content.journal = .stored j₁ ∧
      j₁.accepted = j.accepted ∧ j₁.response.isSome = true := by
  refine ⟨{ j' with response := some response }, ?_, haccepted, rfl⟩
  let secret := { s.journal.secret with content := { s.journal.secret.content with
    journal := .stored { j' with response := some response } } }
  have hput : Prog.eval (execControl W e.target) (fairChoice mailbox now) (putJournal secret).run
      { s with history := history } = ((putSecret s.journal.secret secret .ok).1,
        ⟨s.cluster, ⟨s.journal.name, (putSecret s.journal.secret secret .ok).2⟩, history⟩) := rfl
  rw [putSecret_ok (show s.journal.secret.version = secret.version from rfl)] at hput
  unfold respond
  rw [Prog.eval_ok_bind hput]
  rfl

/-- **A prepare command that the Deployment agrees with is answered** by one more pass. -/
theorem responds_of_ready (hfixed : Fixed e s.journal) (htrusted : Trusted W e s.trust)
    (hj : s.journal.secret.content.journal = .stored j) (hnone : j.response = none)
    (hready : Ready W e keys j) (haction : j.accepted.command.action = .prepare)
    (hagrees : AgreesWith e.target j.accepted.command s.cluster.deployment) :
    Responds W e keys now s j := by
  obtain ⟨recorded, hparse, hfloor⟩ := htrusted
  have haccepted : isAccepted W j.accepted (some j) = true := decide_eq_true rfl
  have hselect : selectCommand j.accepted (some j) = j.accepted :=
    if_neg fun h => UInt64.lt_irrefl _ h.1
  have hnot : ¬ j.accepted.command.sequence > acceptedSequence (some j) := UInt64.lt_irrefl _
  have hle : acceptedSequence (some j) ≤ j.accepted.command.sequence := UInt64.le_refl _
  obtain ⟨d, hd, hagrees⟩ := hagrees
  -- what the pass comes to, for each answer of the executor
  have hpass : fairPass W e keys (.stored j.accepted) now s =
      (Prog.eval (execControl W e.target) (fairChoice (.stored j.accepted) now)
        (runAccepted W e s.journal.secret j).run s).2 := by
    unfold fairPass
    rw [eval_reconcile rfl hfixed hparse hfloor hj hready.fits hready.anchored (.inr haccepted)]
    dsimp only
    rw [hselect, ensure_of ⟨hle, fun _ => haccepted⟩]
    show (Prog.eval _ _ (if _ then _ else _ : Control Unit).run s).2 = _
    rw [if_neg hnot]
    unfold finishAccepted
    rw [hnone]
  have hfinal := prepareFor_final (P := W.toPlatform) hd hagrees
  refine ⟨.stored j.accepted, ?_⟩
  rw [hpass]
  unfold runAccepted
  dsimp only
  rw [ensure_of (.inl haction), haction]
  show ∃ j', (Prog.eval (execControl W e.target) (fairChoice (.stored j.accepted) now)
    (Control.prepare j.accepted >>= _).run s).2.journal.secret.content.journal = _ ∧ _
  have hprepare : Prog.eval (execControl W e.target) (fairChoice (.stored j.accepted) now)
      (Control.prepare j.accepted).run s =
        (.ok (prepareFor W.toPlatform e.target j.accepted.command.intent
          j.accepted.command.changes j.accepted.command.bootstrap j.accepted.command.topology
          s.cluster), { s with history := s.history ++ [.prepared j.accepted
            (prepareFor W.toPlatform e.target j.accepted.command.intent
              j.accepted.command.changes j.accepted.command.bootstrap
              j.accepted.command.topology s.cluster)] }) := rfl
  rw [Prog.eval_ok_bind hprepare]
  cases hanswer : prepareFor W.toPlatform e.target j.accepted.command.intent
    j.accepted.command.changes j.accepted.command.bootstrap j.accepted.command.topology
    s.cluster with
  | ok r =>
    dsimp only
    rw [ensure_of (previousTemplateStamp_of_prepareFor hd hagrees hanswer)]
    exact eval_respond _ { j with plan := some r } _ rfl
  | error err =>
    dsimp only
    rw [hfinal err hanswer, if_neg Bool.false_ne_true]
    exact eval_respond _ j _ rfl

/-- A restore of what an accepted command is about, one sequence number later. -/
def restoreCommand (P : Platform) (e : Enrollment) (command : Command) (now : ℤ) : Command where
  enrollmentID := e.id
  sequence := command.sequence + 1
  action := .restore
  intent := command.intent
  planDigest := command.planDigest
  changes := []
  previousTemplateStamp := ""
  topology := none
  bootstrap := none
  acknowledgement := none
  issuedAt := if now = 0 then -1 else now
  expiresAt := now + 1
  authority := expectedBinding P e

theorem sequence_succ {n : UInt64} (h : n ≠ 18446744073709551615) : n < n + 1 ∧ n + 1 ≠ 0 := by
  have hn : n.toNat ≠ 18446744073709551615 := fun heq => h (UInt64.toNat_inj.mp heq)
  have hlt := n.toNat_lt
  have hsucc : (n + 1).toNat = n.toNat + 1 := by
    rw [UInt64.toNat_add, show UInt64.toNat 1 = 1 from rfl]
    exact Nat.mod_eq_of_lt (by omega)
  refine ⟨UInt64.lt_iff_toNat_lt.mpr (by omega), fun hzero => ?_⟩
  rw [hzero] at hsucc
  cases hsucc

/-- **The restore of an accepted command about a plan is valid.** -/
theorem validCommand_restore {P : Platform} (now : ℤ)
    (hshape : validCommandShape P e command = true) (haction : command.action ≠ .prepare)
    (hsequence : command.sequence ≠ 18446744073709551615) :
    validCommand P e (restoreCommand P e command now) = true := by
  have hdigest : P.validDigest command.planDigest = true := by
    have hvalid : validAction P e command = true := by
      unfold validCommandShape at hshape
      rw [Bool.and_eq_true] at hshape
      exact hshape.2
    unfold validAction at hvalid
    split at hvalid
    next hprepare => exact absurd hprepare haction
    next => simp only [Bool.and_eq_true] at hvalid; exact hvalid.1.1.1
    next => simp only [Bool.and_eq_true] at hvalid; exact hvalid.1.1.1
    next => simp only [Bool.and_eq_true] at hvalid; exact hvalid.1.1.1
    next => cases hvalid
  have hintent : validIntent command.intent = true ∧
      command.intent.ownerInstanceID = e.ownerInstanceID ∧
      command.intent.incarnation = e.incarnation := by
    unfold validCommandShape at hshape
    simp only [Bool.and_eq_true, decide_eq_true_eq] at hshape
    tauto
  have hwindow : (restoreCommand P e command now).issuedAt ≠ 0 ∧
      (restoreCommand P e command now).expiresAt > (restoreCommand P e command now).issuedAt ∧
      (restoreCommand P e command now).expiresAt - (restoreCommand P e command now).issuedAt ≤
        tenMinutes := by
    unfold restoreCommand tenMinutes
    dsimp only
    split <;> omega
  have hnext := (sequence_succ hsequence).2
  unfold validCommand validCommandShape
  rw [decide_eq_true hwindow.1, decide_eq_true hwindow.2.1, decide_eq_true hwindow.2.2]
  simp [restoreCommand, hintent, hnext, validTopology, validAction, hdigest]

section

variable (henrolled : validEnrollment W.scheme e = true) (hkeys : checkKeys W.scheme e keys = true)
  (hsign : CanSign W.scheme keys) (hbare : ∀ c : Command, c.action = .restore → c.topology = none →
    validCommand W.toPlatform e c = true → W.scheme.commandFits c = true)

include henrolled hkeys hsign hbare

/-- **A command about a plan can be overtaken by a restore.** -/
theorem admits_of_ready
    (hfixed : Fixed e s.journal) (htrusted : Trusted W e s.trust)
    (hj : s.journal.secret.content.journal = .stored j) (hready : Ready W e keys j)
    (haction : j.accepted.command.action ≠ .prepare) : Admits W e keys now s j := by
  have hshape : validCommandShape W.toPlatform e j.accepted.command = true := by
    have hanchored := hready.anchored
    unfold anchored at hanchored
    rw [Bool.and_eq_true] at hanchored
    exact hanchored.1
  have hvalid := validCommand_restore now hshape haction hready.sequence
  obtain ⟨signed, hcommand, hverify⟩ := exists_signed henrolled hkeys hsign hvalid
    (hbare _ rfl rfl hvalid)
  obtain ⟨recorded, hparse, hfloor⟩ := htrusted
  obtain ⟨r, hr, hdigest, hintent⟩ := hready.about haction
  have habove : j.accepted.command.sequence < signed.command.sequence := by
    rw [hcommand]
    exact (sequence_succ hready.sequence).1
  have hrestore : signed.command.action = .restore := by
    rw [hcommand]
    rfl
  have hwindow : signed.command.issuedAt ≤ now ∧ now < signed.command.expiresAt := by
    rw [hcommand]
    unfold restoreCommand
    dsimp only
    split <;> omega
  have hselect : selectCommand signed (some j) = signed := if_neg fun h => h.2.2 hrestore
  have hmatch : (j.plan.any fun r => r.digest = signed.command.planDigest &&
      r.plan.intent = signed.command.intent) = true := by
    rw [hr, Option.any_some, hcommand, Bool.and_eq_true]
    exact ⟨decide_eq_true hdigest, decide_eq_true hintent⟩
  have hnext : acceptedJournal signed (some j) = .ok ⟨signed, j.plan, none⟩ := by
    unfold acceptedJournal
    dsimp only [Option.bind_some]
    rw [if_pos (hrestore ▸ nofun), ensure_of hmatch]
    rfl
  let secret : Secret JournalContent := { s.journal.secret with content :=
    ⟨raisedTrust e s.journal.secret.content.trust recorded, .stored ⟨signed, j.plan, none⟩⟩ }
  let x := fairChoice (.stored signed) now
  let s₁ := (execControl W e.target (.acceptCommand secret ⟨signed, e, keys, now⟩) x s).2
  have haccept : Prog.eval (execControl W e.target) x
      (acceptCommand secret ⟨signed, e, keys, now⟩).run s = (.ok s₁.journal.secret, s₁) := by
    have hput := putSecret_ok (show s.journal.secret.version = secret.version from rfl)
    exact Prod.ext ((congrArg Prod.fst hput).trans
      (congrArg (fun y => Except.ok (Prod.snd y)) hput).symm) rfl
  have hput := putSecret_ok (show s.journal.secret.version = secret.version from rfl)
  have hheld : Held W e ⟨signed, j.plan, none⟩ s₁ := by
    refine ⟨⟨hfixed.name, ?_, ?_⟩, ?_, ⟨_, ?_, rfl, .inl rfl⟩, fun h => ?_⟩
    · exact (congrArg (fun y => (Prod.snd y).uid) hput).trans hfixed.uid
    · exact (congrArg (fun y => (Prod.snd y).immutable) hput).trans hfixed.mutable
    · have htrust : s₁.trust = raisedTrust e s.journal.secret.content.trust recorded :=
        (congrArg (fun y => (Prod.snd y).content.trust) hput :)
      exact htrust ▸ trusted_raisedTrust henrolled hparse hfloor
    · exact (congrArg (fun y => (Prod.snd y).content.journal) hput :)
    · cases hrestore.symm.trans h
  have hkeeping : Keeping e.target signed.command (· = x) :=
    fun h => nomatch hrestore.symm.trans h
  have hend := (Prog.eval_allowing (finishAccepted_held hheld hkeeping rfl) (rfl : x = x)).1
  obtain ⟨j', hj', haccepted, -⟩ := hend.journal
  refine ⟨signed, j', hverify, hwindow.1, hwindow.2, habove, ?_, haccepted⟩
  have hle : acceptedSequence (some j) ≤ signed.command.sequence := UInt64.le_of_lt habove
  have hne : signed.command.sequence = acceptedSequence (some j) →
      isAccepted W signed (some j) = true := by
    intro heq
    exact absurd (heq ▸ habove) (UInt64.lt_irrefl _)
  unfold fairPass
  rw [eval_reconcile rfl hfixed hparse hfloor hj hready.fits hready.anchored (.inl hverify)]
  dsimp only
  rw [hselect, ensure_of ⟨hle, hne⟩]
  show (Prog.eval _ _ (if _ then _ else _ : Control Unit).run s).2.journal.secret.content.journal = _
  rw [if_pos (show signed.command.sequence > acceptedSequence (some j) from habove)]
  show (Prog.eval _ _ (check (ensure (signed.command.issuedAt ≤ now ∧
    now < signed.command.expiresAt) _) >>= _).run s).2.journal.secret.content.journal = _
  rw [ensure_of hwindow, hnext]
  show (Prog.eval _ _ (acceptCommand secret ⟨signed, e, keys, now⟩ >>= _).run
    s).2.journal.secret.content.journal = _
  rw [Prog.eval_ok_bind haccept]
  exact hj'

/-- **In a sound state there is a way on.** -/
theorem Sound.notWedged
    (h : Sound W e keys s) (now : ℤ) : NotWedged W e keys now s := by
  rcases h with habsent | ⟨j, hj, hfixed, htrusted, hready⟩
  · exact .inl habsent
  · refine .inr ⟨j, hj, ?_⟩
    by_cases hnone : j.response = none
    · obtain ⟨hready, hagrees⟩ := hready hnone
      by_cases haction : j.accepted.command.action = .prepare
      · exact .inr (.inl (responds_of_ready hfixed htrusted hj hnone hready haction
          (hagrees haction)))
      · exact .inr (.inr (admits_of_ready henrolled hkeys hsign hbare hfixed htrusted hj hready
          haction))
    · exact .inl (Option.isSome_iff_ne_none.mpr hnone)

end

end WayOn

/-! ## The result -/

/-- **An accepted prepare command that conflicts holds everything up.** Without a plan no
restore is accepted, every other command waits for the response, and every pass whose calls
succeed ends in the conflict: whatever the mailbox holds, the journal stays. -/
theorem stuck_keeps (mailbox : Slot SignedCommand) (now : ℤ)
    (hj : s.journal.secret.content.journal = .stored j) (hnone : j.response = none)
    (hplan : j.plan = none) (haction : j.accepted.command.action = .prepare)
    (hstuck : ∀ r, prepareFor W.toPlatform e.target j.accepted.command.intent
        j.accepted.command.changes j.accepted.command.bootstrap j.accepted.command.topology
        s.cluster = .ok r → j.accepted.command.previousTemplateStamp ≠ previousTemplateStamp r.plan)
    (hretried : ∀ err, prepareFor W.toPlatform e.target j.accepted.command.intent
        j.accepted.command.changes j.accepted.command.bootstrap j.accepted.command.topology
        s.cluster = .error err → retried err = true) :
    (fairPass W e keys mailbox now s).journal = s.journal := by
  let inv : ControlState → Prop := fun s' => s'.journal = s.journal ∧ s'.cluster = s.cluster
  have hs : inv s := ⟨rfl, rfl⟩
  have hsafe : Prog.Safe (Prog.allowing (execControl W e.target) (· = fairChoice mailbox now)) inv
      (fun _ _ => True) (reconcile W e keys).run s := by
    refine keeps_bind (fun _ _ => True) ⟨hs, fun x => ⟨?_, trivial⟩⟩ fun m s₁ hs₁ _ => ?_
    · obtain ⟨x, rfl⟩ := x
      exact hs
    cases m with
    | absent => exact ⟨hs₁, trivial⟩
    | garbled => exact keeps_throw hs₁
    | stored signed =>
      refine keeps_bind (fun a _ => ∀ w, a = .ok w → w = s.journal)
        ⟨hs₁, fun x => ?_⟩ fun w s₂ hs₂ hw => ?_
      · obtain ⟨x, rfl⟩ := x
        exact ⟨hs₁, fun w hw => (Except.ok.inj hw).symm.trans hs₁.1⟩
      obtain rfl := hw w rfl
      refine keeps_check hs₂ fun secret hsecret => keeps_check hs₂ fun recorded _ => ?_
      refine keeps_check hs₂ fun _ _ => keeps_check hs₂ fun journal hjournal => ?_
      refine keeps_check hs₂ fun _ hfresh => keeps_check hs₂ fun _ _ => ?_
      have hfresh := ensured hfresh
      obtain rfl := fixedJournal_eq_ok hsecret
      rcases loadJournal_eq_ok hjournal with ⟨habsent, -⟩ | ⟨j', hj', rfl, -, -⟩
      · cases habsent.symm.trans hj
      obtain rfl : j' = j := Slot.stored.inj (hj'.symm.trans hj)
      split
      next habove =>
        -- only a restore gets here, and there is no plan for it
        obtain ⟨hselect, -⟩ := fresh_of_above hfresh habove
        rw [hselect] at habove ⊢
        have hrestore : signed.command.action = .restore := by
          by_contra hne
          unfold selectCommand at hselect
          dsimp only at hselect
          rw [if_pos ⟨habove, hnone, hne⟩] at hselect
          exact UInt64.lt_irrefl _ (hselect ▸ habove)
        refine keeps_bind (fun _ _ => True) ⟨hs₂, fun x => ⟨?_, trivial⟩⟩ fun _ s₃ hs₃ _ => ?_
        · obtain ⟨x, rfl⟩ := x
          exact hs₂
        refine keeps_check hs₃ fun _ _ => keeps_check hs₃ fun next hnext => ?_
        rcases (acceptedJournal_eq_ok hnext).2.2 with ⟨hprepare, -⟩ | ⟨r, hr, -⟩
        · cases hrestore.symm.trans hprepare
        · cases hplan.symm.trans hr
      next =>
        unfold finishAccepted
        dsimp only
        rw [hnone]
        refine keeps_check hs₂ fun _ _ => ?_
        rw [haction]
        refine keeps_bind (fun a s₃ => a = .ok (prepareFor W.toPlatform e.target
          j'.accepted.command.intent j'.accepted.command.changes j'.accepted.command.bootstrap
          j'.accepted.command.topology s.cluster)) ⟨hs₂, fun x => ?_⟩ fun answer s₃ hs₃ ha => ?_
        · obtain ⟨x, rfl⟩ := x
          refine ⟨hs₂, congrArg Except.ok ?_⟩
          rw [← hs₂.2]
          rfl
        · cases ha
          cases hanswer : prepareFor W.toPlatform e.target j'.accepted.command.intent
            j'.accepted.command.changes j'.accepted.command.bootstrap
            j'.accepted.command.topology s.cluster with
          | ok r =>
            refine keeps_check hs₃ fun _ hstamp => ?_
            exact absurd (ensured hstamp) (hstuck r hanswer)
          | error err =>
            dsimp only
            rw [if_pos (hretried err hanswer)]
            exact keeps_throw hs₃
  exact (Prog.eval_allowing hsafe rfl).1.1

/-- The state after a command is accepted that was made for a template with another stamp. -/
noncomputable def wedgedState : ControlState :=
  Tx.exec (passStep plainSetting plainEnrollment plainKeys) plainSystem.state
    [.pass (.stored (plainPrepare "x")) (plainChoices .absent)]

/-- A step over a command that was made for the template as it is. -/
theorem steady_plain : Steady plainSetting plainTarget plainSystem.state
    (.pass (.stored (plainPrepare "")) (plainChoices .absent)) := by
  refine ⟨fun signed hsigned => ?_, fun command hcommand => ?_⟩
  · obtain rfl := Slot.stored.inj hsigned
    exact ⟨by decide, rfl⟩
  · obtain ⟨-, ⟨j, hj, -⟩ | ⟨signed, hsigned, rfl⟩⟩ := hcommand
    · cases hj
    · obtain rfl := Slot.stored.inj hsigned
      refine ⟨⟨_, rfl, rfl, rfl, nofun, (fun _ _ _ _ h => nomatch h)⟩, ?_⟩
      intro x hx
      obtain rfl := List.eq_of_mem_replicate hx
      exact ⟨nofun, nofun⟩

end Hikyo.Rollout
