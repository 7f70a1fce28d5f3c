import Hikyo.Rollout.ControllerSystem
import Hikyo.Rollout.Preparation
import Hikyo.Rollout.Signing

/-!
# Only authorized commands, in order

Whatever the mailbox holds and wherever the controller stops, its history is one
in which every event is justified by what was there before it. A command is
accepted only if it verifies under the enrollment that is installed, within its
time, and with a sequence number above all that were accepted earlier; the
executor is called only for accepted commands; and beyond preparation it is called
only about a plan that it prepared itself, for an accepted command, and that has
the intent and the digest that the present command names.

The argument is one invariant of the state, `Orderly`: the history is justified, the
journal holds the last acceptance, and the plan in the journal comes from the
history. Each pass keeps it, call by call. The generation floor is a relation
between an earlier state and a later one, `Since`, and it composes along a run.
-/

namespace Hikyo.Rollout

open List
open Tx (ensure bind_ok except_bind_eq_ok ensured checked)

/-! ## Justified histories -/

variable {α : Type}

/-- The later of two lists that differ by one element at the end. -/
theorem split_concat {l pre post : List α} {x y : α} (h : l ++ [x] = pre ++ y :: post) :
    (pre = l ∧ y = x) ∨ ∃ post', l = pre ++ y :: post' := by
  rcases eq_nil_or_concat post with rfl | ⟨post', z, rfl⟩
  · obtain ⟨hl, hx⟩ := append_inj' h rfl
    exact .inl ⟨hl.symm, (singleton_inj.mp hx).symm⟩
  · rw [concat_eq_append, ← cons_append, ← append_assoc] at h
    exact .inr ⟨post', (append_inj' h rfl).1⟩

variable (W : Setting)

/-- **What justifies an event**, given all that came before it. -/
def Justified (past : List Event) : Event → Prop
  | .accepted a =>
    validEnrollment W.scheme a.enrollment = true ∧ checkKeys W.scheme a.enrollment a.keys = true ∧
      verifyCommand W.toPlatform W.scheme a.enrollment a.keys a.signed = true ∧
      a.signed.command.issuedAt ≤ a.now ∧ a.now < a.signed.command.expiresAt ∧
      ∀ b, .accepted b ∈ past → b.signed.command.sequence < a.signed.command.sequence
  | .prepared signed answer =>
    (∃ a, .accepted a ∈ past ∧ a.signed = signed) ∧
      ∀ r, answer = .ok r → r.plan.intent = signed.command.intent
  | .executed signed plan _ =>
    (∃ a, .accepted a ∈ past ∧ a.signed = signed) ∧
      ∃ signed' r, .prepared signed' (.ok r) ∈ past ∧ r.plan.intent = signed.command.intent ∧
        r.digest = signed.command.planDigest ∧ ∀ p ∈ plan, p = r

/-- **The journal is backed by the history.** -/
structure Backed (history : List Event) (j : Journal) : Prop where
  accepted : ∃ a, .accepted a ∈ history ∧ a.signed = j.accepted
  plan : ∀ r, j.plan = some r → ∃ signed, .prepared signed (.ok r) ∈ history
  about : j.accepted.command.action ≠ .prepare → ∃ r, j.plan = some r ∧
    r.digest = j.accepted.command.planDigest ∧ r.plan.intent = j.accepted.command.intent

variable {j : Journal}

theorem Backed.append {history : List Event} (h : Backed history j)
    (new : List Event) : Backed (history ++ new) j where
  accepted := by
    obtain ⟨a, ha, haj⟩ := h.accepted
    exact ⟨a, mem_append_left _ ha, haj⟩
  plan r hr := by
    obtain ⟨signed, hsigned⟩ := h.plan r hr
    exact ⟨signed, mem_append_left _ hsigned⟩
  about := h.about

/-- **The invariant.** -/
structure Orderly (s : ControlState) : Prop where
  justified : ∀ pre ev post, s.history = pre ++ ev :: post → Justified W pre ev
  last : ∀ a, .accepted a ∈ s.history → ∃ j, s.journal.secret.content.journal = .stored j ∧
    a.signed.command.sequence ≤ j.accepted.command.sequence
  journal : ∀ j, s.journal.secret.content.journal = .stored j → Backed s.history j

/-! ## The generation floor -/

/-- The trust state `a` is not behind `r`: a later generation, or the same state. -/
def NotBehind (r a : Authority) : Prop := r.generation < a.generation ∨ a = r

theorem NotBehind.refl (r : Authority) : NotBehind r r := .inr rfl

variable {r : Authority}

theorem NotBehind.trans {a b : Authority} (h : NotBehind r a) (h' : NotBehind a b) :
    NotBehind r b := by
  rcases h' with h' | rfl
  · rcases h with h | rfl
    · exact .inl (h.trans h')
    · exact .inl h'
  · exact h

/-- The recorded floor. -/
def ControlState.trust (s : ControlState) : Slot Authority := s.journal.secret.content.trust

/-- **What may have happened between two states**: the history has grown, a recorded floor
has not fallen, and no command was accepted below it. -/
def Since (s s' : ControlState) : Prop :=
  ∃ new, s'.history = s.history ++ new ∧ ∀ r, s.trust = .stored r →
    (∃ r', s'.trust = .stored r' ∧ NotBehind r r') ∧
      ∀ a, .accepted a ∈ new → ∃ current, a.enrollment.authority = some current ∧
        NotBehind r current

theorem Since.refl (s : ControlState) : Since s s :=
  ⟨[], (append_nil _).symm, fun r hr => ⟨⟨r, hr, .refl r⟩, fun _ ha => nomatch ha⟩⟩

variable {s' : ControlState}

variable {s : ControlState}

theorem Since.trans {s'' : ControlState} (h : Since s s') (h' : Since s' s'') : Since s s'' := by
  obtain ⟨new, hnew, hfloor⟩ := h
  obtain ⟨new', hnew', hfloor'⟩ := h'
  refine ⟨new ++ new', by rw [hnew', hnew, append_assoc], fun r hr => ?_⟩
  obtain ⟨⟨r', hr', hle⟩, hmem⟩ := hfloor r hr
  obtain ⟨⟨r'', hr'', hle'⟩, hmem'⟩ := hfloor' r' hr'
  refine ⟨⟨r'', hr'', hle.trans hle'⟩, fun a ha => ?_⟩
  rcases mem_append.mp ha with ha | ha
  · exact hmem a ha
  · obtain ⟨current, hcurrent, hle''⟩ := hmem' a ha
    exact ⟨current, hcurrent, hle.trans hle''⟩

theorem notBehind_of_checkFloor {current : Option Authority}
    (h : checkFloor (some r) current = .ok ()) : ∃ a, current = some a ∧ NotBehind r a := by
  cases current with
  | none => cases h
  | some a =>
    refine ⟨a, rfl, ?_⟩
    unfold checkFloor at h
    dsimp only at h
    split at h
    next => cases h
    next hge =>
      split at h
      next => cases h
      next hsame =>
        by_cases hgen : a.generation = r.generation
        · exact .inr (not_not.mp fun hne => hsame ⟨hgen, hne⟩)
        · exact .inl (by omega)

variable {recorded : Option Authority}

theorem parseTrustRecord_stored {stored : Slot Authority}
    (h : parseTrustRecord W.scheme stored = .ok recorded)
    (hr : stored = .stored r) : recorded = some r := by
  subst hr
  unfold parseTrustRecord at h
  dsimp only at h
  split at h
  · exact (Except.ok.inj h).symm
  · cases h

/-! ## Single events -/

variable {W}

/-- Nothing that matters for the invariant is changed. -/
def Same (s s' : ControlState) : Prop := s'.journal = s.journal ∧ s'.history = s.history

theorem Orderly.same (h : Orderly W s) (hs : Same s s') : Orderly W s' where
  justified := by rw [hs.2]; exact h.justified
  last := by rw [hs.1, hs.2]; exact h.last
  journal := by rw [hs.1, hs.2]; exact h.journal

theorem Since.same {s'' : ControlState} (h : Since s s') (hs : Same s' s'') : Since s s'' := by
  refine h.trans ⟨[], by rw [hs.2, append_nil], fun r hr => ⟨⟨r, ?_, .refl r⟩, ?_⟩⟩
  · rw [ControlState.trust, hs.1]
    exact hr
  · exact fun _ ha => nomatch ha

variable {ev : Event}

/-- **One more event**: it is justified, and it is not an acceptance. -/
theorem Orderly.event (h : Orderly W s)
    (hev : Justified W s.history ev) (hnot : ∀ a, ev ≠ .accepted a) (cl : Cluster) :
    Orderly W { s with cluster := cl, history := s.history ++ [ev] } where
  justified pre ev' post hsplit := by
    rcases split_concat hsplit with ⟨rfl, rfl⟩ | ⟨post', hpost⟩
    · exact hev
    · exact h.justified pre ev' post' hpost
  last a ha := by
    rcases mem_append.mp ha with ha | ha
    · exact h.last a ha
    · exact absurd (mem_singleton.mp ha).symm (hnot a)
  journal j hj := (h.journal j hj).append _

theorem Since.event {s₀ : ControlState} (h : Since s₀ s) (hnot : ∀ a, ev ≠ .accepted a)
    (cl : Cluster) : Since s₀ { s with cluster := cl, history := s.history ++ [ev] } := by
  refine h.trans ⟨[ev], rfl, fun r hr => ⟨⟨r, hr, .refl r⟩, fun a ha => ?_⟩⟩
  exact absurd (mem_singleton.mp ha).symm (hnot a)

/-- Another journal about the same accepted command. -/
theorem Orderly.putJournal (h : Orderly W s) {j' : Journal}
    (hj : s.journal.secret.content.journal = .stored j)
    (hj' : s'.journal.secret.content.journal = .stored j') (hhistory : s'.history = s.history)
    (haccepted : j'.accepted = j.accepted)
    (hplan : j'.plan = j.plan ∨ j.accepted.command.action = .prepare ∧
      ∃ r signed, j'.plan = some r ∧ .prepared signed (.ok r) ∈ s.history) : Orderly W s' where
  justified := by rw [hhistory]; exact h.justified
  last a ha := by
    rw [hhistory] at ha
    obtain ⟨j₁, hj₁, hle⟩ := h.last a ha
    obtain rfl : j = j₁ := Slot.stored.inj (hj.symm.trans hj₁)
    exact ⟨j', hj', haccepted ▸ hle⟩
  journal j₁ hj₁ := by
    obtain rfl : j' = j₁ := Slot.stored.inj (hj'.symm.trans hj₁)
    have hback := h.journal j hj
    rw [hhistory]
    refine ⟨haccepted ▸ hback.accepted, fun r hr => ?_, fun hnot => ?_⟩
    · rcases hplan with hplan | ⟨-, r', signed, hr', hmem⟩
      · exact hback.plan r (hplan ▸ hr)
      · obtain rfl : r' = r := Option.some.inj (hr'.symm.trans hr)
        exact ⟨signed, hmem⟩
    · rw [haccepted] at hnot ⊢
      rcases hplan with hplan | ⟨hprepare, -⟩
      · rw [hplan]
        exact hback.about hnot
      · exact absurd hprepare hnot

/-! ## Programs that keep the invariant -/

/-- Every state that the program goes through satisfies `inv`. -/
abbrev Keeps (W : Setting) (t : Target) (inv : ControlState → Prop) {α : Type} (p : Control α)
    (s : ControlState) : Prop :=
  Prog.Safe (execControl W t) inv (fun _ _ => True) p.run s

section Keeps

variable {ε : Type} {exec : (c : ControllerCall) → ε → ControlState → ControllerAns c × ControlState}
  {inv : ControlState → Prop} {α β : Type} {s : ControlState}

variable {f : α → Control β}

theorem keeps_bind {p : Control α}
    (mid : Except RolloutError α → ControlState → Prop) (h : Prog.Safe exec inv mid p.run s)
    (hf : ∀ a s, inv s → mid (.ok a) s → Prog.Safe exec inv (fun _ _ => True) (f a).run s) :
    Prog.Safe exec inv (fun _ _ => True) (p >>= f).run s :=
  Prog.safe_except_bind h (fun _ _ _ _ => trivial) hf

theorem keeps_check {r : Except RolloutError α} (hs : inv s)
    (hf : ∀ a, r = .ok a → Prog.Safe exec inv (fun _ _ => True) (f a).run s) :
    Prog.Safe exec inv (fun _ _ => True) (Control.check r >>= f).run s := by
  cases r with
  | error err => exact ⟨hs, trivial⟩
  | ok a => exact hf a rfl

theorem keeps_throw {err : RolloutError} (hs : inv s) :
    Prog.Safe exec inv (fun _ _ => True) (throw err : Control α).run s := ⟨hs, trivial⟩

/-! ### Carrying a command out -/

/-- **What the command of `j` has to keep, call by call**, while the journal Secret is `secret`.
`prepared` is what is known about a plan that has just been prepared. -/
structure Carries (exec : (c : ControllerCall) → ε → ControlState → ControllerAns c × ControlState)
    (inv : ControlState → Prop) (prepared : Record → ControlState → Prop)
    (secret : Secret JournalContent) (j : Journal) : Prop where
  prepare : j.accepted.command.action = .prepare → ∀ s x, inv s → s.journal.secret = secret →
    inv (exec (.prepare j.accepted) x s).2 ∧
      (exec (.prepare j.accepted) x s).2.journal.secret = secret ∧
      ∀ r, (exec (.prepare j.accepted) x s).1 = .ok r → prepared r (exec (.prepare j.accepted) x s).2
  execute : j.accepted.command.action ≠ .prepare → ∀ plan step s x, plan = none ∨ plan = j.plan →
    inv s → s.journal.secret = secret → inv (exec (.execute j.accepted plan step) x s).2 ∧
      (exec (.execute j.accepted plan step) x s).2.journal.secret = secret
  respond : ∀ j' response s, (j' = j ∨ j.accepted.command.action = .prepare ∧
      ∃ r, j' = { j with plan := some r } ∧ prepared r s) → inv s → s.journal.secret = secret →
    Prog.Safe exec inv (fun _ _ => True) (respond secret j' response).run s

variable {prepared : Record → ControlState → Prop} {secret : Secret JournalContent} {j : Journal}
  {W : Setting} {e : Enrollment}

theorem Carries.respondReceipt (h : Carries exec inv prepared secret j) (hs : inv s)
    (hsecret : s.journal.secret = secret) (answer : Except RolloutError Receipt) :
    Prog.Safe exec inv (fun _ _ => True) (respondReceipt W e secret j answer).run s := by
  cases answer with
  | ok receipt => exact h.respond j _ s (.inl rfl) hs hsecret
  | error err =>
    unfold Rollout.respondReceipt
    dsimp only
    split
    · exact keeps_throw hs
    · exact h.respond j _ s (.inl rfl) hs hsecret

/-- A call about the plan in the journal. -/
theorem Carries.execute_bind {plan : Option Record} {step : ExecutorStep}
    {f : Except RolloutError Receipt → Control Unit} (h : Carries exec inv prepared secret j)
    (haction : j.accepted.command.action ≠ .prepare) (hplan : plan = none ∨ plan = j.plan)
    (hs : inv s) (hsecret : s.journal.secret = secret)
    (hf : ∀ answer s, inv s → s.journal.secret = secret →
      Prog.Safe exec inv (fun _ _ => True) (f answer).run s) :
    Prog.Safe exec inv (fun _ _ => True) (Control.execute j.accepted plan step >>= f).run s := by
  refine keeps_bind (fun _ s' => s'.journal.secret = secret) ⟨hs, fun x => ?_⟩
    fun answer s' hs' hsecret' => hf answer s' hs' hsecret'
  exact h.execute haction plan step s x hplan hs hsecret

theorem Carries.runAccepted (h : Carries exec inv prepared secret j) (hs : inv s)
    (hsecret : s.journal.secret = secret) :
    Prog.Safe exec inv (fun _ _ => True) (runAccepted W e secret j).run s := by
  refine keeps_check hs fun _ _ => ?_
  cases haction : j.accepted.command.action with
  | prepare =>
    refine keeps_bind (fun answer s' => s'.journal.secret = secret ∧
      ∀ r, answer = .ok (.ok r) → prepared r s') ⟨hs, fun x => ?_⟩ fun answer s' hs' hanswer => ?_
    · obtain ⟨hinv, hsame, hprepared⟩ := h.prepare haction s x hs hsecret
      exact ⟨hinv, hsame, fun r hr => hprepared r (Except.ok.inj hr)⟩
    · cases answer with
      | error err =>
        dsimp only
        split
        · exact keeps_throw hs'
        · exact h.respond j _ s' (.inl rfl) hs' hanswer.1
      | ok r =>
        refine keeps_check hs' fun _ _ => ?_
        exact h.respond _ _ s' (.inr ⟨haction, r, rfl, hanswer.2 r rfl⟩) hs' hanswer.1
  | submit =>
    refine keeps_check hs fun _ _ => ?_
    refine h.execute_bind (haction ▸ nofun) (.inr rfl) hs hsecret ?_
    exact fun answer s hs hsecret => h.respondReceipt hs hsecret answer
  | observe =>
    refine h.execute_bind (haction ▸ nofun) (.inl rfl) hs hsecret ?_
    exact fun answer s hs hsecret => h.respondReceipt hs hsecret answer
  | restore =>
    refine h.execute_bind (haction ▸ nofun) (.inr rfl) hs hsecret ?_
    intro answer s hs hsecret
    split
    · refine h.execute_bind (haction ▸ nofun) (.inl rfl) hs hsecret ?_
      exact fun answer s hs hsecret => h.respondReceipt hs hsecret answer
    · exact h.respondReceipt hs hsecret _
  | other name => exact keeps_throw hs

end Keeps

/-! ## One pass -/

variable {e : Enrollment} {keys : PublicKeys} {s₀ s : ControlState}

/-- **The states of a pass** that began in `s₀`: orderly ones, with no acceptance but the
installed enrollment's. -/
structure Pass (W : Setting) (e : Enrollment) (keys : PublicKeys) (s₀ s : ControlState) :
    Prop where
  orderly : Orderly W s
  since : Since s₀ s
  own : ∀ a, .accepted a ∈ s.history → .accepted a ∈ s₀.history ∨ a.enrollment = e ∧ a.keys = keys

theorem Pass.start (h : Orderly W s) : Pass W e keys s s := ⟨h, .refl s, fun _ ha => .inl ha⟩

theorem Pass.same (h : Pass W e keys s₀ s) (hs : Same s s') : Pass W e keys s₀ s' where
  orderly := h.orderly.same hs
  since := h.since.same hs
  own := by rw [hs.2]; exact h.own

theorem Pass.event (h : Pass W e keys s₀ s) (hev : Justified W s.history ev)
    (hnot : ∀ a, ev ≠ .accepted a) (cl : Cluster) :
    Pass W e keys s₀ { s with cluster := cl, history := s.history ++ [ev] } where
  orderly := h.orderly.event hev hnot cl
  since := h.since.event hnot cl
  own a ha := by
    rcases mem_append.mp ha with ha | ha
    · exact h.own a ha
    · exact absurd (mem_singleton.mp ha).symm (hnot a)

/-- The journal is rewritten, with the same floor and about the same command. -/
theorem Pass.putJournal (h : Pass W e keys s₀ s) {j' : Journal}
    (hj : s.journal.secret.content.journal = .stored j)
    (hj' : s'.journal.secret.content.journal = .stored j') (htrust : s'.trust = s.trust)
    (hhistory : s'.history = s.history) (haccepted : j'.accepted = j.accepted)
    (hplan : j'.plan = j.plan ∨ j.accepted.command.action = .prepare ∧
      ∃ r signed, j'.plan = some r ∧ .prepared signed (.ok r) ∈ s.history) :
    Pass W e keys s₀ s' where
  orderly := h.orderly.putJournal hj hj' hhistory haccepted hplan
  since := by
    refine h.since.trans ⟨[], by rw [hhistory, append_nil], fun r hr => ?_⟩
    exact ⟨⟨r, htrust.trans hr, .refl r⟩, fun _ ha => nomatch ha⟩
  own := by rw [hhistory]; exact h.own

/-- **What a write of the journal can do**: nothing, or all of it. -/
theorem putJournal_cases (t : Target) (secret : Secret JournalContent) (x : Choice)
    (s : ControlState) : Same s (execControl W t (.putJournal secret) x s).2 ∨
      (execControl W t (.putJournal secret) x s).2.journal.secret.content = secret.content ∧
        (execControl W t (.putJournal secret) x s).2.history = s.history := by
  rcases putSecret_cases s.journal.secret secret x.reply with ⟨hkeep, -, -⟩ | ⟨hput, -, -, -⟩
  · exact .inl ⟨congrArg (JournalSecret.mk s.journal.name) hkeep, rfl⟩
  · exact .inr ⟨(congrArg Secret.content hput :), rfl⟩

variable {t : Target}

variable {secret : Secret JournalContent}

theorem respond_keeps (j' : Journal) (h : Pass W e keys s₀ s) (hsecret : s.journal.secret = secret)
    (hj : secret.content.journal = .stored j) (haccepted : j'.accepted = j.accepted)
    (hplan : j'.plan = j.plan ∨ j.accepted.command.action = .prepare ∧
      ∃ r signed, j'.plan = some r ∧ .prepared signed (.ok r) ∈ s.history) (response : Response) :
    Keeps W t (Pass W e keys s₀) (respond secret j' response) s := by
  subst hsecret
  refine keeps_bind (fun _ _ => True) ⟨h, fun x => ⟨?_, trivial⟩⟩ fun _ s hs _ => ?_
  · rcases putJournal_cases t { s.journal.secret with content :=
      { s.journal.secret.content with journal := .stored { j' with response := some response } } }
      x s with hsame | ⟨hcontent, hhistory⟩
    · exact h.same hsame
    · exact h.putJournal hj (congrArg JournalContent.journal hcontent :)
        (congrArg JournalContent.trust hcontent :) hhistory haccepted hplan
  · exact ⟨hs, fun x => ⟨hs.same ⟨rfl, rfl⟩, trivial⟩⟩

variable {r : Record}

/-- The answer of a preparation is about the command's intent. -/
theorem intent_of_prepareApi {command : Command} {calls : Option (List (Edit × Reply))}
    {cl : Cluster} (h : (runApi (prepareApi W t command) calls cl).1 = .ok r) :
    r.plan.intent = command.intent := by
  cases calls with
  | none => exact intent_of_prepareFor h
  | some l =>
    cases l with
    | nil => cases h
    | cons x l =>
      obtain ⟨edit, reply⟩ := x
      cases reply with
      | ok => exact intent_of_prepareFor h
      | lost | failed err => cases h

/-- **Carrying the accepted command out keeps the history in order.** -/
theorem carries_pass
    (hj : secret.content.journal = .stored j) : Carries (execControl W t) (Pass W e keys s₀)
      (fun r s => .prepared j.accepted (.ok r) ∈ s.history) secret j where
  prepare _ s x h hsecret := by
    have hback := h.orderly.journal j (hsecret ▸ hj)
    have hev : Justified W s.history (.prepared j.accepted
        (runApi (prepareApi W t j.accepted.command) x.calls (s.cluster.edited x.edit)).1) :=
      ⟨hback.accepted, fun r hr => intent_of_prepareApi hr⟩
    refine ⟨h.event hev (fun _ hev => nomatch hev) _, hsecret, fun r hr => ?_⟩
    refine mem_append_right _ (mem_singleton.mpr ?_)
    exact congrArg _ hr.symm
  execute haction plan step s x hplan h hsecret := by
    have hback := h.orderly.journal j (hsecret ▸ hj)
    obtain ⟨r, hr, hdigest, hintent⟩ := hback.about haction
    obtain ⟨signed, hsigned⟩ := hback.plan r hr
    have hev : Justified W s.history (.executed j.accepted plan step) := by
      refine ⟨hback.accepted, signed, r, hsigned, hintent, hdigest, fun p hp => ?_⟩
      rcases hplan with rfl | rfl
      · cases hp
      · exact Option.some.inj ((Option.mem_def.mp hp).symm.trans hr)
    exact ⟨h.event hev (fun _ hev => nomatch hev) _, hsecret⟩
  respond j' response s hj' h hsecret := by
    rcases hj' with rfl | ⟨haction, r, rfl, hprepared⟩
    · exact respond_keeps j' h hsecret hj rfl (.inl rfl) response
    · exact respond_keeps { j with plan := some r } h hsecret hj rfl
        (.inr ⟨haction, r, j.accepted, rfl, hprepared⟩) response

theorem finishAccepted_keeps (h : Pass W e keys s₀ s) (hsecret : s.journal.secret = secret)
    (hj : secret.content.journal = .stored j) :
    Keeps W t (Pass W e keys s₀) (finishAccepted W e secret j) s := by
  unfold finishAccepted
  split
  · exact ⟨h, fun x => ⟨h.same ⟨rfl, rfl⟩, trivial⟩⟩
  · exact (carries_pass hj).runAccepted h hsecret

/-! ## Acceptance -/

variable {journal : Option Journal}

theorem loadJournal_eq_ok {slot : Slot Journal} (h : loadJournal W e keys slot = .ok journal) :
    (slot = .absent ∧ journal = none) ∨ ∃ j, slot = .stored j ∧ journal = some j ∧
      W.journalFits j = true ∧ anchored W.toPlatform W.scheme e keys j.accepted = true := by
  cases slot with
  | absent => exact .inl ⟨rfl, (Except.ok.inj h).symm⟩
  | garbled => cases h
  | stored j =>
    unfold loadJournal at h
    dsimp only at h
    split at h
    next hj => exact .inr ⟨j, rfl, (Except.ok.inj h).symm, hj⟩
    next => cases h

variable {signed : SignedCommand}

theorem eq_of_isAccepted (h : isAccepted W signed (some j) = true) : signed = j.accepted :=
  W.digest_inj.mp (of_decide_eq_true h)

variable {next : Journal}

/-- The journal of an acceptance holds the command, without a response, and the plan it is
about. -/
theorem acceptedJournal_eq_ok (h : acceptedJournal signed journal = .ok next) :
    next.accepted = signed ∧ next.response = none ∧
      (signed.command.action = .prepare ∧ next.plan = none ∨
        ∃ r, journal.bind Journal.plan = some r ∧ next.plan = some r ∧
          r.digest = signed.command.planDigest ∧ r.plan.intent = signed.command.intent) := by
  unfold acceptedJournal at h
  dsimp only at h
  split at h
  next haction =>
    obtain ⟨hplan, h⟩ := checked h
    cases h
    obtain ⟨r, hr, hmatch⟩ := (Option.any_eq_true _ _).mp hplan
    rw [Bool.and_eq_true, decide_eq_true_eq, decide_eq_true_eq] at hmatch
    exact ⟨rfl, rfl, .inr ⟨r, hr, hr, hmatch.1, hmatch.2⟩⟩
  next haction =>
    have haction := not_not.mp haction
    split at h
    · obtain ⟨_, _, h⟩ := bind_ok h
      cases h
      exact ⟨rfl, rfl, .inl ⟨haction, rfl⟩⟩
    · cases h
      exact ⟨rfl, rfl, .inl ⟨haction, rfl⟩⟩

/-- **What the write of an acceptance can do**: nothing, or all of it. -/
theorem acceptCommand_cases (t : Target) (secret : Secret JournalContent) (a : Acceptance)
    (x : Choice) (s : ControlState) : (Same s (execControl W t (.acceptCommand secret a) x s).2 ∧
        ∃ err, (execControl W t (.acceptCommand secret a) x s).1 = .error err) ∨
      (execControl W t (.acceptCommand secret a) x s).2.journal.secret.content = secret.content ∧
        (execControl W t (.acceptCommand secret a) x s).2.history = s.history ++ [.accepted a] ∧
        ∀ j, (execControl W t (.acceptCommand secret a) x s).1 = .ok j →
          (execControl W t (.acceptCommand secret a) x s).2.journal.secret = j := by
  rcases putSecret_cases s.journal.secret secret x.reply with
    ⟨hkeep, herr, hnot⟩ | ⟨hput, hversion, hdone, hok⟩
  · refine .inl ⟨⟨congrArg (JournalSecret.mk s.journal.name) hkeep, ?_⟩, herr⟩
    show s.history ++ (if _ then _ else _) = s.history
    rw [if_neg hnot, append_nil]
  · refine .inr ⟨(congrArg Secret.content hput :), ?_, fun j hj => hput.trans (hok j hj).symm⟩
    show s.history ++ (if _ then _ else _) = _
    rw [if_pos ⟨hversion, hdone⟩]

variable {a : Acceptance}

/-- **An acceptance keeps the invariant.** -/
theorem Pass.accept (h : Pass W e keys s₀ s)
    (hown : a.enrollment = e ∧ a.keys = keys) (hjustified : Justified W s.history (.accepted a))
    (hparse : parseTrustRecord W.scheme s.trust = .ok recorded)
    (hfloor : checkFloor recorded e.authority = .ok ()) (hnext : next.accepted = a.signed)
    (hplan : a.signed.command.action = .prepare ∧ next.plan = none ∨
      ∃ j r, s.journal.secret.content.journal = .stored j ∧ j.plan = some r ∧
        next.plan = some r ∧ r.digest = a.signed.command.planDigest ∧
        r.plan.intent = a.signed.command.intent)
    (hcontent : s'.journal.secret.content = ⟨raisedTrust e s.trust recorded, .stored next⟩)
    (hhistory : s'.history = s.history ++ [.accepted a]) : Pass W e keys s₀ s' where
  orderly := by
    refine ⟨fun pre ev post hsplit => ?_, fun b hb => ?_, fun j hj => ?_⟩
    · rw [hhistory] at hsplit
      rcases split_concat hsplit with ⟨rfl, rfl⟩ | ⟨post', hpost⟩
      · exact hjustified
      · exact h.orderly.justified pre ev post' hpost
    · refine ⟨next, congrArg JournalContent.journal hcontent, ?_⟩
      rw [hhistory] at hb
      rw [hnext]
      rcases mem_append.mp hb with hb | hb
      · exact UInt64.le_of_lt (hjustified.2.2.2.2.2 b hb)
      · obtain rfl := Event.accepted.inj (mem_singleton.mp hb)
        exact UInt64.le_refl _
    · obtain rfl : next = j :=
        Slot.stored.inj ((congrArg JournalContent.journal hcontent).symm.trans hj)
      rw [hhistory]
      refine ⟨⟨a, mem_append_right _ (mem_singleton.mpr rfl), hnext.symm⟩,
        fun r hr => ?_, fun haction => ?_⟩
      · rcases hplan with ⟨-, hnone⟩ | ⟨j, r', hj', hr', hsome, -, -⟩
        · exact absurd (hnone.symm.trans hr) nofun
        · obtain rfl : r' = r := Option.some.inj (hsome.symm.trans hr)
          obtain ⟨signed, hsigned⟩ := (h.orderly.journal j hj').plan r' hr'
          exact ⟨signed, mem_append_left _ hsigned⟩
      · rw [hnext] at haction ⊢
        rcases hplan with ⟨hprepare, -⟩ | ⟨j, r, -, -, hsome, hdigest, hintent⟩
        · exact absurd hprepare haction
        · exact ⟨r, hsome, hdigest, hintent⟩
  since := by
    refine h.since.trans ⟨[.accepted a], hhistory, fun r hr => ?_⟩
    obtain rfl := parseTrustRecord_stored W hparse hr
    obtain ⟨current, hcurrent, hle⟩ := notBehind_of_checkFloor hfloor
    have htrust : s'.trust = raisedTrust e s.trust (some r) :=
      congrArg JournalContent.trust hcontent
    refine ⟨?_, fun b hb => ?_⟩
    · rw [htrust]
      unfold raisedTrust
      rw [hcurrent]
      dsimp only
      split
      · exact ⟨current, rfl, hle⟩
      · exact ⟨r, hr, .refl r⟩
    · obtain rfl := Event.accepted.inj (mem_singleton.mp hb)
      exact ⟨current, hown.1 ▸ hcurrent, hle⟩
  own b hb := by
    rw [hhistory] at hb
    rcases mem_append.mp hb with hb | hb
    · exact h.own b hb
    · obtain rfl := Event.accepted.inj (mem_singleton.mp hb)
      exact .inr hown

/-- A command above the accepted sequence is the one that was read, and it is new. -/
theorem fresh_of_above {fresh : Bool} (hfresh : fresh = true ∨ isAccepted W signed journal = true)
    (habove : acceptedSequence journal < (selectCommand signed journal).command.sequence) :
    selectCommand signed journal = signed ∧ fresh = true := by
  cases journal with
  | none =>
    rcases hfresh with hfresh | hfalse
    · exact ⟨rfl, hfresh⟩
    · cases hfalse
  | some j =>
    have hselect : selectCommand signed (some j) = signed := by
      unfold selectCommand at habove ⊢
      dsimp only at habove ⊢
      split
      next hcond =>
        rw [if_pos hcond] at habove
        exact absurd habove (UInt64.lt_irrefl _)
      next => rfl
    refine ⟨hselect, ?_⟩
    rcases hfresh with hfresh | hsame
    · exact hfresh
    · rw [hselect, eq_of_isAccepted hsame] at habove
      exact absurd habove (UInt64.lt_irrefl _)

theorem fixedJournal_eq_ok {j : JournalSecret}
    (h : fixedJournal e j = .ok secret) : secret = j.secret := by
  obtain ⟨_, _, h⟩ := bind_ok h
  obtain ⟨_, _, h⟩ := bind_ok h
  exact (Except.ok.inj h).symm

theorem eq_of_answerRead {a b : α} {r : Reply} (h : answerRead a r = .ok b) : a = b := by
  cases r with
  | ok => exact Except.ok.inj h
  | lost | failed err => cases h

/-- **A new command is accepted and carried out.** -/
theorem accept_keeps
    (henrolled : validEnrollment W.scheme e = true) (hkeys : checkKeys W.scheme e keys = true)
    (h : Pass W e keys s₀ s) (hsecret : s.journal.secret = secret)
    (hrecorded : parseTrustRecord W.scheme secret.content.trust = .ok recorded)
    (hfloor : checkFloor recorded e.authority = .ok ())
    (hjournal : loadJournal W e keys secret.content.journal = .ok journal)
    (hfresh : verifyCommand W.toPlatform W.scheme e keys signed = true)
    (habove : acceptedSequence journal < signed.command.sequence) :
    Keeps W e.target (Pass W e keys s₀) (do
      let now ← Control.now
      Control.check (ensure (signed.command.issuedAt ≤ now ∧ now < signed.command.expiresAt)
        .invalid)
      let next ← Control.check (acceptedJournal signed journal)
      let secret ← Control.acceptCommand { secret with content :=
        ⟨raisedTrust e secret.content.trust recorded, .stored next⟩ } ⟨signed, e, keys, now⟩
      finishAccepted W e secret next) s := by
  refine keeps_bind (fun _ s' => s'.journal.secret = secret)
    ⟨h, fun x => ⟨h.same ⟨rfl, rfl⟩, hsecret⟩⟩ fun now s₁ hs₁ hsecret₁ => ?_
  refine keeps_check hs₁ fun _ hwindow => keeps_check hs₁ fun next hnext => ?_
  have hwindow := ensured hwindow
  obtain ⟨haccepted, -, hplan⟩ := acceptedJournal_eq_ok hnext
  subst hsecret₁
  have hjustified : Justified W s₁.history (.accepted ⟨signed, e, keys, now⟩) := by
    refine ⟨henrolled, hkeys, hfresh, hwindow.1, hwindow.2, fun b hb => ?_⟩
    obtain ⟨j, hj, hle⟩ := hs₁.orderly.last b hb
    rcases loadJournal_eq_ok hjournal with ⟨habsent, -⟩ | ⟨j', hj', rfl, -, -⟩
    · cases hj.symm.trans habsent
    · obtain rfl : j = j' := Slot.stored.inj (hj.symm.trans hj')
      exact UInt64.lt_of_le_of_lt hle habove
  have hplan' : signed.command.action = .prepare ∧ next.plan = none ∨
      ∃ j r, s₁.journal.secret.content.journal = .stored j ∧ j.plan = some r ∧
        next.plan = some r ∧ r.digest = signed.command.planDigest ∧
        r.plan.intent = signed.command.intent := by
    rcases hplan with hprepare | ⟨r, hr, hkept, hdigest, hintent⟩
    · exact .inl hprepare
    · rcases loadJournal_eq_ok hjournal with ⟨-, rfl⟩ | ⟨j, hj, rfl, -, -⟩
      · cases hr
      · exact .inr ⟨j, r, hj, hr, hkept, hdigest, hintent⟩
  refine keeps_bind (fun a s' => ∀ j, a = .ok j → s'.journal.secret = j ∧
    j.content.journal = .stored next) ⟨hs₁, fun x => ?_⟩
    fun j s₂ hs₂ hj => finishAccepted_keeps hs₂ (hj j rfl).1 (hj j rfl).2
  rcases acceptCommand_cases e.target { s₁.journal.secret with content :=
    ⟨raisedTrust e s₁.journal.secret.content.trust recorded, .stored next⟩ }
    ⟨signed, e, keys, now⟩ x s₁ with ⟨hsame, err, herr⟩ | ⟨hcontent, hhistory, hok⟩
  · exact ⟨hs₁.same hsame, fun j hj => nomatch herr.symm.trans hj⟩
  · refine ⟨hs₁.accept ⟨rfl, rfl⟩ hjustified hrecorded hfloor haccepted hplan' hcontent hhistory,
      fun j hj => ⟨hok j hj, ?_⟩⟩
    rw [← hok j hj]
    exact congrArg JournalContent.journal hcontent

/-- **One pass keeps the invariant**, whatever it reads and wherever it stops. -/
theorem reconcile_keeps (henrolled : validEnrollment W.scheme e = true)
    (hkeys : checkKeys W.scheme e keys = true) (h : Orderly W s) :
    Keeps W e.target (Pass W e keys s) (reconcile W e keys) s := by
  have hstart : Pass W e keys s s := .start h
  refine keeps_bind (fun _ _ => True)
    ⟨hstart, fun x => ⟨hstart.same ⟨rfl, rfl⟩, trivial⟩⟩ fun mailbox s₁ hs₁ _ => ?_
  cases mailbox with
  | absent => exact ⟨hs₁, trivial⟩
  | garbled => exact keeps_throw hs₁
  | stored signed =>
    refine keeps_bind (fun a s' => ∀ j, a = .ok j → s'.journal = j)
      ⟨hs₁, fun x => ⟨hs₁.same ⟨rfl, rfl⟩, fun j hj => eq_of_answerRead hj⟩⟩ fun j s₂ hs₂ hj => ?_
    refine keeps_check hs₂ fun secret hsecret => keeps_check hs₂ fun recorded hrecorded => ?_
    refine keeps_check hs₂ fun _ hfloor => keeps_check hs₂ fun journal hjournal => ?_
    refine keeps_check hs₂ fun _ hfresh => keeps_check hs₂ fun _ _ => ?_
    have hfresh := ensured hfresh
    have hsecret₂ : s₂.journal.secret = secret := by
      rw [fixedJournal_eq_ok hsecret, hj j rfl]
    split
    next habove =>
      obtain ⟨hselect, hfresh⟩ := fresh_of_above hfresh habove
      rw [hselect] at habove ⊢
      exact accept_keeps henrolled hkeys hs₂ hsecret₂ hrecorded hfloor hjournal hfresh habove
    next =>
      rcases loadJournal_eq_ok hjournal with ⟨-, rfl⟩ | ⟨j, hstored, rfl, -, -⟩
      · exact keeps_throw hs₂
      · exact finishAccepted_keeps hs₂ hsecret₂ hstored

/-- The floor is raised to a trust state that it lets through. -/
theorem Pass.raise {current : Authority}
    (h : Pass W e keys s₀ s) (hparse : parseTrustRecord W.scheme s.trust = .ok recorded)
    (hfloor : checkFloor recorded (some current) = .ok ()) (hcontent : s'.journal.secret.content =
      { s.journal.secret.content with trust := .stored current })
    (hhistory : s'.history = s.history) : Pass W e keys s₀ s' where
  orderly := by
    have hjournal : s'.journal.secret.content.journal = s.journal.secret.content.journal :=
      (congrArg JournalContent.journal hcontent :)
    refine ⟨?_, ?_, ?_⟩
    · rw [hhistory]
      exact h.orderly.justified
    · rw [hhistory, hjournal]
      exact h.orderly.last
    · rw [hhistory, hjournal]
      exact h.orderly.journal
  since := by
    refine h.since.trans ⟨[], by rw [hhistory, append_nil], fun r hr => ?_⟩
    obtain rfl := parseTrustRecord_stored W hparse hr
    obtain ⟨_, hsome, hle⟩ := notBehind_of_checkFloor hfloor
    cases hsome
    exact ⟨⟨current, (congrArg JournalContent.trust hcontent :), hle⟩, fun _ ha => nomatch ha⟩
  own := by rw [hhistory]; exact h.own

/-- **The check at the start keeps it as well**, and accepts nothing. -/
theorem reconcileTrust_keeps (h : Orderly W s) :
    Keeps W e.target (fun s' => Pass W e keys s s' ∧ s'.history = s.history)
      (reconcileTrust W e keys) s := by
  have hstart : Pass W e keys s s := .start h
  refine keeps_bind (fun a s' => ∀ j, a = .ok (.ok j) → s'.journal = j)
    ⟨⟨hstart, rfl⟩, fun x => ⟨⟨hstart.same ⟨rfl, rfl⟩, rfl⟩,
      fun j hj => eq_of_answerRead (Except.ok.inj hj)⟩⟩ fun answer s₁ hs₁ hanswer => ?_
  cases hfixed : answer.bind (fixedJournal e) with
  | error err =>
    dsimp only
    split
    · exact ⟨hs₁, trivial⟩
    · exact keeps_throw hs₁
  | ok secret =>
    obtain ⟨j, hj, hfixed⟩ := (except_bind_eq_ok answer (fixedJournal e) secret).mp hfixed
    have hsecret : s₁.journal.secret = secret := by
      rw [fixedJournal_eq_ok hfixed, hanswer j (congrArg Except.ok hj)]
    refine keeps_check hs₁ fun recorded hrecorded => keeps_check hs₁ fun _ hfloor => ?_
    cases hcurrent : e.authority with
    | none => exact ⟨hs₁, trivial⟩
    | some current =>
      dsimp only
      refine keeps_check hs₁ fun _ _ => ?_
      split
      · exact ⟨hs₁, trivial⟩
      · refine keeps_bind (fun _ _ => True) ⟨hs₁, fun x => ⟨?_, trivial⟩⟩
          fun _ s₂ hs₂ _ => ⟨hs₂, trivial⟩
        subst hsecret
        rcases putJournal_cases e.target { s₁.journal.secret with content :=
          { s₁.journal.secret.content with trust := .stored current } } x s₁ with
          hsame | ⟨hcontent, hhistory⟩
        · exact ⟨hs₁.1.same hsame, hsame.2.trans hs₁.2⟩
        · exact ⟨hs₁.1.raise hrecorded (hcurrent ▸ hfloor) hcontent hhistory, hhistory.trans hs₁.2⟩

/-! ## Runs -/

namespace ControllerSystem

/-- The invariant of the system: that of the state, and only checked enrollments run. -/
structure Orderly (W : Setting) (s : ControllerSystem) : Prop where
  state : Rollout.Orderly W s.state
  running : ∀ e keys, s.running = some (e, keys) →
    validEnrollment W.scheme e = true ∧ checkKeys W.scheme e keys = true

variable {s : ControllerSystem}

theorem Fresh.orderly (h : s.Fresh) : s.Orderly W where
  state := by
    refine ⟨fun pre ev post hsplit => ?_, fun a ha => ?_, fun j hj => ?_⟩
    · rw [h.history] at hsplit
      exact absurd hsplit.symm (append_ne_nil_of_right_ne_nil _ (cons_ne_nil _ _))
    · rw [h.history] at ha
      cases ha
    · cases h.journal.symm.trans hj
  running e keys hrunning := nomatch h.running.symm.trans hrunning

/-- What a step adds: orderly events, and no acceptance but the running enrollment's. -/
structure Step (W : Setting) (s s' : ControllerSystem) : Prop where
  orderly : s'.Orderly W
  since : Since s.state s'.state
  own : ∀ a, .accepted a ∈ s'.state.history → .accepted a ∈ s.state.history ∨
    s.running = some (a.enrollment, a.keys)

theorem Step.of_trust {e : Enrollment} {keys : PublicKeys} {state : ControlState}
    {running : Option (Enrollment × PublicKeys)} (h : Pass W e keys s.state state)
    (hhistory : state.history = s.state.history) (hrunning : ∀ e keys, running = some (e, keys) →
      validEnrollment W.scheme e = true ∧ checkKeys W.scheme e keys = true) :
    Step W s ⟨state, running⟩ where
  orderly := ⟨h.orderly, hrunning⟩
  since := h.since
  own _ ha := .inl (hhistory ▸ ha)

theorem step_orderly (h : s.Orderly W) (op : ControllerOp) : Step W s (step W s op) := by
  cases op with
  | start e keys choices =>
    simp only [step]
    split
    next hchecked =>
      have hkeeps : Keeps W e.target (fun s' => Pass W e keys s.state s' ∧
          s'.history = s.state.history) (reconcileTrust W e keys) s.state :=
        reconcileTrust_keeps h.state
      obtain ⟨⟨hpass, hhistory⟩, -⟩ := Prog.run_safe hkeeps choices
      split
      next state hrun =>
        rw [hrun] at hpass hhistory
        refine .of_trust hpass hhistory fun e' keys' hsome => ?_
        obtain ⟨rfl, rfl⟩ := Prod.mk.inj (Option.some.inj hsome)
        exact hchecked
      next state hrun =>
        rw [hrun] at hpass hhistory
        exact .of_trust hpass hhistory nofun
    next => exact ⟨⟨h.state, nofun⟩, .refl _, fun _ ha => .inl ha⟩
  | tick choices =>
    simp only [step]
    split
    next => exact ⟨h, .refl _, fun _ ha => .inl ha⟩
    next e keys hrunning =>
      obtain ⟨henrolled, hkeys⟩ := h.running e keys hrunning
      obtain ⟨hpass, -⟩ := Prog.run_safe (reconcile_keeps henrolled hkeys h.state) choices
      refine ⟨⟨hpass.orderly, h.running⟩, hpass.since, fun a ha => ?_⟩
      rcases hpass.own a ha with hold | ⟨rfl, rfl⟩
      · exact .inl hold
      · exact .inr hrunning
  | stop => exact ⟨⟨h.state, nofun⟩, .refl _, fun _ ha => .inl ha⟩
  | edit d =>
    exact ⟨⟨h.state.same ⟨rfl, rfl⟩, h.running⟩, (Since.refl _).same ⟨rfl, rfl⟩,
      fun _ ha => .inl ha⟩

theorem exec_orderly (h : s.Orderly W) (ops : List ControllerOp) :
    (Tx.exec (step W) s ops).Orderly W :=
  Tx.exec_invariant (Orderly W) (fun _ op hs => (step_orderly hs op).orderly) ops s h

theorem exec_since (h : s.Orderly W) (ops : List ControllerOp) :
    Since s.state (Tx.exec (step W) s ops).state := by
  induction ops generalizing s with
  | nil => exact .refl _
  | cons op ops ih =>
    have hstep := step_orderly h op
    exact hstep.since.trans (ih hstep.orderly)

end ControllerSystem

/-! ## Signatures -/

/-- **The holders of the installed keys have signed the command.** -/
def SignedBy (Signed : Algorithm → String → SignatureInput → Prop) (a : Acceptance) : Prop :=
  match a.enrollment.authority with
  | none => ∃ key, a.keys.ed25519 = some key ∧ Signed .ed25519 key (.v1 a.signed.command)
  | some current => ∀ algorithm ∈ current.required, ∃ key, a.keys.key algorithm = some key ∧
      Signed algorithm key (.v2 a.signed.command)

theorem signedBy_of_verify {Signed : Algorithm → String → SignatureInput → Prop}
    (hideal : ∀ algorithm key input signature,
      W.scheme.verify algorithm key input signature = true → Signed algorithm key input) (henrolled : validEnrollment W.scheme a.enrollment = true)
    (h : verifyCommand W.toPlatform W.scheme a.enrollment a.keys a.signed = true) :
    SignedBy Signed a := by
  unfold verifyCommand at h
  rw [Bool.and_eq_true, Bool.and_eq_true, Bool.and_eq_true] at h
  obtain ⟨⟨⟨-, henvelope⟩, -⟩, hverify⟩ := h
  unfold SignedBy
  cases hauthority : a.enrollment.authority with
  | none =>
    rw [hauthority] at hverify
    obtain ⟨key, hkey, hsig⟩ := (Option.any_eq_true _ _).mp hverify
    exact ⟨key, hkey, hideal _ _ _ _ hsig⟩
  | some current =>
    intro algorithm hmem
    have hids := (validAuthority_of_enrolled henrolled hauthority).2.1
    unfold validEnvelope at henvelope
    rw [hauthority] at hverify henvelope
    obtain ⟨signature, hsignature, rfl⟩ := algorithm_of_envelopeMatches henvelope hids hmem
    have hthis := all_eq_true.mp hverify signature hsignature
    obtain ⟨key, hkey, hsig⟩ := (Option.any_eq_true _ _).mp hthis
    exact ⟨key, hkey, hideal _ _ _ _ hsig⟩

/-! ## The result -/

/-- **A lawful event**, given what was installed, which floors had been recorded, and all
that came before it. -/
def Lawful (W : Setting) (Signed : Algorithm → String → SignatureInput → Prop)
    (installed : Option (Enrollment × PublicKeys)) (recorded : Authority → Prop)
    (past : List Event) : Event → Prop
  | .accepted a =>
    installed = some (a.enrollment, a.keys) ∧
      verifyCommand W.toPlatform W.scheme a.enrollment a.keys a.signed = true ∧
      SignedBy Signed a ∧
      a.signed.command.issuedAt ≤ a.now ∧ a.now < a.signed.command.expiresAt ∧
      (∀ b, .accepted b ∈ past → b.signed.command.sequence < a.signed.command.sequence) ∧
      ∀ r, recorded r → ∃ current, a.enrollment.authority = some current ∧
        (r.generation < current.generation ∨ current = r)
  | .prepared signed _ => ∃ a, .accepted a ∈ past ∧ a.signed = signed
  | .executed signed plan _ =>
    (∃ a, .accepted a ∈ past ∧ a.signed = signed) ∧
      ∃ signed' r, (∃ a, .accepted a ∈ past ∧ a.signed = signed') ∧
        .prepared signed' (.ok r) ∈ past ∧
        signed'.command.intent = signed.command.intent ∧
        r.plan.intent = signed.command.intent ∧ r.digest = signed.command.planDigest ∧
        ∀ p ∈ plan, p = r

/-- A preparation in the history is for an accepted command, and its plan for the intent. -/
theorem Orderly.prepared (h : Orderly W s) {past rest : List Event}
    (hpast : s.history = past ++ rest) (hmem : .prepared signed (.ok r) ∈ past) :
    (∃ a, .accepted a ∈ past ∧ a.signed = signed) ∧ r.plan.intent = signed.command.intent := by
  obtain ⟨pre, post, rfl⟩ := append_of_mem hmem
  rw [append_assoc, cons_append] at hpast
  obtain ⟨⟨a, ha, haccepted⟩, hintent⟩ := h.justified pre _ _ hpast
  exact ⟨⟨a, mem_append_left _ ha, haccepted⟩, hintent r rfl⟩

/-- **No two commands are accepted at one sequence number.** -/
theorem Orderly.accepted_unique (h : Orderly W s) {b : Acceptance}
    (ha : .accepted a ∈ s.history) (hb : .accepted b ∈ s.history)
    (hsequence : a.signed.command.sequence = b.signed.command.sequence) : a = b := by
  obtain ⟨pre, post, hsplit⟩ := append_of_mem ha
  rw [hsplit] at hb
  rcases mem_append.mp hb with hbefore | hafter
  · have hlt := (h.justified pre _ post hsplit).2.2.2.2.2 b hbefore
    exact absurd (hsequence ▸ hlt) (UInt64.lt_irrefl _)
  · rcases mem_cons.mp hafter with heq | hafter
    · exact (Event.accepted.inj heq).symm
    · obtain ⟨pre', post', rfl⟩ := append_of_mem hafter
      rw [← cons_append, ← append_assoc] at hsplit
      have hlt := (h.justified _ _ post' hsplit).2.2.2.2.2 a
        (mem_append_right _ mem_cons_self)
      exact absurd (hsequence ▸ hlt) (UInt64.lt_irrefl _)

/-- A scheme under which everything verifies. -/
def plainScheme : Scheme where
  keyID _ key := key
  validKeyID _ _ := true
  wellSized _ _ := true
  verify _ _ _ _ := true
  commandFits _ := true

noncomputable def plainSetting : Setting where
  toDigests := Digests.ofCountable
  splitHostPort _ := none
  validAddr _ := false
  recordFits _ := true
  scheme := plainScheme
  journalFits _ := true

def plainTarget : Target where
  namespaceName := "hikyo"
  deployment := "hikyo"
  deploymentUID := "d"
  container := "server"
  configSecret := "config"
  rollbackSecret := "rollback"
  requestSecret := "request"
  receiptSecret := "receipt"
  sources := ∅
  databaseSources := ∅
  rootSources := ∅
  upgradeSources := ∅
  initialUpgradeSource := ""
  stableNodeID := "node"
  topologyNodeIDs := []

/-- An enrollment of the compatibility profile. -/
def plainEnrollment : Enrollment where
  id := "e"
  ownerInstanceID := "o"
  incarnation := "i"
  target := plainTarget
  journalSecret := "journal"
  journalSecretUID := "j"
  authority := none

def plainKeys : PublicKeys := ⟨some "k", none⟩

/-- A command to prepare one change, for a template with a given stamp. -/
def plainPrepare (stamp : String) : SignedCommand where
  command :=
    { enrollmentID := "e", sequence := 1, action := .prepare
      intent := ⟨"job", "o", "i", "s", 1, 1, 1, 2⟩, planDigest := ""
      changes := [⟨postgresPoolMax, "20"⟩], previousTemplateStamp := stamp
      topology := none, bootstrap := none, acknowledgement := none
      issuedAt := 1, expiresAt := 2, authority := none }
  signature := ""
  signatures := []

def plainCluster : Cluster where
  deployment := some
    { uid := "d", version := 0, metadata := ⟨∅, ""⟩
      spec := ⟨true, none, ⟨∅, [⟨"server", [⟨nodeIDVariable, "node", none⟩], [], [], none, none,
        none, ""⟩], [], [], ""⟩, ""⟩
      status := ⟨0, 0, 0, 0, 0, 0, 0, none⟩ }
  config := ⟨"c", 0, false, ⟨∅, ∅⟩⟩
  rollback := ⟨"b", 0, false, .absent⟩
  request := ⟨"q", 0, false, .absent⟩
  receipt := ⟨"r", 0, false, .absent⟩

def plainSystem : ControllerSystem where
  state := ⟨plainCluster, ⟨"journal", ⟨"j", 0, false, ⟨.absent, .absent⟩⟩⟩, []⟩
  running := none

/-- Enough calls that succeed, over one content of the mailbox. -/
def plainChoices (mailbox : Slot SignedCommand) : List Choice :=
  List.replicate 20 ⟨none, .ok, mailbox, 1, none⟩

def plainStart : ControllerOp := .start plainEnrollment plainKeys (plainChoices .absent)

end Hikyo.Rollout
