import Hikyo.Service.ConsentMachine

/-!
# Runs of the reauthentication services

A run is a sequence of calls, each one transaction. Every transaction that commits is a
sequence of moves of the machine of consents (`steps_of_run`), so what is proved of the
machine holds after every run (`steps_of_exec`).

The proofs below read each service once, and say which moves it makes. The two places
where a service does more than check and write are the approval of a handoff, a loop
that claims windows while it makes its list (`claims_of_approveShares`), and the binding
of an exact decision, which is a digest of the text that was signed
(`boundPasskeyWindow_spec`).
-/

namespace Hikyo.Reauth

open List
open Table (Keyed)
open Tx (bind_ok skip checked)

variable {cfg : ReauthConfig} {allowed : Consents → String → Prop} {s s' : ReauthTables}

/-! ## Exact decisions -/

/-- An exact decision carries its text and the digest of it. -/
def ReauthIntent.Digested (digest : JsonText.Text → String) (i : ReauthIntent) : Prop :=
  i.isExact = true → ∃ b, i.exactBinding = some b ∧ b.isExact = true ∧ i.keySet = digest b.text

variable {digest : JsonText.Text → String} {env : String} {i : ReauthIntent}

variable {keyIDs : List String}

theorem newDeveloperCredentialReauthIntent_spec {lifetime : ℕ} {consent : Bool}
    (h : newDeveloperCredentialReauthIntent digest env keyIDs lifetime consent = .ok i) :
    ∃ b, i.exactBinding = some b ∧ b.isExact = true ∧ i.keySet = digest b.text := by
  unfold newDeveloperCredentialReauthIntent at h
  replace h := skip h
  obtain ⟨base, -, h⟩ := bind_ok h
  cases h
  exact ⟨_, rfl, rfl, rfl⟩

theorem newSelfConfigReauthIntent_spec {target : SelfConfigReauthTarget}
    (h : newSelfConfigReauthIntent digest target = .ok i) :
    ∃ b, i.exactBinding = some b ∧ b.isExact = true ∧ i.keySet = digest b.text := by
  unfold newSelfConfigReauthIntent at h
  replace h := skip (skip h)
  cases hvariant : target.variant with
  | none => rw [hvariant] at h; cases h
  | some variant =>
    rw [hvariant] at h
    cases h
    exact ⟨_, rfl, rfl, rfl⟩

variable {variant : IntentVariant} {envs : List String}

theorem newDisclosureReauthIntent_variant (h : newDisclosureReauthIntent variant envs keyIDs = .ok i) :
    i.variant = variant := by
  unfold newDisclosureReauthIntent at h
  dsimp only at h
  split at h
  · cases h
  · split at h
    · cases h
    · split at h
      · cases h
      · exact (Except.ok.inj h) ▸ rfl

theorem newAdapterReauthIntent_variant (h : newAdapterReauthIntent variant envs = .ok i) :
    i.variant = variant := by
  unfold newAdapterReauthIntent at h
  dsimp only at h
  split at h
  · cases h
  · split at h
    · cases h
    · exact (Except.ok.inj h) ▸ rfl

/-- The variants of the exact decisions. -/
def IntentVariant.isExact (v : IntentVariant) : Bool :=
  v = .selfConfigAdopt ∨ v = .selfConfigApply ∨ v = .selfConfigTest ∨ v = .developerCredential

theorem ReauthIntent.isExact_eq (i : ReauthIntent) : i.isExact = i.variant.isExact := by
  unfold ReauthIntent.isExact ReauthIntent.isSelfConfig ReauthIntent.isDeveloperCredential
  cases i.variant <;> rfl

variable {d : IntentDescriptor}

/-- In the table of variants, the exact ones are those with an exact purpose, and none of
them is an adapter's. -/
theorem isExact_iff_exactPurpose (hd : d ∈ reauthIntentDescriptors) :
    (d.variant.isExact = true ↔ exactPurpose d.purpose) ∧
      (d.adapter = true → d.variant.isExact = false) := by
  revert d
  decide

theorem adapter_purpose (hd : d ∈ reauthIntentDescriptors) :
    d.adapter = true → d.purpose = some .adapter := by
  revert d
  decide

theorem newReauthIntentForAdapterOperation_inexact {operation : ReauthOperation}
    (h : newReauthIntentForAdapterOperation operation envs = .ok i) : i.isExact = false := by
  unfold newReauthIntentForAdapterOperation at h
  cases hd : descriptorForOperation operation with
  | none => rw [hd] at h; cases h
  | some d =>
    rw [hd] at h
    dsimp only at h
    split at h
    next hadapter =>
      rw [ReauthIntent.isExact_eq, newAdapterReauthIntent_variant h]
      exact (isExact_iff_exactPurpose (mem_of_find?_eq_some hd)).2 hadapter
    next => cases h

theorem newDisclosureReauthIntentFor_inexact {purpose : ReauthPurpose}
    (h : newDisclosureReauthIntentFor purpose envs keyIDs = .ok i) :
    i.isExact = false := by
  unfold newDisclosureReauthIntentFor at h
  split at h
  next => cases h
  next hpurpose =>
    cases hd : disclosureDescriptorForPurpose purpose with
    | none => rw [hd] at h; cases h
    | some d =>
      rw [hd] at h
      have hfound := find?_some hd
      simp only [Bool.and_eq_true, decide_eq_true_eq] at hfound
      rw [ReauthIntent.isExact_eq, newDisclosureReauthIntent_variant h, Bool.eq_false_iff]
      intro hexact
      rcases (isExact_iff_exactPurpose (mem_of_find?_eq_some hd)).1.mp hexact with hp | hp
      · exact hpurpose (.inr (.inl (Option.some.inj (hfound.2.symm.trans hp))))
      · exact hpurpose (.inr (.inr (Option.some.inj (hfound.2.symm.trans hp))))

variable {request : IntentRequest}

theorem IntentRequest.digested (h : request.intent cfg.digest = .ok i) : i.Digested cfg.digest := by
  intro hexact
  cases request with
  | unbound env =>
    have hdisclosure : newDisclosureReauthIntent .unbound [env] [] = .ok i := h
    rw [ReauthIntent.isExact_eq, newDisclosureReauthIntent_variant hdisclosure] at hexact
    exact absurd hexact (by decide)
  | disclosure purpose envs keyIDs =>
    rw [newDisclosureReauthIntentFor_inexact h] at hexact
    exact absurd hexact (by decide)
  | adapter operation envs =>
    rw [newReauthIntentForAdapterOperation_inexact h] at hexact
    exact absurd hexact (by decide)
  | developerCredential => exact newDeveloperCredentialReauthIntent_spec h
  | selfConfig => exact newSelfConfigReauthIntent_spec h

theorem isExact_eq_of_descriptor (hd : descriptorForVariant i.variant = some d) :
    (i.isExact = true ↔ exactPurpose d.purpose) ∧ (d.adapter = true → d.purpose = some .adapter) := by
  have hvariant := find?_some hd
  rw [decide_eq_true_eq] at hvariant
  have hmem := mem_of_find?_eq_some hd
  rw [ReauthIntent.isExact_eq, ← hvariant]
  exact ⟨(isExact_iff_exactPurpose hmem).1, adapter_purpose hmem⟩

variable {binding : ReauthIntentBinding}

/-- **What is derived from an intent**: nothing is signed for an unbound one; otherwise the
purpose and the operation are those of the table, and what is signed is the exact
decision, or the adapter's, or the disclosure's. -/
theorem ReauthIntent.bindingFor_cases (h : i.bindingFor env = .ok binding) :
    (binding.purpose = none ∧ binding.challengeBinding = none) ∨
    (i.isExact = true ∧ exactPurpose binding.purpose ∧
      binding.challengeBinding = i.exactBinding ∧ binding.keySet = i.keySet) ∨
    (i.isExact = false ∧ binding.purpose = some .adapter ∧ ∃ operation,
      binding.operation = some operation ∧ binding.challengeBinding =
        some (.adapter operation binding.environmentID (canonicalSet binding.environmentIDs))) ∨
    (i.isExact = false ∧ ¬ exactPurpose binding.purpose ∧ ∃ purpose,
      binding.purpose = some purpose ∧ binding.challengeBinding =
        some (.disclosure purpose binding.environmentID (sortedIDs binding.keyIDs))) := by
  unfold ReauthIntent.bindingFor at h
  cases hd : descriptorForVariant i.variant with
  | none => rw [hd] at h; cases h
  | some d =>
    obtain ⟨hexact, hadapter⟩ := isExact_eq_of_descriptor hd
    rw [hd] at h
    dsimp only at h
    split at h
    next =>
      cases h
      exact .inl ⟨rfl, rfl⟩
    next =>
      refine .inr ?_
      split at h
      next hi =>
        have hi : i.isExact = true := (Bool.or_comm _ _).trans hi
        split at h
        next => cases h
        next =>
          cases h
          exact .inl ⟨hi, hexact.mp hi, rfl, rfl⟩
      next hi =>
        have hi : i.isExact = false :=
          Bool.eq_false_iff.mpr fun hx => hi ((Bool.or_comm _ _).trans hx)
        refine .inr ?_
        split at h
        next hd' =>
          generalize (if env = "" then i.environmentID else env) = target at h
          split at h
          next => cases h
          next operation hoperation =>
            split at h
            next => cases h
            next =>
              cases h
              exact .inl ⟨hi, hadapter hd', operation, hoperation, rfl⟩
        next =>
          split at h
          next => cases h
          next =>
            split at h
            next => cases h
            next purpose hpurpose =>
              cases h
              refine .inr ⟨hi, fun hp => ?_, purpose, hpurpose, rfl⟩
              rw [hexact.mpr hp] at hi
              exact absurd hi (by decide)

/-- What is derived for an exact purpose is the exact decision. -/
theorem ReauthIntent.bindingFor_exact (h : i.bindingFor env = .ok binding)
    (hpurpose : exactPurpose binding.purpose) :
    i.isExact = true ∧ binding.challengeBinding = i.exactBinding ∧ binding.keySet = i.keySet := by
  rcases ReauthIntent.bindingFor_cases h with ⟨hnone, -⟩ | ⟨hi, -, hb, hk⟩ | ⟨-, hp, -⟩ | ⟨-, hp, -⟩
  · rw [hnone] at hpurpose
    exact absurd hpurpose (by decide)
  · exact ⟨hi, hb, hk⟩
  · rw [hp] at hpurpose
    exact absurd hpurpose (by decide)
  · exact absurd hpurpose hp

variable {b : SignedBinding}

/-- **The text that is derived says what the decision is.** -/
theorem ReauthIntent.bindingFor_decides (hi : i.Digested cfg.digest)
    (h : i.bindingFor env = .ok binding) (hb : binding.challengeBinding = some b) :
    Decides cfg.digest binding b := by
  rcases ReauthIntent.bindingFor_cases h with ⟨-, hnone⟩ | ⟨hexact, hp, hchallenge, -⟩ |
    ⟨-, hp, operation, hop, hchallenge⟩ | ⟨-, -, purpose, hp, hchallenge⟩
  · rw [hnone] at hb
    cases hb
  · obtain ⟨b', hb', hx, -⟩ := hi hexact
    obtain rfl : b' = b := Option.some.inj (hb'.symm.trans (hchallenge.symm.trans hb))
    cases b' with
    | disclosure | adapter => cases hx
    | developerCredential | selfConfig => exact ⟨hp, _, hb, rfl⟩
  · obtain rfl := Option.some.inj (hchallenge.symm.trans hb)
    exact ⟨hp, hop, rfl, rfl⟩
  · obtain rfl := Option.some.inj (hchallenge.symm.trans hb)
    exact ⟨hp, rfl, rfl⟩

/-- An exact decision that is rebuilt from a text carries the digest of that text. -/
theorem exactIntentOf_keySet (h : exactIntentOf digest b = .ok i) :
    b.isExact = true ∧ i.keySet = digest b.text := by
  obtain ⟨built, hbuilt, h⟩ := bind_ok h
  obtain ⟨htext, h⟩ := checked h
  obtain rfl : built = i := Except.ok.inj h
  have hspec : ∃ b', built.exactBinding = some b' ∧ b.isExact = true ∧
      built.keySet = digest b'.text := by
    cases b with
    | disclosure | adapter => cases hbuilt
    | developerCredential =>
      obtain ⟨b', hb', -, hkeySet⟩ := newDeveloperCredentialReauthIntent_spec hbuilt
      exact ⟨b', hb', rfl, hkeySet⟩
    | selfConfig =>
      obtain ⟨b', hb', -, hkeySet⟩ := newSelfConfigReauthIntent_spec hbuilt
      exact ⟨b', hb', rfl, hkeySet⟩
  obtain ⟨b', hb', hexact, hkeySet⟩ := hspec
  rw [hb'] at htext
  rw [hkeySet, Option.some.inj htext]
  exact ⟨hexact, rfl⟩

theorem ReauthConfig.hardCap_le_windowBound (cfg : ReauthConfig) : cfg.hardCap ≤ cfg.windowBound :=
  le_max_left _ _

variable {now : ℤ} {w : ReauthWindow}

/-- **The window of a signed challenge.** The binding that is written on it leaves its
place, its ceremony and its session alone; an exact decision is spent once and carries
the digest of what was signed. -/
theorem boundPasskeyWindow_spec {ceremony : WebAuthnCeremony}
    (h : boundPasskeyWindow cfg s ceremony now = .ok w) :
    w.origin = s.journal.length ∧ w.ceremonyID = .webauthn ceremony.id ∧
      w.environmentID = ceremony.environmentID ∧ w.sessionID = ceremony.sessionID ∧
      w.credentialEpoch = s.epoch ∧ w.consumed = false ∧
      w.hardExpiresAt ≤ now + cfg.windowBound ∧
      (effectiveReauthWindow cfg s ceremony.environmentID ≤ 0 → w.singleDecision = true) ∧
      (exactPurpose w.boundPurpose → ceremony.operationBinding.isExact = true ∧
        w.boundKeySet = cfg.digest ceremony.operationBinding.text) := by
  have hcap : now + cfg.hardCap ≤ now + cfg.windowBound :=
    add_le_add_right cfg.hardCap_le_windowBound now
  have hfive : now + 5 * minute ≤ now + cfg.windowBound :=
    add_le_add_right (le_max_right _ _) now
  have hexact : ∀ {i : ReauthIntent} {binding : ReauthIntentBinding},
      exactIntentOf cfg.digest ceremony.operationBinding = .ok i → i.bindingFor "" = .ok binding →
      exactPurpose binding.purpose → ceremony.operationBinding.isExact = true ∧
        binding.keySet = cfg.digest ceremony.operationBinding.text := by
    intro i binding hi hbinding hpurpose
    rw [(ReauthIntent.bindingFor_exact hbinding hpurpose).2.2]
    exact exactIntentOf_keySet hi
  unfold boundPasskeyWindow at h
  dsimp only at h
  cases hb : ceremony.operationBinding with
  | disclosure purpose env keyIDs =>
    rw [hb] at h
    cases h
    exact ⟨rfl, rfl, rfl, rfl, rfl, rfl, hcap, fun heff => decide_eq_true heff,
      fun hp => absurd hp (show ¬ exactPurpose none by decide)⟩
  | selfConfig env target | developerCredential env keyIDs target =>
    rw [hb] at h hexact
    obtain ⟨intent, hintent, h⟩ := bind_ok h
    obtain ⟨binding, hbinding, h⟩ := bind_ok h
    cases h
    exact ⟨rfl, rfl, rfl, rfl, rfl, rfl, hfive, fun _ => rfl, hexact hintent hbinding⟩
  | adapter operation env envs =>
    rw [hb] at h
    obtain ⟨derived, hderived, h⟩ := bind_ok h
    replace h := skip h
    cases h
    refine ⟨rfl, rfl, rfl, rfl, rfl, rfl, hcap, fun heff => decide_eq_true heff, fun hp => ?_⟩
    -- an adapter's purpose is not an exact one
    obtain ⟨intent, hintent, hderived⟩ :=
      bind_ok (refusedAs_eq_ok.mp hderived)
    obtain ⟨target, htarget, hderived⟩ := bind_ok hderived
    have hvariant : target.isExact = intent.isExact := by
      unfold ReauthIntent.forEnvironment at htarget
      split at htarget
      next => obtain rfl := Except.ok.inj htarget; rfl
      next => cases htarget
    have hyes := (ReauthIntent.bindingFor_exact hderived hp).1
    rw [hvariant, newReauthIntentForAdapterOperation_inexact hintent] at hyes
    exact absurd hyes (by decide)

/-! ## The moves of each service -/

theorem steps_single {c c' : Consents} (h : Step cfg allowed c c') : Steps cfg allowed c c' :=
  Relation.ReflTransGen.single h

theorem consents_foldl_open (ws : List ReauthWindow) (s : ReauthTables) :
    (ws.foldl ReauthTables.openReauthWindow s).consents =
      { s.consents with windows := ws.foldl Keyed.put s.windows } := by
  induction ws generalizing s with
  | nil => rfl
  | cons w ws ih => exact ih (s.openReauthWindow w)

variable {principal : String}

theorem steps_of_signIn {id origin : String} {artifact : SessionArtifact} {idle abs : ℤ}
    {factors : List String} (h : signIn id principal artifact idle abs origin factors s = .ok s') :
    Steps cfg allowed s.consents s'.consents := by
  unfold signIn at h
  split at h
  next => cases h
  next sessions hinsert =>
    cases h
    exact steps_single (Step.signIn (c := s.consents) hinsert rfl)

theorem steps_of_endSessions (ids : List String) :
    Steps cfg allowed s.consents (endSessions s ids).consents :=
  steps_single (Step.signOut ids)

theorem steps_of_advanceRestoreEpoch {epoch : ℕ} (h : advanceRestoreEpoch epoch s = .ok s') :
    Steps cfg allowed s.consents s'.consents := by
  obtain ⟨hlt, h⟩ := checked h
  cases h
  exact steps_single (Step.restore (c := s.consents) (le_of_lt hlt))

theorem steps_of_createEnvironment (h : createEnvironment env s = .ok s') :
    Steps cfg allowed s.consents s'.consents := by
  unfold createEnvironment at h
  split at h
  next => cases h
  next =>
    cases h
    exact Relation.ReflTransGen.refl

/-- Whether settings tighten the policy of an environment. -/
def tightens (cfg : ReauthConfig) (s : ReauthTables) (environmentID : String)
    (want : EnvironmentSettings) : Bool :=
  match s.environments.rows.find? (·.id = environmentID) with
  | none => false
  | some before => (want.stored environmentID).effective cfg < before.effective cfg

variable {authorized : Bool}

theorem steps_of_setEnvironment {want : EnvironmentSettings}
    (h : setEnvironment cfg authorized env want s = .ok s')
    (hallowed : tightens cfg s env want = true → allowed s.consents env) :
    Steps cfg allowed s.consents s'.consents := by
  replace h := skip (skip h)
  unfold tightens at hallowed
  cases hbefore : s.environments.rows.find? (·.id = env) with
  | none => rw [hbefore] at h; cases h
  | some before =>
    rw [hbefore] at h hallowed
    replace h := skip (skip (skip h))
    cases h
    by_cases hlow : (want.stored env).effective cfg < before.effective cfg
    · rw [if_pos hlow]
      exact steps_single (Step.lower (c := s.consents) (hallowed (decide_eq_true hlow)))
    · rw [if_neg hlow]
      exact Relation.ReflTransGen.refl

variable {presented : String}

theorem steps_of_reauthTOTP {proof : TOTPProof} {authorized : List String}
    (h : reauthTOTP cfg presented request proof authorized now s = .ok s') :
    Steps cfg allowed s.consents s'.consents := by
  obtain ⟨intent, -, h⟩ := bind_ok h
  replace h := skip (skip h)
  obtain ⟨binding, -, h⟩ := bind_ok h
  obtain ⟨σ, hσ, h⟩ := bind_ok h
  cases hconfirmed : s.totp.rows.find? (·.principal = proof.account) with
  | none => rw [hconfirmed] at h; cases h
  | some confirmed =>
    rw [hconfirmed] at h
    obtain ⟨shares, -, h⟩ := bind_ok h
    replace h := skip (skip (skip h))
    cases h
    obtain ⟨hmem, hid, hepoch, -⟩ := ReauthTables.of_authenticate hσ
    rw [consents_foldl_open]
    refine steps_single (Step.prove (c := s.consents)
      (k := totpCompletion s σ proof intent now shares) (fun id hid => nomatch hid) rfl ?_)
    intro w hw
    obtain ⟨share, hshare, rfl⟩ := mem_map.mp hw
    exact
      { origin := rfl
        ceremonyID := rfl
        environment := mem_map_of_mem hshare
        singleDecision := rfl
        epoch := rfl
        unspent := rfl
        bounded := add_le_add_right cfg.hardCap_le_windowBound now
        session := ⟨σ, hmem, rfl, rfl, fun _ => hepoch⟩
        exact := fun _ b hb => nomatch hb }

theorem steps_of_reauthPasskeyStart {ceremonyID challenge : String} {authorized : List String}
    (h : reauthPasskeyStart cfg presented request ceremonyID challenge authorized now s = .ok s') :
    Steps cfg allowed s.consents s'.consents := by
  obtain ⟨intent, -, h⟩ := bind_ok h
  replace h := skip h
  obtain ⟨binding, -, h⟩ := bind_ok h
  obtain ⟨σ, -, h⟩ := bind_ok h
  replace h := skip h
  split at h
  next => cases h
  next =>
    split at h
    next => cases h
    next ceremonies hinsert =>
      cases h
      exact steps_single (Step.challenge (c := s.consents) hinsert rfl)

theorem steps_of_reauthPasskeyFinish {challenge : String} {verdict : AssertionVerdict}
    (h : reauthPasskeyFinish cfg presented challenge verdict now s = .ok s') :
    Steps cfg allowed s.consents s'.consents := by
  obtain ⟨σ, hσ, h⟩ := bind_ok h
  obtain ⟨hmem, -, hepoch, -⟩ := ReauthTables.of_authenticate hσ
  cases hceremony : s.webAuthnCeremonyByChallenge challenge with
  | none => rw [hceremony] at h; cases h
  | some ceremony =>
    rw [hceremony] at h
    obtain ⟨hvalid, h⟩ := checked h
    replace h := skip h
    obtain ⟨hopen, -, -, hsession, -, -⟩ := hvalid
    have hrow : ceremony ∈ s.consents.ceremonies.rows := mem_of_find?_eq_some hceremony
    cases verdict with
    | cloned swept =>
      cases h
      exact (steps_single (Step.spoil hrow)).tail (Step.signOut swept)
    | accepted =>
      obtain ⟨w, hw, h⟩ := bind_ok h
      cases h
      obtain ⟨horigin, hid, henv, hwsession, hwepoch, hunspent, hbounded, hzero, hexact⟩ :=
        boundPasskeyWindow_spec hw
      refine steps_single (Step.sign (k := passkeyCompletion cfg s σ ceremony w now) hrow hopen rfl
        rfl (fun heff => hzero (of_decide_eq_true heff)) rfl ?_)
      exact
        { origin := horigin
          ceremonyID := hid.symm
          environment := henv ▸ mem_singleton_self _
          singleDecision := rfl
          epoch := hwepoch
          unspent := hunspent
          bounded := hbounded
          session := ⟨σ, hmem, hsession.symm.trans hwsession.symm, rfl, fun _ => hepoch⟩
          exact := fun hp b hb => Option.some.inj hb ▸ hexact hp }

variable {state : String}

theorem steps_of_startCLIReauth {id pkceChallenge : String} {wellFormed : Bool}
    {authorized : List String}
    (h : startCLIReauth cfg presented request id state pkceChallenge wellFormed authorized now s =
      .ok s') : Steps cfg allowed s.consents s'.consents := by
  obtain ⟨intent, -, h⟩ := bind_ok h
  replace h := skip h
  obtain ⟨binding, -, h⟩ := bind_ok h
  replace h := skip h
  split at h
  next purpose operation hpurpose hoperation =>
    replace h := skip (skip (skip h))
    obtain ⟨σ, hσ, h⟩ := bind_ok h
    replace h := skip (skip h)
    split at h
    next => cases h
    next cliHandoffs hinsert =>
      cases h
      exact steps_single (Step.handoff (c := s.consents) (ReauthTables.of_authenticate hσ).1 rfl rfl
        hinsert)
  next => cases h

/-- The claim of a window that is in the table. -/
theorem claim_spec (h : claim s w = .ok s') : w.singleDecision = true ∧ w.consumed = false ∧
      s' = { s with windows := s.windows.put { w with consumed := true } } := by
  unfold claim ReauthTables.claimWindow at h
  by_cases hopen : w.singleDecision = true ∧ w.consumed = false
  · rw [if_pos hopen] at h
    exact ⟨hopen.1, hopen.2, (Except.ok.inj h).symm⟩
  · rw [if_neg hopen] at h
    cases h

variable {σ : Session}

/-- **The loop of an approval** claims what it puts on its list. -/
theorem claims_of_approveShares {intent : ReauthIntent} :
    ∀ {envs : List String} {s : ReauthTables} {list : List WindowGrant}
      {done : ReauthTables × List WindowGrant},
      envs.foldlM (approveShare cfg intent σ authorized now) (s, list) = .ok done →
      ∃ ws windows, Claims σ.id s.windows ws windows ∧ done.1 = { s with windows } ∧
        done.2 = list ++ ws.map ReauthWindow.toWindowGrant := by
  intro envs
  induction envs with
  | nil =>
    intro s list done h
    cases h
    exact ⟨[], s.windows, Claims.nil, rfl, (append_nil _).symm⟩
  | cons env envs ih =>
    intro s list done h
    rw [foldlM_cons] at h
    obtain ⟨next, hnext, h⟩ := bind_ok h
    obtain ⟨binding, -, hnext⟩ := bind_ok hnext
    dsimp only at hnext
    cases hw : s.reauthWindowFor σ.id env with
    | none => rw [hw] at hnext; cases hnext
    | some w =>
      rw [hw] at hnext
      replace hnext := skip (skip (skip hnext))
      obtain ⟨hmem, hsession, -⟩ := ReauthTables.mem_of_reauthWindowFor hw
      by_cases hsingle : w.singleDecision = true
      · rw [if_pos hsingle] at hnext
        obtain ⟨s₁, hclaim, hnext⟩ := bind_ok hnext
        cases hnext
        obtain ⟨-, hopen, rfl⟩ := claim_spec hclaim
        obtain ⟨ws, windows, hclaims, hdone, hlist⟩ := ih h
        refine ⟨w :: ws, windows, Claims.single hmem hsession hsingle hopen hclaims, hdone, ?_⟩
        rw [hlist, append_assoc]
        rfl
      · rw [if_neg hsingle] at hnext
        cases hnext
        obtain ⟨ws, windows, hclaims, hdone, hlist⟩ := ih h
        refine ⟨w :: ws, windows, Claims.sliding hmem hsession (Bool.eq_false_iff.mpr hsingle)
          hclaims, hdone, ?_⟩
        rw [hlist, append_assoc]
        rfl

theorem steps_of_approveCLIReauth {code : String}
    (h : approveCLIReauth cfg presented state code authorized now s = .ok s') :
    Steps cfg allowed s.consents s'.consents := by
  obtain ⟨σ, hσ, h⟩ := bind_ok h
  obtain ⟨hmem, -, hepoch, hartifact⟩ := ReauthTables.of_authenticate hσ
  cases hhandoff : s.cliHandoffByState state with
  | none => rw [hhandoff] at h; cases h
  | some row =>
    rw [hhandoff] at h
    obtain ⟨hlive, h⟩ := checked h
    obtain ⟨hprincipal, h⟩ := checked h
    obtain ⟨intent, -, h⟩ := bind_ok h
    obtain ⟨done, hdone, h⟩ := bind_ok h
    cases h
    obtain ⟨ws, windows, hclaims, htables, hlist⟩ := claims_of_approveShares hdone
    rw [htables, hlist, nil_append]
    exact steps_single (Step.approve (c := s.consents) (some code)
      (mem_of_find?_eq_some hhandoff) hlive.1.1 hmem
      hprincipal hartifact hepoch hclaims)

theorem consents_of_redeemShares :
    ∀ {approved : List WindowGrant} {s s' : ReauthTables},
      approved.foldlM (redeemShare σ now) s = .ok s' →
      s'.consents = { s.consents with
        windows := (approved.map (·.openFor σ.id s.epoch)).foldl Keyed.put s.windows } := by
  intro approved
  induction approved with
  | nil =>
    intro s s' h
    cases h
    rfl
  | cons a approved ih =>
    intro s s' h
    rw [foldlM_cons] at h
    obtain ⟨next, hnext, h⟩ := bind_ok h
    replace hnext := skip hnext
    cases hnext
    exact ih h

theorem steps_of_redeemCLIReauth {code pkceVerifier : String}
    (h : redeemCLIReauth cfg code pkceVerifier now s = .ok s') :
    Steps cfg allowed s.consents s'.consents := by
  unfold redeemCLIReauth at h
  cases hhandoff : s.cliHandoffByCode code with
  | none => rw [hhandoff] at h; cases h
  | some row =>
    rw [hhandoff] at h
    obtain ⟨hlive, h⟩ := checked h
    replace h := skip h
    obtain ⟨σ, hσ, h⟩ := bind_ok h
    obtain ⟨hcaller, h⟩ := checked h
    obtain ⟨hmem, hid, hepoch⟩ := ReauthTables.of_authenticateSessionByID hσ
    rw [consents_of_redeemShares h]
    exact steps_single (Step.redeem (c := s.consents) (mem_of_find?_eq_some hhandoff)
      hlive.1.1 hmem hid hcaller.1 hepoch)

variable {sessionID : String} {ok : Bool}

theorem consents_of_startStepUp {id origin : String} {pkceChallenge : String}
    (h : startStepUp cfg request id state origin pkceChallenge sessionID ok now s = .ok s') :
    s'.consents = s.consents := by
  obtain ⟨intent, -, h⟩ := bind_ok h
  replace h := skip h
  obtain ⟨binding, -, h⟩ := bind_ok h
  replace h := skip (skip h)
  split at h
  next => cases h
  next =>
    split at h
    next => cases h
    next =>
      cases h
      rfl

theorem consents_of_approveStepUp {code : String}
    (h : approveStepUp presented state code ok now s = .ok s') : s'.consents = s.consents := by
  obtain ⟨σ, -, h⟩ := bind_ok h
  split at h
  next => cases h
  next =>
    obtain ⟨_, -, h⟩ := bind_ok (skip (skip h))
    replace h := skip h
    cases h
    rfl

variable {h : WorkspaceHandoff}

theorem stepUpTarget_spec (hσ : stepUpTarget s h principal now = .ok σ) :
    σ ∈ s.sessions.rows ∧ σ.artifact = .workspace := by
  unfold stepUpTarget at hσ
  cases hfound : s.sessionByID h.sessionID with
  | none => rw [hfound] at hσ; cases hσ
  | some row =>
    rw [hfound] at hσ
    replace hσ := skip hσ
    obtain ⟨hartifact, hσ⟩ := checked hσ
    replace hσ := skip (skip hσ)
    obtain rfl : row = σ := Except.ok.inj hσ
    exact ⟨(ReauthTables.mem_of_sessionByID hfound).1, hartifact⟩

theorem steps_of_elevate
    (hrun : elevate cfg s h principal now = .ok s') : Steps cfg allowed s.consents s'.consents := by
  replace hrun := skip hrun
  obtain ⟨binding, -, hrun⟩ := bind_ok hrun
  replace hrun := skip hrun
  split at hrun
  next => cases hrun
  next factorClass hclass =>
    replace hrun := skip hrun
    obtain ⟨σ, hσ, hrun⟩ := bind_ok hrun
    replace hrun := skip hrun
    cases hrun
    obtain ⟨hmem, hartifact⟩ := stepUpTarget_spec hσ
    have hgrounded : ∀ w ∈ [elevationWindow cfg s h σ factorClass binding now],
        Opens cfg s.consents (elevationCompletion s h σ now) w := ?_
    · have hid : ∀ id, (elevationCompletion s h σ now).ceremonyID ≠ .webauthn id :=
        fun id hid => nomatch hid
      exact steps_single (Step.prove hid rfl hgrounded)
    intro w hw
    obtain rfl := mem_singleton.mp hw
    exact
      { origin := rfl
        ceremonyID := rfl
        environment := mem_singleton_self _
        singleDecision := rfl
        epoch := rfl
        unspent := rfl
        bounded := add_le_add_right cfg.hardCap_le_windowBound now
        session := ⟨σ, hmem, rfl, rfl, fun hne => absurd hartifact hne⟩
        exact := fun _ b hb => nomatch hb }

theorem steps_of_redeemStepUp {code pkceVerifier origin : String}
    (h : redeemStepUp cfg code pkceVerifier origin ok now s = .ok s') :
    Steps cfg allowed s.consents s'.consents := by
  unfold redeemStepUp at h
  split at h
  next => cases h
  next =>
    replace h := skip (skip h)
    split at h
    next => cases h
    next =>
      replace h := skip (skip h)
      have hsteps := @steps_of_elevate cfg allowed _ _ _ _ _ h
      exact hsteps

/-! ### Consumption -/

/-- A single decision that passes through `spendWindow` is the one that was signed. -/
theorem spendWindow_spec (h : spendWindow cfg s w binding now = .ok s') :
    ∃ w', s' = { s with windows := s.windows.put w' } ∧
      ((w.singleDecision = true ∧ w.consumed = false ∧ w' = { w with consumed := true } ∧
          Matched cfg s.consents w binding) ∨
        (w.singleDecision = false ∧ ∃ expiresAt, w' = { w with windowExpiresAt := expiresAt })) := by
  unfold spendWindow at h
  by_cases hsingle : w.singleDecision = true
  · rw [if_pos hsingle] at h
    cases hceremony : s.webAuthnCeremonyByID w.ceremonyID with
    | none => rw [hceremony] at h; cases h
    | some row =>
      rw [hceremony] at h
      obtain ⟨htext, h⟩ := checked h
      obtain ⟨-, hopen, rfl⟩ := claim_spec h
      obtain ⟨hrow, hid⟩ := ReauthTables.mem_of_webAuthnCeremonyByID hceremony
      obtain ⟨b, hb, htext⟩ := Option.map_eq_some_iff.mp htext.symm
      refine ⟨_, rfl, .inl ⟨hsingle, hopen, rfl, .inl ⟨row, hrow, hid, ?_⟩⟩⟩
      rw [hb, SignedBinding.text_injective htext]
  · rw [if_neg hsingle] at h
    dsimp only at h
    split at h
    next => cases h
    next =>
      unfold ReauthTables.slideReauthWindow at h
      split at h
      next => cases h
      next s₁ hslide =>
        cases h
        split at hslide
        next =>
          cases hslide
          exact ⟨_, rfl, .inr ⟨Bool.eq_false_iff.mpr hsingle, _, rfl⟩⟩
        next => cases hslide

theorem windowBindingKind_intentBound {a : WindowGrant}
    (h : windowBindingKind a = .ok .intentBound) : exactPurpose a.boundPurpose := by
  unfold windowBindingKind at h
  split at h
  next hexact => exact hexact.1
  next =>
    split at h
    next => cases h
    next =>
      split at h
      next => cases h
      next =>
        split at h
        next => cases h
        next => cases h

/-- **What a consumption has checked**, for a decision built by the constructors. -/
theorem consumeReauthWindow_spec (hi : i.Digested cfg.digest)
    (hbinding : i.bindingFor env = .ok binding)
    (h : consumeReauthWindow cfg s sessionID binding now = .ok s') :
    Steps cfg allowed s.consents s'.consents := by
  unfold consumeReauthWindow at h
  cases hwindow : s.reauthWindowFor sessionID binding.environmentID with
  | none => rw [hwindow] at h; cases h
  | some w =>
    rw [hwindow] at h
    obtain ⟨hlive, h⟩ := checked h
    obtain ⟨kind, hkind, h⟩ := bind_ok h
    replace h := skip h
    obtain ⟨s₁, huse, h⟩ := bind_ok h
    cases h
    obtain ⟨hmem, hsession, henv⟩ := ReauthTables.mem_of_reauthWindowFor hwindow
    obtain ⟨hepoch, hhard, -⟩ := hlive
    have hchange : ∃ w', s₁ = { s with windows := s.windows.put w' } ∧
        ((w.singleDecision = true ∧ w.consumed = false ∧ w' = { w with consumed := true } ∧
            Matched cfg s.consents w binding) ∨
          (w.singleDecision = false ∧
            ∃ expiresAt, w' = { w with windowExpiresAt := expiresAt })) := by
      cases kind with
      | unbound => exact spendWindow_spec huse
      | operationBound | adapterBound =>
        replace huse := skip huse
        exact spendWindow_spec huse
      | intentBound =>
        obtain ⟨hmatch, huse⟩ := checked huse
        replace huse := skip (skip huse)
        obtain ⟨hsingle, hopen, rfl⟩ := claim_spec huse
        obtain ⟨hpurpose, hsame, -, hkeySet⟩ := hmatch
        obtain ⟨hexact, hchallenge, hkeys⟩ := ReauthIntent.bindingFor_exact hbinding hpurpose
        obtain ⟨b, hb, -, hdigest⟩ := hi hexact
        refine ⟨_, rfl, .inl ⟨hsingle, hopen, rfl,
          .inr ⟨windowBindingKind_intentBound hkind, b, hchallenge.trans hb, hsame, ?_⟩⟩⟩
        rw [← hkeySet, hkeys, hdigest]
    obtain ⟨w', rfl, hchange⟩ := hchange
    refine steps_single (Step.consume (c := s.consents) (k := consumption s w binding now) hmem ?_)
    exact
      { sessionID := rfl
        principal := by
          intro σ hσ hid
          have hfound : s.sessionByID w.sessionID = some σ := by
            cases hfind : s.sessionByID w.sessionID with
            | none =>
              have hnone := find?_eq_none.mp hfind σ hσ
              rw [decide_eq_true_eq] at hnone
              exact absurd hid hnone
            | some σ' =>
              obtain ⟨hσ', hid'⟩ := ReauthTables.mem_of_sessionByID hfind
              exact congrArg some (s.sessions.eq_of_key hσ' hσ (hid'.trans hid.symm))
          show ((s.sessionByID w.sessionID).map Session.principal).getD "" = σ.principal
          rw [hfound]
          rfl
        environment := henv.symm
        ceremonyID := rfl
        singleDecision := rfl
        origin := rfl
        epoch := rfl
        current := hepoch
        live := hhard
        decides := fun b hb => ReauthIntent.bindingFor_decides hi hbinding hb
        change := hchange }

theorem steps_of_consumeThrough {door : ConsumptionDoor}
    (h : consumeThrough cfg door sessionID request now s = .ok s') :
    Steps cfg allowed s.consents s'.consents := by
  obtain ⟨intent, hintent, h⟩ := bind_ok h
  have hdigested := IntentRequest.digested hintent
  cases door with
  | disclosure | adapter | developerCredential =>
    replace h := skip h
    obtain ⟨binding, hbinding, h⟩ := bind_ok h
    exact consumeReauthWindow_spec hdigested hbinding h
  | selfConfig =>
    replace h := skip (skip h)
    obtain ⟨binding, hbinding, h⟩ := bind_ok h
    exact consumeReauthWindow_spec hdigested hbinding h

/-! ## Calls and runs -/

/-- A call of one of the services. -/
inductive ReauthOp where
  | signIn (id principal : String) (artifact : SessionArtifact) (idleExpiresAt absoluteExpiresAt : ℤ)
      (requestingOrigin : String) (factors : List String)
  | endSessions (ids : List String)
  | advanceGeneration (principal : String)
  | advanceRestoreEpoch (epoch : ℕ)
  | confirmTOTP (credential : TOTPCredential)
  | createEnvironment (environmentID : String)
  | setEnvironment (authorized : Bool) (environmentID : String) (want : EnvironmentSettings)
  | reauthTOTP (presented : String) (request : IntentRequest) (proof : TOTPProof)
      (authorized : List String) (now : ℤ)
  | reauthPasskeyStart (presented : String) (request : IntentRequest)
      (ceremonyID challenge : String) (authorized : List String) (now : ℤ)
  | reauthPasskeyFinish (presented challenge : String) (verdict : AssertionVerdict) (now : ℤ)
  | startCLIReauth (presented : String) (request : IntentRequest)
      (id state pkceChallenge : String) (wellFormed : Bool) (authorized : List String) (now : ℤ)
  | approveCLIReauth (presented state code : String) (authorized : Bool) (now : ℤ)
  | redeemCLIReauth (code pkceVerifier : String) (now : ℤ)
  | startStepUp (request : IntentRequest) (id state origin pkceChallenge sessionID : String)
      (allowed : Bool) (now : ℤ)
  | approveStepUp (presented state code : String) (allowed : Bool) (now : ℤ)
  | redeemStepUp (code pkceVerifier origin : String) (allowed : Bool) (now : ℤ)
  | consume (door : ConsumptionDoor) (sessionID : String) (request : IntentRequest) (now : ℤ)
deriving DecidableEq, Repr

def perform (cfg : ReauthConfig) : ReauthOp → ReauthTables → Except ReauthError ReauthTables
  | .signIn id principal artifact idle abs origin factors =>
    signIn id principal artifact idle abs origin factors
  | .endSessions ids => fun s => .ok (endSessions s ids)
  | .advanceGeneration principal => fun s => .ok (advanceGeneration s principal)
  | .advanceRestoreEpoch epoch => advanceRestoreEpoch epoch
  | .confirmTOTP credential => fun s => .ok (confirmTOTP credential s)
  | .createEnvironment environmentID => createEnvironment environmentID
  | .setEnvironment authorized environmentID want =>
    setEnvironment cfg authorized environmentID want
  | .reauthTOTP presented request proof authorized now =>
    reauthTOTP cfg presented request proof authorized now
  | .reauthPasskeyStart presented request ceremonyID challenge authorized now =>
    reauthPasskeyStart cfg presented request ceremonyID challenge authorized now
  | .reauthPasskeyFinish presented challenge verdict now =>
    reauthPasskeyFinish cfg presented challenge verdict now
  | .startCLIReauth presented request id state pkceChallenge wellFormed authorized now =>
    startCLIReauth cfg presented request id state pkceChallenge wellFormed authorized now
  | .approveCLIReauth presented state code authorized now =>
    approveCLIReauth cfg presented state code authorized now
  | .redeemCLIReauth code pkceVerifier now => redeemCLIReauth cfg code pkceVerifier now
  | .startStepUp request id state origin pkceChallenge sessionID allowed now =>
    startStepUp cfg request id state origin pkceChallenge sessionID allowed now
  | .approveStepUp presented state code allowed now => approveStepUp presented state code allowed now
  | .redeemStepUp code pkceVerifier origin allowed now =>
    redeemStepUp cfg code pkceVerifier origin allowed now
  | .consume door sessionID request now => consumeThrough cfg door sessionID request now

/-- A transaction commits as a whole or leaves nothing. -/
def reauthStep (cfg : ReauthConfig) (s : ReauthTables) (op : ReauthOp) : ReauthTables :=
  Tx.commit (perform cfg op) s

/-- A call that tightens the policy of an environment. -/
def ReauthOp.Tightens (cfg : ReauthConfig) (s : ReauthTables) (op : ReauthOp)
    (environmentID : String) : Prop :=
  ∃ authorized want, op = .setEnvironment authorized environmentID want ∧
    tightens cfg s environmentID want = true

/-- **A transaction that commits is a sequence of moves.** -/
theorem steps_of_run {op : ReauthOp} (h : perform cfg op s = .ok s')
    (hallowed : ∀ env, op.Tightens cfg s env → allowed s.consents env) :
    Steps cfg allowed s.consents s'.consents := by
  cases op with
  | signIn => exact steps_of_signIn h
  | endSessions ids =>
    cases h
    exact steps_of_endSessions ids
  | advanceGeneration | confirmTOTP =>
    cases h
    exact Relation.ReflTransGen.refl
  | advanceRestoreEpoch => exact steps_of_advanceRestoreEpoch h
  | createEnvironment => exact steps_of_createEnvironment h
  | setEnvironment authorized env want =>
    exact steps_of_setEnvironment h fun ht => hallowed env ⟨authorized, want, rfl, ht⟩
  | reauthTOTP => exact steps_of_reauthTOTP h
  | reauthPasskeyStart => exact steps_of_reauthPasskeyStart h
  | reauthPasskeyFinish => exact steps_of_reauthPasskeyFinish h
  | startCLIReauth => exact steps_of_startCLIReauth h
  | approveCLIReauth => exact steps_of_approveCLIReauth h
  | redeemCLIReauth => exact steps_of_redeemCLIReauth h
  | startStepUp =>
    rw [consents_of_startStepUp h]
  | approveStepUp =>
    rw [consents_of_approveStepUp h]
  | redeemStepUp => exact steps_of_redeemStepUp h
  | consume => exact steps_of_consumeThrough h

/-- **Every run is a sequence of moves**, if every call of it that tightens a policy is
allowed to. -/
theorem steps_of_exec : ∀ (ops : List ReauthOp) (s : ReauthTables), Tx.Along (reauthStep cfg)
      (fun s op => ∀ env, op.Tightens cfg s env → allowed s.consents env) s ops →
    Steps cfg allowed s.consents (Tx.exec (reauthStep cfg) s ops).consents
  | [], _, _ => Relation.ReflTransGen.refl
  | op :: ops, s, h => by
    have hop : Steps cfg allowed s.consents (reauthStep cfg s op).consents := by
      unfold reauthStep Tx.commit
      cases hrun : perform cfg op s with
      | error => exact Relation.ReflTransGen.refl
      | ok s' => exact steps_of_run hrun h.1
    exact hop.trans (steps_of_exec ops _ h.2)

/-- The tables are empty at first, and nothing needs a trace. -/
theorem traced_initial : Traced cfg ReauthTables.initial.consents where
  epochs _ h := nomatch h
  windows _ h := nomatch h
  handoffs _ h := nomatch h
  consumptions _ _ h := nomatch h

end Hikyo.Reauth
