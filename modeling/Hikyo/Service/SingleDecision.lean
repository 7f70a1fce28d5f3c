import Hikyo.Service.ReauthRuns

/-!
# A signed decision is spent once

Where the effective window is zero, a passkey signs one decision, and the right to act on
it is spent by the first consumption. The right has no table of its own. It is a
challenge that waits for its signature, then a window of the browser's session; an
approval moves it into a handoff, a redemption into a window of another session, and a
consumption into the journal. Each move has its own guard.

`rights c id` adds up where the right of the challenge `id` can be. No move makes more of
it (`Spending.step`), and a challenge starts with one, so there is at most one consumption
of it in a whole run, over all sessions. The consumption is for the decision that was
signed: the text is compared, and the text of a decision determines it
(`SignedBinding.text_injective`).
-/

namespace Hikyo.Reauth

open List
open Table (Keyed)

/-! ## Where a right can be -/

section

variable (id : String)

/-- A challenge that waits for its signature. -/
def challengeRight (row : WebAuthnCeremony) : ℕ :=
  if row.id = id ∧ row.consumed = false then 1 else 0

/-- A single decision of the challenge, in a window or in a handoff. -/
def grantRight (a : WindowGrant) : ℕ :=
  if a.ceremonyID = .webauthn id ∧ a.singleDecision = true then 1 else 0

def windowRight (w : ReauthWindow) : ℕ :=
  if w.consumed = true then 0 else grantRight id w.toWindowGrant

def grantRights (grants : List WindowGrant) : ℕ :=
  (grants.map (grantRight id)).sum

def handoffRight (h : CLIReauthHandoff) : ℕ :=
  if h.consumed = true then 0 else grantRights id h.approvedWindows

/-- A consumption of a single decision of the challenge. -/
def spentRight : ReauthEvent → ℕ
  | .consumed k => if k.ceremonyID = .webauthn id ∧ k.singleDecision = true then 1 else 0
  | _ => 0

def spentRights (journal : List ReauthEvent) : ℕ := (journal.map (spentRight id)).sum

end

/-- **The right of a challenge**, wherever it is. -/
def rights (c : Consents) (id : String) : ℕ :=
  c.ceremonies.total (challengeRight id) + c.windows.total (windowRight id) +
    c.cliHandoffs.total (handoffRight id) + spentRights id c.journal

theorem spentRights_concat (id : String) (journal : List ReauthEvent) (e : ReauthEvent) :
    spentRights id (journal ++ [e]) = spentRights id journal + spentRight id e := by
  unfold spentRights
  rw [map_append, sum_append, map_singleton, sum_singleton]

theorem windowRight_le (id : String) (w : ReauthWindow) :
    windowRight id w ≤ grantRight id w.toWindowGrant := by
  unfold windowRight
  split
  · exact Nat.zero_le _
  · exact le_rfl

theorem windowRight_claimed (id : String) (w : ReauthWindow) :
    windowRight id { w with consumed := true } = 0 := if_pos rfl

theorem handoffRight_consumed (id : String) (h : CLIReauthHandoff) :
    handoffRight id { h with consumed := true } = 0 := if_pos rfl

variable {id : String} {a : WindowGrant}

theorem grantRight_of_sliding (h : a.singleDecision = false) : grantRight id a = 0 := by
  refine if_neg fun hboth => ?_
  rw [h] at hboth
  cases hboth.2

theorem windowRight_unclaimed (id : String) {w : ReauthWindow} (h : w.consumed = false) :
    windowRight id w = grantRight id w.toWindowGrant := by
  unfold windowRight
  rw [h]
  rfl

theorem handoffRight_open (id : String) {h : CLIReauthHandoff} (hopen : h.consumed = false) :
    handoffRight id h = grantRights id h.approvedWindows := by
  unfold handoffRight
  rw [hopen]
  rfl

theorem handoffRight_le (id : String) (h : CLIReauthHandoff) :
    handoffRight id h ≤ grantRights id h.approvedWindows := by
  unfold handoffRight
  split
  · exact Nat.zero_le _
  · exact le_rfl

theorem sum_windowRight_le (id : String) : ∀ ws : List ReauthWindow,
      (ws.map (windowRight id)).sum ≤ grantRights id (ws.map ReauthWindow.toWindowGrant)
  | [] => le_rfl
  | w :: ws => Nat.add_le_add (windowRight_le id w) (sum_windowRight_le id ws)

/-- What an approval claims it puts on its list: the right moves. -/
theorem Claims.rights_le {sessionID : String} {W W' : Keyed ReauthWindow.key}
    {ws : List ReauthWindow} (h : Claims sessionID W ws W') :
    W'.total (windowRight id) + grantRights id (ws.map ReauthWindow.toWindowGrant) ≤
      W.total (windowRight id) := by
  induction h with
  | nil => exact le_rfl
  | @single W W' ws w hw _ _ hopen _ ih =>
    have hmoved := Keyed.total_put_add (f := windowRight id)
      (x := ({ w with consumed := true } : ReauthWindow)) hw rfl
    rw [windowRight_claimed, windowRight_unclaimed id hopen] at hmoved
    unfold grantRights at ih ⊢
    rw [map_cons, map_cons, sum_cons]
    omega
  | sliding _ _ hsliding _ ih =>
    unfold grantRights at ih ⊢
    rw [map_cons, map_cons, sum_cons, grantRight_of_sliding hsliding, Nat.zero_add]
    exact ih

/-! ## Signatures and decisions -/

/-- Challenges stay, with what they are for; one that was answered stays answered. -/
def ChallengesKept (t t' : Keyed WebAuthnCeremony.id) : Prop :=
  ∀ row ∈ t.rows, ∃ row' ∈ t'.rows, row'.id = row.id ∧
    row'.operationBinding = row.operationBinding ∧ (row.consumed = true → row'.consumed = true)

variable {x : WebAuthnCeremony}

theorem challengesKept_insert {t t' : Keyed WebAuthnCeremony.id}
    (h : t.insert x = some t') : ChallengesKept t t' :=
  fun row hrow => ⟨row, (Keyed.insert_eq_some h).1 ▸ mem_cons_of_mem _ hrow, rfl, rfl, id⟩

theorem challengesKept_answered {t : Keyed WebAuthnCeremony.id}
    (hx : x ∈ t.rows) : ChallengesKept t (t.put { x with consumed := true }) := by
  intro row hrow
  by_cases hid : row.id = x.id
  · obtain rfl := t.eq_of_key hrow hx hid
    exact ⟨_, Keyed.mem_put.mpr (.inl rfl), rfl, rfl, fun _ => rfl⟩
  · exact ⟨row, Keyed.mem_put.mpr (.inr ⟨hrow, hid⟩), rfl, rfl, id⟩

/-- **Every signature and every decision in the journal has its challenge.** A challenge is
answered at most once, and what is decided on it is what was signed. -/
structure Settled (cfg : ReauthConfig) (ceremonies : Keyed WebAuthnCeremony.id)
    (journal : List ReauthEvent) : Prop where
  signatures : ∀ k id, .reauthenticated k ∈ journal → k.ceremonyID = .webauthn id →
    (k.zeroWindow = true → k.singleDecision = true) ∧ ∃ row ∈ ceremonies.rows, row.id = id ∧
      row.consumed = true ∧ k.signed = some row.operationBinding
  once : ∀ k k' id, .reauthenticated k ∈ journal → .reauthenticated k' ∈ journal →
    k.ceremonyID = .webauthn id → k'.ceremonyID = .webauthn id → k = k'
  decisions : ∀ k id, .consumed k ∈ journal → k.singleDecision = true →
    k.ceremonyID = .webauthn id → ∃ row ∈ ceremonies.rows, row.id = id ∧
      Decides cfg.digest k.binding row.operationBinding

variable {k : Completion}

namespace Settled

variable {cfg : ReauthConfig} {t t' : Keyed WebAuthnCeremony.id} {journal : List ReauthEvent}

theorem mono (h : Settled cfg t journal) (hkept : ChallengesKept t t') :
    Settled cfg t' journal where
  signatures k id hk hid := by
    obtain ⟨hzero, row, hrow, hrowid, hconsumed, hsigned⟩ := h.signatures k id hk hid
    obtain ⟨row', hrow', hid', hbinding, hconsumed'⟩ := hkept row hrow
    exact ⟨hzero, row', hrow', hid'.trans hrowid, hconsumed' hconsumed, hbinding ▸ hsigned⟩
  once := h.once
  decisions k id hk hsingle hid := by
    obtain ⟨row, hrow, hrowid, hdecides⟩ := h.decisions k id hk hsingle hid
    obtain ⟨row', hrow', hid', hbinding, -⟩ := hkept row hrow
    exact ⟨row', hrow', hid'.trans hrowid, hbinding ▸ hdecides⟩

/-- An event that is no signature of a challenge, and that decides on what was signed. -/
theorem append (h : Settled cfg t journal) {e : ReauthEvent}
    (hsign : ∀ k, e = .reauthenticated k → ∀ id, k.ceremonyID ≠ .webauthn id)
    (hdecide : ∀ k id, e = .consumed k → k.singleDecision = true → k.ceremonyID = .webauthn id →
      ∃ row ∈ t.rows, row.id = id ∧ Decides cfg.digest k.binding row.operationBinding) :
    Settled cfg t (journal ++ [e]) := by
  have hold : ∀ k id, .reauthenticated k ∈ journal ++ [e] → k.ceremonyID = .webauthn id →
      .reauthenticated k ∈ journal := by
    intro k id hk hid
    rcases mem_append.mp hk with hk | hk
    · exact hk
    · exact absurd hid (hsign k (mem_singleton.mp hk).symm id)
  refine ⟨fun k id hk hid => h.signatures k id (hold k id hk hid) hid,
    fun k k' id hk hk' hid hid' => h.once k k' id (hold k id hk hid) (hold k' id hk' hid') hid hid',
    fun k id hk hsingle hid => ?_⟩
  rcases mem_append.mp hk with hk | hk
  · exact h.decisions k id hk hsingle hid
  · exact hdecide k id (mem_singleton.mp hk).symm hsingle hid

/-- **A challenge that waits is answered.** It was not answered before, so this is its only
signature. -/
theorem sign (h : Settled cfg t journal) {row : WebAuthnCeremony}
    (hrow : row ∈ t.rows) (hopen : row.consumed = false) (hid : k.ceremonyID = .webauthn row.id)
    (hsigned : k.signed = some row.operationBinding)
    (hzero : k.zeroWindow = true → k.singleDecision = true) :
    Settled cfg (t.put { row with consumed := true }) (journal ++ [.reauthenticated k]) := by
  have hkept := h.mono (challengesKept_answered hrow)
  have hnew : ∀ k', .reauthenticated k' ∈ journal → k'.ceremonyID ≠ .webauthn row.id := by
    intro k' hk' hid'
    obtain ⟨-, row', hrow', hrowid, hconsumed, -⟩ := h.signatures k' row.id hk' hid'
    obtain rfl := t.eq_of_key hrow' hrow hrowid
    rw [hopen] at hconsumed
    cases hconsumed
  have hcases : ∀ k', .reauthenticated k' ∈ journal ++ [.reauthenticated k] →
      .reauthenticated k' ∈ journal ∨ k' = k := by
    intro k' hk'
    rcases mem_append.mp hk' with hk' | hk'
    · exact .inl hk'
    · exact .inr (ReauthEvent.reauthenticated.inj (mem_singleton.mp hk'))
  refine ⟨fun k' id hk' hid' => ?_, fun k₁ k₂ id h₁ h₂ hid₁ hid₂ => ?_,
    fun k' id hk' hsingle hid' => ?_⟩
  · rcases hcases k' hk' with hk' | rfl
    · exact hkept.signatures k' id hk' hid'
    · obtain rfl : row.id = id := CeremonyID.webauthn.inj (hid.symm.trans hid')
      exact ⟨hzero, _, Keyed.mem_put.mpr (.inl rfl), rfl, rfl, hsigned⟩
  · rcases hcases k₁ h₁ with hold₁ | heq₁
    · rcases hcases k₂ h₂ with hold₂ | heq₂
      · exact h.once k₁ k₂ id hold₁ hold₂ hid₁ hid₂
      · rw [heq₂] at hid₂
        exact absurd (hid₁.trans (hid₂.symm.trans hid)) (hnew k₁ hold₁)
    · rcases hcases k₂ h₂ with hold₂ | heq₂
      · rw [heq₁] at hid₁
        exact absurd (hid₂.trans (hid₁.symm.trans hid)) (hnew k₂ hold₂)
      · exact heq₁.trans heq₂.symm
  · rcases mem_append.mp hk' with hk' | hk'
    · exact hkept.decisions k' id hk' hsingle hid'
    · cases mem_singleton.mp hk'

end Settled

/-! ## The right under the moves -/

/-- **There is at most one right for each challenge.** -/
structure Spending (cfg : ReauthConfig) (c : Consents) : Prop where
  rights : ∀ id, rights c id ≤ 1
  settled : Settled cfg c.ceremonies c.journal

section Step

variable {cfg : ReauthConfig} {allowed : Consents → String → Prop} {c c' : Consents}

/-- A window or an approved window comes from a challenge that is in the table. -/
theorem exists_challenge (hs : Settled cfg c.ceremonies c.journal)
    {principal : String} {epoch : ℕ} (hground : Grounded cfg c.journal a principal epoch)
    (hright : grantRight id a ≠ 0) : ∃ row ∈ c.ceremonies.rows, row.id = id := by
  have hid : a.ceremonyID = .webauthn id := by
    by_contra hne
    exact hright (if_neg fun h => hne h.1)
  obtain ⟨k, hk, hbacks⟩ := hground
  obtain ⟨-, row, hrow, hrowid, -⟩ := hs.signatures k id (mem_of_getElem? hk)
    (hbacks.ceremonyID.trans hid)
  exact ⟨row, hrow, hrowid⟩

/-- There is no right without a challenge. -/
theorem rights_eq_zero (ht : Traced cfg c) (hs : Settled cfg c.ceremonies c.journal)
    (hnone : ∀ row ∈ c.ceremonies.rows, row.id ≠ id) : rights c id = 0 := by
  have hchallenges : c.ceremonies.total (challengeRight id) = 0 :=
    Keyed.total_eq_zero fun row hrow => if_neg fun h => hnone row hrow h.1
  have hwindows : c.windows.total (windowRight id) = 0 := by
    refine Keyed.total_eq_zero fun w hw => ?_
    by_contra hne
    obtain ⟨-, σ, -, -, hground, -⟩ := ht.windows w hw
    obtain ⟨row, hrow, hid⟩ := exists_challenge hs hground fun hzero =>
      hne (Nat.le_zero.mp (hzero ▸ windowRight_le id w))
    exact hnone row hrow hid
  have hhandoffs : c.cliHandoffs.total (handoffRight id) = 0 := by
    refine Keyed.total_eq_zero fun h hh => Nat.le_zero.mp ((handoffRight_le id h).trans ?_)
    refine (sum_eq_zero fun n hn => ?_).le
    obtain ⟨a, ha, rfl⟩ := mem_map.mp hn
    by_contra hne
    obtain ⟨σ, -, -, happroved⟩ := ht.handoffs h hh
    obtain ⟨epoch, hground, -⟩ := happroved a ha
    obtain ⟨row, hrow, hid⟩ := exists_challenge hs hground hne
    exact hnone row hrow hid
  have hspent : spentRights id c.journal = 0 := by
    refine sum_eq_zero fun n hn => ?_
    obtain ⟨e, he, rfl⟩ := mem_map.mp hn
    cases e with
    | reauthenticated | windowLowered => rfl
    | consumed k =>
      refine if_neg fun h => ?_
      obtain ⟨row, hrow, hid, -⟩ := hs.decisions k id he h.2 h.1
      exact hnone row hrow hid
  unfold rights
  rw [hchallenges, hwindows, hhandoffs, hspent]

/-- A consumption of a single decision is for what its challenge was for. -/
theorem Spends.decided (ht : Traced cfg c) (hs : Settled cfg c.ceremonies c.journal)
    {w w' : ReauthWindow} {k : Consumption} (hw : w ∈ c.windows.rows)
    (hk : Spends cfg c w w' k) (hsingle : k.singleDecision = true)
    (hid : k.ceremonyID = .webauthn id) : ∃ row ∈ c.ceremonies.rows, row.id = id ∧
      Decides cfg.digest k.binding row.operationBinding := by
  have hwid : w.ceremonyID = .webauthn id := hk.ceremonyID.symm.trans hid
  rcases hk.change with ⟨-, -, -, hmatched⟩ | ⟨hsliding, -⟩
  · rcases hmatched with ⟨row, hrow, hrowid, hbinding⟩ | ⟨hexact, b, hb, hpurpose, hkeySet⟩
    · exact ⟨row, hrow, CeremonyID.webauthn.inj (hrowid.symm.trans hwid), hk.decides _ hbinding⟩
    · -- an exact decision is compared by its digest, which is on the window
      obtain ⟨-, σ, -, -, ⟨c₀, hc₀, hbacks⟩, -⟩ := ht.windows w hw
      obtain ⟨-, row, hrow, hrowid, -, hsigned⟩ := hs.signatures c₀ id (mem_of_getElem? hc₀)
        (hbacks.ceremonyID.trans hwid)
      obtain ⟨hrowexact, hrowkeys⟩ := hbacks.exact hexact _ hsigned
      refine ⟨row, hrow, hrowid, ?_⟩
      have hdigest : cfg.digest b.text = cfg.digest row.operationBinding.text :=
        hkeySet.symm.trans hrowkeys
      have hp : exactPurpose k.binding.purpose := hpurpose ▸ hexact
      cases hrow' : row.operationBinding with
      | disclosure | adapter => rw [hrow'] at hrowexact; cases hrowexact
      | developerCredential | selfConfig => exact ⟨hp, b, hb, hrow' ▸ hdigest⟩
  · rw [hk.singleDecision, hsliding] at hsingle
    cases hsingle

/-- **No move makes a right**, except that a new challenge has one. -/
theorem Spending.step (ht : Traced cfg c) (hs : Spending cfg c) (h : Step cfg allowed c c') :
    Spending cfg c' := by
  cases h with
  | signIn | restore => exact ⟨hs.rights, hs.settled⟩
  | signOut ids =>
    refine ⟨fun id => le_trans ?_ (hs.rights id), hs.settled⟩
    have hwindows := Keyed.total_delete_le (f := windowRight id) (t := c.windows)
      (fun w => decide (w.sessionID ∈ ids))
    have hhandoffs := Keyed.total_delete_le (f := handoffRight id) (t := c.cliHandoffs)
      (fun h => decide (h.sessionID ∈ ids))
    simp only [Reauth.rights]
    omega
  | @lower env =>
    refine ⟨fun id => le_trans ?_ (hs.rights id),
      hs.settled.append (fun k hk => nomatch hk) fun k id hk => nomatch hk⟩
    have hwindows := Keyed.total_delete_le (f := windowRight id) (t := c.windows)
      (fun w => decide (w.environmentID = env))
    have hspent := spentRights_concat id c.journal (.windowLowered env)
    have hnone : spentRight id (.windowLowered env) = 0 := rfl
    simp only [Reauth.rights]
    omega
  | @challenge row _ hinsert hopen =>
    refine ⟨fun id => ?_, hs.settled.mono (challengesKept_insert hinsert)⟩
    have hchallenges := Keyed.total_insert (f := challengeRight id) hinsert
    have hold := hs.rights id
    by_cases hid : row.id = id
    · -- the identifier is new, and nothing is held for it
      have hzero : Reauth.rights c id = 0 := rights_eq_zero ht hs.settled fun r hr heq =>
        (Keyed.insert_eq_some hinsert).2 r hr (heq.trans hid.symm)
      have hone : challengeRight id row ≤ 1 := by
        unfold challengeRight
        split <;> omega
      unfold Reauth.rights at hzero ⊢
      dsimp only
      omega
    · have hnone : challengeRight id row = 0 := if_neg fun h => hid h.1
      unfold Reauth.rights at hold ⊢
      dsimp only
      omega
  | @spoil row hrow =>
    refine ⟨fun id => le_trans ?_ (hs.rights id), hs.settled.mono (challengesKept_answered hrow)⟩
    have hchallenges := Keyed.total_put_add (f := challengeRight id)
      (x := ({ row with consumed := true } : WebAuthnCeremony)) hrow rfl
    have hnone : challengeRight id { row with consumed := true } = 0 := if_neg fun h => nomatch h.2
    simp only [Reauth.rights]
    omega
  | @prove ws k hid _ hws =>
    refine ⟨fun id => le_trans ?_ (hs.rights id), hs.settled.append
      (fun k' hk' => ReauthEvent.reauthenticated.inj hk' ▸ hid) fun k id hk => nomatch hk⟩
    have hwindows := Keyed.total_foldl_put_le (f := windowRight id) ws c.windows
    have hnone : (ws.map (windowRight id)).sum = 0 := by
      refine sum_eq_zero fun n hn => ?_
      obtain ⟨w, hw, rfl⟩ := mem_map.mp hn
      refine Nat.le_zero.mp ((windowRight_le id w).trans (if_neg fun h => ?_).le)
      exact hid id ((hws w hw).ceremonyID.trans h.1)
    have hspent := spentRights_concat id c.journal (.reauthenticated k)
    have hzero : spentRight id (.reauthenticated k) = 0 := rfl
    simp only [Reauth.rights]
    omega
  | @sign w row k hrow hopen hid hsigned hzero _ hw =>
    refine ⟨fun id => le_trans ?_ (hs.rights id), hs.settled.sign hrow hopen hid hsigned hzero⟩
    have hchallenges := Keyed.total_put_add (f := challengeRight id)
      (x := ({ row with consumed := true } : WebAuthnCeremony)) hrow rfl
    have hnone : challengeRight id { row with consumed := true } = 0 := if_neg fun h => nomatch h.2
    have hwindows := Keyed.total_put_le (f := windowRight id) (t := c.windows) w
    have hspent := spentRights_concat id c.journal (.reauthenticated k)
    have hevent : spentRight id (.reauthenticated k) = 0 := rfl
    -- the right of the challenge becomes the right of the window
    have hmoved : windowRight id w ≤ challengeRight id row := by
      by_cases hrowid : row.id = id
      · have hone : challengeRight id row = 1 := if_pos ⟨hrowid, hopen⟩
        refine (windowRight_le id w).trans ?_
        unfold grantRight
        split <;> omega
      · have hother : grantRight id w.toWindowGrant = 0 := if_neg fun h =>
          hrowid (CeremonyID.webauthn.inj (hid.symm.trans (hw.ceremonyID.trans h.1)))
        exact (windowRight_le id w).trans (hother ▸ Nat.zero_le _)
    simp only [Reauth.rights]
    omega
  | @handoff _ h _ _ _ hnone hinsert =>
    refine ⟨fun id => le_trans ?_ (hs.rights id), hs.settled⟩
    have hhandoffs := Keyed.total_insert (f := handoffRight id) hinsert
    have hzero : handoffRight id h = 0 := by
      refine Nat.le_zero.mp ((handoffRight_le id h).trans ?_)
      rw [hnone]
      exact le_rfl
    simp only [Reauth.rights]
    omega
  | @approve ws windows h _ code hh _ _ _ _ _ hclaims =>
    refine ⟨fun id => le_trans ?_ (hs.rights id), hs.settled⟩
    have hwindows : windows.total (windowRight id) +
        grantRights id (ws.map ReauthWindow.toWindowGrant) ≤ c.windows.total (windowRight id) :=
      hclaims.rights_le
    have hhandoffs := Keyed.total_put_le (f := handoffRight id) (t := c.cliHandoffs)
      { h with code, approvedWindows := ws.map ReauthWindow.toWindowGrant }
    have hlist := handoffRight_le id
      { h with code, approvedWindows := ws.map ReauthWindow.toWindowGrant }
    unfold Reauth.rights
    dsimp only at hlist ⊢
    omega
  | @redeem h σ hh hopen _ _ _ _ =>
    refine ⟨fun id => le_trans ?_ (hs.rights id), hs.settled⟩
    have hhandoffs := Keyed.total_put_add (f := handoffRight id)
      (x := ({ h with consumed := true } : CLIReauthHandoff)) hh rfl
    rw [handoffRight_consumed, handoffRight_open id hopen] at hhandoffs
    have hwindows := Keyed.total_foldl_put_le (f := windowRight id)
      (h.approvedWindows.map (·.openFor σ.id c.epoch)) c.windows
    have hlist := sum_windowRight_le id (h.approvedWindows.map (·.openFor σ.id c.epoch))
    have hsame : (h.approvedWindows.map (·.openFor σ.id c.epoch)).map
        ReauthWindow.toWindowGrant = h.approvedWindows := by
      rw [map_map]
      exact map_id _
    rw [hsame] at hlist
    simp only [Reauth.rights]
    omega
  | @consume w w' k hw hk =>
    refine ⟨fun id => le_trans ?_ (hs.rights id), hs.settled.append (fun k hk => nomatch hk)
      fun k' id hk' hsingle hid => ?_⟩
    · have hspent := spentRights_concat id c.journal (.consumed k)
      rcases hk.change with ⟨hsingle, hopen, rfl, -⟩ | ⟨hsliding, expiresAt, rfl⟩
      · have hmoved := Keyed.total_put_add (f := windowRight id)
          (x := ({ w with consumed := true } : ReauthWindow)) hw rfl
        rw [windowRight_claimed, windowRight_unclaimed id hopen] at hmoved
        -- the right of the window becomes the consumption
        have hevent : spentRight id (.consumed k) = grantRight id w.toWindowGrant := by
          show (if k.ceremonyID = .webauthn id ∧ k.singleDecision = true then 1 else 0) = _
          rw [hk.ceremonyID, hk.singleDecision]
          rfl
        simp only [Reauth.rights]
        omega
      · have hwindows := Keyed.total_put_le (f := windowRight id) (t := c.windows)
          { w with windowExpiresAt := expiresAt }
        have hzero : windowRight id { w with windowExpiresAt := expiresAt } = 0 :=
          Nat.le_zero.mp ((windowRight_le id _).trans (grantRight_of_sliding hsliding).le)
        have hevent : spentRight id (.consumed k) = 0 := by
          refine if_neg fun h => ?_
          rw [hk.singleDecision, hsliding] at h
          cases h.2
        simp only [Reauth.rights]
        omega
    · obtain rfl := ReauthEvent.consumed.inj hk'
      exact hk.decided ht hs.settled hw hsingle hid

end Step

/-! ## Runs -/

theorem spending_initial (cfg : ReauthConfig) : Spending cfg ReauthTables.initial.consents where
  rights _ := Nat.zero_le _
  settled :=
    { signatures := fun _ _ h => nomatch h
      once := fun _ _ _ h => nomatch h
      decisions := fun _ _ h => nomatch h }

/-- Whether an event is a consumption that rests on a challenge. -/
def consumesChallenge (id : String) : ReauthEvent → Bool
  | .consumed k => k.ceremonyID = .webauthn id
  | _ => false

theorem countP_le_sum_map {α : Type} {p : α → Bool} {f : α → ℕ} :
    ∀ {l : List α}, (∀ e ∈ l, p e = true → 1 ≤ f e) → l.countP p ≤ (l.map f).sum
  | [], _ => le_rfl
  | e :: l, h => by
    have htail := countP_le_sum_map fun e he => h e (mem_cons_of_mem _ he)
    rw [map_cons, sum_cons]
    by_cases he : p e = true
    · rw [countP_cons_of_pos he]
      have hhead := h e mem_cons_self he
      omega
    · rw [countP_cons_of_neg he]
      omega

/-- After every run, consents are traced and rights are at most one. -/
theorem traced_and_spending (cfg : ReauthConfig) (ops : List ReauthOp) :
    Traced cfg (Tx.exec (reauthStep cfg) ReauthTables.initial ops).consents ∧
      Spending cfg (Tx.exec (reauthStep cfg) ReauthTables.initial ops).consents := by
  have hsteps : Steps cfg (fun _ _ => True) ReauthTables.initial.consents
      (Tx.exec (reauthStep cfg) ReauthTables.initial ops).consents :=
    steps_of_exec ops ReauthTables.initial (Tx.along_of_forall (fun _ _ _ _ => trivial) _ _)
  have hstep : ∀ c c', Traced cfg c ∧ Spending cfg c → Step cfg (fun _ _ => True) c c' →
      Traced cfg c' ∧ Spending cfg c' := fun _ _ hc h => ⟨hc.1.step h, hc.2.step hc.1 h⟩
  exact invariant_of_steps hstep hsteps ⟨traced_initial, spending_initial cfg⟩

/-- What rests on a zero-window ceremony is a single decision. -/
theorem singleDecision_of_zeroWindow {cfg : ReauthConfig} {c : Consents} (ht : Traced cfg c)
    (hs : Settled cfg c.ceremonies c.journal) {e : Consumption}
    (hk : .reauthenticated k ∈ c.journal) (hid : k.ceremonyID = .webauthn id)
    (hzero : k.zeroWindow = true) (he : .consumed e ∈ c.journal)
    (heid : e.ceremonyID = .webauthn id) : e.singleDecision = true := by
  obtain ⟨i, hi⟩ := mem_iff_getElem?.mp he
  obtain ⟨-, k', hk', hrests⟩ := ht.consumptions i e hi
  have hsame : k' = k := hs.once k' k id (mem_of_getElem? hk') hk
    (hrests.ceremonyID.trans heid) hid
  rw [← hrests.singleDecision, hsame]
  exact (hs.signatures k id hk hid).1 hzero

/-- **A zero-window ceremony authorizes the signed decision, once.** For every run and every
ceremony that a passkey completed where the effective window was zero: at most one
consumption rests on it, over all sessions and handoffs; the consumption is for the
decision that was signed; and two different decisions never have the same text. -/
theorem zeroWindow_ceremony_decides_once (cfg : ReauthConfig) (ops : List ReauthOp) :
    (∀ (c : Completion) (id : String),
      .reauthenticated c ∈ (Tx.exec (reauthStep cfg) ReauthTables.initial ops).journal →
      c.ceremonyID = .webauthn id → c.zeroWindow = true →
      (Tx.exec (reauthStep cfg) ReauthTables.initial ops).journal.countP (consumesChallenge id) ≤ 1 ∧
      ∃ signed, c.signed = some signed ∧ ∀ k : Consumption,
        .consumed k ∈ (Tx.exec (reauthStep cfg) ReauthTables.initial ops).journal →
        k.ceremonyID = .webauthn id → Decides cfg.digest k.binding signed) ∧
    ∀ b b' : SignedBinding, b.text = b'.text → b = b' := by
  refine ⟨fun c id hc hid hzero => ?_, fun b b' h => SignedBinding.text_injective h⟩
  obtain ⟨ht, hrights, hsettled⟩ := traced_and_spending cfg ops
  obtain ⟨-, row, hrow, hrowid, -, hsigned⟩ := hsettled.signatures c id hc hid
  refine ⟨?_, row.operationBinding, hsigned, fun k hk hkid => ?_⟩
  · have hspent : (Tx.exec (reauthStep cfg) ReauthTables.initial ops).journal.countP
        (consumesChallenge id) ≤
          spentRights id (Tx.exec (reauthStep cfg) ReauthTables.initial ops).journal := by
      refine countP_le_sum_map fun e he hconsumes => ?_
      cases e with
      | reauthenticated | windowLowered => cases hconsumes
      | consumed k =>
        have hkid : k.ceremonyID = .webauthn id := of_decide_eq_true hconsumes
        exact (if_pos ⟨hkid, singleDecision_of_zeroWindow ht hsettled hc hid hzero he hkid⟩).ge
    have hone := hrights id
    unfold rights at hone
    have hjournal : (Tx.exec (reauthStep cfg) ReauthTables.initial ops).consents.journal =
      (Tx.exec (reauthStep cfg) ReauthTables.initial ops).journal := rfl
    rw [hjournal] at hone
    omega
  · obtain ⟨row', hrow', hrowid', hdecides⟩ := hsettled.decisions k id hk
      (singleDecision_of_zeroWindow ht hsettled hc hid hzero hk hkid) hkid
    obtain rfl := Keyed.eq_of_key hrow' hrow (hrowid'.trans hrowid.symm)
    exact hdecides

/-! ### A signed decision that is handed over -/

/-- An instance where every disclosure needs its own passkey ceremony. -/
def strictConfig : ReauthConfig where
  reauthWindow := 0
  reauthHardCap := 0
  digest := String.ofList
  pkceS256 verifier := verifier

/-- Alice signs a reveal in her browser, hands it to her command line, and reveals the key
there; the second attempt is refused. -/
def handedReveal : List ReauthOp :=
  [.createEnvironment "prod",
    .signIn "browser" "alice" .browser (60 * minute) (60 * minute) "" ["password"],
    .signIn "cli" "alice" .cli (60 * minute) (60 * minute) "" ["password"],
    .startCLIReauth "cli" (.disclosure .reveal ["prod"] ["key"]) "handoff" "state" "pkce" true
      ["prod"] 0,
    .reauthPasskeyStart "browser" (.disclosure .reveal ["prod"] ["key"]) "wac" "challenge"
      ["prod"] 0,
    .reauthPasskeyFinish "browser" "challenge" .accepted minute,
    .approveCLIReauth "browser" "state" "code" true (2 * minute),
    .redeemCLIReauth "code" "pkce" (3 * minute),
    .consume .disclosure "cli" (.disclosure .reveal ["prod"] ["key"]) (4 * minute),
    .consume .disclosure "cli" (.disclosure .reveal ["prod"] ["key"]) (4 * minute)]

/-- The signature, as the journal has it. -/
def signedReveal : Completion where
  ceremonyID := .webauthn "wac"
  principal := "alice"
  environmentIDs := ["prod"]
  time := minute
  credentialEpoch := 0
  signed := some (.disclosure .reveal "prod" ["key"])
  zeroWindow := true
  singleDecision := true

theorem handedReveal_decides_once : .reauthenticated signedReveal ∈
        (Tx.exec (reauthStep strictConfig) ReauthTables.initial handedReveal).journal ∧
      0 < (Tx.exec (reauthStep strictConfig) ReauthTables.initial handedReveal).journal.countP
        (consumesChallenge "wac") ∧
      (Tx.exec (reauthStep strictConfig) ReauthTables.initial handedReveal).journal.countP
        (consumesChallenge "wac") ≤ 1 := by
  have hsigned : .reauthenticated signedReveal ∈
      (Tx.exec (reauthStep strictConfig) ReauthTables.initial handedReveal).journal := by
    decide +kernel
  exact ⟨hsigned, by decide +kernel,
    ((zeroWindow_ceremony_decides_once strictConfig handedReveal).1 signedReveal "wac" hsigned rfl
      rfl).1⟩

end Hikyo.Reauth
