import Hikyo.Service.Reauthentication

/-!
# How consents move

The services differ in what they check; in what they do to consents there are few moves. A ceremony
is completed and opens windows; a browser's windows are claimed and put into a handoff; a handoff
is redeemed once and opens windows for another session; a window is consumed; windows end with
their session or with the policy of their environment. `Step` is the machine of these moves on the
tables that hold consents (`Consents`).

Every window and every approved window in a handoff is traced to the ceremony it comes
from: its `origin` is the place of that ceremony in the journal, and the ceremony was
completed by the principal of the session, for the environment, in the epoch of the
window (`Traced`). The trace survives every move, so it holds in every state the
machine reaches (`traced_of_steps`).

The parameter `allowed` says when a policy may be tightened.
-/

namespace Hikyo.Reauth

open List
open Table (Keyed)

/-! ## The machine -/

/-- The tables that hold consents, and what they are read with. -/
structure Consents where
  sessions : Keyed Session.id
  epoch : ℕ
  ceremonies : Keyed WebAuthnCeremony.id
  windows : Keyed ReauthWindow.key
  cliHandoffs : Keyed CLIReauthHandoff.id
  journal : List ReauthEvent

def ReauthTables.consents (s : ReauthTables) : Consents :=
  ⟨s.sessions, s.epoch, s.ceremonies, s.windows, s.cliHandoffs, s.journal⟩

/-- No window lives longer: the hard cap, or the five minutes of an exact decision. -/
def ReauthConfig.windowBound (cfg : ReauthConfig) : ℤ := max cfg.hardCap (5 * minute)

/-- Windows of a session are put on a list one after the other; each single decision is
claimed on the way. -/
inductive Claims (sessionID : String) :
    Keyed ReauthWindow.key → List ReauthWindow → Keyed ReauthWindow.key → Prop
  | nil {W} : Claims sessionID W [] W
  | single {W W' ws} {w : ReauthWindow} (hw : w ∈ W.rows) (hsession : w.sessionID = sessionID)
      (hsingle : w.singleDecision = true) (hopen : w.consumed = false)
      (h : Claims sessionID (W.put { w with consumed := true }) ws W') :
      Claims sessionID W (w :: ws) W'
  | sliding {W W' ws} {w : ReauthWindow} (hw : w ∈ W.rows) (hsession : w.sessionID = sessionID)
      (hsliding : w.singleDecision = false) (h : Claims sessionID W ws W') :
      Claims sessionID W (w :: ws) W'

section Machine

variable (cfg : ReauthConfig) (allowed : Consents → String → Prop)

/-- **What a completed ceremony opens.** -/
structure Opens (c : Consents) (k : Completion) (w : ReauthWindow) : Prop where
  origin : w.origin = c.journal.length
  ceremonyID : k.ceremonyID = w.ceremonyID
  environment : w.environmentID ∈ k.environmentIDs
  singleDecision : k.singleDecision = w.singleDecision
  epoch : w.credentialEpoch = c.epoch
  unspent : w.consumed = false
  bounded : w.hardExpiresAt ≤ k.time + cfg.windowBound
  session : ∃ σ ∈ c.sessions.rows, σ.id = w.sessionID ∧ σ.principal = k.principal ∧
    (σ.artifact ≠ .workspace → σ.credentialEpoch = c.epoch)
  exact : exactPurpose w.boundPurpose → ∀ b, k.signed = some b →
    b.isExact = true ∧ w.boundKeySet = cfg.digest b.text

/-- **A decision is the one that was signed**: of a disclosure the purpose, the environment
and the keys, of an adapter the operation, the environment and the whole set; of an exact
decision the digest of the text. -/
def Decides (digest : JsonText.Text → String) (binding : ReauthIntentBinding) : SignedBinding → Prop
  | .disclosure purpose environmentID keyIDs =>
    binding.purpose = some purpose ∧ binding.environmentID = environmentID ∧
      sortedIDs binding.keyIDs = keyIDs
  | .adapter operation environmentID environmentIDs =>
    binding.purpose = some .adapter ∧ binding.operation = some operation ∧
      binding.environmentID = environmentID ∧ canonicalSet binding.environmentIDs = environmentIDs
  | .developerCredential environmentID keyIDs target =>
    exactPurpose binding.purpose ∧ ∃ b, binding.challengeBinding = some b ∧
      digest b.text = digest (SignedBinding.developerCredential environmentID keyIDs target).text
  | .selfConfig environmentID target =>
    exactPurpose binding.purpose ∧ ∃ b, binding.challengeBinding = some b ∧
      digest b.text = digest (SignedBinding.selfConfig environmentID target).text

/-- The decision of a consumption is the one that was signed: the texts are the same, or,
for an exact decision, their digests are. -/
def Matched (c : Consents) (w : ReauthWindow) (binding : ReauthIntentBinding) : Prop :=
  (∃ row ∈ c.ceremonies.rows, w.ceremonyID = .webauthn row.id ∧
    binding.challengeBinding = some row.operationBinding) ∨
  (exactPurpose w.boundPurpose ∧ ∃ b, binding.challengeBinding = some b ∧
    binding.purpose = w.boundPurpose ∧ w.boundKeySet = cfg.digest b.text)

/-- **What a consumption has checked.** -/
structure Spends (c : Consents) (w w' : ReauthWindow) (k : Consumption) : Prop where
  sessionID : k.sessionID = w.sessionID
  principal : ∀ σ ∈ c.sessions.rows, σ.id = w.sessionID → k.principal = σ.principal
  environment : k.binding.environmentID = w.environmentID
  ceremonyID : k.ceremonyID = w.ceremonyID
  singleDecision : k.singleDecision = w.singleDecision
  origin : k.origin = w.origin
  epoch : k.credentialEpoch = c.epoch
  current : w.credentialEpoch = c.epoch
  live : k.time < w.hardExpiresAt
  /-- the text of the decision says what it is -/
  decides : ∀ b, k.binding.challengeBinding = some b → Decides cfg.digest k.binding b
  /-- a single decision is claimed, and only its idle clock changes on a sliding window -/
  change : (w.singleDecision = true ∧ w.consumed = false ∧ w' = { w with consumed := true } ∧
      Matched cfg c w k.binding) ∨
    (w.singleDecision = false ∧ ∃ expiresAt, w' = { w with windowExpiresAt := expiresAt })

/-- **The moves of consents.** -/
inductive Step : Consents → Consents → Prop
  | signIn {c σ sessions} (h : c.sessions.insert σ = some sessions)
      (hepoch : σ.credentialEpoch = c.epoch) : Step c { c with sessions }
  | signOut {c} (ids : List String) : Step c { c with
      sessions := c.sessions.delete (·.id ∈ ids)
      windows := c.windows.delete (·.sessionID ∈ ids)
      cliHandoffs := c.cliHandoffs.delete (·.sessionID ∈ ids) }
  | restore {c epoch} (h : c.epoch ≤ epoch) : Step c { c with epoch }
  | lower {c environmentID} (h : allowed c environmentID) : Step c { c with
      windows := c.windows.delete (·.environmentID = environmentID)
      journal := c.journal ++ [.windowLowered environmentID] }
  | challenge {c row ceremonies} (h : c.ceremonies.insert row = some ceremonies)
      (hopen : row.consumed = false) : Step c { c with ceremonies }
  | spoil {c} {row : WebAuthnCeremony} (hrow : row ∈ c.ceremonies.rows) :
      Step c { c with ceremonies := c.ceremonies.put { row with consumed := true } }
  | prove {c} {ws : List ReauthWindow} {k : Completion} (hid : ∀ id, k.ceremonyID ≠ .webauthn id)
      (hepoch : k.credentialEpoch = c.epoch) (hws : ∀ w ∈ ws, Opens cfg c k w) :
      Step c { c with
        windows := ws.foldl Keyed.put c.windows
        journal := c.journal ++ [.reauthenticated k] }
  | sign {c w} {row : WebAuthnCeremony} {k : Completion} (hrow : row ∈ c.ceremonies.rows)
      (hopen : row.consumed = false) (hid : k.ceremonyID = .webauthn row.id)
      (hsigned : k.signed = some row.operationBinding)
      (hzero : k.zeroWindow = true → k.singleDecision = true)
      (hepoch : k.credentialEpoch = c.epoch) (hw : Opens cfg c k w) :
      Step c { c with
        ceremonies := c.ceremonies.put { row with consumed := true }
        windows := c.windows.put w
        journal := c.journal ++ [.reauthenticated k] }
  | handoff {c cliHandoffs} {h : CLIReauthHandoff} {σ : Session} (hσ : σ ∈ c.sessions.rows)
      (hsession : σ.id = h.sessionID) (hnone : h.approvedWindows = [])
      (hinsert : c.cliHandoffs.insert h = some cliHandoffs) : Step c { c with cliHandoffs }
  | approve {c ws windows} {h : CLIReauthHandoff} {σ : Session} (code : Option String)
      (hh : h ∈ c.cliHandoffs.rows) (hopen : h.consumed = false) (hσ : σ ∈ c.sessions.rows)
      (hprincipal : h.principal = σ.principal) (hartifact : σ.artifact ≠ .workspace)
      (hepoch : σ.credentialEpoch = c.epoch) (hclaims : Claims σ.id c.windows ws windows) :
      Step c { c with
        windows
        cliHandoffs := c.cliHandoffs.put
          { h with code, approvedWindows := ws.map ReauthWindow.toWindowGrant } }
  | redeem {c} {h : CLIReauthHandoff} {σ : Session} (hh : h ∈ c.cliHandoffs.rows)
      (hopen : h.consumed = false) (hσ : σ ∈ c.sessions.rows) (hsession : σ.id = h.sessionID)
      (hprincipal : σ.principal = h.principal) (hepoch : σ.credentialEpoch = c.epoch) :
      Step c { c with
        windows := (h.approvedWindows.map (·.openFor σ.id c.epoch)).foldl Keyed.put c.windows
        cliHandoffs := c.cliHandoffs.put { h with consumed := true } }
  | consume {c w w'} {k : Consumption} (hw : w ∈ c.windows.rows) (hk : Spends cfg c w w' k) :
      Step c { c with
        windows := c.windows.put w'
        journal := c.journal ++ [.consumed k] }

/-- The states the machine reaches. -/
abbrev Steps : Consents → Consents → Prop := Relation.ReflTransGen (Step cfg allowed)

/-- **What holds at first and survives every move holds in every state reached.** -/
theorem invariant_of_steps {inv : Consents → Prop} {cfg : ReauthConfig}
    {allowed : Consents → String → Prop} {c c' : Consents}
    (hstep : ∀ c c', inv c → Step cfg allowed c c' → inv c') (h : Steps cfg allowed c c')
    (hc : inv c) : inv c' := by
  induction h with
  | refl => exact hc
  | tail _ hlast ih => exact hstep _ _ ih hlast

end Machine

/-! ## Tables under the moves -/

variable {α : Type}

variable {β : Type} {r : α}

/-- A row of a table into which rows were put one after the other is one of them or was
there before. -/
theorem mem_foldl_put [DecidableEq β] {key : α → β} :
    ∀ {rows : List α} {t : Keyed key}, r ∈ (rows.foldl Keyed.put t).rows → r ∈ rows ∨ r ∈ t.rows
  | [], _, h => .inr h
  | x :: rows, t, h => by
    have hrest : r ∈ rows ∨ r ∈ (t.put x).rows := mem_foldl_put h
    rcases hrest with h | h
    · exact .inl (mem_cons_of_mem _ h)
    · rcases Keyed.mem_put.mp h with rfl | ⟨h, -⟩
      · exact .inl mem_cons_self
      · exact .inr h

theorem of_mem_put [DecidableEq β] {key : α → β} {t : Keyed key} {x : α}
    (h : r ∈ (t.put x).rows) : r = x ∨ r ∈ t.rows :=
  (Keyed.mem_put.mp h).imp_right And.left

theorem of_mem_delete {key : α → β} {t : Keyed key} {p : α → Bool}
    (h : r ∈ (t.delete p).rows) : r ∈ t.rows ∧ p r = false := Keyed.mem_delete.mp h

variable {i : ℕ}

/-- What is at a place of a list with one more entry. -/
theorem getElem?_concat_eq_some {l : List α} {e x : α} :
    (l ++ [e])[i]? = some x ↔ l[i]? = some x ∨ (i = l.length ∧ e = x) := by
  rcases lt_trichotomy i l.length with hi | rfl | hi
  · rw [getElem?_append_left hi]
    exact ⟨.inl, fun h => h.elim id fun h => absurd h.1 (by omega)⟩
  · rw [getElem?_concat_length, List.getElem?_eq_none (le_refl _)]
    exact ⟨fun h => .inr ⟨rfl, Option.some.inj h⟩, fun h => h.elim nofun fun h => congrArg some h.2⟩
  · rw [List.getElem?_eq_none (by rw [length_append]; exact hi), List.getElem?_eq_none (by omega)]
    exact ⟨nofun, fun h => h.elim nofun fun h => absurd h.1 (by omega)⟩

theorem getElem?_append_of_eq_some {l l' : List α} {x : α}
    (h : l[i]? = some x) : (l ++ l')[i]? = some x := by
  rw [getElem?_append_left (List.getElem?_eq_some_iff.mp h).1]
  exact h

/-- A window of a table, claimed since or not. -/
def ClaimedFrom (W : Keyed ReauthWindow.key) (w : ReauthWindow) : Prop :=
  ∃ w₀ ∈ W.rows, w = w₀ ∨ w = { w₀ with consumed := true }

variable {w : ReauthWindow}

theorem ClaimedFrom.of_put {W : Keyed ReauthWindow.key} {x : ReauthWindow} (hw : w ∈ W.rows)
    (h : ClaimedFrom (W.put { w with consumed := true }) x) : ClaimedFrom W x := by
  obtain ⟨y, hy, hxy⟩ := h
  rcases of_mem_put hy with rfl | hy
  · exact ⟨w, hw, .inr (hxy.elim id id)⟩
  · exact ⟨y, hy, hxy⟩

/-- What is put on the list and what is left in the table was in the table. -/
theorem Claims.kept {sessionID : String} {W W' : Keyed ReauthWindow.key} {ws : List ReauthWindow}
    (h : Claims sessionID W ws W') :
    (∀ w ∈ ws, w.sessionID = sessionID ∧ ClaimedFrom W w) ∧ ∀ w ∈ W'.rows, ClaimedFrom W w := by
  induction h with
  | nil => exact ⟨(fun _ h => nomatch h), fun w hw => ⟨w, hw, .inl rfl⟩⟩
  | single hw hsession _ _ _ ih =>
    refine ⟨fun x hx => ?_, fun x hx => (ih.2 x hx).of_put hw⟩
    rcases mem_cons.mp hx with rfl | hx
    · exact ⟨hsession, x, hw, .inl rfl⟩
    · exact ⟨(ih.1 x hx).1, (ih.1 x hx).2.of_put hw⟩
  | sliding hw hsession _ _ ih =>
    refine ⟨fun x hx => ?_, ih.2⟩
    rcases mem_cons.mp hx with rfl | hx
    · exact ⟨hsession, x, hw, .inl rfl⟩
    · exact ih.1 x hx

/-! ## The trace of a consent -/

section Trace

variable (cfg : ReauthConfig)

/-- A ceremony backs a window of a principal, in an epoch. -/
structure Backs (k : Completion) (a : WindowGrant) (principal : String) (epoch : ℕ) : Prop where
  ceremonyID : k.ceremonyID = a.ceremonyID
  principal : k.principal = principal
  environment : a.environmentID ∈ k.environmentIDs
  epoch : k.credentialEpoch = epoch
  singleDecision : k.singleDecision = a.singleDecision
  bounded : a.hardExpiresAt ≤ k.time + cfg.windowBound
  exact : exactPurpose a.boundPurpose → ∀ b, k.signed = some b →
    b.isExact = true ∧ a.boundKeySet = cfg.digest b.text

/-- The ceremony at the origin of a window backs it. -/
def Grounded (journal : List ReauthEvent) (a : WindowGrant) (principal : String) (epoch : ℕ) :
    Prop :=
  ∃ k, journal[a.origin]? = some (.reauthenticated k) ∧ Backs cfg k a principal epoch

/-- A ceremony is what a consumption rests on. -/
structure Rests (c : Completion) (k : Consumption) : Prop where
  ceremonyID : c.ceremonyID = k.ceremonyID
  principal : c.principal = k.principal
  environment : k.binding.environmentID ∈ c.environmentIDs
  epoch : c.credentialEpoch = k.credentialEpoch
  singleDecision : c.singleDecision = k.singleDecision
  age : k.time < c.time + cfg.windowBound

/-- The trace of a window. -/
def Held (c : Consents) (w : ReauthWindow) : Prop :=
  w.credentialEpoch ≤ c.epoch ∧ ∃ σ ∈ c.sessions.rows, σ.id = w.sessionID ∧
    Grounded cfg c.journal w.toWindowGrant σ.principal w.credentialEpoch ∧
    (σ.artifact ≠ .workspace → σ.credentialEpoch = w.credentialEpoch)

/-- The trace of the windows in a handoff: their ceremonies are not older than the session
that is to redeem them. -/
def Carried (c : Consents) (h : CLIReauthHandoff) : Prop :=
  ∃ σ ∈ c.sessions.rows, σ.id = h.sessionID ∧ ∀ a ∈ h.approvedWindows,
    ∃ epoch, Grounded cfg c.journal a h.principal epoch ∧ σ.credentialEpoch ≤ epoch ∧
      epoch ≤ c.epoch

/-- **Every consent is traced to its ceremony.** -/
structure Traced (c : Consents) : Prop where
  epochs : ∀ σ ∈ c.sessions.rows, σ.credentialEpoch ≤ c.epoch
  windows : ∀ w ∈ c.windows.rows, Held cfg c w
  handoffs : ∀ h ∈ c.cliHandoffs.rows, Carried cfg c h
  consumptions : ∀ i k, c.journal[i]? = some (.consumed k) →
    k.origin < i ∧ ∃ c', c.journal[k.origin]? = some (.reauthenticated c') ∧ Rests cfg c' k

variable {cfg} {c c' : Consents}

variable {journal : List ReauthEvent}

theorem Grounded.append {a : WindowGrant} {principal : String}
    {epoch : ℕ} (h : Grounded cfg journal a principal epoch) (l : List ReauthEvent) :
    Grounded cfg (journal ++ l) a principal epoch := by
  obtain ⟨k, hk, hbacks⟩ := h
  exact ⟨k, getElem?_append_of_eq_some hk, hbacks⟩

theorem Held.mono (h : Held cfg c w) (hepoch : c.epoch ≤ c'.epoch)
    (hjournal : ∃ l, c'.journal = c.journal ++ l)
    (hsessions : ∀ σ ∈ c.sessions.rows, σ.id = w.sessionID → σ ∈ c'.sessions.rows) :
    Held cfg c' w := by
  obtain ⟨hle, σ, hσ, hid, hground, hartifact⟩ := h
  obtain ⟨l, hl⟩ := hjournal
  refine ⟨hle.trans hepoch, σ, hsessions σ hσ hid, hid, ?_, hartifact⟩
  rw [hl]
  exact hground.append l

theorem Carried.mono {h : CLIReauthHandoff} (hh : Carried cfg c h) (hepoch : c.epoch ≤ c'.epoch)
    (hjournal : ∃ l, c'.journal = c.journal ++ l)
    (hsessions : ∀ σ ∈ c.sessions.rows, σ.id = h.sessionID → σ ∈ c'.sessions.rows) :
    Carried cfg c' h := by
  obtain ⟨σ, hσ, hid, happroved⟩ := hh
  obtain ⟨l, hl⟩ := hjournal
  refine ⟨σ, hsessions σ hσ hid, hid, fun a ha => ?_⟩
  obtain ⟨epoch, hground, hlow, hhigh⟩ := happroved a ha
  refine ⟨epoch, ?_, hlow, hhigh.trans hepoch⟩
  rw [hl]
  exact hground.append l

/-- A claim changes nothing the trace is about, and neither does a slide. -/
theorem Held.consumed (h : Held cfg c w) (b : Bool) :
    Held cfg c { w with consumed := b } := h

theorem Held.slid (h : Held cfg c w) (expiresAt : ℤ) :
    Held cfg c { w with windowExpiresAt := expiresAt } := by
  obtain ⟨hle, σ, hσ, hid, ⟨k, hk, hb⟩, hartifact⟩ := h
  exact ⟨hle, σ, hσ, hid, ⟨k, hk, ⟨hb.ceremonyID, hb.principal, hb.environment, hb.epoch,
    hb.singleDecision, hb.bounded, hb.exact⟩⟩, hartifact⟩

/-- A window that a ceremony opens is traced to the ceremony. -/
theorem Opens.held {k : Completion} (h : Opens cfg c k w) (hk : k.credentialEpoch = c.epoch)
    (hepoch : c'.epoch = c.epoch) (hsessions : c'.sessions = c.sessions)
    (hjournal : c'.journal = c.journal ++ [.reauthenticated k]) : Held cfg c' w := by
  obtain ⟨σ, hσ, hid, hprincipal, hartifact⟩ := h.session
  refine ⟨(h.epoch.trans hepoch.symm).le, σ, hsessions ▸ hσ, hid, ⟨k, ?_, ?_⟩,
    fun ha => (hartifact ha).trans h.epoch.symm⟩
  · rw [hjournal, h.origin]
    exact getElem?_concat_length
  · exact ⟨h.ceremonyID, hprincipal.symm, h.environment, hk.trans h.epoch.symm, h.singleDecision,
      h.bounded, h.exact⟩

/-- Consumptions stay traced when an event other than a consumption is recorded. -/
theorem consumptions_append {e : ReauthEvent} (h : ∀ i k, journal[i]? = some (.consumed k) →
      k.origin < i ∧ ∃ c', journal[k.origin]? = some (.reauthenticated c') ∧ Rests cfg c' k)
    (he : ∀ k, e = .consumed k → ∃ c', journal[k.origin]? = some (.reauthenticated c') ∧
      Rests cfg c' k) : ∀ i k, (journal ++ [e])[i]? = some (.consumed k) →
      k.origin < i ∧ ∃ c', (journal ++ [e])[k.origin]? = some (.reauthenticated c') ∧
        Rests cfg c' k := by
  intro i k hik
  rcases getElem?_concat_eq_some.mp hik with hik | ⟨rfl, rfl⟩
  · obtain ⟨hlt, c', hc', hrests⟩ := h i k hik
    exact ⟨hlt, c', getElem?_append_of_eq_some hc', hrests⟩
  · obtain ⟨c', hc', hrests⟩ := he k rfl
    exact ⟨(List.getElem?_eq_some_iff.mp hc').1, c', getElem?_append_of_eq_some hc', hrests⟩

/-- **Every move keeps the trace.** -/
theorem Traced.step {allowed : Consents → String → Prop} (ht : Traced cfg c)
    (h : Step cfg allowed c c') : Traced cfg c' := by
  cases h with
  | signIn hinsert hepoch =>
    obtain ⟨hrows, -⟩ := Keyed.insert_eq_some hinsert
    have hkept : ∀ σ ∈ c.sessions.rows, σ ∈ _ := fun σ hσ => hrows ▸ mem_cons_of_mem _ hσ
    refine ⟨fun σ hσ => ?_, fun w hw => (ht.windows w hw).mono le_rfl ⟨[], (append_nil _).symm⟩
      fun σ hσ _ => hkept σ hσ, fun h hh => (ht.handoffs h hh).mono le_rfl
      ⟨[], (append_nil _).symm⟩ fun σ hσ _ => hkept σ hσ, ht.consumptions⟩
    rw [hrows] at hσ
    rcases mem_cons.mp hσ with rfl | hσ
    · exact hepoch.le
    · exact ht.epochs σ hσ
  | signOut ids =>
    have hkept : ∀ id : String, decide (id ∈ ids) = false → ∀ σ ∈ c.sessions.rows, σ.id = id →
        σ ∈ (c.sessions.delete (·.id ∈ ids)).rows :=
      fun id hid σ hσ hσid => Keyed.mem_delete.mpr ⟨hσ, hσid ▸ hid⟩
    refine ⟨fun σ hσ => ht.epochs σ (of_mem_delete hσ).1, fun w hw => ?_, fun h hh => ?_,
      ht.consumptions⟩
    · obtain ⟨hw, hid⟩ := of_mem_delete hw
      exact (ht.windows w hw).mono le_rfl ⟨[], (append_nil _).symm⟩ (hkept _ hid)
    · obtain ⟨hh, hid⟩ := of_mem_delete hh
      exact (ht.handoffs h hh).mono le_rfl ⟨[], (append_nil _).symm⟩ (hkept _ hid)
  | restore hle =>
    exact ⟨fun σ hσ => (ht.epochs σ hσ).trans hle,
      fun w hw => (ht.windows w hw).mono hle ⟨[], (append_nil _).symm⟩ fun σ hσ _ => hσ,
      fun h hh => (ht.handoffs h hh).mono hle ⟨[], (append_nil _).symm⟩ fun σ hσ _ => hσ,
      ht.consumptions⟩
  | lower =>
    exact ⟨ht.epochs,
      fun w hw => (ht.windows w (of_mem_delete hw).1).mono le_rfl ⟨_, rfl⟩ fun σ hσ _ => hσ,
      fun h hh => (ht.handoffs h hh).mono le_rfl ⟨_, rfl⟩ fun σ hσ _ => hσ,
      consumptions_append ht.consumptions fun k hk => nomatch hk⟩
  | challenge | spoil => exact ⟨ht.epochs, ht.windows, ht.handoffs, ht.consumptions⟩
  | prove _ hepoch hws =>
    refine ⟨ht.epochs, fun w hw => ?_,
      fun h hh => (ht.handoffs h hh).mono le_rfl ⟨_, rfl⟩ fun σ hσ _ => hσ,
      consumptions_append ht.consumptions fun k hk => nomatch hk⟩
    rcases mem_foldl_put hw with hw | hw
    · exact (hws w hw).held hepoch rfl rfl rfl
    · exact (ht.windows w hw).mono le_rfl ⟨_, rfl⟩ fun σ hσ _ => hσ
  | sign _ _ _ _ _ hepoch hopens =>
    refine ⟨ht.epochs, fun w hw => ?_,
      fun h hh => (ht.handoffs h hh).mono le_rfl ⟨_, rfl⟩ fun σ hσ _ => hσ,
      consumptions_append ht.consumptions fun k hk => nomatch hk⟩
    rcases of_mem_put hw with rfl | hw
    · exact hopens.held hepoch rfl rfl rfl
    · exact (ht.windows w hw).mono le_rfl ⟨_, rfl⟩ fun σ hσ _ => hσ
  | handoff hσ hsession hnone hinsert =>
    refine ⟨ht.epochs, ht.windows, fun h hh => ?_, ht.consumptions⟩
    rw [(Keyed.insert_eq_some hinsert).1] at hh
    rcases mem_cons.mp hh with rfl | hh
    · exact ⟨_, hσ, hsession, fun a ha => nomatch hnone ▸ ha⟩
    · exact ht.handoffs h hh
  | approve _ hh hopen hσ hprincipal hartifact hepoch hclaims =>
    obtain ⟨hlisted, hleft⟩ := hclaims.kept
    have hheld : ∀ w, ClaimedFrom c.windows w → Held cfg c w := by
      rintro w ⟨w₀, hw₀, rfl | rfl⟩
      · exact ht.windows _ hw₀
      · exact (ht.windows w₀ hw₀).consumed true
    refine ⟨ht.epochs, fun w hw => hheld w (hleft w hw), fun x hx => ?_, ht.consumptions⟩
    rcases of_mem_put hx with rfl | hx
    · obtain ⟨ρ, hρ, hρid, -⟩ := ht.handoffs _ hh
      refine ⟨ρ, hρ, hρid, fun a ha => ?_⟩
      obtain ⟨w, hw, rfl⟩ := mem_map.mp ha
      obtain ⟨hsession, hclaimed⟩ := hlisted w hw
      obtain ⟨hle, σ', hσ', hid, hground, hsame⟩ := hheld w hclaimed
      -- the window's session is the one that approves
      obtain rfl : σ' = _ := c.sessions.eq_of_key hσ' hσ (hid.trans hsession)
      refine ⟨w.credentialEpoch, hprincipal ▸ hground, ?_, hle⟩
      rw [← hsame hartifact, hepoch]
      exact ht.epochs ρ hρ
    · exact ht.handoffs x hx
  | redeem hh hopen hσ hsession hprincipal hepoch =>
    obtain ⟨ρ, hρ, hρid, happroved⟩ := ht.handoffs _ hh
    obtain rfl : ρ = _ := c.sessions.eq_of_key hρ hσ (hρid.trans hsession.symm)
    refine ⟨ht.epochs, fun w hw => ?_, fun x hx => ?_, ht.consumptions⟩
    · rcases mem_foldl_put hw with hw | hw
      · obtain ⟨a, ha, rfl⟩ := mem_map.mp hw
        obtain ⟨epoch, hground, hlow, hhigh⟩ := happroved a ha
        -- the epoch has not moved since the session was minted
        obtain rfl : epoch = c.epoch := le_antisymm hhigh (hepoch ▸ hlow)
        exact ⟨le_rfl, ρ, hρ, rfl, hprincipal ▸ hground, fun _ => hepoch⟩
      · exact ht.windows w hw
    · rcases of_mem_put hx with rfl | hx
      · exact ⟨ρ, hρ, hρid, happroved⟩
      · exact ht.handoffs x hx
  | consume hw hk =>
    have hold := ht.windows _ hw
    refine ⟨ht.epochs, fun x hx => ?_,
      fun h hh => (ht.handoffs h hh).mono le_rfl ⟨_, rfl⟩ fun σ hσ _ => hσ,
      consumptions_append ht.consumptions fun k' hk' => ?_⟩
    · rcases of_mem_put hx with rfl | hx
      · have hnew : Held cfg c x := by
          rcases hk.change with ⟨-, -, rfl, -⟩ | ⟨-, expiresAt, rfl⟩
          · exact hold.consumed true
          · exact hold.slid expiresAt
        exact hnew.mono le_rfl ⟨_, rfl⟩ fun σ hσ _ => hσ
      · exact (ht.windows x hx).mono le_rfl ⟨_, rfl⟩ fun σ hσ _ => hσ
    · obtain rfl := ReauthEvent.consumed.inj hk'
      obtain ⟨-, σ, hσ, hid, ⟨c', hc', hb⟩, -⟩ := hold
      refine ⟨c', hk.origin ▸ hc', ?_⟩
      exact ⟨hb.ceremonyID.trans hk.ceremonyID.symm,
        hb.principal.trans (hk.principal σ hσ hid).symm, hk.environment ▸ hb.environment,
        hb.epoch.trans (hk.current.trans hk.epoch.symm),
        hb.singleDecision.trans hk.singleDecision.symm, lt_of_lt_of_le hk.live hb.bounded⟩

theorem traced_of_steps {allowed : Consents → String → Prop} (h : Steps cfg allowed c c')
    (hc : Traced cfg c) : Traced cfg c' :=
  invariant_of_steps (fun _ _ => Traced.step) h hc

end Trace

end Hikyo.Reauth
