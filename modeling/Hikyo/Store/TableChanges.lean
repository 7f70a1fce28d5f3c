import Hikyo.Store.ProjectTables

/-!
# What a service leaves alone

Most services touch few tables. `Writes ids E s s'` says what the ones that write
values and drafts have in common: the catalogue, the policies, the requests and
the votes stay; published values change only in the environments `E`; a draft
that appears has an identifier minted on the way and is for a declared key. The
relation composes, so what one write satisfies a loop of writes satisfies.

Identifiers are minted once. `MintedBetween ids a b kind id` says that `id` was minted
while the counter went from `a` to `b`, and intervals that do not overlap mint
different identifiers.
-/

namespace Hikyo

open Tx (foldlM_invariant)

variable {δ : Type}

/-! ## MintedBetween identifiers -/

/-- The identifier of a kind that was minted with a number. -/
def mintedID (ids : IDSource) (kind : String) (n : ℕ) : String := kind ++ "_" ++ ids.uuid n

theorem mintedID_injective (ids : IDSource) (kind : String) :
    Function.Injective (mintedID ids kind) :=
  fun _ _ h => ids.injective ((String.append_right_inj _).mp h)

/-- MintedBetween while the counter went from `a` to `b`. -/
def MintedBetween (ids : IDSource) (a b : ℕ) (kind id : String) : Prop :=
  ∃ n, a ≤ n ∧ n < b ∧ id = mintedID ids kind n

theorem MintedBetween.mono {ids : IDSource} {a a' b b' : ℕ} {kind id : String}
    (h : MintedBetween ids a b kind id) (ha : a' ≤ a) (hb : b ≤ b') :
    MintedBetween ids a' b' kind id := by
  obtain ⟨n, hn, hn', rfl⟩ := h
  exact ⟨n, le_trans ha hn, lt_of_lt_of_le hn' hb, rfl⟩

/-- **No identifier is minted twice.** -/
theorem MintedBetween.ne {ids : IDSource} {a b c : ℕ} {kind id id' : String}
    (h : MintedBetween ids a b kind id) (h' : MintedBetween ids b c kind id') : id ≠ id' := by
  obtain ⟨n, -, hn, rfl⟩ := h
  obtain ⟨m, hm, -, rfl⟩ := h'
  intro hid
  have hnm : n = m := mintedID_injective ids kind hid
  omega

/-! ## Writing values and drafts -/

/-- **A write** to the environments `E`. -/
structure Writes (ids : IDSource) (E : EnvId → Prop) (s s' : ProjectTables δ) : Prop where
  keys : s'.keys = s.keys
  policies : s'.policies = s.policies
  requests : s'.requests = s.requests
  votes : s'.votes = s.votes
  tokenKey : s'.tokenKey = s.tokenKey
  issued : s.issued ≤ s'.issued
  drafts : ∀ c ∈ s'.pending.rows, c ∈ s.pending.rows ∨
    (MintedBetween ids s.issued s'.issued "pcv" c.id ∧ (s.keyByID c.keyID).isSome)
  values : ∀ e ∈ s'.values.rows, e ∈ s.values.rows ∨ E e.environmentID

namespace Writes

variable {ids : IDSource} {E E' : EnvId → Prop} {s s₁ s' : ProjectTables δ}

theorem refl (s : ProjectTables δ) : Writes ids E s s :=
  ⟨rfl, rfl, rfl, rfl, rfl, le_refl _, fun _ hc => .inl hc, fun _ he => .inl he⟩

theorem keyByID (h : Writes ids E s s') (key : KeyId) : s'.keyByID key = s.keyByID key := by
  unfold ProjectTables.keyByID
  rw [h.keys]

theorem trans (h : Writes ids E s s₁) (h' : Writes ids E s₁ s') : Writes ids E s s' where
  keys := h'.keys.trans h.keys
  policies := h'.policies.trans h.policies
  requests := h'.requests.trans h.requests
  votes := h'.votes.trans h.votes
  tokenKey := h'.tokenKey.trans h.tokenKey
  issued := le_trans h.issued h'.issued
  drafts c hc := by
    rcases h'.drafts c hc with hc | ⟨hminted, hkey⟩
    · exact (h.drafts c hc).imp id fun hnew => ⟨hnew.1.mono (le_refl _) h'.issued, hnew.2⟩
    · exact .inr ⟨hminted.mono h.issued (le_refl _), h.keyByID c.keyID ▸ hkey⟩
  values e he := by
    rcases h'.values e he with he | he
    · exact h.values e he
    · exact .inr he

theorem mono (h : Writes ids E s s') (hE : ∀ env, E env → E' env) : Writes ids E' s s' :=
  ⟨h.keys, h.policies, h.requests, h.votes, h.tokenKey, h.issued, h.drafts,
    fun e he => (h.values e he).imp id (hE _)⟩

/-- A loop of writes is a write. -/
theorem of_foldlM {ε γ : Type} {f : ProjectTables δ → γ → Except ε (ProjectTables δ)} {l : List γ}
    (hf : ∀ s, ∀ c ∈ l, ∀ s', f s c = .ok s' → Writes ids E s s') (h : l.foldlM f s = .ok s') :
    Writes ids E s s' :=
  foldlM_invariant (Writes ids E s) l (fun b c hc b' hb hf' => hb.trans (hf b c hc b' hf'))
    (refl s) h

theorem of_foldl {γ : Type} {f : ProjectTables δ → γ → ProjectTables δ}
    (hf : ∀ s c, Writes ids E s (f s c)) :
    ∀ (l : List γ) (s : ProjectTables δ), Writes ids E s (l.foldl f s)
  | [], s => refl s
  | c :: l, s => (hf s c).trans (of_foldl hf l (f s c))

/-! ### The single writes -/

theorem putCell (s : ProjectTables δ) (env : EnvId) (key : KeyId) (value : String) :
    Writes ids (· = env) s (s.putCell ids env key value) where
  keys := rfl
  policies := rfl
  requests := rfl
  votes := rfl
  tokenKey := rfl
  issued := Nat.le_succ _
  drafts _ hc := .inl hc
  values e he := by
    rcases Table.Keyed.mem_put.mp he with rfl | ⟨he, -⟩
    · exact .inr rfl
    · exact .inl he

theorem clearCell (s : ProjectTables δ) (env : EnvId) (key : KeyId) :
    Writes ids E s (s.clearCell env key) :=
  ⟨rfl, rfl, rfl, rfl, rfl, le_refl _, fun _ hc => .inl hc,
    fun _ he => .inl (Table.Keyed.mem_delete.mp he).1⟩

theorem advance (s : ProjectTables δ) (env : EnvId) : Writes ids E s (s.advance env) :=
  ⟨rfl, rfl, rfl, rfl, rfl, le_refl _, fun _ hc => .inl hc, fun _ he => .inl he⟩

theorem discard (s : ProjectTables δ) (env : EnvId) (id : VersionId) :
    Writes ids E s (s.discard env id) :=
  ⟨rfl, rfl, rfl, rfl, rfl, le_refl _, fun _ hc => .inl (Table.Keyed.mem_delete.mp hc).1,
    fun _ he => .inl he⟩

/-- A draft staged under the next identifier, for a declared key. -/
theorem stagePending {c : PendingChange} (hid : c.id = (s.newID ids "pcv").1)
    (hkey : (s.keyByID c.keyID).isSome)
    (h : (s.newID ids "pcv").2.stagePending c = some s') : Writes ids E s s' := by
  obtain ⟨pending, hpending, rfl⟩ := Option.map_eq_some_iff.mp h
  refine ⟨rfl, rfl, rfl, rfl, rfl, Nat.le_succ _, fun x hx => ?_, fun _ he => .inl he⟩
  rw [(Table.Keyed.insert_eq_some hpending).1] at hx
  rcases List.mem_cons.mp hx with rfl | hx
  · exact .inr ⟨⟨s.issued, le_refl _, Nat.lt_succ_self _, hid⟩, hkey⟩
  · exact .inl (Table.Keyed.mem_delete.mp hx).1

end Writes

end Hikyo
