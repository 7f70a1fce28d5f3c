import Mathlib

/-!
# Tables, loops, transactions and runs

The general side of a program that keeps its state in a relational store.

*Tables.* A table is a list of rows. A unique index, possibly restricted to
some of the rows, is the statement `Table.UniqueOn`; `UPDATE … SET … WHERE` is
`Table.update`. An update that neither lets a row into an index nor changes the
key of a row in it cannot break the index (`Table.UniqueOn.update`), so only
insertions need checking. `Table.Keyed` is a table that carries its index.

*Loops.* What every round of a loop keeps holds after it (`Tx.foldlM_invariant`,
`Tx.untilStable_invariant`), rounds over separate parts of a state do not meet
(`Tx.foldlM_part`), and a loop that repeats its body while something
grows ends if there is a bound on the growth (`Tx.untilStable_eq_error`).

*Transactions.* A serializable transaction is a function from the state to an error or the next
state; an error rolls back (`Tx.commit`). A run is the list of the transactions that were
attempted, in the order in which they took effect (`Tx.exec`). What every committed transaction
keeps holds after every run (`Tx.exec_invariant`); what it keeps under a condition, after every run
that meets the condition (`Tx.exec_invariant_along`).
-/

/-! ## Tables -/

namespace Table

open List

variable {α β : Type*}

/-- A unique index on `key` over the rows that satisfy `q`. -/
def UniqueOn (q : α → Bool) (key : α → β) (rows : List α) : Prop :=
  ((rows.filter q).map key).Nodup

instance [DecidableEq β] (q : α → Bool) (key : α → β) (rows : List α) :
    Decidable (UniqueOn q key rows) :=
  inferInstanceAs (Decidable (List.Nodup _))

/-- `UPDATE … SET … WHERE`: the rows that satisfy `p` are rewritten by `f`. -/
def update (p : α → Bool) (f : α → α) (rows : List α) : List α :=
  rows.map fun r => if p r then f r else r

variable {q p : α → Bool} {key : α → β} {f : α → α} {rows : List α} {x r r' : α}

theorem UniqueOn.eq_of_key (h : UniqueOn q key rows) (hr : r ∈ rows) (hr' : r' ∈ rows)
    (hq : q r = true) (hq' : q r' = true) (hkey : key r = key r') : r = r' :=
  inj_on_of_nodup_map h (mem_filter.mpr ⟨hr, hq⟩) (mem_filter.mpr ⟨hr', hq'⟩) hkey

theorem uniqueOn_cons : UniqueOn q key (x :: rows) ↔
      (q x = true → ∀ r ∈ rows, q r = true → key r ≠ key x) ∧ UniqueOn q key rows := by
  unfold UniqueOn
  by_cases hx : q x = true
  · rw [filter_cons_of_pos hx, map_cons, nodup_cons]
    simp only [mem_map, mem_filter, not_exists, not_and, hx, forall_true_left]
    exact and_congr_left' ⟨fun h r hr hq => h r ⟨hr, hq⟩, fun h r hr => h r hr.1 hr.2⟩
  · rw [filter_cons_of_neg hx]
    exact ⟨fun h => ⟨fun hq => absurd hq hx, h⟩, And.right⟩

theorem mem_update : x ∈ update p f rows ↔
      (∃ r ∈ rows, p r = true ∧ x = f r) ∨ (x ∈ rows ∧ p x = false) := by
  rw [update, mem_map]
  constructor
  · rintro ⟨r, hr, rfl⟩
    cases hp : p r with
    | true => exact .inl ⟨r, hr, hp, by simp⟩
    | false => exact .inr ⟨by simpa using hr, by simpa using hp⟩
  · rintro (⟨r, hr, hp, rfl⟩ | ⟨hr, hp⟩)
    · exact ⟨r, hr, by simp [hp]⟩
    · exact ⟨x, hr, by simp [hp]⟩

/-- Every row of the old table is still there, rewritten or not. -/
theorem mem_update_of_mem (hr : r ∈ rows) : (if p r then f r else r) ∈ update p f rows :=
  mem_map_of_mem hr

/-- What the rewriting leaves alone, the update leaves alone. -/
theorem key_image (hf : ∀ r, key (f r) = key r) (r : α) : key (if p r then f r else r) = key r := by
  split
  · exact hf r
  · rfl

/-- A column that the rewriting leaves alone is left alone. -/
theorem map_update (hf : ∀ r, key (f r) = key r) : (update p f rows).map key = rows.map key := by
  rw [update, map_map]
  exact map_congr_left fun r _ => key_image hf r

/-- An update that lets no row into `q` does not make `q` more frequent. -/
theorem countP_update_le (hf : ∀ r, q (f r) = true → q r = true) :
    (update p f rows).countP q ≤ rows.countP q := by
  rw [update, countP_map]
  refine countP_mono_left fun r _ hq => ?_
  simp only [Function.comp_apply] at hq
  split at hq
  · exact hf r hq
  · exact hq

/-- **An update keeps a unique index** as soon as it lets no row into the index
and leaves the keys of the rows in it alone. -/
theorem UniqueOn.update (h : UniqueOn q key rows)
    (hf : ∀ r, q (f r) = true → q r = true ∧ key (f r) = key r) :
    UniqueOn q key (Table.update p f rows) := by
  induction rows with
  | nil => exact h
  | cons a rows ih =>
    obtain ⟨hnew, hrest⟩ := uniqueOn_cons.mp h
    have hstep : ∀ r, q (if p r then f r else r) = true →
        q r = true ∧ key (if p r then f r else r) = key r := by
      intro r hq
      split at hq
      case isTrue hp =>
        rw [if_pos hp]
        exact hf r hq
      case isFalse hp =>
        rw [if_neg hp]
        exact ⟨hq, rfl⟩
    show UniqueOn q key ((if p a then f a else a) :: Table.update p f rows)
    refine uniqueOn_cons.mpr ⟨fun hq r hr hqr => ?_, ih hrest⟩
    obtain ⟨r₀, hr₀, rfl⟩ := mem_map.mp hr
    rw [(hstep a hq).2, (hstep r₀ hqr).2]
    exact hnew (hstep a hq).1 r₀ hr₀ (hstep r₀ hqr).1

/-! ### Order -/

section Order

variable {κ : Type*} [LinearOrder κ] {ord : α → κ}

/-- `ORDER BY`. -/
def orderBy (ord : α → κ) (rows : List α) : List α :=
  rows.insertionSort fun r r' => ord r ≤ ord r'

@[simp] theorem mem_orderBy : r ∈ orderBy ord rows ↔ r ∈ rows := mem_insertionSort _

theorem perm_orderBy (ord : α → κ) (rows : List α) : (orderBy ord rows).Perm rows :=
  perm_insertionSort _ rows

/-- **The order does not depend on where the rows stood**, as long as rows of one
key are one row. -/
theorem orderBy_eq_orderBy {l l' : List α} (hperm : l.Perm l')
    (hord : ∀ a ∈ l, ∀ b ∈ l', ord a = ord b → a = b) : orderBy ord l = orderBy ord l' := by
  have hsorted : ∀ l : List α, (orderBy ord l).Pairwise fun r r' => ord r ≤ ord r' := by
    intro l
    have : Std.Total fun r r' : α => ord r ≤ ord r' := ⟨fun a b => le_total (ord a) (ord b)⟩
    have : IsTrans α fun r r' => ord r ≤ ord r' := ⟨fun _ _ _ => le_trans⟩
    exact pairwise_insertionSort _ l
  refine List.Perm.eq_of_pairwise (fun a b ha hb hab hba => ?_) (hsorted l) (hsorted l')
    ((perm_orderBy ord l).trans (hperm.trans (perm_orderBy ord l').symm))
  exact hord a (mem_orderBy.mp ha) b (mem_orderBy.mp hb) (le_antisymm hab hba)

end Order

/-! ### Tables with their index -/

/-- **A table with a unique index**: the rows, and the index as part of the
table. -/
structure Keyed (key : α → β) where
  rows : List α
  unique : UniqueOn (fun _ => true) key rows

namespace Keyed

variable {key : α → β}

def empty : Keyed key := ⟨[], nodup_nil⟩

/-- `INSERT`, refused if the index has the key. -/
def insert [DecidableEq β] (t : Keyed key) (x : α) : Option (Keyed key) :=
  if h : UniqueOn (fun _ => true) key (x :: t.rows) then some ⟨x :: t.rows, h⟩ else none

/-- `INSERT … ON CONFLICT DO UPDATE`: the row with the key of `x` is replaced. -/
def put [DecidableEq β] (t : Keyed key) (x : α) : Keyed key where
  rows := x :: t.rows.filter fun r => key r ≠ key x
  unique := uniqueOn_cons.mpr ⟨fun _ r hr _ => by simpa using (mem_filter.mp hr).2,
    t.unique.sublist ((filter_sublist.filter _).map _)⟩

/-- `UPDATE`, of columns outside the index. -/
def update (t : Keyed key) (p : α → Bool) (f : α → α) (hf : ∀ r, key (f r) = key r) :
    Keyed key where
  rows := Table.update p f t.rows
  unique := t.unique.update fun r _ => ⟨rfl, hf r⟩

/-- `DELETE`. -/
def delete (t : Keyed key) (p : α → Bool) : Keyed key where
  rows := t.rows.filter fun r => !p r
  unique := t.unique.sublist ((filter_sublist.filter _).map _)

variable {t t' : Keyed key}

theorem eq_of_key (hr : r ∈ t.rows) (hr' : r' ∈ t.rows) (h : key r = key r') : r = r' :=
  t.unique.eq_of_key hr hr' rfl rfl h

theorem insert_eq_some [DecidableEq β] (h : t.insert x = some t') :
    t'.rows = x :: t.rows ∧ ∀ r ∈ t.rows, key r ≠ key x := by
  unfold insert at h
  split at h
  case isTrue hu =>
    cases h
    exact ⟨rfl, fun r hr => (uniqueOn_cons.mp hu).1 rfl r hr rfl⟩
  case isFalse => cases h

@[simp] theorem mem_put [DecidableEq β] :
    r ∈ (t.put x).rows ↔ r = x ∨ (r ∈ t.rows ∧ key r ≠ key x) := by
  simp [put]

@[simp] theorem mem_delete : r ∈ (t.delete p).rows ↔ r ∈ t.rows ∧ p r = false := by
  simp [delete]

/-! #### Lookups -/

section Lookups

variable [DecidableEq β] {k : β}

/-- The row under a key. -/
def find? (t : Keyed key) (k : β) : Option α := t.rows.find? fun r => key r = k

theorem find?_eq_some : t.find? k = some r ↔ r ∈ t.rows ∧ key r = k := by
  constructor
  · intro h
    have hfound := find?_some h
    exact ⟨mem_of_find?_eq_some h, of_decide_eq_true hfound⟩
  · rintro ⟨hr, rfl⟩
    cases h : t.find? (key r) with
    | none => exact absurd (decide_eq_true rfl) (find?_eq_none.mp h r hr)
    | some r' =>
      have hfound := find?_some h
      rw [eq_of_key (mem_of_find?_eq_some h) hr (of_decide_eq_true hfound)]

theorem find?_eq_none : t.find? k = none ↔ ∀ r ∈ t.rows, key r ≠ k := by
  unfold find?
  rw [List.find?_eq_none]
  exact forall₂_congr fun r _ => not_congr decide_eq_true_iff

theorem find?_put_self {x : α} : (t.put x).find? (key x) = some x :=
  find?_eq_some.mpr ⟨mem_put.mpr (.inl rfl), rfl⟩

/-- The rows under the other keys stay. -/
theorem find?_congr {t' : Keyed key} (h : ∀ r, key r = k → (r ∈ t'.rows ↔ r ∈ t.rows)) :
    t'.find? k = t.find? k := by
  refine Option.ext fun r => ?_
  rw [find?_eq_some, find?_eq_some]
  exact and_congr_left (h r)

theorem find?_put_of_ne (h : key x ≠ k) : (t.put x).find? k = t.find? k := by
  refine find?_congr fun r hr => ?_
  rw [mem_put]
  constructor
  · rintro (rfl | ⟨hmem, -⟩)
    · exact absurd hr h
    · exact hmem
  · exact fun hmem => .inr ⟨hmem, fun hx => h (hx.symm.trans hr)⟩

theorem find?_delete_of_not (h : ∀ r, key r = k → p r = false) :
    (t.delete p).find? k = t.find? k := by
  refine find?_congr fun r hr => ?_
  rw [mem_delete]
  exact and_iff_left (h r hr)

theorem find?_delete_of (h : ∀ r, key r = k → p r = true) : (t.delete p).find? k = none := by
  rw [find?_eq_none]
  intro r hr hk
  rw [mem_delete, h r hk] at hr
  cases hr.2

end Lookups

/-! #### Weights

A quantity that moves between tables is counted as a sum of weights of rows. -/

/-- The sum of the weights of the rows. -/
def total (f : α → ℕ) (t : Keyed key) : ℕ := (t.rows.map f).sum

variable {f : α → ℕ}

theorem total_eq_zero (h : ∀ r ∈ t.rows, f r = 0) : total f t = 0 := by
  refine sum_eq_zero fun n hn => ?_
  obtain ⟨r, hr, rfl⟩ := mem_map.mp hn
  exact h r hr

theorem total_delete_le (p : α → Bool) : total f (t.delete p) ≤ total f t :=
  (filter_sublist.map f).sum_le_sum fun _ _ => Nat.zero_le _

theorem total_insert [DecidableEq β] (h : t.insert x = some t') : total f t' = f x + total f t := by
  unfold total
  rw [(insert_eq_some h).1, map_cons, sum_cons]

theorem total_put_le [DecidableEq β] (x : α) : total f (t.put x) ≤ f x + total f t :=
  Nat.add_le_add_left ((filter_sublist.map f).sum_le_sum fun _ _ => Nat.zero_le _) _

theorem total_foldl_put_le [DecidableEq β] : ∀ (rows : List α) (t : Keyed key),
      total f (rows.foldl put t) ≤ (rows.map f).sum + total f t
  | [], t => (Nat.zero_add _).ge
  | x :: rows, t => by
    have hrest := total_foldl_put_le rows (t.put x)
    have hput := total_put_le (f := f) (t := t) x
    rw [map_cons, sum_cons, foldl_cons]
    omega

/-- A row that replaces another takes the place of its weight. -/
theorem total_put_add [DecidableEq β] (hr : r ∈ t.rows) (hkey : key r = key x) :
    total f (t.put x) + f r = f x + total f t := by
  have hfilter : ∀ {rows : List α}, UniqueOn (fun _ => true) key rows → r ∈ rows →
      ((rows.filter fun y => key y ≠ key x).map f).sum + f r = (rows.map f).sum := by
    intro rows
    induction rows with
    | nil => exact nofun
    | cons y rows ih =>
      intro hunique hr
      obtain ⟨hfresh, htail⟩ := uniqueOn_cons.mp hunique
      rcases mem_cons.mp hr with rfl | hr
      · have hothers : rows.filter (fun z => key z ≠ key x) = rows := by
          refine filter_eq_self.mpr fun z hz => decide_eq_true ?_
          rw [← hkey]
          exact hfresh rfl z hz rfl
        rw [filter_cons_of_neg (by simpa using hkey), hothers, map_cons, sum_cons, Nat.add_comm]
      · have hne : key y ≠ key x := fun h => hfresh rfl r hr rfl (hkey.trans h.symm)
        rw [filter_cons_of_pos (by simpa using hne), map_cons, sum_cons,
          map_cons, sum_cons, Nat.add_assoc, ih htail hr]
  show (f x + _) + f r = f x + _
  rw [Nat.add_assoc]
  exact congrArg _ (hfilter t.unique hr)

end Keyed

end Table

/-! ## Checks, transactions and runs -/

namespace Tx

open List

section Checks

variable {ε β γ : Type}

/-- Refuse with `e` unless `p` holds. -/
def ensure (p : Prop) [Decidable p] (e : ε) : Except ε Unit :=
  if p then .ok () else .error e

@[simp] theorem ensure_eq_ok (p : Prop) [Decidable p] (e : ε) (u : Unit) :
    ensure p e = .ok u ↔ p := by
  unfold ensure
  split
  case isTrue h => exact iff_of_true rfl h
  case isFalse h => exact iff_of_false nofun h

variable {p : Prop} {e : ε}

theorem ensured [Decidable p] {u : Unit} (h : ensure p e = .ok u) : p :=
  (ensure_eq_ok p e u).mp h

theorem ensure_of [Decidable p] (h : p) (e : ε) : ensure p e = .ok () := if_pos h

theorem ensure_of_not [Decidable p] (h : ¬ p) (e : ε) : ensure p e = .error e :=
  if_neg h

theorem except_bind_eq_ok (x : Except ε β) (f : β → Except ε γ) (c : γ) :
    (x >>= f) = .ok c ↔ ∃ b, x = .ok b ∧ f b = .ok c := by
  cases x with
  | error e => exact iff_of_false nofun (fun ⟨_, h, _⟩ => nomatch h)
  | ok b => exact ⟨fun h => ⟨b, rfl, h⟩, fun ⟨_, h, hf⟩ => Except.ok.inj h ▸ hf⟩

variable {x : Except ε β} {c : γ}

/-- The first step of a computation that succeeds. -/
theorem bind_ok {f : β → Except ε γ} (h : (x >>= f) = .ok c) :
    ∃ b, x = .ok b ∧ f b = .ok c := (except_bind_eq_ok x f c).mp h

/-- A check that was passed, and what is left of the computation. -/
theorem checked [Decidable p] {f : Unit → Except ε γ} (h : (ensure p e >>= f) = .ok c) :
    p ∧ f () = .ok c := by
  obtain ⟨_, hp, h⟩ := bind_ok h
  exact ⟨ensured hp, h⟩

variable {y : Except ε γ}

/-- What is left of a computation after a check. -/
theorem skip (h : (x >>= fun _ => y) = .ok c) : y = .ok c :=
  (bind_ok h).choose_spec.2

theorem ensure_eq_error (p : Prop) [Decidable p] (e e' : ε) :
    ensure p e = .error e' ↔ ¬ p ∧ e = e' := by
  unfold ensure
  split
  case isTrue h => exact iff_of_false nofun (fun hc => hc.1 h)
  case isFalse h => exact ⟨fun hc => ⟨h, Except.error.inj hc⟩, fun hc => congrArg _ hc.2⟩

theorem except_bind_eq_error (x : Except ε β) (f : β → Except ε γ) (e : ε) :
    (x >>= f) = .error e ↔ x = .error e ∨ ∃ b, x = .ok b ∧ f b = .error e := by
  cases x with
  | error e' =>
    refine ⟨fun h => .inl (congrArg _ (Except.error.inj h)), fun h => ?_⟩
    rcases h with h | ⟨_, h, _⟩
    · exact congrArg _ (Except.error.inj h)
    · cases h
  | ok b =>
    refine ⟨fun h => .inr ⟨b, rfl, h⟩, fun h => ?_⟩
    rcases h with h | ⟨_, h, hf⟩
    · cases h
    · exact Except.ok.inj h ▸ hf

/-- **Two computations in step**: they fail with the same error, or give related
results. -/
inductive InStep (r : β → γ → Prop) : Except ε β → Except ε γ → Prop
  | error (e : ε) : InStep r (.error e) (.error e)
  | ok {b : β} {c : γ} (h : r b c) : InStep r (.ok b) (.ok c)

theorem InStep.of_eq {y : Except ε β} (h : x = y) : InStep Eq x y := by
  subst h
  cases x with
  | error e => exact .error e
  | ok b => exact .ok rfl

/-- **Computations in step, continued in step, are in step.** -/
theorem InStep.bind {β' γ' : Type} {r : β → γ → Prop} {r' : β' → γ' → Prop} {f : β → Except ε β'}
    {g : γ → Except ε γ'} (h : InStep r x y)
    (hfg : ∀ b c, x = .ok b → y = .ok c → r b c → InStep r' (f b) (g c)) :
    InStep r' (x >>= f) (y >>= g) := by
  cases h with
  | error e => exact .error e
  | ok h => exact hfg _ _ rfl rfl h

variable {f : β → γ → Except ε β}

/-- **What every round of a loop keeps holds after the loop.** -/
theorem foldlM_invariant (inv : β → Prop) :
    ∀ (l : List γ), (∀ b, ∀ c ∈ l, ∀ b', inv b → f b c = .ok b' → inv b') →
      ∀ {b b' : β}, inv b → l.foldlM f b = .ok b' → inv b'
  | [], _, _, _, hb, h => Except.ok.inj h ▸ hb
  | c :: l, hf, b, b', hb, h => by
    rw [foldlM_cons, except_bind_eq_ok] at h
    obtain ⟨b₁, hc, h⟩ := h
    have hb₁ : inv b₁ := hf b c mem_cons_self b₁ hb hc
    exact foldlM_invariant inv l (fun b c hc' => hf b c (mem_cons_of_mem _ hc')) hb₁ h

/-- A loop that fails fails in one of its rounds. -/
theorem foldlM_eq_error (inv : β → Prop) :
    ∀ (l : List γ), (∀ b, ∀ c ∈ l, ∀ b', inv b → f b c = .ok b' → inv b') →
      ∀ {b : β}, inv b → l.foldlM f b = .error e → ∃ b', inv b' ∧ ∃ c ∈ l, f b' c = .error e
  | [], _, _, _, h => nomatch h
  | c :: l, hf, b, hb, h => by
    rw [foldlM_cons] at h
    cases hc : f b c with
    | error e' =>
      rw [hc] at h
      exact ⟨b, hb, c, mem_cons_self, hc.trans h⟩
    | ok b₁ =>
      rw [hc] at h
      have hb₁ : inv b₁ := hf b c mem_cons_self b₁ hb hc
      obtain ⟨b', hb', c', hc', herr⟩ :=
        foldlM_eq_error inv l (fun b c hc' => hf b c (mem_cons_of_mem _ hc')) hb₁ h
      exact ⟨b', hb', c', mem_cons_of_mem _ hc', herr⟩

/-- **Loops over separate parts.** The state falls into parts, and the body at `c` leaves
all of them alone but the one of `c`. If no two rounds are about one part, then the part
of a round is at the end what this one round has made of the part at the beginning. -/
theorem foldlM_part {σ ι π : Type} (part : σ → ι → π) (index : γ → ι) (inv : σ → Prop)
    {f : σ → γ → Except ε σ} (l : List γ) (hround : ∀ s, ∀ c ∈ l, ∀ s', inv s → f s c = .ok s' →
      inv s' ∧ ∀ i, i ≠ index c → part s' i = part s i)
    (hnodup : (l.map index).Nodup) {s s' : σ} (hs : inv s) (h : l.foldlM f s = .ok s') :
    inv s' ∧ (∀ i, i ∉ l.map index → part s' i = part s i) ∧
      ∀ c ∈ l, ∃ t t', inv t ∧ f t c = .ok t' ∧ part t (index c) = part s (index c) ∧
        part s' (index c) = part t' (index c) := by
  induction l generalizing s with
  | nil =>
    cases h
    exact ⟨hs, fun _ _ => rfl, nofun⟩
  | cons c l ih =>
    rw [foldlM_cons] at h
    obtain ⟨s₁, hc, h⟩ := bind_ok h
    obtain ⟨hnot, hrest⟩ := nodup_cons.mp hnodup
    obtain ⟨hs₁, hframe⟩ := hround s c mem_cons_self s₁ hs hc
    obtain ⟨hinv, hothers, hrounds⟩ :=
      ih (fun s d hd => hround s d (mem_cons_of_mem _ hd)) hrest hs₁ h
    refine ⟨hinv, fun i hi => ?_, fun d hd => ?_⟩
    · obtain ⟨hi, hil⟩ := not_or.mp (mt mem_cons.mpr hi)
      exact (hothers i hil).trans (hframe i hi)
    · rcases mem_cons.mp hd with rfl | hd
      · exact ⟨s, s₁, hs, hc, rfl, hothers _ hnot⟩
      · obtain ⟨t, t', ht, hstep, hbefore, hafter⟩ := hrounds d hd
        have hne : index d ≠ index c := fun heq => hnot (heq ▸ mem_map_of_mem hd)
        exact ⟨t, t', ht, hstep, hbefore.trans (hframe _ hne), hafter⟩

/-- A loop whose rounds succeed more often succeeds more often. -/
theorem foldlM_mono {g : β → γ → Except ε β} (hfg : ∀ b c b', f b c = .ok b' → g b c = .ok b') :
    ∀ (l : List γ) {b b' : β}, l.foldlM f b = .ok b' → l.foldlM g b = .ok b'
  | [], _, _, h => h
  | c :: l, b, b', h => by
    rw [foldlM_cons, except_bind_eq_ok] at h ⊢
    obtain ⟨b₁, hc, h⟩ := h
    exact ⟨b₁, hfg b c b₁ hc, foldlM_mono hfg l h⟩

/-- A loop of checks succeeds if each of them does. -/
theorem forM_eq_ok {f : γ → Except ε Unit} :
    ∀ (l : List γ) {u : Unit}, l.forM f = .ok u ↔ ∀ c ∈ l, f c = .ok ()
  | [], _ => iff_of_true rfl nofun
  | c :: l, u => by
    show (f c >>= fun _ => l.forM f) = .ok u ↔ _
    rw [except_bind_eq_ok, forall_mem_cons]
    exact ⟨fun ⟨_, hc, hl⟩ => ⟨hc, (forM_eq_ok l).mp hl⟩,
      fun ⟨hc, hl⟩ => ⟨(), hc, (forM_eq_ok l).mpr hl⟩⟩

/-- `for grew := true; grew; { … }`: repeat a pass until it reports that nothing
grew. The fuel bounds the number of passes. -/
def untilStable (pass : β → Except ε (β × Bool)) (endless : ε) : ℕ → β → Except ε β
  | 0, _ => .error endless
  | n + 1, b =>
    match pass b with
    | .error e => .error e
    | .ok (b', true) => untilStable pass endless n b'
    | .ok (b', false) => .ok b'

section UntilStable

variable {pass : β → Except ε (β × Bool)} {endless : ε}

/-- **What every pass keeps holds when the loop has ended.** -/
theorem untilStable_invariant (inv : β → Prop)
    (hpass : ∀ b b' grew, inv b → pass b = .ok (b', grew) → inv b') :
    ∀ (n : ℕ) {b b' : β}, inv b → untilStable pass endless n b = .ok b' → inv b'
  | 0, _, _, _, h => nomatch h
  | n + 1, b, b', hb, h => by
    rw [untilStable] at h
    split at h
    next => cases h
    next b₁ hb₁ => exact untilStable_invariant inv hpass n (hpass b b₁ true hb hb₁) h
    next b₁ hb₁ => exact Except.ok.inj h ▸ hpass b b₁ false hb hb₁

/-- **A loop ends or fails in one of its passes**, if every pass that grows
something comes nearer to a bound. -/
theorem untilStable_eq_error (inv : β → Prop) (room : β → ℕ)
    (hpass : ∀ b b' grew, inv b → pass b = .ok (b', grew) → inv b')
    (hroom : ∀ b b', inv b → pass b = .ok (b', true) → room b' < room b) :
    ∀ (n : ℕ) {b : β}, inv b → room b < n → untilStable pass endless n b = .error e →
      ∃ b', inv b' ∧ pass b' = .error e
  | 0, _, _, hn, _ => absurd hn (Nat.not_lt_zero _)
  | n + 1, b, hb, hn, h => by
    rw [untilStable] at h
    split at h
    next e' he' => exact ⟨b, hb, he'.trans (congrArg _ (Except.error.inj h))⟩
    next b₁ hb₁ =>
      have hroom₁ : room b₁ < room b := hroom b b₁ hb hb₁
      exact untilStable_eq_error inv room hpass hroom n (hpass b b₁ true hb hb₁) (by omega) h
    next => cases h

/-- A loop whose passes succeed more often succeeds more often. -/
theorem untilStable_mono {pass' : β → Except ε (β × Bool)}
    (h : ∀ b r, pass b = .ok r → pass' b = .ok r) :
    ∀ (n : ℕ) {b b' : β}, untilStable pass endless n b = .ok b' →
      untilStable pass' endless n b = .ok b'
  | 0, _, _, hb => nomatch hb
  | n + 1, b, b', hb => by
    rw [untilStable] at hb ⊢
    split at hb
    next => cases hb
    next b₁ hb₁ =>
      rw [h b _ hb₁]
      exact untilStable_mono h n hb
    next b₁ hb₁ =>
      rw [h b _ hb₁]
      exact hb

end UntilStable

end Checks

variable {σ ο ε : Type*}

/-- The state after a transaction was attempted: its result when it commits, the
state before it when it fails. -/
def commit (f : σ → Except ε σ) (s : σ) : σ :=
  match f s with
  | .ok s' => s'
  | .error _ => s

/-- What holds before a transaction and after it commits holds after the attempt. -/
theorem commit_invariant {f : σ → Except ε σ} {s : σ} (inv : σ → Prop) (hs : inv s)
    (hf : ∀ s', f s = .ok s' → inv s') : inv (commit f s) := by
  unfold commit
  cases h : f s with
  | ok s' => exact hf s' h
  | error e => exact hs

/-- The state after a run. -/
def exec (step : σ → ο → σ) (s : σ) (ops : List ο) : σ := ops.foldl step s

variable {step : σ → ο → σ}

theorem exec_append (s : σ) (ops ops' : List ο) :
    exec step s (ops ++ ops') = exec step (exec step s ops) ops' :=
  foldl_append

/-- **What every step keeps holds after every run.** -/
theorem exec_invariant (inv : σ → Prop) (hstep : ∀ s op, inv s → inv (step s op)) :
    ∀ (ops : List ο) (s : σ), inv s → inv (exec step s ops)
  | [], _, hs => hs
  | op :: ops, s, hs => exec_invariant inv hstep ops (step s op) (hstep s op hs)

/-- Every operation of the run meets `ok` in the state in which it is taken. -/
def Along (step : σ → ο → σ) (ok : σ → ο → Prop) : σ → List ο → Prop
  | _, [] => True
  | s, op :: ops => ok s op ∧ Along step ok (step s op) ops

/-- **What every step under a condition keeps holds after every run whose steps
meet the condition.** -/
theorem exec_invariant_along (ok : σ → ο → Prop) (inv : σ → Prop)
    (hstep : ∀ s op, ok s op → inv s → inv (step s op)) :
    ∀ (ops : List ο) (s : σ), Along step ok s ops → inv s → inv (exec step s ops)
  | [], _, _, hs => hs
  | op :: ops, s, hok, hs =>
    exec_invariant_along ok inv hstep ops (step s op) hok.2 (hstep s op hok.1 hs)

variable {ok : σ → ο → Prop}

theorem along_of_forall (h : ∀ s op, ok s op) : ∀ (s : σ) (ops : List ο), Along step ok s ops
  | _, [] => trivial
  | s, op :: ops => ⟨h s op, along_of_forall h (step s op) ops⟩

theorem along_of_forall_mem {ok : ο → Prop} :
    ∀ (s : σ) (ops : List ο), (∀ op ∈ ops, ok op) → Along step (fun _ op => ok op) s ops
  | _, [], _ => trivial
  | s, op :: ops, h =>
    ⟨h op mem_cons_self, along_of_forall_mem (step s op) ops fun op' hop' =>
      h op' (mem_cons_of_mem op hop')⟩

theorem Along.imp {ok' : σ → ο → Prop} (h : ∀ s op, ok s op → ok' s op) :
    ∀ {ops : List ο} {s : σ}, Along step ok s ops → Along step ok' s ops
  | [], _, _ => trivial
  | _ :: _, _, hok => ⟨h _ _ hok.1, Along.imp h hok.2⟩

/-- A state with its past: every operation that was taken, with the state in which
it was taken, the last one first. -/
structure Recorded (σ ο : Type*) where
  now : σ
  past : List (σ × ο)

/-- One step of a recorded run. -/
def record (step : σ → ο → σ) (r : Recorded σ ο) (op : ο) : Recorded σ ο :=
  ⟨step r.now op, (r.now, op) :: r.past⟩

/-- **A recorded run** from a first state. -/
def history (step : σ → ο → σ) (s : σ) (ops : List ο) : Recorded σ ο :=
  exec (record step) ⟨s, []⟩ ops

/-- Recording does not change the run. -/
theorem exec_record_now (ops : List ο) (r : Recorded σ ο) :
    (exec (record step) r ops).now = exec step r.now ops := by
  induction ops generalizing r with
  | nil => rfl
  | cons op ops ih => exact ih (record step r op)

@[simp] theorem history_now (s : σ) (ops : List ο) : (history step s ops).now = exec step s ops :=
  exec_record_now ops ⟨s, []⟩

/-- A condition on the steps of a run is one on those of the recorded run. -/
theorem Along.record :
    ∀ {ops : List ο} {r : Recorded σ ο}, Along step ok r.now ops →
      Along (record step) (fun r op => ok r.now op) r ops
  | [], _, _ => trivial
  | _ :: _, _, hok => ⟨hok.1, Along.record hok.2⟩

theorem along_append : ∀ {ops ops' : List ο} {s : σ},
      Along step ok s (ops ++ ops') ↔ Along step ok s ops ∧ Along step ok (exec step s ops) ops'
  | [], _, _ => ⟨fun h => ⟨trivial, h⟩, And.right⟩
  | _ :: _, _, _ => (and_congr_right fun _ => along_append).trans and_assoc.symm

end Tx
