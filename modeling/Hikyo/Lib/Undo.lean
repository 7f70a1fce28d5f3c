import Hikyo.Lib.Transactions

/-!
# Undoing a list of edits

A list of edits is applied one after the other, and each edit may find that the
state is not what it was made for. To undo the list, the edits are undone in the
*same* order, the first one first – while all the others are still in place. That
works for edits which do not get in each other's way: `Undo.foldlM_undo` asks that
an edit can be undone right after it is applied, that it leaves the others
applicable, and that undoing it commutes with applying another one.

The second part replaces entries of a list by their key, which is how a list of
named entries is edited.
-/

namespace Undo

open List
open Tx (bind_ok)

variable {σ ι δ : Type} {apply undo : σ → ι → Except δ σ}

/-- Undoing one edit commutes with applying a list of others. -/
theorem undo_after_foldlM {e : ι} {fs : List ι}
    (hdiamond : ∀ f ∈ fs, ∀ x y x' y', undo x e = .ok y → apply x f = .ok x' →
      apply y f = .ok y' → undo x' e = .ok y') {x y x' y' : σ} (hundo : undo x e = .ok y)
    (hx : fs.foldlM apply x = .ok x') (hy : fs.foldlM apply y = .ok y') : undo x' e = .ok y' := by
  induction fs generalizing x y with
  | nil =>
    cases hx
    cases hy
    exact hundo
  | cons f fs ih =>
    rw [foldlM_cons] at hx hy
    obtain ⟨x₁, hx₁, hx⟩ := bind_ok hx
    obtain ⟨y₁, hy₁, hy⟩ := bind_ok hy
    exact ih (fun g hg => hdiamond g (mem_cons_of_mem _ hg))
      (hdiamond f mem_cons_self x y x₁ y₁ hundo hx₁ hy₁) hx hy

/-- **A list of edits can be applied, and undone in the same order.** -/
theorem foldlM_undo (recorded : σ → ι → Prop) (apart : ι → ι → Prop)
    (happly : ∀ s e, recorded s e → ∃ s', apply s e = .ok s' ∧ undo s' e = .ok s)
    (hframe : ∀ s e f s', apart e f → recorded s e → recorded s f → apply s e = .ok s' →
      recorded s' f)
    (hdiamond : ∀ e f x y x' y', apart e f → undo x e = .ok y → apply x f = .ok x' →
      apply y f = .ok y' → undo x' e = .ok y') :
    ∀ (es : List ι) (s : σ), es.Pairwise apart → (∀ e ∈ es, recorded s e) →
      ∃ s', es.foldlM apply s = .ok s' ∧ es.foldlM undo s' = .ok s
  | [], s, _, _ => ⟨s, rfl, rfl⟩
  | e :: es, s, hapart, hrecorded => by
    obtain ⟨hfirst, hrest⟩ := pairwise_cons.mp hapart
    have he := hrecorded e mem_cons_self
    have hes : ∀ f ∈ es, recorded s f := fun f hf => hrecorded f (mem_cons_of_mem _ hf)
    obtain ⟨s₁, happly₁, hundo₁⟩ := happly s e he
    -- the others are applied to the edited state, and they could be applied to the old one
    obtain ⟨s', hs', -⟩ := foldlM_undo recorded apart happly hframe hdiamond es s₁ hrest
      fun f hf => hframe s e f s₁ (hfirst f hf) he (hes f hf) happly₁
    obtain ⟨y, hy, hundo⟩ := foldlM_undo recorded apart happly hframe hdiamond es s hrest hes
    have hback : undo s' e = .ok y := by
      refine undo_after_foldlM (fun f hf => ?_) hundo₁ hs' hy
      exact fun a b c d => hdiamond e f a b c d (hfirst f hf)
    refine ⟨s', ?_, ?_⟩
    · rw [foldlM_cons, happly₁]
      exact hs'
    · rw [foldlM_cons, hback]
      exact hundo

end Undo

/-! ## Entries with a key -/

namespace List

variable {α κ : Type} [DecidableEq κ] (key : α → κ)

/-- Put `xs` in place of the first entry with key `k`. -/
def replaceKey (k : κ) (xs : List α) : List α → List α
  | [] => []
  | a :: as => if key a = k then xs ++ as else a :: replaceKey k xs as

variable {key} {k k' : κ} {xs ys as bs : List α} {a b : α}

theorem replaceKey_append (h : ∃ a ∈ as, key a = k) :
    replaceKey key k xs (as ++ bs) = replaceKey key k xs as ++ bs := by
  induction as with
  | nil => exact nomatch h
  | cons a as ih =>
    show (if key a = k then xs ++ (as ++ bs) else a :: replaceKey key k xs (as ++ bs)) =
      (if key a = k then xs ++ as else a :: replaceKey key k xs as) ++ bs
    split
    next => rw [append_assoc]
    next hne =>
      obtain ⟨b, hb, hkey⟩ := h
      rcases mem_cons.mp hb with rfl | hb
      · exact absurd hkey hne
      · rw [ih ⟨b, hb, hkey⟩, cons_append]

/-- What stands for `k` is not touched by a replacement under another key. -/
theorem filter_replaceKey (h : ∀ x ∈ xs, key x = k') (hne : k ≠ k') :
    (replaceKey key k' xs as).filter (fun a => key a = k) = as.filter (fun a => key a = k) := by
  induction as with
  | nil => rfl
  | cons a as ih =>
    unfold replaceKey
    split
    next hkey =>
      have hxs : xs.filter (fun a => decide (key a = k)) = [] :=
        filter_eq_nil_iff.mpr fun x hx => by
          rw [decide_eq_true_eq, h x hx]
          exact fun hk => hne hk.symm
      rw [filter_append, hxs, nil_append, filter_cons_of_neg]
      rw [decide_eq_true_eq, hkey]
      exact fun hk => hne hk.symm
    next =>
      rw [filter_cons, filter_cons, ih]

/-- What stands for `k`, if it is one entry, is what it is replaced by. -/
theorem filter_replaceKey_self (hb : key b = k) (h : as.filter (fun a => key a = k) = [a]) :
    (replaceKey key k [b] as).filter (fun a => key a = k) = [b] := by
  induction as with
  | nil => cases h
  | cons c as ih =>
    by_cases hk : key c = k
    · simp only [filter_cons, hk, decide_true, if_true, cons.injEq] at h
      rw [replaceKey, if_pos hk, singleton_append]
      simp only [filter_cons, hb, decide_true, if_true, h.2]
    · simp only [filter_cons, hk, decide_false, Bool.false_eq_true, if_false] at h
      rw [replaceKey, if_neg hk]
      simp only [filter_cons, hk, decide_false, Bool.false_eq_true, if_false, ih h]

theorem replaceKey_comm (hx : ∀ x ∈ xs, key x = k) (hy : ∀ y ∈ ys, key y = k') (hne : k ≠ k') :
    replaceKey key k xs (replaceKey key k' ys as) =
      replaceKey key k' ys (replaceKey key k xs as) := by
  have hskip : ∀ {k k' : κ} {xs ys as : List α}, (∀ y ∈ ys, key y = k') → k ≠ k' →
      replaceKey key k xs (ys ++ as) = ys ++ replaceKey key k xs as := by
    intro k k' xs ys as hy hne
    induction ys with
    | nil => rfl
    | cons y ys ih =>
      have hyk : key y ≠ k := fun h => hne (h.symm.trans (hy y mem_cons_self))
      rw [cons_append, cons_append, replaceKey, if_neg hyk,
        ih fun z hz => hy z (mem_cons_of_mem _ hz)]
  induction as with
  | nil => rfl
  | cons a as ih =>
    by_cases hk : key a = k
    · have hk' : key a ≠ k' := fun h => hne (hk.symm.trans h)
      rw [replaceKey, if_neg hk', replaceKey, if_pos hk, replaceKey, if_pos hk, hskip hx hne.symm]
    · by_cases hk' : key a = k'
      · rw [replaceKey, if_pos hk', hskip hy hne, replaceKey, if_neg hk, replaceKey, if_pos hk']
      · rw [replaceKey, if_neg hk', replaceKey, if_neg hk, replaceKey, if_neg hk, replaceKey,
          if_neg hk', ih]

/-- A replacement is undone by one under the same key. -/
theorem replaceKey_replaceKey (hb : key b = k) :
    replaceKey key k xs (replaceKey key k [b] as) = replaceKey key k xs as := by
  induction as with
  | nil => rfl
  | cons a as ih =>
    by_cases hk : key a = k
    · rw [replaceKey, if_pos hk, singleton_append, replaceKey, if_pos hb, replaceKey, if_pos hk]
    · rw [replaceKey, if_neg hk, replaceKey, if_neg hk, ih, replaceKey, if_neg hk]

theorem replaceKey_self (h : as.find? (fun a => key a = k) = some a) :
    replaceKey key k [a] as = as := by
  induction as with
  | nil => rfl
  | cons b as ih =>
    rw [find?_cons] at h
    by_cases hk : key b = k
    · rw [decide_eq_true hk] at h
      cases h
      rw [replaceKey, if_pos hk, singleton_append]
    · rw [decide_eq_false hk] at h
      rw [replaceKey, if_neg hk, ih h]

theorem find?_replaceKey_self (hb : key b = k) (h : ∃ a ∈ as, key a = k) :
    (replaceKey key k [b] as).find? (fun a => key a = k) = some b := by
  induction as with
  | nil => exact nomatch h
  | cons a as ih =>
    by_cases hk : key a = k
    · rw [replaceKey, if_pos hk, singleton_append, find?_cons, decide_eq_true hb]
    · rw [replaceKey, if_neg hk, find?_cons, decide_eq_false hk]
      obtain ⟨c, hc, hkey⟩ := h
      rcases mem_cons.mp hc with rfl | hc
      · exact absurd hkey hk
      · exact ih ⟨c, hc, hkey⟩

/-- **The first entry with a key, by its index.** -/
theorem findIdx?_key (key : α → κ) (k : κ) (as : List α) :
    (as.findIdx? (fun a => key a = k) = none ∧ ∀ a ∈ as, key a ≠ k) ∨
      ∃ i a, as.findIdx? (fun a => key a = k) = some i ∧ as[i]? = some a ∧
        as.find? (fun a => key a = k) = some a ∧ (∀ b, as.set i b = replaceKey key k [b] as) ∧
        as.eraseIdx i = replaceKey key k [] as := by
  induction as with
  | nil => exact .inl ⟨rfl, nofun⟩
  | cons a as ih =>
    by_cases hk : key a = k
    · refine .inr ⟨0, a, ?_, rfl, ?_, fun b => ?_, ?_⟩
      · rw [findIdx?_cons, if_pos (decide_eq_true hk)]
      · rw [find?_cons, decide_eq_true hk]
      · rw [replaceKey, if_pos hk]
        rfl
      · rw [replaceKey, if_pos hk]
        rfl
    · rw [findIdx?_cons, if_neg (fun h => hk (of_decide_eq_true h)), find?_cons, decide_eq_false hk]
      rcases ih with ⟨hnone, hall⟩ | ⟨i, b, hi, hget, hfind, hset, herase⟩
      · refine .inl ⟨by rw [hnone]; rfl, fun c hc => ?_⟩
        rcases mem_cons.mp hc with rfl | hc
        · exact hk
        · exact hall c hc
      · refine .inr ⟨i + 1, b, by rw [hi]; rfl, hget, hfind, fun c => ?_, ?_⟩
        · rw [set_cons_succ, hset, replaceKey, if_neg hk]
        · rw [eraseIdx_cons_succ, herase, replaceKey, if_neg hk]

end List
