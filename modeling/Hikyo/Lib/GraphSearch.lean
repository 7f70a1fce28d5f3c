import Mathlib

/-!
# Searching a finite graph

A graph is given by the list of the successors of each node. Two loops over such a
graph: a depth-first search with the three colours, which refuses a cycle, and a
count of the nodes entered along all paths, which remembers what it has counted
and stops at a limit. Both recurse along edges and carry fuel.

The search that succeeds leaves its finished nodes in an order in which every node
stands before its successors (`Finished`), so there is no infinite path from any of
them (`acc_of_finished`), and the recursion of the count is bounded by the length of
that order. What the count returns below its limit is a bound on the number of
nodes entered to every depth (`entries_le_of_count`).
-/

namespace GraphSearch

open List

variable {α : Type*} [DecidableEq α] {succ : α → List α}

/-! ## The search -/

/-- How a search fails. -/
inductive Failure (α : Type*) where
  /-- an edge leads back to a node that is being visited -/
  | cycle (node : α)
  /-- out of fuel -/
  | endless
deriving DecidableEq, Repr

/-- The nodes that are being visited and those that are finished, the last one
first. All other nodes are white. -/
structure Colours (α : Type*) where
  grey : List α
  black : List α

/-- Visit one node. -/
def visit (succ : α → List α) : ℕ → Colours α → α → Except (Failure α) (Colours α)
  | 0, _, _ => .error .endless
  | n + 1, c, node =>
    if node ∈ c.grey then .error (.cycle node)
    else if node ∈ c.black then .ok c
    else do
      let c ← (succ node).foldlM (visit succ n) { c with grey := node :: c.grey }
      return ⟨c.grey.erase node, node :: c.black⟩

/-- **Visit all nodes.** -/
def search (succ : α → List α) (fuel : ℕ) (nodes : List α) : Except (Failure α) (Colours α) :=
  nodes.foldlM (visit succ fuel) ⟨[], []⟩

/-- Every node stands before its successors. -/
def Finished (succ : α → List α) : List α → Prop
  | [] => True
  | b :: rest => (∀ t ∈ succ b, t ∈ rest) ∧ Finished succ rest

/-- What a visit of some nodes does: the nodes that are being visited stay, the
order of the finished ones is extended, and the visited nodes are in it. -/
structure Visits (succ : α → List α) (nodes : List α) (c c' : Colours α) : Prop where
  grey : c'.grey = c.grey
  black : c.black ⊆ c'.black
  finished : Finished succ c.black → Finished succ c'.black
  visited : nodes ⊆ c'.black
  within : ∀ all : List α, (∀ x ∈ all, succ x ⊆ all) → nodes ⊆ all → c.black ⊆ all → c'.black ⊆ all

variable {f : Colours α → α → Except (Failure α) (Colours α)}

omit [DecidableEq α] in
theorem visits_foldlM (hf : ∀ c node c', f c node = .ok c' → Visits succ [node] c c') :
    ∀ {nodes : List α} {c c' : Colours α}, nodes.foldlM f c = .ok c' → Visits succ nodes c c'
  | [], c, c', h => by
    cases h
    exact ⟨rfl, List.Subset.refl _, id, nil_subset _, fun _ _ _ hblack => hblack⟩
  | node :: nodes, c, c', h => by
    rw [foldlM_cons] at h
    cases hnode : f c node with
    | error e => rw [hnode] at h; cases h
    | ok c₁ =>
      rw [hnode] at h
      have hfirst := hf c node c₁ hnode
      have hrest := visits_foldlM hf h
      refine ⟨hrest.grey.trans hfirst.grey, List.Subset.trans hfirst.black hrest.black,
        hrest.finished ∘ hfirst.finished, cons_subset.mpr ⟨?_, hrest.visited⟩,
        fun all hclosed hnodes hblack => ?_⟩
      · exact hrest.black (hfirst.visited (mem_singleton_self node))
      · have hnode : [node] ⊆ all := cons_subset.mpr ⟨(cons_subset.mp hnodes).1, nil_subset _⟩
        exact hrest.within all hclosed (cons_subset.mp hnodes).2
          (hfirst.within all hclosed hnode hblack)

theorem visits_visit : ∀ (n : ℕ) (c : Colours α) (node : α) (c' : Colours α),
    visit succ n c node = .ok c' → Visits succ [node] c c'
  | 0, _, _, _, h => nomatch h
  | n + 1, c, node, c', h => by
    rw [visit] at h
    split at h
    case isTrue => cases h
    case isFalse =>
      split at h
      case isTrue hblack =>
        cases h
        exact ⟨rfl, List.Subset.refl _, id, cons_subset.mpr ⟨hblack, nil_subset _⟩,
          fun _ _ _ hblack => hblack⟩
      case isFalse =>
        cases hfold : (succ node).foldlM (visit succ n) { c with grey := node :: c.grey } with
        | error e => rw [hfold] at h; cases h
        | ok c₁ =>
          rw [hfold] at h
          cases h
          have hsucc := visits_foldlM (visits_visit n) hfold
          refine ⟨?_, fun x hx => mem_cons_of_mem _ (hsucc.black hx), fun hfinished =>
            ⟨fun t ht => hsucc.visited ht, hsucc.finished hfinished⟩,
            cons_subset.mpr ⟨mem_cons_self, nil_subset _⟩,
            fun all hclosed hnode hblack => ?_⟩
          · show c₁.grey.erase node = c.grey
            rw [hsucc.grey, erase_cons_head]
          · have hmem := (cons_subset.mp hnode).1
            exact cons_subset.mpr ⟨hmem, hsucc.within all hclosed (hclosed node hmem) hblack⟩

omit [DecidableEq α] in
/-- Only which nodes are successors counts. -/
theorem Finished.congr {succ' : α → List α} (h : ∀ x t, t ∈ succ' x ↔ t ∈ succ x) :
    ∀ {order : List α}, Finished succ order → Finished succ' order
  | [], _ => trivial
  | b :: _, hfinished => ⟨fun t ht => hfinished.1 t ((h b t).mp ht), Finished.congr h hfinished.2⟩

/-- An order without its repetitions is one. -/
theorem Finished.dedup : ∀ {order : List α}, Finished succ order → Finished succ order.dedup
  | [], _ => trivial
  | b :: rest, h => by
    by_cases hmem : b ∈ rest
    · rw [dedup_cons_of_mem hmem]
      exact Finished.dedup h.2
    · rw [dedup_cons_of_notMem hmem]
      exact ⟨fun t ht => mem_dedup.mpr (h.1 t ht), Finished.dedup h.2⟩

variable {fuel : ℕ} {nodes : List α}

/-- **The order of a search that succeeds**: it holds all nodes, and no more nodes
than there are. -/
theorem exists_order_of_search {c : Colours α}
    (hclosed : ∀ x ∈ nodes, succ x ⊆ nodes) (h : search succ fuel nodes = .ok c) :
    ∃ order, Finished succ order ∧ nodes ⊆ order ∧ order.length ≤ nodes.length := by
  have hvisits := visits_foldlM (visits_visit fuel) h
  refine ⟨c.black.dedup, (hvisits.finished trivial).dedup,
    fun x hx => mem_dedup.mpr (hvisits.visited hx), ?_⟩
  have hwithin := hvisits.within nodes hclosed (List.Subset.refl _) (nil_subset _)
  refine ((nodup_dedup c.black).subperm fun x hx => ?_).length_le
  exact hwithin (mem_dedup.mp hx)

omit [DecidableEq α] in
/-- From a node that stands before its successors there is no infinite path. -/
theorem acc_of_finished : ∀ {order : List α}, Finished succ order → ∀ x ∈ order,
    Acc (fun a b => a ∈ succ b) x
  | [], _, x, hx => absurd hx not_mem_nil
  | b :: rest, h, x, hx => by
    rcases mem_cons.mp hx with rfl | hx
    · exact Acc.intro x fun t ht => acc_of_finished h.2 t (h.1 t ht)
    · exact acc_of_finished h.2 x hx

variable {β : Type*}

variable {succ' : β → List β} {S : β → Prop}

omit [DecidableEq α] in
/-- **From such a node there is no cycle**, in any graph that `f` takes into this
one. -/
theorem not_transGen_self_of_acc {f : β → α}
    (hclosed : ∀ x, S x → ∀ t ∈ succ' x, S t ∧ f t ∈ succ (f x)) {x : β} (hx : S x)
    (hacc : Acc (fun a b => a ∈ succ b) (f x)) :
    ¬ Relation.TransGen (fun a b => b ∈ succ' a) x x := by
  have hpath : ∀ y, Relation.TransGen (fun a b => b ∈ succ' a) x y →
      S y ∧ Relation.TransGen (fun a b => a ∈ succ b) (f y) (f x) := by
    intro y hy
    induction hy with
    | single hstep =>
      exact ⟨(hclosed x hx _ hstep).1, Relation.TransGen.single (hclosed x hx _ hstep).2⟩
    | tail _ hstep ih =>
      have hnext := hclosed _ ih.1 _ hstep
      exact ⟨hnext.1, Relation.TransGen.head hnext.2 ih.2⟩
  intro hcycle
  have hirrefl : ∀ a : α, Acc (Relation.TransGen fun a b => a ∈ succ b) a →
      ¬ Relation.TransGen (fun a b => a ∈ succ b) a a := by
    intro a ha
    induction ha with
    | intro a _ ih => exact fun h => ih a h h
  exact hirrefl (f x) hacc.transGen (hpath x hcycle).2

/-! ### The search ends -/

omit [DecidableEq α] in
theorem foldlM_visit_ne_endless (grey : List α)
    (hkeep : ∀ c node c', f c node = .ok c' → c'.grey = c.grey) :
    ∀ {nodes : List α}, (∀ node ∈ nodes, ∀ c, c.grey = grey → f c node ≠ .error .endless) →
      ∀ {c : Colours α}, c.grey = grey → nodes.foldlM f c ≠ .error .endless
  | [], _, _, _ => nofun
  | node :: nodes, hf, c, hc => by
    rw [foldlM_cons]
    cases hnode : f c node with
    | error e =>
      intro h
      have he : e = .endless := Except.error.inj h
      exact hf node mem_cons_self c hc (he ▸ hnode)
    | ok c₁ =>
      exact foldlM_visit_ne_endless grey hkeep (fun x hx => hf x (mem_cons_of_mem _ hx))
        ((hkeep c node c₁ hnode).trans hc)

/-- The fuel is the number of nodes that can still be opened. -/
theorem visit_ne_endless (hclosed : ∀ x ∈ nodes, succ x ⊆ nodes) :
    ∀ (n : ℕ) (c : Colours α) (node : α), node ∈ nodes →
      (nodes.toFinset \ c.grey.toFinset).card < n → visit succ n c node ≠ .error .endless
  | 0, _, _, _, hn => absurd hn (Nat.not_lt_zero _)
  | n + 1, c, node, hnode, hn => by
    rw [visit]
    split
    case isTrue => exact nofun
    case isFalse hgrey =>
      split
      case isTrue => exact nofun
      case isFalse =>
        -- opening the node leaves one node less to open
        have hless : (nodes.toFinset \ (node :: c.grey).toFinset).card <
            (nodes.toFinset \ c.grey.toFinset).card := by
          refine Finset.card_lt_card ⟨fun x hx => ?_, fun hsub => ?_⟩
          · simp only [Finset.mem_sdiff, mem_toFinset, mem_cons, not_or] at hx ⊢
            exact ⟨hx.1, hx.2.2⟩
          · have hopen : node ∈ nodes.toFinset \ c.grey.toFinset := by
              simp only [Finset.mem_sdiff, mem_toFinset]
              exact ⟨hnode, hgrey⟩
            have hopened := hsub hopen
            simp at hopened
        have hfold : (succ node).foldlM (visit succ n) { c with grey := node :: c.grey } ≠
            .error .endless := by
          refine foldlM_visit_ne_endless (node :: c.grey)
            (fun c x c' h => (visits_visit n c x c' h).grey) (fun x hx c' hc' => ?_) rfl
          refine visit_ne_endless hclosed n c' x (hclosed node hnode hx) ?_
          rw [hc']
          exact lt_of_lt_of_le hless (Nat.le_of_lt_succ hn)
        cases hresult : (succ node).foldlM (visit succ n) { c with grey := node :: c.grey } with
        | error e =>
          rw [hresult] at hfold
          intro h
          exact hfold (congrArg _ (Except.error.inj h))
        | ok c₁ => exact nofun

/-- **The search ends**: with more fuel than nodes it never runs out. -/
theorem search_ne_endless (hclosed : ∀ x ∈ nodes, succ x ⊆ nodes) :
    search succ (nodes.length + 1) nodes ≠ .error .endless := by
  refine foldlM_visit_ne_endless []
    (fun c x c' h => (visits_visit _ c x c' h).grey) (fun x hx c hc => ?_) rfl
  refine visit_ne_endless hclosed _ c x hx (Nat.lt_succ_of_le ?_)
  exact (Finset.card_le_card Finset.sdiff_subset).trans (toFinset_card_le nodes)

/-! ## The count -/

/-- What was counted. -/
abbrev Memo (α : Type*) := List (α × ℕ)

/-- Add up the counts of the successors; past the limit the sum stays just above
it. -/
def addUpTo (f : Memo α → α → Option (Memo α × ℕ)) (limit : ℕ) :
    List α → Memo α → ℕ → Option (Memo α × ℕ)
  | [], memo, total => some (memo, total)
  | child :: rest, memo, total =>
    match f memo child with
    | none => none
    | some (memo, k) =>
      if limit < total + k then some (memo, limit + 1) else addUpTo f limit rest memo (total + k)

/-- **The nodes entered along all paths** from a node, itself included. -/
def count (succ : α → List α) (limit : ℕ) : ℕ → Memo α → α → Option (Memo α × ℕ)
  | 0, _, _ => none
  | n + 1, memo, node =>
    match memo.find? fun e => e.1 = node with
    | some e => some (memo, e.2)
    | none =>
      match addUpTo (count succ limit n) limit (succ node) memo 1 with
      | none => none
      | some (memo, total) => some ((node, total) :: memo, total)

/-- The nodes entered along all paths of at most `n` nodes. -/
def entries (succ : α → List α) : ℕ → α → ℕ
  | 0, _ => 0
  | n + 1, node => 1 + ((succ node).map (entries succ n)).sum

omit [DecidableEq α] in
/-- **Entries along a smaller graph**: where `f` takes the successors of a node to
some of the successors of its image, a node enters no more than its image. -/
theorem entries_le_of_sublist {f : β → α}
    (hclosed : ∀ x, S x → ∀ t ∈ succ' x, S t)
    (hsub : ∀ x, S x → ((succ' x).map f).Sublist (succ (f x))) :
    ∀ (n : ℕ) (x : β), S x → entries succ' n x ≤ entries succ n (f x)
  | 0, _, _ => le_refl 0
  | n + 1, x, hx => by
    have heach : ((succ' x).map (entries succ' n)).sum ≤
        ((succ' x).map fun t => entries succ n (f t)).sum :=
      sum_le_sum fun t ht => entries_le_of_sublist hclosed hsub n t (hclosed x hx t ht)
    have hall : (((succ' x).map f).map (entries succ n)).sum ≤
        ((succ (f x)).map (entries succ n)).sum :=
      ((hsub x hx).map _).sum_le_sum fun _ _ => Nat.zero_le _
    rw [map_map] at hall
    exact Nat.add_le_add_left (heach.trans hall) 1

/-- A number below the limit bounds the entries to every depth. -/
def Bounds (succ : α → List α) (limit : ℕ) (node : α) (k : ℕ) : Prop :=
  k ≤ limit → ∀ n, entries succ n node ≤ k

def MemoSound (succ : α → List α) (limit : ℕ) (memo : Memo α) : Prop :=
  ∀ e ∈ memo, Bounds succ limit e.1 e.2

variable {f : Memo α → α → Option (Memo α × ℕ)} {limit : ℕ}

omit [DecidableEq α] in
theorem bounds_of_addUpTo
    (hf : ∀ memo node memo' k, MemoSound succ limit memo → f memo node = some (memo', k) →
      MemoSound succ limit memo' ∧ Bounds succ limit node k) :
    ∀ {rest : List α} {memo memo' : Memo α} {total k : ℕ}, MemoSound succ limit memo →
      addUpTo f limit rest memo total = some (memo', k) → MemoSound succ limit memo' ∧
        (k ≤ limit → ∀ n, total + (rest.map (entries succ n)).sum ≤ k)
  | [], memo, memo', total, k, hmemo, h => by
    obtain ⟨rfl, rfl⟩ := Prod.mk.inj (Option.some.inj h)
    exact ⟨hmemo, fun _ _ => le_refl _⟩
  | child :: rest, memo, memo', total, k, hmemo, h => by
    rw [addUpTo] at h
    split at h
    next => cases h
    next memo₁ k₁ hchild =>
      obtain ⟨hmemo₁, hbounds⟩ := hf memo child memo₁ k₁ hmemo hchild
      split at h
      case isTrue =>
        obtain ⟨rfl, rfl⟩ := Prod.mk.inj (Option.some.inj h)
        exact ⟨hmemo₁, fun hle => absurd hle (Nat.not_succ_le_self limit)⟩
      case isFalse hwithin =>
        obtain ⟨hmemo', hrest⟩ := bounds_of_addUpTo hf hmemo₁ h
        refine ⟨hmemo', fun hle n => ?_⟩
        have hchild' := hbounds (by omega) n
        have hrest' := hrest hle n
        rw [map_cons, sum_cons]
        omega

theorem bounds_of_count : ∀ (n : ℕ) (memo : Memo α) (node : α) (memo' : Memo α) (k : ℕ),
    MemoSound succ limit memo → count succ limit n memo node = some (memo', k) →
      MemoSound succ limit memo' ∧ Bounds succ limit node k
  | 0, _, _, _, _, _, h => nomatch h
  | n + 1, memo, node, memo', k, hmemo, h => by
    rw [count] at h
    split at h
    next e he =>
      obtain ⟨rfl, rfl⟩ := Prod.mk.inj (Option.some.inj h)
      have hnode := find?_some he
      rw [decide_eq_true_eq] at hnode
      exact ⟨hmemo, hnode ▸ hmemo e (mem_of_find?_eq_some he)⟩
    next =>
      split at h
      next => cases h
      next memo₁ total hsum =>
        obtain ⟨rfl, rfl⟩ := Prod.mk.inj (Option.some.inj h)
        obtain ⟨hmemo₁, htotal⟩ := bounds_of_addUpTo (bounds_of_count n) hmemo hsum
        have hbounds : Bounds succ limit node total := by
          intro hle m
          cases m with
          | zero => exact Nat.zero_le _
          | succ m => exact htotal hle m
        refine ⟨fun e he => ?_, hbounds⟩
        rcases mem_cons.mp he with rfl | he
        · exact hbounds
        · exact hmemo₁ e he

/-- **What the count returns below its limit bounds the entries** to every depth. -/
theorem entries_le_of_count {k : ℕ} {memo' : Memo α} {node : α}
    (h : count succ limit fuel [] node = some (memo', k)) (hk : k ≤ limit) (n : ℕ) :
    entries succ n node ≤ k :=
  (bounds_of_count fuel [] node memo' k (fun _ he => absurd he not_mem_nil) h).2 hk n

omit [DecidableEq α] in
theorem addUpTo_isSome :
    ∀ {rest : List α} {memo : Memo α} {total : ℕ}, (∀ memo, ∀ x ∈ rest, (f memo x).isSome) →
      (addUpTo f limit rest memo total).isSome
  | [], _, _, _ => rfl
  | child :: rest, memo, total, hf => by
    rw [addUpTo]
    split
    next hnone =>
      have hsome := hf memo child mem_cons_self
      rw [hnone] at hsome
      cases hsome
    next memo₁ k hchild =>
      split
      case isTrue => rfl
      case isFalse => exact addUpTo_isSome fun memo x hx => hf memo x (mem_cons_of_mem _ hx)

/-- **The count ends** on the nodes of a finished order. -/
theorem count_isSome : ∀ {order : List α}, Finished succ order → ∀ x ∈ order,
    ∀ (fuel : ℕ) (memo : Memo α), order.length ≤ fuel → (count succ limit fuel memo x).isSome
  | [], _, x, hx, _, _, _ => absurd hx not_mem_nil
  | b :: rest, h, x, hx, 0, _, hfuel => absurd hfuel (Nat.not_succ_le_zero _)
  | b :: rest, h, x, hx, fuel + 1, memo, hfuel => by
    have hrest : rest.length ≤ fuel := Nat.le_of_succ_le_succ hfuel
    rcases mem_cons.mp hx with rfl | hx
    · rw [count]
      split
      next => rfl
      next =>
        have hsum : (addUpTo (count succ limit fuel) limit (succ x) memo 1).isSome :=
          addUpTo_isSome fun memo t ht => count_isSome h.2 t (h.1 t ht) fuel memo hrest
        split
        next hnone => rw [hnone] at hsum; cases hsum
        next => rfl
    · exact count_isSome h.2 x hx (fuel + 1) memo (Nat.le_succ_of_le hrest)

end GraphSearch
