import Mathlib

/-!
# Fresh names below separated paths

A test over an infinite space of names is often carried out on finitely many
representatives: the names that are mentioned, and one fresh name for all the
others. This module has the two general facts such a test rests on.

The first is about the search for a fresh name. A loop that tries the indices
`0, 1, 2, …` until one is free stops after at most as many steps as there are
names, as soon as each name rules out at most one index.

The second is about paths – words over an alphabet with a separator – ordered
by "lies at or below". Every path is indistinguishable, for the paths of a
finite list, from one that is on the list or from a fresh child of one that is
(`SepPath.exists_representative`).
-/

/-! ## Searching for a free index -/

namespace FreshIndex

/-- The first index from `i` on that is not taken, looked for during at most
`fuel` steps. -/
def firstFree (taken : ℕ → Bool) : ℕ → ℕ → ℕ
  | 0, i => i
  | fuel + 1, i => if taken i then firstFree taken fuel (i + 1) else i

/-- **With enough fuel the search finds a free index.** -/
theorem firstFree_free (taken : ℕ → Bool) (fuel : ℕ) :
    ∀ i, (∃ j, i ≤ j ∧ j < i + fuel ∧ taken j = false) →
      taken (firstFree taken fuel i) = false := by
  induction fuel with
  | zero =>
    rintro i ⟨j, hij, hj, -⟩
    omega
  | succ fuel ih =>
    rintro i ⟨j, hij, hj, hfree⟩
    unfold firstFree
    split
    case isTrue htaken =>
      -- the witness is not `i` itself, so it is still ahead of the search
      have hne : i ≠ j := by
        rintro rfl
        rw [hfree] at htaken
        exact Bool.noConfusion htaken
      exact ih (i + 1) ⟨j, by omega, by omega, hfree⟩
    case isFalse htaken => exact Bool.eq_false_iff.mpr htaken

/-- **Fewer names than indices.** If each name rules out at most one index,
then one of the first `names.length + 1` indices is ruled out by none. -/
theorem exists_unblocked {α : Type*} (names : List α) (blocks : α → ℕ → Prop)
    (huniq : ∀ a ∈ names, ∀ i j, blocks a i → blocks a j → i = j) :
    ∃ i, i < names.length + 1 ∧ ∀ a ∈ names, ¬ blocks a i := by
  classical
  by_contra hall
  have hblock : ∀ i, i < names.length + 1 → ∃ a ∈ names, blocks a i := by
    intro i hi
    by_contra hnone
    exact hall ⟨i, hi, fun a ha hb => hnone ⟨a, ha, hb⟩⟩
  have hpick : ∀ i : ℕ, ∃ a : Option α, i < names.length + 1 →
      ∃ b ∈ names, a = some b ∧ blocks b i := by
    intro i
    by_cases hi : i < names.length + 1
    · obtain ⟨b, hb, hbi⟩ := hblock i hi
      exact ⟨some b, fun _ => ⟨b, hb, rfl, hbi⟩⟩
    · exact ⟨none, fun h => absurd h hi⟩
  choose pick hpick using hpick
  have hcard : (names.toFinset.image some).card < (Finset.range (names.length + 1)).card := by
    rw [Finset.card_range]
    exact Nat.lt_succ_of_le (Finset.card_image_le.trans (List.toFinset_card_le names))
  obtain ⟨i, hi, j, hj, hij, heq⟩ :=
    Finset.exists_ne_map_eq_of_card_lt_of_maps_to hcard (f := pick) (by
      intro i hi
      obtain ⟨b, hb, hpb, -⟩ := hpick i (Finset.mem_range.mp hi)
      rw [hpb]
      exact Finset.mem_image_of_mem some (List.mem_toFinset.mpr hb))
  obtain ⟨a, ha, hpa, hai⟩ := hpick i (Finset.mem_range.mp hi)
  obtain ⟨b, -, hpb, hbj⟩ := hpick j (Finset.mem_range.mp hj)
  have hab : b = a := Option.some.inj (hpb.symm.trans (heq.symm.trans hpa))
  subst hab
  exact hij (huniq _ ha i j hai hbj)

/-- The search started at `0` with one step more than there are names ends on
an index that no name rules out. -/
theorem firstFree_of_blocks {α : Type*} (names : List α) (blocks : α → ℕ → Prop)
    (taken : ℕ → Bool) (htaken : ∀ i, taken i = true ↔ ∃ a ∈ names, blocks a i)
    (huniq : ∀ a ∈ names, ∀ i j, blocks a i → blocks a j → i = j) :
    ∀ a ∈ names, ¬ blocks a (firstFree taken (names.length + 1) 0) := by
  obtain ⟨i, hi, hfree⟩ := exists_unblocked names blocks huniq
  have hfree' : taken i = false := by
    rw [← Bool.not_eq_true, htaken]
    rintro ⟨a, ha, hb⟩
    exact hfree a ha hb
  have hres := firstFree_free taken (names.length + 1) 0 ⟨i, Nat.zero_le i, by omega, hfree'⟩
  intro a ha hb
  rw [← Bool.not_eq_true, htaken] at hres
  exact hres ⟨a, ha, hb⟩

end FreshIndex

/-! ## Paths over an alphabet with a separator -/

namespace SepPath

open List

variable {α : Type*} {sep : α}

/-- `f` lies at or below `a`. The empty path is a place of its own: nothing
but itself lies at or below it. -/
def Within (sep : α) (f a : List α) : Prop :=
  f = a ∨ a ≠ [] ∧ a ++ [sep] <+: f

/-- The path `seg` below `a`, the separator being left out below the empty
path. -/
def child (sep : α) (a seg : List α) : List α :=
  if a = [] then seg else a ++ sep :: seg

theorem child_nil (sep : α) (seg : List α) : child sep [] seg = seg :=
  if_pos rfl

theorem child_of_ne_nil {a : List α} (ha : a ≠ []) (seg : List α) :
    child sep a seg = a ++ sep :: seg :=
  if_neg ha

/-- **A segment hides no separator.** A path ending in the separator that
begins `b ++ sep :: seg` already begins `b ++ [sep]`, when `seg` is free of
separators. -/
theorem prefix_of_prefix_append_segment {a b seg : List α} (hseg : sep ∉ seg)
    (h : a ++ [sep] <+: b ++ sep :: seg) : a ++ [sep] <+: b ++ [sep] := by
  have hb : b ++ [sep] <+: b ++ sep :: seg := by
    rw [show b ++ sep :: seg = (b ++ [sep]) ++ seg by simp]
    exact prefix_append _ _
  rcases Nat.lt_or_ge (b ++ [sep]).length (a ++ [sep]).length with hlt | hge
  · obtain ⟨t, ht⟩ := prefix_of_prefix_length_le hb h hlt.le
    -- what `a ++ [sep]` has beyond `b ++ [sep]` ends in the separator, inside `seg`
    have htne : t ≠ [] := by
      rintro rfl
      rw [← ht, append_nil] at hlt
      exact lt_irrefl _ hlt
    have htseg : t <+: seg := by
      rw [← ht, show b ++ sep :: seg = (b ++ [sep]) ++ seg by simp] at h
      exact (prefix_append_right_inj _).mp h
    have hlast : t.getLast htne = sep := by
      have hcat : (b ++ [sep] ++ t).getLast (by simp) = sep := by
        simp only [ht, getLast_append_singleton]
      rwa [getLast_append_of_ne_nil _ htne] at hcat
    exact absurd (htseg.subset (hlast ▸ getLast_mem htne)) hseg
  · exact prefix_of_prefix_length_le h hb hge

/-- Two segments free of separators that both begin the same word, each
followed by the separator, are equal. -/
theorem segment_eq_of_prefix {u v t : List α} (hu : sep ∉ u) (hv : sep ∉ v)
    (hut : u ++ [sep] <+: t) (hvt : v ++ [sep] <+: t) : u = v := by
  have hle : ∀ {x y : List α}, sep ∉ y → x ++ [sep] <+: y ++ [sep] → x = y := by
    intro x y hy hxy
    rcases prefix_concat_iff.mp hxy with heq | hpre
    · exact append_cancel_right heq
    · exact absurd (hpre.subset (by simp)) hy
  rcases Nat.le_total (u ++ [sep]).length (v ++ [sep]).length with h | h
  · exact hle hv (prefix_of_prefix_length_le hut hvt h)
  · exact (hle hu (prefix_of_prefix_length_le hvt hut h)).symm

/-- A path at or below `a` begins, once closed by a separator, with `a` closed
by a separator. -/
theorem Within.prefix_concat {f a : List α} (h : Within sep f a) : a ++ [sep] <+: f ++ [sep] := by
  rcases h with rfl | ⟨-, h⟩
  · exact prefix_rfl
  · exact h.trans (prefix_append _ _)

theorem Within.trans {f a b : List α} (hfa : Within sep f a) (hab : Within sep a b) :
    Within sep f b := by
  rcases hfa with rfl | ⟨hane, hpre⟩
  · exact hab
  · rcases hab with rfl | ⟨hbne, hpre'⟩
    · exact .inr ⟨hane, hpre⟩
    · exact .inr ⟨hbne, hpre'.trans ((prefix_append _ _).trans hpre)⟩

/-- **A path is at or below at most one of the children of a given path.** -/
theorem child_segment_unique {a n u v : List α} (hu : sep ∉ u) (hv : sep ∉ v)
    (hnu : Within sep n (child sep a u)) (hnv : Within sep n (child sep a v)) : u = v := by
  have hpu := hnu.prefix_concat
  have hpv := hnv.prefix_concat
  by_cases ha : a = []
  · subst ha
    rw [child_nil] at hpu hpv
    exact segment_eq_of_prefix hu hv hpu hpv
  · have hsplit : ∀ w : List α, child sep a w ++ [sep] = (a ++ [sep]) ++ (w ++ [sep]) := by
      intro w
      rw [child_of_ne_nil ha]
      simp
    rw [hsplit] at hpu hpv
    obtain ⟨t, ht⟩ := (prefix_append _ _).trans hpu
    rw [← ht] at hpu hpv
    exact segment_eq_of_prefix hu hv ((prefix_append_right_inj _).mp hpu)
      ((prefix_append_right_inj _).mp hpv)

/-- A fresh child of `a` lies at or below exactly the paths `n` such that
`n ++ [sep]` begins `a ++ [sep]`, its own place apart. -/
theorem within_child_iff {a n seg : List α} (hseg : sep ∉ seg) (ha : a ≠ [])
    (hne : child sep a seg ≠ n) :
    Within sep (child sep a seg) n ↔ n ≠ [] ∧ n ++ [sep] <+: a ++ [sep] := by
  rw [Within, or_iff_right hne, child_of_ne_nil ha]
  refine and_congr_right fun _ => ⟨prefix_of_prefix_append_segment hseg, fun h => h.trans ?_⟩
  rw [show a ++ sep :: seg = (a ++ [sep]) ++ seg by simp]
  exact prefix_append _ _

/-- **Representatives of all paths.** Let `named` be a list of paths with the
empty path on it, and let each of them have a fresh child, at or above no named
path. Then every path is at or below the same named paths, and equal to the
same named paths, as some named path or some fresh child. -/
theorem exists_representative (sep : α) (named : List (List α)) (fresh : List α → List α)
    (hroot : [] ∈ named) (hseg : ∀ a ∈ named, sep ∉ fresh a)
    (hfree : ∀ a ∈ named, ∀ n ∈ named, ¬ Within sep n (child sep a (fresh a))) (f : List α) :
    ∃ g ∈ named ++ named.map (fun a => child sep a (fresh a)), ∀ n ∈ named,
      (Within sep f n ↔ Within sep g n) ∧ (f = n ↔ g = n) := by
  classical
  by_cases hf : f ∈ named
  · exact ⟨f, mem_append_left _ hf, fun n _ => ⟨Iff.rfl, Iff.rfl⟩⟩
  have hfn : ∀ n ∈ named, f ≠ n := fun n hn h => hf (h ▸ hn)
  have hchild : ∀ a ∈ named, ∀ n ∈ named, child sep a (fresh a) ≠ n :=
    fun a ha n hn h => hfree a ha n hn (.inl h.symm)
  let above := named.toFinset.filter (fun a => a ≠ [] ∧ a ++ [sep] <+: f)
  have habove : ∀ n ∈ named, n ∈ above ↔ Within sep f n := by
    intro n hn
    rw [Finset.mem_filter, mem_toFinset, Within, or_iff_right (hfn n hn)]
    exact and_iff_right hn
  rcases above.eq_empty_or_nonempty with hempty | hne
  · -- no named ancestor: the fresh child of the empty path stands for `f`
    refine ⟨child sep [] (fresh []), mem_append_right _ (mem_map_of_mem hroot),
      fun n hn => ⟨?_, iff_of_false (hfn n hn) (hchild _ hroot n hn)⟩⟩
    rw [← habove n hn, hempty]
    refine iff_of_false (Finset.notMem_empty n) ?_
    rintro (heq | ⟨-, hpre⟩)
    · exact hchild _ hroot n hn heq
    · rw [child_nil] at hpre
      exact hseg _ hroot (hpre.subset (by simp))
  · -- the longest named ancestor has the same named ancestors as `f`
    obtain ⟨a, haabove, hmax⟩ := Finset.exists_max_image above List.length hne
    obtain ⟨hamem, hane, hapre⟩ := Finset.mem_filter.mp haabove
    have ha : a ∈ named := mem_toFinset.mp hamem
    refine ⟨child sep a (fresh a), mem_append_right _ (mem_map_of_mem ha),
      fun n hn => ⟨?_, iff_of_false (hfn n hn) (hchild _ ha n hn)⟩⟩
    rw [within_child_iff (hseg _ ha) hane (hchild _ ha n hn), Within, or_iff_right (hfn n hn)]
    refine and_congr_right fun hnne => ⟨fun h => ?_, fun h => h.trans hapre⟩
    have hlen : n.length ≤ a.length :=
      hmax n (Finset.mem_filter.mpr ⟨mem_toFinset.mpr hn, hnne, h⟩)
    exact prefix_of_prefix_length_le h hapre (by simpa using hlen)

end SepPath
