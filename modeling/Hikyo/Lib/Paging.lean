import Mathlib

/-!
# Keyset paging

A table that is read in pages: the rows whose key lies above a cursor, in the
order of the keys, at most `n` at a time; the cursor moves to the last key of
the page and the reading ends with a page that is not full. The loop `scan`
visits the rows in this way until one of them gives an answer.

If the keys are distinct and pages are not empty by size, the loop ends
(`Paging.scan_isSome`), and if it ends without an answer then every row above
the first cursor was visited (`Paging.visited_of_scan`), so nothing hides
between two pages.
-/

namespace Paging

open List

variable {α κ ε β : Type*} [LinearOrder κ]

section

variable (key : α → κ) (rows : List α) (cursor : κ)

/-- The rows above the cursor, in order. -/
def above : List α :=
  (rows.filter fun r => cursor < key r).insertionSort fun r r' => key r ≤ key r'

/-- `SELECT … WHERE key > cursor ORDER BY key LIMIT n`. -/
def page (n : ℕ) : List α :=
  (above key rows cursor).take n

/-- Visit rows until one gives an answer or fails. -/
def firstAnswer (visit : α → Except ε (Option β)) : List α → Except ε (Option β)
  | [] => .ok none
  | r :: rows =>
    match visit r with
    | .error e => .error e
    | .ok (some b) => .ok (some b)
    | .ok none => firstAnswer visit rows

/-- The cursor behind a page. -/
def advance (rows : List α) : κ :=
  (rows.getLast?.map key).getD cursor

end

/-- Page through a table until a row gives an answer; `none` when the fuel is
used up. -/
def scan (key : α → κ) (rows : List α) (n : ℕ) (visit : α → Except ε (Option β)) :
    ℕ → κ → Option (Except ε (Option β))
  | 0, _ => none
  | fuel + 1, cursor =>
    match firstAnswer visit (page key rows cursor n) with
    | .error e => some (.error e)
    | .ok (some b) => some (.ok (some b))
    | .ok none =>
      if (page key rows cursor n).length < n then some (.ok none)
      else scan key rows n visit fuel (advance key cursor (page key rows cursor n))

variable {key : α → κ} {rows : List α} {n : ℕ} {visit : α → Except ε (Option β)}

variable {cursor : κ}

theorem mem_above {r : α} : r ∈ above key rows cursor ↔ r ∈ rows ∧ cursor < key r := by
  rw [above, mem_insertionSort, mem_filter, decide_eq_true_iff]

theorem firstAnswer_eq_none {l : List α} (h : firstAnswer visit l = .ok none) :
    ∀ r ∈ l, visit r = .ok none := by
  induction l with
  | nil => exact fun r hr => nomatch hr
  | cons a l ih =>
    rw [firstAnswer] at h
    split at h
    next => cases h
    next => cases h
    next ha => exact forall_mem_cons.mpr ⟨ha, ih h⟩

/-- A page that is not full is the last one. -/
theorem page_eq_above (h : (page key rows cursor n).length < n) :
    page key rows cursor n = above key rows cursor := by
  rw [page, length_take] at h
  exact take_of_length_le (by omega)

/-- A full page moves the cursor to the key of one of its rows. -/
theorem advance_of_full (hn : 0 < n) (h : ¬ (page key rows cursor n).length < n) :
    ∃ last ∈ page key rows cursor n, advance key cursor (page key rows cursor n) = key last := by
  cases hlast : (page key rows cursor n).getLast? with
  | none =>
    rw [getLast?_eq_none_iff] at hlast
    rw [hlast] at h
    exact absurd hn h
  | some last => exact ⟨last, List.mem_of_getLast? hlast, by rw [advance, hlast]; rfl⟩

/-- **What a page leaves out is ahead of the cursor it moves to.** -/
theorem page_or_ahead (hkeys : (rows.map key).Nodup) {last r : α}
    (hlast : last ∈ page key rows cursor n) (hr : r ∈ rows) (hcursor : cursor < key r) :
    r ∈ page key rows cursor n ∨ key last < key r := by
  have hmem : r ∈ page key rows cursor n ++ (above key rows cursor).drop n := by
    rw [page, take_append_drop]
    exact mem_above.mpr ⟨hr, hcursor⟩
  refine (mem_append.mp hmem).imp_right fun hdrop => ?_
  have hsorted : (above key rows cursor).Pairwise fun a b => key a ≤ key b :=
    pairwise_insertionSort _ _
  have hnodup : ((above key rows cursor).map key).Nodup :=
    ((perm_insertionSort _ _).map key).nodup_iff.mpr (hkeys.sublist (filter_sublist.map key))
  -- the page and the rest are two parts of one sorted list with distinct keys
  rw [← take_append_drop n (above key rows cursor)] at hsorted hnodup
  rw [map_append] at hnodup
  refine lt_of_le_of_ne ((pairwise_append.mp hsorted).2.2 last hlast r hdrop) fun heq => ?_
  exact disjoint_of_nodup_append hnodup (mem_map_of_mem hlast)
    (heq ▸ mem_map_of_mem hdrop)

/-- **A scan without an answer visited every row above its first cursor.** -/
theorem visited_of_scan (hn : 0 < n) (hkeys : (rows.map key).Nodup) (fuel : ℕ) :
    ∀ cursor, scan key rows n visit fuel cursor = some (.ok none) →
      ∀ r ∈ rows, cursor < key r → visit r = .ok none := by
  induction fuel with
  | zero => exact fun cursor h => nomatch h
  | succ fuel ih =>
    intro cursor h r hr hcursor
    rw [scan] at h
    split at h
    next => cases h
    next => cases h
    next hpage =>
      have hvisited := firstAnswer_eq_none hpage
      split at h
      case isTrue hshort =>
        exact hvisited r (page_eq_above hshort ▸ mem_above.mpr ⟨hr, hcursor⟩)
      case isFalse hfull =>
        obtain ⟨last, hlast, hadvance⟩ := advance_of_full hn hfull
        rw [hadvance] at h
        rcases page_or_ahead hkeys hlast hr hcursor with hin | hahead
        · exact hvisited r hin
        · exact ih _ h r hr hahead

/-- **The scan ends.** Each full page leaves fewer rows above the cursor. -/
theorem scan_isSome (hn : 0 < n) (fuel : ℕ) :
    ∀ cursor, (rows.filter fun r => cursor < key r).length < fuel →
      (scan key rows n visit fuel cursor).isSome := by
  induction fuel with
  | zero => exact fun cursor h => nomatch h
  | succ fuel ih =>
    intro cursor hfuel
    rw [scan]
    split
    next => rfl
    next => rfl
    next =>
      split
      case isTrue => rfl
      case isFalse hfull =>
        obtain ⟨last, hlast, hadvance⟩ := advance_of_full hn hfull
        obtain ⟨hrows, hcursor⟩ := mem_above.mp (mem_of_mem_take hlast)
        refine ih _ (lt_of_lt_of_le ?_ (Nat.lt_succ_iff.mp hfuel))
        rw [hadvance]
        -- the last row of the page is above the old cursor and not above the new one
        have hsub : (rows.filter fun r => key last < key r).Sublist
            (rows.filter fun r => cursor < key r) :=
          monotone_filter_right rows fun r hr =>
            decide_eq_true (hcursor.trans (of_decide_eq_true hr))
        refine lt_of_le_of_ne hsub.length_le fun heq => ?_
        have hmem : last ∈ rows.filter fun r => cursor < key r :=
          mem_filter.mpr ⟨hrows, decide_eq_true hcursor⟩
        rw [← hsub.eq_of_length heq] at hmem
        exact lt_irrefl _ (of_decide_eq_true (mem_filter.mp hmem).2)

end Paging
