import Mathlib

/-!
# Length-prefixed fields

Words over an alphabet, each written as its length in a fixed-width code
followed by its letters. A word read back is the word that was written
(`LengthCode.read_field_append`), whatever follows it; so neither a word in
front of a rest nor a whole sequence of words can be mistaken for another
(`LengthCode.field_append_inj`, `LengthCode.fields_inj`). Nothing is assumed
about the letters: a word may hold what looks like a length.

Lengths from `bound` on have no code, so every statement is about words shorter
than that.
-/

/-- A code for lengths: `width` letters for each length below `bound`. -/
structure LengthCode (α : Type*) where
  /-- how many letters a length takes -/
  width : ℕ
  /-- the first length without a code -/
  bound : ℕ
  /-- the code of a length -/
  encode : ℕ → List α
  /-- the length a code stands for -/
  decode : List α → ℕ
  /-- a length takes at least one letter -/
  width_pos : 0 < width
  /-- the code has fixed width -/
  length_encode : ∀ n, (encode n).length = width
  /-- below the bound the code can be read back -/
  decode_encode : ∀ n, n < bound → decode (encode n) = n

namespace LengthCode

open List

variable {α : Type*} (c : LengthCode α)

/-- A word behind its length. -/
def field (x : List α) : List α := c.encode x.length ++ x

/-- A sequence of words, each behind its length. -/
def fields (xs : List (List α)) : List α := xs.flatMap c.field

/-- Read one word: the word and what follows it, if the buffer is long enough. -/
def read (buf : List α) : Option (List α × List α) :=
  if buf.length < c.width then none
  else
    let n := c.decode (buf.take c.width)
    let rest := buf.drop c.width
    if rest.length < n then none else some (rest.take n, rest.drop n)

@[simp] theorem length_field (x : List α) : (c.field x).length = c.width + x.length := by
  rw [field, length_append, c.length_encode]

@[simp] theorem fields_nil : c.fields [] = [] := rfl

@[simp] theorem fields_cons (x : List α) (xs : List (List α)) :
    c.fields (x :: xs) = c.field x ++ c.fields xs :=
  flatMap_cons

/-- **A field reads back**, whatever follows it. -/
theorem read_field_append {x : List α} (hx : x.length < c.bound) (rest : List α) :
    c.read (c.field x ++ rest) = some (x, rest) := by
  have htake : (c.field x ++ rest).take c.width = c.encode x.length := by
    rw [field, append_assoc]
    exact take_left' (c.length_encode _)
  have hdrop : (c.field x ++ rest).drop c.width = x ++ rest := by
    rw [field, append_assoc]
    exact drop_left' (c.length_encode _)
  unfold read
  rw [if_neg (by rw [length_append, length_field]; omega), htake, hdrop, c.decode_encode _ hx]
  dsimp only
  rw [if_neg (by rw [length_append]; omega), take_left, drop_left]

/-- **A field in front of a rest is determined by the whole.** -/
theorem field_append_inj {x y : List α} (hx : x.length < c.bound) (hy : y.length < c.bound)
    {rest rest' : List α} (h : c.field x ++ rest = c.field y ++ rest') : x = y ∧ rest = rest' := by
  have hread := congrArg c.read h
  rw [c.read_field_append hx, c.read_field_append hy] at hread
  exact Prod.mk.inj (Option.some.inj hread)

/-- **A sequence of fields is determined by its encoding.** -/
theorem fields_inj : ∀ {xs ys : List (List α)}, (∀ x ∈ xs, x.length < c.bound) →
    (∀ y ∈ ys, y.length < c.bound) → c.fields xs = c.fields ys → xs = ys
  | [], [], _, _, _ => rfl
  | [], y :: ys, _, _, h => by
    -- a field is never empty, because its length takes a letter
    have hlen := congrArg List.length h
    have := c.width_pos
    simp only [fields_nil, fields_cons, length_nil, length_append, length_field] at hlen
    omega
  | x :: xs, [], _, _, h => by
    have hlen := congrArg List.length h
    have := c.width_pos
    simp only [fields_nil, fields_cons, length_nil, length_append, length_field] at hlen
    omega
  | x :: xs, y :: ys, hxs, hys, h => by
    rw [fields_cons, fields_cons] at h
    obtain ⟨hxy, hrest⟩ :=
      c.field_append_inj (hxs x mem_cons_self) (hys y mem_cons_self) h
    have htail : xs = ys := fields_inj (fun z hz => hxs z (mem_cons_of_mem _ hz))
      (fun z hz => hys z (mem_cons_of_mem _ hz)) hrest
    rw [hxy, htail]

end LengthCode
