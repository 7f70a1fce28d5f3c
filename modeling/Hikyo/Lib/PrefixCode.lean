import Mathlib

/-!
# Prefix codes

A prefix code writes values as words in such a way that no word starts another.
Words of such codes can be written one after the other without separators and
still be told apart: the value at the front of a text is determined by the text,
whatever follows (`PrefixCode.append_inj`). Codes combine – a pair, a word behind
its length, a list behind its count – and each combination is a prefix code
again, so an encoder that is put together from these parts is injective by
construction.

The base case is the base-128 code of the natural numbers, lowest digits first,
every byte but the last with its high bit set (`PrefixCode.uvarint`), and with it
the integers in zig-zag order (`PrefixCode.varint`).
-/

/-- **A prefix code** of the values `β` by words over `α`. -/
structure PrefixCode (α β : Type*) where
  /-- the word of a value -/
  encode : β → List α
  /-- a word in front of a rest is determined by the whole -/
  append_inj : ∀ {x y : β} {rest rest' : List α},
    encode x ++ rest = encode y ++ rest' → x = y ∧ rest = rest'

namespace PrefixCode

open List

variable {α β γ : Type*}

theorem encode_injective (c : PrefixCode α β) : Function.Injective c.encode := fun x y h =>
  (c.append_inj (show c.encode x ++ [] = c.encode y ++ [] by rw [h])).1

/-! ## Combinations -/

/-- Values that an injection takes to coded ones. -/
def comap (c : PrefixCode α β) (f : γ → β) (hf : Function.Injective f) : PrefixCode α γ where
  encode x := c.encode (f x)
  append_inj h := (c.append_inj h).imp_left fun hxy => hf hxy

/-- One value after the other. -/
def prod (c : PrefixCode α β) (d : PrefixCode α γ) : PrefixCode α (β × γ) where
  encode x := c.encode x.1 ++ d.encode x.2
  append_inj {x y _ _} h := by
    rw [append_assoc, append_assoc] at h
    obtain ⟨hfst, h⟩ := c.append_inj h
    obtain ⟨hsnd, h⟩ := d.append_inj h
    exact ⟨Prod.ext hfst hsnd, h⟩

/-- **A word behind its length.** The letters need no code of their own. -/
def field (n : PrefixCode α ℕ) : PrefixCode α (List α) where
  encode w := n.encode w.length ++ w
  append_inj h := by
    rw [append_assoc, append_assoc] at h
    obtain ⟨hlength, h⟩ := n.append_inj h
    exact List.append_inj h hlength

/-- Lists of equal length, written one value after the other. -/
theorem flatMap_append_inj (c : PrefixCode α β) : ∀ {xs ys : List β} {rest rest' : List α},
    xs.length = ys.length → xs.flatMap c.encode ++ rest = ys.flatMap c.encode ++ rest' →
    xs = ys ∧ rest = rest'
  | [], [], _, _, _, h => ⟨rfl, h⟩
  | [], _ :: _, _, _, hlength, _ => nomatch hlength
  | _ :: _, [], _, _, hlength, _ => nomatch hlength
  | x :: xs, y :: ys, _, _, hlength, h => by
    rw [flatMap_cons, flatMap_cons, append_assoc, append_assoc] at h
    obtain ⟨hxy, h⟩ := c.append_inj h
    obtain ⟨htail, h⟩ := c.flatMap_append_inj (Nat.succ.inj hlength) h
    exact ⟨by rw [hxy, htail], h⟩

/-- **A list behind its count.** -/
def counted (n : PrefixCode α ℕ) (c : PrefixCode α β) : PrefixCode α (List β) where
  encode xs := n.encode xs.length ++ xs.flatMap c.encode
  append_inj h := by
    rw [append_assoc, append_assoc] at h
    obtain ⟨hlength, h⟩ := n.append_inj h
    exact c.flatMap_append_inj hlength h

/-! ## Numbers -/

/-- The base-128 digits of `x`, with as many continuations as `fuel` allows. -/
def uvarintBytes : ℕ → ℕ → List UInt8
  | 0, x => [x.toUInt8]
  | fuel + 1, x =>
    if x < 128 then [x.toUInt8] else (x % 128 + 128).toUInt8 :: uvarintBytes fuel (x / 128)

/-- The number at the front of a text: the first byte below 128 ends it. -/
def readUvarint : List UInt8 → Option (ℕ × List UInt8)
  | [] => none
  | b :: rest =>
    if b.toNat < 128 then some (b.toNat, rest)
    else (readUvarint rest).map fun r => (128 * r.1 + (b.toNat - 128), r.2)

theorem toNat_toUInt8 {x : ℕ} (h : x < 256) : x.toUInt8.toNat = x :=
  (Nat.toUInt8_eq ▸ UInt8.toNat_ofNat_of_lt' h)

theorem readUvarint_last {x : ℕ} (h : x < 128) (rest : List UInt8) :
    readUvarint (x.toUInt8 :: rest) = some (x, rest) := by
  rw [readUvarint, toNat_toUInt8 (by omega), if_pos h]

/-- **A number reads back**, whatever follows it. -/
theorem readUvarint_append : ∀ {fuel x : ℕ} (rest : List UInt8), x ≤ fuel →
    readUvarint (uvarintBytes fuel x ++ rest) = some (x, rest)
  | 0, x, rest, hfuel => readUvarint_last (by omega) rest
  | fuel + 1, x, rest, hfuel => by
    rw [uvarintBytes]
    split
    case isTrue hx => exact readUvarint_last hx rest
    case isFalse hx =>
      rw [cons_append, readUvarint, toNat_toUInt8 (by omega), if_neg (by omega),
        readUvarint_append rest (by omega), Option.map_some]
      exact congrArg some (Prod.ext (by dsimp only; omega) rfl)

/-- **Unsigned base-128 numbers.** -/
def uvarint : PrefixCode UInt8 ℕ where
  encode x := uvarintBytes x x
  append_inj {x y rest rest'} h := by
    have hread := congrArg readUvarint h
    rw [readUvarint_append rest (le_refl x), readUvarint_append rest' (le_refl y)] at hread
    exact Prod.mk.inj (Option.some.inj hread)

/-- The integers in zig-zag order: 0, -1, 1, -2, 2, … -/
def zigzag (x : ℤ) : ℕ := if 0 ≤ x then 2 * x.toNat else 2 * (-x).toNat - 1

theorem zigzag_injective : Function.Injective zigzag := by
  intro x y h
  unfold zigzag at h
  split at h <;> split at h <;> omega

/-- **Signed base-128 numbers.** -/
def varint : PrefixCode UInt8 ℤ := uvarint.comap zigzag zigzag_injective

example : uvarint.encode 300 = [0xac, 0x02] := by decide

end PrefixCode
