import Mathlib

/-!
# JSON pointers

A pointer names a place in a JSON document by the list of the tokens on the way
there: member names and array indices. In its text every token stands behind a
slash, with `~` and `/` written as `~0` and `~1`. Texts are byte strings, a byte
being written as the character with its code.

Reading and writing are inverse to each other (`decode_encode`, `encode_decode`):
a pointer text stands for one list of tokens and a list of tokens has one text. A
pointer in the fragment of a URI is percent-encoded on top of that; decoding leaves
a text without `%` alone and makes every other text shorter (`length_percentDecode`).
-/

namespace JsonPointer

open List

/-- A byte string. -/
abbrev Text := List Char

/-! ## Tokens -/

/-- A token as it is written in a pointer. -/
def escape (token : Text) : Text :=
  token.flatMap fun c => if c = '~' then ['~', '0'] else if c = '/' then ['~', '1'] else [c]

/-- A written token read back; `~` stands before `0` or `1` only. -/
def unescape : Text → Option Text
  | [] => some []
  | c :: rest =>
    if c = '~' then
      match rest with
      | '0' :: rest => (unescape rest).map ('~' :: ·)
      | '1' :: rest => (unescape rest).map ('/' :: ·)
      | _ => none
    else (unescape rest).map (c :: ·)

theorem escape_cons (c : Char) (rest : Text) : escape (c :: rest) =
      (if c = '~' then ['~', '0'] else if c = '/' then ['~', '1'] else [c]) ++ escape rest := rfl

theorem unescape_of_ne {c : Char} (hc : c ≠ '~') (rest : Text) :
    unescape (c :: rest) = (unescape rest).map (c :: ·) := by
  rw [unescape.eq_def]
  exact if_neg hc

theorem unescape_escape (token : Text) : unescape (escape token) = some token := by
  induction token with
  | nil => rfl
  | cons c rest ih =>
    rw [escape_cons]
    by_cases htilde : c = '~'
    · subst htilde
      simp [unescape, ih]
    · by_cases hslash : c = '/'
      · subst hslash
        simp [unescape, ih]
      · simp [htilde, hslash, unescape_of_ne, ih]

theorem slash_notMem_escape (token : Text) : '/' ∉ escape token := by
  induction token with
  | nil => exact not_mem_nil
  | cons c rest ih =>
    rw [escape_cons, mem_append, not_or]
    refine ⟨?_, ih⟩
    split
    · decide
    · split
      · decide
      · rename_i hslash
        simpa using fun h => hslash h.symm

/-- **A token that can be read is written in one way.** -/
theorem escape_of_unescape {written token : Text} (hslash : '/' ∉ written)
    (h : unescape written = some token) : escape token = written := by
  fun_induction unescape written generalizing token with
  | case1 =>
    cases h
    rfl
  | case2 rest ih | case3 rest ih =>
    obtain ⟨tail, htail, rfl⟩ := Option.map_eq_some_iff.mp h
    rw [escape_cons, ih (fun hmem => hslash (by simp [hmem])) htail]
    rfl
  | case4 => cases h
  | case5 c rest htilde ih =>
    obtain ⟨tail, htail, rfl⟩ := Option.map_eq_some_iff.mp h
    have hc : c ≠ '/' := fun hc => hslash (hc ▸ mem_cons_self)
    rw [escape_cons, ih (fun hmem => hslash (mem_cons_of_mem _ hmem)) htail, if_neg htilde,
      if_neg hc]
    rfl

/-! ## Splitting -/

/-- The parts between the slashes. -/
def split : Text → List Text
  | [] => [[]]
  | c :: rest =>
    if c = '/' then [] :: split rest
    else
      match split rest with
      | [] => [[c]]
      | part :: parts => (c :: part) :: parts

theorem split_ne_nil : ∀ (text : Text), split text ≠ []
  | [] => cons_ne_nil _ _
  | c :: rest => by
    rw [split]
    split
    · exact cons_ne_nil _ _
    · split <;> exact cons_ne_nil _ _

theorem split_of_notMem : ∀ {part : Text}, '/' ∉ part → split part = [part]
  | [], _ => rfl
  | c :: rest, h => by
    have hc : c ≠ '/' := fun hc => h (hc ▸ mem_cons_self)
    rw [split, if_neg hc, split_of_notMem fun hmem => h (mem_cons_of_mem _ hmem)]

theorem split_append_slash : ∀ {part : Text} (rest : Text), '/' ∉ part →
    split (part ++ '/' :: rest) = part :: split rest
  | [], rest, _ => by
    rw [nil_append, split, if_pos rfl]
  | c :: part, rest, h => by
    have hc : c ≠ '/' := fun hc => h (hc ▸ mem_cons_self)
    rw [cons_append, split, if_neg hc,
      split_append_slash rest fun hmem => h (mem_cons_of_mem _ hmem)]

theorem slash_notMem_of_mem_split : ∀ {text part : Text}, part ∈ split text → '/' ∉ part
  | [], part, h => by
    obtain rfl := mem_singleton.mp h
    exact not_mem_nil
  | c :: rest, part, h => by
    rw [split] at h
    split at h
    case isTrue =>
      rcases mem_cons.mp h with rfl | h
      · exact not_mem_nil
      · exact slash_notMem_of_mem_split h
    case isFalse hc =>
      split at h
      next hnil => exact absurd hnil (split_ne_nil rest)
      next first parts hparts =>
        rcases mem_cons.mp h with rfl | h
        · have hfirst : '/' ∉ first := slash_notMem_of_mem_split (hparts ▸ mem_cons_self)
          exact fun hmem => (mem_cons.mp hmem).elim (fun h => hc h.symm) hfirst
        · exact slash_notMem_of_mem_split (hparts ▸ mem_cons_of_mem _ h)

/-- Every part behind a slash: the text again. -/
theorem flatMap_split : ∀ (text : Text), (split text).flatMap ('/' :: ·) = '/' :: text
  | [] => rfl
  | c :: rest => by
    have ih := flatMap_split rest
    rw [split]
    split
    case isTrue hc => rw [flatMap_cons, ih, hc]; rfl
    case isFalse =>
      split
      next hnil => exact absurd hnil (split_ne_nil rest)
      next part parts hparts =>
        rw [hparts, flatMap_cons, cons_append] at ih
        rw [flatMap_cons, cons_append, cons_append, (cons.inj ih).2]

/-! ## Pointers -/

/-- **The text of a list of tokens.** -/
def encode (tokens : List Text) : Text := tokens.flatMap fun token => '/' :: escape token

/-- **The tokens of a pointer text**; the empty text names the whole document. -/
def decode : Text → Option (List Text)
  | [] => some []
  | c :: rest => if c = '/' then (split rest).mapM unescape else none

theorem encode_append (tokens tokens' : List Text) :
    encode (tokens ++ tokens') = encode tokens ++ encode tokens' := flatMap_append

theorem encode_singleton (token : Text) : encode [token] = '/' :: escape token :=
  append_nil _

theorem mapM_unescape_split_encode (token : Text) (tokens : List Text) :
    (split (escape token ++ encode tokens)).mapM unescape = some (token :: tokens) := by
  induction tokens generalizing token with
  | nil =>
    rw [encode, flatMap_nil, append_nil, split_of_notMem (slash_notMem_escape token)]
    simp [unescape_escape]
  | cons token' tokens ih =>
    have hcons : encode (token' :: tokens) = '/' :: (escape token' ++ encode tokens) := rfl
    rw [hcons, split_append_slash _ (slash_notMem_escape token), mapM_cons,
      unescape_escape, ih token']
    rfl

/-- **What is written can be read back.** -/
theorem decode_encode (tokens : List Text) : decode (encode tokens) = some tokens := by
  cases tokens with
  | nil => rfl
  | cons token tokens => exact mapM_unescape_split_encode token tokens

theorem flatMap_escape_of_mapM : ∀ {parts tokens : List Text}, (∀ part ∈ parts, '/' ∉ part) →
    parts.mapM unescape = some tokens → tokens.flatMap (fun t => '/' :: escape t) =
      parts.flatMap ('/' :: ·)
  | [], tokens, _, h => by
    cases h
    rfl
  | part :: parts, tokens, hslash, h => by
    rw [mapM_cons] at h
    obtain ⟨token, htoken, h⟩ := Option.bind_eq_some_iff.mp h
    obtain ⟨rest, hrest, h⟩ := Option.bind_eq_some_iff.mp h
    cases h
    have ih := flatMap_escape_of_mapM (fun p hp => hslash p (mem_cons_of_mem _ hp)) hrest
    rw [flatMap_cons, flatMap_cons, ih, escape_of_unescape (hslash part mem_cons_self) htoken]

/-- **What can be read is written in one way.** -/
theorem encode_decode {text : Text} {tokens : List Text} (h : decode text = some tokens) :
    encode tokens = text := by
  cases text with
  | nil =>
    cases h
    rfl
  | cons c rest =>
    rw [decode] at h
    split at h
    case isTrue hc =>
      subst hc
      rw [encode, flatMap_escape_of_mapM (fun _ => slash_notMem_of_mem_split) h, flatMap_split]
    case isFalse => cases h

theorem encode_injective : Function.Injective encode := fun a b h =>
  Option.some.inj ((decode_encode a).symm.trans (h ▸ decode_encode b))

/-! ## Percent encoding -/

def hexValue (c : Char) : Option ℕ :=
  if '0' ≤ c ∧ c ≤ '9' then some (c.toNat - '0'.toNat)
  else if 'a' ≤ c ∧ c ≤ 'f' then some (c.toNat - 'a'.toNat + 10)
  else if 'A' ≤ c ∧ c ≤ 'F' then some (c.toNat - 'A'.toNat + 10)
  else none

/-- The bytes a percent-encoded text stands for. -/
def percentDecode : Text → Option Text
  | [] => some []
  | c :: rest =>
    if c = '%' then
      match rest with
      | high :: low :: rest =>
        match hexValue high, hexValue low with
        | some h, some l => (percentDecode rest).map (Char.ofNat (16 * h + l) :: ·)
        | _, _ => none
      | _ => none
    else (percentDecode rest).map (c :: ·)

theorem percentDecode_of_ne {c : Char} (hc : c ≠ '%') (rest : Text) :
    percentDecode (c :: rest) = (percentDecode rest).map (c :: ·) := by
  rw [percentDecode.eq_def]
  exact if_neg hc

theorem percentDecode_of_notMem : ∀ {text : Text}, '%' ∉ text → percentDecode text = some text
  | [], _ => rfl
  | c :: rest, h => by
    have hc : c ≠ '%' := fun hc => h (hc ▸ mem_cons_self)
    rw [percentDecode_of_ne hc, percentDecode_of_notMem fun hmem => h (mem_cons_of_mem _ hmem)]
    rfl

/-- **Decoding makes a text with an escape shorter.** -/
theorem length_percentDecode {text decoded : Text} (h : percentDecode text = some decoded) :
    decoded.length ≤ text.length ∧ ('%' ∈ text → decoded.length < text.length) := by
  fun_induction percentDecode text generalizing decoded with
  | case1 =>
    cases h
    exact ⟨le_refl _, fun hmem => absurd hmem not_mem_nil⟩
  | case2 high low rest _ _ _ _ ih =>
    obtain ⟨tail, htail, rfl⟩ := Option.map_eq_some_iff.mp h
    have ih := (ih htail).1
    simp only [length_cons]
    omega
  | case3 | case4 => cases h
  | case5 c rest hc ih =>
    obtain ⟨tail, htail, rfl⟩ := Option.map_eq_some_iff.mp h
    have ih := ih htail
    refine ⟨Nat.succ_le_succ ih.1, fun hmem => Nat.succ_lt_succ (ih.2 ?_)⟩
    exact (mem_cons.mp hmem).resolve_left fun h => hc h.symm

end JsonPointer
