import Mathlib

/-!
# JSON texts

Strings and arrays of strings as an encoder writes them. The escapes of a string
are those of an encoder that also keeps its output fit for markup: besides quotes,
backslashes and control characters it escapes `<`, `>`, `&` and the two line
separators of Unicode.

A string in front of a rest reads back (`readString_quote_append`), so neither a
string nor an array of strings in front of a rest can be mistaken for another
(`quote_append_inj`, `array_append_inj`), and an object with fixed member names is
determined by its text, member by member.
-/

namespace JsonText

/-- A text, as a list of characters. -/
abbrev Text := List Char

/-! ## Strings -/

/-- A hexadecimal digit, as the encoder writes it. -/
def hexDigit (n : ℕ) : Char :=
  if n < 10 then Char.ofNat ('0'.toNat + n) else Char.ofNat ('a'.toNat + (n - 10))

/-- The value of a hexadecimal digit. -/
def hexValue (c : Char) : Option ℕ :=
  if '0' ≤ c ∧ c ≤ '9' then some (c.toNat - '0'.toNat)
  else if 'a' ≤ c ∧ c ≤ 'f' then some (c.toNat - 'a'.toNat + 10)
  else if 'A' ≤ c ∧ c ≤ 'F' then some (c.toNat - 'A'.toNat + 10)
  else none

/-- The escapes with a letter of their own. -/
def shortEscapes : List (Char × Char) :=
  [('"', '"'), ('\\', '\\'), ('\x08', 'b'), ('\x0c', 'f'), ('\n', 'n'), ('\r', 'r'), ('\t', 't')]

/-- The characters that are escaped by their number: the other control characters,
and those that markup reads. -/
def NumberEscaped (c : Char) : Prop :=
  c.toNat < 32 ∨ c = '<' ∨ c = '>' ∨ c = '&' ∨ c.toNat = 0x2028 ∨ c.toNat = 0x2029

instance (c : Char) : Decidable (NumberEscaped c) := by
  unfold NumberEscaped
  infer_instance

/-- `\u` and four digits. -/
def numberEscape (c : Char) : Text :=
  ['\\', 'u', hexDigit (c.toNat / 4096 % 16), hexDigit (c.toNat / 256 % 16),
    hexDigit (c.toNat / 16 % 16), hexDigit (c.toNat % 16)]

/-- **One character of a string**, as the encoder writes it. -/
def escapeChar (c : Char) : Text :=
  match shortEscapes.find? fun e => e.1 = c with
  | some e => ['\\', e.2]
  | none => if NumberEscaped c then numberEscape c else [c]

/-- **A string**, as the encoder writes it. -/
def quote (s : Text) : Text := '"' :: (s.flatMap escapeChar ++ ['"'])

/-- The character behind a backslash and a letter. A solidus may stand for itself. -/
def shortValue (e : Char) : Option Char :=
  if e = '/' then some '/' else (shortEscapes.find? fun p => p.2 = e).map Prod.fst

/-- The character of four digits. -/
def numberValue (a b c d : Char) : Option Char :=
  match hexValue a, hexValue b, hexValue c, hexValue d with
  | some a, some b, some c, some d => some (Char.ofNat (a * 4096 + b * 256 + c * 16 + d))
  | _, _, _, _ => none

/-- The characters of a string up to its closing quote, and what follows it. -/
def readBody : Text → Option (Text × Text)
  | [] => none
  | '"' :: rest => some ([], rest)
  | '\\' :: 'u' :: a :: b :: c :: d :: rest =>
    match numberValue a b c d with
    | none => none
    | some ch => (readBody rest).map fun p => (ch :: p.1, p.2)
  | '\\' :: e :: rest =>
    match shortValue e with
    | none => none
    | some ch => (readBody rest).map fun p => (ch :: p.1, p.2)
  | c :: rest => (readBody rest).map fun p => (c :: p.1, p.2)

/-- **A string read back**, with what follows it. -/
def readString : Text → Option (Text × Text)
  | '"' :: rest => readBody rest
  | _ => none

theorem hexValue_hexDigit : ∀ n < 16, hexValue (hexDigit n) = some n := by decide

/-- The numbers of the characters that are escaped by number have four digits. -/
theorem NumberEscaped.toNat_lt {c : Char} (h : NumberEscaped c) : c.toNat < 65536 := by
  rcases h with h | rfl | rfl | rfl | h | h
  · omega
  · decide
  · decide
  · decide
  · omega
  · omega

theorem numberValue_numberEscape {c : Char} (h : c.toNat < 65536) :
    numberValue (hexDigit (c.toNat / 4096 % 16)) (hexDigit (c.toNat / 256 % 16))
      (hexDigit (c.toNat / 16 % 16)) (hexDigit (c.toNat % 16)) = some c := by
  have hdigit : ∀ n, n % 16 < 16 := fun n => Nat.mod_lt n (by decide)
  unfold numberValue
  rw [hexValue_hexDigit _ (hdigit _), hexValue_hexDigit _ (hdigit _),
    hexValue_hexDigit _ (hdigit _), hexValue_hexDigit _ (hdigit _)]
  have hvalue : c.toNat / 4096 % 16 * 4096 + c.toNat / 256 % 16 * 256 + c.toNat / 16 % 16 * 16 +
      c.toNat % 16 = c.toNat := by omega
  show some (Char.ofNat _) = some c
  rw [hvalue, Char.ofNat_toNat]

/-- The short escapes read back. -/
theorem shortValue_of_mem : ∀ e ∈ shortEscapes, e.2 ≠ 'u' ∧ shortValue e.2 = some e.1 := by decide

theorem readBody_backslash {e : Char} (he : e ≠ 'u') {ch : Char} (h : shortValue e = some ch)
    (rest : Text) : readBody ('\\' :: e :: rest) = (readBody rest).map fun p => (ch :: p.1, p.2) := by
  rw [readBody]
  · rw [h]
  · rintro a b c d rest rfl
    exact absurd rfl he

theorem readBody_plain {c : Char} (hquote : c ≠ '"') (hbackslash : c ≠ '\\') (rest : Text) :
    readBody (c :: rest) = (readBody rest).map fun p => (c :: p.1, p.2) := by
  rw [readBody]
  · exact fun h => absurd h hquote
  · exact fun _ _ _ _ _ h => absurd h hbackslash
  · exact fun _ _ h => absurd h hbackslash

/-- **A character written is a character read**, whatever follows it. -/
theorem readBody_escapeChar (c : Char) (rest : Text) :
    readBody (escapeChar c ++ rest) = (readBody rest).map fun p => (c :: p.1, p.2) := by
  unfold escapeChar
  cases hshort : shortEscapes.find? fun e => e.1 = c with
  | some e =>
    have hc := List.find?_some hshort
    rw [decide_eq_true_eq] at hc
    obtain ⟨he, hvalue⟩ := shortValue_of_mem e (List.mem_of_find?_eq_some hshort)
    rw [hc] at hvalue
    exact readBody_backslash he hvalue rest
  | none =>
    dsimp only
    split
    case isTrue hnumber =>
      show readBody ('\\' :: 'u' :: _ :: _ :: _ :: _ :: rest) = _
      rw [readBody, numberValue_numberEscape hnumber.toNat_lt]
    case isFalse =>
      have hnot := List.find?_eq_none.mp hshort
      have hquote : c ≠ '"' := by
        rintro rfl
        exact hnot ('"', '"') (by decide) (by decide)
      have hbackslash : c ≠ '\\' := by
        rintro rfl
        exact hnot ('\\', '\\') (by decide) (by decide)
      exact readBody_plain hquote hbackslash rest

/-- **A string reads back**, whatever follows it. -/
theorem readString_quote_append (s rest : Text) :
    readString (quote s ++ rest) = some (s, rest) := by
  show readBody ((s.flatMap escapeChar ++ ['"']) ++ rest) = _
  induction s with
  | nil => rfl
  | cons c s ih =>
    rw [List.flatMap_cons, List.append_assoc, List.append_assoc, readBody_escapeChar,
      ← List.append_assoc, ih]
    rfl

/-- **A string in front of a rest is determined by the whole.** -/
theorem quote_append_inj {s s' rest rest' : Text} (h : quote s ++ rest = quote s' ++ rest') :
    s = s' ∧ rest = rest' := by
  have hread := congrArg readString h
  rw [readString_quote_append, readString_quote_append] at hread
  exact Prod.mk.inj (Option.some.inj hread)

/-! ## Arrays of strings -/

/-- The strings of an array but for the first, up to the closing bracket. -/
def arrayTail : List Text → Text
  | [] => [']']
  | s :: ss => ',' :: (quote s ++ arrayTail ss)

/-- **An array of strings**; the encoder writes an absent array as `null`. -/
def array : List Text → Text
  | [] => "null".toList
  | s :: ss => '[' :: (quote s ++ arrayTail ss)

theorem arrayTail_append_inj : ∀ {ss ss' : List Text} {rest rest' : Text},
    arrayTail ss ++ rest = arrayTail ss' ++ rest' → ss = ss' ∧ rest = rest'
  | [], [], rest, rest', h => ⟨rfl, (List.cons.inj h).2⟩
  | [], _ :: _, _, _, h => absurd (List.cons.inj h).1 (by decide)
  | _ :: _, [], _, _, h => absurd (List.cons.inj h).1 (by decide)
  | s :: ss, s' :: ss', rest, rest', h => by
    have h' : quote s ++ (arrayTail ss ++ rest) = quote s' ++ (arrayTail ss' ++ rest') := by
      rw [← List.append_assoc, ← List.append_assoc]
      exact (List.cons.inj h).2
    obtain ⟨rfl, htail⟩ := quote_append_inj h'
    obtain ⟨rfl, hrest⟩ := arrayTail_append_inj htail
    exact ⟨rfl, hrest⟩

/-- **An array in front of a rest is determined by the whole.** -/
theorem array_append_inj : ∀ {ss ss' : List Text} {rest rest' : Text},
    array ss ++ rest = array ss' ++ rest' → ss = ss' ∧ rest = rest'
  | [], [], rest, rest', h => ⟨rfl, List.append_cancel_left h⟩
  | [], _ :: _, _, _, h => absurd (List.cons.inj h).1 (by decide)
  | _ :: _, [], _, _, h => absurd (List.cons.inj h).1 (by decide)
  | s :: ss, s' :: ss', _, _, h =>
    -- but for its bracket, the array is the tail of one
    @arrayTail_append_inj (s :: ss) (s' :: ss') _ _ (congrArg (',' :: ·) (List.cons.inj h).2)

end JsonText
