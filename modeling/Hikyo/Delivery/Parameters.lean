import Hikyo.Lib.JsonText
import Hikyo.Authz.Authorize
import Hikyo.Delivery.Manifest

/-!
# Caller parameters of a configuration

A configuration value may refer to parameters, `$\x7bNAME\x7d`, which the caller of a
fetch supplies. The parameters an environment declares, with a pattern for each,
are stored with every snapshot, as are the declarations of the keys that were
templated when it was published; so an old snapshot is resolved as it was
published. Substitution is a single pass: what a caller supplies is never read
again. `$$\x7b` stands for a literal `$\x7b`.

The declared patterns are regular expressions; what they match is left to the
parameter `compile`.
-/

namespace Hikyo.Parameters

open List
open Tx (ensure)

/-- A map from names to texts. -/
abbrev Values := AList fun _ : String => String

/-- The names of a map in order. -/
def names (values : Values) : List String := Table.orderBy id values.keys

def maxCount : ℕ := 32
def maxValueBytes : ℕ := 256
def maxPatternBytes : ℕ := 512

/-- **What a snapshot keeps about parameters**: the declared patterns, and the
declarations of the templated keys. -/
structure Contract where
  version : ℕ
  declarations : Values
  schemas : Values

/-- The stored text of a contract, as far as the JSON decoder decides it. -/
inductive StoredContract where
  | unreadable (detail : String)
  | null
  | object (contract : Contract)

/-! ## Names and supplied values -/

def isNameChar (c : Char) : Bool := ('A' ≤ c ∧ c ≤ 'Z') ∨ ('0' ≤ c ∧ c ≤ '9') ∨ c = '_'

/-- `^[A-Z][A-Z0-9_]\x7b0,63\x7d$` -/
def matchesName (name : String) : Bool :=
  match name.toList with
  | [] => false
  | c :: cs => decide ('A' ≤ c ∧ c ≤ 'Z') && decide (cs.length ≤ 63) && cs.all isNameChar

/-- A control character of Unicode. -/
def isControl (c : Char) : Bool := c.toNat < 0x20 ∨ (0x7f ≤ c.toNat ∧ c.toNat < 0xa0)

def checkName (name : String) : Except String Unit :=
  ensure (matchesName name)
    ("parameter name " ++ RuleError.quoted name ++ " must match ^[A-Z][A-Z0-9_]\x7b0,63\x7d$")

/-- One supplied value. -/
def checkSuppliedValue (name value : String) : Except String Unit := do
  ensure (matchesName name) ("invalid parameter name " ++ RuleError.quoted name)
  ensure ((utf8 value).length ≤ maxValueBytes ∧ ¬ value.toList.any isControl)
    ("parameter " ++ name ++ " must be valid text without control characters, at most " ++
      toString maxValueBytes ++ " bytes")

/-- **What a caller may supply at all.** -/
def checkSupplied (values : Values) : Except String Unit := do
  ensure (values.keys.length ≤ maxCount)
    ("at most " ++ toString maxCount ++ " parameters are allowed")
  values.entries.forM fun p => checkSuppliedValue p.1 p.2

section Patterns

variable (compile : String → Except String (String → Bool))

def checkDeclaration (name pattern : String) : Except String Unit := do
  checkName name
  ensure (0 < (utf8 pattern).length ∧ (utf8 pattern).length ≤ maxPatternBytes)
    ("parameter " ++ name ++ " pattern must contain 1 to " ++ toString maxPatternBytes ++ " bytes")
  ensure ('\x00' ∉ pattern.toList)
    ("parameter " ++ name ++ " pattern must not contain a NUL character")
  match compile pattern with
  | .error detail => .error ("parameter " ++ name ++ " has an invalid pattern: " ++ detail)
  | .ok _ => .ok ()

/-- The supplied value of a declared parameter matches its pattern. -/
def validateDeclared (supplied : Values) (name pattern : String) : Except String Unit := do
  checkDeclaration compile name pattern
  match supplied.lookup name with
  | none => .error ("required parameter " ++ name ++ " is missing")
  | some value =>
    let re ← compile pattern
    ensure (re value) ("parameter " ++ name ++ " does not match its validation pattern")

/-- **Exactly the declared parameters are supplied**, each matching its pattern. -/
def validate (declarations supplied : Values) : Except String Unit := do
  checkSupplied supplied
  (names supplied).forM fun name =>
    ensure (name ∈ declarations) ("undeclared parameter " ++ name)
  (names declarations).forM fun name =>
    validateDeclared compile supplied name ((declarations.lookup name).getD "")

end Patterns

/-! ## Substitution -/

/-- What begins a reference: `$\x7b`. -/
def opening : Bytes := [0x24, 0x7b]

/-- What stands before the first `$\x7b`, and what follows it. -/
def cutReference : Bytes → Option (Bytes × Bytes)
  | [] => none
  | [_] => none
  | a :: b :: rest =>
    if a = 0x24 ∧ b = 0x7b then some ([], rest)
    else (cutReference (b :: rest)).map fun p => (a :: p.1, p.2)

/-- What stands before the first closing brace, and what follows it. -/
def cutBrace : Bytes → Option (Bytes × Bytes)
  | [] => none
  | b :: rest => if b = 0x7d then some ([], rest) else (cutBrace rest).map fun p => (b :: p.1, p.2)

theorem eq_of_cutReference : ∀ {value before after : Bytes},
    cutReference value = some (before, after) →
      value = before ++ opening ++ after ∧ ¬ opening <:+: before
  | [], _, _, h => by simp [cutReference] at h
  | [_], _, _, h => by simp [cutReference] at h
  | a :: b :: rest, before, _, h => by
    have ih := @eq_of_cutReference (b :: rest)
    rw [cutReference] at h
    split at h
    case isTrue hab =>
      simp only [Option.some.injEq, Prod.mk.injEq] at h
      simp [← h.1, h.2, hab, opening]
    case isFalse hab =>
      obtain ⟨⟨lead, _⟩, hcut, hp⟩ := Option.map_eq_some_iff.mp h
      obtain ⟨rfl, rfl⟩ := Prod.mk.inj hp
      obtain ⟨heq, hno⟩ := ih hcut
      refine ⟨congrArg (a :: ·) heq, ?_⟩
      rw [infix_cons_iff, not_or]
      refine ⟨fun hpre => hab ?_, hno⟩
      cases lead with
      | nil => simp [opening] at hpre
      | cons c lead => simp_all [opening]

theorem eq_of_cutBrace : ∀ {value spelled rest : Bytes},
    cutBrace value = some (spelled, rest) → value = spelled ++ 0x7d :: rest ∧ 0x7d ∉ spelled
  | [], _, _, h => by simp [cutBrace] at h
  | b :: value, spelled, _, h => by
    have ih := @eq_of_cutBrace value
    rw [cutBrace] at h
    split at h
    case isTrue hb =>
      simp only [Option.some.injEq, Prod.mk.injEq] at h
      simp [← h.1, h.2, hb]
    case isFalse hb =>
      obtain ⟨⟨lead, _⟩, hcut, hp⟩ := Option.map_eq_some_iff.mp h
      obtain ⟨rfl, rfl⟩ := Prod.mk.inj hp
      obtain ⟨rfl, hno⟩ := ih hcut
      simp [hno, Ne.symm hb]

theorem length_of_cutReference {value before after : Bytes}
    (h : cutReference value = some (before, after)) : after.length < value.length := by
  obtain ⟨rfl, -⟩ := eq_of_cutReference h
  simp [opening]
  omega

theorem length_of_cutBrace {value spelled rest : Bytes}
    (h : cutBrace value = some (spelled, rest)) : rest.length < value.length := by
  obtain ⟨rfl, -⟩ := eq_of_cutBrace h
  simp
  omega

/-- The name a reference spells, if it is one. -/
def referenceName (name : Bytes) : Option String :=
  let text := String.ofList (name.map fun b => Char.ofNat b.toNat)
  if matchesName text then some text else none

/-- The output is bounded, where there is a bound. -/
def checkLength (maxBytes : Option ℕ) (out : Bytes) : Except String Unit :=
  match maxBytes with
  | none => .ok ()
  | some n => ensure (out.length ≤ n) ("resolved config exceeds " ++ toString n ++ " bytes")

/-- **The single pass.** The replacement of a reference may keep a state. -/
def transform {σ : Type} (replacement : σ → String → Except String (σ × Bytes))
    (maxBytes : Option ℕ) (st : σ) (out value : Bytes) : Except String (σ × Bytes) :=
  match hcut : cutReference value with
  | none => do
    checkLength maxBytes (out ++ value)
    .ok (st, out ++ value)
  | some (before, after) =>
    have := length_of_cutReference hcut
    if before.getLast? = some 0x24 then do
      -- the escape: a literal `$\x7b`, read on right after it
      let out := out ++ before.dropLast ++ [0x24, 0x7b]
      checkLength maxBytes out
      transform replacement maxBytes st out after
    else
      match hbrace : cutBrace after with
      | none => .error "invalid parameter reference; expected $\x7bNAME\x7d or $$\x7b"
      | some (spelled, rest) =>
        have := length_of_cutBrace hbrace
        match referenceName spelled with
        | none => .error "invalid parameter reference; expected $\x7bNAME\x7d or $$\x7b"
        | some name => do
          let (st, text) ← replacement st name
          let out := out ++ before ++ text
          checkLength maxBytes out
          transform replacement maxBytes st out rest
termination_by value.length
decreasing_by all_goals omega

/-- The names a value refers to, in order. -/
def references (value : Bytes) : Except String (List String) :=
  (transform (fun refs name => .ok (refs ++ [name], [])) none [] [] value).map Prod.fst

/-- What is supplied for a reference. -/
def supply (supplied : String → Option Bytes) (_ : Unit) (name : String) :
    Except String (Unit × Bytes) :=
  match supplied name with
  | none => .error ("required parameter " ++ name ++ " is missing")
  | some text => .ok ((), text)

/-- **The value with every reference replaced** by the bytes that are supplied for it. -/
def substitute (supplied : String → Option Bytes) (maxBytes : Option ℕ) (value : Bytes) :
    Except String Bytes :=
  (transform (supply supplied) maxBytes () [] value).map Prod.snd

/-- The same with supplied texts and a bound on the result. -/
def resolve (value : Bytes) (supplied : Values) (maxBytes : ℕ) : Except String Bytes :=
  substitute (fun name => (supplied.lookup name).map utf8) (some maxBytes) value

/-! ## The encoding of supplied values -/

/-- A member of an object. -/
def encodeMember (values : Values) (name : String) : JsonText.Text :=
  JsonText.quote name.toList ++ [':'] ++ JsonText.quote ((values.lookup name).getD "").toList

/-- The members of an object with a comma between any two. -/
def encodeMembers (values : Values) : List String → JsonText.Text
  | [] => []
  | [name] => encodeMember values name
  | name :: rest => encodeMember values name ++ [','] ++ encodeMembers values rest

/-- The JSON object of a map, with its members in order. -/
def encode (values : Values) : JsonText.Text :=
  if values.keys = [] then ['\x7b', '\x7d']
  else '\x7b' :: encodeMembers values (names values) ++ ['\x7d']

/-- The bytes of a JSON text. -/
def textBytes (text : JsonText.Text) : Bytes := text.flatMap String.utf8EncodeChar

/-- **The manifest of a fetch with parameters**, which binds what was supplied. -/
def parameterizedManifest (rows : List Delivery.Row) (supplied : Values) : Bytes :=
  let manifest := Delivery.manifest rows
  if supplied.keys = [] then manifest
  else utf8 "hikyo/parameterized-delivery/v1\x00" ++ textBytes (encode supplied) ++ [0] ++ manifest ++ [0]

/-! ## What the parameterized manifest determines -/

theorem hexDigit_ne_nul : ∀ n < 16, JsonText.hexDigit n ≠ '\x00' := by decide

theorem shortEscapes_ne_nul : ∀ e ∈ JsonText.shortEscapes, e.2 ≠ '\x00' := by decide

theorem nul_notMem_escapeChar (c : Char) : '\x00' ∉ JsonText.escapeChar c := by
  unfold JsonText.escapeChar
  split
  next e he =>
    have := shortEscapes_ne_nul e (mem_of_find?_eq_some he)
    simp [this.symm]
  next =>
    split
    case isTrue =>
      have hdigit : ∀ n : ℕ, '\x00' ≠ JsonText.hexDigit (n % 16) := fun n =>
        (hexDigit_ne_nul _ (Nat.mod_lt _ (by decide))).symm
      simp [JsonText.numberEscape, hdigit]
    case isFalse hescaped =>
      -- the character itself is no control character
      intro hc
      rw [mem_singleton] at hc
      exact hescaped (hc ▸ .inl (by decide))

theorem nul_notMem_quote (s : JsonText.Text) : '\x00' ∉ JsonText.quote s := by
  simp [JsonText.quote, nul_notMem_escapeChar]

theorem nul_notMem_encodeMember (values : Values) (name : String) :
    '\x00' ∉ encodeMember values name := by
  simp [encodeMember, nul_notMem_quote]

theorem nul_notMem_encodeMembers (values : Values) : ∀ names : List String,
    '\x00' ∉ encodeMembers values names
  | [] => not_mem_nil
  | [name] => nul_notMem_encodeMember values name
  | name :: next :: rest => by
    simp [encodeMembers, nul_notMem_encodeMember, nul_notMem_encodeMembers values (next :: rest)]

theorem nul_notMem_encode (values : Values) : '\x00' ∉ encode values := by
  unfold encode
  split
  case isTrue => decide
  case isFalse => simp [nul_notMem_encodeMembers]

/-- Only the character with number 0 is written with a byte 0. -/
theorem zero_notMem_utf8EncodeChar {c : Char} (h : c ≠ '\x00') : 0 ∉ String.utf8EncodeChar c := by
  have hval : c.val.toNat ≠ 0 := fun hzero => h (Char.ext (UInt32.toNat_inj.mp hzero))
  have hbyte : ∀ k : ℕ, 0 < k → k < 256 → (0 : UInt8) ≠ UInt8.ofNat k := by
    intro k hpos hlt hzero
    have hk := congrArg UInt8.toNat hzero
    rw [UInt8.toNat_ofNat_of_lt' hlt, UInt8.toNat_zero] at hk
    omega
  unfold String.utf8EncodeChar
  dsimp only
  split_ifs <;> simp only [mem_cons, not_mem_nil, or_false, not_or]
  · exact hbyte _ (by omega) (by omega)
  · exact ⟨hbyte _ (by omega) (by omega), hbyte _ (by omega) (by omega)⟩
  · exact ⟨hbyte _ (by omega) (by omega), hbyte _ (by omega) (by omega),
      hbyte _ (by omega) (by omega)⟩
  · exact ⟨hbyte _ (by omega) (by omega), hbyte _ (by omega) (by omega),
      hbyte _ (by omega) (by omega), hbyte _ (by omega) (by omega)⟩

theorem zero_notMem_textBytes {text : JsonText.Text} (h : '\x00' ∉ text) : 0 ∉ textBytes text := by
  intro hmem
  obtain ⟨c, hc, hbyte⟩ := mem_flatMap.mp hmem
  exact zero_notMem_utf8EncodeChar (fun hnul => h (hnul ▸ hc)) hbyte

/-- **What is behind the first separator is determined**, if nothing before it can
be one. -/
theorem append_separator_inj {α : Type} {sep : α} : ∀ {l l' rest rest' : List α}, sep ∉ l → sep ∉ l' →
    l ++ sep :: rest = l' ++ sep :: rest' → l = l' ∧ rest = rest'
  | [], [], _, _, _, _, h => ⟨rfl, (cons.inj h).2⟩
  | [], b :: l', _, _, _, hl', h => absurd ((cons.inj h).1 ▸ mem_cons_self) hl'
  | a :: l, [], _, _, hl, _, h => absurd ((cons.inj h).1 ▸ mem_cons_self) hl
  | a :: l, b :: l', rest, rest', hl, hl', h => by
    obtain ⟨hab, h⟩ := cons.inj h
    obtain ⟨hll, hrest⟩ := append_separator_inj (fun hm => hl (mem_cons_of_mem _ hm))
      (fun hm => hl' (mem_cons_of_mem _ hm)) h
    exact ⟨by rw [hab, hll], hrest⟩

/-- **Whatever was supplied, the parameterized manifest determines the manifest.** -/
theorem manifest_eq_of_parameterizedManifest_eq {rows rows' : List Delivery.Row}
    {supplied supplied' : Values}
    (h : parameterizedManifest rows supplied = parameterizedManifest rows' supplied') :
    Delivery.manifest rows = Delivery.manifest rows' := by
  have hhead : ∀ (rows : List Delivery.Row) (tail : Bytes),
      Delivery.manifest rows ≠ utf8 "hikyo/parameterized-delivery/v1\x00" ++ tail := by
    intro rows tail heq
    have hlabel : (utf8 "hikyo/parameterized-delivery/v1\x00").head? = some 0x68 := by decide
    have hheads := congrArg List.head? heq
    rw [Delivery.manifest_head, head?_append, hlabel, Option.some_or] at hheads
    exact absurd hheads (by decide)
  unfold parameterizedManifest at h
  dsimp only at h
  split at h <;> split at h
  · exact h
  · simp only [append_assoc] at h
    exact absurd h (hhead _ _)
  · simp only [append_assoc] at h
    exact absurd h.symm (hhead _ _)
  · simp only [append_assoc] at h
    have h := append_cancel_left h
    obtain ⟨-, h⟩ := append_separator_inj (zero_notMem_textBytes (nul_notMem_encode _))
      (zero_notMem_textBytes (nul_notMem_encode _)) h
    exact append_cancel_right h

end Hikyo.Parameters
