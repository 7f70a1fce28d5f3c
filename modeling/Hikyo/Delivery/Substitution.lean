import Hikyo.Delivery.Parameters

/-!
# Substitution is a single pass, and it can be escaped

`transform` looks for `$\x7b`, looks one byte back for the escape and starts again
behind what it has read, where it no longer sees that byte. `Reads` says what a value
reads as without a scanner: the literal texts and the references that stand in it, one
after the other. `transform` goes through exactly these parts (`transform_of_reads`),
and a value that has none is refused (`reads_of_transform`).

What is supplied for a reference is written as it is: it is behind the reading, and no
byte of it is read again.
-/

namespace Hikyo.Parameters

open List
open Tx (bind_ok)

/-- A part of a value. -/
inductive Part where
  | literal (text : Bytes)
  | reference (name : String)

def Part.name? : Part → Option String
  | .literal _ => none
  | .reference name => some name

/-- What a part stands for. -/
def Part.text (supplied : String → Option Bytes) : Part → Bytes
  | .literal text => text
  | .reference name => (supplied name).getD []

/-- **What a value reads as**: what stands before the first `$\x7b`, then the escape or
the reference that it is, and so on behind that. -/
inductive Reads : Bytes → List Part → Prop where
  | plain {value : Bytes} : ¬ opening <:+: value → Reads value [.literal value]
  | escape {before after : Bytes} {parts : List Part} : ¬ opening <:+: before ++ [0x24] →
      Reads after parts → Reads (before ++ [0x24] ++ opening ++ after)
        (.literal (before ++ opening) :: parts)
  | reference {before spelled rest : Bytes} {parts : List Part} {name : String} :
      ¬ opening <:+: before → before.getLast? ≠ some 0x24 → 0x7d ∉ spelled →
      referenceName spelled = some name → Reads rest parts →
      Reads (before ++ opening ++ (spelled ++ 0x7d :: rest))
        (.literal before :: .reference name :: parts)

/-! ## The two cuts -/

section Reading

variable {σ : Type} {value before after spelled rest : Bytes} {parts : List Part}

theorem cutReference_eq_none : ∀ {value : Bytes}, cutReference value = none ↔ ¬ opening <:+: value
  | [] => by simp [cutReference, opening]
  | [a] => by simp [cutReference, opening, infix_cons_iff]
  | a :: b :: rest => by
    have ih := @cutReference_eq_none (b :: rest)
    rw [cutReference, infix_cons_iff]
    split
    case isTrue h => simp [opening, h]
    case isFalse h =>
      rw [Option.map_eq_none_iff, ih, not_or]
      refine (and_iff_right ?_).symm
      simpa [opening, eq_comm] using h

theorem cutReference_append : ∀ {before : Bytes}, ¬ opening <:+: before →
    cutReference (before ++ opening ++ after) = some (before, after)
  | [], _ => by simp [opening, cutReference]
  | [a], _ => by simp [opening, cutReference]
  | a :: b :: before, h => by
    rw [infix_cons_iff, not_or] at h
    have hne : ¬ (a = 0x24 ∧ b = 0x7b) := by simpa [opening, eq_comm] using h.1
    have ih : cutReference (b :: (before ++ opening ++ after)) = some (b :: before, after) :=
      cutReference_append h.2
    show cutReference (a :: b :: (before ++ opening ++ after)) = _
    rw [cutReference, if_neg hne, ih]
    rfl

theorem cutBrace_append : ∀ {spelled : Bytes}, 0x7d ∉ spelled →
    cutBrace (spelled ++ 0x7d :: rest) = some (spelled, rest)
  | [], _ => by simp [cutBrace]
  | b :: spelled, h => by
    rw [mem_cons, not_or] at h
    have ih := @cutBrace_append spelled h.2
    simp [cutBrace, ih, Ne.symm h.1]

/-! ## The pass goes through the parts -/

/-- One part, in the pass. -/
def takePart (replacement : σ → String → Except String (σ × Bytes)) (acc : σ × Bytes) :
    Part → Except String (σ × Bytes)
  | .literal text => .ok (acc.1, acc.2 ++ text)
  | .reference name => do
    let (st, text) ← replacement acc.1 name
    .ok (st, acc.2 ++ text)

variable {replacement : σ → String → Except String (σ × Bytes)} {st : σ} {out : Bytes}

/-- **The pass is the reading, part by part.** -/
theorem transform_of_reads (h : Reads value parts) (st : σ) (out : Bytes) :
    transform replacement none st out value = parts.foldlM (takePart replacement) (st, out) := by
  induction h generalizing st out with
  | plain hno =>
    unfold transform
    split
    next => rfl
    next hcut => cases hcut.symm.trans (cutReference_eq_none.mpr hno)
  | escape hno _ ih =>
    unfold transform
    split
    next hcut => cases hcut.symm.trans (cutReference_append hno)
    next hcut =>
      cases hcut.symm.trans (cutReference_append hno)
      rw [if_pos (by simp)]
      show transform replacement none st _ _ = List.foldlM _ (st, _) _
      rw [ih, dropLast_concat, append_assoc]
      rfl
  | @reference before spelled rest parts name hno hlast hbrace hname _ ih =>
    unfold transform
    split
    next hcut => cases hcut.symm.trans (cutReference_append hno)
    next hcut =>
      cases hcut.symm.trans (cutReference_append hno)
      rw [if_neg hlast]
      split
      next hcut => cases hcut.symm.trans (cutBrace_append hbrace)
      next hcut =>
        cases hcut.symm.trans (cutBrace_append hbrace)
        rw [hname]
        show (replacement st name >>= _) =
          ((replacement st name >>= fun p => .ok (p.1, out ++ before ++ p.2)) >>= _)
        cases replacement st name with
        | error err => rfl
        | ok p => exact ih p.1 _

/-- **Only what reads is accepted.** -/
theorem reads_of_transform {r : σ × Bytes} (h : transform replacement none st out value = .ok r) :
    ∃ parts, Reads value parts := by
  fun_induction transform replacement none st out value generalizing r with
  | case1 st out value hcut => exact ⟨_, .plain (cutReference_eq_none.mp hcut)⟩
  | case2 st out value lead after hcut _ hlast _ =>
    rename_i ih
    obtain ⟨before, rfl⟩ := getLast?_eq_some_iff.mp hlast
    obtain ⟨rfl, hno⟩ := eq_of_cutReference hcut
    obtain ⟨parts, hparts⟩ := ih h
    exact ⟨_, .escape hno hparts⟩
  | case3 | case4 => cases h
  | case5 st out value before after hcut _ hlast spelled rest hbrace _ name hname ih =>
    obtain ⟨rfl, hno⟩ := eq_of_cutReference hcut
    obtain ⟨rfl, hclosed⟩ := eq_of_cutBrace hbrace
    obtain ⟨p, -, h⟩ := bind_ok h
    obtain ⟨parts, hparts⟩ := ih p.1 p.2 h
    exact ⟨_, .reference hno hlast hclosed hname hparts⟩

theorem ok_of_map {α β : Type} {f : α → β} {x : Except String α} {b : β} (h : x.map f = .ok b) :
    ∃ a, x = .ok a := by
  cases x with
  | error err => cases h
  | ok a => exact ⟨a, rfl⟩

/-! ## The references, and what they are replaced by -/

theorem references_of_reads (h : Reads value parts) :
    references value = .ok (parts.filterMap Part.name?) := by
  have hfold : ∀ (parts : List Part) (names : List String) (out : Bytes),
      parts.foldlM (takePart fun refs name => .ok (refs ++ [name], [])) (names, out) =
        .ok (names ++ parts.filterMap Part.name?, out ++ parts.flatMap (Part.text fun _ => none)) := by
    intro parts
    induction parts with
    | nil => intro names out; simp [pure, Except.pure]
    | cons part parts ih =>
      intro names out
      cases part with
      | literal text => simp [takePart, bind, Except.bind, ih, filterMap_cons, Part.name?, Part.text]
      | reference name => simp [takePart, bind, Except.bind, ih, Part.name?, Part.text]
  unfold references
  rw [transform_of_reads h, hfold]
  rfl

variable {supplied : String → Option Bytes}

/-- Every part in turn, if everything it asks for is supplied. -/
theorem foldlM_supply {r : Unit × Bytes} :
    ∀ {parts : List Part} {out : Bytes}, parts.foldlM (takePart (supply supplied)) ((), out) = .ok r ↔
      (∀ name ∈ parts.filterMap Part.name?, (supplied name).isSome) ∧
        r = ((), out ++ parts.flatMap (Part.text supplied))
  | [], out => by
    simp only [foldlM_nil, pure, Except.pure, Except.ok.injEq]
    simpa using eq_comm
  | .literal text :: parts, out => by
    have ih := @foldlM_supply r parts (out ++ text)
    simpa [takePart, bind, Except.bind, Part.name?, Part.text] using ih
  | .reference name :: parts, out => by
    cases hname : supplied name with
    | none => simp [takePart, supply, bind, Except.bind, Part.name?, hname]
    | some text =>
      have ih := @foldlM_supply r parts (out ++ text)
      simpa [takePart, supply, bind, Except.bind, Part.name?, Part.text, hname] using ih

theorem substitute_of_reads (h : Reads value parts) {result : Bytes} :
    substitute supplied none value = .ok result ↔
      (∀ name ∈ parts.filterMap Part.name?, (supplied name).isSome) ∧
        result = parts.flatMap (Part.text supplied) := by
  have hr := @foldlM_supply supplied ((), result) parts []
  rw [← transform_of_reads h] at hr
  unfold substitute
  cases htransform : transform (supply supplied) none () [] value with
  | error err => simpa [htransform, Except.map] using hr
  | ok r => simpa [htransform, Except.map, Prod.ext_iff] using hr

/-! ## The escape -/

/-- Every `$\x7b` written as `$$\x7b`. -/
def escapeOpenings (value : Bytes) : Bytes :=
  match hcut : cutReference value with
  | none => value
  | some (before, after) =>
    have := length_of_cutReference hcut
    before ++ [0x24] ++ opening ++ escapeOpenings after
termination_by value.length

theorem opening_not_infix_concat (h : ¬ opening <:+: before) : ¬ opening <:+: before ++ [0x24] := by
  rw [infix_concat_iff, not_or]
  refine ⟨fun hsuffix => ?_, h⟩
  obtain ⟨t, ht⟩ := hsuffix
  have hlast := congrArg List.getLast? ht
  simp [opening] at hlast

/-- An escaped text reads as that text, and refers to nothing. -/
theorem reads_escapeOpenings (value : Bytes) : ∃ parts, Reads (escapeOpenings value) parts ∧
    parts.filterMap Part.name? = [] ∧
      ∀ supplied : String → Option Bytes, parts.flatMap (Part.text supplied) = value := by
  fun_induction escapeOpenings value with
  | case1 value hcut =>
    exact ⟨_, .plain (cutReference_eq_none.mp hcut), rfl, by simp [Part.text]⟩
  | case2 value before after hcut _ ih =>
    obtain ⟨parts, hparts, hnames, htext⟩ := ih
    obtain ⟨rfl, hno⟩ := eq_of_cutReference hcut
    refine ⟨_, .escape (opening_not_infix_concat hno) hparts, hnames, fun supplied => ?_⟩
    simp [Part.text, htext]

end Reading

/-- **Substitution is single-pass and escapable.** A value is resolved if it reads and
everything it refers to is supplied, to its parts with each reference replaced by what
was supplied, byte for byte; and every text can be escaped. -/
theorem substitution_exact (value : Bytes) :
    (∀ supplied, (∃ result, substitute supplied none value = .ok result) ↔
      ∃ names, references value = .ok names ∧ ∀ name ∈ names, (supplied name).isSome) ∧
    (∀ names, references value = .ok names → ∃ parts, Reads value parts ∧
      names = parts.filterMap Part.name? ∧
        ∀ supplied result, substitute supplied none value = .ok result →
          result = parts.flatMap (Part.text supplied)) ∧
    (∀ supplied supplied' names, references value = .ok names →
      (∀ name ∈ names, supplied name = supplied' name) → (∀ name ∈ names, (supplied name).isSome) →
        substitute supplied none value = substitute supplied' none value) ∧
    references (escapeOpenings value) = .ok [] ∧
      ∀ supplied, substitute supplied none (escapeOpenings value) = .ok value := by
  have hreads : ∀ {names}, references value = .ok names → ∃ parts, Reads value parts ∧
      names = parts.filterMap Part.name? := by
    intro names h
    obtain ⟨r, hr⟩ := ok_of_map h
    obtain ⟨parts, hparts⟩ := reads_of_transform hr
    rw [references_of_reads hparts] at h
    exact ⟨parts, hparts, (Except.ok.inj h).symm⟩
  refine ⟨fun supplied => ⟨?_, ?_⟩, ?_, ?_, ?_⟩
  · rintro ⟨result, h⟩
    obtain ⟨r, hr⟩ := ok_of_map h
    obtain ⟨parts, hparts⟩ := reads_of_transform hr
    exact ⟨_, references_of_reads hparts, ((substitute_of_reads hparts).mp h).1⟩
  · rintro ⟨names, hnames, hall⟩
    obtain ⟨parts, hparts, rfl⟩ := hreads hnames
    exact ⟨_, (substitute_of_reads hparts).mpr ⟨hall, rfl⟩⟩
  · intro names hnames
    obtain ⟨parts, hparts, rfl⟩ := hreads hnames
    exact ⟨parts, hparts, rfl, fun supplied result h => ((substitute_of_reads hparts).mp h).2⟩
  · intro supplied supplied' names hnames hsame hall
    obtain ⟨parts, hparts, rfl⟩ := hreads hnames
    have htext : ∀ part ∈ parts, part.text supplied = part.text supplied' := by
      intro part hpart
      cases part with
      | literal text => rfl
      | reference name =>
        have hname := hsame name (mem_filterMap.mpr ⟨_, hpart, rfl⟩)
        simp [Part.text, hname]
    rw [(substitute_of_reads hparts).mpr ⟨hall, rfl⟩, flatMap_congr htext]
    exact ((substitute_of_reads hparts).mpr ⟨fun name hn => hsame name hn ▸ hall name hn, rfl⟩).symm
  · obtain ⟨parts, hparts, hnames, htext⟩ := reads_escapeOpenings value
    refine ⟨?_, fun supplied => (substitute_of_reads hparts).mpr ⟨?_, (htext supplied).symm⟩⟩
    · rw [references_of_reads hparts, hnames]
    · simp [hnames]

end Hikyo.Parameters
