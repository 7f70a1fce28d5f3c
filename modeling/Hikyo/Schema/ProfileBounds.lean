import Hikyo.Lib.Transactions
import Hikyo.Schema.Profile

/-!
# What the profile bounds

The walk builds its graph from pointer texts. The evaluator has none: it goes from
a subschema to the ones it contains and, at a `$ref`, to what the fragment
designates – the percent-decoded text, split at the slashes, each token read back.
The bounds speak about the evaluator only if both are the same graph.

`subschemas` lists the subschemas of a document with their locations, and `links`
what leads on from one of them; `Walked` says that the walk has noted exactly
these. A location and its pointer text determine each other, so an edge of the
walk leads to the subschema that the reference designates as soon as
percent-decoding leaves the reference as it is. It does so exactly for references
without a percent sign: the walk takes the text as it is written, and a member name
may hold one.
-/

namespace Hikyo

open List
open JsonPointer (Text escape encode decode percentDecode encode_append encode_singleton
  encode_injective decode_encode encode_decode percentDecode_of_notMem length_percentDecode)

/-! ## Locations -/

def JsonMembers.find (name : Text) : JsonMembers → Option JsonValue
  | .nil => none
  | .cons member value rest => if member = name then some value else rest.find name

/-- The item that a token names, the items being numbered from `i`. -/
def JsonItems.find (token : Text) (i : ℕ) : JsonItems → Option JsonValue
  | .nil => none
  | .cons item rest => if itoa i = token then some item else rest.find token (i + 1)

/-- **The value at a location** of a document. -/
def JsonValue.at : JsonValue → List Text → Option JsonValue
  | value, [] => some value
  | .object members, token :: tokens =>
    match members.find token with
    | some value => value.at tokens
    | none => none
  | .array items, token :: tokens =>
    match items.find token 0 with
    | some value => value.at tokens
    | none => none
  | _, _ :: _ => none

/-- **What a reference designates**: a location in the document, read off the
fragment. -/
def designates : Text → Option (List Text)
  | '#' :: fragment => (percentDecode fragment).bind decode
  | _ => none

/-- What leads on from a subschema: to one it contains, or a reference. -/
inductive Link where
  | sub (path : List Text)
  | ref (text : Text)
deriving DecidableEq

/-- The location a link of the subschema at `L` leads to. -/
def Link.target (L : List Text) : Link → Option (List Text)
  | .sub path => some (L ++ path)
  | .ref text => designates text

/-- The pointer that the walk notes for a link of the subschema at `L`. -/
def Link.pointer (L : List Text) : Link → Text
  | .sub path => encode (L ++ path)
  | .ref text => unescapeRefTarget text

def JsonItems.links (name : Text) (i : ℕ) : JsonItems → List Link
  | .nil => []
  | .cons _ rest => .sub [name, itoa i] :: rest.links name (i + 1)

/-- The links of one keyword. -/
def keywordLinks (name : Text) (value : JsonValue) : List Link :=
  match keywordKind name, value with
  | some .data, .string text => if name = "$ref".toList then [.ref text] else []
  | some .schema, _ => [.sub [name]]
  | some .schemaArray, .array items => items.links name 0
  | some .schemaMap, .object members => members.names.map fun member => .sub [name, member]
  | _, _ => []

def JsonMembers.links : JsonMembers → List Link
  | .nil => []
  | .cons name value rest => keywordLinks name value ++ rest.links

/-- **The links of a subschema.** -/
def JsonValue.links : JsonValue → List Link
  | .object members => members.links
  | _ => []

mutual

/-- **The subschemas** of the subschema at `L`, itself included, with their
locations. -/
def JsonValue.subschemas (L : List Text) : JsonValue → List (List Text × JsonValue)
  | .object members => (L, .object members) :: members.subschemas L
  | node => [(L, node)]

def JsonMembers.subschemas (L : List Text) : JsonMembers → List (List Text × JsonValue)
  | .nil => []
  | .cons name value rest =>
    (match keywordKind name, value with
      | some .schema, value => value.subschemas (L ++ [name])
      | some .schemaArray, .array items => items.subschemas (L ++ [name]) 0
      | some .schemaMap, .object members => members.valueSubschemas (L ++ [name])
      | _, _ => []) ++ rest.subschemas L

def JsonItems.subschemas (L : List Text) (i : ℕ) : JsonItems → List (List Text × JsonValue)
  | .nil => []
  | .cons item rest => item.subschemas (L ++ [itoa i]) ++ rest.subschemas L (i + 1)

def JsonMembers.valueSubschemas (L : List Text) : JsonMembers → List (List Text × JsonValue)
  | .nil => []
  | .cons name value rest => value.subschemas (L ++ [name]) ++ rest.valueSubschemas L

end

/-- A subschema stands first in its own list. -/
theorem mem_subschemas_self (L : List Text) (node : JsonValue) : (L, node) ∈ node.subschemas L := by
  cases node
  all_goals exact mem_cons_self

theorem itoa_injective : Function.Injective itoa := fun _ _ h =>
  Nat.repr_inj.mp (String.toList_inj.mp h)

mutual

/-- **A subschema is the value at its location.** -/
theorem at_of_mem_subschemas (L : List Text) : ∀ {node : JsonValue}, node.Canonical →
    ∀ e ∈ node.subschemas L, ∃ path, e.1 = L ++ path ∧ node.at path = some e.2
  | .object members, hcanonical, e, he => by
    rw [JsonValue.subschemas] at he
    rcases mem_cons.mp he with rfl | he
    · exact ⟨[], (append_nil L).symm, rfl⟩
    · obtain ⟨name, -, path, hpath, value, hfind, hat⟩ := at_of_mem_keywords L hcanonical e he
      refine ⟨name :: path, hpath, ?_⟩
      rw [JsonValue.at, hfind]
      exact hat
  | .null, _, e, he | .bool _, _, e, he | .number _, _, e, he | .string _, _, e, he
  | .array _, _, e, he => by
    obtain rfl := mem_singleton.mp he
    exact ⟨[], (append_nil L).symm, rfl⟩

theorem at_of_mem_keywords (L : List Text) : ∀ {members : JsonMembers}, members.Canonical →
    ∀ e ∈ members.subschemas L, ∃ name ∈ members.names, ∃ path, e.1 = L ++ name :: path ∧
      ∃ value, members.find name = some value ∧ value.at path = some e.2
  | .nil, _, e, he => absurd he not_mem_nil
  | .cons name value rest, hcanonical, e, he => by
    rw [JsonMembers.subschemas.eq_def] at he
    rcases mem_append.mp he with he | he
    · have hfirst : ∃ path, e.1 = (L ++ [name]) ++ path ∧ value.at path = some e.2 := by
        cases hkind : keywordKind name with
        | none => rw [hkind] at he; exact absurd he not_mem_nil
        | some kind =>
          rw [hkind] at he
          cases kind with
          | data => exact absurd he not_mem_nil
          | schema => exact at_of_mem_subschemas (L ++ [name]) hcanonical.2.1 e he
          | schemaArray =>
            cases value with
            | array items =>
              obtain ⟨j, -, path, hpath, item, hfind, hat⟩ :=
                at_of_mem_items (L ++ [name]) 0 hcanonical.2.1 e he
              refine ⟨itoa j :: path, hpath, ?_⟩
              rw [JsonValue.at, hfind]
              exact hat
            | _ => exact absurd he not_mem_nil
          | schemaMap =>
            cases value with
            | object members =>
              obtain ⟨member, -, path, hpath, item, hfind, hat⟩ :=
                at_of_mem_values (L ++ [name]) hcanonical.2.1 e he
              refine ⟨member :: path, hpath, ?_⟩
              rw [JsonValue.at, hfind]
              exact hat
            | _ => exact absurd he not_mem_nil
      obtain ⟨path, hpath, hat⟩ := hfirst
      refine ⟨name, mem_cons_self, path, ?_, value, if_pos rfl, hat⟩
      rw [hpath, append_assoc, singleton_append]
    · obtain ⟨name', hname', path, hpath, value', hfind, hat⟩ :=
        at_of_mem_keywords L hcanonical.2.2 e he
      refine ⟨name', mem_cons_of_mem _ hname', path, hpath, value', ?_, hat⟩
      rw [JsonMembers.find, if_neg (hcanonical.1 name' hname').ne]
      exact hfind

theorem at_of_mem_items (L : List Text) (i : ℕ) : ∀ {items : JsonItems}, items.Canonical →
    ∀ e ∈ items.subschemas L i, ∃ j, i ≤ j ∧ ∃ path, e.1 = L ++ itoa j :: path ∧
      ∃ value, items.find (itoa j) i = some value ∧ value.at path = some e.2
  | .nil, _, e, he => absurd he not_mem_nil
  | .cons item rest, hcanonical, e, he => by
    rw [JsonItems.subschemas] at he
    rcases mem_append.mp he with he | he
    · obtain ⟨path, hpath, hat⟩ := at_of_mem_subschemas (L ++ [itoa i]) hcanonical.1 e he
      refine ⟨i, le_refl i, path, ?_, item, if_pos rfl, hat⟩
      rw [hpath, append_assoc, singleton_append]
    · obtain ⟨j, hj, path, hpath, value, hfind, hat⟩ :=
        at_of_mem_items L (i + 1) hcanonical.2 e he
      refine ⟨j, Nat.le_of_succ_le hj, path, hpath, value, ?_, hat⟩
      have hne : itoa i ≠ itoa j := fun h => absurd (itoa_injective h) (Nat.ne_of_lt hj)
      rw [JsonItems.find, if_neg hne]
      exact hfind

theorem at_of_mem_values (L : List Text) : ∀ {members : JsonMembers}, members.Canonical →
    ∀ e ∈ members.valueSubschemas L, ∃ name ∈ members.names, ∃ path, e.1 = L ++ name :: path ∧
      ∃ value, members.find name = some value ∧ value.at path = some e.2
  | .nil, _, e, he => absurd he not_mem_nil
  | .cons name value rest, hcanonical, e, he => by
    rw [JsonMembers.valueSubschemas] at he
    rcases mem_append.mp he with he | he
    · obtain ⟨path, hpath, hat⟩ := at_of_mem_subschemas (L ++ [name]) hcanonical.2.1 e he
      refine ⟨name, mem_cons_self, path, ?_, value, if_pos rfl, hat⟩
      rw [hpath, append_assoc, singleton_append]
    · obtain ⟨name', hname', path, hpath, value', hfind, hat⟩ :=
        at_of_mem_values L hcanonical.2.2 e he
      refine ⟨name', mem_cons_of_mem _ hname', path, hpath, value', ?_, hat⟩
      rw [JsonMembers.find, if_neg (hcanonical.1 name' hname').ne]
      exact hfind

end

/-! ## Pointers -/

theorem escapePointer_eq (token : Text) : escapePointer token = escape token := by
  induction token with
  | nil => rfl
  | cons c rest ih =>
    show replaceAll '/' ['~', '1'] ((if c = '~' then ['~', '0'] else [c]) ++
      replaceAll '~' ['~', '0'] rest) = _
    rw [JsonPointer.escape_cons, replaceAll, flatMap_append]
    refine congrArg₂ (· ++ ·) ?_ ih
    by_cases htilde : c = '~'
    · rw [if_pos htilde, if_pos htilde]
      rfl
    · rw [if_neg htilde, if_neg htilde, flatMap_singleton]

/-- An array index is its own token. -/
theorem escape_itoa (i : ℕ) : escape (itoa i) = itoa i := by
  have hplain : ∀ c ∈ itoa i,
      (if c = '~' then ['~', '0'] else if c = '/' then ['~', '1'] else [c]) = [c] := by
    intro c hc
    have hdigits : c ∈ Nat.toDigits 10 i := by
      rw [← Nat.toList_repr]
      exact hc
    have hdigit := Nat.isDigit_of_mem_toDigits (by decide) (by decide) hdigits
    have htilde : c ≠ '~' := by rintro rfl; exact absurd hdigit (by decide)
    have hslash : c ≠ '/' := by rintro rfl; exact absurd hdigit (by decide)
    rw [if_neg htilde, if_neg hslash]
  calc escape (itoa i) = (itoa i).flatMap ([·]) := flatMap_congr hplain
    _ = itoa i := flatMap_singleton' _

theorem encode_child (L : List Text) (name : Text) :
    encode L ++ '/' :: escapePointer name = encode (L ++ [name]) := by
  rw [encode_append, encode_singleton, escapePointer_eq]

theorem encode_item (L : List Text) (i : ℕ) :
    encode L ++ '/' :: itoa i = encode (L ++ [itoa i]) := by
  rw [encode_append, encode_singleton, escape_itoa]

/-! ## What the walk notes -/

/-- The edges that the links of the subschema at `L` make. -/
def noted (L : List Text) (links : List Link) : List (Text × Text) :=
  links.map fun link => (encode L, link.pointer L)

/-- **A stretch of the walk** over the links `links` of the subschema at `L` and over
the subschemas `subs`. -/
structure Walked (w w' : ProfileWalk) (L : List Text) (links : List Link)
    (subs : List (List Text × JsonValue)) : Prop where
  nodes : ∀ p, p ∈ w'.nodes ↔ p ∈ w.nodes ∨ ∃ e ∈ subs, encode e.1 = p
  refs : ∀ text, Link.ref text ∈ links → validRef text = true
  subRefs : ∀ e ∈ subs, ∀ text, Link.ref text ∈ e.2.links → validRef text = true
  edges : ∃ new, w'.edges = w.edges ++ new ∧ (noted L links).Sublist new ∧
    ∀ e ∈ subs, (noted e.1 e.2.links).Sublist new

namespace Walked

variable {w w₁ w' : ProfileWalk} {L : List Text} {links links' : List Link}
  {subs subs' : List (List Text × JsonValue)}

theorem refl (w : ProfileWalk) (L : List Text) : Walked w w L [] [] where
  nodes p := by simp
  refs _ h := absurd h not_mem_nil
  subRefs _ h := absurd h not_mem_nil
  edges := ⟨[], (append_nil _).symm, List.Sublist.refl _, fun _ h => absurd h not_mem_nil⟩

theorem append (h : Walked w w₁ L links subs) (h' : Walked w₁ w' L links' subs') :
    Walked w w' L (links ++ links') (subs ++ subs') where
  nodes p := by
    rw [h'.nodes, h.nodes]
    simp only [mem_append, or_and_right, exists_or, or_assoc]
  refs text hmem := (mem_append.mp hmem).elim (h.refs text) (h'.refs text)
  subRefs e he := (mem_append.mp he).elim (h.subRefs e) (h'.subRefs e)
  edges := by
    obtain ⟨new, hnew, hlinks, hsubs⟩ := h.edges
    obtain ⟨new', hnew', hlinks', hsubs'⟩ := h'.edges
    refine ⟨new ++ new', ?_, ?_, fun e he => ?_⟩
    · rw [hnew', hnew, append_assoc]
    · rw [noted, map_append]
      exact hlinks.append hlinks'
    · rcases mem_append.mp he with he | he
      · exact (hsubs e he).trans (sublist_append_left _ _)
      · exact (hsubs' e he).trans (sublist_append_right _ _)

/-- An edge for a link. -/
theorem addEdge (w : ProfileWalk) (L : List Text) (link : Link)
    (hvalid : ∀ text, link = .ref text → validRef text = true) :
    Walked w (w.addEdge (encode L) (link.pointer L)) L [link] [] where
  nodes p := by simp [ProfileWalk.addEdge]
  refs text h := hvalid text (mem_singleton.mp h).symm
  subRefs _ h := absurd h not_mem_nil
  edges := ⟨_, rfl, List.Sublist.refl _, fun _ h => absurd h not_mem_nil⟩

/-- An edge to a subschema that is contained. -/
theorem addSub (w : ProfileWalk) (L path : List Text) :
    Walked w (w.addEdge (encode L) (encode (L ++ path))) L [.sub path] [] :=
  addEdge w L (.sub path) nofun

/-- A subschema entered, with all its links and what it contains. -/
theorem of_enter {node : JsonValue} {depth : ℕ} (L₀ : List Text)
    (henter : w.enter (encode L) depth = .ok w₁) (h : Walked w₁ w' L node.links subs) :
    Walked w w' L₀ [] ((L, node) :: subs) := by
  have hw₁ : w₁ = { w with nodes := w.nodes.insert (encode L), count := w.count + 1 } := by
    rw [ProfileWalk.enter] at henter
    split at henter
    case isTrue => cases henter
    case isFalse =>
      split at henter
      case isTrue => cases henter
      case isFalse => exact (Except.ok.inj henter).symm
  subst hw₁
  refine ⟨fun p => ?_, fun _ h => absurd h not_mem_nil, fun e he => ?_, ?_⟩
  · rw [h.nodes]
    simp only [mem_insert_iff, mem_cons, or_and_right, exists_or, exists_eq_left]
    grind
  · rcases mem_cons.mp he with rfl | he
    · exact h.refs
    · exact h.subRefs e he
  · obtain ⟨new, hnew, hlinks, hsubs⟩ := h.edges
    refine ⟨new, hnew, nil_sublist _, fun e he => ?_⟩
    rcases mem_cons.mp he with rfl | he
    · exact hlinks
    · exact hsubs e he

end Walked

variable {L : List Text}

/-- A data keyword leaves an edge if it is a reference. -/
theorem walked_dataKeyword {w w' : ProfileWalk} {name : Text} {value : JsonValue}
    (hkind : keywordKind name = some .data) (h : w.dataKeyword (encode L) name value = .ok w') :
    Walked w w' L (keywordLinks name value) [] := by
  unfold ProfileWalk.dataKeyword at h
  split at h
  case isTrue hschema =>
    have hlinks : keywordLinks name value = [] := by
      subst hschema
      cases value
      all_goals rfl
    split at h
    next =>
      split at h
      case isTrue =>
        cases h
        exact hlinks ▸ Walked.refl w L
      case isFalse => cases h
    next => cases h
  case isFalse =>
    split at h
    case isTrue href =>
      split at h
      next text =>
        split at h
        case isTrue hvalid =>
          cases h
          have hlinks : keywordLinks name (.string text) = [.ref text] := by
            unfold keywordLinks
            rw [hkind]
            exact if_pos href
          rw [hlinks]
          refine Walked.addEdge w L (.ref text) fun text' htext => ?_
          cases htext
          exact hvalid
        case isFalse => cases h
      next => cases h
    case isFalse href =>
      cases h
      have hlinks : keywordLinks name value = [] := by
        unfold keywordLinks
        rw [hkind]
        cases value with
        | string text => exact if_neg href
        | _ => rfl
      exact hlinks ▸ Walked.refl w L

mutual

/-- **The walk over a subschema** notes the subschemas below it and their links. -/
theorem walked_schema (L : List Text) (depth : ℕ) : ∀ {node : JsonValue} {w w' : ProfileWalk},
    w.schema (encode L) depth node = .ok w' → ∀ L₀, Walked w w' L₀ [] (node.subschemas L)
  | .object members, w, w', h, L₀ => by
    rw [ProfileWalk.schema] at h
    cases henter : w.enter (encode L) depth with
    | error e => rw [henter] at h; cases h
    | ok w₁ =>
      rw [henter] at h
      rw [JsonValue.subschemas]
      exact Walked.of_enter L₀ henter (walked_keywords L depth h)
  | .bool b, w, w', h, L₀ => Walked.of_enter L₀ h (Walked.refl w' L)
  | .null, w, w', h, L₀ | .number _, w, w', h, L₀ | .string _, w, w', h, L₀
  | .array _, w, w', h, L₀ => by
    rw [ProfileWalk.schema] at h
    · cases henter : w.enter (encode L) depth with
      | error e | ok w₁ => rw [henter] at h; cases h
    all_goals exact nofun

theorem walked_keywords (L : List Text) (depth : ℕ) :
    ∀ {members : JsonMembers} {w w' : ProfileWalk},
      w.keywords (encode L) depth members = .ok w' →
        Walked w w' L members.links (members.subschemas L)
  | .nil, w, w', h => by
    cases h
    exact Walked.refl w L
  | .cons name value rest, w, w', h => by
    rw [ProfileWalk.keywords.eq_def] at h
    dsimp only at h
    rw [JsonMembers.subschemas.eq_def, JsonMembers.links]
    dsimp only
    cases hexcluded : excludedReason name with
    | some reason => rw [hexcluded] at h; cases h
    | none =>
      rw [hexcluded] at h
      cases hkind : keywordKind name with
      | none => rw [hkind] at h; cases h
      | some kind =>
        rw [hkind] at h
        cases kind with
        | data =>
          cases hdata : w.dataKeyword (encode L) name value with
          | error e => simp only [hdata] at h; cases h
          | ok w₁ =>
            simp only [hdata] at h
            exact (walked_dataKeyword hkind hdata).append (walked_keywords L depth h)
        | schema =>
          simp only [encode_child] at h
          cases hsub : (w.addEdge (encode L) (encode (L ++ [name]))).schema
              (encode (L ++ [name])) (depth + 1) value with
          | error e => simp only [hsub] at h; cases h
          | ok w₁ =>
            simp only [hsub] at h
            have hlinks : keywordLinks name value = [.sub [name]] := by
              unfold keywordLinks
              rw [hkind]
            rw [hlinks]
            exact ((Walked.addSub w L [name]).append
              (walked_schema (L ++ [name]) (depth + 1) hsub L)).append (walked_keywords L depth h)
        | schemaArray =>
          cases value with
          | array items =>
            simp only [encode_child] at h
            cases hitems : w.schemaItems (encode L) (encode (L ++ [name])) depth 0 items with
            | error e => simp only [hitems] at h; cases h
            | ok w₁ =>
              simp only [hitems] at h
              have hlinks : keywordLinks name (.array items) = items.links name 0 := by
                unfold keywordLinks
                rw [hkind]
              rw [hlinks]
              exact (walked_items L name depth 0 hitems).append (walked_keywords L depth h)
          | _ => cases h
        | schemaMap =>
          cases value with
          | object members =>
            simp only [encode_child] at h
            cases hmembers : w.schemaMembers (encode L) (encode (L ++ [name])) depth members with
            | error e => simp only [hmembers] at h; cases h
            | ok w₁ =>
              simp only [hmembers] at h
              have hlinks : keywordLinks name (.object members) =
                  members.names.map fun member => .sub [name, member] := by
                unfold keywordLinks
                rw [hkind]
              rw [hlinks]
              exact (walked_members L name depth hmembers).append (walked_keywords L depth h)
          | _ => cases h

theorem walked_items (L : List Text) (name : Text) (depth i : ℕ) :
    ∀ {items : JsonItems} {w w' : ProfileWalk},
      w.schemaItems (encode L) (encode (L ++ [name])) depth i items = .ok w' →
        Walked w w' L (items.links name i) (items.subschemas (L ++ [name]) i)
  | .nil, w, w', h => by
    cases h
    exact Walked.refl w L
  | .cons item rest, w, w', h => by
    rw [ProfileWalk.schemaItems] at h
    simp only [encode_item, append_assoc, singleton_append] at h
    cases hsub : (w.addEdge (encode L) (encode (L ++ [name, itoa i]))).schema
        (encode (L ++ [name, itoa i])) (depth + 1) item with
    | error e => simp only [hsub] at h; cases h
    | ok w₁ =>
      simp only [hsub] at h
      have hfirst := (Walked.addSub w L [name, itoa i]).append
        (walked_schema (L ++ [name, itoa i]) (depth + 1) hsub L)
      rw [JsonItems.subschemas, JsonItems.links, append_assoc]
      exact hfirst.append (walked_items L name depth (i + 1) h)

theorem walked_members (L : List Text) (name : Text) (depth : ℕ) :
    ∀ {members : JsonMembers} {w w' : ProfileWalk},
      w.schemaMembers (encode L) (encode (L ++ [name])) depth members = .ok w' →
        Walked w w' L (members.names.map fun member => .sub [name, member])
          (members.valueSubschemas (L ++ [name]))
  | .nil, w, w', h => by
    cases h
    exact Walked.refl w L
  | .cons member value rest, w, w', h => by
    rw [ProfileWalk.schemaMembers] at h
    simp only [encode_child, append_assoc, singleton_append] at h
    cases hsub : (w.addEdge (encode L) (encode (L ++ [name, member]))).schema
        (encode (L ++ [name, member])) (depth + 1) value with
    | error e => simp only [hsub] at h; cases h
    | ok w₁ =>
      simp only [hsub] at h
      have hfirst := (Walked.addSub w L [name, member]).append
        (walked_schema (L ++ [name, member]) (depth + 1) hsub L)
      rw [JsonMembers.valueSubschemas, JsonMembers.names, map_cons, append_assoc]
      exact hfirst.append (walked_members L name depth h)

end

/-! ## What the checks establish -/

theorem mem_edgesOf {w : ProfileWalk} {source target : Text} :
    target ∈ w.edgesOf source ↔ (source, target) ∈ w.edges := by
  unfold ProfileWalk.edgesOf
  simp

namespace ProfileWalk

variable {w : ProfileWalk}

/-- Every edge leads to a node. -/
def Resolved (w : ProfileWalk) : Prop := ∀ e ∈ w.edges, e.2 ∈ w.nodes

theorem resolved_of_check (h : w.checkResolved = .ok ()) : w.Resolved := by
  unfold checkResolved at h
  split at h
  next => cases h
  next hnone =>
    intro e he
    have := find?_eq_none.mp hnone e he
    simpa using this

/-- The edges in the order in which the search goes through them. -/
theorem mem_sorted_edgesOf (node target : Text) :
    target ∈ (w.edgesOf node).insertionSort (· ≤ ·) ↔ target ∈ w.edgesOf node :=
  mem_insertionSort _

theorem Resolved.closed (h : w.Resolved) : ∀ x ∈ w.nodes.insertionSort (· ≤ ·),
    (w.edgesOf x).insertionSort (· ≤ ·) ⊆ w.nodes.insertionSort (· ≤ ·) := by
  intro x _ target htarget
  rw [mem_insertionSort]
  exact h _ (mem_edgesOf.mp ((mem_sorted_edgesOf x target).mp htarget))

/-- **The search for cycles ends.** -/
theorem Resolved.checkAcyclic_ne_endless (h : w.Resolved) : w.checkAcyclic ≠ .error .endless := by
  have hends := GraphSearch.search_ne_endless h.closed
  rw [length_insertionSort] at hends
  unfold checkAcyclic
  split
  next => exact nofun
  next hendless => exact absurd hendless hends
  next => exact nofun

/-- An acyclic graph has an order in which the nodes finish. -/
theorem Resolved.exists_order (h : w.Resolved) (hacyclic : w.checkAcyclic = .ok ()) :
    ∃ order, GraphSearch.Finished w.edgesOf order ∧ w.nodes ⊆ order ∧
      order.length ≤ w.nodes.length := by
  unfold checkAcyclic at hacyclic
  split at hacyclic
  next => cases hacyclic
  next => cases hacyclic
  next hsearch =>
    obtain ⟨order, hfinished, hnodes, hlength⟩ :=
      GraphSearch.exists_order_of_search h.closed hsearch
    rw [length_insertionSort] at hlength
    refine ⟨order, hfinished.congr fun x t => (mem_sorted_edgesOf x t).symm,
      fun x hx => hnodes ((mem_insertionSort _).mpr hx), hlength⟩

/-- **The count of paths ends.** -/
theorem Resolved.checkWorkBudget_ne_endless (h : w.Resolved) (hacyclic : w.checkAcyclic = .ok ())
    (hroot : [] ∈ w.nodes) : w.checkWorkBudget ≠ .error .endless := by
  obtain ⟨order, hfinished, hnodes, hlength⟩ := h.exists_order hacyclic
  have hends : (w.expandedPaths (maxEvaluationWork / maxValidatedInstanceBytes)).isSome := by
    unfold expandedPaths
    rw [Option.isSome_map]
    exact GraphSearch.count_isSome hfinished [] (hnodes hroot) _ _ hlength
  obtain ⟨paths, hpaths⟩ := Option.isSome_iff_exists.mp hends
  unfold checkWorkBudget
  simp only [hpaths]
  split
  case isTrue => exact nofun
  case isFalse => exact nofun

/-- **Within the budget**, the entries along all paths from the root are few. -/
theorem entries_le_of_checkWorkBudget (h : w.checkWorkBudget = .ok ()) (n : ℕ) :
    GraphSearch.entries w.edgesOf n [] ≤ maxEvaluationWork / maxValidatedInstanceBytes := by
  unfold checkWorkBudget at h
  dsimp only at h
  split at h
  next => cases h
  next paths hpaths =>
    split at h
    case isTrue => cases h
    case isFalse hwithin =>
      obtain ⟨⟨memo, k⟩, hcount, rfl⟩ := Option.map_eq_some_iff.mp hpaths
      exact (GraphSearch.entries_le_of_count hcount (not_lt.mp hwithin) n).trans (not_lt.mp hwithin)

end ProfileWalk

/-- **What an accepted document has passed.** -/
theorem checkProfile_eq_ok {doc : JsonDocument} (h : checkProfile doc = .ok ()) :
    ∃ w, ProfileWalk.empty.schema [] 1 doc.root = .ok w ∧ w.Resolved ∧
      w.checkAcyclic = .ok () ∧ w.checkWorkBudget = .ok () := by
  obtain ⟨w, hwalk, h⟩ := Tx.bind_ok h
  obtain ⟨⟨⟩, hresolved, h⟩ := Tx.bind_ok h
  obtain ⟨⟨⟩, hacyclic, h⟩ := Tx.bind_ok h
  exact ⟨w, hwalk, ProfileWalk.resolved_of_check hresolved, hacyclic, h⟩

/-! ## What the evaluator does -/

variable {sub : JsonValue}

namespace JsonDocument

variable (doc : JsonDocument)

/-- The subschemas of a document, by location. -/
def subschemas : List (List Text × JsonValue) := doc.root.subschemas []

/-- The subschema at `L` has the reference `ref`. -/
def RefAt (L : List Text) (ref : Text) : Prop :=
  ∃ sub, (L, sub) ∈ doc.subschemas ∧ Link.ref ref ∈ sub.links

/-- **Where the evaluator goes on** from a location: to the subschemas contained and
to what the reference designates. -/
def next (L : List Text) : List (List Text) :=
  match doc.root.at L with
  | some sub => sub.links.filterMap (Link.target L)
  | none => []

/-- **The profile bounds the evaluation**: the edge noted for a reference leads to the
subschema that the reference designates; from the root no location leads back to
itself; and the subschemas entered along all paths from the root, to any depth, are
at most 256. -/
structure EvaluationBounded : Prop where
  designated : ∀ L ref, doc.RefAt L ref → ∃ w target sub,
    ProfileWalk.empty.schema [] 1 doc.root = .ok w ∧
      (encode L, unescapeRefTarget ref) ∈ w.edges ∧ unescapeRefTarget ref = encode target ∧
      (target, sub) ∈ doc.subschemas ∧ designates ref = some target
  acyclic : ∀ L, Relation.ReflTransGen (fun a b => b ∈ doc.next a) [] L →
    ¬ Relation.TransGen (fun a b => b ∈ doc.next a) L L
  entries : ∀ n, GraphSearch.entries doc.next n [] ≤ 256

variable {doc}

theorem at_of_mem (h : (L, sub) ∈ doc.subschemas) : doc.root.at L = some sub := by
  obtain ⟨path, hpath, hat⟩ := at_of_mem_subschemas [] doc.canonical _ h
  obtain rfl : L = path := hpath
  exact hat

theorem next_of_mem (h : (L, sub) ∈ doc.subschemas) :
    doc.next L = sub.links.filterMap (Link.target L) := by
  unfold next
  rw [at_of_mem h]

end JsonDocument

variable {ref : Text}

/-- A reference of the accepted form is `#` and its fragment. -/
theorem eq_of_validRef (h : validRef ref = true) : ref = '#' :: unescapeRefTarget ref := by
  rcases of_decide_eq_true h with rfl | ⟨rest, rfl⟩
  · rfl
  · rfl

/-- **Designated as noted.** A reference whose fragment is the pointer of a location
designates this location exactly if it has no percent sign. -/
theorem designates_iff {target : List Text} (hvalid : validRef ref = true)
    (htarget : unescapeRefTarget ref = encode target) :
    designates ref = some target ↔ '%' ∉ ref := by
  have href := eq_of_validRef hvalid
  rw [htarget] at href
  rw [href]
  show (percentDecode (encode target)).bind decode = some target ↔ _
  constructor
  · intro h hpercent
    obtain ⟨text, htext, hdecode⟩ := Option.bind_eq_some_iff.mp h
    have hmem : '%' ∈ encode target := (mem_cons.mp hpercent).resolve_left (by decide)
    have hlength := (length_percentDecode htext).2 hmem
    rw [encode_decode hdecode] at hlength
    exact lt_irrefl _ hlength
  · intro hpercent
    have hmem : '%' ∉ encode target := fun h => hpercent (mem_cons_of_mem _ h)
    rw [percentDecode_of_notMem hmem]
    exact decode_encode target

section Accepted

variable {doc : JsonDocument} {w : ProfileWalk}

variable (hwalk : ProfileWalk.empty.schema [] 1 doc.root = .ok w)

include hwalk

/-- What the walk over a document has noted. -/
theorem walked_document :
    Walked .empty w [] [] doc.subschemas := walked_schema [] 1 hwalk []

variable {link : Link}

variable (hresolved : w.Resolved)

include hresolved

/-- **A link of a subschema leads to a subschema**, the walk's pointer being its. -/
theorem exists_sub_of_link (hsub : (L, sub) ∈ doc.subschemas) (hlink : link ∈ sub.links) :
    (encode L, link.pointer L) ∈ w.edges ∧
      ∃ e ∈ doc.subschemas, link.pointer L = encode e.1 := by
  have hwalked := walked_document hwalk
  obtain ⟨new, hnew, -, hsubs⟩ := hwalked.edges
  have hedge : (encode L, link.pointer L) ∈ w.edges := by
    rw [hnew]
    exact mem_append_right _ ((hsubs _ hsub).subset (mem_map_of_mem hlink))
  refine ⟨hedge, ?_⟩
  rcases (hwalked.nodes _).mp (hresolved _ hedge) with hnone | ⟨e, he, hpointer⟩
  · exact absurd hnone not_mem_nil
  · exact ⟨e, he, hpointer.symm⟩

variable (hplain : ∀ L ref, doc.RefAt L ref → '%' ∉ ref)

include hplain

/-- Without percent signs the walk and the evaluator go to the same places. -/
theorem target_of_link (hsub : (L, sub) ∈ doc.subschemas) (hlink : link ∈ sub.links) :
    ∃ e ∈ doc.subschemas, link.pointer L = encode e.1 ∧ link.target L = some e.1 := by
  obtain ⟨-, e, he, hpointer⟩ := exists_sub_of_link hwalk hresolved hsub hlink
  refine ⟨e, he, hpointer, ?_⟩
  cases link with
  | sub path => exact congrArg some (encode_injective hpointer)
  | ref text =>
    have hvalid := (walked_document hwalk).subRefs _ hsub text hlink
    exact (designates_iff hvalid hpointer).mpr (hplain L text ⟨sub, hsub, hlink⟩)

/-- The locations the evaluator goes on to have the pointers the walk has noted. -/
theorem map_encode_next (hsub : (L, sub) ∈ doc.subschemas) :
    (doc.next L).map encode = sub.links.map (Link.pointer L) := by
  have hlinks : ∀ links : List Link, (∀ link ∈ links, link ∈ sub.links) →
      (links.filterMap (Link.target L)).map encode = links.map (Link.pointer L) := by
    intro links hmem
    induction links with
    | nil => rfl
    | cons link links ih =>
      obtain ⟨e, -, hpointer, htarget⟩ :=
        target_of_link hwalk hresolved hplain hsub (hmem link mem_cons_self)
      rw [filterMap_cons_some htarget, map_cons, map_cons, hpointer,
        ih fun l hl => hmem l (mem_cons_of_mem _ hl)]
  rw [JsonDocument.next_of_mem hsub]
  exact hlinks sub.links fun _ h => h

/-- **The evaluator's graph lies inside the walk's.** -/
theorem next_sublist (hsub : (L, sub) ∈ doc.subschemas) :
    ((doc.next L).map encode).Sublist (w.edgesOf (encode L)) := by
  obtain ⟨new, hnew, -, hsubs⟩ := (walked_document hwalk).edges
  have hnoted : (noted L sub.links).Sublist w.edges := by
    rw [hnew]
    exact (hsubs _ hsub).trans (sublist_append_right _ _)
  have hfilter : (noted L sub.links).filter (fun e => e.1 = encode L) = noted L sub.links :=
    filter_eq_self.mpr fun e he => by
      obtain ⟨link, -, rfl⟩ := mem_map.mp he
      exact decide_eq_true rfl
  have hmap : sub.links.map (Link.pointer L) = (noted L sub.links).map Prod.snd := by
    rw [noted, map_map]
    rfl
  rw [map_encode_next hwalk hresolved hplain hsub, hmap, ← hfilter]
  exact (hnoted.filter _).map _

/-- The evaluator stays on the subschemas. -/
theorem mem_of_next :
    ∀ L, (∃ sub, (L, sub) ∈ doc.subschemas) → ∀ t ∈ doc.next L,
      ∃ sub, (t, sub) ∈ doc.subschemas := by
  rintro L ⟨sub, hsub⟩ t ht
  rw [JsonDocument.next_of_mem hsub] at ht
  obtain ⟨link, hlink, htarget⟩ := mem_filterMap.mp ht
  obtain ⟨e, he, -, htarget'⟩ := target_of_link hwalk hresolved hplain hsub hlink
  obtain rfl := Option.some.inj (htarget.symm.trans htarget')
  exact ⟨e.2, he⟩

end Accepted

/-- **The profile bounds what the evaluator does** on the accepted documents whose
references have no percent sign, and on no others. -/
theorem evaluationBounded_iff {doc : JsonDocument} (h : checkProfile doc = .ok ()) :
    doc.EvaluationBounded ↔ ∀ L ref, doc.RefAt L ref → '%' ∉ ref := by
  obtain ⟨w, hwalk, hresolved, hacyclic, hbudget⟩ := checkProfile_eq_ok h
  constructor
  · rintro hbounded L ref ⟨sub, hsub, hlink⟩
    obtain ⟨-, target, -, -, -, htarget, -, hdesignates⟩ :=
      hbounded.designated L ref ⟨sub, hsub, hlink⟩
    exact (designates_iff ((walked_document hwalk).subRefs _ hsub ref hlink) htarget).mp hdesignates
  · intro hplain
    have hroot : ∃ sub, ([], sub) ∈ doc.subschemas := ⟨doc.root, mem_subschemas_self [] doc.root⟩
    have hclosed := mem_of_next hwalk hresolved hplain
    refine ⟨?_, fun L hreach => ?_, fun n => ?_⟩
    · rintro L ref ⟨sub, hsub, hlink⟩
      obtain ⟨hedge, -⟩ := exists_sub_of_link hwalk hresolved hsub hlink
      obtain ⟨e, he, hpointer, htarget⟩ := target_of_link hwalk hresolved hplain hsub hlink
      exact ⟨w, e.1, e.2, hwalk, hedge, hpointer, he, htarget⟩
    · have hL : ∃ sub, (L, sub) ∈ doc.subschemas := by
        induction hreach with
        | refl => exact hroot
        | tail _ hstep ih => exact hclosed _ ih _ hstep
      obtain ⟨order, hfinished, hnodes, -⟩ := hresolved.exists_order hacyclic
      obtain ⟨sub, hsub⟩ := hL
      have hnode : encode L ∈ w.nodes :=
        ((walked_document hwalk).nodes _).mpr (.inr ⟨_, hsub, rfl⟩)
      refine GraphSearch.not_transGen_self_of_acc (f := encode)
        (S := fun L => ∃ sub, (L, sub) ∈ doc.subschemas) (fun x hx t ht => ?_) ⟨sub, hsub⟩
        (GraphSearch.acc_of_finished hfinished _ (hnodes hnode))
      obtain ⟨sub', hsub'⟩ := hx
      exact ⟨hclosed x ⟨sub', hsub'⟩ t ht,
        (next_sublist hwalk hresolved hplain hsub').subset (mem_map_of_mem ht)⟩
    · have hle := GraphSearch.entries_le_of_sublist (f := encode) hclosed
        (fun x ⟨sub, hsub⟩ => next_sublist hwalk hresolved hplain hsub) n [] hroot
      exact hle.trans (ProfileWalk.entries_le_of_checkWorkBudget hbudget n)

/-- A reference to a definition: `$defs` with the member `x`, and `$ref` to it. -/
def plainDocument : JsonDocument where
  root := .object (.cons "$defs".toList (.object (.cons "x".toList (.bool true) .nil))
    (.cons "$ref".toList (.string "#/$defs/x".toList) .nil))
  canonical := ⟨by decide, ⟨by decide, trivial, trivial⟩, by decide, trivial, trivial⟩

theorem plainDocument_bounded :
    checkProfile plainDocument = .ok () ∧ plainDocument.EvaluationBounded := by
  have haccepted : checkProfile plainDocument = .ok () := by decide +kernel
  refine ⟨haccepted, (evaluationBounded_iff haccepted).mpr ?_⟩
  rintro L ref ⟨sub, hsub, hlink⟩
  have hsubs : plainDocument.subschemas =
      [([], plainDocument.root), (["$defs".toList, "x".toList], .bool true)] := rfl
  rw [hsubs] at hsub
  rcases mem_cons.mp hsub with h | h
  · obtain ⟨-, rfl⟩ := Prod.mk.inj h
    have hlinks : plainDocument.root.links =
      [.sub ["$defs".toList, "x".toList], .ref "#/$defs/x".toList] := rfl
    rw [hlinks] at hlink
    have href : ref = "#/$defs/x".toList := by simpa using hlink
    rw [href]
    decide
  · obtain ⟨-, rfl⟩ := Prod.mk.inj (mem_singleton.mp h)
    exact absurd hlink not_mem_nil

/-- **Two definitions whose names differ by percent-encoding**: `a%b` refers to
`#/$defs/a%25b`, which is written like the other one and designates `a%b` itself. -/
def percentDocument : JsonDocument where
  root := .object (.cons "$defs".toList (.object (.cons "a%25b".toList (.bool true)
    (.cons "a%b".toList (.object (.cons "$ref".toList (.string "#/$defs/a%25b".toList) .nil))
      .nil))) .nil)
  canonical := ⟨by decide, ⟨by decide, trivial, by decide, ⟨by decide, trivial, trivial⟩, trivial⟩,
    trivial⟩

/-- It is accepted, and the evaluator does not leave `a%b` again. -/
theorem percentDocument_cycles : checkProfile percentDocument = .ok () ∧
    ["$defs".toList, "a%b".toList] ∈ percentDocument.next [] ∧
    ["$defs".toList, "a%b".toList] ∈ percentDocument.next ["$defs".toList, "a%b".toList] ∧
    ¬ percentDocument.EvaluationBounded := by
  have hroot : ["$defs".toList, "a%b".toList] ∈ percentDocument.next [] := by decide +kernel
  have hself : ["$defs".toList, "a%b".toList] ∈
      percentDocument.next ["$defs".toList, "a%b".toList] := by decide +kernel
  refine ⟨by decide +kernel, hroot, hself, fun hbounded => ?_⟩
  exact hbounded.acyclic _ (Relation.ReflTransGen.single hroot) (Relation.TransGen.single hself)

end Hikyo
