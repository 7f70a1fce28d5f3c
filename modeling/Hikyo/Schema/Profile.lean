import Hikyo.Lib.GraphSearch
import Hikyo.Lib.JsonPointer

/-!
# The JSON Schema profile

A schema that a declaration brings along is cleared before the library that
evaluates it sees it: only known keywords, a bound on the nesting and on the number
of subschemas, and references inside the document only. The walk over the document
notes every subschema under its JSON pointer and every edge between them – a
subschema to the ones it contains, and to the one its `$ref` names. Over this graph
cycles are refused, and the evaluations that reuse of references expands to are
counted against the budget.

Strings are byte strings, as in the source; the members of an object are kept in
the order of their names, in which the source goes through them.
-/

namespace Hikyo

open JsonPointer (Text)

/-! ## Documents -/

mutual

/-- A decoded JSON value. -/
inductive JsonValue where
  | null
  | bool (b : Bool)
  | number (literal : Text)
  | string (s : Text)
  | array (items : JsonItems)
  | object (members : JsonMembers)

/-- The items of an array. -/
inductive JsonItems where
  | nil
  | cons (item : JsonValue) (rest : JsonItems)

/-- The members of an object. -/
inductive JsonMembers where
  | nil
  | cons (name : Text) (value : JsonValue) (rest : JsonMembers)

end

def JsonMembers.names : JsonMembers → List Text
  | .nil => []
  | .cons name _ rest => name :: rest.names

mutual

/-- Every object has its members in the order of their names, none twice. -/
def JsonValue.Canonical : JsonValue → Prop
  | .array items => items.Canonical
  | .object members => members.Canonical
  | _ => True

def JsonItems.Canonical : JsonItems → Prop
  | .nil => True
  | .cons item rest => item.Canonical ∧ rest.Canonical

def JsonMembers.Canonical : JsonMembers → Prop
  | .nil => True
  | .cons name value rest => (∀ n ∈ rest.names, name < n) ∧ value.Canonical ∧ rest.Canonical

end

/-- **A document**, as the decoder hands it over. -/
structure JsonDocument where
  root : JsonValue
  canonical : root.Canonical

/-! ## The profile -/

/-- How the value of a keyword is shaped, which says where the subschemas are. -/
inductive KeywordKind where
  | data
  | schema
  | schemaArray
  | schemaMap
deriving DecidableEq, Repr

/-- **The profile**: an allowlist. -/
def allowedKeywords : List (String × KeywordKind) :=
  [("$schema", .data), ("$comment", .data), ("$ref", .data), ("$defs", .schemaMap),
    ("type", .data), ("enum", .data), ("const", .data), ("multipleOf", .data), ("maximum", .data),
    ("exclusiveMaximum", .data), ("minimum", .data), ("exclusiveMinimum", .data),
    ("maxLength", .data), ("minLength", .data), ("pattern", .data), ("maxItems", .data),
    ("minItems", .data), ("maxProperties", .data), ("minProperties", .data), ("required", .data),
    ("dependentRequired", .data),
    ("properties", .schemaMap), ("patternProperties", .schemaMap), ("dependentSchemas", .schemaMap),
    ("additionalProperties", .schema), ("propertyNames", .schema), ("items", .schema),
    ("prefixItems", .schemaArray), ("allOf", .schemaArray), ("anyOf", .schemaArray),
    ("oneOf", .schemaArray), ("not", .schema), ("if", .schema), ("then", .schema),
    ("else", .schema),
    ("title", .data), ("description", .data), ("examples", .data), ("deprecated", .data),
    ("readOnly", .data), ("writeOnly", .data)]

/-- The keywords that are refused by name, with the reason. -/
def excludedKeywords : List (String × String) :=
  [("$dynamicRef", "its resolution depends on the dynamic scope, so a schema's meaning stops being statically determinable"),
    ("$dynamicAnchor", "its resolution depends on the dynamic scope, so a schema's meaning stops being statically determinable"),
    ("unevaluatedProperties", "its cost is not statically boundable, so the declaration-time work bound could not hold"),
    ("unevaluatedItems", "its cost is not statically boundable, so the declaration-time work bound could not hold"),
    ("contains", "an unbounded `contains` has no statically boundable cost; the profile excludes `contains` outright, which is the reversible direction"),
    ("uniqueItems", "comparing every array element against every other is QUADRATIC in the instance, so it is not boundable at linear cost per subschema — and the declaration-time work budget is only a step cap while every surviving keyword is at most linear. Widening later is additive, on the same ground as `contains`"),
    ("minContains", "`contains` is excluded from the profile, so its bounds have nothing to bound"),
    ("maxContains", "`contains` is excluded from the profile, so its bounds have nothing to bound"),
    ("default", "there is no defaulting mechanism in this product at all (flat-model ADR): a declared `default` would be an invisible source of values, and a schema must never appear to supply something it does not"),
    ("format", "JSON Schema makes `format` an annotation by default, so an asserted-looking `format` may validate nothing, and format assertion is the single largest source of cross-library divergence — use `pattern`"),
    ("$id", "the profile resolves `$ref` as an in-document JSON pointer only, so base-URI machinery is excluded"),
    ("$anchor", "the profile resolves `$ref` as an in-document JSON pointer only, so anchors are excluded"),
    ("$vocabulary", "one pinned dialect, with no vocabulary negotiation"),
    ("contentEncoding", "content keywords are annotations by default, so an asserted-looking one may validate nothing"),
    ("contentMediaType", "content keywords are annotations by default, so an asserted-looking one may validate nothing"),
    ("contentSchema", "content keywords are annotations by default, so an asserted-looking one may validate nothing")]

def keywordKind (name : Text) : Option KeywordKind :=
  (allowedKeywords.find? fun e => e.1.toList = name).map Prod.snd

def excludedReason (name : Text) : Option String :=
  (excludedKeywords.find? fun e => e.1.toList = name).map Prod.snd

def dialect2020 : String := "https://json-schema.org/draft/2020-12/schema"

def maxJSONSchemaDepth : ℕ := 32
def maxValidatedInstanceBytes : ℕ := 65536
def maxEvaluationWork : ℕ := 16777216
def maxJSONSchemaSubschemas : ℕ := maxEvaluationWork / maxValidatedInstanceBytes

/-- Why a document is refused. -/
inductive ProfileError where
  | depth
  | subschemas (count : ℕ)
  | notSchema (ptr : Text)
  | excluded (name : Text) (reason : String)
  | unknownKeyword (name : Text)
  | notArray (name : Text)
  | notObject (name : Text)
  | dialect
  | refNotString
  | refForm (ref : Text)
  | unresolved (ptr : Text)
  | cycle (ptr : Text)
  | budget
  /-- a loop ran out of fuel, which it does not do (`Resolved.checkAcyclic_ne_endless`,
  `Resolved.checkWorkBudget_ne_endless`) -/
  | endless
deriving DecidableEq, Repr

/-- A node as a message names it. -/
def pointerName (ptr : Text) : String := "#" ++ String.ofList ptr

def ProfileError.quoted (text : String) : String := "\"" ++ text ++ "\""

/-- The message of a refusal. -/
def ProfileError.text : ProfileError → String
  | .depth => "`json_schema`: nesting depth exceeds " ++ toString maxJSONSchemaDepth
  | .subschemas count => "`json_schema`: subschema count " ++ toString count ++ " exceeds the " ++
      toString maxJSONSchemaSubschemas ++ " the " ++ toString maxEvaluationWork ++
      "-step evaluation work budget allows at " ++ toString maxValidatedInstanceBytes ++
      " validated instance bytes"
  | .notSchema ptr => "`json_schema`: the value at " ++ quoted (pointerName ptr) ++
      " must be a JSON object or boolean schema"
  | .excluded name reason => "`json_schema`: keyword " ++ quoted (String.ofList name) ++
      " is excluded from the supported profile — " ++ reason
  | .unknownKeyword name => "`json_schema`: keyword " ++ quoted (String.ofList name) ++
      " is not in the supported profile (the profile is an allowlist, so an unknown keyword is refused rather than ignored)"
  | .notArray name => "`json_schema`: keyword " ++ quoted (String.ofList name) ++
      " must hold an array of schemas"
  | .notObject name => "`json_schema`: keyword " ++ quoted (String.ofList name) ++
      " must hold an object of schemas"
  | .dialect => "`json_schema`: `$schema` must be " ++ quoted dialect2020 ++
      " — one pinned dialect, no negotiation"
  | .refNotString => "`json_schema`: `$ref` must be a string"
  | .refForm ref => "`json_schema`: `$ref` " ++ quoted (String.ofList ref) ++
      " must be an in-document JSON pointer (`#/…`) — remote and file references are excluded"
  | .unresolved ptr => "`json_schema`: `$ref` at " ++ quoted (pointerName ptr) ++
      " does not resolve to a subschema in this document"
  | .cycle ptr => "`json_schema`: reference cycle through " ++ quoted (pointerName ptr) ++
      " — cycles are rejected at declaration"
  | .budget => "`json_schema`: `$ref` reuse expands to more than " ++
      toString maxJSONSchemaSubschemas ++ " evaluation paths, which exceeds the " ++
      toString maxEvaluationWork ++ "-step evaluation work budget at " ++
      toString maxValidatedInstanceBytes ++ " validated instance bytes"
  | .endless => ""

/-! ## The walk -/

/-- **What the walk carries**: the subschemas by their pointer, the edges in the
order in which they were found, and the number of subschemas entered. -/
structure ProfileWalk where
  nodes : List Text
  edges : List (Text × Text)
  count : ℕ

namespace ProfileWalk

def empty : ProfileWalk := ⟨[], [], 0⟩

/-- Enter a subschema, within the bounds on the nesting and on the count. -/
def enter (w : ProfileWalk) (ptr : Text) (depth : ℕ) : Except ProfileError ProfileWalk :=
  if maxJSONSchemaDepth < depth then .error .depth
  else if maxJSONSchemaSubschemas < w.count + 1 then .error (.subschemas (w.count + 1))
  else .ok { w with nodes := w.nodes.insert ptr, count := w.count + 1 }

def addEdge (w : ProfileWalk) (source target : Text) : ProfileWalk :=
  { w with edges := w.edges ++ [(source, target)] }

/-- `w.edges[node]`. -/
def edgesOf (w : ProfileWalk) (node : Text) : List Text :=
  (w.edges.filter fun e => e.1 = node).map Prod.snd

end ProfileWalk

/-- `strings.ReplaceAll` of one byte. -/
def replaceAll (old : Char) (new text : Text) : Text :=
  text.flatMap fun c => if c = old then new else [c]

/-- `escapePointer`, as the source computes it. -/
def escapePointer (token : Text) : Text :=
  replaceAll '/' ['~', '1'] (replaceAll '~' ['~', '0'] token)

/-- `unescapeRefTarget`: the reference without its leading `#`, as it is written. -/
def unescapeRefTarget (ref : Text) : Text :=
  match ref with
  | [] => []
  | c :: rest => if c = '#' then rest else ref

/-- `strconv.Itoa`. -/
def itoa (i : ℕ) : Text := (Nat.repr i).toList

/-- The reference form: in the document only. -/
def validRef (ref : Text) : Bool := ref = ['#'] ∨ ['#', '/'] <+: ref

/-- The data keywords whose value the profile constrains. -/
def ProfileWalk.dataKeyword (w : ProfileWalk) (ptr name : Text) (value : JsonValue) :
    Except ProfileError ProfileWalk :=
  if name = "$schema".toList then
    match value with
    | .string declared => if declared = dialect2020.toList then .ok w else .error .dialect
    | _ => .error .dialect
  else if name = "$ref".toList then
    match value with
    | .string ref =>
      if validRef ref then .ok (w.addEdge ptr (unescapeRefTarget ref)) else .error (.refForm ref)
    | _ => .error .refNotString
  else .ok w

mutual

/-- **One subschema**, an object or a boolean. -/
def ProfileWalk.schema (w : ProfileWalk) (ptr : Text) (depth : ℕ) :
    JsonValue → Except ProfileError ProfileWalk
  | .object members =>
    match w.enter ptr depth with
    | .error e => .error e
    | .ok w => w.keywords ptr depth members
  | .bool _ => w.enter ptr depth
  | _ =>
    match w.enter ptr depth with
    | .error e => .error e
    | .ok _ => .error (.notSchema ptr)

/-- The keywords of a subschema, in the order of their names. -/
def ProfileWalk.keywords (w : ProfileWalk) (ptr : Text) (depth : ℕ) :
    JsonMembers → Except ProfileError ProfileWalk
  | .nil => .ok w
  | .cons name value rest =>
    match excludedReason name with
    | some reason => .error (.excluded name reason)
    | none =>
      match keywordKind name with
      | none => .error (.unknownKeyword name)
      | some .data =>
        match w.dataKeyword ptr name value with
        | .error e => .error e
        | .ok w => w.keywords ptr depth rest
      | some .schema =>
        match (w.addEdge ptr (ptr ++ '/' :: escapePointer name)).schema
            (ptr ++ '/' :: escapePointer name) (depth + 1) value with
        | .error e => .error e
        | .ok w => w.keywords ptr depth rest
      | some .schemaArray =>
        match value with
        | .array items =>
          match w.schemaItems ptr (ptr ++ '/' :: escapePointer name) depth 0 items with
          | .error e => .error e
          | .ok w => w.keywords ptr depth rest
        | _ => .error (.notArray name)
      | some .schemaMap =>
        match value with
        | .object members =>
          match w.schemaMembers ptr (ptr ++ '/' :: escapePointer name) depth members with
          | .error e => .error e
          | .ok w => w.keywords ptr depth rest
        | _ => .error (.notObject name)

/-- An array of subschemas. -/
def ProfileWalk.schemaItems (w : ProfileWalk) (ptr child : Text) (depth i : ℕ) :
    JsonItems → Except ProfileError ProfileWalk
  | .nil => .ok w
  | .cons item rest =>
    match (w.addEdge ptr (child ++ '/' :: itoa i)).schema (child ++ '/' :: itoa i) (depth + 1)
        item with
    | .error e => .error e
    | .ok w => w.schemaItems ptr child depth (i + 1) rest

/-- An object of subschemas. -/
def ProfileWalk.schemaMembers (w : ProfileWalk) (ptr child : Text) (depth : ℕ) :
    JsonMembers → Except ProfileError ProfileWalk
  | .nil => .ok w
  | .cons member value rest =>
    match (w.addEdge ptr (child ++ '/' :: escapePointer member)).schema
        (child ++ '/' :: escapePointer member) (depth + 1) value with
    | .error e => .error e
    | .ok w => w.schemaMembers ptr child depth rest

end

/-! ## The checks -/

/-- Every reference leads to a subschema of the document. -/
def ProfileWalk.checkResolved (w : ProfileWalk) : Except ProfileError Unit :=
  match w.edges.find? fun e => e.2 ∉ w.nodes with
  | some e => .error (.unresolved e.1)
  | none => .ok ()

/-- The search for cycles, over the nodes and their edges in order. -/
def ProfileWalk.checkAcyclic (w : ProfileWalk) : Except ProfileError Unit :=
  match GraphSearch.search (fun node => (w.edgesOf node).insertionSort (· ≤ ·))
      (w.nodes.length + 1) (w.nodes.insertionSort (· ≤ ·)) with
  | .error (.cycle node) => .error (.cycle node)
  | .error .endless => .error .endless
  | .ok _ => .ok ()

/-- **The evaluation paths** from the root, just above the limit if there are more. -/
def ProfileWalk.expandedPaths (w : ProfileWalk) (limit : ℕ) : Option ℕ :=
  (GraphSearch.count w.edgesOf limit w.nodes.length [] []).map Prod.snd

def ProfileWalk.checkWorkBudget (w : ProfileWalk) : Except ProfileError Unit :=
  let limit := maxEvaluationWork / maxValidatedInstanceBytes
  match w.expandedPaths limit with
  | none => .error .endless
  | some paths => if limit < paths then .error .budget else .ok ()

/-- **The pre-pass over a document.** -/
def checkProfile (doc : JsonDocument) : Except ProfileError Unit := do
  let w ← ProfileWalk.empty.schema [] 1 doc.root
  w.checkResolved
  w.checkAcyclic
  w.checkWorkBudget

end Hikyo
