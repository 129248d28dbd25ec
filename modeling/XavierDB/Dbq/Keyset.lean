import XavierDB.Bson.Value
import XavierDB.Error

/-!
# The keyset continuation filter (`src/dbq.rs`)

Sort normalisation, the cursor and its values, and the filter that continues a
walk after a boundary document.
-/

namespace XavierDB.Dbq

/-! ## Sort -/

/-- Sort keys with their direction, ascending when positive. -/
abbrev SortKeys := List (String × Int)

/-- `normalize_sort`: append the `_id` tiebreaker. -/
def normalizeSort (sort : SortKeys) : SortKeys :=
  if sort.any fun p => p.1 == "_id" then sort
  else sort ++ [("_id", (sort.getLast?.map Prod.snd).getD 1)]

/-- `sort_document`. -/
def sortDocument (sort : SortKeys) : Document :=
  sort.foldl (fun d p => Document.insert d p.1 (.int32 (if 0 < p.2 then 1 else -1))) []

/-! ## Type brackets -/

/-- `TYPE_ORDER`. -/
def typeOrder : List String :=
  ["minKey", "null", "nan", "number", "symbol", "string", "object", "array", "binData",
    "objectId", "dbPointer", "bool", "date", "timestamp", "regex", "javascript",
    "javascriptWithScope", "maxKey"]

/-- `bson_type_bracket`. -/
def bsonTypeBracket : Bson → String
  | .double .nan => "nan"
  | .double _ | .int32 _ | .int64 _ | .decimal128 _ => "number"
  | .string _ => "string"
  | .array _ => "array"
  | .document _ => "object"
  | .boolean _ => "bool"
  | .null | .undefined => "null"
  | .objectId _ => "objectId"
  | .dateTime _ => "date"
  | .regularExpression .. => "regex"
  | .binary .. => "binData"
  | .timestamp .. => "timestamp"
  | .symbol _ => "symbol"
  | .javaScriptCode _ => "javascript"
  | .javaScriptCodeWithScope .. => "javascriptWithScope"
  | .minKey => "minKey"
  | .maxKey => "maxKey"
  | .dbPointer .. => "dbPointer"

/-- The index of the value's bracket (`position(..).unwrap_or(0)`). -/
def bracketIdx (b : Bson) : Nat := (typeOrder.findIdx? (· == bsonTypeBracket b)).getD 0

/-- `type_brackets_after`. -/
def typeBracketsAfter (b : Bson) : List String := typeOrder.drop (bracketIdx b + 1)

/-- `type_brackets_before`. -/
def typeBracketsBefore (b : Bson) : List String := typeOrder.take (bracketIdx b)

inductive KeysetTypeBrackets where
  | all
  | idOnly
  | off
  deriving DecidableEq, Repr

/-- The columns whose fallbacks a mode drops. -/
def KeysetTypeBrackets.drops : KeysetTypeBrackets → String → Bool
  | all, _ => false
  | idOnly, f => f == "_id"
  | off, _ => true

/-! ## Continuation -/

def isNull : Bson → Bool
  | .null | .undefined => true
  | _ => false

/-- `matches!(v, Bson::Double(d) if d.is_nan())`. -/
def isNan : Bson → Bool
  | .double d => d.isNan
  | _ => false

/-- The same-type continuation of a column. A null boundary has none: the
tiebreaker branch continues it. A NaN boundary continues at `-Inf` included. -/
def sameTypeConds (dir : Int) (v : Bson) : List Bson :=
  if isNull v then []
  else if isNan v then
    if 0 < dir then [.document [("$gte", .double .negInf)]] else []
  else [.document [(if 0 < dir then "$gt" else "$lt", v)]]

/-- The conditions of the listed brackets. `null` and `nan` have no `$type` form
that covers missing fields and NaN: equality branches match them. -/
def fallbackConds (brackets : List String) : List Bson :=
  if brackets.isEmpty then [] else
  let rest := brackets.filter fun s => s != "null" && s != "nan"
  (if rest.isEmpty then [] else [.document [("$type", .array (rest.map .string))]]) ++
  (if brackets.any (· == "null") then [.null] else []) ++
  (if brackets.any (· == "nan") then [.double .nan] else [])

/-- The type-bracket continuation of a column. Past an ascending NaN the numbers
are left to `sameTypeConds`: `$type: "number"` would match NaN itself. -/
def bracketConds (dir : Int) (v : Bson) : List Bson :=
  let brackets := if 0 < dir then typeBracketsAfter v else typeBracketsBefore v
  fallbackConds
    (if isNan v && decide (0 < dir) then brackets.filter (· != "number") else brackets)

/-- An arm: equality on the columns before, then the condition. -/
def arm (pre : List (String × Bson)) (f : String) (c : Bson) : Document :=
  Document.insert (pre.foldl (fun part p => Document.insert part p.1 p.2) []) f c

def columnConds (mode : KeysetTypeBrackets) (f : String) (dir : Int) (v : Bson) : List Bson :=
  sameTypeConds dir v ++ if mode.drops f then [] else bracketConds dir v

/-- The loop of `keyset_ors`; `pre` holds the columns passed. -/
def keysetLoop (mode : KeysetTypeBrackets) :
    List (String × Bson) → List ((String × Int) × Bson) → List Document
  | _, [] => []
  | pre, ((f, dir), v) :: rest =>
    (columnConds mode f dir v).map (arm pre f) ++ keysetLoop mode (pre ++ [(f, v)]) rest

/-- `keyset_ors`; indexing `last` past its end panics. -/
def keysetOrs (sort : SortKeys) (last : List Bson) (mode : KeysetTypeBrackets) : Res (List Document) :=
  if sort.length ≤ last.length then .ok (keysetLoop mode [] (sort.zip last)) else .error .panic

/-- A single arm stands alone, others go under `$or`. -/
def orDocument : List Document → Document
  | [arm] => arm
  | ors => [("$or", .array (ors.map .document))]

/-- `keyset_condition`. -/
def keysetCondition (sort : SortKeys) (last : List Bson) (mode : KeysetTypeBrackets) :
    Res Document := do
  let ors ← keysetOrs sort last mode
  let ors ← if ors.isEmpty && mode != .all then keysetOrs sort last .all else pure ors
  pure (orDocument ors)

/-! ## Cursor -/

structure Cursor where
  v : Nat
  id : String
  db : String
  coll : String
  sort : SortKeys
  /-- last seen values, as canonical extended JSON -/
  last : List String
  deriving DecidableEq, Repr

/-- The canonical extended JSON of the `bson` and `serde_json` crates. -/
structure ExtJson where
  canonical : Bson → String
  parse : String → Except String Bson

/-- The canonical form of the values met in closed instances. -/
def canonicalText : Bson → String
  | .int32 i => "\x7b\"$numberInt\":\"" ++ toString i ++ "\"\x7d"
  | .double .nan => "\x7b\"$numberDouble\":\"NaN\"\x7d"
  | .double .posInf => "\x7b\"$numberDouble\":\"Infinity\"\x7d"
  | .decimal128 .nan => "\x7b\"$numberDecimal\":\"NaN\"\x7d"
  | .document [(k, .int32 i)] =>
    "\x7b\"" ++ k ++ "\":\x7b\"$numberInt\":\"" ++ toString i ++ "\"\x7d\x7d"
  | .null => "null"
  | _ => ""

/-- Canonical extended JSON between the listed values and their text. -/
def tableJson (values : List Bson) : ExtJson where
  canonical := canonicalText
  parse s := match values.find? fun v => canonicalText v == s with
    | some v => .ok v
    | none => .error "invalid"

theorem tableJson_parse {values : List Bson} {v : Bson}
    (h : values.Pairwise fun a b => canonicalText a ≠ canonicalText b) (hv : v ∈ values) :
    (tableJson values).parse ((tableJson values).canonical v) = .ok v := by
  have hfind : values.find? (fun w => canonicalText w == canonicalText v) = some v := by
    induction values with
    | nil => cases hv
    | cons w values ih =>
      obtain ⟨hw, h⟩ := List.pairwise_cons.mp h
      rcases List.mem_cons.mp hv with rfl | hv
      · simp
      · rw [List.find?_cons_of_neg (by simpa using hw v hv), ih h hv]
  simp only [tableJson, hfind]

/-- `bson_to_cursor_json`. -/
def bsonToCursorJson (X : ExtJson) (b : Bson) : Except String String := .ok (X.canonical b)

/-- `cursor_json_to_bson`. -/
def cursorJsonToBson (X : ExtJson) (s : String) : Except String Bson :=
  (X.parse s).mapError fun e => "bad cursor value: " ++ e

/-- `Cursor::last_bson`. -/
def Cursor.lastBson (X : ExtJson) (c : Cursor) : Res (List Bson) :=
  c.last.mapM fun s => (cursorJsonToBson X s).mapError fun e => .api ⟨.invalidCursor, e⟩

/-- `build_filter`. -/
def buildFilter (X : ExtJson) (user : Option Document) (cursor : Option Cursor)
    (mode : KeysetTypeBrackets) : Res Document := do
  let keyset ← match cursor with
    | some c => (do return some (← keysetCondition c.sort (← c.lastBson X) mode))
    | none => pure none
  match user, keyset with
  | some u, some k =>
    if u.isEmpty then pure k else pure [("$and", .array [.document u, .document k])]
  | some u, none => pure u
  | none, some k => pure k
  | none, none => pure []

end XavierDB.Dbq
