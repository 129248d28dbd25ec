import XavierDB.Bson.Json
import XavierDB.Error

/-!
# JSON and BSON (`src/dbq.rs`)

The two conversions, with the extended-JSON tokens as the code reads them.
-/

namespace XavierDB.Dbq

/-- The text forms that the crates `bson`, `base64` and `chrono` and the floats
of the standard library read and write. -/
structure TextForms where
  parseOid : String → Except String (List UInt8)
  toHex : List UInt8 → String
  parseRfc3339 : String → Except String Int64
  toRfc3339 : Int64 → String
  parseF64 : String → Option F64
  f64Text : F64 → String
  parseDecimal : String → Except String Decimal128
  decimalText : Decimal128 → String
  decodeBase64 : String → Option (List UInt8)
  encodeBase64 : List UInt8 → String
  dbPointerValue : String → List UInt8 → Json

variable (T : TextForms)

/-! ## Tokens -/

/-- `parse_i64`. -/
def parseI64 (s : String) : Option Int64 := (signedOfStr 10 (2 ^ 63 - 1) s).map Int64.ofInt

def parseI32 (s : String) : Option Int32 := (signedOfStr 10 (2 ^ 31 - 1) s).map Int32.ofInt

/-- What a token gives: a value or an error. -/
abbrev Token := Except String Bson

def options (m : List (String × Json)) : String :=
  match (m.lookup "$options").bind Json.asStr with
  | some s => s
  | none => ""

/-- `{"$regex": s}`, also with `$options`. -/
def regexToken (m : List (String × Json)) : Option Token :=
  match m.lookup "$regex" with
  | some (.string re) =>
    if m.length = 1 ∨ (m.length = 2 ∧ (m.lookup "$options").isSome) then
      some (.ok (.regularExpression re (options m)))
    else none
  | _ => none

/-- A token with a string at its key. -/
def stringToken (key : String) (parse : String → Token) (m : List (String × Json)) :
    Option Token :=
  match m.lookup key with
  | some (.string s) => some (parse s)
  | _ => none

def oidToken : List (String × Json) → Option Token :=
  stringToken "$oid" fun s => ((T.parseOid s).map .objectId).mapError ("bad $oid: " ++ ·)

def millis : Option Int64 → Token
  | some ms => .ok (.dateTime ms)
  | none => .error "bad $date millis"

def dateToken (m : List (String × Json)) : Option Token :=
  (m.lookup "$date").map fun
    | .string s => ((T.parseRfc3339 s).map .dateTime).mapError ("bad $date: " ++ ·)
    | .object o =>
      match o.lookup "$numberLong" with
      | some v => millis (parseI64 (v.asStr.getD ""))
      | none => .error "bad $date"
    | .number n => millis n.asI64
    | _ => .error "bad $date"

def numberLongToken : List (String × Json) → Option Token :=
  stringToken "$numberLong" fun s =>
    match parseI64 s with
    | some i => .ok (.int64 i)
    | none => .error "bad $numberLong"

def numberIntToken : List (String × Json) → Option Token :=
  stringToken "$numberInt" fun s =>
    match parseI32 s with
    | some i => .ok (.int32 i)
    | none => .error "bad $numberInt"

def numberDoubleToken : List (String × Json) → Option Token :=
  stringToken "$numberDouble" fun s =>
    match T.parseF64 s with
    | some d => .ok (.double d)
    | none => .error "bad $numberDouble"

def numberDecimalToken : List (String × Json) → Option Token :=
  stringToken "$numberDecimal" fun s =>
    match T.parseDecimal s with
    | .ok d => .ok (.decimal128 d)
    | .error _ => .error "bad $numberDecimal"

/-- A subtype that is no byte in hexadecimal is 0. -/
def subtypeOf (s : String) : UInt8 := ((unsignedOfStr 16 255 s).getD 0).toUInt8

def binaryOf (b64 st : String) : Token :=
  match T.decodeBase64 b64 with
  | some bytes => .ok (.binary (subtypeOf st) bytes)
  | none => .error "bad $binary base64"

def binaryToken (m : List (String × Json)) : Option Token :=
  match m.lookup "$binary" with
  | none => none
  | some o =>
    match o.get "base64", o.get "subType" with
    | some (.string b64), some (.string st) => some (binaryOf T b64 st)
    | _, _ => none

/-- A counter of a timestamp. -/
def counter (o : List (String × Json)) (key : String) : Except String UInt32 :=
  match ((o.lookup key).bind Json.asI64).filter fun v => 0 ≤ v ∧ v ≤ 4294967295 with
  | some v => .ok v.toUInt64.toUInt32
  | none => .error ("bad $timestamp " ++ key)

def timestampOf (o : List (String × Json)) : Token := do
  let t ← counter o "t"
  let i ← counter o "i"
  return .timestamp t i

def timestampToken (m : List (String × Json)) : Option Token :=
  (m.lookup "$timestamp").map fun
    | .object o => timestampOf o
    | _ => .error "bad $timestamp"

def keyToken (key : String) (b : Bson) (m : List (String × Json)) : Option Token :=
  (m.lookup key).map fun _ => .ok b

/-- The token that an object spells; in the order of the code, which reads
`$regex` with one key twice. -/
def token (m : List (String × Json)) : Option Token :=
  regexToken m <|>
    if m.length = 1 then
      oidToken T m <|> dateToken T m <|> numberLongToken m <|> numberIntToken m <|>
        numberDoubleToken T m <|> numberDecimalToken T m <|> binaryToken T m <|> regexToken m <|>
        timestampToken m <|> keyToken "$minKey" .minKey m <|> keyToken "$maxKey" .maxKey m
    else none

/-! ## The conversions -/

/-- An integer above the signed ones is a decimal. -/
def numberToBson (n : Number) : Token :=
  match n.asI64 with
  | some i => .ok (.int64 i)
  | none =>
    match n.asU64 with
    | some u =>
      if u.toNat ≤ 2 ^ 63 - 1 then .ok (.int64 u.toInt64)
      else ((T.parseDecimal (toString u)).map .decimal128).mapError ("bad u64: " ++ ·)
    | none => .ok (.double (n.asF64.getD (.fin 0)))

mutual

/-- `json_to_bson`. -/
def jsonToBson : Json → Except String Bson
  | .null => .ok .null
  | .bool b => .ok (.boolean b)
  | .number n => numberToBson T n
  | .string s => .ok (.string s)
  | .array a => (arrayToBson a).map .array
  | .object m =>
    match token T m with
    | some r => r
    | none => (entriesToBson [] m).map .document

def arrayToBson : List Json → Except String (List Bson)
  | [] => .ok []
  | v :: rest => do
    let b ← jsonToBson v
    let bs ← arrayToBson rest
    return b :: bs

def entriesToBson (doc : Document) : List (String × Json) → Except String Document
  | [] => .ok doc
  | (k, v) :: rest => do
    let b ← jsonToBson v
    entriesToBson (doc.insert k b) rest

end

mutual

/-- `bson_to_json`. -/
def bsonToJson : Bson → Json
  | .double d =>
    if h : d.isFinite then .number (.float ⟨d, h⟩)
    else .object [("$numberDouble", .string (T.f64Text d))]
  | .string s => .string s
  | .array a => .array (arrayToJson a)
  | .document d => .object (documentToJson d)
  | .boolean x => .bool x
  | .null | .undefined => .null
  | .int32 i => .number (.ofI64 i.toInt64)
  | .int64 i => .number (.ofI64 i)
  | .objectId oid => .string (T.toHex oid)
  | .dateTime dt => .string (T.toRfc3339 dt)
  | .regularExpression pattern options =>
    if options.isEmpty then .object [("$regex", .string pattern)]
    else .object [("$regex", .string pattern), ("$options", .string options)]
  | .binary subtype bytes =>
    .object [("$binary", .object [("base64", .string (T.encodeBase64 bytes)),
      ("subType", .string (hexByte subtype))])]
  | .timestamp time increment =>
    .object [("$timestamp", .object [("t", .number (.ofU32 time)),
      ("i", .number (.ofU32 increment))])]
  | .decimal128 d => .object [("$numberDecimal", .string (T.decimalText d))]
  | .symbol s => .string s
  | .javaScriptCode s => .string s
  | .javaScriptCodeWithScope code scope =>
    .object [("$code", .string code), ("$scope", .object (documentToJson scope))]
  | .dbPointer ns id => T.dbPointerValue ns id
  | .maxKey => .object [("$maxKey", .number (.posInt 1))]
  | .minKey => .object [("$minKey", .number (.posInt 1))]

def arrayToJson : List Bson → List Json
  | [] => []
  | b :: rest => bsonToJson b :: arrayToJson rest

def documentToJson : List (String × Bson) → List (String × Json)
  | [] => []
  | (k, b) :: rest => (k, bsonToJson b) :: documentToJson rest

end

/-! ## Token shapes -/

section Shape

variable {α : Type} (isString isBody : α → Bool)

/-- A key and value that spell a token by themselves. -/
def keyShape (k : String) (v : α) : Bool :=
  ["$date", "$timestamp", "$minKey", "$maxKey"].any (· == k) ||
    (["$regex", "$oid", "$numberLong", "$numberInt", "$numberDouble", "$numberDecimal"].any (· == k)
      && isString v) ||
    ("$binary" == k && isBody v)

/-- The entries of an extended-JSON token. -/
def shape : List (String × α) → Bool
  | [(k, v)] => keyShape isString isBody k v
  | [(k, v), (k', v')] =>
    ("$regex" == k && "$options" == k' && isString v) ||
      ("$options" == k && "$regex" == k' && isString v')
  | _ => false

/-- Two strings where `$binary` expects them. -/
def bodyShape (o : List (String × α)) : Bool :=
  (o.lookup "base64").any isString && (o.lookup "subType").any isString

end Shape

def jsonIsString : Json → Bool
  | .string _ => true
  | _ => false

def jsonIsBody : Json → Bool
  | .object o => bodyShape jsonIsString o
  | _ => false

def bsonIsString : Bson → Bool
  | .string _ => true
  | _ => false

def bsonIsBody : Bson → Bool
  | .document o => bodyShape bsonIsString o
  | _ => false

/-- An object that the code reads as a token. -/
def TokenShaped (m : List (String × Json)) : Prop := shape jsonIsString jsonIsBody m

/-- A document whose JSON the code reads as a token. -/
def SpellsToken (d : Document) : Prop := shape bsonIsString bsonIsBody d

instance (m : List (String × Json)) : Decidable (TokenShaped m) :=
  inferInstanceAs (Decidable (_ = true))

instance (d : Document) : Decidable (SpellsToken d) := inferInstanceAs (Decidable (_ = true))

section Single

variable (k : String) (v : Json)

theorem isSome_stringToken (key : String) (parse : String → Token) :
    (stringToken key parse [(k, v)]).isSome = (key == k && jsonIsString v) := by
  rw [stringToken, lookup_single]
  cases key == k <;> cases v <;> rfl

theorem isSome_map_lookup {β : Type} (key : String) (f : Json → β) :
    (([(k, v)].lookup key).map f).isSome = (key == k) := by
  rw [Option.isSome_map, lookup_single]
  cases key == k <;> rfl

theorem isSome_regexToken : (regexToken [(k, v)]).isSome = ("$regex" == k && jsonIsString v) := by
  rw [regexToken, lookup_single]
  cases "$regex" == k <;> cases v <;> rfl

theorem isSome_binaryToken : (binaryToken T [(k, v)]).isSome = ("$binary" == k && jsonIsBody v) := by
  rw [binaryToken, lookup_single]
  cases "$binary" == k
  case false => rfl
  case true =>
    simp only [if_true, Bool.true_and]
    cases v with
    | object o =>
      simp only [Json.get, jsonIsBody, bodyShape]
      generalize o.lookup "base64" = b64
      generalize o.lookup "subType" = st
      rcases b64 with _ | (_ | _ | _ | b64 | _ | _) <;> rcases st with _ | (_ | _ | _ | st | _ | _) <;>
        rfl
    | _ => rfl

end Single

theorem isSome_regexToken_pair (k k' : String) (v v' : Json) :
    (regexToken [(k, v), (k', v')]).isSome =
      (("$regex" == k && "$options" == k' && jsonIsString v) ||
        ("$options" == k && "$regex" == k' && jsonIsString v')) := by
  have hkeys : ("$options" == "$regex") = false := by decide
  by_cases hk : "$regex" = k
  · subst hk
    cases v <;> cases h : "$options" == k' <;>
      simp [regexToken, List.lookup_cons, jsonIsString, hkeys, h]
  · have hk' : ("$regex" == k) = false := beq_eq_false_iff_ne.mpr hk
    by_cases hr : "$regex" = k'
    · subst hr
      cases v' <;> cases h : "$options" == k <;>
        simp [regexToken, List.lookup_cons, jsonIsString, hkeys, hk', h]
    · have hr' : ("$regex" == k') = false := beq_eq_false_iff_ne.mpr hr
      simp [regexToken, List.lookup_cons, hk', hr']

theorem isSome_orElse {α : Type} (a b : Option α) : (a <|> b).isSome = (a.isSome || b.isSome) := by
  cases a <;> rfl

theorem isSome_token (m : List (String × Json)) :
    (token T m).isSome = shape jsonIsString jsonIsBody m := by
  obtain _ | ⟨⟨k, v⟩, _ | ⟨⟨k', v'⟩, _ | ⟨p, m⟩⟩⟩ := m
  · rfl
  · rw [token, if_pos List.length_singleton]
    simp only [isSome_orElse, isSome_regexToken, oidToken, numberLongToken, numberIntToken,
      numberDoubleToken, numberDecimalToken, isSome_stringToken, dateToken, timestampToken,
      keyToken, isSome_map_lookup, isSome_binaryToken, shape, keyShape, List.any_cons, List.any_nil]
    grind
  · rw [token, if_neg (by simp), isSome_orElse, isSome_regexToken_pair]
    exact Bool.or_false _
  · rw [token, if_neg (by simp), isSome_orElse, regexToken]
    split
    case h_1 => rw [if_neg (by simp)]; rfl
    case h_2 => rfl

theorem token_eq_none {m : List (String × Json)} (h : ¬ TokenShaped m) : token T m = none := by
  rw [← Option.not_isSome_iff_eq_none, isSome_token]
  exact h

theorem regexToken_eq_none {m : List (String × Json)} (h : token T m = none) :
    regexToken m = none := by
  cases hr : regexToken m with
  | none => rfl
  | some r =>
    rw [token, hr] at h
    cases h

theorem exists_token {m : List (String × Json)} (h : TokenShaped m) : ∃ r, token T m = some r := by
  rw [← Option.isSome_iff_exists, isSome_token]
  exact h

/-! ## What a token gives -/

/-- The values of the tokens other than `$regex`. -/
def isTokenValue : Bson → Bool
  | .objectId _ | .dateTime _ | .int64 _ | .int32 _ | .double _ | .decimal128 _ | .binary ..
  | .timestamp .. | .minKey | .maxKey => true
  | _ => false

/-- An error or a value of one of these tokens. -/
def yieldsTokenValue : Token → Bool
  | .ok b => isTokenValue b
  | .error _ => true

def GivesTokenValue (t : Option Token) : Prop := ∀ r, t = some r → yieldsTokenValue r = true

section

variable {T}

theorem GivesTokenValue.orElse {a b : Option Token} (ha : GivesTokenValue a)
    (hb : GivesTokenValue b) : GivesTokenValue (a <|> b) := by
  cases a with
  | none => exact hb
  | some r => exact ha

theorem givesTokenValue_none : GivesTokenValue none := by
  rintro r ⟨⟩

theorem givesTokenValue_stringToken {key : String} {parse : String → Token}
    (h : ∀ s, yieldsTokenValue (parse s) = true) (m : List (String × Json)) :
    GivesTokenValue (stringToken key parse m) := by
  rw [stringToken]
  split
  case h_1 s _ =>
    rintro r ⟨⟩
    exact h s
  case h_2 => exact givesTokenValue_none

theorem givesTokenValue_map {f : Json → Token} (h : ∀ v, yieldsTokenValue (f v) = true)
    (o : Option Json) : GivesTokenValue (o.map f) := by
  cases o with
  | none => exact givesTokenValue_none
  | some v =>
    rintro r ⟨⟩
    exact h v

theorem yieldsTokenValue_map {α : Type} {f : α → Bson} (hf : ∀ a, isTokenValue (f a) = true)
    (r : Except String α) (g : String → String) :
    yieldsTokenValue ((r.map f).mapError g) = true := by
  cases r with
  | error e => rfl
  | ok a => exact hf a

theorem givesTokenValue_oidToken (m : List (String × Json)) : GivesTokenValue (oidToken T m) :=
  givesTokenValue_stringToken (fun _ => yieldsTokenValue_map (fun _ => rfl) _ _) m

theorem givesTokenValue_dateToken (m : List (String × Json)) : GivesTokenValue (dateToken T m) := by
  have hmillis : ∀ o, yieldsTokenValue (millis o) = true := by
    intro o
    cases o <;> rfl
  refine givesTokenValue_map (fun v => ?_) _
  split
  case h_1 s => exact yieldsTokenValue_map (fun _ => rfl) _ _
  case h_2 =>
    split
    case h_1 => exact hmillis _
    case h_2 => rfl
  case h_3 => exact hmillis _
  case h_4 => rfl

theorem givesTokenValue_numbers (m : List (String × Json)) {t : Option Token}
    (h : GivesTokenValue t) :
    GivesTokenValue (numberLongToken m <|> numberIntToken m <|> numberDoubleToken T m <|>
      numberDecimalToken T m <|> t) := by
  refine .orElse ?_ (.orElse ?_ (.orElse ?_ (.orElse ?_ h))) <;>
    refine givesTokenValue_stringToken (fun s => ?_) m <;> split <;> rfl

theorem givesTokenValue_binaryToken (m : List (String × Json)) :
    GivesTokenValue (binaryToken T m) := by
  rw [binaryToken]
  split
  case h_1 => exact givesTokenValue_none
  case h_2 =>
    split
    case h_1 b64 st _ _ =>
      rintro r ⟨⟩
      rw [binaryOf]
      split <;> rfl
    case h_2 => exact givesTokenValue_none

theorem givesTokenValue_timestampToken (m : List (String × Json)) :
    GivesTokenValue (timestampToken m) := by
  refine givesTokenValue_map (fun v => ?_) _
  split
  case h_1 o =>
    rw [timestampOf]
    cases counter o "t" with
    | error e => rfl
    | ok t => cases counter o "i" <;> rfl
  case h_2 => rfl

theorem givesTokenValue_token {m : List (String × Json)} (h : regexToken m = none) :
    GivesTokenValue (token T m) := by
  rw [token, h]
  refine .orElse givesTokenValue_none ?_
  split
  case isFalse => exact givesTokenValue_none
  case isTrue =>
    refine (givesTokenValue_oidToken m).orElse ((givesTokenValue_dateToken m).orElse ?_)
    refine givesTokenValue_numbers m ((givesTokenValue_binaryToken m).orElse ?_)
    refine .orElse givesTokenValue_none ((givesTokenValue_timestampToken m).orElse ?_)
    exact (givesTokenValue_map (fun _ => rfl) _).orElse (givesTokenValue_map (fun _ => rfl) _)

/-- A token that is spelled gives a regular expression or a value of another token. -/
theorem value_of_token {m : List (String × Json)} {b : Bson} (h : token T m = some (.ok b)) :
    ((regexToken m).isSome ∧ ∃ re opts, b = .regularExpression re opts) ∨
      (regexToken m = none ∧ isTokenValue b = true) := by
  cases hr : regexToken m with
  | none => exact .inr ⟨rfl, givesTokenValue_token hr _ h⟩
  | some r =>
    left
    refine ⟨rfl, ?_⟩
    rw [token, hr] at h
    obtain rfl := Option.some.inj h
    rw [regexToken] at hr
    split at hr
    case h_1 re _ =>
      split at hr
      case isTrue =>
        obtain rfl := Except.ok.inj (Option.some.inj hr)
        exact ⟨_, _, rfl⟩
      case isFalse => cases hr
    case h_2 => cases hr

theorem token_ne_document (m : List (String × Json)) (doc : Document) :
    token T m ≠ some (.ok (.document doc)) := by
  intro h
  obtain ⟨-, re, opts, heq⟩ | ⟨-, heq⟩ := value_of_token h <;> cases heq

/-! ## What a conversion gives -/

theorem arrayToBson_ok {a : List Json} {bs : List Bson} (h : arrayToBson T a = .ok bs) :
    List.Forall₂ (fun v b => jsonToBson T v = .ok b) a bs := by
  induction a generalizing bs with
  | nil =>
    obtain rfl := Except.ok.inj h
    exact .nil
  | cons v rest ih =>
    rw [arrayToBson] at h
    obtain ⟨b, hb, h⟩ := bind_ok h
    obtain ⟨bs', hbs, h⟩ := bind_ok h
    obtain rfl := Except.ok.inj h
    exact .cons hb (ih hbs)

/-- An entry with a new key goes to the end of the document. -/
theorem entriesToBson_cons {done : Document} {p : String × Json} {b : Bson} {l : List String}
    (hkeys : (done.map Prod.fst ++ p.1 :: l).Nodup) (hb : jsonToBson T p.2 = .ok b)
    (rest : List (String × Json)) :
    entriesToBson T done (p :: rest) = entriesToBson T (done ++ [(p.1, b)]) rest := by
  rw [entriesToBson, hb, ← Document.insert_of_notMem b (Document.notMem_of_nodup hkeys)]
  rfl

/-- With distinct keys the document has the entries one by one. -/
theorem entriesToBson_ok {m : List (String × Json)} {done doc : Document}
    (hkeys : (done.map Prod.fst ++ m.map Prod.fst).Nodup) (h : entriesToBson T done m = .ok doc) :
    ∃ d, doc = done ++ d ∧
      List.Forall₂ (fun p q => p.1 = q.1 ∧ jsonToBson T p.2 = .ok q.2) m d := by
  induction m generalizing done with
  | nil =>
    obtain rfl := Except.ok.inj h
    exact ⟨[], (List.append_nil _).symm, .nil⟩
  | cons p rest ih =>
    have hread := h
    rw [entriesToBson] at hread
    obtain ⟨b, hb, -⟩ := bind_ok hread
    rw [entriesToBson_cons hkeys hb] at h
    obtain ⟨d, rfl, hd⟩ := ih (Document.nodup_snoc hkeys) h
    exact ⟨(p.1, b) :: d, by rw [List.append_assoc, List.singleton_append], .cons ⟨rfl, hb⟩ hd⟩

/-- The first key stays the first. -/
theorem entriesToBson_head {m : List (String × Json)} {k : String} {x : Bson} {done doc : Document}
    (h : entriesToBson T ((k, x) :: done) m = .ok doc) : ∃ x' rest, doc = (k, x') :: rest := by
  induction m generalizing x done with
  | nil =>
    obtain rfl := Except.ok.inj h
    exact ⟨x, done, rfl⟩
  | cons p rest ih =>
    rw [entriesToBson] at h
    obtain ⟨b, -, hrest⟩ := bind_ok h
    rw [Document.insert] at hrest
    split at hrest
    case isTrue heq =>
      rw [← heq] at hrest
      exact ih hrest
    case isFalse => exact ih hrest

theorem jsonToBson_object {m : List (String × Json)} (h : ¬ TokenShaped m) :
    jsonToBson T (.object m) = (entriesToBson T [] m).map .document := by
  rw [jsonToBson, token_eq_none T h]

theorem yieldsTokenValue_numberToBson (n : Number) : yieldsTokenValue (numberToBson T n) = true := by
  unfold numberToBson
  split
  case h_1 => rfl
  case h_2 =>
    split
    case h_1 =>
      split
      case isTrue => rfl
      case isFalse => exact yieldsTokenValue_map (fun _ => rfl) _ _
    case h_2 => rfl

/-- Only an object that spells no token gives a document. -/
theorem document_of_jsonToBson {v : Json} {doc : Document}
    (h : jsonToBson T v = .ok (.document doc)) :
    ∃ m, v = .object m ∧ ¬ TokenShaped m ∧ entriesToBson T [] m = .ok doc := by
  cases v with
  | null => cases h
  | bool b => cases h
  | string s => cases h
  | number n =>
    rw [jsonToBson] at h
    have hgives := @yieldsTokenValue_numberToBson T n
    rw [h] at hgives
    cases hgives
  | array a =>
    rw [jsonToBson] at h
    obtain ⟨bs, -, heq⟩ := map_ok h
    cases heq
  | object m =>
    by_cases hm : TokenShaped m
    · obtain ⟨r, hr⟩ := exists_token T hm
      rw [jsonToBson, hr] at h
      obtain rfl : r = .ok (.document doc) := h
      exact absurd hr (token_ne_document m doc)
    · rw [jsonToBson_object hm] at h
      obtain ⟨doc', hdoc, heq⟩ := map_ok h
      obtain rfl := Bson.document.inj heq
      exact ⟨m, rfl, hm, hdoc⟩

end

end XavierDB.Dbq
