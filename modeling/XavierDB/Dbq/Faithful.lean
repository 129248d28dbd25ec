import XavierDB.Base.Codec
import XavierDB.Dbq.Json

/-!
# Faithful JSON forms (`src/dbq.rs`)

The two conversions are inverse to each other where no document has the shape of
a token, given text forms that parse back.
-/

namespace XavierDB.Dbq

variable (T : TextForms)

/-! ## What has a faithful form -/

/-- The text forms parse back to the same value. -/
structure TextForms.ParsesBack : Prop where
  f64 : ∀ d : F64, ¬ d.isFinite → T.parseF64 (T.f64Text d) = some d
  decimal : ∀ d, T.parseDecimal (T.decimalText d) = .ok d
  base64 : ∀ bytes, T.decodeBase64 (T.encodeBase64 bytes) = some bytes

/-- The values with a faithful JSON form: no document of theirs spells a token.
A document holds every key once. -/
inductive Faithful : Bson → Prop
  | null : Faithful .null
  | boolean (b : Bool) : Faithful (.boolean b)
  | int64 (i : Int64) : Faithful (.int64 i)
  | double (d : F64) : Faithful (.double d)
  | string (s : String) : Faithful (.string s)
  | decimal128 (d : Decimal128) : Faithful (.decimal128 d)
  | binary (subtype : UInt8) (bytes : List UInt8) : Faithful (.binary subtype bytes)
  | regularExpression (pattern options : String) : Faithful (.regularExpression pattern options)
  | timestamp (time increment : UInt32) : Faithful (.timestamp time increment)
  | minKey : Faithful .minKey
  | maxKey : Faithful .maxKey
  | array {a : List Bson} (elems : ∀ b ∈ a, Faithful b) : Faithful (.array a)
  | document {d : Document} (keys : (d.map Prod.fst).Nodup) (noToken : ¬ SpellsToken d)
      (fields : ∀ p ∈ d, Faithful p.2) : Faithful (.document d)

/-- The JSON values without tokens and without integers above the signed ones.
An object holds every key once. -/
inductive Plain : Json → Prop
  | null : Plain .null
  | bool (b : Bool) : Plain (.bool b)
  | number {n : Number} (h : ∀ u, n = .posInt u → u.toNat ≤ 2 ^ 63 - 1) : Plain (.number n)
  | string (s : String) : Plain (.string s)
  | array {a : List Json} (elems : ∀ v ∈ a, Plain v) : Plain (.array a)
  | object {m : List (String × Json)} (keys : (m.map Prod.fst).Nodup) (noToken : ¬ TokenShaped m)
      (fields : ∀ p ∈ m, Plain p.2) : Plain (.object m)

/-! ## From BSON and back -/

variable {T}

theorem documentToJson_eq (d : Document) :
    documentToJson T d = d.map fun p => (p.1, bsonToJson T p.2) := by
  induction d with
  | nil => rfl
  | cons p rest ih => rw [documentToJson, ih, List.map_cons]

theorem jsonIsString_bsonToJson {b : Bson} (h : Faithful b) :
    jsonIsString (bsonToJson T b) = bsonIsString b := by
  cases h with
  | double d =>
    rw [bsonToJson]
    split <;> rfl
  | regularExpression pattern options =>
    rw [bsonToJson]
    split <;> rfl
  | _ => rfl

theorem any_lookup {d : Document} (h : ∀ p ∈ d, Faithful p.2) (key : String) :
    ((documentToJson T d).lookup key).any jsonIsString = (d.lookup key).any bsonIsString := by
  rw [documentToJson_eq, lookup_map]
  cases hl : d.lookup key with
  | none => rfl
  | some b => exact jsonIsString_bsonToJson (h _ (mem_of_lookup hl))

theorem jsonIsBody_bsonToJson {b : Bson} (h : Faithful b) :
    jsonIsBody (bsonToJson T b) = bsonIsBody b := by
  cases h with
  | double d =>
    rw [bsonToJson]
    split <;> rfl
  | regularExpression pattern options =>
    rw [bsonToJson]
    split <;> rfl
  | document _ _ fields =>
    rw [bsonToJson, jsonIsBody, bsonIsBody, bodyShape, bodyShape, any_lookup fields,
      any_lookup fields]
  | _ => rfl

/-- A document spells a token exactly when its JSON has the shape of one. -/
theorem tokenShaped_documentToJson {d : Document} (h : ∀ p ∈ d, Faithful p.2) :
    TokenShaped (documentToJson T d) ↔ SpellsToken d := by
  rw [TokenShaped, SpellsToken, documentToJson_eq]
  obtain _ | ⟨⟨k, b⟩, _ | ⟨⟨k', b'⟩, _ | ⟨p, d⟩⟩⟩ := d
  · rfl
  · obtain ⟨hb, -⟩ := List.forall_mem_cons.mp h
    simp only [List.map_cons, List.map_nil, shape, keyShape, jsonIsString_bsonToJson hb,
      jsonIsBody_bsonToJson hb]
  · obtain ⟨hb, h⟩ := List.forall_mem_cons.mp h
    obtain ⟨hb', -⟩ := List.forall_mem_cons.mp h
    simp only [List.map_cons, List.map_nil, shape, jsonIsString_bsonToJson hb,
      jsonIsString_bsonToJson hb']
  · rfl

theorem jsonToBson_number {n : Number} {i : Int64} (h : n.asI64 = some i) :
    jsonToBson T (.number n) = .ok (.int64 i) := by
  rw [jsonToBson, numberToBson, h]

theorem stringToken_single (key : String) (parse : String → Token) (s : String) :
    stringToken key parse [(key, .string s)] = some (parse s) := by
  rw [stringToken, lookup_single, if_pos (beq_self_eq_true key)]

theorem jsonToBson_double (hT : T.ParsesBack) (d : F64) :
    jsonToBson T (bsonToJson T (.double d)) = .ok (.double d) := by
  rw [bsonToJson]
  split
  case isTrue => rfl
  case isFalse h =>
    have htoken : token T [("$numberDouble", .string (T.f64Text d))] =
        numberDoubleToken T [("$numberDouble", .string (T.f64Text d))] := rfl
    rw [jsonToBson, htoken, numberDoubleToken, stringToken_single]
    simp only [hT.f64 d h]

theorem jsonToBson_decimal128 (hT : T.ParsesBack) (d : Decimal128) :
    jsonToBson T (bsonToJson T (.decimal128 d)) = .ok (.decimal128 d) := by
  have htoken : token T [("$numberDecimal", .string (T.decimalText d))] =
      numberDecimalToken T [("$numberDecimal", .string (T.decimalText d))] := rfl
  rw [bsonToJson, jsonToBson, htoken, numberDecimalToken, stringToken_single]
  simp only [hT.decimal d]

theorem subtypeOf_hexByte (b : UInt8) : subtypeOf (hexByte b) = b := by
  rw [subtypeOf, unsignedOfStr_hexByte, Option.getD_some]
  exact UInt8.ofNat_toNat

theorem binaryOf_hexByte (hT : T.ParsesBack) (st : UInt8) (bytes : List UInt8) :
    binaryOf T (T.encodeBase64 bytes) (hexByte st) = .ok (.binary st bytes) := by
  rw [binaryOf, hT.base64, subtypeOf_hexByte]

theorem jsonToBson_binary (hT : T.ParsesBack) (st : UInt8) (bytes : List UInt8) :
    jsonToBson T (bsonToJson T (.binary st bytes)) = .ok (.binary st bytes) := by
  have htoken : ∀ b64 sub : String, token T [("$binary", .object [("base64", .string b64),
      ("subType", .string sub)])] = some (binaryOf T b64 sub) := fun _ _ => rfl
  rw [bsonToJson, jsonToBson, htoken, binaryOf_hexByte hT]

theorem jsonToBson_regularExpression (p o : String) :
    jsonToBson T (bsonToJson T (.regularExpression p o)) = .ok (.regularExpression p o) := by
  rw [bsonToJson]
  split
  case isTrue h =>
    obtain rfl := String.isEmpty_iff.mp h
    rfl
  case isFalse => rfl

theorem counter_ofU32 {o : List (String × Json)} {key : String} {u : UInt32}
    (h : o.lookup key = some (.number (.ofU32 u))) : counter o key = .ok u := by
  have hu := u.toNat_lt
  have hle : u.toUInt64.toNat ≤ 2 ^ 63 - 1 := by
    rw [UInt32.toNat_toUInt64]
    omega
  have hval : u.toUInt64.toInt64.toInt = u.toNat := Number.toInt_toInt64 hle
  have hrange : 0 ≤ u.toUInt64.toInt64 ∧ u.toUInt64.toInt64 ≤ 4294967295 := by
    rw [Int64.le_iff_toInt_le, Int64.le_iff_toInt_le, hval]
    constructor
    · exact Int.natCast_nonneg _
    · show (u.toNat : ℤ) ≤ 4294967295
      omega
  have hread : (Json.number (.ofU32 u)).asI64 = some u.toUInt64.toInt64 := by
    rw [Json.asI64, Number.ofU32, Number.asI64, if_pos hle]
  rw [counter, h, Option.bind_some, hread, Option.filter_some, if_pos (by simpa using hrange)]
  simp only [UInt64.toUInt64_toInt64, UInt32.toUInt32_toUInt64]

theorem timestampOf_eq {o : List (String × Json)} {t i : UInt32} (ht : counter o "t" = .ok t)
    (hi : counter o "i" = .ok i) : timestampOf o = .ok (.timestamp t i) := by
  rw [timestampOf, ht]
  show (counter o "i" >>= fun i => .ok (Bson.timestamp t i)) = _
  rw [hi]
  rfl

theorem jsonToBson_timestamp (t i : UInt32) :
    jsonToBson T (bsonToJson T (.timestamp t i)) = .ok (.timestamp t i) := by
  have htoken : ∀ o, token T [("$timestamp", .object o)] = some (timestampOf o) := fun _ => rfl
  rw [bsonToJson, jsonToBson, htoken, timestampOf_eq (counter_ofU32 rfl) (counter_ofU32 rfl)]

theorem arrayToBson_map {a : List Bson}
    (h : ∀ b ∈ a, jsonToBson T (bsonToJson T b) = .ok b) :
    arrayToBson T (arrayToJson T a) = .ok a := by
  induction a with
  | nil => rfl
  | cons b rest ih =>
    obtain ⟨hb, hrest⟩ := List.forall_mem_cons.mp h
    rw [arrayToJson, arrayToBson, hb, ih hrest]
    rfl

theorem entriesToBson_map {done d : Document} (hkeys : (done.map Prod.fst ++ d.map Prod.fst).Nodup)
    (h : ∀ p ∈ d, jsonToBson T (bsonToJson T p.2) = .ok p.2) :
    entriesToBson T done (documentToJson T d) = .ok (done ++ d) := by
  induction d generalizing done with
  | nil => rw [documentToJson, entriesToBson, List.append_nil]
  | cons p rest ih =>
    obtain ⟨hp, hrest⟩ := List.forall_mem_cons.mp h
    rw [documentToJson, entriesToBson_cons hkeys hp, ih (Document.nodup_snoc hkeys) hrest,
      ← List.append_cons]

/-- Back from its JSON, a value is what it was. -/
theorem jsonToBson_bsonToJson (hT : T.ParsesBack) {b : Bson} (h : Faithful b) :
    jsonToBson T (bsonToJson T b) = .ok b := by
  induction h with
  | null => rfl
  | boolean b => rfl
  | int64 i => exact jsonToBson_number (Number.asI64_ofI64 i)
  | double d => exact jsonToBson_double hT d
  | string s => rfl
  | decimal128 d => exact jsonToBson_decimal128 hT d
  | binary st bytes => exact jsonToBson_binary hT st bytes
  | regularExpression p o => exact jsonToBson_regularExpression p o
  | timestamp t i => exact jsonToBson_timestamp t i
  | minKey => rfl
  | maxKey => rfl
  | array _ ih => rw [bsonToJson, jsonToBson, arrayToBson_map ih]; rfl
  | document keys noToken fields ih =>
    have hshape := (@tokenShaped_documentToJson T _ fields).not.mpr noToken
    have hentries := @entriesToBson_map T [] _ keys ih
    rw [bsonToJson, jsonToBson_object hshape, hentries]
    rfl

/-! ## From JSON and back -/

theorem arrayToBson_plain {a : List Json}
    (h : ∀ v ∈ a, ∃ b, jsonToBson T v = .ok b ∧ bsonToJson T b = v) :
    ∃ bs, arrayToBson T a = .ok bs ∧ arrayToJson T bs = a := by
  induction a with
  | nil => exact ⟨[], rfl, rfl⟩
  | cons v rest ih =>
    obtain ⟨⟨b, hb, hv⟩, hrest⟩ := List.forall_mem_cons.mp h
    obtain ⟨bs, hbs, hvs⟩ := ih hrest
    refine ⟨b :: bs, ?_, ?_⟩
    · rw [arrayToBson, hb, hbs]
      rfl
    · rw [arrayToJson, hv, hvs]

theorem entriesToBson_plain {done : Document} {m : List (String × Json)}
    (hkeys : (done.map Prod.fst ++ m.map Prod.fst).Nodup)
    (h : ∀ p ∈ m, ∃ b, jsonToBson T p.2 = .ok b ∧ bsonToJson T b = p.2) :
    ∃ d, entriesToBson T done m = .ok (done ++ d) ∧ documentToJson T d = m := by
  induction m generalizing done with
  | nil => exact ⟨[], by rw [entriesToBson, List.append_nil], rfl⟩
  | cons p rest ih =>
    obtain ⟨⟨b, hb, hp⟩, hrest⟩ := List.forall_mem_cons.mp h
    obtain ⟨d, hd, hm⟩ := ih (Document.nodup_snoc hkeys) hrest
    refine ⟨(p.1, b) :: d, ?_, ?_⟩
    · rw [entriesToBson_cons hkeys hb, hd, ← List.append_cons]
    · rw [documentToJson, hp, hm]

/-- Back from its BSON, a value is what it was. -/
theorem bsonToJson_jsonToBson {v : Json} (h : Plain v) :
    ∃ b, jsonToBson T v = .ok b ∧ bsonToJson T b = v := by
  induction h with
  | null => exact ⟨.null, rfl, rfl⟩
  | bool b => exact ⟨.boolean b, rfl, rfl⟩
  | @number n h =>
    cases n with
    | posInt u =>
      have hread : (Number.posInt u).asI64 = some u.toInt64 := if_pos (h u rfl)
      exact ⟨_, jsonToBson_number hread, congrArg Json.number (Number.ofI64_of_asI64 hread)⟩
    | negInt i =>
      have hread : (Number.negInt i).asI64 = some i.1 := rfl
      exact ⟨_, jsonToBson_number hread, congrArg Json.number (Number.ofI64_of_asI64 hread)⟩
    | float d => exact ⟨.double d, rfl, dif_pos d.2⟩
  | string s => exact ⟨.string s, rfl, rfl⟩
  | array _ ih =>
    obtain ⟨bs, hbs, hvs⟩ := arrayToBson_plain ih
    refine ⟨.array bs, ?_, ?_⟩
    · rw [jsonToBson, hbs]
      rfl
    · rw [bsonToJson, hvs]
  | object keys noToken _ ih =>
    obtain ⟨d, hd, hm⟩ := @entriesToBson_plain _ [] _ keys ih
    refine ⟨.document d, ?_, ?_⟩
    · rw [jsonToBson_object noToken, hd]
      rfl
    · rw [bsonToJson, hm]

/-- A document that spells a token does not come back as a document. -/
theorem jsonToBson_of_spellsToken {d : Document} (h : SpellsToken d)
    (fields : ∀ p ∈ d, Faithful p.2) (d' : Document) :
    jsonToBson T (bsonToJson T (.document d)) ≠ .ok (.document d') := by
  obtain ⟨r, hr⟩ := exists_token T ((tokenShaped_documentToJson fields).mpr h)
  rw [bsonToJson, jsonToBson, hr]
  rintro rfl
  exact token_ne_document _ _ hr

/-! ## Both ways -/

/-- Where a faithful form exists the conversions are inverse to each other. -/
theorem json_bson_inverse (hT : T.ParsesBack) :
    (∀ b, Faithful b → jsonToBson T (bsonToJson T b) = .ok b) ∧
      ∀ v, Plain v → ∃ b, jsonToBson T v = .ok b ∧ bsonToJson T b = v :=
  ⟨fun _ => jsonToBson_bsonToJson hT, fun _ => bsonToJson_jsonToBson⟩

def ofParts : Option (Bool × Option (ℕ × ℤ)) → Decimal128
  | none => .nan
  | some (neg, none) => .inf neg
  | some (neg, some (coeff, exp)) => .fin neg coeff exp

def toParts : Decimal128 → Option (Bool × Option (ℕ × ℤ))
  | .nan => none
  | .inf neg => some (neg, none)
  | .fin neg coeff exp => some (neg, some (coeff, exp))

def decimalCodec : Codec Decimal128 :=
  ((Codec.nat.imap (· == 1) Bool.toNat (by decide)).prod (Codec.nat.prod Codec.int).option).option.imap
    ofParts toParts fun d => by cases d <;> rfl

def bytesCodec : Codec (List UInt8) := (Codec.nat.imap Nat.toUInt8 UInt8.toNat fun _ => UInt8.ofNat_toNat).list

def decimalTexts : List (Decimal128 × String) := [(.fin false 123456789 (-4), "12345.6789")]

def base64Texts : List (List UInt8 × String) := [([1, 2, 3], "AQID")]

/-- The real text forms of the values in the tables, of the non-finite doubles and of no others. -/
def tableForms : TextForms where
  parseOid _ := .error ""
  toHex bytes := String.join (bytes.map hexByte)
  parseRfc3339 _ := .error ""
  toRfc3339 _ := ""
  parseF64 s :=
    if s = "NaN" then some .nan
    else if s = "inf" then some .posInf
    else if s = "-inf" then some .negInf
    else none
  f64Text
    | .nan => "NaN"
    | .posInf => "inf"
    | .negInf => "-inf"
    | _ => ""
  parseDecimal s :=
    match decimalCodec.ofTableText decimalTexts s with
    | some d => .ok d
    | none => .error ""
  decimalText := decimalCodec.tableText '~' decimalTexts
  decodeBase64 := bytesCodec.ofTableText base64Texts
  encodeBase64 := bytesCodec.tableText '~' base64Texts
  dbPointerValue _ _ := .null

theorem tableForms_parsesBack : tableForms.ParsesBack where
  f64 d h := by
    cases d with
    | nan | posInf | negInf => rfl
    | negZero | fin q => exact absurd rfl h
  decimal d := by
    have hmark : ∀ p ∈ decimalTexts, ∃ x l, p.2 = String.ofList (x :: l) ∧ x ≠ '~' := by
      simp only [decimalTexts, List.forall_mem_singleton]
      exact ⟨'1', "2345.6789".toList, rfl, by decide⟩
    have htable := decimalCodec.ofTableText_tableText (by decide) hmark d
    simp only [tableForms, htable]
  base64 bytes := by
    have hmark : ∀ p ∈ base64Texts, ∃ x l, p.2 = String.ofList (x :: l) ∧ x ≠ '~' := by
      simp only [base64Texts, List.forall_mem_singleton]
      exact ⟨'A', "QID".toList, rfl, by decide⟩
    exact bytesCodec.ofTableText_tableText (by decide) hmark bytes

/-- A document of values that are written as tokens. -/
def writtenBson : Bson :=
  .document [("_id", .int64 7), ("price", .decimal128 (.fin false 123456789 (-4))),
    ("marks", .array [.double .nan, .regularExpression "^ab" "i", .binary 128 [1, 2, 3]]),
    ("at", .document [("first", .timestamp 1 2), ("last", .maxKey)])]

theorem writtenBson_faithful : Faithful writtenBson := by
  refine .document (by decide) (by decide) ?_
  simp only [List.forall_mem_cons, List.not_mem_nil, false_implies, implies_true, and_true]
  refine ⟨.int64 7, .decimal128 _, .array ?_, .document (by decide) (by decide) ?_⟩
  · simp only [List.forall_mem_cons, List.not_mem_nil, false_implies, implies_true, and_true]
    exact ⟨.double _, .regularExpression _ _, .binary _ _⟩
  · simp only [List.forall_mem_cons, List.not_mem_nil, false_implies, implies_true, and_true]
    exact ⟨.timestamp 1 2, .maxKey⟩

def writtenJson : Json :=
  .object [("$set", .array [.number (.ofI64 (-3)), .number (.float ⟨.negZero, rfl⟩), .null]),
    ("$oid", .bool true)]

theorem writtenJson_plain : Plain writtenJson := by
  refine .object (by decide) (by decide) ?_
  simp only [List.forall_mem_cons, List.not_mem_nil, false_implies, implies_true, and_true]
  refine ⟨.array ?_, .bool true⟩
  simp only [List.forall_mem_cons, List.not_mem_nil, false_implies, implies_true, and_true]
  have hneg : ∀ u, Number.ofI64 (-3) = .posInt u → u.toNat ≤ 2 ^ 63 - 1 := by
    intro u h
    cases (show Number.ofI64 (-3) = .negInt ⟨-3, by decide⟩ from rfl).symm.trans h
  have hfloat : ∀ u, Number.float ⟨.negZero, rfl⟩ = .posInt u → u.toNat ≤ 2 ^ 63 - 1 := by
    rintro u ⟨⟩
  exact ⟨.number hneg, .number hfloat, .null⟩

theorem json_bson_inverse_written :
    jsonToBson tableForms (bsonToJson tableForms writtenBson) = .ok writtenBson ∧
      ∃ b, jsonToBson tableForms writtenJson = .ok b ∧ bsonToJson tableForms b = writtenJson :=
  ⟨(json_bson_inverse tableForms_parsesBack).1 _ writtenBson_faithful,
    (json_bson_inverse tableForms_parsesBack).2 _ writtenJson_plain⟩

end XavierDB.Dbq
