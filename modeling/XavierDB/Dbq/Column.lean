import XavierDB.Dbq.Keyset
import XavierDB.Mongo.Filter

/-!
# What the conditions of one column match

The brackets named by the code against the brackets the server sorts by, and
`columnConds` in those terms: with the fallbacks kept, a plain boundary value
selects exactly the fields with a reading past it; without them, only the
readings inside its own bracket (or numbers past an ascending NaN).
-/

namespace XavierDB.Dbq

open Mongo

/-! ## Bracket names -/

def bracketName : Bracket → String
  | .minKey => "minKey" | .null => "null" | .nan => "nan" | .number => "number"
  | .symbol => "symbol" | .string => "string" | .object => "object" | .array => "array"
  | .binData => "binData" | .objectId => "objectId" | .dbPointer => "dbPointer"
  | .bool => "bool" | .date => "date" | .timestamp => "timestamp" | .regex => "regex"
  | .javascript => "javascript" | .javascriptWithScope => "javascriptWithScope"
  | .maxKey => "maxKey"

/-- The bracket the code puts a value in: the decimal NaN among the numbers. -/
def codeBracket : Bson → Bracket
  | .decimal128 .nan => .number
  | b => bracket b

theorem bsonTypeBracket_eq (b : Bson) : bsonTypeBracket b = bracketName (codeBracket b) := by
  cases b with
  | double d => cases d <;> rfl
  | decimal128 d => cases d <;> rfl
  | _ => rfl

theorem codeBracket_eq {b : Bson} (h : b ≠ .decimal128 .nan) : codeBracket b = bracket b := by
  unfold codeBracket
  split
  · exact absurd rfl h
  · rfl

theorem bracketIdx_eq (b : Bson) : bracketIdx b = (codeBracket b).rank := by
  unfold bracketIdx
  rw [bsonTypeBracket_eq]
  cases codeBracket b <;> decide

theorem bracketName_injective {a b : Bracket} (h : bracketName a = bracketName b) : a = b := by
  cases a <;> cases b <;> first | rfl | exact absurd h (by decide)

theorem typeOrder_nodup : typeOrder.Nodup := by decide

theorem getElem_typeOrder (c : Bracket) (h : c.rank < typeOrder.length) :
    typeOrder[c.rank] = bracketName c := by
  cases c <;> rfl

theorem rank_lt_typeOrder (c : Bracket) : c.rank < typeOrder.length := by cases c <;> decide

theorem bracketName_mem_drop {c : Bracket} {n : Nat} :
    bracketName c ∈ typeOrder.drop n ↔ n ≤ c.rank := by
  rw [← getElem_typeOrder c (rank_lt_typeOrder c), List.mem_drop_iff_getElem]
  constructor
  · rintro ⟨i, hi, he⟩
    have := typeOrder_nodup.getElem_inj_iff.mp he
    omega
  · intro h
    have := rank_lt_typeOrder c
    exact ⟨c.rank - n, by omega, by simp only [Nat.add_sub_cancel' h]⟩

theorem bracketName_mem_take {c : Bracket} {n : Nat} :
    bracketName c ∈ typeOrder.take n ↔ c.rank < n := by
  rw [← getElem_typeOrder c (rank_lt_typeOrder c), List.mem_take_iff_getElem]
  constructor
  · rintro ⟨i, hi, he⟩
    have := typeOrder_nodup.getElem_inj_iff.mp he
    omega
  · intro h
    have := rank_lt_typeOrder c
    exact ⟨c.rank, by omega, rfl⟩

theorem mem_typeBracketsAfter {v : Bson} {c : Bracket} :
    bracketName c ∈ typeBracketsAfter v ↔ (codeBracket v).rank < c.rank := by
  rw [typeBracketsAfter, bracketName_mem_drop, bracketIdx_eq, Nat.succ_le_iff]

theorem mem_typeBracketsBefore {v : Bson} {c : Bracket} :
    bracketName c ∈ typeBracketsBefore v ↔ c.rank < (codeBracket v).rank := by
  rw [typeBracketsBefore, bracketName_mem_take, bracketIdx_eq]

/-- A value outside the numbers answers to the name of its bracket. -/
theorem typeNamed_of_own {c : Bracket} {x : Bson} (hnan : bracket x ≠ .nan)
    (ha : x.typeAlias = bracketName (bracket x)) (hx : x.isNumeric = false) :
    typeNamed (bracketName c) x = true ↔ bracket x = c ∨ (bracket x = .nan ∧ c = .number) := by
  rw [typeNamed, ha, hx, Bool.and_false, Bool.or_false, beq_iff_eq]
  constructor
  · exact fun h => .inl (bracketName_injective h).symm
  · rintro (h | ⟨h, -⟩)
    · rw [h]
    · exact absurd h hnan

/-- A number or a NaN answers to the name of the numbers; its own type is no bracket's name. -/
theorem typeNamed_of_numeric (t : String) (ht : ∀ c, bracketName c ≠ t) {c : Bracket} {x : Bson}
    (hc : c ≠ .nan) (ha : x.typeAlias = t) (hx : x.isNumeric = true)
    (hb : bracket x = .number ∨ bracket x = .nan) :
    typeNamed (bracketName c) x = true ↔ bracket x = c ∨ (bracket x = .nan ∧ c = .number) := by
  rw [typeNamed, ha, hx, Bool.and_true, Bool.or_eq_true, beq_iff_eq, beq_iff_eq, or_iff_right (ht c)]
  constructor
  · intro h
    have hnumber : c = .number := bracketName_injective h
    exact hb.imp (·.trans hnumber.symm) fun hnan => ⟨hnan, hnumber⟩
  · rintro (h | ⟨-, h⟩)
    · rcases hb with hb | hb
      · rw [← h, hb]
        rfl
      · exact absurd (h.symm.trans hb) hc
    · rw [h]
      rfl

/-- The `$type` names that match a value are those of its bracket, where a NaN
answers to the name of the numbers and null to none. -/
theorem typeNamed_bracketName {c : Bracket} {x : Bson} (hn : c ≠ .null) (hnan : c ≠ .nan) :
    typeNamed (bracketName c) x = true ↔
      bracket x = c ∨ (bracket x = .nan ∧ c = .number) := by
  cases x with
  | double d =>
    refine typeNamed_of_numeric "double" (fun c => by cases c <;> decide) hnan rfl rfl ?_
    cases d <;> simp [bracket]
  | decimal128 d =>
    refine typeNamed_of_numeric "decimal" (fun c => by cases c <;> decide) hnan rfl rfl ?_
    cases d <;> simp [bracket]
  | int32 i =>
    exact typeNamed_of_numeric "int" (fun c => by cases c <;> decide) hnan rfl rfl (.inl rfl)
  | int64 i =>
    exact typeNamed_of_numeric "long" (fun c => by cases c <;> decide) hnan rfl rfl (.inl rfl)
  | undefined =>
    have h1 : typeNamed (bracketName c) .undefined = false := by cases c <;> decide
    rw [h1]
    refine ⟨nofun, ?_⟩
    rintro (h | ⟨h, -⟩)
    · exact absurd h.symm hn
    · cases h
  | _ => exact typeNamed_of_own nofun rfl rfl

/-- The brackets, in the order of `typeOrder`. -/
def allBrackets : List Bracket :=
  [.minKey, .null, .nan, .number, .symbol, .string, .object, .array, .binData, .objectId,
    .dbPointer, .bool, .date, .timestamp, .regex, .javascript, .javascriptWithScope, .maxKey]

theorem exists_bracketName {s : String} (h : s ∈ typeOrder) : ∃ c, s = bracketName c := by
  have h' : s ∈ allBrackets.map bracketName := h
  obtain ⟨c, -, rfl⟩ := List.mem_map.mp h'
  exact ⟨c, rfl⟩

/-! ## Range and equality conditions -/

variable {K : Type} [LinearOrder K] {S : Server K} {w : Option Bson}

theorem isNaN_iff {x : Bson} : x.isNaN = true ↔ bracket x = .nan := by
  cases x with
  | double d => cases d <;> simp [Bson.isNaN, F64.isNan, bracket]
  | decimal128 d => cases d <;> simp [Bson.isNaN, bracket]
  | _ => exact ⟨nofun, nofun⟩

theorem isNan_iff {v : Bson} (hv : v ≠ .decimal128 .nan) : isNan v = true ↔ bracket v = .nan := by
  rw [← isNaN_iff]
  cases v with
  | double d => exact Iff.rfl
  | decimal128 d => cases d <;> first | exact absurd rfl hv | exact Iff.rfl
  | _ => exact Iff.rfl

theorem isNull_iff {v : Bson} : isNull v = true ↔ bracket v = .null := by
  cases v with
  | double d => cases d <;> exact ⟨nofun, nofun⟩
  | decimal128 d => cases d <;> exact ⟨nofun, nofun⟩
  | null => exact ⟨fun _ => rfl, fun _ => rfl⟩
  | undefined => exact ⟨fun _ => rfl, fun _ => rfl⟩
  | _ => exact ⟨nofun, nofun⟩

theorem rangeMatch_iff {rel : SortKey K → SortKey K → Bool} {v : Bson} :
    S.rangeMatch rel v w = true ↔ bracket v ≠ .nan ∧
      ∃ x ∈ readings w, bracket x = bracket v ∧ rel (S.key x) (S.key v) = true := by
  simp only [Server.rangeMatch, List.any_eq_true, Bool.and_eq_true, decide_eq_true_eq,
    Bool.not_eq_true', ← Bool.not_eq_true, isNaN_iff]
  constructor
  · rintro ⟨x, hx, ⟨⟨hb, -⟩, hv⟩, hr⟩
    exact ⟨hv, x, hx, hb, hr⟩
  · rintro ⟨hv, x, hx, hb, hr⟩
    exact ⟨x, hx, ⟨⟨hb, hb ▸ hv⟩, hv⟩, hr⟩

theorem eqMatch_iff {v : Bson} :
    S.eqMatch v w = true ↔ ∃ x ∈ readings w, S.key x = S.key v := by
  simp only [Server.eqMatch, List.any_eq_true, decide_eq_true_eq]

theorem negInf_le_key {x : Bson} (h : bracket x = .number) :
    S.key (.double .negInf) ≤ S.key x := by
  have hpos : numPosition (.double .negInf) ≤ numPosition x := by
    have low : ∀ q : ℚ, (toLex (-1, 0) : ℤ ×ₗ ℚ) ≤ toLex (0, q) := fun q =>
      (Prod.Lex.toLex_le_toLex).mpr (.inl (show (-1 : ℤ) < 0 by decide))
    cases x with
    | double d =>
      cases d with
      | nan => cases h
      | negInf => exact le_refl _
      | posInf => exact (Prod.Lex.toLex_le_toLex).mpr (.inl (by decide))
      | negZero => exact low 0
      | fin q => exact low q
    | decimal128 d =>
      cases d with
      | nan => cases h
      | inf neg =>
        cases neg
        · exact (Prod.Lex.toLex_le_toLex).mpr (.inl (by decide))
        · exact le_refl _
      | fin neg c e => exact low _
    | int32 i => exact low _
    | int64 i => exact low _
    | _ => cases h
  have hk : ∀ y : Bson, bracket y = .number →
      S.key y = toLex (6, toLex (numPosition y, S.inner .null)) := by
    intro y hy
    rw [Server.key, hy]; rfl
  rw [hk _ rfl, hk _ h, Prod.Lex.toLex_le_toLex, Prod.Lex.toLex_le_toLex]
  rcases hpos.lt_or_eq with hlt | he
  · exact .inr ⟨rfl, .inl hlt⟩
  · exact .inr ⟨rfl, .inr ⟨he, le_refl _⟩⟩

/-! ## The conditions of a column -/

/-- A positive direction is ascending. -/
def isAsc (dir : Int) : Bool := decide (0 < dir)

theorem fieldCond_gte {v : Bson} : S.fieldCond (.document [("$gte", v)]) w =
    S.rangeMatch (fun a b => decide (b ≤ a)) v w := by
  rw [fieldCond_op (by decide), Server.fieldOp, if_neg (by decide), if_pos rfl]

theorem fieldCond_range {v : Bson} (dir : Int) :
    S.fieldCond (.document [(if 0 < dir then "$gt" else "$lt", v)]) w =
      S.rangeMatch (fun a b => decide (Past (isAsc dir) b a)) v w := by
  rw [fieldCond_op (by split <;> decide), Server.fieldOp]
  by_cases h : 0 < dir
  · simp [h, isAsc, Past]
  · rw [if_neg h, if_neg (by decide), if_neg (by decide), if_pos rfl]
    simp [isAsc, h, Past]

theorem not_past_of_uniform {asc : Bool} {v x : Bson} (h : bracket x = bracket v)
    (hu : (bracket v).isUniform) (hn : bracket v ≠ .number) :
    ¬ Past asc (S.key v) (S.key x) := by
  rw [key_eq_of_uniform (S := S) h.symm hu hn]
  exact past_irrefl _ _

/-- The same-type arm of a column matches the readings past the boundary in its
own bracket, and the numbers past an ascending NaN. -/
theorem any_sameTypeConds {dir : Int} {v : Bson} (hv : v ≠ .decimal128 .nan) :
    (sameTypeConds dir v).any (fun c => S.fieldCond c w) = true ↔
      ∃ x ∈ readings w, Past (isAsc dir) (S.key v) (S.key x) ∧
        (bracket x = bracket v ∨ (isNan v = true ∧ 0 < dir ∧ bracket x = .number)) := by
  unfold sameTypeConds
  by_cases hnull : isNull v = true
  · -- a null boundary leaves its group to the tiebreaker
    rw [if_pos hnull]
    have hb := isNull_iff.mp hnull
    refine ⟨nofun, ?_⟩
    rintro ⟨x, -, hp, h | ⟨hn, -, -⟩⟩
    · exact absurd hp (not_past_of_uniform h (by rw [hb]; rfl) (by rw [hb]; nofun))
    · rw [isNan_iff hv, hb] at hn; cases hn
  rw [if_neg hnull]
  by_cases hnan : isNan v = true
  · rw [if_pos hnan]
    have hb := (isNan_iff hv).mp hnan
    have same : ∀ x, bracket x = bracket v → ¬ Past (isAsc dir) (S.key v) (S.key x) := fun x h =>
      not_past_of_uniform h (by rw [hb]; rfl) (by rw [hb]; nofun)
    by_cases hd : 0 < dir
    · rw [if_pos hd, List.any_cons, List.any_nil, Bool.or_false, fieldCond_gte, rangeMatch_iff]
      constructor
      · rintro ⟨-, x, hx, hbx, -⟩
        refine ⟨x, hx, ?_, .inr ⟨hnan, hd, hbx⟩⟩
        rw [isAsc, decide_eq_true hd]
        exact key_lt_of_rank (by rw [hb, hbx]; decide)
      · rintro ⟨x, hx, hp, h | ⟨-, -, hbx⟩⟩
        · exact absurd hp (same x h)
        · exact ⟨nofun, x, hx, hbx, decide_eq_true (negInf_le_key hbx)⟩
    · rw [if_neg hd]
      refine ⟨nofun, ?_⟩
      rintro ⟨x, -, hp, h | ⟨-, h, -⟩⟩
      · exact absurd hp (same x h)
      · exact absurd h hd
  · rw [if_neg hnan, List.any_cons, List.any_nil, Bool.or_false, fieldCond_range, rangeMatch_iff]
    constructor
    · rintro ⟨-, x, hx, hbx, hp⟩
      exact ⟨x, hx, of_decide_eq_true hp, .inl hbx⟩
    · rintro ⟨x, hx, hp, h | ⟨h, -, -⟩⟩
      · exact ⟨fun h => hnan ((isNan_iff hv).mpr h), x, hx, h, decide_eq_true hp⟩
      · exact absurd h hnan

theorem fieldCond_type {names : List String} :
    S.fieldCond (.document [("$type", .array (names.map .string))]) w = typeMatch names w := by
  rw [fieldCond_op (by decide), Server.fieldOp, if_neg (by decide), if_neg (by decide),
    if_neg (by decide), if_pos rfl]
  congr 1
  induction names with
  | nil => rfl
  | cons n names ih => exact congrArg (n :: ·) ih

theorem typeMatch_nil : typeMatch [] w = false := by
  cases w with
  | none => rfl
  | some w => simp [typeMatch]

/-- A `$type` name of a list of brackets, `null` and `nan` left to arms of their own,
names a reading in one of them; `number` names NaN as well. -/
theorem any_typeNamed_iff {brackets : List String} (hsub : ∀ s ∈ brackets, s ∈ typeOrder) (x : Bson) :
    ((brackets.filter fun s => s != "null" && s != "nan").any fun n => typeNamed n x) = true ↔
      ∃ c, c ≠ .null ∧ c ≠ .nan ∧ bracketName c ∈ brackets ∧
        (bracket x = c ∨ (bracket x = .nan ∧ c = .number)) := by
  simp only [List.any_eq_true, List.mem_filter, Bool.and_eq_true, bne_iff_ne]
  constructor
  · rintro ⟨s, ⟨hs, h1, h2⟩, ht⟩
    obtain ⟨c, rfl⟩ := exists_bracketName (hsub s hs)
    have hc1 : c ≠ .null := by rintro rfl; exact h1 rfl
    have hc2 : c ≠ .nan := by rintro rfl; exact h2 rfl
    exact ⟨c, hc1, hc2, hs, (typeNamed_bracketName hc1 hc2).mp ht⟩
  · rintro ⟨c, hc1, hc2, hs, h⟩
    exact ⟨bracketName c, ⟨hs, fun e => hc1 (bracketName_injective (b := .null) e),
      fun e => hc2 (bracketName_injective (b := .nan) e)⟩,
      (typeNamed_bracketName hc1 hc2).mpr h⟩

theorem typeMatch_brackets_iff {brackets : List String} (hsub : ∀ s ∈ brackets, s ∈ typeOrder) :
    typeMatch (brackets.filter fun s => s != "null" && s != "nan") w = true ↔
      ∃ x ∈ readings w, ∃ c, c ≠ .null ∧ c ≠ .nan ∧ bracketName c ∈ brackets ∧
        (bracket x = c ∨ (bracket x = .nan ∧ c = .number)) := by
  cases w with
  | none =>
    refine ⟨nofun, ?_⟩
    rintro ⟨x, hx, c, hc1, -, -, h⟩
    rw [List.mem_singleton.mp hx] at h
    rcases h with h | ⟨h, -⟩
    · exact absurd h.symm hc1
    · cases h
  | some w => simp only [typeMatch, List.any_eq_true (l := readings _), any_typeNamed_iff hsub]

/-- A value whose bracket all ties stands for its bracket. -/
theorem fieldCond_of_uniform {v : Bson} (hop : v.isOperatorDoc = false) (hre : bracket v ≠ .regex)
    (hu : (bracket v).isUniform) (hn : bracket v ≠ .number) :
    S.fieldCond v w = true ↔ ∃ x ∈ readings w, bracket x = bracket v := by
  rw [fieldCond_eq_eqMatch hop hre, eqMatch_iff]
  refine exists_congr fun x => and_congr_right fun _ => ⟨bracket_eq_of_key_eq, fun h => ?_⟩
  exact key_eq_of_uniform h (by rwa [h]) (by rwa [h])

theorem any_fallbackConds_arms {brackets : List String} :
    (fallbackConds brackets).any (fun c => S.fieldCond c w) = true ↔
      typeMatch (brackets.filter fun s => s != "null" && s != "nan") w = true ∨
        ("null" ∈ brackets ∧ S.fieldCond .null w = true) ∨
        ("nan" ∈ brackets ∧ S.fieldCond (.double .nan) w = true) := by
  unfold fallbackConds
  by_cases he : brackets.isEmpty = true
  · rw [if_pos he, List.isEmpty_iff.mp he]
    simp [typeMatch_nil]
  · rw [if_neg he]
    simp only [List.any_append, Bool.or_eq_true, or_assoc]
    refine or_congr ?_ (or_congr ?_ ?_)
    · by_cases hr : (brackets.filter fun s => s != "null" && s != "nan").isEmpty = true
      · rw [if_pos hr, List.isEmpty_iff.mp hr, typeMatch_nil]
        simp
      · rw [if_neg hr]
        simp [fieldCond_type]
    · by_cases h : "null" ∈ brackets <;> simp [h]
    · by_cases h : "nan" ∈ brackets <;> simp [h]

/-- The fallback conditions of a list of brackets match the readings in them. A
list that names the numbers must name NaN, which `$type: "number"` matches too. -/
theorem any_fallbackConds {brackets : List String} (hsub : ∀ s ∈ brackets, s ∈ typeOrder)
    (hnum : "number" ∈ brackets → "nan" ∈ brackets) :
    (fallbackConds brackets).any (fun c => S.fieldCond c w) = true ↔
      ∃ x ∈ readings w, bracketName (bracket x) ∈ brackets := by
  rw [any_fallbackConds_arms, typeMatch_brackets_iff hsub,
    fieldCond_of_uniform rfl (by decide) (by decide) (by decide),
    fieldCond_of_uniform rfl (by decide) (by decide) (by decide)]
  constructor
  · rintro (⟨x, hx, c, -, -, hc, h | ⟨h, rfl⟩⟩ | ⟨hm, x, hx, h⟩ | ⟨hm, x, hx, h⟩)
    · exact ⟨x, hx, h ▸ hc⟩
    · exact ⟨x, hx, by rw [h]; exact hnum hc⟩
    · exact ⟨x, hx, by rw [h]; exact hm⟩
    · exact ⟨x, hx, by rw [h]; exact hm⟩
  · rintro ⟨x, hx, hm⟩
    by_cases h1 : bracket x = .null
    · exact .inr (.inl ⟨by rw [h1] at hm; exact hm, x, hx, h1⟩)
    by_cases h2 : bracket x = .nan
    · exact .inr (.inr ⟨by rw [h2] at hm; exact hm, x, hx, h2⟩)
    · exact .inl ⟨x, hx, bracket x, h1, h2, hm, .inl rfl⟩

/-- The brackets a column falls back on. -/
def Beyond (dir : Int) (v : Bson) (c : Bracket) : Prop :=
  if 0 < dir then (codeBracket v).rank < c.rank ∧ ¬ (isNan v = true ∧ c = .number)
  else c.rank < (codeBracket v).rank

theorem any_bracketConds {dir : Int} {v : Bson} :
    (bracketConds dir v).any (fun c => S.fieldCond c w) = true ↔
      ∃ x ∈ readings w, Beyond dir v (bracket x) := by
  unfold bracketConds
  by_cases hd : 0 < dir
  · have hsub : ∀ s ∈ typeBracketsAfter v, s ∈ typeOrder := fun s => List.mem_of_mem_drop
    simp only [if_pos hd, Beyond]
    by_cases hnan : isNan v = true
    · rw [hnan, decide_eq_true hd, Bool.and_self, if_pos rfl, any_fallbackConds
        (fun s hs => hsub s (List.mem_of_mem_filter hs)) (by simp)]
      refine exists_congr fun x => and_congr_right fun _ => ?_
      rw [List.mem_filter, mem_typeBracketsAfter, bne_iff_ne]
      exact and_congr_right fun _ => ⟨fun h h' => h (by rw [h'.2]; rfl),
        fun h h' => h ⟨rfl, bracketName_injective (b := .number) h'⟩⟩
    · rw [Bool.not_eq_true] at hnan
      rw [hnan, Bool.false_and, if_neg (by decide), any_fallbackConds hsub ?_]
      · refine exists_congr fun x => and_congr_right fun _ => ?_
        rw [mem_typeBracketsAfter]
        simp
      · intro h
        have h3 := (mem_typeBracketsAfter (c := .number)).mp h
        refine (mem_typeBracketsAfter (c := .nan)).mpr ?_
        have hne : (codeBracket v).rank ≠ Bracket.nan.rank := by
          intro he
          have hc : codeBracket v = .nan := Bracket.rank_injective he
          have hv : v ≠ .decimal128 .nan := by rintro rfl; cases hc
          rw [codeBracket_eq hv, ← isNan_iff hv, hnan] at hc
          cases hc
        simp only [Bracket.rank] at h3 hne ⊢
        omega
  · have hsub : ∀ s ∈ typeBracketsBefore v, s ∈ typeOrder := fun s => List.mem_of_mem_take
    simp only [if_neg hd, Beyond, decide_eq_false hd, Bool.and_false, Bool.false_eq_true,
      if_false]
    rw [any_fallbackConds hsub ?_]
    · refine exists_congr fun x => and_congr_right fun _ => ?_
      rw [mem_typeBracketsBefore]
    · intro h
      have h3 := (mem_typeBracketsBefore (c := .number)).mp h
      refine (mem_typeBracketsBefore (c := .nan)).mpr ?_
      simp only [Bracket.rank] at h3 ⊢
      omega

/-- **A column with its fallbacks** selects the fields with a reading past a
boundary that is not the decimal NaN. -/
theorem any_columnConds {mode : KeysetTypeBrackets} {f : String} {dir : Int} {v : Bson}
    (hv : v ≠ .decimal128 .nan) (hm : mode.drops f = false) :
    (columnConds mode f dir v).any (fun c => S.fieldCond c w) = true ↔
      ∃ x ∈ readings w, Past (isAsc dir) (S.key v) (S.key x) := by
  rw [columnConds, hm, if_neg (by decide), List.any_append, Bool.or_eq_true,
    any_sameTypeConds hv, any_bracketConds]
  have beyond : ∀ x, Beyond dir v (bracket x) → Past (isAsc dir) (S.key v) (S.key x) := by
    intro x h
    unfold Beyond at h
    rw [codeBracket_eq hv] at h
    by_cases hd : 0 < dir
    · rw [if_pos hd] at h
      simpa only [isAsc, hd, decide_true, Past, if_true] using key_lt_of_rank h.1
    · rw [if_neg hd] at h
      simpa only [isAsc, hd, decide_false, Past, Bool.false_eq_true, if_false]
        using key_lt_of_rank h
  constructor
  · rintro (⟨x, hx, hp, -⟩ | ⟨x, hx, h⟩)
    · exact ⟨x, hx, hp⟩
    · exact ⟨x, hx, beyond x h⟩
  · rintro ⟨x, hx, hp⟩
    by_cases hb : bracket x = bracket v ∨ (isNan v = true ∧ 0 < dir ∧ bracket x = .number)
    · exact .inl ⟨x, hx, hp, hb⟩
    · refine .inr ⟨x, hx, ?_⟩
      rw [not_or] at hb
      have hne : (bracket x).rank ≠ (bracket v).rank := fun h => hb.1 (Bracket.rank_injective h)
      unfold Beyond
      rw [codeBracket_eq hv]
      by_cases hd : 0 < dir
      · simp only [isAsc, hd, decide_true, Past, if_true] at hp
        have := rank_le_of_key_lt hp
        rw [if_pos hd]
        exact ⟨by omega, fun h => hb.2 ⟨h.1, hd, h.2⟩⟩
      · simp only [isAsc, hd, decide_false, Past, Bool.false_eq_true, if_false] at hp
        have := rank_le_of_key_lt hp
        rw [if_neg hd]
        omega

/-- **A column without fallbacks** stays in the boundary's bracket, or moves
from an ascending NaN to the numbers. -/
theorem any_columnConds_dropped {mode : KeysetTypeBrackets} {f : String} {dir : Int} {v : Bson}
    (hv : v ≠ .decimal128 .nan) (hm : mode.drops f = true) :
    (columnConds mode f dir v).any (fun c => S.fieldCond c w) = true ↔
      ∃ x ∈ readings w, Past (isAsc dir) (S.key v) (S.key x) ∧
        (bracket x = bracket v ∨ (isNan v = true ∧ 0 < dir ∧ bracket x = .number)) := by
  rw [columnConds, hm, if_pos rfl, List.append_nil, any_sameTypeConds hv]

end XavierDB.Dbq
