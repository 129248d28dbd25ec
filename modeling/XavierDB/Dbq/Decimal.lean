import XavierDB.Dbq.Walk

/-!
# Decimal boundaries

The code puts every decimal among the numbers, the server puts the decimal NaN
just below them. `Misplaced` is where that shows: ascending, the numbers above
the boundary are not reached; descending, the NaN beside it counts as past it.
Everywhere else a continuation after a decimal is exact.
-/

namespace XavierDB.Dbq

open Mongo

variable {K : Type} [LinearOrder K] {S : Server K} {w : Option Bson} {dir : Int}

/-- The boundary is the decimal NaN and the field lies where the code and the
server disagree about it. -/
def Misplaced (dir : Int) (v x : Bson) : Prop :=
  v = .decimal128 .nan ∧ bracket x = if 0 < dir then .number else .nan

/-- What lies past the decimal NaN, by bracket alone. -/
theorem past_decimalNan {x : Bson} :
    Past (isAsc dir) (S.key (.decimal128 .nan)) (S.key x) ↔
      if 0 < dir then Bracket.nan.rank < (bracket x).rank else (bracket x).rank < Bracket.nan.rank := by
  have hne : ∀ y : Bson, bracket y = .nan → S.key (.decimal128 .nan) = S.key y := fun y hy =>
    key_eq_of_uniform hy.symm rfl nofun
  by_cases hd : 0 < dir
  · simp only [isAsc, hd, decide_true, Past, if_true]
    refine ⟨fun h => lt_of_le_of_ne (rank_le_of_key_lt h) fun he => ?_, fun h => key_lt_of_rank h⟩
    exact absurd h (by rw [hne x (Bracket.rank_injective he.symm)]; exact lt_irrefl _)
  · simp only [isAsc, hd, decide_false, Past, Bool.false_eq_true, if_false]
    refine ⟨fun h => lt_of_le_of_ne (rank_le_of_key_lt h) fun he => ?_, fun h => key_lt_of_rank h⟩
    exact absurd h (by rw [hne x (Bracket.rank_injective he)]; exact lt_irrefl _)

/-- After a decimal NaN the column continues as after a number, range arm aside. -/
theorem any_columnConds_decimalNan {f : String} (hw : bracket (w.getD .null) ≠ .array) :
    (columnConds .all f dir (.decimal128 .nan)).any (fun c => S.fieldCond c w) = true ↔
      if 0 < dir then Bracket.number.rank < (bracket (w.getD .null)).rank
      else (bracket (w.getD .null)).rank < Bracket.number.rank := by
  have hsame : (sameTypeConds dir (.decimal128 .nan)).any (fun c => S.fieldCond c w) = false := by
    have hs : sameTypeConds dir (.decimal128 .nan) =
        [.document [(if 0 < dir then "$gt" else "$lt", .decimal128 .nan)]] := rfl
    rw [hs, List.any_cons, List.any_nil, Bool.or_false, fieldCond_range, ← Bool.not_eq_true,
      rangeMatch_iff]
    exact fun h => h.1 rfl
  have hm : KeysetTypeBrackets.all.drops f = false := rfl
  rw [columnConds, hm, if_neg (by decide), List.any_append, hsame, Bool.false_or,
    any_bracketConds]
  simp only [mem_readings_iff hw, exists_eq_left, Beyond, codeBracket]
  by_cases hd : 0 < dir
  · simp only [hd, if_true]
    exact and_iff_left fun h => by cases h.1
  · simp only [hd, if_false]

/-- A kept column is exact unless the field is misplaced; then it says the opposite. -/
theorem any_columnConds_iff {f : String} {v : Bson} (hw : bracket (w.getD .null) ≠ .array) :
    (columnConds .all f dir v).any (fun c => S.fieldCond c w) = true ↔
      (Misplaced dir v (w.getD .null) ∧ ¬ 0 < dir) ∨
        (¬ Misplaced dir v (w.getD .null) ∧
          Past (isAsc dir) (S.key v) (S.key (w.getD .null))) := by
  by_cases hv : v = .decimal128 .nan
  · subst hv
    have hrank : ∀ c : Bracket, (bracket (w.getD .null)).rank = c.rank ↔
        bracket (w.getD .null) = c := fun c => ⟨Bracket.rank_injective, congrArg _⟩
    rw [any_columnConds_decimalNan hw, past_decimalNan]
    by_cases hd : 0 < dir
    · have hnum := hrank .number
      simp only [Misplaced, hd, true_and, if_true, not_true_eq_false, and_false, false_or,
        ← hnum, Bracket.rank]
      omega
    · have hnan := hrank .nan
      simp only [Misplaced, hd, true_and, if_false, not_false_eq_true, and_true, ← hnan,
        Bracket.rank]
      omega
  · rw [any_columnConds hv rfl]
    simp only [mem_readings_iff hw, exists_eq_left, Misplaced, hv, false_and, not_false_eq_true,
      true_and, false_or]

/-- The filter and the order disagree on `d` past `b`: the field is misplaced
(descending, `d` may still lie past by its `_id`), or the fields tie and the
`_id` is misplaced. -/
def DecimalGap (S : Server K) (f : String) (dir : Int) (b d : Document) : Prop :=
  (Misplaced dir (b.getOrNull f) (d.getOrNull f) ∧
    (0 < dir ∨ ¬ Past (isAsc dir) (S.key (b.getOrNull "_id")) (S.key (d.getOrNull "_id")))) ∨
  (¬ Misplaced dir (b.getOrNull f) (d.getOrNull f) ∧
    S.key (d.getOrNull f) = S.key (b.getOrNull f) ∧
    Misplaced dir (b.getOrNull "_id") (d.getOrNull "_id"))

/-- Misplaced fields tie with the boundary just when the column descends. -/
theorem Misplaced.key_eq_iff {v x : Bson} (h : Misplaced dir v x) :
    S.key x = S.key v ↔ ¬ 0 < dir := by
  obtain ⟨rfl, hx⟩ := h
  by_cases hd : 0 < dir
  · rw [if_pos hd] at hx
    refine iff_of_false (fun he => ?_) (not_not.mpr hd)
    have := bracket_eq_of_key_eq he
    rw [hx] at this
    cases this
  · rw [if_neg hd] at hx
    exact iff_of_true (key_eq_of_uniform hx (by rw [hx]; rfl) (by rw [hx]; nofun)) hd

/-- A misplaced field lies past the boundary just when the column ascends. -/
theorem Misplaced.past_iff {v x : Bson} (h : Misplaced dir v x) :
    Past (isAsc dir) (S.key v) (S.key x) ↔ 0 < dir := by
  obtain ⟨rfl, hx⟩ := h
  rw [past_decimalNan, hx]
  by_cases hd : 0 < dir <;> simp [hd, Bracket.rank]

/-- `M`, `P`, `T` are misplaced, past and tied in the field, `M'`, `P'` in the
`_id`; `A` is ascending. -/
theorem disagree_iff {M P T M' P' A : Prop} (hT : M → (T ↔ ¬ A)) (hP : M → (P ↔ A))
    (hP' : M' → (P' ↔ A)) (hTP : T → ¬ P) :
    ((M ∧ ¬ A ∨ ¬ M ∧ P) ∨ (T ∧ (M' ∧ ¬ A ∨ ¬ M' ∧ P')) ↔ P ∨ (T ∧ P')) ↔
      ¬ ((M ∧ (A ∨ ¬ P')) ∨ (¬ M ∧ T ∧ M')) := by
  by_cases hM : M
  · simp only [hM, hT hM, hP hM, true_and, not_true_eq_false, false_and, or_false]
    by_cases hA : A <;> simp [hA]
  · simp only [hM, false_and, not_false_eq_true, true_and, false_or]
    by_cases hT' : T
    · simp only [hT', hTP hT', true_and, false_or]
      by_cases hM' : M'
      · simp only [hM', hP' hM']
        by_cases hA : A <;> simp [hA]
      · simp [hM']
    · simp [hT']

/-- **After a decimal boundary** the filter matches what sorts strictly after it,
just when there is no gap. -/
theorem keysetCondition_decimal_iff {f : String} (ht : TopLevel [f, "_id"]) {v : Decimal128}
    {b d : Document} (hb : b.get f = some (.decimal128 v))
    (hd : bracket (d.getOrNull f) ≠ .array) (hbid : bracket (b.getOrNull "_id") ≠ .array)
    (hdid : bracket (d.getOrNull "_id") ≠ .array) :
    ∃ k, keysetCondition [(f, dir), ("_id", dir)] [.decimal128 v, b.getOrNull "_id"] .all = .ok k ∧
      ((S.evalDoc d k = true ↔ S.DocLt (ascColumns [(f, dir), ("_id", dir)]) b d) ↔
        ¬ DecimalGap S f dir b d) := by
  have hbf : b.getOrNull f = .decimal128 v := by rw [getOrNull_eq, hb]; rfl
  have hlen : [.decimal128 v, b.getOrNull "_id"].length = [(f, dir), ("_id", dir)].length := rfl
  obtain ⟨k, hk, he⟩ := keysetCondition_eq S .all hlen ht
  refine ⟨k, hk, ?_⟩
  have hbarr : bracket ((b.get f).getD .null) ≠ .array := by
    rw [← getOrNull_eq, hbf]
    cases v <;> nofun
  have htie : S.fieldCond (.decimal128 v) (d.get f) = true ↔
      S.key (d.getOrNull f) = S.key (b.getOrNull f) := by
    rw [fieldCond_eq_eqMatch rfl (by cases v <;> nofun), eqMatch_iff, hbf]
    simp only [mem_readings_iff hd, exists_eq_left, getOrNull_eq]
  have hmatch : S.evalDoc d k = true ↔
      ((columnConds .all f dir (.decimal128 v)).any fun c => S.fieldCond c (d.get f)) = true ∨
        (S.key (d.getOrNull f) = S.key (b.getOrNull f) ∧
          ((columnConds .all "_id" dir (b.getOrNull "_id")).any
            fun c => S.fieldCond c (d.get "_id")) = true) := by
    rw [he, effectiveMode_all]
    simp only [List.zip_cons_cons, List.zip_nil_right, selects, Bool.and_false, Bool.or_false,
      Bool.or_eq_true, Bool.and_eq_true, htie]
  have hafter : S.DocLt (ascColumns [(f, dir), ("_id", dir)]) b d ↔
      Past (isAsc dir) (S.key (b.getOrNull f)) (S.key (d.getOrNull f)) ∨
        (S.key (b.getOrNull f) = S.key (d.getOrNull f) ∧
          Past (isAsc dir) (S.key (b.getOrNull "_id")) (S.key (d.getOrNull "_id"))) := by
    simp only [ascColumns, List.map_cons, List.map_nil, Server.DocLt, and_false, or_false,
      colKey_eq hbarr, colKey_eq hd, colKey_eq hbid, colKey_eq hdid, getOrNull_eq]
  rw [hmatch, hafter, any_columnConds_iff hd, any_columnConds_iff hdid, ← hbf,
    eq_comm (a := S.key (b.getOrNull f))]
  simp only [← getOrNull_eq, DecimalGap]
  have hnot : S.key (d.getOrNull f) = S.key (b.getOrNull f) →
      ¬ Past (isAsc dir) (S.key (b.getOrNull f)) (S.key (d.getOrNull f)) := fun h => by
    rw [h]; exact past_irrefl _ _
  exact disagree_iff Misplaced.key_eq_iff Misplaced.past_iff Misplaced.past_iff hnot

def decimalNanDoc : Document := [("_id", .int32 1), ("f", .decimal128 .nan)]

def doubleNanDoc : Document := [("_id", .int32 2), ("f", .double .nan)]

/-- A decimal NaN and a double NaN tie: the `_id` decides. -/
theorem keysetCondition_decimal_iff_nans :
    ∃ k, keysetCondition [("f", 1), ("_id", 1)] [.decimal128 .nan, decimalNanDoc.getOrNull "_id"]
        .all = .ok k ∧
      ((byteServer.evalDoc doubleNanDoc k = true ↔
          byteServer.DocLt (ascColumns [("f", 1), ("_id", 1)]) decimalNanDoc doubleNanDoc) ↔
        ¬ DecimalGap byteServer "f" 1 decimalNanDoc doubleNanDoc) :=
  keysetCondition_decimal_iff ⟨by decide, by decide, by decide⟩ rfl (by decide) (by decide)
    (by decide)

/-- Ascending past a decimal NaN, a number is not matched. -/
theorem keysetCondition_decimalNan_gap :
    (keysetCondition [("f", 1), ("_id", 1)] [.decimal128 .nan, .int32 1] .all).toOption.map
        (fun k => byteServer.evalDoc [("_id", .int32 2), ("f", .int32 7)] k) = some false ∧
      byteServer.DocLt (ascColumns [("f", 1), ("_id", 1)]) decimalNanDoc
        [("_id", .int32 2), ("f", .int32 7)] := by
  constructor <;> decide +kernel

end XavierDB.Dbq
