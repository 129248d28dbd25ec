import XavierDB.Dbq.Page

/-!
# Walks by cursor

A walk returns the unpaged find when each boundary it stops at continues
exactly. In mode `all` that takes boundary values that stand for themselves in
an equality arm. A mode that drops fallbacks also needs its columns to be of a
single type, and is still not exact past a number in a descending column with
NaN below it.
-/

namespace XavierDB.Dbq

open Mongo Paging

variable {K : Type} [LinearOrder K] {S : Server K} {X : ExtJson} {docs : List Document}
  {user : Document} {sort : SortKeys} {mode : KeysetTypeBrackets} {db coll : String}

/-- No sort field holds an array, a regular expression or the decimal NaN. -/
def PlainSort (docs : List Document) (sort : SortKeys) : Prop :=
  ∀ d ∈ docs, ∀ p ∈ sort, (d.getOrNull p.1).isPlain = true

/-- No sort field of the boundary before the last, whose value enters no equality, holds a
document that MongoDB reads as operators. -/
def NoOperatorDoc (sort : SortKeys) (b : Document) : Prop :=
  ∀ p ∈ sort.dropLast, (b.getOrNull p.1).isOperatorDoc = false

instance (docs : List Document) (sort : SortKeys) : Decidable (PlainSort docs sort) :=
  inferInstanceAs (Decidable (∀ d ∈ docs, ∀ p ∈ sort, _))

instance (sort : SortKeys) (b : Document) : Decidable (NoOperatorDoc sort b) :=
  inferInstanceAs (Decidable (∀ p ∈ sort.dropLast, _))

theorem NoOperatorDoc.column {b : Document} (h : NoOperatorDoc sort b) {A B : SortKeys}
    {p : String × Int} (hs : sort = A ++ p :: B) (hB : B ≠ []) :
    (b.getOrNull p.1).isOperatorDoc = false := by
  refine h p ?_
  rw [hs, List.dropLast_append_cons, List.dropLast_cons_of_ne_nil hB]
  exact List.mem_append_right _ List.mem_cons_self

/-- A boundary whose filter selects by the order continues exactly. -/
theorem continues_of_selects {A B : List Document} {b : Document}
    (ht : TopLevel (sort.map Prod.fst)) (hs : S.Strict (ascColumns sort) docs)
    (hR : unpaged S docs user sort = A ++ b :: B)
    (h : ∀ d ∈ unpaged S docs user sort,
      selects S (effectiveMode mode (colsOf sort b)) (colsOf sort b) d = true ↔
        S.DocLt (ascColumns sort) b d) : Continues S docs user sort mode b B := by
  have hlt := pairwise_unpaged user ht hs
  rw [hR] at hlt h
  rw [Continues, hR]
  exact filter_docLt_eq hlt h

/-- Plain boundary values that stand for themselves continue exactly in mode `all`. -/
theorem continues_all {A B : List Document} {b : Document} (ht : TopLevel (sort.map Prod.fst))
    (hs : S.Strict (ascColumns sort) docs) (hplain : PlainSort docs sort)
    (hR : unpaged S docs user sort = A ++ b :: B) (hop : NoOperatorDoc sort b) :
    Continues S docs user sort .all b B := by
  have hbR : b ∈ docs := mem_of_mem_unpaged (hR ▸ List.mem_append_right _ List.mem_cons_self)
  refine continues_of_selects ht hs hR fun d hd => ?_
  rw [effectiveMode_all]
  refine selects_iff (fun p hp => (bracket_ne_of_isPlain (hplain b hbR p hp)).1)
    fun A' p B' he _ => ?_
  have hp : p ∈ sort := he ▸ List.mem_append_right _ List.mem_cons_self
  exact columnExact_of_notArray (hplain b hbR p hp) (hop.column he) rfl
    (bracket_ne_of_isPlain (hplain d (mem_of_mem_unpaged hd) p hp)).1

/-- **Walks in mode `all`** return the unpaged find, if no page ends on a
document with operators as a sort value before the last. -/
theorem walk_all_eq_unpaged (hc : Collection S docs) (ht : TopLevel (sort.map Prod.fst))
    (hplain : PlainSort docs (normalizeSort sort)) {rs : Nat → PageRequest}
    (hv : ∀ i, ValidLimit docs.length (rs i).limit)
    (hb : ∀ b, Boundary (fun r : PageRequest => r.limit.toNat) rs
        (unpaged S docs user (normalizeSort sort)) b →
      NoOperatorDoc (normalizeSort sort) b ∧ ReadsBack X (normalizeSort sort) b)
    {fuel : Nat} (hf : docs.length < fuel) :
    walk (fetchPage S X docs db coll user (normalizeSort sort) .all) fuel rs none =
      .ok (some (unpaged S docs user (normalizeSort sort))) := by
  have ht' := ht.normalizeSort
  have hs := hc.strict (id_mem_normalizeSort sort)
  refine (serves_fetchPage (G := fun b => NoOperatorDoc (normalizeSort sort) b ∧
    ReadsBack X (normalizeSort sort) b) ht' hs fun A x B hR hx => ?_).walk_eq rfl hv hb
    (lt_of_le_of_lt (length_unpaged_le S docs user _) hf)
  exact ⟨hx.2, continues_all ht' hs hplain hR hx.1⟩

/-- The number of documents a walk returned. -/
def walkLength (w : Res (Option (List Document))) : Option Nat := w.toOption.join.map List.length

def nanDocs : List Document :=
  [[("_id", .int32 1), ("f", .double .nan)], [("_id", .int32 2), ("f", .int32 7)],
    [("_id", .int32 3)]]

def sampleValues : List Bson :=
  [.null, .int32 1, .int32 2, .int32 3, .int32 7, .double .nan, .double .posInf,
    .document [("$gt", .int32 5)], .decimal128 .nan]

/-- Canonical extended JSON on `sampleValues`. -/
def sampleJson : ExtJson := tableJson sampleValues

theorem sampleJson_parse {v : Bson} (hv : v ∈ sampleValues) :
    sampleJson.parse (sampleJson.canonical v) = .ok v :=
  tableJson_parse (by decide +kernel) hv

theorem readsBack_nanDocs : ∀ b ∈ nanDocs, ReadsBack sampleJson (normalizeSort [("f", 1)]) b := by
  have hsort : normalizeSort [("f", 1)] = [("f", 1), ("_id", 1)] := by decide
  simp only [nanDocs, hsort, ReadsBack, List.forall_mem_cons]
  refine ⟨⟨?_, ?_, List.forall_mem_nil _⟩, ⟨?_, ?_, List.forall_mem_nil _⟩,
    ⟨?_, ?_, List.forall_mem_nil _⟩, List.forall_mem_nil _⟩ <;>
    exact sampleJson_parse (by simp [sampleValues, Document.getOrNull, Document.get])

/-- A missing field, NaN and a number under one sort key, page by page. -/
theorem walk_all_eq_unpaged_nanDocs :
    walk (fetchPage byteServer sampleJson nanDocs "db" "c" [] (normalizeSort [("f", 1)]) .all) 4
      (fun i => ⟨1, i⟩) none =
        .ok (some (unpaged byteServer nanDocs [] (normalizeSort [("f", 1)]))) :=
  walk_all_eq_unpaged (S := byteServer) ⟨by decide +kernel, by decide⟩
    ⟨by decide, by decide, by decide⟩ (by decide) (fun i => ⟨show 1 ≤ (1 : UInt32).toNat by decide, .inr (by decide)⟩)
    (fun b hb => ⟨(by decide : ∀ b ∈ nanDocs, NoOperatorDoc (normalizeSort [("f", 1)]) b) b
      (mem_of_mem_unpaged hb.mem), readsBack_nanDocs b (mem_of_mem_unpaged hb.mem)⟩) (by decide)

/-- Two documents that tie on a value which reads as an operator. -/
def operatorDocs : List Document :=
  [[("_id", .int32 1), ("f", .document [("$gt", .int32 5)])],
    [("_id", .int32 2), ("f", .document [("$gt", .int32 5)])]]

/-- The equality arm on `{"$gt": 5}` asks for numbers above 5: the second
document is lost. -/
theorem walk_all_ne_unpaged_operatorDocs :
    Collection byteServer operatorDocs ∧ PlainSort operatorDocs (normalizeSort [("f", 1)]) ∧
      walk (fetchPage byteServer sampleJson operatorDocs "db" "c" [] (normalizeSort [("f", 1)]) .all)
        3 (fun i => ⟨1, i⟩) none ≠
          .ok (some (unpaged byteServer operatorDocs [] (normalizeSort [("f", 1)]))) := by
  refine ⟨⟨by decide +kernel, by decide⟩, by decide, fun h => ?_⟩
  have hlen := congrArg walkLength h
  revert hlen
  decide +kernel

end XavierDB.Dbq
