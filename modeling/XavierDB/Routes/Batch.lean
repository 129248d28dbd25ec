import XavierDB.Bson.WordForm
import XavierDB.Error
import XavierDB.Mongo.Filter

/-!
# Batches (`src/routes_q.rs`)

`batchToDocs` looks for two equal `_id`s by their canonical extended JSON, which
tells types apart and does not see the order of keys. The unique index of
MongoDB compares numbers by value and documents in order.
-/

namespace XavierDB.Routes

open Mongo

/-! ## The code -/

/-! `form` is `into_canonical_extjson` of the crate `bson`. -/
variable (form : Bson → Json)

/-- `require_object`. -/
def requireObject (b : Bson) (what : String) : Except ApiError Document :=
  match b with
  | .document d => .ok d
  | _ => .error (.badRequest (what ++ " must be a JSON object"))

/-- The set of the `_id`s seen, one more document considered. -/
def seeId (seen : List Json) (doc : Document) : Except ApiError (List Json) :=
  match doc.get "_id" with
  | none => .ok seen
  | some id =>
    if seen.any (form id).same then .error (.badRequest "duplicate _id within insert batch")
    else .ok (form id :: seen)

/-- The loop, from the item of index `i` on. -/
def batchLoop : ℕ → List Json → List Bson → Except ApiError (List Document)
  | _, _, [] => .ok []
  | i, seen, item :: rest => do
    let doc ← requireObject item s!"data[{i}]"
    let seen ← seeId form seen doc
    let docs ← batchLoop (i + 1) seen rest
    return doc :: docs

/-- `batch_to_docs`. -/
def batchToDocs (items : List Bson) (maxBatch : ℕ) : Except ApiError (List Document) :=
  if items.isEmpty then .error (.badRequest "insert batch must not be empty")
  else if maxBatch < items.length then
    .error (.badRequest s!"insert batch too large (max {maxBatch} documents)")
  else batchLoop form 0 [] items

/-! ## What it accepts -/

/-- The `_id`s that a batch carries. -/
def ids (docs : List Document) : List Bson := docs.filterMap (·.get "_id")

/-- Two members of the list are related. -/
def HasPair (r : Bson → Bson → Prop) (l : List Bson) : Prop := ¬ l.Pairwise fun a b => ¬ r a b

/-- The same in canonical extended JSON, as the set compares a new value to the
old ones. -/
def Same (a b : Bson) : Prop := (form b).same (form a) = true

/-- The `_id`s are new, to the set and to each other. -/
def Fresh (seen : List Json) (ids : List Bson) : Prop :=
  (∀ id ∈ ids, ∀ v ∈ seen, ¬ (form id).same v = true) ∧ ids.Pairwise fun a b => ¬ Same form a b

variable {form}

theorem fresh_cons {seen : List Json} {id : Bson} {ids : List Bson} :
    Fresh form seen (id :: ids) ↔
      seen.any (form id).same = false ∧ Fresh form (form id :: seen) ids := by
  rw [Fresh, Fresh, List.forall_mem_cons, List.pairwise_cons, List.any_eq_false]
  constructor
  · rintro ⟨⟨hid, hids⟩, hpair, hpairs⟩
    refine ⟨hid, fun id' h v hv => ?_, hpairs⟩
    rcases List.mem_cons.mp hv with rfl | hv
    · exact hpair id' h
    · exact hids id' h v hv
  · rintro ⟨hid, hids, hpairs⟩
    exact ⟨⟨hid, fun id' h v hv => hids id' h v (List.mem_cons_of_mem _ hv)⟩,
      fun id' h => hids id' h _ List.mem_cons_self, hpairs⟩

/-- With a document in front the `_id`s are fresh when its own is and the others
still are once it has been seen. -/
theorem fresh_ids_cons {seen : List Json} {d : Document} {docs : List Document} :
    Fresh form seen (ids (d :: docs)) ↔
      ∃ seen', seeId form seen d = .ok seen' ∧ Fresh form seen' (ids docs) := by
  rw [ids, List.filterMap_cons, seeId]
  cases Document.get d "_id" with
  | none =>
    constructor
    · intro h
      exact ⟨seen, rfl, h⟩
    · rintro ⟨seen', hsee, h⟩
      obtain rfl := Except.ok.inj hsee
      exact h
  | some id =>
    dsimp only
    rw [fresh_cons]
    split
    case isTrue h => exact iff_of_false (by simp [h]) (by rintro ⟨_, ⟨⟩, _⟩)
    case isFalse h =>
      constructor
      · rintro ⟨-, hfresh⟩
        exact ⟨_, rfl, hfresh⟩
      · rintro ⟨seen', hsee, hfresh⟩
        obtain rfl := Except.ok.inj hsee
        exact ⟨Bool.eq_false_iff.mpr h, hfresh⟩

/-- The loop at a document. -/
theorem batchLoop_document {i : ℕ} {seen : List Json} {d : Document} {rest : List Bson}
    {docs : List Document} :
    batchLoop form i seen (.document d :: rest) = .ok docs ↔
      ∃ seen' docs', seeId form seen d = .ok seen' ∧ batchLoop form (i + 1) seen' rest = .ok docs' ∧
        docs = d :: docs' := by
  have hstep : batchLoop form i seen (.document d :: rest) = (do
      let seen ← seeId form seen d
      let docs ← batchLoop form (i + 1) seen rest
      return d :: docs) := rfl
  rw [hstep]
  constructor
  · intro h
    obtain ⟨seen', hsee, h⟩ := bind_ok h
    obtain ⟨docs', hloop, h⟩ := bind_ok h
    exact ⟨seen', docs', hsee, hloop, (Except.ok.inj h).symm⟩
  · rintro ⟨seen', docs', hsee, hloop, rfl⟩
    rw [hsee]
    show (batchLoop form (i + 1) seen' rest >>= _) = _
    rw [hloop]
    rfl

theorem eq_map_document_cons {d : Document} {rest : List Bson} {docs : List Document} :
    Bson.document d :: rest = docs.map .document ↔
      ∃ rest', docs = d :: rest' ∧ rest = rest'.map .document := by
  rw [eq_comm, List.map_eq_cons_iff]
  constructor
  · rintro ⟨d', rest', rfl, hd, hrest⟩
    obtain rfl := Bson.document.inj hd
    exact ⟨rest', rfl, hrest.symm⟩
  · rintro ⟨rest', rfl, hrest⟩
    exact ⟨d, rest', rfl, rfl, hrest.symm⟩

/-- The loop goes through when every item is a document and every `_id` fresh. -/
theorem batchLoop_ok {i : ℕ} {seen : List Json} {items : List Bson} {docs : List Document} :
    batchLoop form i seen items = .ok docs ↔
      items = docs.map .document ∧ Fresh form seen (ids docs) := by
  induction items generalizing i seen docs with
  | nil =>
    rw [eq_comm (a := []), List.map_eq_nil_iff]
    constructor
    · intro h
      obtain rfl := Except.ok.inj h
      exact ⟨rfl, by simp [ids], .nil⟩
    · rintro ⟨rfl, -⟩
      rfl
  | cons item rest ih =>
    cases item with
    | document d =>
      rw [batchLoop_document, eq_map_document_cons]
      constructor
      · rintro ⟨seen', docs', hsee, hloop, rfl⟩
        obtain ⟨hrest, hfresh⟩ := ih.mp hloop
        exact ⟨⟨docs', rfl, hrest⟩, fresh_ids_cons.mpr ⟨seen', hsee, hfresh⟩⟩
      · rintro ⟨⟨docs', rfl, hrest⟩, hfresh⟩
        obtain ⟨seen', hsee, hfresh⟩ := fresh_ids_cons.mp hfresh
        exact ⟨seen', docs', hsee, ih.mpr ⟨hrest, hfresh⟩, rfl⟩
    | _ =>
      refine iff_of_false (by rintro ⟨⟩) ?_
      rintro ⟨hitems, -⟩
      obtain ⟨d, docs', rfl, hd, -⟩ := List.map_eq_cons_iff.mp hitems.symm
      cases hd

/-- The condition of the code: documents, their number, and `_id`s that differ in
canonical form. -/
theorem batchToDocs_ok {items : List Bson} {maxBatch : ℕ} {docs : List Document} :
    batchToDocs form items maxBatch = .ok docs ↔
      items = docs.map .document ∧ docs ≠ [] ∧ docs.length ≤ maxBatch ∧
        ¬ HasPair (Same form) (ids docs) := by
  have hfresh : Fresh form [] (ids docs) ↔ ¬ HasPair (Same form) (ids docs) := by
    rw [HasPair, not_not]
    exact and_iff_right fun _ _ _ hv => absurd hv List.not_mem_nil
  unfold batchToDocs
  split
  case isTrue h =>
    obtain rfl := List.isEmpty_iff.mp h
    refine iff_of_false (by rintro ⟨⟩) ?_
    rintro ⟨hdocs, hne, -⟩
    exact hne (List.map_eq_nil_iff.mp hdocs.symm)
  case isFalse h =>
    split
    case isTrue hlong =>
      refine iff_of_false (by rintro ⟨⟩) ?_
      rintro ⟨rfl, -, hle, -⟩
      rw [List.length_map] at hlong
      omega
    case isFalse hshort =>
      rw [batchLoop_ok, hfresh]
      constructor
      · rintro ⟨rfl, hpair⟩
        refine ⟨rfl, ?_, ?_, hpair⟩
        · rintro rfl
          exact h rfl
        · rw [List.length_map] at hshort
          omega
      · rintro ⟨hitems, -, -, hpair⟩
        exact ⟨hitems, hpair⟩

/-! ## Against the index -/

variable {K : Type} [LinearOrder K] {S : Server K}

/-- Equal for the unique index of `_id`. -/
def IndexEq (S : Server K) (a b : Bson) : Prop := S.key a = S.key b

/-- The batch is accepted, as its documents in order, exactly when it has
documents only, at least one and no more than the cap, and no two of its `_id`s
are equal for the index. -/
def Exact (form : Bson → Json) (S : Server K) (items : List Bson) (maxBatch : ℕ) : Prop :=
  ∀ docs, batchToDocs form items maxBatch = .ok docs ↔
    items = docs.map .document ∧ docs ≠ [] ∧ docs.length ≤ maxBatch ∧
      ¬ HasPair (IndexEq S) (ids docs)

/-- Alike for the set of the `_id`s seen: the same types and values, also in arrays
and in documents, whose keys may come in any order. Only where a document has an
operator key, and so may be written as a value of another type is, do the forms
themselves count. -/
def Alike (form : Bson → Json) (a b : Bson) : Prop :=
  (Ordinary a ∧ Ordinary b → SameTyped b a) ∧ (¬ (Ordinary a ∧ Ordinary b) → Same form a b)

theorem same_iff_alike (hf : TypeSensitive form) {a b : Bson} : Same form a b ↔ Alike form a b := by
  by_cases h : Ordinary a ∧ Ordinary b
  · rw [Alike, Same, same_form_iff hf h.2 h.1]
    simp [h]
  · simp [Alike, h]

theorem hasPair_same_iff (hf : TypeSensitive form) {l : List Bson} :
    HasPair (Same form) l ↔ HasPair (Alike form) l := by
  simp only [HasPair, same_iff_alike hf]

/-- Of values without operator keys the types and the values alone count. -/
theorem hasPair_alike_iff {l : List Bson} (hl : ∀ b ∈ l, Ordinary b) :
    HasPair (Alike form) l ↔ HasPair (fun a b => SameTyped b a) l := by
  refine not_congr (List.Pairwise.iff_of_mem fun {a b} ha hb => ?_)
  simp [Alike, hl a ha, hl b hb]

theorem exact_iff_same (form : Bson → Json) (S : Server K) (items : List Bson) (maxBatch : ℕ) :
    Exact form S items maxBatch ↔
      ∀ docs, items = docs.map .document → docs ≠ [] → docs.length ≤ maxBatch →
        (HasPair (Same form) (ids docs) ↔ HasPair (IndexEq S) (ids docs)) := by
  refine forall_congr' fun docs => ?_
  rw [batchToDocs_ok]
  constructor
  · intro h hitems hne hle
    simp only [hitems, hne, hle, ne_eq, not_false_eq_true, true_and] at h
    exact not_iff_not.mp h
  · intro h
    refine and_congr_right fun hitems => and_congr_right fun hne => and_congr_right fun hle => ?_
    exact not_congr (h hitems hne hle)

/-- **A batch is decided as the index would** exactly when it is no batch of one to
`maxBatch` documents, or has two `_id`s of the same types and values, at every depth
and whatever the order of keys, if and only if it has two that are equal for the index. -/
theorem batchToDocs_exact_iff (hf : TypeSensitive form) (S : Server K) (items : List Bson)
    (maxBatch : ℕ) : Exact form S items maxBatch ↔
      ∀ docs, items = docs.map .document → docs ≠ [] → docs.length ≤ maxBatch →
        (HasPair (Alike form) (ids docs) ↔ HasPair (IndexEq S) (ids docs)) := by
  simp only [exact_iff_same, hasPair_same_iff hf]

theorem ids_of_map {docs docs' : List Document} (h : docs.map Bson.document = docs'.map .document) :
    ids docs' = ids docs := by
  rw [List.map_injective_iff.mpr (fun _ _ h => Bson.document.inj h) h]

/-- A number, a text and a document go together into a batch. -/
theorem batchToDocs_exact_three :
    Exact wordForm byteServer
      ([[("_id", .int64 1)], [("_id", .string "a")], [("_id", .document [("k", .int64 1)])]].map
        .document) 1000 := by
  refine (batchToDocs_exact_iff typeSensitive_wordForm byteServer _ 1000).mpr
    fun docs hdocs _ _ => ?_
  have hids : ids docs = [.int64 1, .string "a", .document [("k", .int64 1)]] := ids_of_map hdocs
  have hord : ∀ b ∈ ids docs, Ordinary b := by
    rw [hids]
    simp only [List.forall_mem_cons]
    refine ⟨.wrapped rfl, .string _, .document ?_ ?_, by simp⟩
    · simp [isOperatorKey]
    · simpa using .wrapped rfl
  rw [hasPair_alike_iff hord, hids]
  refine iff_of_false (not_not_intro ?_) (not_not_intro ?_)
  · simp [SameTyped]
  · simp only [IndexEq]
    decide

/-! ## Numbers -/

theorem indexEq_numbers_iff {a b : Bson} (ha : bracket a = .number) (hb : bracket b = .number) :
    IndexEq S a b ↔ numPosition a = numPosition b := by
  rw [IndexEq, Server.key, Server.key, ha, hb]
  simp [Bracket.isUniform]

theorem isWrapped_of_number {b : Bson} (h : bracket b = .number) : b.isWrapped = true := by
  cases b <;> first | rfl | cases h

/-- A batch whose `_id`s are numbers is decided as the index would exactly when two of
them are the same number only if two are of the same type as well. -/
theorem exact_numbers_iff (hf : TypeSensitive form) {docs : List Document} {maxBatch : ℕ}
    (hne : docs ≠ []) (hle : docs.length ≤ maxBatch)
    (hnum : ∀ b ∈ ids docs, bracket b = .number) :
    Exact form S (docs.map .document) maxBatch ↔
      (HasPair (fun a b => numPosition a = numPosition b) (ids docs) →
        HasPair (fun a b => a = b) (ids docs)) := by
  have hindex : HasPair (IndexEq S) (ids docs) ↔
      HasPair (fun a b => numPosition a = numPosition b) (ids docs) :=
    not_congr (List.Pairwise.iff_of_mem fun ha hb =>
      not_congr (indexEq_numbers_iff (hnum _ ha) (hnum _ hb)))
  have halike : HasPair (Same form) (ids docs) ↔ HasPair (fun a b => a = b) (ids docs) := by
    refine not_congr (List.Pairwise.iff_of_mem fun {a b} ha hb => not_congr ?_)
    rw [Same, hf.same_wrapped _ _ (isWrapped_of_number (hnum _ hb))
      (isWrapped_of_number (hnum _ ha)), eq_comm]
  have hsame : HasPair (fun a b => a = b) (ids docs) →
      HasPair (fun a b => numPosition a = numPosition b) (ids docs) := fun h hpair =>
    h (hpair.imp fun hab heq => hab (congrArg numPosition heq))
  rw [exact_iff_same]
  constructor
  · intro h hpair
    exact halike.mp ((h docs rfl hne hle).mpr (hindex.mpr hpair))
  · intro h docs' hdocs _ _
    rw [ids_of_map hdocs, halike, hindex]
    exact ⟨hsame, h⟩

/-! ## Two documents -/

theorem hasPair_two {r : Bson → Bson → Prop} {a b : Bson} : HasPair r [a, b] ↔ r a b := by
  rw [HasPair, List.pairwise_pair, not_not]

/-- Two documents with nothing but an `_id`. -/
def pairBatch (a b : Bson) : List Bson := [.document [("_id", a)], .document [("_id", b)]]

/-- Of two documents, the code decides as the index exactly when the canonical
forms of their `_id`s do. -/
theorem exact_pairBatch_iff {a b : Bson} {maxBatch : ℕ} (h : 2 ≤ maxBatch) :
    Exact form S (pairBatch a b) maxBatch ↔ (Same form a b ↔ IndexEq S a b) := by
  rw [exact_iff_same]
  constructor
  · intro hexact
    have hpair := hexact [[("_id", a)], [("_id", b)]] rfl (List.cons_ne_nil _ _) h
    have hids : ids [[("_id", a)], [("_id", b)]] = [a, b] := rfl
    rwa [hids, hasPair_two, hasPair_two] at hpair
  · intro hiff docs hdocs _ _
    have hmap : ([[("_id", a)], [("_id", b)]] : List Document).map Bson.document =
        docs.map .document := hdocs
    have hids : ids docs = [a, b] := ids_of_map hmap
    rw [hids, hasPair_two, hasPair_two, hiff]

mutual

/-- The canonical form of whole numbers, and of documents of them. -/
def numberForm : Bson → Json
  | .int32 i => .object [("$numberInt", .string (toString i))]
  | .int64 i => .object [("$numberLong", .string (toString i))]
  | .double (.fin q) => .object [("$numberDouble", .string (toString q.num ++ ".0"))]
  | .document d => .object (numberFields d)
  | _ => .null

def numberFields : List (String × Bson) → List (String × Json)
  | [] => []
  | (k, b) :: rest => (k, numberForm b) :: numberFields rest

end

/-- The `_id`s 1 and 1.0 are accepted together. -/
theorem mixedOnes_accepted :
    batchToDocs numberForm (pairBatch (.int64 1) (.double (.fin 1))) 1000 =
        .ok [[("_id", .int64 1)], [("_id", .double (.fin 1))]] ∧
      ¬ Exact numberForm byteServer (pairBatch (.int64 1) (.double (.fin 1))) 1000 := by
  refine ⟨rfl, ?_⟩
  rw [exact_pairBatch_iff (by decide)]
  intro h
  have hindex : IndexEq byteServer (.int64 1) (.double (.fin 1)) :=
    (indexEq_numbers_iff rfl rfl).mpr (by decide)
  exact Bool.false_ne_true (h.mpr hindex)

/-- Two `_id`s that differ in the order of their keys are refused together. -/
example : batchToDocs numberForm (pairBatch (.document [("a", .int64 1), ("b", .int64 2)])
    (.document [("b", .int64 2), ("a", .int64 1)])) 1000 =
      .error (.badRequest "duplicate _id within insert batch") := rfl

end XavierDB.Routes
