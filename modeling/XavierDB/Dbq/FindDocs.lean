import XavierDB.Dbq.Walk
import XavierDB.Base.Codec
import XavierDB.Base.Text

/-!
# `GET /q/{db}/{coll}` (`src/routes_q.rs`)

`find_docs` from its parsed parameters on, without a projection, and the walks
a client makes by its cursors when sort fields may hold arrays. A page with an
array and a successor is refused, so every boundary, and everything before it,
is free of arrays; after it the arms reach every array but one: `[]` below a
descending boundary between null and the arrays.
-/

namespace XavierDB.Dbq

open Mongo Paging

variable {K : Type} [LinearOrder K] (S : Server K) (X : ExtJson)

/-! ## The request -/

/-- The text of a cursor: JSON in URL-safe base64. -/
structure CursorText where
  encode : Cursor → String
  parse : String → Option Cursor
  parse_encode : ∀ c, parse (encode c) = some c

/-- `Cursor::decode`. -/
def Cursor.decode (T : CursorText) (s : String) : Res Cursor :=
  match T.parse s with
  | none => Res.err .invalidCursor "malformed cursor"
  | some cur =>
    if cur.v != 1 || cur.sort.isEmpty || cur.last.length != cur.sort.length then
      Res.err .invalidCursor "corrupt cursor"
    else .ok cur

def cannotPaginate (f : String) : ApiError :=
  .badRequest ("cannot paginate: sort field " ++ debugStr f ++ " contains an array value (array " ++
    "sort order cannot be represented in a keyset cursor) — use a different sort or filter")

def isArray : Option Bson → Bool
  | some (.array _) => true
  | _ => false

/-- The first sort field with an array, document by document. -/
def arrayField (sort : SortKeys) (docs : List Document) : Option String :=
  docs.findSome? fun d => (sort.find? fun p => isArray (d.get p.1)).map Prod.fst

/-- The parameters, parsed; an absent filter or sort is empty. -/
structure FindParams where
  filter : Document
  sort : SortKeys
  limit : Option UInt32
  cursor : Option String

structure FindResponse where
  documents : List Document
  nextCursor : Option String
  hasMore : Bool
  truncated : Bool
  limitApplied : UInt32
  count : Nat

/-- The cursor handling of `find_docs`. -/
def cursorParam (T : CursorText) (db coll : String) (params : FindParams) : Res (Option Cursor) :=
  match params.cursor with
  | none => .ok none
  | some s => do
    let cur ← Cursor.decode T s
    if cur.db != db || cur.coll != coll then
      Res.err .invalidCursor "cursor does not match this collection"
    else if !params.sort.isEmpty && normalizeSort params.sort != cur.sort then
      Res.err .invalidCursor "sort does not match cursor"
    else .ok (some cur)

/-- The array guard of `find_docs`, on a page with a successor. -/
def arrayGuard (sort : SortKeys) (docs : List Document) (hasMore : Bool)
    (lastDoc : Option Document) : Res Unit :=
  match if hasMore then arrayField sort (docs ++ lastDoc.toList) else none with
  | some f => .error (.api (cannotPaginate f))
  | none => .ok ()

/-- The `next_cursor` of `find_docs`. -/
def nextCursor (T : CursorText) (seq : Nat) (db coll : String) (sort : SortKeys) :
    Bool → Option Document → Res (Option String)
  | true, some doc => do
    let c ← makeNextCursor X seq db coll sort doc
    pure (some (T.encode c))
  | _, _ => pure none

def u32Max : UInt32 := 0xFFFFFFFF

/-- `find_docs`. `enforced` is the limit of the requesting app at that time. -/
def findDocs (T : CursorText) (docs : List Document) (db coll : String)
    (mode : KeysetTypeBrackets) (enforced : UInt32) (seq : Nat) (params : FindParams) :
    Res FindResponse :=
  if params.limit = some 0 then
    Res.err .invalidLimit "limit must be a positive integer"
  else do
    let requested := params.limit.getD u32Max
    let cursor ← cursorParam T db coll params
    let sort := match cursor with
      | some c => c.sort
      | none => normalizeSort params.sort
    let effective := min requested enforced
    let fullFilter ← buildFilter X (some params.filter) cursor mode
    let (page, hasMore, lastDoc) := findPageInner S docs fullFilter sort effective
    arrayGuard sort page hasMore lastDoc
    let next ← nextCursor X T seq db coll sort hasMore lastDoc
    pure ⟨page, next, hasMore, decide (enforced < requested), effective, page.length⟩

/-! ## The client -/

/-- A request of a walk: the limit it asks for, the limit in force, and where
the server's cursor counter stands. -/
structure FindRequest where
  limit : Option UInt32
  enforced : UInt32
  seq : Nat

/-- The limit applied. -/
def FindRequest.effective (r : FindRequest) : UInt32 := min (r.limit.getD u32Max) r.enforced

/-- One request of a walk: the same filter and sort, and the cursor of the page before. -/
def fetchDocs (T : CursorText) (docs : List Document) (db coll : String) (user : Document)
    (sort : SortKeys) (mode : KeysetTypeBrackets) (r : FindRequest) (cursor : Option String) :
    Res (List Document × Option String) := do
  let resp ← findDocs S X T docs db coll mode r.enforced r.seq ⟨user, sort, r.limit, cursor⟩
  pure (resp.documents, resp.nextCursor)

variable {S X} {T : CursorText} {docs : List Document} {db coll : String} {user : Document}
  {sort : SortKeys} {mode : KeysetTypeBrackets}

/-! ## One page -/

/-- No sort field of the document holds an array. -/
def ArrayFree (sort : SortKeys) (d : Document) : Prop :=
  ∀ p ∈ sort, bracket (d.getOrNull p.1) ≠ .array

theorem isArray_iff {d : Document} {f : String} :
    isArray (d.get f) = true ↔ bracket (d.getOrNull f) = .array := by
  rw [getOrNull_eq]
  cases d.get f with
  | none => exact ⟨nofun, nofun⟩
  | some v =>
    cases v with
    | double x => cases x <;> exact ⟨nofun, nofun⟩
    | decimal128 x => cases x <;> exact ⟨nofun, nofun⟩
    | array a => exact ⟨fun _ => rfl, fun _ => rfl⟩
    | _ => exact ⟨nofun, nofun⟩

theorem arrayField_eq_none {l : List Document} :
    arrayField sort l = none ↔ ∀ d ∈ l, ArrayFree sort d := by
  simp only [arrayField, List.findSome?_eq_none_iff, Option.map_eq_none_iff, List.find?_eq_none,
    isArray_iff, ArrayFree, ne_eq]

theorem mem_of_arrayField {l : List Document} {f : String} (h : arrayField sort l = some f) :
    f ∈ sort.map Prod.fst := by
  obtain ⟨d, -, hd⟩ := List.exists_of_findSome?_eq_some h
  obtain ⟨p, hp, rfl⟩ := Option.map_eq_some_iff.mp hd
  exact List.mem_map_of_mem (List.mem_of_find?_eq_some hp)

/-- What the text of a walk's cursor stands for. -/
def TextRemainder (S : Server K) (X : ExtJson) (T : CursorText) (docs : List Document)
    (db coll : String) (user : Document) (sort : SortKeys) (mode : KeysetTypeBrackets) :
    Option String → List Document → Prop
  | none, Q => Remainder S X docs db coll user sort mode none Q
  | some s, Q => ∃ c A b, s = T.encode c ∧ CursorAt X db coll sort b c ∧
      unpaged S docs user sort = A ++ b :: Q ∧ (∀ d ∈ A ++ [b], ArrayFree sort d) ∧
      Continues S docs user sort mode b Q

/-- A cursor made by the server passes the checks of its next request. -/
theorem cursorParam_encode {b : Document} {c : Cursor} {limit : Option UInt32}
    (hc : CursorAt X db coll (normalizeSort sort) b c) :
    cursorParam T db coll ⟨user, sort, limit, some (T.encode c)⟩ = .ok (some c) := by
  have hne : c.sort.isEmpty = false := by
    rw [hc.sort_eq, ← Bool.not_eq_true, List.isEmpty_iff]
    exact normalizeSort_ne_nil sort
  have hdec : Cursor.decode T (T.encode c) = .ok c := by
    simp [Cursor.decode, T.parse_encode, hc.v_eq, hne, hc.length_last]
  simp [cursorParam, hdec, bind, Except.bind, hc.db_eq, hc.coll_eq, hc.sort_eq]

/-- A request whose position has the filter `k` reads a page of `k`. -/
theorem fetchDocs_of_filter {r : FindRequest} {s : Option String} {c : Option Cursor} {k : Document}
    (hl : r.limit ≠ some 0) (h1 : cursorParam T db coll ⟨user, sort, r.limit, s⟩ = .ok c)
    (h2 : ∀ cur, c = some cur → cur.sort = normalizeSort sort)
    (h3 : buildFilter X (some user) c mode = .ok k) :
    fetchDocs S X T docs db coll user sort mode r s = (do
      let (page, hasMore, lastDoc) := findPageInner S docs k (normalizeSort sort) r.effective
      arrayGuard (normalizeSort sort) page hasMore lastDoc
      let next ← nextCursor X T r.seq db coll (normalizeSort sort) hasMore lastDoc
      pure (page, next)) := by
  have heff : min (r.limit.getD u32Max) r.enforced = r.effective := rfl
  have hpage : findDocs S X T docs db coll mode r.enforced r.seq ⟨user, sort, r.limit, s⟩ = (do
      let (page, hasMore, lastDoc) := findPageInner S docs k (normalizeSort sort) r.effective
      arrayGuard (normalizeSort sort) page hasMore lastDoc
      let next ← nextCursor X T r.seq db coll (normalizeSort sort) hasMore lastDoc
      pure ⟨page, next, hasMore, decide (r.enforced < r.limit.getD u32Max), r.effective,
        page.length⟩) := by
    cases c with
    | none => simp only [findDocs, if_neg hl, h1, h3, bind, Except.bind, heff]
    | some cur => simp only [findDocs, if_neg hl, h1, h2 cur rfl, h3, bind, Except.bind, heff]
  rw [fetchDocs, hpage]
  generalize findPageInner S docs k (normalizeSort sort) r.effective = p
  obtain ⟨page, hasMore, lastDoc⟩ := p
  dsimp only [bind, Except.bind]
  cases arrayGuard (normalizeSort sort) page hasMore lastDoc with
  | error e => rfl
  | ok _ =>
    dsimp only
    cases nextCursor X T r.seq db coll (normalizeSort sort) hasMore lastDoc <;> rfl

/-- A request of a walk reads the page its position stands for. -/
theorem fetchDocs_eq {r : FindRequest} {s : Option String} {Q : List Document}
    (hl : r.limit ≠ some 0) (ht : TopLevel ((normalizeSort sort).map Prod.fst))
    (hs : S.Strict (ascColumns (normalizeSort sort)) docs)
    (hP : TextRemainder S X T docs db coll user (normalizeSort sort) mode s Q) :
    ∃ k, S.find docs k (sortDocument (normalizeSort sort)) = Q ∧
      fetchDocs S X T docs db coll user sort mode r s = (do
        let (page, hasMore, lastDoc) := findPageInner S docs k (normalizeSort sort) r.effective
        arrayGuard (normalizeSort sort) page hasMore lastDoc
        let next ← nextCursor X T r.seq db coll (normalizeSort sort) hasMore lastDoc
        pure (page, next)) := by
  cases s with
  | none => exact ⟨user, hP.symm, fetchDocs_of_filter (c := none) hl rfl nofun rfl⟩
  | some s =>
    obtain ⟨c, A, b, rfl, hc, hR, -, hQ⟩ := hP
    obtain ⟨k, hk, hfind⟩ := Remainder.find (c := some c) ⟨A, b, hR, hc, hQ⟩ ht hs
    exact ⟨k, hfind, fetchDocs_of_filter (c := some c) hl (cursorParam_encode hc)
      (fun _ h => Option.some.inj h ▸ hc.sort_eq) hk⟩

/-! ## Arrays past a boundary -/

/-- `d` ties with `b` up to a descending column where `d` holds `[]` and `b` a
value between null and the arrays. -/
structure EmptyArrayBelow (S : Server K) (sort : SortKeys) (b d : Document) : Prop where
  below : ∃ A p B, sort = A ++ p :: B ∧ ¬ 0 < p.2 ∧ S.Tie (ascColumns A) b d ∧
    d.get p.1 = some (.array []) ∧
    Bracket.null.rank ≤ (bracket (b.getOrNull p.1)).rank ∧
    (bracket (b.getOrNull p.1)).rank ≤ Bracket.object.rank

/-- A fold by a choice function picks one of its arguments. -/
theorem foldl_choice {α : Type} {f : α → α → α} (hf : ∀ a b, f a b = a ∨ f a b = b) (a : α) :
    ∀ l : List α, l.foldl f a ∈ a :: l
  | [] => List.mem_cons_self
  | x :: l => by
    rw [List.foldl_cons]
    rcases List.mem_cons.mp (foldl_choice hf (f a x) l) with h | h
    · rw [h]
      rcases hf a x with h' | h' <;> rw [h'] <;> simp
    · exact List.mem_cons_of_mem _ (List.mem_cons_of_mem _ h)

/-- Places in different brackets compare by bracket. -/
theorem lt_iff_of_fst_ne {a b : SortKey K} (h : (ofLex a).1 ≠ (ofLex b).1) :
    a < b ↔ (ofLex a).1 < (ofLex b).1 := by
  rw [← toLex_ofLex a, ← toLex_ofLex b, Prod.Lex.toLex_lt_toLex]
  exact or_iff_left fun h' => h h'.1

/-- A field that is not `[]` sorts by one of its readings. -/
theorem exists_reading (S : Server K) (asc : Bool) {w : Option Bson} (hw : w ≠ some (.array [])) :
    ∃ x ∈ readings w, S.colKey asc w = S.key x := by
  by_cases harr : bracket (w.getD .null) = .array
  · match w with
    | some (.array []) => exact absurd rfl hw
    | some (.array (y :: ys)) =>
      have hmem : S.colKey asc (some (.array (y :: ys))) ∈ (y :: ys).map S.key := by
        refine foldl_choice (fun a b => ?_) (S.key y) (ys.map S.key)
        cases asc
        · exact max_choice a b
        · exact min_choice a b
      obtain ⟨x, hx, he⟩ := List.mem_map.mp hmem
      exact ⟨x, List.mem_append_left _ hx, he.symm⟩
    | none => cases harr
    | some (.double x) => cases x <;> cases harr
    | some (.decimal128 x) => cases x <;> cases harr
  · exact ⟨_, (mem_readings_iff harr).mpr rfl, colKey_eq harr⟩

/-- Past a plain boundary, the arms of a column reach every field but a `[]`
below a value between null and the arrays. -/
theorem any_columnConds_of_past {f : String} {dir : Int} {v : Bson} {w : Option Bson}
    (hv : v.isPlain = true)
    (hempty : ¬ 0 < dir → w = some (.array []) → ¬ (Bracket.null.rank ≤ (bracket v).rank ∧
      (bracket v).rank ≤ Bracket.object.rank))
    (hp : Past (isAsc dir) (S.key v) (S.colKey (isAsc dir) w)) :
    (columnConds .all f dir v).any (fun c => S.fieldCond c w) = true := by
  obtain ⟨harr, -, hnan⟩ := bracket_ne_of_isPlain hv
  rw [any_columnConds hnan rfl]
  by_cases hw : w = some (.array [])
  · subst hw
    refine ⟨.array [], List.mem_singleton_self _, ?_⟩
    have hrank : (bracket v).rank ≠ 7 := fun h => harr (Bracket.rank_injective h)
    have hne : 2 * (bracket v).rank ≠ 1 := by omega
    by_cases hd : 0 < dir
    · simp only [isAsc, hd, decide_true, Past, if_true] at hp ⊢
      have h1 : 2 * (bracket v).rank < 1 :=
        (lt_iff_of_fst_ne (a := S.key v) (b := S.emptyArrayKey) hne).mp hp
      exact key_lt_of_rank (show (bracket v).rank < 7 by omega)
    · simp only [isAsc, hd, decide_false, Past, Bool.false_eq_true, if_false] at hp ⊢
      have h1 : 1 < 2 * (bracket v).rank :=
        (lt_iff_of_fst_ne (a := S.emptyArrayKey) (b := S.key v) hne.symm).mp hp
      have hno : ¬ (1 ≤ (bracket v).rank ∧ (bracket v).rank ≤ 6) := hempty hd rfl
      exact key_lt_of_rank (show 7 < (bracket v).rank by omega)
  · obtain ⟨x, hx, he⟩ := exists_reading S (isAsc dir) hw
    exact ⟨x, hx, he ▸ hp⟩

/-- A field that ties with a plain boundary value matches its equality arm. -/
theorem fieldCond_of_tie {asc : Bool} {v : Bson} {w : Option Bson} (hv : StandsForItself v)
    (h : S.key v = S.colKey asc w) : S.fieldCond v w = true := by
  rw [fieldCond_self_iff hv]
  by_cases hw : w = some (.array [])
  · subst hw
    have h1 : 2 * (bracket v).rank = 1 := congrArg (fun k => (ofLex k).1) h
    omega
  · obtain ⟨x, hx, he⟩ := exists_reading S asc hw
    exact ⟨x, hx, he.symm.trans h.symm⟩

/-- What the guard leaves open at a boundary without arrays. -/
structure Continuable (S : Server K) (X : ExtJson) (sort : SortKeys) (R : List Document)
    (b : Document) : Prop where
  plain : ∀ p ∈ sort, (b.getOrNull p.1).isPlain = true
  noOperatorDoc : NoOperatorDoc sort b
  readsBack : ReadsBack X sort b
  noEmptyArrayBelow : ∀ d ∈ R, ¬ EmptyArrayBelow S sort b d

/-- The filter of a boundary reaches every document past it. -/
theorem selects_of_docLt {b d : Document} (hplain : ∀ p ∈ sort, (b.getOrNull p.1).isPlain = true)
    (hop : NoOperatorDoc sort b) (hempty : ¬ EmptyArrayBelow S sort b d) (h : S.DocLt (ascColumns sort) b d) :
    selects S .all (colsOf sort b) d = true := by
  have key : ∀ A B, sort = A ++ B → S.Tie (ascColumns A) b d → S.DocLt (ascColumns B) b d →
      selects S .all (colsOf B b) d = true := by
    intro A B
    induction B generalizing A with
    | nil => exact fun _ _ h => h.elim
    | cons p B ih =>
      intro hs ht hlt
      have hbp := hplain p (hs ▸ List.mem_append_right _ List.mem_cons_self)
      have hkey : S.colKey (isAsc p.2) (b.get p.1) = S.key (b.getOrNull p.1) :=
        colKey_eq (bracket_ne_of_isPlain hbp).1
      show (((columnConds .all p.1 p.2 (b.getOrNull p.1)).any fun c => S.fieldCond c (d.get p.1)) ||
        (S.fieldCond (b.getOrNull p.1) (d.get p.1) && selects S .all (colsOf B b) d)) = true
      rw [Bool.or_eq_true, Bool.and_eq_true]
      rcases hlt with hlt | ⟨htie, hlt⟩
      · refine .inl (any_columnConds_of_past hbp (fun hd hw hr => ?_) (hkey ▸ hlt))
        exact hempty ⟨A, p, B, hs, hd, ht, hw, hr.1, hr.2⟩
      · have hrest : B ≠ [] := by
          rintro rfl
          exact hlt
        refine .inr ⟨fieldCond_of_tie ⟨hop.column hs hrest, hbp⟩ (hkey ▸ htie),
          ih (A ++ [p]) (by simp [hs]) ?_ hlt⟩
        intro c hc
        rw [ascColumns, List.map_append] at hc
        rcases List.mem_append.mp hc with hc | hc
        · exact ht c hc
        · rw [List.mem_singleton.mp hc]
          exact htie
  exact key [] sort rfl (fun c hc => by cases hc) h

/-- A boundary with no array before it or in it continues exactly. -/
theorem continues_of_arrayFree {A B : List Document} {b : Document}
    (ht : TopLevel (sort.map Prod.fst)) (hs : S.Strict (ascColumns sort) docs)
    (hR : unpaged S docs user sort = A ++ b :: B) (hfree : ∀ d ∈ A ++ [b], ArrayFree sort d)
    (hb : Continuable S X sort (unpaged S docs user sort) b) :
    Continues S docs user sort .all b B := by
  have hlt := pairwise_unpaged user ht hs
  refine continues_of_selects ht hs hR fun d hd => ?_
  rw [effectiveMode_all]
  rw [hR, List.append_cons] at hd
  rcases List.mem_append.mp hd with hd | hd
  · exact selects_iff (fun p hp => (bracket_ne_of_isPlain (hb.plain p hp)).1)
      fun A' p B' he _ => columnExact_of_notArray
        (hb.plain p (he ▸ List.mem_append_right _ List.mem_cons_self))
        (hb.noOperatorDoc.column he) rfl
        (hfree d hd p (he ▸ List.mem_append_right _ List.mem_cons_self))
  · have hbd : S.DocLt (ascColumns sort) b d := by
      rw [hR] at hlt
      exact (List.pairwise_cons.mp (List.pairwise_append.mp hlt).2.1).1 d hd
    refine iff_of_true (selects_of_docLt hb.plain hb.noOperatorDoc
      (hb.noEmptyArrayBelow d ?_) hbd) hbd
    rw [hR]
    exact List.mem_append_right _ (List.mem_cons_of_mem _ hd)

/-! ## Walks -/

/-- A request that applies a limit of at least one. -/
structure FindRequest.Valid (n : Nat) (r : FindRequest) : Prop where
  limit : r.limit ≠ some 0
  effective : ValidLimit n r.effective

/-- Pages of `find_docs` serve the unpaged find, or refuse an array. -/
theorem serves_fetchDocs (ht : TopLevel ((normalizeSort sort).map Prod.fst))
    (hs : S.Strict (ascColumns (normalizeSort sort)) docs) :
    Paging.Serves (fetchDocs S X T docs db coll user sort .all) (fun r => r.effective.toNat)
      (FindRequest.Valid docs.length)
      (fun e => ∃ f ∈ (normalizeSort sort).map Prod.fst, e = .api (cannotPaginate f))
      (TextRemainder S X T docs db coll user (normalizeSort sort) .all)
      (fun b => ∀ A B, unpaged S docs user (normalizeSort sort) = A ++ b :: B →
        (∀ d ∈ A ++ [b], ArrayFree (normalizeSort sort) d) →
          Continuable S X (normalizeSort sort) (unpaged S docs user (normalizeSort sort)) b) where
  pos h := h.effective.pos
  last {s Q r} hv hP hle := by
    obtain ⟨k, hQ, hf⟩ := fetchDocs_eq hv.limit ht hs hP
    rw [hf, findPageInner_last hQ hle]
    rfl
  more {s r A x B} hv hP hl hB hx := by
    obtain ⟨k, hQ, hf⟩ := fetchDocs_eq hv.limit ht hs hP
    have hprefix : ∃ A', unpaged S docs user (normalizeSort sort) = A' ++ (A ++ x :: B) ∧
        ∀ d ∈ A', ArrayFree (normalizeSort sort) d := by
      cases s with
      | none => exact ⟨[], hP.symm, by simp⟩
      | some s =>
        obtain ⟨c, A', b, -, -, hR, hfree, -⟩ := hP
        exact ⟨A' ++ [b], by rw [hR, List.append_cons], hfree⟩
    obtain ⟨A', hA', hfree⟩ := hprefix
    have hn : (A ++ x :: B).length ≤ docs.length := by
      refine le_trans ?_ (length_unpaged_le S docs user (normalizeSort sort))
      simp only [hA', List.length_append]; omega
    rw [hf, findPageInner_more hv.effective hn hQ hl hB]
    cases hg : arrayField (normalizeSort sort) ((A ++ [x]) ++ (some x).toList) with
    | some f =>
      refine .inr ⟨_, ?_, f, mem_of_arrayField hg, rfl⟩
      simp only [arrayGuard, hg, if_true, bind, Except.bind]
    | none =>
      have hfree' : ∀ d ∈ (A' ++ A) ++ [x], ArrayFree (normalizeSort sort) d := by
        intro d hd
        rw [List.append_assoc] at hd
        rcases List.mem_append.mp hd with hd | hd
        · exact hfree d hd
        · exact arrayField_eq_none.mp hg d (List.mem_append_left _ hd)
      have hR : unpaged S docs user (normalizeSort sort) = (A' ++ A) ++ x :: B := by
        rw [hA', List.append_assoc]
      have hc := hx _ _ hR hfree'
      obtain ⟨c, hc', hat⟩ := makeNextCursor_ok db coll hc.readsBack r.seq
      refine .inl ⟨T.encode c, ?_, c, A' ++ A, x, rfl, hat, hR, hfree',
        continues_of_arrayFree ht hs hR hfree' hc⟩
      simp only [arrayGuard, hg, if_true, bind, Except.bind, nextCursor, hc', pure, Except.pure]

/-- **Cursor walks of `find_docs`** return the unpaged find or are refused for an
array, if each page end with no array before it or in it is a continuable one. -/
theorem findDocs_walk_or_cannotPaginate (hc : Collection S docs)
    (ht : TopLevel (sort.map Prod.fst)) {rs : Nat → FindRequest}
    (hv : ∀ i, (rs i).Valid docs.length)
    (hb : ∀ b, Boundary (fun r : FindRequest => r.effective.toNat) rs
        (unpaged S docs user (normalizeSort sort)) b →
      ∀ A B, unpaged S docs user (normalizeSort sort) = A ++ b :: B →
        (∀ d ∈ A ++ [b], ArrayFree (normalizeSort sort) d) →
          Continuable S X (normalizeSort sort) (unpaged S docs user (normalizeSort sort)) b)
    {fuel : Nat} (hf : docs.length < fuel) :
    walk (fetchDocs S X T docs db coll user sort .all) fuel rs none =
        .ok (some (unpaged S docs user (normalizeSort sort))) ∨
      ∃ f ∈ (normalizeSort sort).map Prod.fst,
        walk (fetchDocs S X T docs db coll user sort .all) fuel rs none =
          .error (.api (cannotPaginate f)) := by
  have ht' := ht.normalizeSort
  have hs := hc.strict (id_mem_normalizeSort sort)
  have hstart : TextRemainder S X T docs db coll user (normalizeSort sort) .all none
      (unpaged S docs user (normalizeSort sort)) := rfl
  rcases (serves_fetchDocs ht' hs).walk_or hstart hv hb
    (lt_of_le_of_lt (length_unpaged_le S docs user _) hf) with h | h
  · exact .inl h
  · obtain ⟨e, he, f, hf', rfl⟩ := h
    exact .inr ⟨f, hf', he⟩

/-! ## A closed instance -/

def cursorCodec : Codec Cursor :=
  (Codec.nat.prod (.prod .string (.prod .string (.prod .string
    (.prod (.list (.prod .string .int)) (.list .string)))))).imap
    (fun p => ⟨p.1, p.2.1, p.2.2.1, p.2.2.2.1, p.2.2.2.2.1, p.2.2.2.2.2⟩)
    (fun c => (c.v, c.id, c.db, c.coll, c.sort, c.last)) fun _ => rfl

def cursorText : CursorText := ⟨cursorCodec.text, cursorCodec.ofText, cursorCodec.ofText_text⟩

/-- A null and an empty array. -/
def emptyArrayDocs : List Document :=
  [[("_id", .int32 1), ("f", .null)], [("_id", .int32 2), ("f", .array [])]]

/-- Ascending, the empty array comes first: its page is refused. -/
theorem findDocs_walk_emptyArrayDocs_asc :
    walk (fetchDocs byteServer sampleJson cursorText emptyArrayDocs "db" "c" [] [("f", 1)] .all) 3
        (fun i => ⟨some 1, 100, i⟩) none =
          .ok (some (unpaged byteServer emptyArrayDocs [] (normalizeSort [("f", 1)]))) ∨
      ∃ f ∈ (normalizeSort [("f", 1)]).map Prod.fst,
        walk (fetchDocs byteServer sampleJson cursorText emptyArrayDocs "db" "c" [] [("f", 1)] .all)
          3 (fun i => ⟨some 1, 100, i⟩) none = .error (.api (cannotPaginate f)) := by
  have hplain : ∀ b ∈ emptyArrayDocs,
      (∀ p ∈ normalizeSort [("f", 1)], bracket (b.getOrNull p.1) ≠ .array) →
        (∀ p ∈ normalizeSort [("f", 1)], (b.getOrNull p.1).isPlain = true) ∧
          NoOperatorDoc (normalizeSort [("f", 1)]) b := by decide
  have hv : ∀ i, (FindRequest.mk (some 1) 100 i).Valid emptyArrayDocs.length := fun i =>
    ⟨by simp, show 1 ≤ (min 1 100 : UInt32).toNat by decide, .inr (by decide)⟩
  refine findDocs_walk_or_cannotPaginate ⟨by decide +kernel, by decide⟩
    ⟨by decide, by decide, by decide⟩ hv (fun b hb A B _ hprefix => ?_) (by decide)
  have hfree := hprefix b (List.mem_append_right _ List.mem_cons_self)
  have hmem := mem_of_mem_unpaged hb.mem
  obtain ⟨hp, hop⟩ := hplain b hmem hfree
  refine ⟨hp, hop, ?_, ?_⟩
  · have hsort : normalizeSort [("f", 1)] = [("f", 1), ("_id", 1)] := by decide
    simp only [emptyArrayDocs, List.mem_cons, List.not_mem_nil, or_false] at hmem
    rcases hmem with rfl | rfl
    · rw [hsort]
      simp only [ReadsBack, List.forall_mem_cons]
      refine ⟨?_, ?_, List.forall_mem_nil _⟩ <;>
        exact sampleJson_parse
          (by simp [sampleValues, Document.getOrNull, Document.get])
    · exact absurd rfl (hfree ("f", 1) (by simp [hsort]))
  · rintro d - ⟨A, p, B, hs, hdesc, -⟩
    have hp : p ∈ normalizeSort [("f", 1)] := hs ▸ List.mem_append_right _ List.mem_cons_self
    exact hdesc ((by decide : ∀ p ∈ normalizeSort [("f", 1)], 0 < p.2) p hp)

/-- Descending, no arm after null reaches the empty array: it is lost without an error. -/
theorem findDocs_walk_emptyArrayDocs_desc :
    Collection byteServer emptyArrayDocs ∧
      walk (fetchDocs byteServer sampleJson cursorText emptyArrayDocs "db" "c" [] [("f", -1)] .all)
          3 (fun i => ⟨some 1, 100, i⟩) none ≠
        .ok (some (unpaged byteServer emptyArrayDocs [] (normalizeSort [("f", -1)]))) ∧
      ∀ f, walk (fetchDocs byteServer sampleJson cursorText emptyArrayDocs "db" "c" [] [("f", -1)]
          .all) 3 (fun i => ⟨some 1, 100, i⟩) none ≠ .error (.api (cannotPaginate f)) := by
  have hlen : walkLength (walk (fetchDocs byteServer sampleJson cursorText emptyArrayDocs "db" "c" []
      [("f", -1)] .all) 3 (fun i => ⟨some 1, 100, i⟩) none) = some 1 := by decide +kernel
  refine ⟨⟨by decide +kernel, by decide⟩, fun h => ?_, fun f h => ?_⟩
  · rw [h] at hlen
    revert hlen
    decide +kernel
  · rw [h] at hlen
    cases hlen

end XavierDB.Dbq
