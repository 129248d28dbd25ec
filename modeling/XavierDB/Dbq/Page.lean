import XavierDB.Dbq.Continuation
import XavierDB.Base.Paging

/-!
# Pages (`src/dbq.rs`)

One page of a find and the cursor made from its last document, then what the
page after a cursor reads: the documents of the unpaged find which the filter
of its boundary selects.
-/

namespace XavierDB.Dbq

open Mongo

variable {K : Type} [LinearOrder K] (S : Server K) (X : ExtJson)

/-- `find_page_inner`: one document more than asked for tells of a next page. -/
def findPageInner (docs : List Document) (filter : Document) (sort : SortKeys) (limit : UInt32) :
    List Document × Bool × Option Document :=
  let docs := (S.find docs filter (sortDocument sort)).take (limit.toNat + 1)
  -- `docs.len() as u32`
  let hasMore := decide (limit < docs.length.toUInt32)
  let docs := if hasMore then docs.take limit.toNat else docs
  (docs, hasMore, docs.getLast?)

/-- `make_next_cursor`, with the number the server's counter stands at. -/
def makeNextCursor (seq : Nat) (db coll : String) (sort : SortKeys) (lastDoc : Document) :
    Res Cursor := do
  let values ← sort.mapM fun p =>
    (bsonToCursorJson X (lastDoc.getOrNull p.1)).mapError fun e => .api (.internal e)
  pure ⟨1, "c" ++ String.ofList (Nat.toDigits 16 seq), db, coll, sort, values⟩

/-- A page request: its limit, and where the server's cursor counter stands. -/
structure PageRequest where
  limit : UInt32
  seq : Nat

/-- A page of a walk: the filter of the cursor, the page, its next cursor. -/
def fetchPage (docs : List Document) (db coll : String) (user : Document) (sort : SortKeys)
    (mode : KeysetTypeBrackets) (r : PageRequest) (cursor : Option Cursor) :
    Res (List Document × Option Cursor) := do
  let filter ← buildFilter X (some user) cursor mode
  match findPageInner S docs filter sort r.limit with
  | (page, true, some last) => do
    let c ← makeNextCursor X r.seq db coll sort last
    pure (page, some c)
  | (page, _, _) => pure (page, none)

/-- The `_id`s of a collection are distinct, and none is an array. -/
structure Collection (docs : List Document) : Prop where
  ids : docs.Pairwise fun a b => S.key (a.getOrNull "_id") ≠ S.key (b.getOrNull "_id")
  idNotArray : ∀ d ∈ docs, bracket (d.getOrNull "_id") ≠ .array

/-- The values of the sort fields come back from their extended JSON. -/
def ReadsBack (sort : SortKeys) (b : Document) : Prop :=
  ∀ p ∈ sort, X.parse (X.canonical (b.getOrNull p.1)) = .ok (b.getOrNull p.1)

/-- A limit of at least one; `u32::MAX` counts documents only below `2 ^ 32`. -/
structure ValidLimit (n : Nat) (limit : UInt32) : Prop where
  pos : 1 ≤ limit.toNat
  fits : limit.toNat < 2 ^ 32 - 1 ∨ n < 2 ^ 32

variable {S X} {docs : List Document} {user k : Document} {sort : SortKeys}
  {mode : KeysetTypeBrackets} {db coll : String}

/-! ## Cursors -/

theorem mapM_ok {ε α β : Type} {f : α → Except ε β} {g : α → β} {l : List α}
    (h : ∀ x ∈ l, f x = .ok (g x)) : l.mapM f = .ok (l.map g) := by
  induction l with
  | nil => rfl
  | cons x l ih =>
    rw [List.forall_mem_cons] at h
    rw [List.mapM_cons, h.1, ih h.2]
    rfl

/-- The cursor `c` was made at the document `b`. -/
structure CursorAt (X : ExtJson) (db coll : String) (sort : SortKeys) (b : Document)
    (c : Cursor) : Prop where
  v_eq : c.v = 1
  db_eq : c.db = db
  coll_eq : c.coll = coll
  sort_eq : c.sort = sort
  length_last : c.last.length = c.sort.length
  lastBson_eq : c.lastBson X = .ok (sort.map fun p => b.getOrNull p.1)

theorem makeNextCursor_ok (db coll : String) {b : Document} (h : ReadsBack X sort b)
    (seq : Nat) :
    ∃ c, makeNextCursor X seq db coll sort b = .ok c ∧ CursorAt X db coll sort b c := by
  have hv : (sort.mapM fun p => (bsonToCursorJson X (b.getOrNull p.1)).mapError
      fun e => Fail.api (.internal e)) = .ok (sort.map fun p => X.canonical (b.getOrNull p.1)) :=
    mapM_ok fun _ _ => rfl
  refine ⟨_, by rw [makeNextCursor, hv]; rfl, rfl, rfl, rfl, rfl, by simp, ?_⟩
  show List.mapM _ (sort.map _) = _
  rw [List.mapM_map]
  refine mapM_ok fun p hp => ?_
  simp only [Function.comp_apply, cursorJsonToBson, h p hp]
  rfl

theorem zip_getOrNull (sort : SortKeys) (b : Document) :
    sort.zip (sort.map fun p => b.getOrNull p.1) = colsOf sort b := by
  induction sort with
  | nil => rfl
  | cons p sort ih => exact congrArg (List.cons _) ih

/-- The filter of a cursor's page: the user's and the continuation. -/
theorem buildFilter_eq (S : Server K) (user : Document) (mode : KeysetTypeBrackets)
    {b : Document} {c : Cursor} (ht : TopLevel (sort.map Prod.fst))
    (hc : CursorAt X db coll sort b c) :
    ∃ k, buildFilter X (some user) (some c) mode = .ok k ∧ ∀ d, S.evalDoc d k =
      (S.evalDoc d user && selects S (effectiveMode mode (colsOf sort b)) (colsOf sort b) d) := by
  have hzip := zip_getOrNull sort b
  have hlen : (sort.map fun p => b.getOrNull p.1).length = sort.length := by simp
  obtain ⟨k, hk, he⟩ := keysetCondition_eq S mode hlen ht
  rw [hzip] at he
  cases hu : user.isEmpty with
  | true =>
    refine ⟨k, ?_, fun d => ?_⟩
    · simp only [buildFilter, hc.lastBson_eq, hc.sort_eq, hk, bind, Except.bind, pure, Except.pure, hu,
        if_true]
    · rw [List.isEmpty_iff.mp hu, he]; rfl
  | false =>
    refine ⟨[("$and", .array [.document user, .document k])], ?_, fun d => ?_⟩
    · simp only [buildFilter, hc.lastBson_eq, hc.sort_eq, hk, bind, Except.bind, pure, Except.pure, hu,
        Bool.false_eq_true, if_false]
    · rw [evalDoc_and, he]

/-! ## Pages -/

/-- Distinct `_id`s leave no ties. -/
theorem Collection.strict (h : Collection S docs) (hid : "_id" ∈ sort.map Prod.fst) :
    S.Strict (ascColumns sort) docs := by
  refine List.Pairwise.imp_of_mem (fun {a b} ha hb hne ht => hne ?_) h.ids
  obtain ⟨p, hp, he⟩ := List.mem_map.mp hid
  have hkey := ht (p.1, isAsc p.2) (List.mem_map.mpr ⟨p, hp, rfl⟩)
  rw [he, colKey_eq (h.idNotArray a ha), colKey_eq (h.idNotArray b hb)] at hkey
  exact hkey

/-- The page past a boundary reads the selected part of the unpaged find. -/
theorem find_and {q : Document → Bool} (ht : TopLevel (sort.map Prod.fst))
    (hs : S.Strict (ascColumns sort) docs)
    (hk : ∀ d, S.evalDoc d k = (S.evalDoc d user && q d)) :
    S.find docs k (sortDocument sort) = (S.find docs user (sortDocument sort)).filter q := by
  have hs' : S.Strict (Server.sortColumns (sortDocument sort))
      (docs.filter fun d => S.evalDoc d user) := by
    rw [sortColumns_sortDocument ht]
    exact hs.filter _
  rw [Server.find, Server.find, ← hs'.sorted_filter q, List.filter_filter]
  simp only [hk, Bool.and_comm]

theorem not_lt_toUInt32 {n : Nat} {limit : UInt32} (h : n ≤ limit.toNat) :
    ¬ limit < n.toUInt32 := by
  rw [UInt32.lt_iff_toNat_lt, UInt32.toNat_ofNat']
  have := Nat.mod_le n (2 ^ 32)
  omega

theorem findPageInner_last {limit : UInt32} {Q : List Document}
    (hQ : S.find docs k (sortDocument sort) = Q) (hl : Q.length ≤ limit.toNat) :
    findPageInner S docs k sort limit = (Q, false, Q.getLast?) := by
  have htake : Q.take (limit.toNat + 1) = Q := List.take_of_length_le (by omega)
  simp only [findPageInner, hQ, htake, not_lt_toUInt32 hl, decide_false, Bool.false_eq_true,
    if_false]

theorem findPageInner_more {n : Nat} {limit : UInt32} {A B : List Document} {x : Document}
    (hv : ValidLimit n limit) (hn : (A ++ x :: B).length ≤ n)
    (hQ : S.find docs k (sortDocument sort) = A ++ x :: B) (hl : limit.toNat = A.length + 1)
    (hB : B ≠ []) : findPageInner S docs k sort limit = (A ++ [x], true, some x) := by
  have hlen : ((A ++ x :: B).take (limit.toNat + 1)).length = limit.toNat + 1 := by
    have := List.length_pos_of_ne_nil hB
    rw [List.length_take, List.length_append, List.length_cons]
    omega
  have hmore : limit < (limit.toNat + 1).toUInt32 := by
    rw [UInt32.lt_iff_toNat_lt, UInt32.toNat_ofNat', Nat.mod_eq_of_lt]
    · omega
    · rcases hv.fits with h | h
      · omega
      · have := List.length_pos_of_ne_nil hB
        rw [List.length_append, List.length_cons] at hn
        omega
  have htake : (A ++ x :: B).take limit.toNat = A ++ [x] := by
    rw [hl, List.append_cons, List.take_left' (by simp)]
  simp only [findPageInner, hQ, hlen, hmore, decide_true, if_true, List.take_take,
    Nat.min_eq_left (Nat.le_succ _), htake, List.getLast?_append, List.getLast?_singleton,
    Option.some_or]

/-! ## Walks -/

/-- The unpaged find. -/
abbrev unpaged (S : Server K) (docs : List Document) (user : Document) (sort : SortKeys) :
    List Document :=
  S.find docs user (sortDocument sort)

theorem length_unpaged_le (S : Server K) (docs : List Document) (user : Document)
    (sort : SortKeys) : (unpaged S docs user sort).length ≤ docs.length := by
  rw [unpaged, Server.find, length_sorted]
  exact List.length_filter_le _ _

theorem mem_of_mem_unpaged {d : Document} (h : d ∈ unpaged S docs user sort) : d ∈ docs :=
  List.mem_of_mem_filter (mem_sorted.mp h)

/-- The unpaged find is strictly increasing. -/
theorem pairwise_unpaged (user : Document) (ht : TopLevel (sort.map Prod.fst))
    (hs : S.Strict (ascColumns sort) docs) :
    (unpaged S docs user sort).Pairwise (S.DocLt (ascColumns sort)) := by
  have hs' : S.Strict (Server.sortColumns (sortDocument sort))
      (docs.filter fun d => S.evalDoc d user) := by
    rw [sortColumns_sortDocument ht]
    exact hs.filter _
  have h := hs'.pairwise_sorted
  rwa [sortColumns_sortDocument ht] at h

/-- The filter of the boundary `b` selects exactly `B` from the unpaged find. -/
def Continues (S : Server K) (docs : List Document) (user : Document) (sort : SortKeys)
    (mode : KeysetTypeBrackets) (b : Document) (B : List Document) : Prop :=
  (unpaged S docs user sort).filter
    (selects S (effectiveMode mode (colsOf sort b)) (colsOf sort b)) = B

/-- What a cursor stands for: the documents past the boundary it was made at. -/
def Remainder (S : Server K) (X : ExtJson) (docs : List Document) (db coll : String)
    (user : Document) (sort : SortKeys) (mode : KeysetTypeBrackets) :
    Option Cursor → List Document → Prop
  | none, Q => Q = unpaged S docs user sort
  | some c, Q => ∃ A b, unpaged S docs user sort = A ++ b :: Q ∧ CursorAt X db coll sort b c ∧
      Continues S docs user sort mode b Q

theorem Remainder.eq_append {c : Option Cursor} {Q : List Document}
    (h : Remainder S X docs db coll user sort mode c Q) :
    ∃ A, unpaged S docs user sort = A ++ Q := by
  cases c with
  | none => exact ⟨[], h.symm⟩
  | some c =>
    obtain ⟨A, b, he, -, -⟩ := h
    exact ⟨A ++ [b], by rw [he, List.append_cons]⟩

/-- The filter of a position finds what the position stands for. -/
theorem Remainder.find {c : Option Cursor} {Q : List Document}
    (h : Remainder S X docs db coll user sort mode c Q) (ht : TopLevel (sort.map Prod.fst))
    (hs : S.Strict (ascColumns sort) docs) :
    ∃ k, buildFilter X (some user) c mode = .ok k ∧ S.find docs k (sortDocument sort) = Q := by
  cases c with
  | none => exact ⟨user, rfl, h.symm⟩
  | some c =>
    obtain ⟨A, b, -, hc, hQ⟩ := h
    obtain ⟨k, hk, he⟩ := buildFilter_eq S user mode ht hc
    exact ⟨k, hk, (find_and ht hs he).trans hQ⟩

/-- Where every boundary in `G` continues exactly, pages serve the unpaged find. -/
theorem serves_fetchPage {G : Document → Prop} (ht : TopLevel (sort.map Prod.fst))
    (hs : S.Strict (ascColumns sort) docs)
    (hG : ∀ A x B, unpaged S docs user sort = A ++ x :: B → G x →
      ReadsBack X sort x ∧ Continues S docs user sort mode x B) :
    Paging.Serves (fetchPage S X docs db coll user sort mode) (fun r => r.limit.toNat)
      (fun r => ValidLimit docs.length r.limit) (fun _ => False)
      (Remainder S X docs db coll user sort mode) G where
  pos h := h.pos
  last {c Q r} _ hP hle := by
    obtain ⟨k, hk, hQ⟩ := hP.find ht hs
    simp only [fetchPage, hk, bind, Except.bind, findPageInner_last hQ hle, pure, Except.pure]
  more {c r A x B} hv hP hl hB hx := by
    obtain ⟨A', hA'⟩ := hP.eq_append
    have hn : (A ++ x :: B).length ≤ docs.length := by
      refine le_trans ?_ (length_unpaged_le S docs user sort)
      simp only [hA', List.length_append]; omega
    have hR : unpaged S docs user sort = (A' ++ A) ++ x :: B := by rw [hA', List.append_assoc]
    obtain ⟨hread, hcont⟩ := hG _ x B hR hx
    obtain ⟨k, hk, hQ⟩ := hP.find ht hs
    obtain ⟨c', hc', hat⟩ := makeNextCursor_ok db coll hread r.seq
    refine .inl ⟨c', ?_, _, x, hR, hat, hcont⟩
    simp only [fetchPage, hk, bind, Except.bind, findPageInner_more hv hn hQ hl hB, hc', pure,
      Except.pure]

end XavierDB.Dbq
