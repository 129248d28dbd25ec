import XavierDB.Base.Live
import XavierDB.Dbq.FindDocs

/-!
# Walks over a collection in use (`src/routes_q.rs`, `src/dbq.rs`)

Between the pages of a walk others insert, replace and delete documents: each
request of `find_docs` reads the collection as it stands then. The document a
cursor was made at may be gone or moved. Its cursor still cuts what is there
now by the sort values it had.
-/

namespace XavierDB.Dbq

open Mongo Paging

variable {K : Type} [LinearOrder K] (S : Server K) (X : ExtJson)

/-- A request of a walk, and the collection it finds. -/
structure LiveRequest where
  docs : List Document
  request : FindRequest

/-- One request of a walk over a collection in use. -/
def fetchLive (T : CursorText) (db coll : String) (user : Document) (sort : SortKeys)
    (r : LiveRequest) (cursor : Option String) : Res (List Document × Option String) :=
  fetchDocs S X T r.docs db coll user sort .all r.request cursor

/-- A collection that `find_docs` can page, whatever document a page ends on. -/
structure LiveRequest.Valid (sort : SortKeys) (r : LiveRequest) : Prop where
  request : r.request.Valid r.docs.length
  collection : Collection S r.docs
  plain : PlainSort r.docs sort
  noOperatorDoc : ∀ d ∈ r.docs, NoOperatorDoc sort d
  readsBack : ∀ d ∈ r.docs, ReadsBack X sort d

/-- The text of a cursor made at `b`. -/
structure TextAt (T : CursorText) (db coll : String) (sort : SortKeys) (b : Document)
    (s : String) : Prop where
  made : ∃ c, s = T.encode c ∧ CursorAt X db coll sort b c
  plain : ∀ p ∈ sort, (b.getOrNull p.1).isPlain = true
  noOperatorDoc : NoOperatorDoc sort b

variable {S X} {T : CursorText} {db coll : String} {user : Document} {sort : SortKeys}
  {r : LiveRequest}

/-- Documents that tie in every column are the same to the order. -/
theorem ranks_docLt (cols : List (String × Bool)) : Ranks (S.DocLt cols) (S.Tie cols) where
  irrefl _ := docLt_irrefl
  trans := docLt_trans
  equiv := ⟨fun _ _ _ => rfl, Server.Tie.symm, fun h1 h2 c hc => (h1 c hc).trans (h2 c hc)⟩
  right h := h.docLt

/-- A request reads what is past its mark in the collection it finds. -/
theorem fetchLive_eq (user : Document) (ht : TopLevel ((normalizeSort sort).map Prod.fst))
    (hv : r.Valid S X (normalizeSort sort)) {o : Option Document} {s : Option String}
    (hs : Marks (TextAt X T db coll (normalizeSort sort)) o s) :
    ∃ k, S.find r.docs k (sortDocument (normalizeSort sort)) =
        ((unpaged S r.docs user (normalizeSort sort)).filter fun d =>
          After (S.DocLt (ascColumns (normalizeSort sort))) o d) ∧
      fetchLive S X T db coll user sort r s = (do
        let (page, hasMore, lastDoc) :=
          findPageInner S r.docs k (normalizeSort sort) r.request.effective
        arrayGuard (normalizeSort sort) page hasMore lastDoc
        let next ← nextCursor X T r.request.seq db coll (normalizeSort sort) hasMore lastDoc
        pure (page, next)) := by
  have hstrict := hv.collection.strict (id_mem_normalizeSort sort)
  cases o with
  | none =>
    cases s with
    | some s => exact hs.elim
    | none =>
      refine ⟨user, ?_, fetchDocs_of_filter (c := none) hv.request.limit rfl nofun rfl⟩
      exact (List.filter_eq_self.mpr fun d _ => decide_eq_true trivial).symm
  | some b =>
    cases s with
    | none => exact hs.elim
    | some s =>
      have hs : TextAt X T db coll (normalizeSort sort) b s := hs
      obtain ⟨c, rfl, hc⟩ := hs.made
      obtain ⟨k, hk, he⟩ := buildFilter_eq S user .all ht hc
      refine ⟨k, ?_, fetchDocs_of_filter (c := some c) hv.request.limit (cursorParam_encode hc)
        (fun _ h => Option.some.inj h ▸ hc.sort_eq) hk⟩
      rw [find_and ht hstrict he]
      refine List.filter_congr fun d hd => ?_
      -- the boundary need not be there any more: its columns alone decide
      rw [effectiveMode_all, Bool.eq_iff_iff, decide_eq_true_iff]
      exact selects_iff (fun p hp => (bracket_ne_of_isPlain (hs.plain p hp)).1)
        fun A p B hsort _ =>
          have hp : p ∈ normalizeSort sort := hsort ▸ List.mem_append_right _ List.mem_cons_self
          columnExact_of_notArray (hs.plain p hp) (hs.noOperatorDoc.column hsort) rfl
            (bracket_ne_of_isPlain (hv.plain d (mem_of_mem_unpaged hd) p hp)).1

/-- The pages of `find_docs` follow a collection in use. -/
theorem follows_fetchLive (ht : TopLevel ((normalizeSort sort).map Prod.fst)) :
    Follows (fetchLive S X T db coll user sort)
      (fun r => unpaged S r.docs user (normalizeSort sort))
      (S.DocLt (ascColumns (normalizeSort sort))) (TextAt X T db coll (normalizeSort sort))
      (LiveRequest.Valid S X (normalizeSort sort)) where
  sorted hv := pairwise_unpaged user ht (hv.collection.strict (id_mem_normalizeSort sort))
  page {r o s} hv hs := by
    obtain ⟨k, hQ, hf⟩ := fetchLive_eq user ht hv hs
    have hmem : ∀ d ∈ S.find r.docs k (sortDocument (normalizeSort sort)), d ∈ r.docs := fun d hd =>
      mem_of_mem_unpaged (List.mem_of_mem_filter (hQ ▸ hd))
    rw [← hQ]
    rcases Nat.lt_or_ge r.request.effective.toNat
      (S.find r.docs k (sortDocument (normalizeSort sort))).length with hlt | hge
    · obtain ⟨A, x, B, hcut, hl, hB⟩ := exists_cut hv.request.effective.pos hlt
      have hn : (A ++ x :: B).length ≤ r.docs.length := hcut ▸ length_unpaged_le S r.docs k _
      have hx : x ∈ r.docs := hmem x (hcut ▸ List.mem_append_right _ List.mem_cons_self)
      have hguard : arrayField (normalizeSort sort) ((A ++ [x]) ++ (some x).toList) = none := by
        refine arrayField_eq_none.mpr fun d hd p hp => ?_
        have hd' : d ∈ A ++ x :: B := by
          rw [List.append_cons]
          rcases List.mem_append.mp hd with hd | hd
          · exact List.mem_append_left _ hd
          · rw [List.mem_singleton.mp hd]
            exact List.mem_append_left _ List.mem_concat_self
        exact (bracket_ne_of_isPlain (hv.plain d (hmem d (hcut ▸ hd')) p hp)).1
      obtain ⟨c, hc, hat⟩ := makeNextCursor_ok db coll (hv.readsBack x hx) r.request.seq
      refine .inr ⟨A, x, B, T.encode c, hcut, ?_, ⟨c, rfl, hat⟩, hv.plain x hx,
        hv.noOperatorDoc x hx⟩
      rw [hf, findPageInner_more hv.request.effective hn hcut hl hB]
      simp only [arrayGuard, hguard, if_true, bind, Except.bind, nextCursor, hc, pure, Except.pure]
    · left
      rw [hf, findPageInner_last rfl hge]
      rfl

/-- **A walk over a collection in use** never fails. It serves documents in order, none
twice by its sort values and `_id`, and each document that stays, by these, exactly once. It
ends when the documents it can meet are fewer than its requests. -/
theorem findDocs_walk_in_use (ht : TopLevel (sort.map Prod.fst)) {rs : ℕ → LiveRequest} {n : ℕ}
    (hv : ∀ i, i < n → (rs i).Valid S X (normalizeSort sort)) :
    (∃ w, walk (fetchLive S X T db coll user sort) n rs none = .ok w) ∧
      (∀ all : List Document, (∀ i, i < n → (rs i).docs ⊆ all) → all.length < n →
        ∃ out, walk (fetchLive S X T db coll user sort) n rs none = .ok (some out)) ∧
      ∀ out, walk (fetchLive S X T db coll user sort) n rs none = .ok (some out) →
        out.Pairwise (S.DocLt (ascColumns (normalizeSort sort))) ∧
        (∀ d ∈ out, ∃ i, i < n ∧ d ∈ (rs i).docs ∧ S.evalDoc d user = true) ∧
        ∀ d : ℕ → Document,
          (∀ i, i < n → d i ∈ (rs i).docs ∧ S.evalDoc (d i) user = true ∧
            S.Tie (ascColumns (normalizeSort sort)) (d 0) (d i)) →
          ∃ i, i < n ∧ d i ∈ out ∧
            ∀ x ∈ out, S.Tie (ascColumns (normalizeSort sort)) (d 0) x → x = d i := by
  have hfollows : Follows (fetchLive S X T db coll user sort) _ _ _ _ :=
    follows_fetchLive ht.normalizeSort
  have hranks : Ranks (S.DocLt (ascColumns (normalizeSort sort)))
      (S.Tie (ascColumns (normalizeSort sort))) := ranks_docLt _
  have hitems : ∀ i d, d ∈ unpaged S (rs i).docs user (normalizeSort sort) ↔
      d ∈ (rs i).docs ∧ S.evalDoc d user = true := fun i d => by
    rw [unpaged, Server.find, mem_sorted, List.mem_filter]
  refine ⟨hfollows.walk_ok (o := none) hv trivial, fun all hall hn => ?_, fun out hout => ?_⟩
  · refine hfollows.walk_ends (o := none) hranks hv
      (fun i hi d hd => hall i hi ((hitems i d).mp hd).1) trivial ?_
    exact lt_of_le_of_lt (List.length_filter_le _ _) hn
  · have h := hfollows.walk_complete (o := none) (b := none) hranks hv trivial hout
    refine ⟨h.ordered, fun d hd => ?_, fun d hd => ?_⟩
    · obtain ⟨i, hi, hmem⟩ := h.seen d hd
      exact ⟨i, hi, (hitems i d).mp hmem⟩
    · obtain ⟨i, hi, hmem⟩ := h.stayed d
        (fun i hi => ⟨(hitems i _).mpr ⟨(hd i hi).1, (hd i hi).2.1⟩, (hd i hi).2.2⟩) trivial
      refine ⟨i, hi, hmem, fun x hx htie => ?_⟩
      have hsame : S.Tie (ascColumns (normalizeSort sort)) x (d i) :=
        hranks.equiv.trans htie.symm (hd i hi).2.2
      exact hranks.eq_of_same h.ordered hx hmem hsame

/-- `nanDocs` after its first document in order went and another came. -/
def laterDocs : List Document :=
  [[("_id", .int32 1), ("f", .double .nan)], [("_id", .int32 7), ("f", .int32 1)],
    [("_id", .int32 2), ("f", .int32 7)]]

theorem readsBack_laterDocs :
    ∀ b ∈ laterDocs, ReadsBack sampleJson (normalizeSort [("f", 1)]) b := by
  have hsort : normalizeSort [("f", 1)] = [("f", 1), ("_id", 1)] := by decide
  simp only [laterDocs, hsort, ReadsBack, List.forall_mem_cons]
  refine ⟨⟨?_, ?_, List.forall_mem_nil _⟩, ⟨?_, ?_, List.forall_mem_nil _⟩,
    ⟨?_, ?_, List.forall_mem_nil _⟩, List.forall_mem_nil _⟩ <;>
    exact sampleJson_parse (by simp [sampleValues, Document.getOrNull, Document.get])

/-- The document of the first cursor is gone at the second request. -/
theorem findDocs_walk_in_use_laterDocs :
    ∃ out, walk (fetchLive byteServer sampleJson cursorText "db" "c" [] [("f", 1)]) 5
      (fun i => ⟨if i = 0 then nanDocs else laterDocs, some 1, 100, i⟩) none = .ok (some out) ∧
        [("_id", .int32 2), ("f", .int32 7)] ∈ out := by
  have hrequest : ∀ i n, n < 2 ^ 32 → (FindRequest.mk (some 1) 100 i).Valid n := fun i n hn =>
    ⟨by simp, show 1 ≤ (min 1 100 : UInt32).toNat by decide, .inr hn⟩
  have hnan : Collection byteServer nanDocs := ⟨by decide +kernel, by decide⟩
  have hlater : Collection byteServer laterDocs := ⟨by decide +kernel, by decide⟩
  have hv : ∀ i, i < 5 → (LiveRequest.mk (if i = 0 then nanDocs else laterDocs)
      ⟨some 1, 100, i⟩).Valid byteServer sampleJson (normalizeSort [("f", 1)]) := by
    intro i _
    by_cases hi : i = 0
    · rw [if_pos hi]
      exact ⟨hrequest i _ (show nanDocs.length < 2 ^ 32 by decide), hnan,
        (by decide : PlainSort nanDocs _), (by decide : ∀ d ∈ nanDocs, NoOperatorDoc _ d),
        readsBack_nanDocs⟩
    · rw [if_neg hi]
      exact ⟨hrequest i _ (show laterDocs.length < 2 ^ 32 by decide), hlater,
        (by decide : PlainSort laterDocs _), (by decide : ∀ d ∈ laterDocs, NoOperatorDoc _ d),
        readsBack_laterDocs⟩
  obtain ⟨-, hends, hserves⟩ := @findDocs_walk_in_use _ _ byteServer sampleJson cursorText "db" "c"
    [] [("f", 1)] ⟨by decide, by decide, by decide⟩ _ _ hv
  obtain ⟨out, hout⟩ := hends ([("_id", .int32 3)] :: laterDocs)
    (fun i _ => by by_cases hi : i = 0 <;> simp [hi, laterDocs, nanDocs]) (by decide)
  obtain ⟨-, -, hstays⟩ := hserves out hout
  obtain ⟨i, -, hmem, -⟩ := hstays (fun _ => [("_id", .int32 2), ("f", .int32 7)]) fun i _ =>
    ⟨by by_cases hi : i = 0 <;> simp [hi, laterDocs, nanDocs], rfl, fun _ _ => rfl⟩
  exact ⟨out, hout, hmem⟩

end XavierDB.Dbq
