import XavierDB.Dbq.Walk

/-!
# Walks that drop the type brackets

The documented condition for `IdOnly` and `Off` is a single BSON type per
dropped column. Such a column still spans two brackets when the type is
double: descending, the range arm of a number never matches the NaN below it.
That is the only loss.
-/

namespace XavierDB.Dbq

open Mongo Paging

variable {K : Type} [LinearOrder K] {S : Server K} {X : ExtJson} {docs : List Document}
  {user : Document} {sort : SortKeys} {mode : KeysetTypeBrackets} {db coll : String}

/-- All documents hold the same BSON type in the field; missing counts as null. -/
def SingleType (docs : List Document) (f : String) : Prop :=
  ∃ t, ∀ d ∈ docs, (d.getOrNull f).typeAlias = t

/-- `b` and `d` tie up to a dropped descending column, where `b` is a number and
`d` a NaN. -/
structure NanBelow (S : Server K) (sort : SortKeys) (mode : KeysetTypeBrackets)
    (A : SortKeys) (p : String × Int) (b d : Document) : Prop where
  column : ∃ B, sort = A ++ p :: B
  dropped : mode.drops p.1 = true
  descending : ¬ 0 < p.2
  tie : S.Tie (ascColumns A) b d
  number : bracket (b.getOrNull p.1) = .number
  nan : bracket (d.getOrNull p.1) = .nan

/-! ## Exact columns -/

/-- Plain values of one type sort in one bracket, unless the type is double. -/
theorem bracket_of_typeAlias {a b : Bson} (ha : a.isPlain = true) (hb : b.isPlain = true)
    (h : a.typeAlias = b.typeAlias) :
    bracket a = bracket b ∨ (bracket a = .nan ∧ bracket b = .number) ∨
      (bracket a = .number ∧ bracket b = .nan) := by
  cases a with
  | double x =>
    cases b with
    | double y => cases x <;> cases y <;> simp [bracket]
    | _ => exact absurd h (by simp [Bson.typeAlias])
  | decimal128 x =>
    cases b with
    | decimal128 y =>
      cases x with
      | nan => cases ha
      | _ =>
        cases y with
        | nan => cases hb
        | _ => exact .inl rfl
    | _ => exact absurd h (by simp [Bson.typeAlias])
  | _ => cases b <;> first | exact .inl rfl | exact absurd h (by simp [Bson.typeAlias])

/-- In any mode a column selects only fields past the boundary. -/
theorem past_of_any_columnConds {f : String} {dir : Int} {v : Bson} {w : Option Bson}
    (hv : v ≠ .decimal128 .nan) (hw : bracket (w.getD .null) ≠ .array)
    (h : (columnConds mode f dir v).any (fun c => S.fieldCond c w) = true) :
    Past (isAsc dir) (S.key v) (S.colKey (isAsc dir) w) := by
  rw [colKey_eq hw]
  cases hm : mode.drops f with
  | false =>
    obtain ⟨x, hx, hp⟩ := (any_columnConds hv hm).mp h
    exact (mem_readings_iff hw).mp hx ▸ hp
  | true =>
    obtain ⟨x, hx, hp, -⟩ := (any_columnConds_dropped hv hm).mp h
    exact (mem_readings_iff hw).mp hx ▸ hp

/-- A dropped column of one type is exact unless a number meets a NaN below it. -/
theorem columnExact_of_singleType {f : String} {dir : Int} {v : Bson} {w : Option Bson}
    {rest : SortKeys} (hv : v.isPlain = true) (hop : rest ≠ [] → v.isOperatorDoc = false)
    (hw : (w.getD .null).isPlain = true) (hm : mode.drops f = true) (ht : v.typeAlias = (w.getD .null).typeAlias)
    (hn : ¬ (¬ 0 < dir ∧ bracket v = .number ∧ bracket (w.getD .null) = .nan)) :
    ColumnExact S mode f dir v w rest := by
  obtain ⟨hw', -, -⟩ := bracket_ne_of_isPlain hw
  obtain ⟨-, -, hv'⟩ := bracket_ne_of_isPlain hv
  have hsame : ∀ m', m'.drops f = false → ColumnExact S m' f dir v w rest := fun _ hm' =>
    columnExact_of_notArray hv hop hm' hw'
  refine ⟨⟨past_of_any_columnConds hv' hw', fun hp => ?_⟩, (hsame .all rfl).tie⟩
  rw [colKey_eq hw'] at hp
  refine (any_columnConds_dropped hv' hm).mpr ⟨_, (mem_readings_iff hw').mpr rfl, hp, ?_⟩
  rcases bracket_of_typeAlias hv hw ht with h | ⟨h1, h2⟩ | ⟨h1, h2⟩
  · exact .inl h.symm
  · by_cases hd : 0 < dir
    · exact .inr ⟨(isNan_iff hv').mpr h1, hd, h2⟩
    · -- descending, the numbers lie above NaN
      rw [isAsc, decide_eq_false hd] at hp
      have := rank_le_of_key_lt (S := S) hp
      rw [h1, h2] at this
      exact absurd this (by decide)
  · by_cases hd : 0 < dir
    · rw [isAsc, decide_eq_true hd] at hp
      have := rank_le_of_key_lt (S := S) hp
      rw [h1, h2] at this
      exact absurd this (by decide)
    · exact absurd ⟨hd, h1, h2⟩ hn

theorem effectiveMode_cases (mode : KeysetTypeBrackets) (cols : List Col) :
    effectiveMode mode cols = .all ∨ effectiveMode mode cols = mode := by
  unfold effectiveMode
  split
  · exact .inl rfl
  · exact .inr rfl

/-- Without a NaN below a number every boundary continues exactly. -/
theorem continues_singleType {A B : List Document} {b : Document}
    (ht : TopLevel (sort.map Prod.fst)) (hs : S.Strict (ascColumns sort) docs)
    (hplain : PlainSort docs sort) (hop : ∀ d ∈ docs, NoOperatorDoc sort d)
    (hsingle : ∀ p ∈ sort, mode.drops p.1 = true → SingleType docs p.1)
    (hnan : ∀ A p, ∀ b ∈ unpaged S docs user sort, ∀ d ∈ unpaged S docs user sort,
      ¬ NanBelow S sort mode A p b d)
    (hR : unpaged S docs user sort = A ++ b :: B) : Continues S docs user sort mode b B := by
  have hbR : b ∈ unpaged S docs user sort := hR ▸ List.mem_append_right _ List.mem_cons_self
  have hb := mem_of_mem_unpaged hbR
  refine continues_of_selects ht hs hR fun d hd => ?_
  have hd' := mem_of_mem_unpaged hd
  refine selects_iff (fun p hp => (bracket_ne_of_isPlain (hplain b hb p hp)).1)
    fun A' p B' he htie => ?_
  have hp : p ∈ sort := he ▸ List.mem_append_right _ List.mem_cons_self
  have hv := hplain b hb p hp
  have hkept : ∀ m : KeysetTypeBrackets, m.drops p.1 = false →
      ColumnExact S m p.1 p.2 (b.getOrNull p.1) (d.get p.1) B' := fun m hm =>
    columnExact_of_notArray hv ((hop b hb).column he) hm (bracket_ne_of_isPlain (hplain d hd' p hp)).1
  rcases effectiveMode_cases mode (colsOf sort b) with hm | hm
  · rw [hm]
    exact hkept .all rfl
  · rw [hm]
    cases hdrop : mode.drops p.1 with
    | false => exact hkept mode hdrop
    | true =>
      obtain ⟨t, hty⟩ := hsingle p hp hdrop
      refine columnExact_of_singleType hv ((hop b hb).column he) (hplain d hd' p hp) hdrop
        ((hty b hb).trans (hty d hd').symm) ?_
      rintro ⟨h1, h2, h3⟩
      exact hnan A' p b hbR d hd ⟨⟨B', he⟩, hdrop, h1, htie, h2, h3⟩

/-! ## The loss -/

/-- A column with a number as its boundary has conditions of its own. -/
theorem keysetLoop_ne_nil {pre : List (String × Bson)} {A B : SortKeys} {p : String × Int}
    {b : Document} (h : bracket (b.getOrNull p.1) = .number)
    (hv : b.getOrNull p.1 ≠ .decimal128 .nan) :
    keysetLoop mode pre (colsOf (A ++ p :: B) b) ≠ [] := by
  induction A generalizing pre with
  | nil =>
    have hnull : isNull (b.getOrNull p.1) = false := by
      rw [← Bool.not_eq_true, isNull_iff, h]
      nofun
    have hnan : isNan (b.getOrNull p.1) = false := by
      rw [← Bool.not_eq_true, isNan_iff hv, h]
      nofun
    simp [colsOf, keysetLoop, columnConds, sameTypeConds, hnull, hnan]
  | cons q A ih => exact fun he => ih (List.append_eq_nil_iff.mp he).2

theorem NanBelow.effectiveMode_eq {A : SortKeys} {p : String × Int} {b d : Document}
    (h : NanBelow S sort mode A p b d) (hv : b.getOrNull p.1 ≠ .decimal128 .nan) :
    effectiveMode mode (colsOf sort b) = mode := by
  obtain ⟨B, rfl⟩ := h.column
  rw [effectiveMode, if_neg]
  rw [Bool.and_eq_true, List.isEmpty_iff]
  exact fun hh => keysetLoop_ne_nil h.number hv hh.1

/-- The dropped column itself does not select the NaN, which is in another bracket. -/
theorem NanBelow.not_columnConds {A : SortKeys} {p : String × Int} {b d : Document}
    (h : NanBelow S sort mode A p b d) (hv : b.getOrNull p.1 ≠ .decimal128 .nan)
    (hw : bracket (d.getOrNull p.1) ≠ .array) :
    (columnConds mode p.1 p.2 (b.getOrNull p.1)).any (fun c => S.fieldCond c (d.get p.1)) =
      false := by
  rw [← Bool.not_eq_true, any_columnConds_dropped hv h.dropped]
  rintro ⟨x, hx, -, hbx⟩
  rw [(mem_readings_iff hw).mp hx, ← getOrNull_eq, h.nan, h.number] at hbx
  rcases hbx with hbx | ⟨hn, -, -⟩
  · cases hbx
  · rw [isNan_iff hv, h.number] at hn
    cases hn

theorem isOperatorDoc_of_number {v : Bson} (h : bracket v = .number) : v.isOperatorDoc = false := by
  cases v with
  | document d => cases h
  | _ => rfl

theorem NanBelow.not_fieldCond {A : SortKeys} {p : String × Int} {b d : Document}
    (h : NanBelow S sort mode A p b d) (hb : (b.getOrNull p.1).isPlain = true)
    (hw : bracket (d.getOrNull p.1) ≠ .array) :
    S.fieldCond (b.getOrNull p.1) (d.get p.1) = false := by
  rw [← Bool.not_eq_true, fieldCond_self_iff ⟨isOperatorDoc_of_number h.number, hb⟩]
  rintro ⟨x, hx, hk⟩
  have he := bracket_eq_of_key_eq hk
  rw [(mem_readings_iff hw).mp hx, ← getOrNull_eq, h.nan, h.number] at he
  cases he

/-- Where columns tie, only the columns after them select. -/
theorem selects_of_tie {A rest : SortKeys} {b d : Document} (ht : S.Tie (ascColumns A) b d)
    (hb : ∀ p ∈ A, (b.getOrNull p.1).isPlain = true)
    (hd : ∀ p ∈ A, (d.getOrNull p.1).isPlain = true)
    (h : selects S mode (colsOf (A ++ rest) b) d = true) :
    selects S mode (colsOf rest b) d = true := by
  induction A with
  | nil => exact h
  | cons q A ih =>
    rw [List.forall_mem_cons] at hb hd
    obtain ⟨hvarray, -, hvnan⟩ := bracket_ne_of_isPlain hb.1
    have hw := (bracket_ne_of_isPlain hd.1).1
    have hkey := ht (q.1, isAsc q.2) (by simp [ascColumns])
    rw [colKey_eq hvarray] at hkey
    rw [List.cons_append, selects_colsOf_cons, Bool.or_eq_true, Bool.and_eq_true] at h
    rcases h with h | ⟨-, h⟩
    · have hpast := past_of_any_columnConds hvnan hw h
      rw [← hkey] at hpast
      exact (past_irrefl _ _ hpast).elim
    · exact ih (fun c hc => ht c (List.mem_cons_of_mem _ hc)) hb.2 hd.2 h

/-- The filter of a number misses a NaN below it. -/
theorem NanBelow.not_selects {A : SortKeys} {p : String × Int} {b d : Document}
    (h : NanBelow S sort mode A p b d) (hb : ∀ p ∈ sort, (b.getOrNull p.1).isPlain = true)
    (hd : ∀ p ∈ sort, (d.getOrNull p.1).isPlain = true) :
    selects S (effectiveMode mode (colsOf sort b)) (colsOf sort b) d = false := by
  obtain ⟨B, hB⟩ := h.column
  have hA : ∀ q ∈ A, q ∈ sort := fun q hq => hB ▸ List.mem_append_left _ hq
  have hp : p ∈ sort := hB ▸ List.mem_append_right _ List.mem_cons_self
  have hv := (bracket_ne_of_isPlain (hb p hp)).2.2
  have hw := (bracket_ne_of_isPlain (hd p hp)).1
  rw [h.effectiveMode_eq hv, ← Bool.not_eq_true, hB]
  intro hsel
  have hrest := selects_of_tie h.tie (fun q hq => hb q (hA q hq)) (fun q hq => hd q (hA q hq)) hsel
  rw [selects_colsOf_cons, h.not_columnConds hv hw, h.not_fieldCond (hb p hp) hw] at hrest
  cases hrest

/-- What lies between two documents that tie on the first columns ties with them. -/
theorem tie_of_between {A B : SortKeys} {b m d : Document}
    (h1 : S.DocLt (ascColumns (A ++ B)) b m) (h2 : S.DocLt (ascColumns (A ++ B)) m d)
    (ht : S.Tie (ascColumns A) b d) : S.Tie (ascColumns A) b m := by
  induction A with
  | nil => exact fun c hc => by cases hc
  | cons q A ih =>
    have hq := ht (q.1, isAsc q.2) List.mem_cons_self
    rcases h1 with h1 | ⟨e1, h1⟩ <;> rcases h2 with h2 | ⟨e2, h2⟩
    · exact (past_irrefl _ _ (hq ▸ past_trans h1 h2)).elim
    · exact (past_irrefl _ _ (e2.trans hq.symm ▸ h1)).elim
    · exact (past_irrefl _ _ (hq ▸ e1 ▸ h2)).elim
    · exact List.forall_mem_cons.mpr ⟨e1, ih h1 h2 fun c hc => ht c (List.mem_cons_of_mem _ hc)⟩

theorem docLt_of_tie {A B : SortKeys} {b d : Document} (ht : S.Tie (ascColumns A) b d)
    (h : S.DocLt (ascColumns B) b d) : S.DocLt (ascColumns (A ++ B)) b d := by
  induction A with
  | nil => exact h
  | cons q A ih =>
    exact .inr ⟨ht _ List.mem_cons_self, ih fun c hc => ht c (List.mem_cons_of_mem _ hc)⟩

theorem NanBelow.docLt {A : SortKeys} {p : String × Int} {b d : Document}
    (h : NanBelow S sort mode A p b d) : S.DocLt (ascColumns sort) b d := by
  obtain ⟨B, rfl⟩ := h.column
  refine docLt_of_tie h.tie (.inl ?_)
  have hb : bracket ((b.get p.1).getD .null) ≠ .array := by
    rw [← getOrNull_eq, h.number]; nofun
  have hd : bracket ((d.get p.1).getD .null) ≠ .array := by
    rw [← getOrNull_eq, h.nan]; nofun
  rw [colKey_eq hb, colKey_eq hd, isAsc, decide_eq_false h.descending]
  exact key_lt_of_rank (by rw [← getOrNull_eq, ← getOrNull_eq, h.number, h.nan]; decide)

/-- A number above a NaN somewhere puts a number right above a NaN. -/
theorem NanBelow.exists_adjacent {A : SortKeys} {p : String × Int} {d : Document}
    {B' R : List Document} (hR : R.Pairwise (S.DocLt (ascColumns sort)))
    (hplain : PlainSort R sort) (hsingle : SingleType R p.1) :
    ∀ {M A' : List Document} {b : Document}, NanBelow S sort mode A p b d →
      R = A' ++ b :: (M ++ d :: B') →
      ∃ A₂ b' d' B₂, R = A₂ ++ b' :: d' :: B₂ ∧ NanBelow S sort mode A p b' d' := by
  intro M
  induction M with
  | nil => exact fun h he => ⟨_, _, d, B', he, h⟩
  | cons m M ih =>
    intro A' b h he
    obtain ⟨B, hB⟩ := h.column
    obtain ⟨t, ht⟩ := hsingle
    have hm : m ∈ R := by rw [he]; simp
    have hd : d ∈ R := by rw [he]; simp
    have hp : p ∈ sort := hB ▸ List.mem_append_right _ List.mem_cons_self
    have hord := hR
    rw [he] at hord
    have hbm : S.DocLt (ascColumns sort) b m :=
      (List.pairwise_cons.mp (List.pairwise_append.mp hord).2.1).1 m (by simp)
    have hmd : S.DocLt (ascColumns sort) m d :=
      (List.pairwise_cons.mp (List.pairwise_cons.mp (List.pairwise_append.mp hord).2.1).2).1 d
        (by simp)
    have htm : S.Tie (ascColumns A) b m := tie_of_between (hB ▸ hbm) (hB ▸ hmd) h.tie
    rcases bracket_of_typeAlias (hplain m hm p hp) (hplain d hd p hp)
      ((ht m hm).trans (ht d hd).symm) with hbr | ⟨-, hbr⟩ | ⟨hbr, -⟩
    · exact ⟨A', b, m, M ++ d :: B', he,
        { h with tie := htm, nan := hbr.trans h.nan }⟩
    · rw [h.nan] at hbr; cases hbr
    · have he' : R = (A' ++ [b]) ++ m :: (M ++ d :: B') := by rw [he]; simp
      exact ih { h with tie := fun c hc => (htm c hc).symm.trans (h.tie c hc), number := hbr } he'

/-! ## Pages of one document -/

theorem findPageInner_one {k : Document} {page : List Document} {more : Bool}
    {last : Option Document} (h : findPageInner S docs k sort 1 = (page, more, last)) :
    (more = false → page.length ≤ 1) ∧ (more = true → ∃ y, page = [y] ∧ last = some y) := by
  have hone : (1 : UInt32).toNat = 1 := rfl
  simp only [findPageInner, hone] at h
  rcases hQ : (S.find docs k (sortDocument sort)).take 2 with _ | ⟨x, _ | ⟨y, rest⟩⟩
  · rw [hQ] at h
    obtain ⟨rfl, rfl, rfl⟩ := by simpa using h
    simp
  · rw [hQ] at h
    obtain ⟨rfl, rfl, rfl⟩ := by simpa using h
    simp
  · have hlen := List.length_take_le 2 (S.find docs k (sortDocument sort))
    rw [hQ] at hlen h
    have hrest : rest = [] := List.eq_nil_of_length_eq_zero (by simpa using hlen)
    subst hrest
    obtain ⟨rfl, rfl, rfl⟩ := by simpa using h
    simp

theorem mem_find_of_findPageInner {k d : Document} {limit : UInt32} {page : List Document}
    {more : Bool} {last : Option Document}
    (h : findPageInner S docs k sort limit = (page, more, last)) (hd : d ∈ page) :
    d ∈ docs ∧ S.evalDoc d k = true := by
  have hmem : d ∈ S.find docs k (sortDocument sort) := by
    obtain ⟨rfl, -⟩ := Prod.mk.inj h
    split at hd
    · exact List.mem_of_mem_take (List.mem_of_mem_take hd)
    · exact List.mem_of_mem_take hd
  exact List.mem_filter.mp (mem_sorted.mp hmem)

/-- The page of a cursor holds what the filter of its boundary selects. -/
theorem selects_of_mem_page {r : PageRequest} {c : Cursor} {b d : Document}
    {page : List Document} {next : Option Cursor} (ht : TopLevel (sort.map Prod.fst))
    (hc : CursorAt X db coll sort b c)
    (h : fetchPage S X docs db coll user sort mode r (some c) = .ok (page, next))
    (hd : d ∈ page) : selects S (effectiveMode mode (colsOf sort b)) (colsOf sort b) d = true := by
  obtain ⟨k, hk, he⟩ := buildFilter_eq S user mode ht hc
  have hpage : ∃ more last, findPageInner S docs k sort r.limit = (page, more, last) := by
    simp only [fetchPage, hk, bind, Except.bind] at h
    split at h
    case h_1 page' last heq =>
      cases hn : makeNextCursor X r.seq db coll sort last with
      | error e => rw [hn] at h; cases h
      | ok c' => rw [hn] at h; cases h; exact ⟨_, _, heq⟩
    case h_2 page' more last _ heq => cases h; exact ⟨_, _, heq⟩
  obtain ⟨more, last, hpage⟩ := hpage
  obtain ⟨-, hev⟩ := mem_find_of_findPageInner hpage hd
  rw [he, Bool.and_eq_true] at hev
  exact hev.2

/-- Pages of one document, with the cursor at that document. -/
theorem fetchPage_one {seq : Nat} {pos next : Option Cursor} {page : List Document}
    (hread : ∀ d ∈ docs, ReadsBack X sort d)
    (h : fetchPage S X docs db coll user sort mode ⟨1, seq⟩ pos = .ok (page, next)) :
    (next = none → page.length ≤ 1) ∧
      ∀ c, next = some c → ∃ y, page = [y] ∧ CursorAt X db coll sort y c := by
  cases hk : buildFilter X (some user) pos mode with
  | error e => simp only [fetchPage, hk, bind, Except.bind] at h; cases h
  | ok k =>
    simp only [fetchPage, hk, bind, Except.bind] at h
    split at h
    case h_1 page' last heq =>
      obtain ⟨y, rfl, hy⟩ := (findPageInner_one heq).2 rfl
      cases hy
      obtain ⟨hmem, -⟩ := mem_find_of_findPageInner heq List.mem_cons_self
      obtain ⟨c', hc', hat⟩ := makeNextCursor_ok db coll (hread last hmem) seq
      rw [hc'] at h
      cases h
      refine ⟨fun hn => (Option.some_ne_none _ hn).elim, fun c hc => ⟨last, rfl, ?_⟩⟩
      rw [← Option.some.inj hc]
      exact hat
    case h_2 page' more last hnot heq =>
      cases h
      refine ⟨fun _ => ?_, fun c hc => (Option.some_ne_none c hc.symm).elim⟩
      cases more with
      | false => exact (findPageInner_one heq).1 rfl
      | true =>
        obtain ⟨y, rfl, rfl⟩ := (findPageInner_one heq).2 rfl
        exact (hnot _ rfl rfl).elim

/-- A document below another one comes before it in the unpaged find. -/
theorem exists_split_of_docLt {cols : List (String × Bool)} {R : List Document} {b d : Document}
    (hR : R.Pairwise (S.DocLt cols)) (hb : b ∈ R) (hd : d ∈ R) (hlt : S.DocLt cols b d) :
    ∃ A M B, R = A ++ b :: (M ++ d :: B) := by
  obtain ⟨A, L, rfl⟩ := List.append_of_mem hb
  obtain ⟨-, -, hA⟩ := List.pairwise_append.mp hR
  have hdL : d ∈ L := by
    rcases List.mem_append.mp hd with hd | hd
    · exact (docLt_irrefl (docLt_trans hlt (hA d hd b List.mem_cons_self))).elim
    · rcases List.mem_cons.mp hd with rfl | hd
      · exact (docLt_irrefl hlt).elim
      · exact hd
  obtain ⟨M, B, rfl⟩ := List.append_of_mem hdL
  exact ⟨A, M, B, rfl⟩

/-- Where every boundary continues exactly, every walk returns the unpaged find. -/
theorem walk_of_continues (ht : TopLevel (sort.map Prod.fst))
    (hs : S.Strict (ascColumns sort) docs) (hread : ∀ d ∈ docs, ReadsBack X sort d)
    (hcont : ∀ A x B, unpaged S docs user sort = A ++ x :: B →
      Continues S docs user sort mode x B)
    {rs : Nat → PageRequest} (hv : ∀ i, ValidLimit docs.length (rs i).limit) {fuel : Nat}
    (hf : docs.length < fuel) :
    walk (fetchPage S X docs db coll user sort mode) fuel rs none =
      .ok (some (unpaged S docs user sort)) := by
  refine (serves_fetchPage (G := fun _ => True) ht hs fun A x B hR _ => ?_).walk_eq rfl hv
    (fun _ _ => trivial) (lt_of_le_of_lt (length_unpaged_le S docs user sort) hf)
  exact ⟨hread x (mem_of_mem_unpaged (hR ▸ List.mem_append_right _ List.mem_cons_self)),
    hcont A x B hR⟩

/-- **Dropped columns of a single type** keep every walk exact, just when no NaN
lies below a number in a dropped descending column. -/
theorem walk_dropped_iff (hc : Collection S docs) (ht : TopLevel (sort.map Prod.fst))
    (hplain : PlainSort docs (normalizeSort sort))
    (hop : ∀ d ∈ docs, NoOperatorDoc (normalizeSort sort) d)
    (hread : ∀ d ∈ docs, ReadsBack X (normalizeSort sort) d)
    (hsingle : ∀ p ∈ normalizeSort sort, mode.drops p.1 = true → SingleType docs p.1) :
    (∀ rs : Nat → PageRequest, (∀ i, ValidLimit docs.length (rs i).limit) →
      ∀ fuel, docs.length < fuel →
        walk (fetchPage S X docs db coll user (normalizeSort sort) mode) fuel rs none =
            walk (fetchPage S X docs db coll user (normalizeSort sort) .all) fuel rs none ∧
          walk (fetchPage S X docs db coll user (normalizeSort sort) mode) fuel rs none =
            .ok (some (unpaged S docs user (normalizeSort sort)))) ↔
      ∀ A p, ∀ b ∈ unpaged S docs user (normalizeSort sort),
        ∀ d ∈ unpaged S docs user (normalizeSort sort),
          ¬ NanBelow S (normalizeSort sort) mode A p b d := by
  have ht' := ht.normalizeSort
  have hs := hc.strict (id_mem_normalizeSort sort)
  generalize normalizeSort sort = sort at *
  have hR := pairwise_unpaged user ht' hs
  constructor
  · intro h A p b hb d hd hbad
    -- a number right above a NaN, served one document at a time
    have hdocs : ∀ x ∈ unpaged S docs user sort, x ∈ docs := fun x hx => mem_of_mem_unpaged hx
    obtain ⟨A', M, B', hsplit⟩ := exists_split_of_docLt hR hb hd hbad.docLt
    obtain ⟨B, hB⟩ := hbad.column
    have hp : p ∈ sort := hB ▸ List.mem_append_right _ List.mem_cons_self
    obtain ⟨t, hty⟩ := hsingle p hp hbad.dropped
    obtain ⟨A₂, b', d', B₂, hadj, hbad'⟩ := hbad.exists_adjacent hR
      (fun x hx => hplain x (hdocs x hx)) ⟨t, fun x hx => hty x (hdocs x hx)⟩ hsplit
    obtain ⟨-, hwalk⟩ := h (fun _ => ⟨1, 0⟩) (fun _ => ⟨show 1 ≤ (1 : UInt32).toNat by decide,
      .inl (show (1 : UInt32).toNat < 2 ^ 32 - 1 by decide)⟩) _ (Nat.lt_succ_self _)
    rw [hadj] at hwalk
    obtain ⟨c, n, hat, hw⟩ := walk_reach (fun hf => (fetchPage_one hread hf).1 rfl)
      (fun hf => (fetchPage_one hread hf).2 _ rfl) (List.cons_ne_nil d' B₂) hwalk
    have hb' : b' ∈ docs := hdocs b' (by rw [hadj]; simp)
    have hd' : d' ∈ docs := hdocs d' (by rw [hadj]; simp)
    have hno := hbad'.not_selects (fun p hp => hplain b' hb' p hp)
      (fun p hp => hplain d' hd' p hp)
    obtain ⟨page, next, hf, hmem⟩ := exists_head_page (fun hf => by
      obtain ⟨y, rfl, -⟩ := (fetchPage_one hread hf).2 _ rfl
      exact List.cons_ne_nil y []) hw
    rw [selects_of_mem_page ht' hat hf hmem] at hno
    cases hno
  · intro hnan rs hv fuel hf
    have hmode : walk (fetchPage S X docs db coll user sort mode) fuel rs none =
        .ok (some (unpaged S docs user sort)) :=
      walk_of_continues ht' hs hread (fun A x B hRx =>
        continues_singleType ht' hs hplain hop hsingle hnan hRx) hv hf
    have hall : walk (fetchPage S X docs db coll user sort .all) fuel rs none =
        .ok (some (unpaged S docs user sort)) :=
      walk_of_continues ht' hs hread (fun A x B hRx => continues_all ht' hs hplain hRx
        (hop x (mem_of_mem_unpaged (hRx ▸ List.mem_append_right _ List.mem_cons_self)))) hv hf
    exact ⟨hmode.trans hall.symm, hmode⟩

/-- A double column with a number and a NaN. -/
def doubleDocs : List Document :=
  [[("_id", .int32 1), ("f", .double .posInf)], [("_id", .int32 2), ("f", .double .nan)]]

theorem readsBack_doubleDocs (dir : Int) :
    ∀ b ∈ doubleDocs, ReadsBack sampleJson (normalizeSort [("f", dir)]) b := by
  have hsort : normalizeSort [("f", dir)] = [("f", dir), ("_id", dir)] := rfl
  simp only [doubleDocs, hsort, ReadsBack, List.forall_mem_cons]
  refine ⟨⟨?_, ?_, List.forall_mem_nil _⟩, ⟨?_, ?_, List.forall_mem_nil _⟩,
    List.forall_mem_nil _⟩ <;>
    exact sampleJson_parse (by simp [sampleValues, Document.getOrNull, Document.get])

/-- Ascending, the walk without fallbacks goes from NaN to the number. -/
theorem walk_dropped_doubleDocs_asc :
    walk (fetchPage byteServer sampleJson doubleDocs "db" "c" [] (normalizeSort [("f", 1)]) .off) 3
      (fun i => ⟨1, i⟩) none =
        .ok (some (unpaged byteServer doubleDocs [] (normalizeSort [("f", 1)]))) := by
  have hiff := @walk_dropped_iff _ _ byteServer sampleJson doubleDocs [] [("f", 1)] .off "db" "c"
    ⟨by decide +kernel, by decide⟩ ⟨by decide, by decide, by decide⟩ (by decide) (by decide)
    (readsBack_doubleDocs 1) ?_
  · refine ((hiff.mpr ?_) (fun i => ⟨1, i⟩) (fun i => ⟨show 1 ≤ (1 : UInt32).toNat by decide,
      .inr (by decide)⟩) 3 (by decide)).2
    rintro A p b - d - ⟨⟨B, hB⟩, -, hdesc, -, -, -⟩
    have hp : p ∈ normalizeSort [("f", 1)] := hB ▸ List.mem_append_right _ List.mem_cons_self
    exact hdesc ((by decide : ∀ p ∈ normalizeSort [("f", 1)], 0 < p.2) p hp)
  · intro p hp _
    have hty : ∀ p ∈ normalizeSort [("f", 1)], ∀ d ∈ doubleDocs,
        (d.getOrNull p.1).typeAlias = if p.1 = "f" then "double" else "int" := by decide
    exact ⟨_, hty p hp⟩

/-- Descending, the NaN below the number is lost. -/
theorem walk_dropped_ne_doubleDocs_desc :
    Collection byteServer doubleDocs ∧
      (∀ p ∈ normalizeSort [("f", -1)], SingleType doubleDocs p.1) ∧
      walk (fetchPage byteServer sampleJson doubleDocs "db" "c" [] (normalizeSort [("f", -1)]) .off)
        3 (fun i => ⟨1, i⟩) none ≠
          .ok (some (unpaged byteServer doubleDocs [] (normalizeSort [("f", -1)]))) := by
  refine ⟨⟨by decide +kernel, by decide⟩, fun p hp => ?_, fun h => ?_⟩
  · have hty : ∀ p ∈ normalizeSort [("f", -1)], ∀ d ∈ doubleDocs,
        (d.getOrNull p.1).typeAlias = if p.1 = "f" then "double" else "int" := by decide
    exact ⟨_, hty p hp⟩
  · have hlen := congrArg walkLength h
    revert hlen
    decide +kernel

end XavierDB.Dbq
