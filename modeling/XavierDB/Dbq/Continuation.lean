import XavierDB.Dbq.Column

/-!
# The continuation filter as a whole

`selects` is the recursion the disjunction of `keyset_ors` amounts to: past the
boundary in this column, or equal here and past it in the rest. It mirrors
`DocLt`, the order it is meant to express; the two agree at a boundary whose
values are plain and stand for themselves in an equality.
-/

namespace XavierDB.Dbq

open Mongo

variable {K : Type} [LinearOrder K] (S : Server K)

/-- A sort column with its boundary value. -/
abbrev Col := (String × Int) × Bson

/-- What `keysetLoop` selects. -/
def selects (mode : KeysetTypeBrackets) : List Col → Document → Bool
  | [], _ => false
  | ((f, dir), v) :: rest, d =>
    (columnConds mode f dir v).any (fun c => S.fieldCond c (d.get f)) ||
      (S.fieldCond v (d.get f) && selects mode rest d)

/-- Distinct field names, none of which MongoDB reads as an operator or a path. -/
structure TopLevel (names : List String) : Prop where
  nodup : names.Nodup
  notOperator : ∀ f ∈ names, isOperatorKey f = false
  notPath : ∀ f ∈ names, '.' ∉ f.toList

/-- The boundary of a sort at a document. -/
def colsOf (sort : SortKeys) (b : Document) : List Col :=
  sort.map fun p => (p, b.getOrNull p.1)

/-- Column names with their direction, as the server takes them. -/
def ascColumns (sort : SortKeys) : List (String × Bool) := sort.map fun p => (p.1, isAsc p.2)

variable {S} {mode : KeysetTypeBrackets} {d b : Document}

/-! ## Sorts -/

theorem TopLevel.normalizeSort {sort : SortKeys} (h : TopLevel (sort.map Prod.fst)) :
    TopLevel ((normalizeSort sort).map Prod.fst) := by
  unfold Dbq.normalizeSort
  split
  · exact h
  case isFalse hid =>
    have hid' : "_id" ∉ sort.map Prod.fst := by
      intro hm
      obtain ⟨p, hp, he⟩ := List.mem_map.mp hm
      exact hid (List.any_eq_true.mpr ⟨p, hp, by rw [he]; rfl⟩)
    rw [List.map_append, List.map_singleton]
    refine ⟨?_, ?_, ?_⟩
    · refine List.nodup_append.mpr ⟨h.nodup, List.nodup_singleton _, ?_⟩
      rintro x hx y hy rfl
      rw [List.mem_singleton.mp hy] at hx
      exact hid' hx
    · intro f hf
      rcases List.mem_append.mp hf with hf | hf
      · exact h.notOperator f hf
      · rw [List.mem_singleton.mp hf]
        show isOperatorKey "_id" = false
        decide
    · intro f hf
      rcases List.mem_append.mp hf with hf | hf
      · exact h.notPath f hf
      · rw [List.mem_singleton.mp hf]
        show '.' ∉ "_id".toList
        decide

theorem id_mem_normalizeSort (sort : SortKeys) : "_id" ∈ (normalizeSort sort).map Prod.fst := by
  unfold normalizeSort
  split
  case isTrue h =>
    obtain ⟨p, hp, he⟩ := List.any_eq_true.mp h
    exact List.mem_map.mpr ⟨p, hp, eq_of_beq he⟩
  · simp

theorem normalizeSort_ne_nil (sort : SortKeys) : normalizeSort sort ≠ [] := fun h => by
  have := id_mem_normalizeSort sort
  rw [h] at this
  cases this

theorem foldl_insert {α : Type} (name : α → String) (val : α → Bson) :
    ∀ (l : List α) (acc : Document), (acc.map Prod.fst ++ l.map name).Nodup →
      l.foldl (fun part p => Document.insert part (name p) (val p)) acc =
        acc ++ l.map fun p => (name p, val p)
  | [], acc, _ => by simp
  | p :: l, acc, h => by
    rw [List.map_cons] at h
    rw [List.foldl_cons, Document.insert_of_notMem _ (Document.notMem_of_nodup h),
      foldl_insert name val l _ (Document.nodup_snoc h), List.append_assoc, List.singleton_append,
      List.map_cons]

/-- The server sorts by the columns of the sort. -/
theorem sortColumns_sortDocument {sort : SortKeys} (h : TopLevel (sort.map Prod.fst)) :
    Server.sortColumns (sortDocument sort) = ascColumns sort := by
  rw [sortDocument, foldl_insert (fun p : String × Int => p.1)
    (fun p => .int32 (if 0 < p.2 then 1 else -1)) sort [] h.nodup, List.nil_append,
    Server.sortColumns, List.map_map, ascColumns]
  refine List.map_congr_left fun p _ => ?_
  by_cases hd : 0 < p.2
  · simp [isAsc, hd]
  · simp [isAsc, hd]

/-! ## The arms -/

theorem arm_eq {pre : List (String × Bson)} {f : String} {c : Bson}
    (h : (pre.map Prod.fst ++ [f]).Nodup) : arm pre f c = pre ++ [(f, c)] := by
  obtain ⟨h1, -, h2⟩ := List.nodup_append.mp h
  have hpre : pre.foldl (fun part p => Document.insert part p.1 p.2) [] = pre := by
    rw [foldl_insert Prod.fst Prod.snd pre [] h1]; simp
  rw [arm, hpre, Document.insert_of_notMem]
  exact fun hf => h2 f hf f List.mem_cons_self rfl

theorem evalDoc_fields {pre : List (String × Bson)}
    (h : ∀ f ∈ pre.map Prod.fst, isOperatorKey f = false) :
    S.evalDoc d pre = pre.all fun p => S.fieldCond p.2 (d.get p.1) := by
  induction pre with
  | nil => rfl
  | cons p pre ih =>
    rw [List.map_cons, List.forall_mem_cons] at h
    rw [Server.evalDoc, evalClause_field h.1, ih h.2, List.all_cons]

/-- The arms select equality on the columns passed and `selects` on the rest. -/
theorem any_keysetLoop {pre : List (String × Bson)} {cols : List Col}
    (h : (pre.map Prod.fst ++ cols.map (·.1.1)).Nodup)
    (hop : ∀ f ∈ pre.map Prod.fst ++ cols.map (·.1.1), isOperatorKey f = false) :
    (keysetLoop mode pre cols).any (fun a => S.evalDoc d a) =
      (pre.all (fun p => S.fieldCond p.2 (d.get p.1)) && selects S mode cols d) := by
  induction cols generalizing pre with
  | nil => simp [keysetLoop, selects]
  | cons col rest ih =>
    obtain ⟨⟨f, dir⟩, v⟩ := col
    have hcons : pre.map Prod.fst ++ f :: rest.map (·.1.1) =
        (pre ++ [(f, v)]).map Prod.fst ++ rest.map (·.1.1) := by simp
    rw [List.map_cons, hcons] at h hop
    have hf : (pre.map Prod.fst ++ [f]).Nodup := by
      have := (List.nodup_append.mp h).1
      rwa [List.map_append] at this
    have harm : ∀ c, S.evalDoc d (arm pre f c) =
        (pre.all (fun p => S.fieldCond p.2 (d.get p.1)) && S.fieldCond c (d.get f)) := by
      intro c
      rw [arm_eq hf, evalDoc_fields, List.all_append, List.all_cons, List.all_nil, Bool.and_true]
      intro g hg
      exact hop g (List.mem_append_left _ (by simpa using hg))
    rw [keysetLoop, List.any_append, List.any_map, ih h hop, selects, List.all_append,
      List.all_cons, List.all_nil, Bool.and_true]
    simp only [Function.comp_def, harm]
    cases pre.all (fun p => S.fieldCond p.2 (d.get p.1)) with
    | true => simp only [Bool.true_and]
    | false => simp

theorem evalDoc_orDocument {ors : List Document} :
    S.evalDoc d (orDocument ors) = ors.any fun a => S.evalDoc d a := by
  match ors with
  | [] => exact evalDoc_or
  | [a] => simp [orDocument]
  | a :: a' :: as => exact evalDoc_or

/-- The mode in force: with no arm at all a dropping mode falls back to `all`. -/
def effectiveMode (mode : KeysetTypeBrackets) (cols : List Col) : KeysetTypeBrackets :=
  if (keysetLoop mode [] cols).isEmpty && mode != .all then .all else mode

theorem effectiveMode_all (cols : List Col) : effectiveMode .all cols = .all := by
  rw [effectiveMode, if_neg (by simp)]

theorem keysetCondition_ok (mode : KeysetTypeBrackets) {sort : SortKeys} {last : List Bson}
    (hlen : last.length = sort.length) : keysetCondition sort last mode =
      .ok (orDocument (keysetLoop (effectiveMode mode (sort.zip last)) [] (sort.zip last))) := by
  have hors : ∀ m, keysetOrs sort last m = .ok (keysetLoop m [] (sort.zip last)) := fun m => by
    rw [keysetOrs, if_pos hlen.ge]
  simp only [keysetCondition, effectiveMode, hors, bind, Except.bind]
  split <;> rfl

/-- **The continuation filter** selects what `selects` says. -/
theorem keysetCondition_eq (S : Server K) (mode : KeysetTypeBrackets) {sort : SortKeys}
    {last : List Bson} (hlen : last.length = sort.length) (ht : TopLevel (sort.map Prod.fst)) :
    ∃ k, keysetCondition sort last mode = .ok k ∧ ∀ d, S.evalDoc d k =
      selects S (effectiveMode mode (sort.zip last)) (sort.zip last) d := by
  have hnames : (sort.zip last).map (·.1.1) = sort.map Prod.fst := by
    have h := List.map_map (f := Prod.fst) (g := Prod.fst) (l := sort.zip last)
    rw [List.map_fst_zip hlen.ge] at h
    exact h.symm
  have hany : ∀ m d, (keysetLoop m [] (sort.zip last)).any (fun a => S.evalDoc d a) =
      selects S m (sort.zip last) d := by
    intro m d
    rw [any_keysetLoop (by simpa [hnames] using ht.nodup)
      (by simpa [hnames] using ht.notOperator)]
    rfl
  exact ⟨_, keysetCondition_ok mode hlen, fun d => evalDoc_orDocument.trans (hany _ d)⟩

/-! ## Against the order -/

/-- A boundary value that stands for itself in an equality arm. -/
def StandsForItself (v : Bson) : Prop := v.isOperatorDoc = false ∧ v.isPlain = true

theorem bracket_ne_of_isPlain {v : Bson} (h : v.isPlain = true) :
    bracket v ≠ .array ∧ bracket v ≠ .regex ∧ v ≠ .decimal128 .nan := by
  cases v with
  | double d => cases d <;> exact ⟨nofun, nofun, nofun⟩
  | decimal128 d =>
    cases d with
    | nan => cases h
    | _ => exact ⟨nofun, nofun, nofun⟩
  | array a => cases h
  | regularExpression p o => cases h
  | _ => exact ⟨nofun, nofun, nofun⟩

theorem getOrNull_eq (d : Document) (f : String) : d.getOrNull f = (d.get f).getD .null := rfl

/-- A field that is not an array sorts, and is read, as its value. -/
theorem colKey_eq {asc : Bool} {w : Option Bson} (h : bracket (w.getD .null) ≠ .array) :
    S.colKey asc w = S.key (w.getD .null) := by
  cases w with
  | none => rfl
  | some v =>
    cases v with
    | array a => exact absurd rfl h
    | _ => rfl

theorem mem_readings_iff {w : Option Bson} {x : Bson} (h : bracket (w.getD .null) ≠ .array) :
    x ∈ readings w ↔ x = w.getD .null := by
  cases w with
  | none => exact List.mem_singleton
  | some v => exact mem_readings_of_notArray h

/-- What a boundary value's range arms and, if there are columns behind it, its equality arm
must say of a field for `selects` to follow the order. -/
structure ColumnExact (S : Server K) (mode : KeysetTypeBrackets) (f : String) (dir : Int)
    (v : Bson) (w : Option Bson) (rest : SortKeys) : Prop where
  past : (columnConds mode f dir v).any (fun c => S.fieldCond c w) = true ↔
    Past (isAsc dir) (S.key v) (S.colKey (isAsc dir) w)
  tie : rest ≠ [] → (S.fieldCond v w = true ↔ S.colKey (isAsc dir) w = S.key v)

theorem fieldCond_self_iff {v : Bson} {w : Option Bson} (hv : StandsForItself v) :
    S.fieldCond v w = true ↔ ∃ x ∈ readings w, S.key x = S.key v := by
  rw [fieldCond_eq_eqMatch hv.1 (bracket_ne_of_isPlain hv.2).2.1, eqMatch_iff]

/-- A column that keeps its fallbacks is exact on fields that are no arrays. -/
theorem columnExact_of_notArray {f : String} {dir : Int} {v : Bson} {w : Option Bson}
    {rest : SortKeys} (hv : v.isPlain = true) (hop : rest ≠ [] → v.isOperatorDoc = false)
    (hm : mode.drops f = false) (hw : bracket (w.getD .null) ≠ .array) :
    ColumnExact S mode f dir v w rest := by
  refine ⟨?_, fun hrest => ?_⟩
  · rw [any_columnConds (bracket_ne_of_isPlain hv).2.2 hm, colKey_eq hw]
    simp only [mem_readings_iff hw, exists_eq_left]
  · rw [fieldCond_self_iff ⟨hop hrest, hv⟩, colKey_eq hw]
    simp only [mem_readings_iff hw, exists_eq_left]

theorem selects_colsOf_cons (p : String × Int) (sort : SortKeys) (b d : Document) :
    selects S mode (colsOf (p :: sort) b) d =
      ((columnConds mode p.1 p.2 (b.getOrNull p.1)).any (fun c => S.fieldCond c (d.get p.1)) ||
        (S.fieldCond (b.getOrNull p.1) (d.get p.1) && selects S mode (colsOf sort b) d)) := rfl

/-- Columns exact at a document that ties with the boundary in all the columns
before make `selects` the order itself. -/
theorem selects_iff {sort : SortKeys} (hb : ∀ p ∈ sort, bracket (b.getOrNull p.1) ≠ .array)
    (h : ∀ A p B, sort = A ++ p :: B → S.Tie (ascColumns A) b d →
      ColumnExact S mode p.1 p.2 (b.getOrNull p.1) (d.get p.1) B) :
    selects S mode (colsOf sort b) d = true ↔ S.DocLt (ascColumns sort) b d := by
  induction sort with
  | nil => exact ⟨nofun, nofun⟩
  | cons p sort ih =>
    have hp := h [] p sort rfl (fun c hc => by cases hc)
    have hkey : S.colKey (isAsc p.2) (b.get p.1) = S.key (b.getOrNull p.1) :=
      colKey_eq (hb p List.mem_cons_self)
    rw [selects_colsOf_cons]
    show _ ↔
      Past (isAsc p.2) (S.colKey (isAsc p.2) (b.get p.1)) (S.colKey (isAsc p.2) (d.get p.1)) ∨
      (S.colKey (isAsc p.2) (b.get p.1) = S.colKey (isAsc p.2) (d.get p.1) ∧
        S.DocLt (ascColumns sort) b d)
    rw [Bool.or_eq_true, Bool.and_eq_true, hp.past, hkey]
    by_cases hlast : sort = []
    · -- the equality arm of the last column is in no disjunct
      subst hlast
      exact or_congr_right (iff_of_false (fun h => nomatch h.2) fun h => h.2)
    rw [hp.tie hlast, eq_comm (a := S.colKey _ (d.get _))]
    refine or_congr_right (and_congr_right fun htie => ?_)
    refine ih (fun q hq => hb q (List.mem_cons_of_mem _ hq)) fun A q B hs hA => ?_
    refine h (p :: A) q B (by rw [hs]; rfl) ?_
    rw [ascColumns, List.map_cons]
    exact List.forall_mem_cons.mpr ⟨hkey.trans htie, hA⟩

end XavierDB.Dbq
