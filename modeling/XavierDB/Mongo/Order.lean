import XavierDB.Bson.Value
import Mathlib.Order.Lattice
import Mathlib.Data.List.Sort
import Mathlib.Data.List.Pairwise

/-!
# The sort order of MongoDB

Values sort by type bracket first and by a total order inside the bracket:
numbers by exact value whatever their type, the values of the other brackets
by an order of the server (`Server.inner`), which stays a parameter. A NaN of
either floating type has a bracket of its own just below the numbers. An array
sorts ascending by its least and descending by its greatest element; the empty
array sorts just below null.
-/

namespace XavierDB.Mongo

open XavierDB

/-- The type brackets, in sort order. -/
inductive Bracket where
  | minKey | null | nan | number | symbol | string | object | array | binData | objectId
  | dbPointer | bool | date | timestamp | regex | javascript | javascriptWithScope | maxKey
  deriving DecidableEq

def Bracket.rank : Bracket → ℕ
  | minKey => 0 | null => 1 | nan => 2 | number => 3 | symbol => 4 | string => 5 | object => 6
  | array => 7 | binData => 8 | objectId => 9 | dbPointer => 10 | bool => 11 | date => 12
  | timestamp => 13 | regex => 14 | javascript => 15 | javascriptWithScope => 16 | maxKey => 17

theorem Bracket.rank_injective {a b : Bracket} (h : a.rank = b.rank) : a = b := by
  cases a <;> cases b <;> first | rfl | cases h

/-- The bracket a value sorts in. -/
def bracket : Bson → Bracket
  | .double .nan | .decimal128 .nan => .nan
  | .double _ | .int32 _ | .int64 _ | .decimal128 _ => .number
  | .string _ => .string
  | .array _ => .array
  | .document _ => .object
  | .boolean _ => .bool
  | .null | .undefined => .null
  | .objectId _ => .objectId
  | .dateTime _ => .date
  | .regularExpression .. => .regex
  | .binary .. => .binData
  | .timestamp .. => .timestamp
  | .symbol _ => .symbol
  | .javaScriptCode _ => .javascript
  | .javaScriptCodeWithScope .. => .javascriptWithScope
  | .minKey => .minKey
  | .maxKey => .maxKey
  | .dbPointer .. => .dbPointer

/-- The exact numeric position of a number. -/
def numPosition : Bson → ℤ ×ₗ ℚ
  | .double d => d.position
  | .int32 i => toLex (0, (i.toInt : ℚ))
  | .int64 i => toLex (0, (i.toInt : ℚ))
  | .decimal128 d => d.position
  | _ => toLex (0, 0)

/-- The brackets whose members the bracket and the number alone place. -/
def Bracket.isUniform : Bracket → Bool
  | minKey | null | nan | number | maxKey => true
  | _ => false

/-- What the server adds to the documented rules: its order inside a bracket,
and the operators a continuation filter never uses. -/
structure Server (K : Type) [LinearOrder K] where
  /-- The place of a value among those of its bracket. -/
  inner : Bson → K
  /-- `{f: /pattern/options}` against a field. -/
  regexMatch : String → String → Option Bson → Bool
  /-- Any other field operator. -/
  otherOp : String → Bson → Option Bson → Bool
  /-- Any other top-level operator. -/
  otherClause : String → Bson → Document → Bool

/-- A place in the sort order: bracket, number, place inside the bracket. The
bracket ranks are doubled, which leaves a place for the empty array. -/
abbrev SortKey (K : Type) := ℕ ×ₗ ((ℤ ×ₗ ℚ) ×ₗ K)

variable {K : Type} [LinearOrder K] (S : Server K)

/-- `a` comes strictly before `b` in a column of this direction. -/
def Past (asc : Bool) (a b : SortKey K) : Prop := if asc then a < b else b < a

instance (asc : Bool) (a b : SortKey K) : Decidable (Past asc a b) :=
  inferInstanceAs (Decidable (if asc then _ else _))

namespace Server

/-- The place of a value that is compared as a whole. -/
def key (b : Bson) : SortKey K :=
  toLex (2 * (bracket b).rank,
    toLex (numPosition b, if (bracket b).isUniform then S.inner .null else S.inner b))

/-- The place of the empty array, between MinKey and null. -/
def emptyArrayKey : SortKey K := toLex (1, toLex (toLex (0, 0), S.inner .null))

/-- The place of a field in an ascending or descending column. -/
def colKey (asc : Bool) : Option Bson → SortKey K
  | none => S.key .null
  | some (.array []) => S.emptyArrayKey
  | some (.array (x :: xs)) =>
    (xs.map S.key).foldl (fun a b => if asc then min a b else max a b) (S.key x)
  | some v => S.key v

/-- `a` sorts strictly before `b`. -/
def DocLt : List (String × Bool) → Document → Document → Prop
  | [], _, _ => False
  | (f, asc) :: cols, a, b =>
    Past asc (S.colKey asc (a.get f)) (S.colKey asc (b.get f)) ∨
      (S.colKey asc (a.get f) = S.colKey asc (b.get f) ∧ DocLt cols a b)

instance decidableDocLt : (cols : List (String × Bool)) → (a b : Document) →
    Decidable (S.DocLt cols a b)
  | [], _, _ => .isFalse id
  | (_, _) :: cols, a, b =>
    have := decidableDocLt cols a b
    inferInstanceAs (Decidable (_ ∨ (_ ∧ _)))

def DocLe (cols : List (String × Bool)) (a b : Document) : Prop := ¬ S.DocLt cols b a

instance (cols : List (String × Bool)) : DecidableRel (S.DocLe cols) :=
  fun a b => inferInstanceAs (Decidable (¬ S.DocLt cols b a))

/-- A sort document `{f: 1, g: -1}` as columns with their direction. -/
def sortColumns (sort : Document) : List (String × Bool) :=
  sort.map fun p => (p.1, match p.2 with
    | .int32 i => decide (0 < i.toInt)
    | _ => true)

/-- The documents in sort order. -/
def sorted (sort : Document) (docs : List Document) : List Document :=
  docs.insertionSort (S.DocLe (sortColumns sort))

end Server

/-! ## The order of values -/

section
variable {S}

theorem key_lt_of_rank {a b : Bson} (h : (bracket a).rank < (bracket b).rank) :
    S.key a < S.key b := by
  rw [Server.key, Server.key, Prod.Lex.toLex_lt_toLex]
  left
  show 2 * _ < 2 * _
  omega

theorem rank_le_of_key_lt {a b : Bson} (h : S.key a < S.key b) :
    (bracket a).rank ≤ (bracket b).rank := by
  by_contra hc
  exact absurd h (not_lt.mpr (key_lt_of_rank (S := S) (by omega)).le)

theorem bracket_eq_of_key_eq {a b : Bson} (h : S.key a = S.key b) : bracket a = bracket b := by
  have h1 : 2 * (bracket a).rank = 2 * (bracket b).rank := congrArg (fun k => (ofLex k).1) h
  exact Bracket.rank_injective (by omega)

/-- Inside a bracket other than the numbers' whose members all tie. -/
theorem key_eq_of_uniform {a b : Bson} (h : bracket a = bracket b)
    (hu : (bracket a).isUniform) (hn : bracket a ≠ .number) : S.key a = S.key b := by
  have pos : ∀ c : Bson, (bracket c).isUniform → bracket c ≠ .number →
      numPosition c = toLex (0, 0) := by
    intro c hu hn
    cases c with
    | double d => cases d <;> first | rfl | exact absurd rfl hn
    | decimal128 d => cases d <;> first | rfl | exact absurd rfl hn
    | int32 i => exact absurd rfl hn
    | int64 i => exact absurd rfl hn
    | _ => rfl
  rw [Server.key, Server.key, pos a hu hn, pos b (h ▸ hu) (h ▸ hn), h, if_pos (h ▸ hu),
    if_pos (h ▸ hu)]

/-! ## The order of documents -/

theorem past_irrefl (asc : Bool) (a : SortKey K) : ¬ Past asc a a := by
  cases asc <;> simp [Past]

theorem past_trans {asc : Bool} {a b c : SortKey K} (h1 : Past asc a b) (h2 : Past asc b c) :
    Past asc a c := by
  cases asc
  · exact lt_trans (a := c) h2 h1
  · exact lt_trans (a := a) h1 h2

theorem past_trichotomy (asc : Bool) (a b : SortKey K) : Past asc a b ∨ a = b ∨ Past asc b a := by
  cases asc
  · rcases lt_trichotomy a b with h | h | h
    · exact .inr (.inr h)
    · exact .inr (.inl h)
    · exact .inl h
  · exact lt_trichotomy a b

/-- Equal places in every column. -/
def Server.Tie (S : Server K) (cols : List (String × Bool)) (a b : Document) : Prop :=
  ∀ c ∈ cols, S.colKey c.2 (a.get c.1) = S.colKey c.2 (b.get c.1)

variable {cols : List (String × Bool)} {a b c : Document}

theorem Server.Tie.symm (h : S.Tie cols a b) : S.Tie cols b a := fun c hc => (h c hc).symm

theorem docLt_irrefl : ¬ S.DocLt cols a a := by
  induction cols with
  | nil => exact id
  | cons c cols ih =>
    rintro (h | ⟨-, h⟩)
    · exact past_irrefl _ _ h
    · exact ih h

theorem docLt_trans (h1 : S.DocLt cols a b) (h2 : S.DocLt cols b c) : S.DocLt cols a c := by
  induction cols with
  | nil => exact h1
  | cons col cols ih =>
    rcases h1 with h1 | ⟨e1, h1⟩ <;> rcases h2 with h2 | ⟨e2, h2⟩
    · exact .inl (past_trans h1 h2)
    · exact .inl (e2 ▸ h1)
    · exact .inl (e1 ▸ h2)
    · exact .inr ⟨e1.trans e2, ih h1 h2⟩

theorem docLt_trichotomy (cols : List (String × Bool)) (a b : Document) :
    S.DocLt cols a b ∨ S.Tie cols a b ∨ S.DocLt cols b a := by
  induction cols with
  | nil => exact .inr (.inl fun _ h => by cases h)
  | cons col cols ih =>
    rcases past_trichotomy col.2 (S.colKey col.2 (a.get col.1)) (S.colKey col.2 (b.get col.1))
      with h | h | h
    · exact .inl (.inl h)
    · rcases ih with h' | h' | h'
      · exact .inl (.inr ⟨h, h'⟩)
      · exact .inr (.inl (List.forall_mem_cons.mpr ⟨h, h'⟩))
      · exact .inr (.inr (.inr ⟨h.symm, h'⟩))
    · exact .inr (.inr (.inl h))

theorem Server.Tie.docLt (h : S.Tie cols a b) : S.DocLt cols c a ↔ S.DocLt cols c b := by
  induction cols with
  | nil => exact Iff.rfl
  | cons col cols ih =>
    have h0 := h col List.mem_cons_self
    rw [Server.DocLt, Server.DocLt, h0, ih fun c hc => h c (List.mem_cons_of_mem _ hc)]

instance : Std.Total (S.DocLe cols) where
  total a b := by
    by_contra hc
    obtain ⟨h1, h2⟩ := not_or.mp hc
    exact docLt_irrefl (docLt_trans (not_not.mp h1) (not_not.mp h2))

instance : IsTrans Document (S.DocLe cols) where
  trans a b c hab hbc hca := by
    rcases docLt_trichotomy (S := S) cols a b with h | h | h
    · exact hbc (docLt_trans hca h)
    · exact hbc (h.docLt.mp hca)
    · exact hab h

theorem mem_sorted {sort d : Document} {docs : List Document} :
    d ∈ S.sorted sort docs ↔ d ∈ docs :=
  (List.perm_insertionSort _ docs).mem_iff

theorem length_sorted (sort : Document) (docs : List Document) :
    (S.sorted sort docs).length = docs.length :=
  (List.perm_insertionSort _ docs).length_eq

/-- No two documents of the list tie. -/
def Server.Strict (S : Server K) (cols : List (String × Bool)) (docs : List Document) : Prop :=
  docs.Pairwise fun a b => ¬ S.Tie cols a b

/-- With no ties the sorted list is strictly increasing. -/
theorem Server.Strict.pairwise_sorted {sort : Document} {docs : List Document}
    (h : S.Strict (Server.sortColumns sort) docs) :
    (S.sorted sort docs).Pairwise (S.DocLt (Server.sortColumns sort)) := by
  have hs : S.Strict (Server.sortColumns sort) (S.sorted sort docs) :=
    (List.perm_insertionSort _ docs).symm.pairwise h fun hxy hyx => hxy hyx.symm
  have hle := List.pairwise_insertionSort (S.DocLe (Server.sortColumns sort)) docs
  refine (hs.and hle).imp fun {x y} hxy => ?_
  rcases docLt_trichotomy (S := S) (Server.sortColumns sort) x y with h' | h' | h'
  · exact h'
  · exact absurd h' hxy.1
  · exact absurd h' hxy.2

/-- With no ties, sorting and selecting commute. -/
theorem Server.Strict.sorted_filter {sort : Document} {docs : List Document}
    (h : S.Strict (Server.sortColumns sort) docs) (p : Document → Bool) :
    S.sorted sort (docs.filter p) = (S.sorted sort docs).filter p := by
  have hne : ∀ a b, a ∈ S.sorted sort (docs.filter p) → b ∈ (S.sorted sort docs).filter p →
      S.DocLt (Server.sortColumns sort) a b → S.DocLt (Server.sortColumns sort) b a → a = b :=
    fun a b _ _ h1 h2 => (docLt_irrefl (docLt_trans h1 h2)).elim
  refine List.Perm.eq_of_pairwise hne (Server.Strict.pairwise_sorted (h.filter p))
    (h.pairwise_sorted.filter p) ?_
  exact (List.perm_insertionSort _ _).trans ((List.perm_insertionSort _ docs).symm.filter p)

/-- In a strictly increasing list, the documents past one are those after it. -/
theorem filter_docLt_eq {A B : List Document} {p : Document → Bool}
    (h : (A ++ b :: B).Pairwise (S.DocLt cols))
    (hp : ∀ d ∈ A ++ b :: B, p d = true ↔ S.DocLt cols b d) : (A ++ b :: B).filter p = B := by
  obtain ⟨-, hB, hA⟩ := List.pairwise_append.mp h
  obtain ⟨hb, -⟩ := List.pairwise_cons.mp hB
  have hAb : A.filter p = [] := by
    refine List.filter_eq_nil_iff.mpr fun d hd hpd => ?_
    have h1 := (hp d (List.mem_append_left _ hd)).mp hpd
    exact docLt_irrefl (docLt_trans h1 (hA d hd b List.mem_cons_self))
  have hbb : ¬ p b = true := fun hpb =>
    docLt_irrefl ((hp b (List.mem_append_right _ List.mem_cons_self)).mp hpb)
  rw [List.filter_append, hAb, List.nil_append, List.filter_cons_of_neg hbb]
  exact List.filter_eq_self.mpr fun d hd =>
    (hp d (List.mem_append_right _ (List.mem_cons_of_mem _ hd))).mpr (hb d hd)

end

end XavierDB.Mongo
