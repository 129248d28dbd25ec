import Mathlib.Data.List.Nodup
import Mathlib.Data.List.Perm.Subperm
import XavierDB.Bson.Same
import XavierDB.Error

/-!
# Indexes (`src/dbq.rs`)

`ensure_index` against its decision table. The table compares key patterns, the
code compares key documents with `==`, which does not see the order of the
fields, tells the numeric types of a direction apart, and stops at the first
index that it takes for the one asked for.
-/

namespace XavierDB.Dbq

/-- One index as exposed over the API. -/
structure IndexInfo where
  name : String
  keys : Document
  unique : Option Bool
  sparse : Option Bool
  expireAfterSeconds : Option UInt64
  partialFilterExpression : Option Document

/-- What a client asked to ensure. -/
structure IndexSpec where
  keys : Document
  name : Option String
  unique : Option Bool
  sparse : Option Bool
  expireAfterSeconds : Option UInt64
  partialFilterExpression : Option Document

/-- `Created` and `Exists`. -/
inductive EnsureOutcome where
  | created (name : String)
  | present (name : String)

/-- `==` of two partial filters. -/
def samePartial : Option Document → Option Document → Bool
  | none, none => true
  | some d, some d' => d.same d'
  | _, _ => false

/-- `options_match`. -/
def optionsMatch (spec : IndexSpec) (e : IndexInfo) : Bool :=
  spec.unique.getD false == e.unique.getD false &&
    spec.sparse.getD false == e.sparse.getD false &&
    spec.expireAfterSeconds == e.expireAfterSeconds &&
    samePartial spec.partialFilterExpression e.partialFilterExpression

/-- A missing collection has no indexes yet. -/
def existingIndexes (listing : Res (List IndexInfo)) : Res (List IndexInfo) :=
  match listing with
  | .error (.api ⟨.notFound, _⟩) => .ok []
  | r => r

/-- The first index with keys that are `==` to those asked for. -/
def firstEqual (existing : List IndexInfo) (spec : IndexSpec) : Option IndexInfo :=
  existing.find? fun e => e.keys.same spec.keys

/-- The explicit name, where an index has it. -/
def takenName (existing : List IndexInfo) (spec : IndexSpec) : Option String :=
  spec.name.filter fun name => existing.any fun e => e.name == name

/-- `ensure_index`, given what the server lists and what it answers to `createIndex`. -/
def ensureIndex (listing : Res (List IndexInfo)) (createIndex : IndexSpec → Res String)
    (spec : IndexSpec) : Res EnsureOutcome := do
  let existing ← existingIndexes listing
  match firstEqual existing spec with
  | some e =>
    if optionsMatch spec e then .ok (.present e.name)
    else
      Res.err .conflict
        ("index '" ++ e.name ++ "' already exists on the same keys with different options")
  | none =>
    match takenName existing spec with
    | some name =>
      Res.err .conflict ("an index named '" ++ name ++ "' already exists with different keys")
    | none => (createIndex spec).map .created

/-! ## The decision table -/

/-- The sign of a direction `1` or `-1` of any numeric type. -/
def unitDirection : Bson → Option Bool
  | .int32 i => if i = 1 then some true else if i = -1 then some false else none
  | .int64 i => if i = 1 then some true else if i = -1 then some false else none
  | .double d => ofPosition d.position
  | .decimal128 d => ofPosition d.position
  | _ => none
where
  ofPosition (p : ℤ ×ₗ ℚ) : Option Bool :=
    if p = toLex (0, 1) then some true else if p = toLex (0, -1) then some false else none

/-- The same direction or index type. -/
def SameDirection (v v' : Bson) : Prop :=
  (unitDirection v).isSome ∧ unitDirection v = unitDirection v' ∨ v.same v' = true

/-- The same fields in the same order with the same directions or index types. -/
def SamePattern (d d' : Document) : Prop :=
  List.Forall₂ (fun p p' => p.1 = p'.1 ∧ SameDirection p.2 p'.2) d d'

/-- The same fields in any order, each with an equal value of the same type. -/
def EqualFields (d d' : Document) : Prop :=
  d.length = d'.length ∧ ∀ p ∈ d, ∃ v', d'.get p.1 = some v' ∧ p.2.same v' = true

/-- No partial filter on either side, or one with the same fields. -/
def SameFilter : Option Document → Option Document → Prop
  | none, none => True
  | some d, some d' => EqualFields d d'
  | _, _ => False

section Table

variable (listed : Document → Document) (existing : List IndexInfo) (spec : IndexSpec)

/-- The options of the index are those asked for; one that is not given is off. -/
structure SameOptions (e : IndexInfo) : Prop where
  unique : spec.unique = some true ↔ e.unique = some true
  sparse : spec.sparse = some true ↔ e.sparse = some true
  ttl : spec.expireAfterSeconds = e.expireAfterSeconds
  partialFilter : SameFilter spec.partialFilterExpression e.partialFilterExpression

/-- The index has the key pattern and the options that are asked for. -/
structure Answers (e : IndexInfo) : Prop where
  pattern : SamePattern e.keys spec.keys
  options : SameOptions spec e

def NameTaken : Prop := ∃ e ∈ existing, spec.name = some e.name

/-- An index that the server lists once it has built it; `listed` is how it lists its keys. -/
structure Built (name : String) (e : IndexInfo) : Prop where
  name : e.name = name
  keys : e.keys = listed spec.keys
  unique : e.unique.getD false = spec.unique.getD false
  sparse : e.sparse.getD false = spec.sparse.getD false
  ttl : e.expireAfterSeconds = spec.expireAfterSeconds
  partialFilter : e.partialFilterExpression = spec.partialFilterExpression

/-- The decision table, and what an index once ensured answers. -/
structure FollowsTable : Prop where
  present : (∃ e ∈ existing, Answers spec e) → ∀ createIndex,
    ∃ e ∈ existing, Answers spec e ∧
      ensureIndex (.ok existing) createIndex spec = .ok (.present e.name)
  conflict : (∀ e ∈ existing, ¬Answers spec e) →
    (∃ e ∈ existing, SamePattern e.keys spec.keys) ∨ NameTaken existing spec → ∀ createIndex,
    ∃ message, ensureIndex (.ok existing) createIndex spec = Res.err .conflict message
  create : (∀ e ∈ existing, ¬SamePattern e.keys spec.keys) → ¬NameTaken existing spec →
    ∀ createIndex,
    ensureIndex (.ok existing) createIndex spec = (createIndex spec).map .created
  again : ∀ createIndex createIndex' name e existing',
    ensureIndex (.ok existing) createIndex spec = .ok (.created name) → Built listed spec name e →
    existing'.Perm (e :: existing) →
    ensureIndex (.ok existing') createIndex' spec = .ok (.present name)
  still : ∀ createIndex createIndex' name,
    ensureIndex (.ok existing) createIndex spec = .ok (.present name) →
    ensureIndex (.ok existing) createIndex' spec = .ok (.present name)

/-- The first index on the fields asked for, in any order. -/
def FirstOnFields (e : IndexInfo) : Prop :=
  ∃ before after, existing = before ++ e :: after ∧ EqualFields e.keys spec.keys ∧
    ∀ x ∈ before, ¬EqualFields x.keys spec.keys

/-- What the existing indexes must not be.

* `reordered`: an index on the fields in another order, with the options asked for, is not
  the first on them, unless another index of its name is the one asked for;
* `standing`: nor is one with other options, where no index has the pattern and the name is free;
* `hidden`: no index asked for stands behind one on its fields with other options;
* `retyped`: where no index is on the fields, none has the pattern, with directions of other
  numeric types, unless it has other options and the explicit name is taken;
* `listed`: what is built is listed with the fields and the filter asked for. -/
structure Discerned : Prop where
  reordered : ∀ e, FirstOnFields existing spec e → SameOptions spec e →
    ¬SamePattern e.keys spec.keys → ∃ e' ∈ existing, Answers spec e' ∧ e'.name = e.name
  standing : ∀ e, FirstOnFields existing spec e → ¬SameOptions spec e →
    (∃ e' ∈ existing, SamePattern e'.keys spec.keys) ∨ NameTaken existing spec
  hidden : ∀ e, FirstOnFields existing spec e → ¬SameOptions spec e →
    ∀ e' ∈ existing, SamePattern e'.keys spec.keys → ¬SameOptions spec e'
  retyped : (∀ e ∈ existing, ¬EqualFields e.keys spec.keys) →
    ∀ e ∈ existing, SamePattern e.keys spec.keys → ¬SameOptions spec e ∧ NameTaken existing spec
  listed : (∀ e ∈ existing, ¬EqualFields e.keys spec.keys) → ¬NameTaken existing spec →
    EqualFields (listed spec.keys) spec.keys ∧
      SameFilter spec.partialFilterExpression spec.partialFilterExpression

end Table

/-! ## What `ensure_index` answers -/

variable {listed : Document → Document} {existing existing' : List IndexInfo} {spec : IndexSpec}
  {createIndex : IndexSpec → Res String} {e : IndexInfo} {name : String}

theorem getD_false_eq_iff {o o' : Option Bool} :
    o.getD false = o'.getD false ↔ (o = some true ↔ o' = some true) := by
  cases o with
  | none => cases o' with
    | none => simp
    | some b => cases b <;> simp
  | some b => cases o' with
    | none => cases b <;> simp
    | some b' => cases b <;> cases b' <;> simp

theorem samePartial_iff {o o' : Option Document} : samePartial o o' = true ↔ SameFilter o o' := by
  cases o <;> cases o' <;> simp [samePartial, SameFilter, EqualFields, Document.same_iff]

theorem optionsMatch_iff : optionsMatch spec e = true ↔ SameOptions spec e := by
  simp only [optionsMatch, Bool.and_eq_true, beq_iff_eq, getD_false_eq_iff, samePartial_iff]
  exact ⟨fun ⟨⟨⟨hu, hs⟩, ht⟩, hf⟩ => ⟨hu, hs, ht, hf⟩,
    fun ⟨hu, hs, ht, hf⟩ => ⟨⟨⟨hu, hs⟩, ht⟩, hf⟩⟩

theorem optionsMatch_eq_false_iff : optionsMatch spec e = false ↔ ¬SameOptions spec e := by
  rw [← optionsMatch_iff, Bool.not_eq_true]

theorem firstEqual_eq_some_iff : firstEqual existing spec = some e ↔
    FirstOnFields existing spec e := by
  simp only [firstEqual, FirstOnFields, List.find?_eq_some_iff_append, Bool.not_eq_true',
    ← Bool.not_eq_true, Document.same_iff, EqualFields]
  constructor
  · rintro ⟨hsame, before, after, hsplit, hbefore⟩
    exact ⟨before, after, hsplit, hsame, hbefore⟩
  · rintro ⟨before, after, hsplit, hsame, hbefore⟩
    exact ⟨hsame, before, after, hsplit, hbefore⟩

theorem firstEqual_eq_none_iff : firstEqual existing spec = none ↔
    ∀ e ∈ existing, ¬EqualFields e.keys spec.keys := by
  simp only [firstEqual, List.find?_eq_none, Document.same_iff, EqualFields]

theorem firstEqual_some (h : firstEqual existing spec = some e) :
    e ∈ existing ∧ e.keys.same spec.keys = true := by
  unfold firstEqual at h
  have hsame := List.find?_some h
  exact ⟨List.mem_of_find?_eq_some h, hsame⟩

theorem firstEqual_none (h : firstEqual existing spec = none) :
    ∀ x ∈ existing, ¬x.keys.same spec.keys = true := List.find?_eq_none.mp h

theorem takenName_isSome : (takenName existing spec).isSome ↔ NameTaken existing spec := by
  rw [takenName, Option.isSome_iff_exists]
  constructor
  · rintro ⟨name, h⟩
    obtain ⟨hname, hany⟩ := Option.filter_eq_some_iff.mp h
    obtain ⟨e, he, heq⟩ := List.any_eq_true.mp hany
    exact ⟨e, he, by rw [hname, beq_iff_eq.mp heq]⟩
  · rintro ⟨e, he, hname⟩
    refine ⟨e.name, Option.filter_eq_some_iff.mpr ⟨hname, ?_⟩⟩
    exact List.any_eq_true.mpr ⟨e, he, beq_self_eq_true _⟩

theorem ensureIndex_present (h : firstEqual existing spec = some e)
    (ho : optionsMatch spec e = true) :
    ensureIndex (.ok existing) createIndex spec = .ok (.present e.name) := by
  simp only [ensureIndex, existingIndexes, bind, Except.bind, h, ho]
  rfl

theorem ensureIndex_conflict (h : firstEqual existing spec = some e)
    (ho : optionsMatch spec e = false) :
    ensureIndex (.ok existing) createIndex spec = Res.err .conflict
      ("index '" ++ e.name ++ "' already exists on the same keys with different options") := by
  simp only [ensureIndex, existingIndexes, bind, Except.bind, h, ho]
  rfl

theorem ensureIndex_taken (h : firstEqual existing spec = none)
    (ht : takenName existing spec = some name) :
    ensureIndex (.ok existing) createIndex spec = Res.err .conflict
      ("an index named '" ++ name ++ "' already exists with different keys") := by
  simp only [ensureIndex, existingIndexes, bind, Except.bind, h, ht]

theorem ensureIndex_create (h : firstEqual existing spec = none)
    (ht : ¬NameTaken existing spec) :
    ensureIndex (.ok existing) createIndex spec = (createIndex spec).map .created := by
  have hnone : takenName existing spec = none := by
    rw [← Option.not_isSome_iff_eq_none, takenName_isSome]
    exact ht
  simp only [ensureIndex, existingIndexes, bind, Except.bind, h, hnone]

theorem map_created_ne {r : Res String} :
    r.map EnsureOutcome.created ≠ .ok (.present name) := by
  cases r <;> rintro ⟨⟩

theorem conflict_of_taken (h : firstEqual existing spec = none) (ht : NameTaken existing spec) :
    ∃ message, ensureIndex (.ok existing) createIndex spec = Res.err .conflict message := by
  obtain ⟨name, hname⟩ := Option.isSome_iff_exists.mp (takenName_isSome.mpr ht)
  exact ⟨_, ensureIndex_taken h hname⟩

/-- An index is found as it is answered. -/
theorem exists_of_present
    (h : ensureIndex (.ok existing) createIndex spec = .ok (.present name)) :
    ∃ e, firstEqual existing spec = some e ∧ optionsMatch spec e = true ∧ e.name = name := by
  cases hf : firstEqual existing spec with
  | none =>
    by_cases ht : NameTaken existing spec
    · obtain ⟨message, hm⟩ := @conflict_of_taken _ _ createIndex hf ht
      rw [hm] at h
      cases h
    · rw [ensureIndex_create hf ht] at h
      exact absurd h map_created_ne
  | some e =>
    cases ho : optionsMatch spec e with
    | false =>
      rw [ensureIndex_conflict hf ho] at h
      cases h
    | true =>
      rw [ensureIndex_present hf ho] at h
      exact ⟨e, rfl, ho, EnsureOutcome.present.inj (Except.ok.inj h)⟩

/-- Only where nothing is found an index is built. -/
theorem of_created (h : ensureIndex (.ok existing) createIndex spec = .ok (.created name)) :
    firstEqual existing spec = none ∧ ¬NameTaken existing spec := by
  cases hf : firstEqual existing spec with
  | none =>
    refine ⟨rfl, fun ht => ?_⟩
    obtain ⟨message, hm⟩ := @conflict_of_taken _ _ createIndex hf ht
    rw [hm] at h
    cases h
  | some e =>
    cases ho : optionsMatch spec e with
    | false =>
      rw [ensureIndex_conflict hf ho] at h
      cases h
    | true =>
      rw [ensureIndex_present hf ho] at h
      cases h

/-! ## An index that was built -/

theorem optionsMatch_built (h : Built listed spec name e) : optionsMatch spec e = true ↔
    SameFilter spec.partialFilterExpression spec.partialFilterExpression := by
  simp [optionsMatch, h.unique, h.sparse, h.ttl, h.partialFilter, samePartial_iff]

/-- Beside indexes with other keys it is the first with equal keys, if its own are. -/
theorem firstEqual_built (hf : firstEqual existing spec = none)
    (hperm : existing'.Perm (e :: existing)) :
    firstEqual existing' spec = if e.keys.same spec.keys then some e else none := by
  have hothers := firstEqual_none hf
  split
  case isTrue hsame =>
    cases hx : firstEqual existing' spec with
    | none => exact absurd hsame (firstEqual_none hx e (hperm.mem_iff.mpr List.mem_cons_self))
    | some x =>
      obtain rfl | hmem := List.mem_cons.mp (hperm.mem_iff.mp (firstEqual_some hx).1)
      · rfl
      · exact absurd (firstEqual_some hx).2 (hothers x hmem)
  case isFalse hsame =>
    refine List.find?_eq_none.mpr fun x hx => ?_
    obtain rfl | hmem := List.mem_cons.mp (hperm.mem_iff.mp hx)
    · exact hsame
    · exact hothers x hmem

/-- Repeating finds the index exactly if keys and filter are listed as they were asked for. -/
theorem again_iff (hf : firstEqual existing spec = none) (hb : Built listed spec name e)
    (hperm : existing'.Perm (e :: existing)) :
    ensureIndex (.ok existing') createIndex spec = .ok (.present name) ↔
      EqualFields (listed spec.keys) spec.keys ∧
        SameFilter spec.partialFilterExpression spec.partialFilterExpression := by
  have hfirst := firstEqual_built hf hperm
  rw [hb.keys] at hfirst
  rw [← optionsMatch_built hb, EqualFields, ← Document.same_iff]
  constructor
  · intro h
    obtain ⟨x, hx, ho, -⟩ := exists_of_present h
    rw [hx] at hfirst
    obtain ⟨hsame, heq⟩ := Option.ite_none_right_eq_some.mp hfirst.symm
    obtain rfl := Option.some.inj heq
    exact ⟨hsame, ho⟩
  · rintro ⟨hsame, ho⟩
    rw [if_pos hsame] at hfirst
    rw [ensureIndex_present hfirst ho, hb.name]

/-- An index as the server builds it. -/
def builtAs (listed : Document → Document) (spec : IndexSpec) (name : String) : IndexInfo :=
  ⟨name, listed spec.keys, spec.unique, spec.sparse, spec.expireAfterSeconds,
    spec.partialFilterExpression⟩

theorem built_builtAs : Built listed spec name (builtAs listed spec name) :=
  ⟨rfl, rfl, rfl, rfl, rfl, rfl⟩

/-! ## Where the table is followed -/

theorem FollowsTable.not_present (h : FollowsTable listed existing spec)
    (hnone : ∀ e ∈ existing, ¬Answers spec e) :
    ensureIndex (.ok existing) createIndex spec ≠ .ok (.present name) := by
  intro hans
  by_cases hwhy : (∃ e ∈ existing, SamePattern e.keys spec.keys) ∨ NameTaken existing spec
  · obtain ⟨message, hm⟩ := h.conflict hnone hwhy createIndex
    rw [hm] at hans
    cases hans
  · rw [not_or] at hwhy
    rw [h.create (fun e he hs => hwhy.1 ⟨e, he, hs⟩) hwhy.2] at hans
    exact map_created_ne hans

theorem FollowsTable.discerned (h : FollowsTable listed existing spec) :
    Discerned listed existing spec where
  reordered e hfirst ho hpat := by
    have hans := @ensureIndex_present _ _ (fun _ => .error .panic) _
      (firstEqual_eq_some_iff.mpr hfirst) (optionsMatch_iff.mpr ho)
    by_cases hasked : ∃ e' ∈ existing, Answers spec e'
    · obtain ⟨e', he', ha, hans'⟩ := h.present hasked fun _ => .error .panic
      rw [hans] at hans'
      exact ⟨e', he', ha, (EnsureOutcome.present.inj (Except.ok.inj hans')).symm⟩
    · exact absurd hans (h.not_present fun e' he' ha => hasked ⟨e', he', ha⟩)
  standing e hfirst ho := by
    by_contra hneither
    rw [not_or] at hneither
    have hans := h.create (fun e' he' hs => hneither.1 ⟨e', he', hs⟩) hneither.2 fun _ => .ok ""
    rw [ensureIndex_conflict (firstEqual_eq_some_iff.mpr hfirst)
      (optionsMatch_eq_false_iff.mpr ho)] at hans
    cases hans
  hidden e hfirst ho e' he' hs ho' := by
    obtain ⟨_, -, -, hans⟩ := h.present ⟨e', he', hs, ho'⟩ fun _ => .error .panic
    rw [ensureIndex_conflict (firstEqual_eq_some_iff.mpr hfirst)
      (optionsMatch_eq_false_iff.mpr ho)] at hans
    cases hans
  retyped hnone e he hs := by
    have hf := firstEqual_eq_none_iff.mpr hnone
    have hnot : ∀ x ∈ existing, ¬Answers spec x := by
      intro x hx ha
      obtain ⟨_, -, -, hans⟩ := h.present ⟨x, hx, ha⟩ fun _ => .error .panic
      obtain ⟨e₁, hf₁, -⟩ := exists_of_present hans
      rw [hf] at hf₁
      cases hf₁
    refine ⟨fun ho => hnot e he ⟨hs, ho⟩, ?_⟩
    by_contra hfree
    obtain ⟨message, hm⟩ := h.conflict hnot (.inl ⟨e, he, hs⟩) fun _ => .ok ""
    rw [ensureIndex_create hf hfree] at hm
    cases hm
  listed hnone hfree := by
    have hf := firstEqual_eq_none_iff.mpr hnone
    have hcreate := @ensureIndex_create _ _ (fun _ => .ok "") hf hfree
    exact (again_iff hf built_builtAs (.refl _)).mp
      (h.again _ (fun _ => .ok "") _ _ _ hcreate built_builtAs (.refl _))

/-- An index that is met first with the options asked for is the one asked for, or has its name. -/
theorem Discerned.asked (h : Discerned listed existing spec)
    (hfirst : FirstOnFields existing spec e) (ho : SameOptions spec e) :
    ∃ e' ∈ existing, Answers spec e' ∧ e'.name = e.name := by
  by_cases hpat : SamePattern e.keys spec.keys
  · exact ⟨e, (firstEqual_some (firstEqual_eq_some_iff.mpr hfirst)).1, ⟨hpat, ho⟩, rfl⟩
  · exact h.reordered e hfirst ho hpat

theorem Discerned.followsTable (h : Discerned listed existing spec) :
    FollowsTable listed existing spec where
  present := by
    rintro ⟨e, he, ha⟩ createIndex
    cases hf : firstEqual existing spec with
    | none => exact absurd ha.options (h.retyped (firstEqual_eq_none_iff.mp hf) e he ha.pattern).1
    | some e₁ =>
      have hfirst := firstEqual_eq_some_iff.mp hf
      by_cases ho : SameOptions spec e₁
      · obtain ⟨e', he', ha', hname⟩ := h.asked hfirst ho
        exact ⟨e', he', ha', by rw [ensureIndex_present hf (optionsMatch_iff.mpr ho), hname]⟩
      · exact absurd ha.options (h.hidden e₁ hfirst ho e he ha.pattern)
  conflict hnone hwhy createIndex := by
    cases hf : firstEqual existing spec with
    | none =>
      by_cases ht : NameTaken existing spec
      · exact conflict_of_taken hf ht
      · obtain ⟨e, he, hs⟩ := hwhy.resolve_right ht
        exact absurd (h.retyped (firstEqual_eq_none_iff.mp hf) e he hs).2 ht
    | some e₁ =>
      have ho : ¬SameOptions spec e₁ := fun ho =>
        have ⟨e', he', ha, _⟩ := h.asked (firstEqual_eq_some_iff.mp hf) ho
        hnone e' he' ha
      exact ⟨_, ensureIndex_conflict hf (optionsMatch_eq_false_iff.mpr ho)⟩
  create hpat hfree createIndex := by
    cases hf : firstEqual existing spec with
    | none => exact ensureIndex_create hf hfree
    | some e₁ =>
      have hfirst := firstEqual_eq_some_iff.mp hf
      by_cases ho : SameOptions spec e₁
      · obtain ⟨e', he', ha, -⟩ := h.asked hfirst ho
        exact absurd ha.pattern (hpat e' he')
      · obtain ⟨e', he', hs⟩ := (h.standing e₁ hfirst ho).resolve_right hfree
        exact absurd hs (hpat e' he')
  again createIndex createIndex' name e existing' hcreated hb hperm := by
    obtain ⟨hf, hfree⟩ := of_created hcreated
    exact (again_iff hf hb hperm).mpr (h.listed (firstEqual_eq_none_iff.mp hf) hfree)
  still createIndex createIndex' name hpresent := by
    obtain ⟨e₁, hf, ho, rfl⟩ := exists_of_present hpresent
    exact ensureIndex_present hf ho

/-- **`ensure_index` follows its decision table** exactly where no index on the same
fields in another order, with directions of other numeric types or with other options
comes between. -/
theorem followsTable_iff (listed : Document → Document) (existing : List IndexInfo)
    (spec : IndexSpec) : FollowsTable listed existing spec ↔ Discerned listed existing spec :=
  ⟨fun h => h.discerned, fun h => h.followsTable⟩

/-- Two indexes on the same fields, of which the code takes one for the other. -/
def reorderedIndex : IndexInfo :=
  ⟨"b_1_a_1", [("b", .int64 1), ("a", .int64 1)], none, none, none, none⟩

def compoundSpec : IndexSpec := ⟨[("a", .int64 1), ("b", .int64 1)], none, none, none, none, none⟩

theorem followsTable_reordered :
    (∀ createIndex, ensureIndex (.ok [reorderedIndex]) createIndex compoundSpec =
      .ok (.present "b_1_a_1")) ∧
      ¬FollowsTable id [reorderedIndex] compoundSpec := by
  have hfirst : firstEqual [reorderedIndex] compoundSpec = some reorderedIndex := rfl
  have hpresent : ∀ createIndex, ensureIndex (.ok [reorderedIndex]) createIndex compoundSpec =
      .ok (.present "b_1_a_1") := fun _ => ensureIndex_present hfirst rfl
  have hpattern : ∀ e ∈ [reorderedIndex], ¬SamePattern e.keys compoundSpec.keys := by
    intro e he hs
    obtain rfl := List.mem_singleton.mp he
    cases hs with
    | cons h _ => exact absurd h.1 (by decide)
  have hfree : ¬NameTaken [reorderedIndex] compoundSpec := by
    rintro ⟨e, -, hname⟩
    cases hname
  refine ⟨hpresent, fun h => ?_⟩
  have hcreate := h.create hpattern hfree fun _ => .ok ""
  rw [hpresent] at hcreate
  cases hcreate

/-! ## Where `==` and the pattern agree -/

/-- A direction as the API stores it. -/
def IsStored (v : Bson) : Prop := (∃ i, v = .int64 i) ∨ ∃ s, v = .string s

theorem sameDirection_iff {v v' : Bson} (h : IsStored v) (h' : IsStored v') :
    SameDirection v v' ↔ v.same v' = true := by
  refine or_iff_right_of_imp fun ⟨hsome, heq⟩ => ?_
  obtain ⟨i, rfl⟩ | ⟨s, rfl⟩ := h
  · obtain ⟨j, rfl⟩ | ⟨s, rfl⟩ := h'
    · simp only [unitDirection] at hsome heq
      have hij : i = j := by grind
      exact beq_iff_eq.mpr hij
    · rw [heq] at hsome
      cases hsome
  · cases hsome

/-- Fields in the same order with directions as the API stores them: then `==` is
the comparison of patterns. -/
theorem equalFields_iff_samePattern {d d' : Document} (hfields : d.map Prod.fst = d'.map Prod.fst)
    (hd : (d'.map Prod.fst).Nodup) (hstored : ∀ p ∈ d ++ d', IsStored p.2) :
    EqualFields d d' ↔ SamePattern d d' := by
  have hzip : List.Forall₂ (fun p p' : String × Bson => p.1 = p'.1) d d' := by
    rw [← List.forall₂_eq_eq_eq, List.forall₂_map_left_iff, List.forall₂_map_right_iff] at hfields
    exact hfields
  obtain ⟨hlen, hfst⟩ := List.forall₂_iff_zip.mp hzip
  -- the field of the other document is the one at the same place
  have hget : ∀ {p p'}, (p, p') ∈ d.zip d' → d'.get p.1 = some p'.2 := fun hp => by
    rw [hfst hp]
    exact Document.get_of_mem hd (List.of_mem_zip hp).2
  have hdir : ∀ {p p'}, (p, p') ∈ d.zip d' → (SameDirection p.2 p'.2 ↔ p.2.same p'.2 = true) :=
    fun hp => sameDirection_iff (hstored _ (List.mem_append_left _ (List.of_mem_zip hp).1))
      (hstored _ (List.mem_append_right _ (List.of_mem_zip hp).2))
  rw [SamePattern, List.forall₂_iff_zip, EqualFields]
  constructor
  · rintro ⟨-, hall⟩
    refine ⟨hlen, fun hp => ⟨hfst hp, (hdir hp).mpr ?_⟩⟩
    obtain ⟨v', hv', hsame⟩ := hall _ (List.of_mem_zip hp).1
    rw [hget hp] at hv'
    rwa [Option.some.inj hv']
  · rintro ⟨-, hall⟩
    refine ⟨hlen, fun p hp => ?_⟩
    rw [← List.map_fst_zip hlen.le] at hp
    obtain ⟨⟨p, p'⟩, hmem, rfl⟩ := List.mem_map.mp hp
    exact ⟨p'.2, hget hmem, (hdir hmem).mp (hall hmem).2⟩

/-- Of such keys, the same fields in any order are a permutation. -/
theorem equalFields_iff_perm {d d' : Document} (hd : (d.map Prod.fst).Nodup)
    (hd' : (d'.map Prod.fst).Nodup) (hstored : ∀ p ∈ d, IsStored p.2) :
    EqualFields d d' ↔ d.Perm d' := by
  have heq : ∀ {v v' : Bson}, IsStored v → (v.same v' = true ↔ v = v') := by
    rintro v v' (⟨i, rfl⟩ | ⟨t, rfl⟩) <;> cases v' <;> simp [Bson.same]
  constructor
  · rintro ⟨hlen, hall⟩
    have hsub : d ⊆ d' := by
      intro p hp
      obtain ⟨v', hget, hsame⟩ := hall p hp
      rw [← (heq (hstored p hp)).mp hsame] at hget
      exact Document.mem_of_get hget
    exact (List.subperm_of_subset (List.Nodup.of_map _ hd) hsub).perm_of_length_le hlen.ge
  · intro hperm
    refine ⟨hperm.length_eq, fun p hp => ⟨p.2, ?_, (heq (hstored p hp)).mpr rfl⟩⟩
    exact Document.get_of_mem hd' (hperm.subset hp)

/-- With keys that agree, one index for each pattern and nothing that differs from
itself, the indexes are told apart. -/
theorem discerned_of_agree
    (hagree : ∀ e ∈ existing, EqualFields e.keys spec.keys ↔ SamePattern e.keys spec.keys)
    (hone : ∀ e ∈ existing, ∀ e' ∈ existing, SamePattern e.keys spec.keys →
      SamePattern e'.keys spec.keys → e = e')
    (hlisted : EqualFields (listed spec.keys) spec.keys)
    (hfilter : SameFilter spec.partialFilterExpression spec.partialFilterExpression) :
    Discerned listed existing spec := by
  have hfirst {e} (h : FirstOnFields existing spec e) :
      e ∈ existing ∧ SamePattern e.keys spec.keys := by
    obtain ⟨before, after, hsplit, hequal, -⟩ := h
    have he : e ∈ existing := hsplit ▸ List.mem_append_right _ List.mem_cons_self
    exact ⟨he, (hagree e he).mp hequal⟩
  constructor
  case reordered => exact fun e h _ hpat => absurd (hfirst h).2 hpat
  case standing => exact fun e h _ => .inl ⟨e, hfirst h⟩
  case hidden =>
    intro e h ho e' he' hs
    obtain ⟨he, hpat⟩ := hfirst h
    rwa [← hone e he e' he' hpat hs]
  case retyped => exact fun hnone e he hs => absurd ((hagree e he).mpr hs) (hnone e he)
  case listed => exact fun _ _ => ⟨hlisted, hfilter⟩

end XavierDB.Dbq
