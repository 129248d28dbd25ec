import Mathlib.Data.List.Sort
import XavierDB.Base.Text
import XavierDB.Dbq.Faithful
import XavierDB.Dbq.Page

/-!
# Projections (`src/dbq.rs`)

What a client asks to see, the projection that goes to MongoDB, which also keeps
what the keyset needs, and the fields stripped from the answer.
-/

namespace XavierDB.Dbq

/-- `Include` and `Exclude`. -/
inductive ProjectionStyle where
  | incl
  | excl
  deriving DecidableEq, Repr

/-- `BTreeSet::insert`. -/
def setInsert (f : String) (s : List String) : List String :=
  if f ∈ s then s else s.orderedInsert (· ≤ ·) f

theorem mem_setInsert {f k : String} {s : List String} : k ∈ setInsert f s ↔ k = f ∨ k ∈ s := by
  unfold setInsert
  split
  case isTrue hf => exact ⟨.inr, fun h => h.elim (fun hk => hk ▸ hf) id⟩
  case isFalse => exact List.mem_orderedInsert (· ≤ ·)

/-- `fields` in order, without repetitions. -/
structure Projection where
  style : ProjectionStyle
  fields : List String
  excludeId : Bool
  includeId : Bool

/-! ## Parsing -/

/-- The variables of the loop of `parse_projection`. -/
structure ProjectionState where
  style : Option ProjectionStyle
  fields : List String
  excludeId : Bool
  includeId : Bool

def ProjectionState.init : ProjectionState := ⟨none, [], false, false⟩

/-- Whether an entry includes its field. -/
def projectionValue : Json → Option Bool
  | .bool b => some b
  | .number n =>
    if n.asI64 = some 1 then some true else if n.asI64 = some 0 then some false else none
  | _ => none

def ProjectionStyle.of (incl : Bool) : ProjectionStyle := if incl then .incl else .excl

/-- One turn of the loop of `parse_projection`. -/
def projectionEntry (s : ProjectionState) (p : String × Json) : Res ProjectionState :=
  if p.1.toList.contains '.' then
    Res.err .invalidProjection "projection of nested fields (dotted keys) is not supported"
  else if isOperatorKey p.1 then
    Res.err .invalidProjection ("projection operator " ++ debugStr p.1 ++ " is not supported")
  else match projectionValue p.2 with
    | none => Res.err .invalidProjection "projection values must be 0, 1, true or false"
    | some incl =>
      if p.1 = "_id" then
        .ok (if incl then { s with includeId := true } else { s with excludeId := true })
      else if s.style.getD (.of incl) = .of incl then
        .ok { s with style := some (.of incl), fields := setInsert p.1 s.fields }
      else
        Res.err .invalidProjection "cannot mix inclusion and exclusion in a projection (except _id)"

/-- With `_id` keys only, `{_id:0}` means everything but `_id`. -/
def ProjectionState.projection (s : ProjectionState) : Projection :=
  ⟨s.style.getD (if s.excludeId then .excl else .incl), s.fields, s.excludeId, s.includeId⟩

/-- `parse_projection`. -/
def parseProjection : Json → Res (Option Projection)
  | .object m =>
    if m.isEmpty then .ok none
    else do
      let s ← m.foldlM projectionEntry .init
      pure (some s.projection)
  | _ => Res.err .invalidProjection "projection must be a JSON object"

/-! ## The two projections -/

/-- `Document::remove`. -/
def removeField (d : Document) (f : String) : Document := d.filter fun p => p.1 != f

def sortFields (sort : SortKeys) : List String := (sort.map Prod.fst).filter (· != "_id")

/-- `projection_document`. -/
def projectionDocument (proj : Option Projection) (sort : SortKeys) : Option Document :=
  match proj with
  | none => none
  | some proj =>
    match proj.style with
    | .incl =>
      let d : Document := proj.fields.foldl (fun d f => Document.insert d f (.int32 1)) []
      let d : Document := (sortFields sort).foldl (fun d f => Document.insert d f (.int32 1)) d
      some (Document.insert d "_id" (.int32 1))
    | .excl =>
      let d : Document := proj.fields.foldl (fun d f => Document.insert d f (.int32 0)) []
      let d := removeField ((sortFields sort).foldl removeField d) "_id"
      if d.isEmpty then none else some d

/-- `projection_strip_fields`. -/
def projectionStripFields (proj : Option Projection) (sort : SortKeys) : List String :=
  match proj with
  | none => []
  | some proj =>
    match proj.style with
    | .incl =>
      let strip := (sortFields sort).foldl
        (fun strip f => if f ∈ proj.fields then strip else setInsert f strip) []
      if proj.includeId then strip else setInsert "_id" strip
    | .excl => if proj.excludeId then setInsert "_id" proj.fields else proj.fields

/-- `bson_to_json_projected`. -/
def bsonToJsonProjected (T : TextForms) (doc : Document) (strip : List String) : Json :=
  .object (documentToJson T (doc.filter fun p => !strip.contains p.1))

/-! ## What MongoDB makes of a projection -/

def isOne : Bson → Bool
  | .int32 i => i == 1
  | _ => false

/-- With a `1` in the projection the fields that it names are kept, else they are dropped. -/
def mongoKeeps (projection : Option Document) (k : String) : Bool :=
  match projection with
  | none => true
  | some d => (d.get k).isSome == d.any fun q => isOne q.2

/-- MongoDB's projection of top-level fields. -/
def mongoProject (projection : Option Document) (doc : Document) : Document :=
  doc.filter fun p => mongoKeeps projection p.1

/-! ## What the client asked for -/

section Requested

variable (m : List (String × Json))

/-- The field is asked for with that value. -/
def asks (k : String) (incl : Bool) : Bool :=
  m.any fun p => p.1 == k && projectionValue p.2 == some incl

/-- Some field other than `_id` is. -/
def asksField (incl : Bool) : Bool :=
  m.any fun p => p.1 != "_id" && projectionValue p.2 == some incl

/-- The projection lists what is wanted. -/
def includes : Bool := asksField m true || !(asksField m false || asks m "_id" false)

/-- The fields that the client wants to see. -/
def requested (k : String) : Bool :=
  if m.isEmpty then true else if includes m then asks m k true else !asks m k false

end Requested

variable {m : List (String × Json)} {s s' : ProjectionState} {p : String × Json} {k : String}
  {incl : Bool}

theorem asks_snoc : asks (m ++ [p]) k incl =
    (asks m k incl || (p.1 == k && projectionValue p.2 == some incl)) := by
  rw [asks, List.any_append, List.any_cons, List.any_nil, Bool.or_false]
  rfl

theorem asksField_snoc : asksField (m ++ [p]) incl =
    (asksField m incl || (p.1 != "_id" && projectionValue p.2 == some incl)) := by
  rw [asksField, List.any_append, List.any_cons, List.any_nil, Bool.or_false]
  rfl

theorem asksField_of_asks (hk : k ≠ "_id") (h : asks m k incl = true) :
    asksField m incl = true := by
  obtain ⟨q, hq, hp⟩ := List.any_eq_true.mp h
  rw [Bool.and_eq_true, beq_iff_eq] at hp
  refine List.any_eq_true.mpr ⟨q, hq, ?_⟩
  rw [hp.2, hp.1, Bool.and_true]
  exact bne_iff_ne.mpr hk

theorem ProjectionStyle.of_injective {b b' : Bool} (h : ProjectionStyle.of b = .of b') :
    b = b' := by
  cases b <;> cases b' <;> first | rfl | cases h

/-! ## What is parsed -/

/-- The state of the loop past the entries `m`. -/
structure Parsed (m : List (String × Json)) (s : ProjectionState) : Prop where
  fields : ∀ k, k ∈ s.fields ↔ k ≠ "_id" ∧ ∃ incl, asks m k incl = true
  style : ∀ incl, asksField m incl = true ↔ s.style = some (.of incl)
  excludeId : s.excludeId = asks m "_id" false
  includeId : s.includeId = asks m "_id" true

theorem parsed_nil : Parsed [] .init := by
  refine ⟨fun k => ?_, fun incl => ?_, rfl, rfl⟩
  · exact iff_of_false List.not_mem_nil fun ⟨_, _, h⟩ => Bool.false_ne_true h
  · exact iff_of_false Bool.false_ne_true fun h => by cases h

/-- An entry that is accepted: of `_id`, or of the style of the others. -/
theorem projectionEntry_ok (h : projectionEntry s p = .ok s') :
    ∃ incl, projectionValue p.2 = some incl ∧
      ((p.1 = "_id" ∧
          s' = if incl then { s with includeId := true } else { s with excludeId := true }) ∨
        (p.1 ≠ "_id" ∧ s.style.getD (.of incl) = .of incl ∧
          s' = { s with style := some (.of incl), fields := setInsert p.1 s.fields })) := by
  unfold projectionEntry at h
  split at h
  case isTrue => cases h
  case isFalse =>
    split at h
    case isTrue => cases h
    case isFalse =>
      cases hv : projectionValue p.2 with
      | none =>
        rw [hv] at h
        cases h
      | some incl =>
        rw [hv] at h
        dsimp only at h
        refine ⟨incl, rfl, ?_⟩
        split at h
        case isTrue hid => exact .inl ⟨hid, (Except.ok.inj h).symm⟩
        case isFalse hid =>
          split at h
          case isTrue hstyle => exact .inr ⟨hid, hstyle, (Except.ok.inj h).symm⟩
          case isFalse => cases h

/-- An entry for `_id` sets its flag. -/
theorem Parsed.entry_id {incl : Bool} (hs : Parsed m s) (hv : projectionValue p.2 = some incl)
    (hid : p.1 = "_id") :
    Parsed (m ++ [p])
      (if incl then { s with includeId := true } else { s with excludeId := true }) := by
  have hothers : ∀ k, k ≠ "_id" → ∀ b, asks (m ++ [p]) k b = asks m k b := fun k hk b => by
    rw [asks_snoc, hid, beq_eq_false_iff_ne.mpr hk.symm, Bool.false_and, Bool.or_false]
  have hfield : ∀ b, asksField (m ++ [p]) b = asksField m b := fun b => by
    rw [asksField_snoc, hid]
    exact Bool.or_false _
  have hself : ∀ b, asks (m ++ [p]) "_id" b = (asks m "_id" b || incl == b) := fun b => by
    rw [asks_snoc, hid, hv]
    rfl
  have hfields : ∀ k, k ∈ s.fields ↔ k ≠ "_id" ∧ ∃ b, asks (m ++ [p]) k b = true := fun k => by
    rw [hs.fields k]
    refine and_congr_right fun hk => exists_congr fun b => by rw [hothers k hk]
  cases incl with
  | true =>
    refine ⟨hfields, fun b => (hfield b) ▸ hs.style b, ?_, ?_⟩
    · rw [hself]
      exact hs.excludeId.trans (Bool.or_false _).symm
    · rw [hself]
      exact (Bool.or_true _).symm
  | false =>
    refine ⟨hfields, fun b => (hfield b) ▸ hs.style b, ?_, ?_⟩
    · rw [hself]
      exact (Bool.or_true _).symm
    · rw [hself]
      exact hs.includeId.trans (Bool.or_false _).symm

/-- An entry for a field fixes the style and joins the fields. -/
theorem Parsed.entry_field {incl : Bool} (hs : Parsed m s) (hv : projectionValue p.2 = some incl)
    (hid : p.1 ≠ "_id") (hstyle : s.style.getD (.of incl) = .of incl) :
    Parsed (m ++ [p]) { s with style := some (.of incl), fields := setInsert p.1 s.fields } := by
  have hself : ∀ b, asks (m ++ [p]) "_id" b = asks m "_id" b := fun b => by
    rw [asks_snoc, beq_eq_false_iff_ne.mpr hid, Bool.false_and, Bool.or_false]
  refine ⟨fun k => ?_, fun b => ?_, (hself _) ▸ hs.excludeId, (hself _) ▸ hs.includeId⟩
  · rw [mem_setInsert, hs.fields k]
    by_cases hk : k = p.1
    · subst hk
      refine iff_of_true (.inl rfl) ⟨hid, incl, ?_⟩
      rw [asks_snoc, hv, beq_self_eq_true, beq_self_eq_true, Bool.and_self, Bool.or_true]
    · have hsame : ∀ b, asks (m ++ [p]) k b = asks m k b := fun b => by
        rw [asks_snoc, beq_eq_false_iff_ne.mpr (Ne.symm hk), Bool.false_and, Bool.or_false]
      rw [or_iff_right hk]
      exact and_congr_right fun _ => exists_congr fun b => by rw [hsame]
  · rw [asksField_snoc, Bool.or_eq_true, hs.style b, hv, bne_iff_ne.mpr hid, Bool.true_and,
      beq_iff_eq]
    constructor
    · rintro (hb | hb)
      · rw [hb] at hstyle
        exact congrArg some hstyle.symm
      · rw [Option.some.inj hb]
    · intro hb
      exact .inr (congrArg some (ProjectionStyle.of_injective (Option.some.inj hb)))

theorem Parsed.entry (hs : Parsed m s) (h : projectionEntry s p = .ok s') :
    Parsed (m ++ [p]) s' := by
  obtain ⟨incl, hv, ⟨hid, rfl⟩ | ⟨hid, hstyle, rfl⟩⟩ := projectionEntry_ok h
  · exact hs.entry_id hv hid
  · exact hs.entry_field hv hid hstyle

/-- The loop of `parse_projection`. -/
theorem Parsed.entries {rest : List (String × Json)} (hs : Parsed m s)
    (h : rest.foldlM projectionEntry s = .ok s') : Parsed (m ++ rest) s' := by
  induction rest generalizing m s with
  | nil =>
    obtain rfl := Except.ok.inj h
    rwa [List.append_nil]
  | cons p rest ih =>
    rw [List.foldlM_cons] at h
    obtain ⟨s₁, hp, h⟩ := bind_ok h
    rw [List.append_cons]
    exact ih (hs.entry hp) h

theorem parseProjection_ok {v : Json} {proj : Option Projection}
    (h : parseProjection v = .ok proj) :
    ∃ m, v = .object m ∧ ((m = [] ∧ proj = none) ∨
      (m ≠ [] ∧ ∃ s, Parsed m s ∧ proj = some s.projection)) := by
  unfold parseProjection at h
  split at h
  case h_2 => cases h
  case h_1 m =>
    refine ⟨m, rfl, ?_⟩
    split at h
    case isTrue hm => exact .inl ⟨List.isEmpty_iff.mp hm, (Except.ok.inj h).symm⟩
    case isFalse hm =>
      obtain ⟨s, hs, h⟩ := bind_ok h
      exact .inr ⟨fun he => hm (he ▸ rfl), s, parsed_nil.entries hs, (Except.ok.inj h).symm⟩

theorem Parsed.includes_eq (hs : Parsed m s) :
    includes m = decide (s.projection.style = .incl) := by
  have htrue := hs.style true
  have hfalse := hs.style false
  unfold includes ProjectionState.projection
  rw [← hs.excludeId]
  cases hstyle : s.style with
  | none =>
    rw [hstyle] at htrue hfalse
    simp only [reduceCtorEq, iff_false, Bool.not_eq_true] at htrue hfalse
    rw [htrue, hfalse]
    cases s.excludeId <;> rfl
  | some style =>
    rw [hstyle] at htrue hfalse
    cases style with
    | incl =>
      rw [htrue.mpr rfl]
      rfl
    | excl =>
      have hnot : asksField m true = false := eq_false_of_ne_true fun h => by cases htrue.mp h
      rw [hnot, hfalse.mpr rfl]
      rfl

/-- Fields other than `_id` are asked for in the style of the projection. -/
theorem Parsed.mem_fields (hs : Parsed m s) (hk : k ≠ "_id") :
    k ∈ s.projection.fields ↔ asks m k (includes m) = true := by
  rw [ProjectionState.projection, hs.fields k, and_iff_right hk, hs.includes_eq]
  constructor
  · rintro ⟨incl, h⟩
    have hstyle := (hs.style incl).mp (asksField_of_asks hk h)
    rw [ProjectionState.projection, hstyle]
    cases incl <;> exact h
  · exact fun h => ⟨_, h⟩

/-! ## What is kept and what is stripped -/

section Keys

variable {d : Document} {f : String} {v : Bson}

theorem isSome_get_insert :
    ((Document.insert d f v).get k).isSome = true ↔ k = f ∨ (d.get k).isSome = true := by
  induction d with
  | nil =>
    rw [Document.insert, Document.get, Document.get]
    split
    case isTrue hk => exact iff_of_true rfl (.inl hk.symm)
    case isFalse hk => exact iff_of_false Bool.false_ne_true (by simp [Ne.symm hk])
  | cons q rest ih =>
    rw [Document.insert]
    split
    case isTrue hq =>
      rw [Document.get, Document.get, hq]
      split
      case isTrue hk => exact iff_of_true rfl (.inl hk.symm)
      case isFalse hk => exact (or_iff_right (Ne.symm hk)).symm
    case isFalse hq =>
      rw [Document.get, Document.get]
      split
      case isTrue hk => exact iff_of_true rfl (.inr rfl)
      case isFalse hk => exact ih

theorem isSome_get_insertAll {ps : List (String × Bson)} :
    ((ps.foldl (fun d p => Document.insert d p.1 p.2) d).get k).isSome = true ↔
      k ∈ ps.map Prod.fst ∨ (d.get k).isSome = true := by
  induction ps generalizing d with
  | nil => simp
  | cons p ps ih =>
    rw [List.foldl_cons, ih, isSome_get_insert, List.map_cons, List.mem_cons, or_left_comm,
      or_assoc]

theorem isSome_get_inserts {fs : List String} :
    ((fs.foldl (fun d f => Document.insert d f v) d).get k).isSome = true ↔
      k ∈ fs ∨ (d.get k).isSome = true := by
  have h := @isSome_get_insertAll k d (fs.map fun f => (f, v))
  rwa [List.foldl_map, List.map_map, List.map_id''] at h
  exact fun _ => rfl

theorem mem_insert {q : String × Bson} (h : q ∈ Document.insert d f v) : q = (f, v) ∨ q ∈ d := by
  induction d with
  | nil => exact .inl (List.mem_singleton.mp h)
  | cons r rest ih =>
    rw [Document.insert] at h
    split at h
    case isTrue =>
      obtain rfl | h := List.mem_cons.mp h
      · exact .inl rfl
      · exact .inr (List.mem_cons_of_mem _ h)
    case isFalse =>
      obtain rfl | h := List.mem_cons.mp h
      · exact .inr List.mem_cons_self
      · exact (ih h).imp_right (List.mem_cons_of_mem _)

theorem mem_inserts {fs : List String} {q : String × Bson}
    (h : q ∈ fs.foldl (fun d f => Document.insert d f v) d) : q.2 = v ∨ q ∈ d := by
  induction fs generalizing d with
  | nil => exact .inr h
  | cons f fs ih =>
    rcases ih h with hq | hq
    · exact .inl hq
    · exact (mem_insert hq).imp_left fun he => by rw [he]

theorem get_filter (q : String → Bool) :
    Document.get (d.filter fun p => q p.1) k = if q k = true then d.get k else none := by
  induction d with
  | nil => rw [List.filter_nil, Document.get, ite_self]
  | cons r rest ih =>
    rw [List.filter_cons]
    split
    case isTrue hr =>
      rw [Document.get, Document.get, ih]
      by_cases hk : r.1 = k
      · rw [if_pos hk, if_pos hk, if_pos (hk ▸ hr)]
      · rw [if_neg hk, if_neg hk]
    case isFalse hr =>
      rw [ih, Document.get]
      by_cases hk : r.1 = k
      · rw [if_neg (hk ▸ hr), if_neg (hk ▸ hr)]
      · rw [if_neg hk]

theorem isSome_get_remove :
    ((removeField d f).get k).isSome = true ↔ k ≠ f ∧ (d.get k).isSome = true := by
  rw [removeField, get_filter fun x => x != f]
  split
  case isTrue hk => exact (and_iff_right (bne_iff_ne.mp hk)).symm
  case isFalse hk => exact iff_of_false Bool.false_ne_true fun h => hk (bne_iff_ne.mpr h.1)

theorem isSome_get_removes {fs : List String} :
    ((fs.foldl removeField d).get k).isSome = true ↔ k ∉ fs ∧ (d.get k).isSome = true := by
  induction fs generalizing d with
  | nil => simp
  | cons f fs ih =>
    rw [List.foldl_cons, ih, isSome_get_remove, List.mem_cons, not_or, and_assoc, and_left_comm]

theorem mem_removes {fs : List String} {q : String × Bson} (h : q ∈ fs.foldl removeField d) :
    q ∈ d := by
  induction fs generalizing d with
  | nil => exact h
  | cons f fs ih => exact (List.mem_filter.mp (ih h)).1

end Keys

variable {proj : Projection} {sort : SortKeys}

theorem mem_sortFields : k ∈ sortFields sort ↔ k ∈ sort.map Prod.fst ∧ k ≠ "_id" := by
  rw [sortFields, List.mem_filter, bne_iff_ne]

theorem mongoKeeps_incl (h : proj.style = .incl) :
    mongoKeeps (projectionDocument (some proj) sort) k = true ↔
      k ∈ proj.fields ∨ k ∈ sort.map Prod.fst ∨ k = "_id" := by
  have hone : ∀ d : Document,
      (Document.insert d "_id" (.int32 1)).any (fun q => isOne q.2) = true :=
    fun d => List.any_eq_true.mpr ⟨_, Document.mem_insert_self, rfl⟩
  simp only [mongoKeeps, projectionDocument, h, hone, beq_true, isSome_get_insert,
    isSome_get_inserts, mem_sortFields, Document.get]
  simp
  tauto

theorem mongoKeeps_excl (h : proj.style = .excl) :
    mongoKeeps (projectionDocument (some proj) sort) k = true ↔
      k ∉ proj.fields ∨ k ∈ sort.map Prod.fst ∨ k = "_id" := by
  let zeros : Document := proj.fields.foldl (fun d f => Document.insert d f (.int32 0)) []
  let d : Document := removeField ((sortFields sort).foldl removeField zeros) "_id"
  have hdoc : projectionDocument (some proj) sort = if d.isEmpty then none else some d := by
    simp only [projectionDocument, h, d, zeros]
  have hone : (d.any fun q => isOne q.2) = false := by
    refine List.any_eq_false.mpr fun q hq => ?_
    obtain hz | hz := mem_inserts (mem_removes (List.mem_filter.mp hq).1)
    · rw [hz]
      decide
    · cases hz
  have hget : (d.get k).isSome = true ↔ k ∈ proj.fields ∧ k ∉ sort.map Prod.fst ∧ k ≠ "_id" := by
    rw [isSome_get_remove, isSome_get_removes, isSome_get_inserts, mem_sortFields, Document.get]
    simp only [Option.isSome_none, Bool.false_eq_true, or_false]
    tauto
  have hkeeps : mongoKeeps (projectionDocument (some proj) sort) k = !(d.get k).isSome := by
    rw [hdoc]
    split
    case isTrue he =>
      rw [List.isEmpty_iff.mp he]
      rfl
    case isFalse =>
      rw [mongoKeeps, hone]
      cases (d.get k).isSome <;> rfl
  rw [hkeeps, Bool.not_eq_true', ← Bool.not_eq_true, hget]
  tauto

theorem mem_strip_incl (h : proj.style = .incl) :
    k ∈ projectionStripFields (some proj) sort ↔
      (k ≠ "_id" ∧ k ∈ sort.map Prod.fst ∧ k ∉ proj.fields) ∨
        (k = "_id" ∧ proj.includeId = false) := by
  have hfold : ∀ (fs strip : List String), k ∈ fs.foldl
      (fun strip f => if f ∈ proj.fields then strip else setInsert f strip) strip ↔
        k ∈ strip ∨ (k ∈ fs ∧ k ∉ proj.fields) := by
    intro fs
    induction fs with
    | nil => simp
    | cons f fs ih =>
      intro strip
      rw [List.foldl_cons, ih, List.mem_cons]
      split
      case isTrue hf => grind
      case isFalse hf =>
        rw [mem_setInsert]
        grind
  simp only [projectionStripFields, h]
  split
  case isTrue hid =>
    rw [hfold, mem_sortFields, hid]
    simp
    tauto
  case isFalse hid =>
    rw [mem_setInsert, hfold, mem_sortFields, eq_false_of_ne_true hid]
    simp
    tauto

theorem mem_strip_excl (h : proj.style = .excl) :
    k ∈ projectionStripFields (some proj) sort ↔
      k ∈ proj.fields ∨ (k = "_id" ∧ proj.excludeId = true) := by
  simp only [projectionStripFields, h]
  split
  case isTrue hid =>
    rw [mem_setInsert, hid]
    tauto
  case isFalse hid => exact (or_iff_left fun hc => hid hc.2).symm

/-! ## The two cancel out -/

theorem Parsed.notMem_id (hs : Parsed m s) : "_id" ∉ s.projection.fields :=
  fun h => ((hs.fields "_id").mp h).1 rfl

/-- A field comes through both projections exactly if it was asked for. -/
theorem Parsed.visible (hs : Parsed m s) (hm : m ≠ []) (sort : SortKeys) (k : String) :
    (mongoKeeps (projectionDocument (some s.projection) sort) k &&
      !(projectionStripFields (some s.projection) sort).contains k) = requested m k := by
  have hne : m.isEmpty = false := by
    cases m with
    | nil => exact absurd rfl hm
    | cons => rfl
  have hid := hs.notMem_id
  have hfields := @Parsed.mem_fields m s k hs
  have hincludes := hs.includes_eq
  rw [requested, hne, Bool.eq_iff_iff, Bool.and_eq_true, Bool.not_eq_true', ← Bool.not_eq_true,
    List.contains_iff_mem]
  cases hstyle : s.projection.style with
  | incl =>
    rw [hstyle, decide_eq_true rfl] at hincludes
    rw [mongoKeeps_incl hstyle, mem_strip_incl hstyle, hincludes]
    rw [hincludes] at hfields
    have hself : s.projection.includeId = asks m "_id" true := hs.includeId
    by_cases hk : k = "_id"
    · subst hk
      simp [hself, hid]
    · simp [hk, ← hfields hk]
      tauto
  | excl =>
    rw [hstyle, decide_eq_false (by decide)] at hincludes
    rw [mongoKeeps_excl hstyle, mem_strip_excl hstyle, hincludes]
    rw [hincludes] at hfields
    have hself : s.projection.excludeId = asks m "_id" false := hs.excludeId
    by_cases hk : k = "_id"
    · subst hk
      simp [hself, hid]
    · simp [hk, ← hfields hk, ← Bool.not_eq_true]
      tauto

/-- What paging needs is kept. -/
theorem mongoKeeps_sort (proj : Option Projection) {f : String}
    (hf : f = "_id" ∨ f ∈ sort.map Prod.fst) :
    mongoKeeps (projectionDocument proj sort) f = true := by
  cases proj with
  | none => rfl
  | some proj =>
    cases hstyle : proj.style with
    | incl => exact (mongoKeeps_incl hstyle).mpr (.inr hf.symm)
    | excl => exact (mongoKeeps_excl hstyle).mpr (.inr hf.symm)

theorem get_mongoProject {projection : Option Document} (doc : Document)
    (h : mongoKeeps projection k = true) : (mongoProject projection doc).get k = doc.get k := by
  rw [mongoProject, get_filter, if_pos h]

/-- Neither the cursor nor its values see the projection. -/
theorem makeNextCursor_mongoProject (X : ExtJson) (seq : Nat) (db coll : String)
    (proj : Option Projection) (sort : SortKeys) (doc : Document) :
    makeNextCursor X seq db coll sort (mongoProject (projectionDocument proj sort) doc) =
      makeNextCursor X seq db coll sort doc := by
  have hvalue : ∀ p ∈ sort, (mongoProject (projectionDocument proj sort) doc).getOrNull p.1 =
      doc.getOrNull p.1 := fun p hp => by
    have hkeeps := mongoKeeps_sort proj (.inr (List.mem_map_of_mem hp))
    rw [Document.getOrNull, get_mongoProject doc hkeeps, Document.getOrNull]
  have hvalues : ∀ b : Document, (∀ p ∈ sort, b.getOrNull p.1 = doc.getOrNull p.1) →
      (sort.mapM fun p => (bsonToCursorJson X (b.getOrNull p.1)).mapError
        fun e => Fail.api (.internal e)) =
          .ok (sort.map fun p => X.canonical (doc.getOrNull p.1)) := fun b hb =>
    mapM_ok fun p hp => by rw [hb p hp]; rfl
  rw [makeNextCursor, makeNextCursor, hvalues _ hvalue, hvalues doc fun _ _ => rfl]

/-- **A projection shows what was asked for** and leaves what paging needs. -/
theorem projection_shows (T : TextForms) (X : ExtJson) {m : List (String × Json)}
    {proj : Option Projection} (h : parseProjection (.object m) = .ok proj) (raw : SortKeys)
    (doc : Document) :
    bsonToJsonProjected T (mongoProject (projectionDocument proj (normalizeSort raw)) doc)
        (projectionStripFields proj (normalizeSort raw)) =
        .object (documentToJson T (doc.filter fun p => requested m p.1)) ∧
      (∀ f, f = "_id" ∨ f ∈ (normalizeSort raw).map Prod.fst →
        (mongoProject (projectionDocument proj (normalizeSort raw)) doc).get f = doc.get f) ∧
      ∀ seq db coll, makeNextCursor X seq db coll (normalizeSort raw)
        (mongoProject (projectionDocument proj (normalizeSort raw)) doc) =
          makeNextCursor X seq db coll (normalizeSort raw) doc := by
  have hvisible : ∀ k, (mongoKeeps (projectionDocument proj (normalizeSort raw)) k &&
      !(projectionStripFields proj (normalizeSort raw)).contains k) = requested m k := by
    intro k
    obtain ⟨m', hm, ⟨rfl, rfl⟩ | ⟨hne, s, hs, rfl⟩⟩ := parseProjection_ok h
    · obtain rfl := Json.object.inj hm
      rfl
    · obtain rfl := Json.object.inj hm
      exact hs.visible hne _ k
  refine ⟨?_, fun f hf => get_mongoProject doc (mongoKeeps_sort proj hf), fun seq db coll =>
    makeNextCursor_mongoProject X seq db coll proj _ doc⟩
  rw [bsonToJsonProjected, mongoProject, List.filter_filter]
  simp only [Bool.and_comm (!List.contains _ _), hvisible]

/-- One field asked for, another in the sort. -/
def projectedDoc : Document := [("_id", .int32 7), ("a", .int32 1), ("b", .string "x")]

theorem projection_shows_field :
    parseProjection (.object [("b", .bool true)]) = .ok (some ⟨.incl, ["b"], false, false⟩) ∧
      bsonToJsonProjected tableForms
        (mongoProject (projectionDocument (some ⟨.incl, ["b"], false, false⟩)
          (normalizeSort [("a", 1)])) projectedDoc)
        (projectionStripFields (some ⟨.incl, ["b"], false, false⟩) (normalizeSort [("a", 1)])) =
          .object [("b", .string "x")] := by
  have hparse : parseProjection (.object [("b", .bool true)]) =
      .ok (some ⟨.incl, ["b"], false, false⟩) := rfl
  have hshows := projection_shows tableForms (tableJson []) hparse [("a", 1)] projectedDoc
  exact ⟨hparse, hshows.1.trans rfl⟩

end XavierDB.Dbq
