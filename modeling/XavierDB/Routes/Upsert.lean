import XavierDB.Dbq.Faithful
import XavierDB.Routes.Batch

/-!
# Upsert-many (`src/routes_q.rs`, `src/dbq.rs`)

An element with an `_id` becomes an upsert with the filter `{_id: v}`. For a `v`
that MongoDB reads as a pattern or as operators that filter is a condition of
another kind, which other documents may meet.
-/

namespace XavierDB.Routes

open Dbq Mongo

/-! ## The code -/

/-- The models of `bulk_write`. -/
inductive WriteModel where
  | updateOne (filter update : Document) (upsert : Bool)
  | insertOne (doc : Document)

/-- `Document::remove`. -/
def remove : Document → String → Document
  | [], _ => []
  | (k', v) :: rest, k => if k' = k then rest else (k', v) :: remove rest k

/-- The write of a document in `bulk_upsert`. -/
def writeModel (doc : Document) : WriteModel :=
  match doc.get "_id" with
  | some id => .updateOne [("_id", id)] [("$set", .document (remove doc "_id"))] true
  | none => .insertOne doc

/-- `bulk_upsert`, up to the call of the driver. -/
def bulkUpsert (docs : List Document) : List WriteModel := docs.map writeModel

/-- `patch_upsert` on an array, up to the call of the driver. -/
def patchUpsert (T : TextForms) (form : Bson → Json) (filter : Option Json) (items : List Json)
    (maxBatch : ℕ) : Except ApiError (List WriteModel) :=
  if filter.isSome then .error (.badRequest "batch upsert takes no filter")
  else
    match arrayToBson T items with
    | .error e => .error (.badRequest e)
    | .ok items => (batchToDocs form items maxBatch).map bulkUpsert

/-! ## Filters on `_id` -/

/-- A value that MongoDB does not compare with: a pattern, or a document of operators. -/
def isCondition : Bson → Bool
  | .regularExpression .. => true
  | v => v.isOperatorDoc

/-- What a server makes of `{_id: v}`: equality with `v`, unless `v` is a condition. -/
structure IdFilter where
  eq : Bson → Bson → Prop
  /-- `{_id: v}` holds of a document whose `_id` is `w` -/
  holds : Bson → Bson → Prop
  holds_iff : ∀ v w, isCondition v = false → (holds v w ↔ eq w v)

/-- A filter matches a document; filters on more than `_id` may match any. -/
def IdFilter.Matches (F : IdFilter) (filter d : Document) : Prop :=
  ∀ v, filter = [("_id", v)] → ∃ w, d.get "_id" = some w ∧ F.holds v w

/-- The filters of a server. -/
def IdFilter.ofServer {K : Type} [LinearOrder K] (S : Server K) : IdFilter where
  eq w v := S.eqMatch v (some w) = true
  holds v w := S.fieldCond v (some w) = true
  holds_iff v w h := by
    cases v with
    | document d => rw [fieldCond_eq_eqMatch h (by rintro ⟨⟩)]
    | regularExpression p o => cases h
    | _ => rfl

/-- An `_id`, which is no array, equals a value for the server when the places agree. -/
theorem eq_ofServer_iff {K : Type} [LinearOrder K] (S : Server K) {w : Bson}
    (hw : bracket w ≠ .array) (v : Bson) : (IdFilter.ofServer S).eq w v ↔ S.key w = S.key v := by
  show (readings (some w)).any (fun x => decide (S.key x = S.key v)) = true ↔ _
  rw [List.any_eq_true]
  constructor
  · rintro ⟨x, hx, heq⟩
    obtain rfl := (mem_readings_of_notArray hw).mp hx
    exact of_decide_eq_true heq
  · intro heq
    exact ⟨w, (mem_readings_of_notArray hw).mpr rfl, decide_eq_true heq⟩

/-! ## Only what is named -/

/-- The write of an element that the code reads as `doc`. With an `_id`: an upsert
whose filter matches no document with another `_id`, on any server and in any
collection, and whose payload is the document without `_id`. Else an insert. -/
def Named (doc : Document) (write : WriteModel) : Prop :=
  match doc.get "_id" with
  | some id => ∃ filter update, write = .updateOne filter update true ∧
      update = [("$set", .document (doc.filter fun p => p.1 ≠ "_id"))] ∧
      ∀ (F : IdFilter) (coll : List Document), ∀ d ∈ coll, F.Matches filter d →
        ∃ w, d.get "_id" = some w ∧ F.eq w id
  | none => write = .insertOne doc

/-- Each element is read as a document, and its write touches what it names. -/
def OnlyNamed (T : TextForms) (items : List Json) (writes : List WriteModel) : Prop :=
  List.Forall₂ (fun v write => ∃ doc, jsonToBson T v = .ok (.document doc) ∧ Named doc write)
    items writes

/-- A JSON value that becomes a condition: a regular expression, or an object whose
first key is an operator and that spells no token. -/
def spellsCondition : Json → Bool
  | .object o => (regexToken o).isSome ||
      (!shape jsonIsString jsonIsBody o && (o.head?.any fun p => isOperatorKey p.1))
  | _ => false

/-- The element's `_id` spells a condition. -/
def NamesCondition (v : Json) : Prop :=
  ∃ m w, v = .object m ∧ m.lookup "_id" = some w ∧ spellsCondition w = true

theorem remove_eq_filter {d : Document} {k : String} (h : (d.map Prod.fst).Nodup) :
    remove d k = d.filter fun p => p.1 ≠ k := by
  induction d with
  | nil => rfl
  | cons p rest ih =>
    rw [List.map_cons, List.nodup_cons] at h
    by_cases hp : p.1 = k
    · have hrest : rest.filter (fun q => q.1 ≠ k) = rest := by
        refine List.filter_eq_self.mpr fun q hq => decide_eq_true fun hqk => h.1 ?_
        rw [hp, ← hqk]
        exact List.mem_map_of_mem hq
      rw [remove, if_pos hp, List.filter_cons_of_neg (by simpa using hp), hrest]
    · rw [remove, if_neg hp, List.filter_cons_of_pos (by simpa using hp), ih h.2]

theorem isCondition_tokenValue {b : Bson} (h : isTokenValue b = true) : isCondition b = false := by
  cases b with
  | document d => cases h
  | regularExpression re opts => cases h
  | _ => rfl

/-- The only token that gives a condition is `$regex`. -/
theorem isCondition_of_token {T : TextForms} {o : List (String × Json)} {b : Bson}
    (h : token T o = some (.ok b)) : isCondition b = (regexToken o).isSome := by
  obtain ⟨hre, re, opts, rfl⟩ | ⟨hre, hvalue⟩ := value_of_token h
  · rw [hre]
    rfl
  · rw [hre, isCondition_tokenValue hvalue]
    rfl

/-- A document is a condition when its first key is an operator. -/
theorem isCondition_of_entries {T : TextForms} {o : List (String × Json)} {d : Document}
    (h : entriesToBson T [] o = .ok d) :
    isCondition (.document d) = o.head?.any fun p => isOperatorKey p.1 := by
  cases o with
  | nil =>
    obtain rfl := Except.ok.inj h
    rfl
  | cons p rest =>
    rw [entriesToBson] at h
    obtain ⟨b, -, hrest⟩ := bind_ok h
    obtain ⟨x, rest', rfl⟩ := entriesToBson_head hrest
    simp [isCondition, Bson.isOperatorDoc]

/-- Of what a JSON value becomes, conditions are told by the value. -/
theorem isCondition_of_jsonToBson {T : TextForms} {w : Json} {b : Bson}
    (h : jsonToBson T w = .ok b) : isCondition b = spellsCondition w := by
  cases w with
  | null | bool _ | string _ =>
    obtain rfl := Except.ok.inj h
    rfl
  | number n =>
    rw [jsonToBson] at h
    have hvalue := @yieldsTokenValue_numberToBson T n
    rw [h] at hvalue
    exact isCondition_tokenValue hvalue
  | array a =>
    rw [jsonToBson] at h
    obtain ⟨bs, -, rfl⟩ := map_ok h
    rfl
  | object o =>
    rw [spellsCondition]
    by_cases ho : TokenShaped o
    · obtain ⟨r, hr⟩ := exists_token T ho
      rw [jsonToBson, hr] at h
      obtain rfl : r = .ok b := h
      have hshape : shape jsonIsString jsonIsBody o = true := ho
      rw [isCondition_of_token hr, hshape, Bool.not_true, Bool.false_and, Bool.or_false]
    · rw [jsonToBson_object ho] at h
      obtain ⟨d, hd, rfl⟩ := map_ok h
      have hshape : shape jsonIsString jsonIsBody o = false := Bool.eq_false_iff.mpr ho
      rw [isCondition_of_entries hd, regexToken_eq_none T (token_eq_none T ho),
        hshape]
      rfl

/-- A server where conditions hold of every document. -/
def IdFilter.everywhere : IdFilter where
  eq w v := w = v
  holds v w := isCondition v = true ∨ w = v
  holds_iff v w h := by
    rw [h]
    simp

/-- A condition is met by other documents on some server; a value is met by none. -/
theorem matches_only_iff {id : Bson} :
    (∀ (F : IdFilter) (coll : List Document), ∀ d ∈ coll, F.Matches [("_id", id)] d →
      ∃ w, d.get "_id" = some w ∧ F.eq w id) ↔ isCondition id = false := by
  constructor
  · intro h
    by_contra hcond
    rw [Bool.not_eq_false] at hcond
    have hmatch : IdFilter.everywhere.Matches [("_id", id)] [("_id", .null)] := by
      intro v hv
      obtain rfl : id = v := by simpa using hv
      exact ⟨.null, rfl, .inl hcond⟩
    obtain ⟨w, hw, heq⟩ := h .everywhere [[("_id", .null)]] _ List.mem_cons_self hmatch
    obtain rfl := Option.some.inj hw
    obtain rfl : Bson.null = id := heq
    cases hcond
  · intro hid F coll d _ hmatch
    obtain ⟨w, hw, hholds⟩ := hmatch id rfl
    exact ⟨w, hw, (F.holds_iff id w hid).mp hholds⟩

/-- The write of a document names it when its `_id` is no condition. -/
theorem named_writeModel_iff {doc : Document} (hkeys : (doc.map Prod.fst).Nodup) :
    Named doc (writeModel doc) ↔ ∀ id, doc.get "_id" = some id → isCondition id = false := by
  rw [Named, writeModel]
  cases hid : Document.get doc "_id" with
  | none => exact iff_of_true rfl (by simp)
  | some id =>
    simp only [Option.some.injEq, forall_eq']
    rw [← matches_only_iff]
    constructor
    · rintro ⟨filter, update, hwrite, -, honly⟩
      obtain ⟨rfl, -, -⟩ := WriteModel.updateOne.inj hwrite
      exact honly
    · intro honly
      exact ⟨_, _, rfl, by rw [remove_eq_filter hkeys], honly⟩

theorem get_of_lookup {T : TextForms} {m : List (String × Json)} {d : Document}
    (h : List.Forall₂ (fun p q => p.1 = q.1 ∧ jsonToBson T p.2 = .ok q.2) m d) (key : String) :
    (∃ w b, m.lookup key = some w ∧ d.get key = some b ∧ jsonToBson T w = .ok b) ∨
      (m.lookup key = none ∧ d.get key = none) := by
  induction h with
  | nil => exact .inr ⟨rfl, rfl⟩
  | @cons p q m d hpq _ ih =>
    obtain ⟨hkey, hval⟩ := hpq
    rw [Document.get, List.lookup_cons, ← hkey]
    by_cases hp : p.1 = key
    · have hbeq : (key == p.1) = true := beq_iff_eq.mpr hp.symm
      rw [if_pos hp, hbeq]
      exact .inl ⟨p.2, q.2, rfl, rfl, hval⟩
    · have hbeq : (key == p.1) = false := beq_eq_false_iff_ne.mpr fun h => hp h.symm
      rw [if_neg hp, hbeq]
      exact ih

theorem map_fst_of_converted {T : TextForms} {m : List (String × Json)} {d : Document}
    (h : List.Forall₂ (fun p q => p.1 = q.1 ∧ jsonToBson T p.2 = .ok q.2) m d) :
    d.map Prod.fst = m.map Prod.fst := by
  induction h with
  | nil => rfl
  | cons hpq _ ih => rw [List.map_cons, List.map_cons, hpq.1, ih]

/-- One element. -/
theorem named_iff {T : TextForms} {v : Json} {doc : Document}
    (hkeys : ∀ m, v = .object m → (m.map Prod.fst).Nodup)
    (h : jsonToBson T v = .ok (.document doc)) :
    Named doc (writeModel doc) ↔ ¬ NamesCondition v := by
  obtain ⟨m, rfl, -, hentries⟩ := document_of_jsonToBson h
  obtain ⟨d, rfl, hconv⟩ := @entriesToBson_ok T m [] doc (hkeys m rfl) hentries
  rw [named_writeModel_iff (map_fst_of_converted hconv ▸ hkeys m rfl)]
  obtain ⟨w, b, hw, hb, hval⟩ | ⟨hw, hb⟩ := get_of_lookup hconv "_id"
  · have hcond := isCondition_of_jsonToBson hval
    constructor
    · rintro hid ⟨m', w', hm, hw', hspells⟩
      obtain rfl := Json.object.inj hm
      obtain rfl := Option.some.inj (hw.symm.trans hw')
      rw [← hcond, hid b hb] at hspells
      cases hspells
    · intro hnot id hid
      obtain rfl := Option.some.inj (hb.symm.trans hid)
      rw [hcond, Bool.eq_false_iff]
      exact fun hspells => hnot ⟨m, w, rfl, hw, hspells⟩
  · refine iff_of_true ?_ ?_
    · intro id hid
      cases hb.symm.trans hid
    · rintro ⟨m', w', hm, hw', -⟩
      obtain rfl := Json.object.inj hm
      cases hw.symm.trans hw'

/-- An accepted batch is a list of elements read as documents, each with its write. -/
theorem patchUpsert_ok {T : TextForms} {form : Bson → Json} {filter : Option Json}
    {items : List Json} {maxBatch : ℕ} {writes : List WriteModel}
    (h : patchUpsert T form filter items maxBatch = .ok writes) :
    ∃ docs, List.Forall₂ (fun v doc => jsonToBson T v = .ok (.document doc)) items docs ∧
      writes = docs.map writeModel := by
  rw [patchUpsert] at h
  split at h
  case isTrue => cases h
  case isFalse =>
    cases hitems : arrayToBson T items with
    | error e =>
      rw [hitems] at h
      cases h
    | ok bs =>
      rw [hitems] at h
      cases hdocs : batchToDocs form bs maxBatch with
      | error e =>
        simp only [hdocs] at h
        cases h
      | ok docs =>
        simp only [hdocs] at h
        obtain rfl := Except.ok.inj h
        obtain ⟨rfl, -⟩ := batchToDocs_ok.mp hdocs
        have hconv := arrayToBson_ok hitems
        rw [List.forall₂_map_right_iff] at hconv
        exact ⟨docs, hconv, rfl⟩

/-- In an accepted batch, every element's write touches only what it names exactly
when no element's `_id` spells a pattern or operators. An object holds every key
once. -/
theorem patchUpsert_named_iff {T : TextForms} {form : Bson → Json} {filter : Option Json}
    {items : List Json} {maxBatch : ℕ} {writes : List WriteModel}
    (hkeys : ∀ m, .object m ∈ items → (m.map Prod.fst).Nodup)
    (h : patchUpsert T form filter items maxBatch = .ok writes) :
    OnlyNamed T items writes ↔ ∀ v ∈ items, ¬ NamesCondition v := by
  obtain ⟨docs, hdocs, rfl⟩ := patchUpsert_ok h
  clear h
  rw [OnlyNamed, List.forall₂_map_right_iff]
  induction hdocs with
  | nil => exact iff_of_true .nil (by simp)
  | @cons v doc items docs hv _ ih =>
    rw [List.forall₂_cons, List.forall_mem_cons,
      ih fun m hm => hkeys m (List.mem_cons_of_mem _ hm)]
    refine and_congr_left fun _ => ?_
    rw [← named_iff (fun m hm => hkeys m (hm ▸ List.mem_cons_self)) hv]
    constructor
    · rintro ⟨doc', hv', hnamed⟩
      obtain rfl := Bson.document.inj (Except.ok.inj (hv.symm.trans hv'))
      exact hnamed
    · exact fun hnamed => ⟨doc, hv, hnamed⟩

/-- One element with an `_id`, one without. -/
def namedItems : List Json :=
  [.object [("_id", .number (.posInt 7)), ("v", .bool true)], .object [("v", .null)]]

theorem patchUpsert_named_sample : OnlyNamed tableForms namedItems
    [.updateOne [("_id", .int64 7)] [("$set", .document [("v", .boolean true)])] true,
      .insertOne [("v", .null)]] := by
  have hkeys : ∀ m, .object m ∈ namedItems → (m.map Prod.fst).Nodup := by
    intro m hm
    rcases List.mem_pair.mp hm with heq | heq <;>
      (obtain rfl := Json.object.inj heq; decide)
  have haccept : patchUpsert tableForms numberForm none namedItems 1000 = .ok
      [.updateOne [("_id", .int64 7)] [("$set", .document [("v", .boolean true)])] true,
        .insertOne [("v", .null)]] := rfl
  refine (patchUpsert_named_iff hkeys haccept).mpr fun v hv => ?_
  rintro ⟨m, w, rfl, hw, hspells⟩
  rcases List.mem_pair.mp hv with heq | heq <;> obtain rfl := Json.object.inj heq
  · obtain rfl := Option.some.inj hw
    cases hspells
  · cases hw

/-- An element whose `_id` is a document of operators. -/
def operatorItem : Json :=
  .object [("_id", .object [("$gt", .string "a")]), ("v", .number (.posInt 1))]

/-- The write of the element touches the document with the `_id` `b`. -/
theorem operatorItem_touches :
    let write := WriteModel.updateOne [("_id", .document [("$gt", .string "a")])]
      [("$set", .document [("v", .int64 1)])] true
    patchUpsert tableForms numberForm none [operatorItem] 1000 = .ok [write] ∧
      byteServer.evalDoc [("_id", .string "b")] [("_id", .document [("$gt", .string "a")])] = true ∧
      ¬ OnlyNamed tableForms [operatorItem] [write] := by
  refine ⟨rfl, by decide, fun h => ?_⟩
  obtain ⟨⟨doc, hdoc, hnamed⟩, -⟩ := List.forall₂_cons.mp h
  have hread : jsonToBson tableForms operatorItem = .ok (.document
      [("_id", .document [("$gt", .string "a")]), ("v", .int64 1)]) := rfl
  obtain rfl := Bson.document.inj (Except.ok.inj (hread.symm.trans hdoc))
  refine (named_iff (fun m hm => ?_) hread).mp hnamed ⟨_, _, rfl, rfl, by decide⟩
  obtain rfl := Json.object.inj hm
  decide

end XavierDB.Routes
