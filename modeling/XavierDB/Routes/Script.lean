import XavierDB.Dbq.CursorFilter
import XavierDB.Dbq.Projection

/-!
# Script operators in a read (`src/routes_q.rs`)

The filter of `GET /q/{db}/{coll}` is checked for `$where` and `$function` as
JSON, before it becomes BSON. The sort fields and the boundary values of the
cursor go into the same filter and are not checked.
-/

namespace XavierDB.Routes

open Dbq

/-! ## The check -/

def isScriptKey (k : String) : Bool := k == "$where" || k == "$function"

mutual

/-- `has_script_operator`. -/
def hasScriptOperator : Json → Bool
  | .object m =>
    (m.lookup "$where").isSome || (m.lookup "$function").isSome || valuesHaveScript m
  | .array a => elementsHaveScript a
  | _ => false

def elementsHaveScript : List Json → Bool
  | [] => false
  | v :: rest => hasScriptOperator v || elementsHaveScript rest

def valuesHaveScript : List (String × Json) → Bool
  | [] => false
  | (_, v) :: rest => hasScriptOperator v || valuesHaveScript rest

end

def scriptNotAllowed {α : Type} : Res α :=
  Res.err .invalidFilter "server-side script operators ($where, $function) are not allowed"

mutual

/-- A key `$where` or `$function` at any depth. -/
def holdsScript : Bson → Bool
  | .array a => elementsHoldScript a
  | .document d => fieldsHoldScript d
  | .javaScriptCodeWithScope _ scope => fieldsHoldScript scope
  | _ => false

def elementsHoldScript : List Bson → Bool
  | [] => false
  | v :: rest => holdsScript v || elementsHoldScript rest

def fieldsHoldScript : List (String × Bson) → Bool
  | [] => false
  | (k, v) :: rest => isScriptKey k || holdsScript v || fieldsHoldScript rest

end

/-! ## The request -/

section Request

variable (T : TextForms) (P : String → Except String Json) (X : ExtJson) (C : CursorText)

/-- `parse_filter_json`; `P` is `serde_json::from_str`. -/
def parseFilterJson (s : String) : Res Document := do
  let v ← (P s).mapError fun e => .api ⟨.invalidFilter, "invalid filter JSON: " ++ e⟩
  if hasScriptOperator v then scriptNotAllowed
  else
    match ← (jsonToBson T v).mapError fun e => .api ⟨.invalidFilter, "invalid filter: " ++ e⟩ with
    | .document d => pure d
    | _ => Res.err .invalidFilter "filter must be a JSON object"

/-- An entry of a sort. -/
def sortEntry (p : String × Json) : Res (String × Int) :=
  match p.2 with
  | .number n =>
    if n.asI64 = some 1 then .ok (p.1, 1)
    else if n.asI64 = some (-1) then .ok (p.1, -1)
    else Res.err .invalidSort "sort directions must be 1 or -1"
  | _ => Res.err .invalidSort "sort directions must be 1 or -1"

/-- `parse_sort`. -/
def parseSort : Json → Res SortKeys
  | .object m =>
    if m.isEmpty then Res.err .invalidSort "sort must not be empty" else m.mapM sortEntry
  | _ => Res.err .invalidSort "sort must be a JSON object"

/-- `parse_sort_json`. -/
def parseSortJson (s : String) : Res SortKeys := do
  let v ← (P s).mapError fun e => .api ⟨.invalidSort, "invalid sort JSON: " ++ e⟩
  parseSort v

/-- `parse_projection_json`. -/
def parseProjectionJson (s : String) : Res (Option Projection) := do
  let v ← (P s).mapError fun e => .api ⟨.invalidProjection, "invalid projection JSON: " ++ e⟩
  parseProjection v

/-- The query parameters as they arrive. -/
structure FindQuery where
  filter : Option String
  sort : Option String
  limit : Option UInt32
  cursor : Option String
  projection : Option String

/-- A parameter that may be absent. -/
def optionally {α : Type} (absent : α) (parse : String → Res α) : Option String → Res α
  | some s => parse s
  | none => .ok absent

/-- The inputs of `find_docs`, parsed. -/
def FindQuery.params (q : FindQuery) : Res FindParams := do
  let filter ← optionally [] (parseFilterJson T P) q.filter
  let sort ← optionally [] (parseSortJson P) q.sort
  pure ⟨filter, sort, q.limit, q.cursor⟩

/-- `find_docs` up to the filter that `find_page` is given. -/
def findFilter (db coll : String) (mode : KeysetTypeBrackets) (q : FindQuery) : Res Document := do
  let params ← q.params T P
  if params.limit = some 0 then Res.err .invalidLimit "limit must be a positive integer"
  else do
    let cursor ← cursorParam C db coll params
    let _ ← optionally none (parseProjectionJson P) q.projection
    buildFilter X (some params.filter) cursor mode

end Request

/-! ## What the keyset takes from a cursor -/

/-- A field that is a key of the continuation filter: of a column with conditions, or
before one. -/
def Spliced (mode : KeysetTypeBrackets) (cols : List Col) (f : String) : Prop :=
  ∃ l c r, cols = l ++ c :: r ∧ columnConds mode c.1.1 c.1.2 c.2 ≠ [] ∧
    f ∈ (l ++ [c]).map fun c => c.1.1

/-- No field that is spliced is a script operator, and no boundary value holds one. -/
structure ScriptFree (mode : KeysetTypeBrackets) (cols : List Col) : Prop where
  fields : ∀ f, Spliced (effectiveMode mode cols) cols f → isScriptKey f = false
  values : ∀ c ∈ cols, holdsScript c.2 = false

/-- The cursor of the request, if it has one, brings no script. -/
def CursorScriptFree (X : ExtJson) (C : CursorText) (mode : KeysetTypeBrackets)
    (q : FindQuery) : Prop :=
  ∀ s cur last, q.cursor = some s → Cursor.decode C s = .ok cur → cur.lastBson X = .ok last →
    ScriptFree mode (cur.sort.zip last)

/-! ## The filter text -/

variable {T : TextForms} {P : String → Except String Json} {X : ExtJson} {C : CursorText}
  {mode : KeysetTypeBrackets}

theorem valuesHaveScript_eq (m : List (String × Json)) :
    valuesHaveScript m = m.any fun p => hasScriptOperator p.2 := by
  induction m with
  | nil => rfl
  | cons p rest ih => rw [valuesHaveScript, ih, List.any_cons]

theorem elementsHoldScript_eq (a : List Bson) : elementsHoldScript a = a.any holdsScript := by
  induction a with
  | nil => rfl
  | cons v rest ih => rw [elementsHoldScript, ih, List.any_cons]

theorem fieldsHoldScript_eq (d : Document) :
    fieldsHoldScript d = d.any fun p => isScriptKey p.1 || holdsScript p.2 := by
  induction d with
  | nil => rfl
  | cons p rest ih => rw [fieldsHoldScript, ih, List.any_cons]

theorem fieldsHoldScript_iff {d : Document} : fieldsHoldScript d = false ↔
    ∀ p ∈ d, isScriptKey p.1 = false ∧ holdsScript p.2 = false := by
  simp only [fieldsHoldScript_eq, List.any_eq_false, Bool.or_eq_true, not_or, Bool.not_eq_true]

/-- What the check lets through of an object. -/
theorem of_object {m : List (String × Json)} (h : hasScriptOperator (.object m) = false) :
    ∀ p ∈ m, isScriptKey p.1 = false ∧ hasScriptOperator p.2 = false := by
  rw [hasScriptOperator, Bool.or_eq_false_iff, Bool.or_eq_false_iff, valuesHaveScript_eq] at h
  obtain ⟨⟨hwhere, hfunction⟩, hvalues⟩ := h
  have habsent : ∀ key, (m.lookup key).isSome = false → ∀ p ∈ m, p.1 ≠ key := by
    rintro key hkey p hp rfl
    rw [Option.isSome_eq_false_iff, Option.isNone_iff_eq_none, List.lookup_eq_none_iff] at hkey
    exact bne_iff_ne.mp (hkey p hp) rfl
  intro p hp
  refine ⟨?_, eq_false_of_ne_true (List.any_eq_false.mp hvalues p hp)⟩
  rw [isScriptKey, beq_eq_false_iff_ne.mpr (habsent _ hwhere p hp),
    beq_eq_false_iff_ne.mpr (habsent _ hfunction p hp), Bool.or_self]

theorem holdsScript_tokenValue {b : Bson} (h : isTokenValue b = true) : holdsScript b = false := by
  cases b <;> first | rfl | cases h

theorem holdsScript_token {m : List (String × Json)} {b : Bson} (h : token T m = some (.ok b)) :
    holdsScript b = false := by
  obtain ⟨-, re, opts, rfl⟩ | ⟨-, hvalue⟩ := value_of_token h
  · rfl
  · exact holdsScript_tokenValue hvalue

/-- An entry that replaces or follows the others. -/
theorem fieldsHoldScript_insert {d : Document} {k : String} {v : Bson}
    (hd : fieldsHoldScript d = false) (hk : isScriptKey k = false) (hv : holdsScript v = false) :
    fieldsHoldScript (d.insert k v) = false := by
  rw [fieldsHoldScript_iff] at hd ⊢
  intro q hq
  obtain rfl | hq := mem_insert hq
  · exact ⟨hk, hv⟩
  · exact hd q hq

mutual

/-- What passes the check has no script in BSON either. -/
theorem holdsScript_jsonToBson (v : Json) (h : hasScriptOperator v = false) (b : Bson)
    (hb : jsonToBson T v = .ok b) : holdsScript b = false := by
  cases v with
  | null =>
    obtain rfl := Except.ok.inj hb
    rfl
  | bool x =>
    obtain rfl := Except.ok.inj hb
    rfl
  | string s =>
    obtain rfl := Except.ok.inj hb
    rfl
  | number n =>
    rw [jsonToBson] at hb
    have hvalue := @yieldsTokenValue_numberToBson T n
    rw [hb] at hvalue
    exact holdsScript_tokenValue hvalue
  | array a =>
    rw [jsonToBson] at hb
    obtain ⟨bs, hbs, rfl⟩ := map_ok hb
    exact elementsHoldScript_arrayToBson a h bs hbs
  | object m =>
    rw [jsonToBson] at hb
    split at hb
    case h_1 r hr =>
      rw [hb] at hr
      exact holdsScript_token hr
    case h_2 =>
      obtain ⟨d, hd, rfl⟩ := map_ok hb
      exact fieldsHoldScript_entriesToBson m (of_object h) [] rfl d hd

theorem elementsHoldScript_arrayToBson (a : List Json) (h : elementsHaveScript a = false)
    (bs : List Bson) (hbs : arrayToBson T a = .ok bs) : elementsHoldScript bs = false := by
  cases a with
  | nil =>
    obtain rfl := Except.ok.inj hbs
    rfl
  | cons v rest =>
    rw [elementsHaveScript, Bool.or_eq_false_iff] at h
    rw [arrayToBson] at hbs
    obtain ⟨b, hb, hbs⟩ := bind_ok hbs
    obtain ⟨bs', hrest, hbs⟩ := bind_ok hbs
    obtain rfl := Except.ok.inj hbs
    rw [elementsHoldScript, holdsScript_jsonToBson v h.1 b hb,
      elementsHoldScript_arrayToBson rest h.2 bs' hrest, Bool.or_self]

theorem fieldsHoldScript_entriesToBson (m : List (String × Json))
    (h : ∀ p ∈ m, isScriptKey p.1 = false ∧ hasScriptOperator p.2 = false) (done : Document)
    (hdone : fieldsHoldScript done = false) (d : Document) (hd : entriesToBson T done m = .ok d) :
    fieldsHoldScript d = false := by
  cases m with
  | nil =>
    obtain rfl := Except.ok.inj hd
    exact hdone
  | cons p rest =>
    obtain ⟨k, v⟩ := p
    rw [List.forall_mem_cons] at h
    rw [entriesToBson] at hd
    obtain ⟨b, hb, hd⟩ := bind_ok hd
    have hinsert := fieldsHoldScript_insert hdone h.1.1 (holdsScript_jsonToBson v h.1.2 b hb)
    exact fieldsHoldScript_entriesToBson rest h.2 _ hinsert d hd

end

theorem fieldsHoldScript_parseFilterJson {s : String} {d : Document}
    (h : parseFilterJson T P s = .ok d) : fieldsHoldScript d = false := by
  unfold parseFilterJson at h
  obtain ⟨v, -, h⟩ := bind_ok h
  split at h
  case isTrue => cases h
  case isFalse hscript =>
    obtain ⟨b, hb, h⟩ := bind_ok h
    split at h
    case h_1 d' =>
      obtain rfl := Except.ok.inj h
      exact holdsScript_jsonToBson v (eq_false_of_ne_true hscript) _ (mapError_ok hb)
    case h_2 => cases h

/-! ## The continuation filter -/

section Keyset

variable {cols : List Col} {pre : List (String × Bson)} {f : String} {dir : Int} {v c : Bson}

theorem holdsScript_fallbackConds {brackets : List String} (h : c ∈ fallbackConds brackets) :
    holdsScript c = false := by
  have hnames : ∀ names : List String, elementsHoldScript (names.map .string) = false := by
    intro names
    rw [elementsHoldScript_eq, List.any_map]
    exact List.any_eq_false.mpr fun _ _ => Bool.false_ne_true
  unfold fallbackConds at h
  split at h
  case isTrue => cases h
  case isFalse =>
    rw [List.mem_append, List.mem_append] at h
    rcases h with (h | h) | h <;> split at h
    · cases h
    · obtain rfl := List.mem_singleton.mp h
      simp [holdsScript, fieldsHoldScript, hnames, isScriptKey]
    · obtain rfl := List.mem_singleton.mp h
      rfl
    · cases h
    · obtain rfl := List.mem_singleton.mp h
      rfl
    · cases h

theorem holdsScript_operand :
    holdsScript (.document [(if 0 < dir then "$gt" else "$lt", v)]) = holdsScript v := by
  have hop : isScriptKey (if 0 < dir then "$gt" else "$lt") = false := by split <;> decide
  rw [holdsScript, fieldsHoldScript, hop, fieldsHoldScript, Bool.false_or, Bool.or_false]

/-- The conditions of a column hold a script exactly if its boundary value does. -/
theorem holdsScript_columnConds :
    (∃ c ∈ columnConds mode f dir v, holdsScript c = true) ↔ holdsScript v = true := by
  constructor
  · rintro ⟨c, hc, hscript⟩
    rw [columnConds, List.mem_append] at hc
    rcases hc with hc | hc
    · obtain ⟨hsame, -⟩ | hsame | hsame := sameTypeConds_cases dir v
      · rw [hsame] at hc
        cases hc
      · have hfree : holdsScript (.document [("$gte", .double .negInf)]) = false := by decide
        rw [hsame] at hc
        rw [List.mem_singleton.mp hc, hfree] at hscript
        cases hscript
      · rw [hsame] at hc
        rw [List.mem_singleton.mp hc, holdsScript_operand] at hscript
        exact hscript
    · split at hc
      case isTrue => cases hc
      case isFalse =>
        rw [holdsScript_fallbackConds hc] at hscript
        cases hscript
  · intro hv
    have hsame : sameTypeConds dir v = [.document [(if 0 < dir then "$gt" else "$lt", v)]] := by
      cases v <;> first | rfl | cases hv
    refine ⟨_, List.mem_append_left _ (hsame ▸ List.mem_singleton_self _), ?_⟩
    rw [holdsScript_operand, hv]

theorem fieldsHoldScript_arm (hpre : fieldsHoldScript pre = false) (hf : isScriptKey f = false)
    (hc : holdsScript c = false) : fieldsHoldScript (arm pre f c) = false := by
  have hfold : ∀ d, fieldsHoldScript d = false →
      fieldsHoldScript (pre.foldl (fun part p => Document.insert part p.1 p.2) d) = false := by
    induction pre with
    | nil => exact fun d hd => hd
    | cons p pre ih =>
      rw [fieldsHoldScript_iff, List.forall_mem_cons, ← fieldsHoldScript_iff] at hpre
      exact fun d hd => ih hpre.2 _ (fieldsHoldScript_insert hd hpre.1.1 hpre.1.2)
  exact fieldsHoldScript_insert (hfold [] rfl) hf hc

theorem isScriptKey_of_arm {k : String} (h : fieldsHoldScript (arm pre f c) = false)
    (hk : k = f ∨ k ∈ pre.map Prod.fst) : isScriptKey k = false := by
  have hget : ((arm pre f c).get k).isSome = true :=
    isSome_get_insert.mpr (hk.imp_right fun hmem => isSome_get_insertAll.mpr (.inl hmem))
  obtain ⟨x, hx⟩ := Option.isSome_iff_exists.mp hget
  replace hx := Document.mem_of_get hx
  exact (fieldsHoldScript_iff.mp h _ hx).1

/-- The arms are free of scripts exactly if what the cursor brings to them is. -/
theorem keysetLoop_scriptFree :
    (∀ a ∈ keysetLoop mode [] cols, fieldsHoldScript a = false) ↔
      (∀ f, Spliced mode cols f → isScriptKey f = false) ∧
        ∀ c ∈ cols, holdsScript c.2 = false := by
  constructor
  · intro h
    refine ⟨?_, fun c hc => eq_false_of_ne_true fun hv => ?_⟩
    · rintro f ⟨l, c, r, hcols, hconds, hf⟩
      obtain ⟨x, hx⟩ := List.exists_mem_of_ne_nil _ hconds
      have ha := h _ (mem_keysetLoop.mpr ⟨l, c, r, hcols, x, hx, rfl⟩)
      refine isScriptKey_of_arm ha ?_
      simp at hf ⊢
      tauto
    · obtain ⟨l, r, rfl⟩ := List.append_of_mem hc
      obtain ⟨x, hx, hscript⟩ := holdsScript_columnConds.mpr hv
      have ha := h _ (mem_keysetLoop.mpr ⟨l, c, r, rfl, x, hx, rfl⟩)
      rw [(fieldsHoldScript_iff.mp ha _ Document.mem_insert_self).2] at hscript
      cases hscript
  · rintro ⟨hfields, hvalues⟩ a ha
    obtain ⟨l, c, r, rfl, x, hx, rfl⟩ := mem_keysetLoop.mp ha
    have hspliced : ∀ f ∈ (l ++ [c]).map (fun c => c.1.1), isScriptKey f = false := fun f hf =>
      hfields f ⟨l, c, r, rfl, List.ne_nil_of_mem hx, hf⟩
    refine fieldsHoldScript_arm (fieldsHoldScript_iff.mpr fun p hp => ?_) ?_ ?_
    · obtain ⟨c', hc', rfl⟩ := List.mem_map.mp hp
      exact ⟨hspliced _ (List.mem_map_of_mem (List.mem_append_left _ hc')),
        hvalues _ (List.mem_append_left _ hc')⟩
    · exact hspliced _ (List.mem_map_of_mem (List.mem_append_right _ List.mem_cons_self))
    · refine eq_false_of_ne_true fun hscript => ?_
      have hv := holdsScript_columnConds.mp ⟨x, hx, hscript⟩
      rw [hvalues c (List.mem_append_right _ List.mem_cons_self)] at hv
      cases hv

/-- In the default mode the cursor brings all its fields and values. -/
theorem scriptFree_all : ScriptFree .all cols ↔
    ∀ c ∈ cols, isScriptKey c.1.1 = false ∧ holdsScript c.2 = false := by
  constructor
  · intro h c hc
    refine ⟨h.fields _ ?_, h.values c hc⟩
    obtain ⟨l, r, rfl⟩ := List.append_of_mem hc
    rw [effectiveMode_all]
    exact ⟨l, c, r, rfl, columnConds_all_ne,
      List.mem_map_of_mem (List.mem_append_right _ List.mem_cons_self)⟩
  · intro h
    refine ⟨?_, fun c hc => (h c hc).2⟩
    rintro f ⟨l, c, r, rfl, -, hf⟩
    obtain ⟨c', hc', rfl⟩ := List.mem_map.mp hf
    refine (h c' ?_).1
    rw [List.append_cons]
    exact List.mem_append_left _ hc'

theorem fieldsHoldScript_orDocument {ors : List Document} :
    fieldsHoldScript (orDocument ors) = false ↔ ∀ a ∈ ors, fieldsHoldScript a = false := by
  have hor : fieldsHoldScript [("$or", .array (ors.map .document))] =
      ors.any fieldsHoldScript := by
    have hkey : isScriptKey "$or" = false := by decide
    rw [fieldsHoldScript, hkey, holdsScript, elementsHoldScript_eq, List.any_map, fieldsHoldScript,
      Bool.or_false, Bool.false_or]
    rfl
  obtain _ | ⟨a, _ | ⟨b, rest⟩⟩ := ors
  · exact iff_of_true rfl (by simp)
  · rw [List.forall_mem_singleton]
    rfl
  · have hdoc : orDocument (a :: b :: rest) =
        [("$or", .array ((a :: b :: rest).map .document))] := rfl
    rw [hdoc, hor, List.any_eq_false]
    simp only [Bool.not_eq_true]

end Keyset

/-! ## The filter of a request -/

variable {db coll : String} {q : FindQuery} {u full : Document}

theorem and_scriptFree {k : Document} :
    fieldsHoldScript [("$and", .array [.document u, .document k])] =
      (fieldsHoldScript u || fieldsHoldScript k) := by
  have hkey : isScriptKey "$and" = false := by decide
  simp [fieldsHoldScript, holdsScript, elementsHoldScript, hkey]

theorem buildFilter_scriptFree {cur : Cursor} {last : List Bson}
    (hu : fieldsHoldScript u = false) (hlast : cur.lastBson X = .ok last)
    (hlen : last.length = cur.sort.length)
    (h : buildFilter X (some u) (some cur) mode = .ok full) :
    fieldsHoldScript full = false ↔ ScriptFree mode (cur.sort.zip last) := by
  have hcond := keysetCondition_ok mode hlen
  simp only [buildFilter, hlast, hcond, bind, Except.bind, pure, Except.pure] at h
  have hkeyset : fieldsHoldScript full = false ↔ fieldsHoldScript (orDocument
      (keysetLoop (effectiveMode mode (cur.sort.zip last)) [] (cur.sort.zip last))) = false := by
    split at h
    case isTrue => rw [Except.ok.inj h]
    case isFalse =>
      rw [← Except.ok.inj h, and_scriptFree, hu, Bool.false_or]
  rw [hkeyset, fieldsHoldScript_orDocument, keysetLoop_scriptFree]
  exact ⟨fun h => ⟨h.1, h.2⟩, fun h => ⟨h.fields, h.values⟩⟩

theorem params_ok {params : FindParams} (h : q.params T P = .ok params) :
    fieldsHoldScript params.filter = false ∧ params.cursor = q.cursor := by
  unfold FindQuery.params at h
  obtain ⟨filter, hfilter, h⟩ := bind_ok h
  obtain ⟨sort, -, h⟩ := bind_ok h
  obtain rfl := Except.ok.inj h
  refine ⟨?_, rfl⟩
  cases hq : q.filter with
  | none =>
    rw [hq] at hfilter
    obtain rfl := Except.ok.inj hfilter
    rfl
  | some s =>
    rw [hq] at hfilter
    exact fieldsHoldScript_parseFilterJson hfilter

theorem cursorParam_ok {params : FindParams} {cursor : Option Cursor}
    (h : cursorParam C db coll params = .ok cursor) :
    (params.cursor = none ∧ cursor = none) ∨
      ∃ s cur, params.cursor = some s ∧ cursor = some cur ∧ Cursor.decode C s = .ok cur := by
  unfold cursorParam at h
  split at h
  case h_1 hc => exact .inl ⟨hc, (Except.ok.inj h).symm⟩
  case h_2 s hc =>
    obtain ⟨cur, hcur, h⟩ := bind_ok h
    split at h
    case isTrue => cases h
    case isFalse =>
      split at h
      case isTrue => cases h
      case isFalse => exact .inr ⟨s, cur, hc, (Except.ok.inj h).symm, hcur⟩

/-- **No script operator reaches MongoDB** through a read that is not rejected, exactly
if the cursor brings none. -/
theorem findFilter_scriptFree_iff (h : findFilter T P X C db coll mode q = .ok full) :
    holdsScript (.document full) = false ↔ CursorScriptFree X C mode q := by
  unfold findFilter at h
  obtain ⟨params, hparams, h⟩ := bind_ok h
  obtain ⟨hu, hq⟩ := params_ok hparams
  split at h
  case isTrue => cases h
  case isFalse =>
    obtain ⟨cursor, hcursor, h⟩ := bind_ok h
    obtain ⟨-, -, h⟩ := bind_ok h
    rw [holdsScript]
    obtain ⟨hc, rfl⟩ | ⟨s, cur, hc, rfl, hdecode⟩ := cursorParam_ok hcursor
    · obtain rfl := Except.ok.inj h
      refine iff_of_true hu fun s cur last hs => ?_
      rw [← hq, hc] at hs
      cases hs
    · cases hlast : cur.lastBson X with
      | error e =>
        simp only [buildFilter, hlast, bind, Except.bind] at h
        cases h
      | ok last =>
        have hlen := lastBson_length hdecode hlast
        rw [buildFilter_scriptFree hu hlast hlen h]
        constructor
        · intro hfree s' cur' last' hs hd hl
          rw [← hq, hc] at hs
          obtain rfl := Option.some.inj hs
          obtain rfl := Except.ok.inj (hdecode.symm.trans hd)
          obtain rfl := Except.ok.inj (hlast.symm.trans hl)
          exact hfree
        · intro hfree
          exact hfree s cur last (hq ▸ hc) hdecode hlast

/-- The filter is the one that `find_docs` reads its page with. -/
theorem findDocs_page {K : Type} [LinearOrder K] {S : Mongo.Server K} {docs : List Document}
    {enforced : UInt32} {seq : Nat} {params : FindParams} {resp : FindResponse}
    (hparams : q.params T P = .ok params)
    (hprojection : ∃ proj, optionally none (parseProjectionJson P) q.projection = .ok proj)
    (h : findDocs S X C docs db coll mode enforced seq params = .ok resp) :
    ∃ full sort limit, findFilter T P X C db coll mode q = .ok full ∧
      resp.documents = (findPageInner S docs full sort limit).1 := by
  unfold findDocs at h
  split at h
  case isTrue => cases h
  case isFalse hlimit =>
    obtain ⟨cursor, hcursor, h⟩ := bind_ok h
    obtain ⟨full, hfull, h⟩ := bind_ok h
    obtain ⟨-, -, h⟩ := bind_ok h
    obtain ⟨next, -, h⟩ := bind_ok h
    obtain rfl := Except.ok.inj h
    obtain ⟨proj, hproj⟩ := hprojection
    refine ⟨full, _, _, ?_, rfl⟩
    simp only [findFilter, hparams, bind, Except.bind]
    rw [if_neg hlimit, hcursor]
    simp only [hproj]
    exact hfull

/-- A request with the cursor and nothing else. -/
def cursorQuery (cur : Cursor) : FindQuery := ⟨none, none, none, some (cursorText.encode cur), none⟩

/-- A cursor past the value `1` of a field. -/
def cursorPastOne (f : String) : Cursor :=
  ⟨1, "c1", "db", "c", [(f, 1)], [canonicalText (.int32 1)]⟩

theorem findFilter_cursorPastOne (f : String) :
    findFilter tableForms (fun _ => .error "") (tableJson [.int32 1]) cursorText "db" "c" .off
      (cursorQuery (cursorPastOne f)) = .ok [(f, .document [("$gt", .int32 1)])] := by
  have hdecode : Cursor.decode cursorText (cursorText.encode (cursorPastOne f)) =
      .ok (cursorPastOne f) := by
    simp [Cursor.decode, cursorText.parse_encode, cursorPastOne]
  have hcursor : cursorParam cursorText "db" "c"
      ⟨[], [], none, some (cursorText.encode (cursorPastOne f))⟩ = .ok (some (cursorPastOne f)) := by
    simp only [cursorParam, hdecode, bind, Except.bind]
    rfl
  have hlast : (cursorPastOne f).lastBson (tableJson [.int32 1]) = .ok [.int32 1] := rfl
  have hcond := @keysetCondition_ok .off [(f, 1)] [.int32 1] rfl
  have hbuild : buildFilter (tableJson [.int32 1]) (some []) (some (cursorPastOne f)) .off =
      .ok [(f, .document [("$gt", .int32 1)])] := by
    have hcond' : keysetCondition (cursorPastOne f).sort [.int32 1] .off =
        .ok [(f, .document [("$gt", .int32 1)])] := hcond
    simp only [buildFilter, hlast, hcond', bind, Except.bind, pure, Except.pure]
    rfl
  have hparams : (cursorQuery (cursorPastOne f)).params tableForms (fun _ => .error "") =
      .ok ⟨[], [], none, some (cursorText.encode (cursorPastOne f))⟩ := rfl
  simp only [findFilter, hparams, bind, Except.bind]
  rw [if_neg (by simp), hcursor]
  exact hbuild

theorem findFilter_scriptFree_id :
    ∃ full, findFilter tableForms (fun _ => .error "") (tableJson [.int32 1]) cursorText "db" "c" .off
      (cursorQuery (cursorPastOne "_id")) = .ok full ∧ holdsScript (.document full) = false ∧
        CursorScriptFree (tableJson [.int32 1]) cursorText .off (cursorQuery (cursorPastOne "_id")) := by
  have hfree : holdsScript (.document [("_id", .document [("$gt", .int32 1)])]) = false := by decide
  have hfilter := findFilter_cursorPastOne "_id"
  exact ⟨_, hfilter, hfree, (findFilter_scriptFree_iff hfilter).mp hfree⟩

/-- A cursor that sorts by `$where`. -/
theorem findFilter_script :
    ∃ full, findFilter tableForms (fun _ => .error "") (tableJson [.int32 1]) cursorText "db" "c" .off
      (cursorQuery (cursorPastOne "$where")) = .ok full ∧ holdsScript (.document full) = true :=
  ⟨_, findFilter_cursorPastOne "$where", by decide⟩

end XavierDB.Routes
