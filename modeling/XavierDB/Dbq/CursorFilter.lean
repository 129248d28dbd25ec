import XavierDB.Dbq.FindDocs

/-!
# The filter of any cursor (`src/dbq.rs`)

A cursor is not signed: its fields, directions and values are the client's. What
`decode` lets through has a column for every value and at least one, and a
column with all its fallbacks has a condition; a mode that drops every condition
falls back to them.
-/

namespace XavierDB.Dbq

variable {cols : List Col} {mode : KeysetTypeBrackets} {pre : List (String × Bson)} {f : String}
  {dir : Int} {v : Bson}

/-! ## The conditions of a column -/

/-- What a boundary value continues with in its own type. -/
theorem sameTypeConds_cases (dir : Int) (v : Bson) :
    (sameTypeConds dir v = [] ∧ (v = .null ∨ v = .undefined ∨ v = .double .nan ∧ ¬ 0 < dir)) ∨
      sameTypeConds dir v = [.document [("$gte", .double .negInf)]] ∨
      sameTypeConds dir v = [.document [(if 0 < dir then "$gt" else "$lt", v)]] := by
  unfold sameTypeConds
  split
  case isTrue hnull =>
    refine .inl ⟨rfl, ?_⟩
    cases v <;> first | exact .inl rfl | exact .inr (.inl rfl) | cases hnull
  case isFalse =>
    split
    case isTrue hnan =>
      split
      case isTrue => exact .inr (.inl rfl)
      case isFalse hd =>
        refine .inl ⟨rfl, .inr (.inr ⟨?_, hd⟩)⟩
        cases v with
        | double d => cases d <;> first | rfl | cases hnan
        | _ => cases hnan
    case isFalse => exact .inr (.inr rfl)

/-- With all fallbacks every column has a condition. -/
theorem columnConds_all_ne : columnConds .all f dir v ≠ [] := by
  have hall : columnConds .all f dir v = sameTypeConds dir v ++ bracketConds dir v := rfl
  rw [hall, Ne, List.append_eq_nil_iff]
  rintro ⟨hsame, hbrackets⟩
  obtain ⟨-, hv⟩ | hcond | hcond := sameTypeConds_cases dir v
  · -- null, or a NaN descending: some bracket lies beyond
    have hbeyond : (bracketConds dir v).isEmpty = false := by
      obtain rfl | rfl | ⟨rfl, hd⟩ := hv
      · unfold bracketConds
        split <;> rfl
      · unfold bracketConds
        split <;> rfl
      · rw [bracketConds, if_neg hd, decide_eq_false hd]
        rfl
    rw [hbrackets] at hbeyond
    cases hbeyond
  · rw [hcond] at hsame
    cases hsame
  · rw [hcond] at hsame
    cases hsame

/-- A mode only drops conditions. -/
theorem columnConds_subset : columnConds mode f dir v ⊆ columnConds .all f dir v := by
  have hall : columnConds .all f dir v = sameTypeConds dir v ++ bracketConds dir v := rfl
  intro x hx
  rw [columnConds, List.mem_append] at hx
  rw [hall, List.mem_append]
  refine hx.imp_right fun hx => ?_
  split at hx
  case isTrue => cases hx
  case isFalse => exact hx

/-! ## The arms -/

theorem mem_keysetLoop {a : Document} : a ∈ keysetLoop mode pre cols ↔
    ∃ l c r, cols = l ++ c :: r ∧ ∃ x ∈ columnConds mode c.1.1 c.1.2 c.2,
      a = arm (pre ++ l.map fun c => (c.1.1, c.2)) c.1.1 x := by
  induction cols generalizing pre with
  | nil => exact iff_of_false List.not_mem_nil (by rintro ⟨l, c, r, h, -⟩; cases l <;> cases h)
  | cons col cols ih =>
    obtain ⟨⟨f, dir⟩, v⟩ := col
    rw [keysetLoop, List.mem_append, List.mem_map, ih]
    constructor
    · rintro (⟨x, hx, rfl⟩ | ⟨l, c, r, rfl, x, hx, rfl⟩)
      · exact ⟨[], _, cols, rfl, x, hx, by rw [List.map_nil, List.append_nil]⟩
      · refine ⟨((f, dir), v) :: l, c, r, rfl, x, hx, ?_⟩
        rw [List.map_cons, List.append_assoc, List.singleton_append]
    · rintro ⟨l, c, r, h, x, hx, rfl⟩
      cases l with
      | nil =>
        obtain ⟨rfl, rfl⟩ := List.cons.inj h
        exact .inl ⟨x, hx, by rw [List.map_nil, List.append_nil]⟩
      | cons col l =>
        obtain ⟨rfl, rfl⟩ := List.cons.inj h
        refine .inr ⟨l, c, r, rfl, x, hx, ?_⟩
        rw [List.map_cons, List.append_assoc, List.singleton_append]

/-- The arms in force: the fallback mode is taken when the mode leaves none. -/
theorem keysetLoop_effectiveMode_ne (hcols : cols ≠ []) :
    keysetLoop (effectiveMode mode cols) [] cols ≠ [] := by
  unfold effectiveMode
  split
  case isTrue =>
    obtain ⟨⟨⟨f, dir⟩, v⟩, rest, rfl⟩ := List.exists_cons_of_ne_nil hcols
    rw [keysetLoop]
    exact List.append_ne_nil_of_left_ne_nil (mt List.map_eq_nil_iff.mp columnConds_all_ne) _
  case isFalse hne =>
    intro hnil
    rw [hnil, List.isEmpty_nil, Bool.true_and, bne_iff_ne, not_not] at hne
    -- no mode but `all` is left, and `all` has an arm
    obtain ⟨⟨⟨f, dir⟩, v⟩, rest, rfl⟩ := List.exists_cons_of_ne_nil hcols
    rw [hne, keysetLoop, List.append_eq_nil_iff, List.map_eq_nil_iff] at hnil
    exact columnConds_all_ne hnil.1

/-- An arm of the columns: equality on those before one of them, and a condition of it. -/
def IsArm (cols : List Col) (a : Document) : Prop :=
  ∃ l c r, cols = l ++ c :: r ∧ ∃ x ∈ columnConds .all c.1.1 c.1.2 c.2,
    a = arm (l.map fun c => (c.1.1, c.2)) c.1.1 x

/-- A non-empty condition: an arm, or several under `$or`. -/
inductive KeysetPart (cols : List Col) : Document → Prop where
  | bare {a : Document} : IsArm cols a → KeysetPart cols a
  | arms {ors : List Document} : 2 ≤ ors.length → (∀ a ∈ ors, IsArm cols a) →
      KeysetPart cols [("$or", .array (ors.map .document))]

theorem IsArm.ne_nil {a : Document} (h : IsArm cols a) : a ≠ [] := by
  obtain ⟨l, c, r, -, x, -, rfl⟩ := h
  exact List.ne_nil_of_mem Document.mem_insert_self

theorem KeysetPart.ne_nil {k : Document} (h : KeysetPart cols k) : k ≠ [] := by
  cases h with
  | bare harm => exact harm.ne_nil
  | arms _ _ => exact List.cons_ne_nil _ _

theorem keysetPart_orDocument {ors : List Document} (hne : ors ≠ [])
    (h : ∀ a ∈ ors, IsArm cols a) : KeysetPart cols (orDocument ors) := by
  obtain _ | ⟨a, _ | ⟨b, rest⟩⟩ := ors
  · exact absurd rfl hne
  · exact .bare (h a List.mem_cons_self)
  · exact .arms (by simp) h

/-! ## From the text of the cursor -/

variable {T : CursorText} {X : ExtJson} {s : String} {cur : Cursor} {last : List Bson}

/-- `decode` fails with an error of the cursor. -/
theorem decode_error {e : Fail} (h : Cursor.decode T s = .error e) :
    ∃ msg, e = .api ⟨.invalidCursor, msg⟩ := by
  unfold Cursor.decode at h
  split at h
  case h_1 => exact ⟨_, (Except.error.inj h).symm⟩
  case h_2 =>
    split at h
    case isTrue => exact ⟨_, (Except.error.inj h).symm⟩
    case isFalse => cases h

/-- What `decode` lets through. -/
theorem decode_ok (h : Cursor.decode T s = .ok cur) :
    cur.sort ≠ [] ∧ cur.last.length = cur.sort.length := by
  unfold Cursor.decode at h
  split at h
  case h_1 => cases h
  case h_2 =>
    split at h
    case isTrue => cases h
    case isFalse hcheck =>
      obtain rfl := Except.ok.inj h
      simp only [Bool.or_eq_true, not_or, bne_iff_ne, not_not, List.isEmpty_iff] at hcheck
      exact ⟨hcheck.1.2, hcheck.2⟩

theorem mapM_length {ε α β : Type} {f : α → Except ε β} {l : List α} {r : List β}
    (h : l.mapM f = .ok r) : r.length = l.length := by
  induction l generalizing r with
  | nil =>
    obtain rfl := Except.ok.inj h
    rfl
  | cons x l ih =>
    rw [List.mapM_cons] at h
    obtain ⟨y, -, h⟩ := bind_ok h
    obtain ⟨ys, hys, h⟩ := bind_ok h
    obtain rfl := Except.ok.inj h
    rw [List.length_cons, List.length_cons, ih hys]

theorem mapM_error {ε α β : Type} {f : α → Except ε β} {l : List α} {e : ε}
    (h : l.mapM f = .error e) : ∃ x ∈ l, f x = .error e := by
  induction l with
  | nil => cases h
  | cons x l ih =>
    rw [List.mapM_cons] at h
    cases hx : f x with
    | error e' =>
      rw [hx] at h
      obtain rfl := Except.error.inj h
      exact ⟨x, List.mem_cons_self, hx⟩
    | ok y =>
      rw [hx] at h
      cases hl : l.mapM f with
      | error e' =>
        simp only [hl, bind, Except.bind] at h
        obtain rfl := Except.error.inj h
        obtain ⟨x', hmem, hx'⟩ := ih hl
        exact ⟨x', List.mem_cons_of_mem _ hmem, hx'⟩
      | ok ys =>
        simp only [hl, bind, Except.bind, pure, Except.pure] at h
        cases h

/-- The values of a cursor fail with an error of the cursor. -/
theorem lastBson_error {e : Fail} (h : cur.lastBson X = .error e) :
    ∃ msg, e = .api ⟨.invalidCursor, msg⟩ := by
  obtain ⟨text, -, htext⟩ := mapM_error h
  cases hvalue : cursorJsonToBson X text with
  | error msg =>
    rw [hvalue] at htext
    exact ⟨msg, (Except.error.inj htext).symm⟩
  | ok b =>
    rw [hvalue] at htext
    cases htext

theorem lastBson_length (hdecode : Cursor.decode T s = .ok cur)
    (h : cur.lastBson X = .ok last) : last.length = cur.sort.length :=
  (mapM_length h).trans (decode_ok hdecode).2

/-- The keyset of a cursor that decodes is a non-empty condition. -/
theorem keysetCondition_decoded (hdecode : Cursor.decode T s = .ok cur)
    (hlast : cur.lastBson X = .ok last) (mode : KeysetTypeBrackets) :
    ∃ k, keysetCondition cur.sort last mode = .ok k ∧ KeysetPart (cur.sort.zip last) k := by
  have hlen := lastBson_length hdecode hlast
  refine ⟨_, keysetCondition_ok mode hlen, keysetPart_orDocument ?_ fun a ha => ?_⟩
  · refine keysetLoop_effectiveMode_ne fun hzip => (decode_ok hdecode).1 ?_
    obtain hsort | hnil := List.zip_eq_nil_iff.mp hzip
    · exact hsort
    · rw [hnil] at hlen
      exact List.length_eq_zero_iff.mp hlen.symm
  · obtain ⟨l, c, r, hcols, x, hx, rfl⟩ := mem_keysetLoop.mp ha
    exact ⟨l, c, r, hcols, x, columnConds_subset hx, rfl⟩

/-- A cursor text, decoded, and the filter built from it. -/
def decodeFilter (T : CursorText) (X : ExtJson) (s : String) (user : Option Document)
    (mode : KeysetTypeBrackets) : Res Document := do
  let cur ← Cursor.decode T s
  buildFilter X user (some cur) mode

/-- A filter joined with a keyset part: the part alone if the user asks for everything. -/
def Joined (user : Option Document) (k full : Document) : Prop :=
  (user.getD [] = [] ∧ full = k) ∨
    ∃ u, user = some u ∧ u ≠ [] ∧ full = [("$and", .array [.document u, .document k])]

theorem buildFilter_ok {user : Option Document} {k : Document} (hlast : cur.lastBson X = .ok last)
    (hk : keysetCondition cur.sort last mode = .ok k) :
    ∃ full, buildFilter X user (some cur) mode = .ok full ∧ Joined user k full := by
  simp only [buildFilter, hlast, hk, bind, Except.bind, pure, Except.pure]
  cases user with
  | none => exact ⟨k, rfl, .inl ⟨rfl, rfl⟩⟩
  | some u =>
    cases u with
    | nil => exact ⟨k, rfl, .inl ⟨rfl, rfl⟩⟩
    | cons p u => exact ⟨_, rfl, .inr ⟨_, rfl, List.cons_ne_nil _ _, rfl⟩⟩

/-- **Any cursor text** ends in an error of the cursor, or in a filter whose keyset part is
a non-empty condition on the cursor's columns. -/
theorem decodeFilter_total (T : CursorText) (X : ExtJson) (s : String) (user : Option Document)
    (mode : KeysetTypeBrackets) :
    (∃ msg, decodeFilter T X s user mode = .error (.api ⟨.invalidCursor, msg⟩)) ∨
      ∃ cur last k full, Cursor.decode T s = .ok cur ∧ cur.lastBson X = .ok last ∧
        decodeFilter T X s user mode = .ok full ∧ KeysetPart (cur.sort.zip last) k ∧ k ≠ [] ∧
        Joined user k full := by
  cases hdecode : Cursor.decode T s with
  | error e =>
    obtain ⟨msg, rfl⟩ := decode_error hdecode
    exact .inl ⟨msg, by rw [decodeFilter, hdecode]; rfl⟩
  | ok cur =>
    have hfilter : decodeFilter T X s user mode = buildFilter X user (some cur) mode := by
      rw [decodeFilter, hdecode]
      rfl
    rw [hfilter]
    cases hlast : cur.lastBson X with
    | error e =>
      obtain ⟨msg, rfl⟩ := lastBson_error hlast
      refine .inl ⟨msg, ?_⟩
      simp only [buildFilter, hlast, bind, Except.bind]
    | ok last =>
      obtain ⟨k, hk, hpart⟩ := keysetCondition_decoded hdecode hlast mode
      obtain ⟨full, hfull, hjoined⟩ := @buildFilter_ok mode X cur last user k hlast hk
      exact .inr ⟨cur, last, k, full, rfl, hlast, hfull, hpart, hpart.ne_nil, hjoined⟩

end XavierDB.Dbq
