import XavierDB.Bson.Json

/-!
# Canonical extended JSON

What is known of `into_canonical_extjson` of the crate `bson`: it keeps types
apart. Values that hold no operator keys are then the same in canonical form,
the order of keys aside, exactly when they have the same types and values.
-/

namespace XavierDB

/-- Written as an object under an operator key of its own. A regular expression
is not listed, whose options are written in order, nor is code with a scope. -/
def Bson.isWrapped : Bson → Bool
  | array _ | document _ | null | boolean _ | string _ | regularExpression ..
  | javaScriptCodeWithScope .. => false
  | _ => true

/-- A form that keeps types apart. -/
structure TypeSensitive (form : Bson → Json) : Prop where
  null : form .null = .null
  boolean : ∀ b, form (.boolean b) = .bool b
  string : ∀ s, form (.string s) = .string s
  array : ∀ a, form (.array a) = .array (a.map form)
  document : ∀ d, form (.document d) = .object (d.map fun p => (p.1, form p.2))
  wrapped : ∀ b, b.isWrapped → ∃ key v, form b = .object [(key, v)] ∧ isOperatorKey key
  same_wrapped : ∀ a b, a.isWrapped → b.isWrapped → ((form a).same (form b) = true ↔ a = b)

/-- Plain values and wrapped ones, in arrays and in documents without operator keys. -/
inductive Ordinary : Bson → Prop
  | null : Ordinary .null
  | boolean (b : Bool) : Ordinary (.boolean b)
  | string (s : String) : Ordinary (.string s)
  | wrapped {b : Bson} (h : b.isWrapped) : Ordinary b
  | array {a : List Bson} (elems : ∀ b ∈ a, Ordinary b) : Ordinary (.array a)
  | document {d : Document} (keys : ∀ p ∈ d, isOperatorKey p.1 = false)
      (fields : ∀ p ∈ d, Ordinary p.2) : Ordinary (.document d)

mutual

/-- The same types and values, whatever the order of keys. -/
def SameTyped : Bson → Bson → Prop
  | .array a, .array a' => SameElems a a'
  | .document d, .document d' => d.length = d'.length ∧ SameFields d d'
  | a, b => a = b

def SameElems : List Bson → List Bson → Prop
  | [], [] => True
  | b :: rest, b' :: rest' => SameTyped b b' ∧ SameElems rest rest'
  | _, _ => False

def SameFields : List (String × Bson) → List (String × Bson) → Prop
  | [], _ => True
  | (k, b) :: rest, d' =>
    (match d'.lookup k with
      | some b' => SameTyped b b'
      | none => False) ∧ SameFields rest d'

end

variable {form : Bson → Json}

theorem sameTyped_wrapped {a : Bson} (h : a.isWrapped) (b : Bson) : SameTyped a b ↔ a = b := by
  cases a with
  | array a => cases h
  | document d => cases h
  | _ => rfl

theorem sameTyped_to_wrapped (a : Bson) {b : Bson} (h : b.isWrapped) : SameTyped a b ↔ a = b := by
  cases b with
  | array a => cases h
  | document d => cases h
  | _ => cases a <;> rfl

theorem not_isWrapped_of_eq {a b : Bson} (ha : a.isWrapped = false) (h : b.isWrapped) : a ≠ b := by
  rintro rfl
  rw [ha] at h
  cases h

theorem sameElems_form {a a' : List Bson}
    (h : ∀ b ∈ a, ∀ b' ∈ a', ((form b).same (form b') = true ↔ SameTyped b b')) :
    Json.sameElems (a.map form) (a'.map form) = true ↔ SameElems a a' := by
  induction a generalizing a' with
  | nil => cases a' <;> simp [Json.sameElems, SameElems]
  | cons b rest ih =>
    cases a' with
    | nil => simp [Json.sameElems, SameElems]
    | cons b' rest' =>
      rw [List.map_cons, List.map_cons, Json.sameElems, SameElems, Bool.and_eq_true,
        h b List.mem_cons_self b' List.mem_cons_self,
        ih fun x hx y hy => h x (List.mem_cons_of_mem _ hx) y (List.mem_cons_of_mem _ hy)]

theorem sameFields_form {d d' : Document}
    (h : ∀ p ∈ d, ∀ p' ∈ d', ((form p.2).same (form p'.2) = true ↔ SameTyped p.2 p'.2)) :
    Json.sameFields (d.map fun p => (p.1, form p.2)) (d'.map fun p => (p.1, form p.2)) = true ↔
      SameFields d d' := by
  induction d with
  | nil => exact iff_of_true rfl trivial
  | cons p rest ih =>
    obtain ⟨hp, hrest⟩ := List.forall_mem_cons.mp h
    rw [List.map_cons, Json.sameFields, SameFields, Bool.and_eq_true, ih hrest, lookup_map]
    cases hl : d'.lookup p.1 with
    | none => simp
    | some b' => simp only [Option.map_some, hp _ (mem_of_lookup hl)]

/-- An object under an operator key is no document without operator keys. -/
theorem not_same_document {d : Document} (keys : ∀ p ∈ d, isOperatorKey p.1 = false) {key : String}
    (hkey : isOperatorKey key) (v : Json) :
    Json.same (.object [(key, v)]) (.object (d.map fun p => (p.1, form p.2))) = false ∧
      Json.same (.object (d.map fun p => (p.1, form p.2))) (.object [(key, v)]) = false := by
  have hne : ∀ p ∈ d, p.1 ≠ key := by
    rintro p hp rfl
    rw [keys p hp] at hkey
    cases hkey
  constructor
  · rw [Json.same, Json.sameFields, lookup_map]
    cases hl : d.lookup key with
    | none => simp
    | some b => exact absurd rfl (hne _ (mem_of_lookup hl))
  · cases d with
    | nil => rfl
    | cons p rest =>
      have hp : (p.1 == key) = false := beq_eq_false_iff_ne.mpr (hne p List.mem_cons_self)
      rw [List.map_cons, Json.same, Json.sameFields, lookup_single, hp]
      simp

/-- For values without operator keys the form tells types and values apart. -/
theorem same_form_iff (hf : TypeSensitive form) {a b : Bson} (ha : Ordinary a) (hb : Ordinary b) :
    (form a).same (form b) = true ↔ SameTyped a b := by
  induction ha generalizing b with
  | @wrapped a h =>
    obtain ⟨key, v, hform, hkey⟩ := hf.wrapped a h
    rw [sameTyped_wrapped h]
    cases hb with
    | wrapped h' => exact hf.same_wrapped _ _ h h'
    | document keys _ =>
      rw [hf.document, hform, (not_same_document keys hkey v).1]
      exact iff_of_false (by simp) (not_isWrapped_of_eq rfl h).symm
    | _ =>
      refine iff_of_false ?_ (not_isWrapped_of_eq rfl h).symm
      simp [hform, hf.null, hf.boolean, hf.string, hf.array, Json.same]
  | array _ ih =>
    cases hb with
    | wrapped h =>
      obtain ⟨key, v, hform, -⟩ := hf.wrapped _ h
      rw [sameTyped_to_wrapped _ h, hf.array, hform]
      exact iff_of_false (by simp [Json.same]) (not_isWrapped_of_eq rfl h)
    | array elems =>
      rw [hf.array, hf.array, Json.same, SameTyped]
      exact sameElems_form fun x hx y hy => ih x hx (elems y hy)
    | _ => simp [hf.null, hf.boolean, hf.string, hf.array, hf.document, Json.same, SameTyped]
  | document keys fields ih =>
    cases hb with
    | wrapped h =>
      obtain ⟨key, v, hform, hkey⟩ := hf.wrapped _ h
      rw [sameTyped_to_wrapped _ h, hf.document, hform, (not_same_document keys hkey v).2]
      exact iff_of_false (by simp) (not_isWrapped_of_eq rfl h)
    | document keys' fields' =>
      rw [hf.document, hf.document, Json.same, SameTyped, Bool.and_eq_true, List.length_map,
        List.length_map, beq_iff_eq, sameFields_form fun x hx y hy => ih x hx (fields' y hy)]
    | _ => simp [hf.null, hf.boolean, hf.string, hf.array, hf.document, Json.same, SameTyped]
  | _ =>
    cases hb with
    | wrapped h =>
      obtain ⟨key, v, hform, hkey⟩ := hf.wrapped _ h
      rw [sameTyped_to_wrapped _ h, hform]
      refine iff_of_false ?_ (not_isWrapped_of_eq rfl h)
      simp [hf.null, hf.boolean, hf.string, Json.same]
    | _ => simp [hf.null, hf.boolean, hf.string, hf.array, hf.document, Json.same, SameTyped]

end XavierDB
