import XavierDB.Bson.Json

/-!
# `==` of BSON values

As the `bson` crate derives it: the order of the fields of a document does not
matter, the numeric types are apart, and a NaN is not equal to itself.
-/

namespace XavierDB

/-- `==` of two doubles. -/
def F64.same : F64 → F64 → Bool
  | .nan, _ | _, .nan => false
  | d, d' => d == d' || (d.isZero && d'.isZero)

namespace Bson

mutual

/-- `==` of two values. -/
def same : Bson → Bson → Bool
  | double d, double d' => d.same d'
  | string s, string s' => s == s'
  | array a, array a' => sameElems a a'
  | document d, document d' => d.length == d'.length && sameFields d d'
  | boolean x, boolean x' => x == x'
  | null, null => true
  | regularExpression p o, regularExpression p' o' => p == p' && o == o'
  | javaScriptCode s, javaScriptCode s' => s == s'
  | javaScriptCodeWithScope s d, javaScriptCodeWithScope s' d' =>
    s == s' && (d.length == d'.length && sameFields d d')
  | int32 i, int32 i' => i == i'
  | int64 i, int64 i' => i == i'
  | timestamp t i, timestamp t' i' => t == t' && i == i'
  | binary st b, binary st' b' => st == st' && b == b'
  | objectId oid, objectId oid' => oid == oid'
  | dateTime m, dateTime m' => m == m'
  | symbol s, symbol s' => s == s'
  | decimal128 d, decimal128 d' => d == d'
  | undefined, undefined => true
  | maxKey, maxKey => true
  | minKey, minKey => true
  | dbPointer ns i, dbPointer ns' i' => ns == ns' && i == i'
  | _, _ => false

def sameElems : List Bson → List Bson → Bool
  | [], [] => true
  | v :: rest, v' :: rest' => same v v' && sameElems rest rest'
  | _, _ => false

def sameFields : List (String × Bson) → List (String × Bson) → Bool
  | [], _ => true
  | (k, v) :: rest, d' =>
    (match Document.get d' k with
      | some v' => same v v'
      | none => false) && sameFields rest d'

end

end Bson

namespace Document

/-- `==` of two documents. -/
def same (d d' : Document) : Bool := d.length == d'.length && Bson.sameFields d d'

theorem sameFields_iff {d d' : Document} :
    Bson.sameFields d d' = true ↔ ∀ p ∈ d, ∃ v', d'.get p.1 = some v' ∧ p.2.same v' = true := by
  induction d with
  | nil => exact iff_of_true rfl (by simp)
  | cons p rest ih =>
    rw [Bson.sameFields, Bool.and_eq_true, ih, List.forall_mem_cons]
    cases d'.get p.1 <;> simp

theorem same_iff {d d' : Document} : same d d' = true ↔
    d.length = d'.length ∧ ∀ p ∈ d, ∃ v', d'.get p.1 = some v' ∧ p.2.same v' = true := by
  rw [same, Bool.and_eq_true, beq_iff_eq, sameFields_iff]

theorem get_of_mem {d : Document} (hd : (d.map Prod.fst).Nodup) {p : String × Bson} (hp : p ∈ d) :
    d.get p.1 = some p.2 := by
  induction d with
  | nil => cases hp
  | cons q rest ih =>
    rw [List.map_cons, List.nodup_cons] at hd
    obtain rfl | hp := List.mem_cons.mp hp
    · exact if_pos rfl
    · have hne : q.1 ≠ p.1 := fun h => hd.1 (h ▸ List.mem_map_of_mem hp)
      exact (if_neg hne).trans (ih hd.2 hp)

/-- A document is equal to itself if its values are. -/
theorem same_self {d : Document} (hd : (d.map Prod.fst).Nodup)
    (h : ∀ p ∈ d, p.2.same p.2 = true) : same d d = true :=
  same_iff.mpr ⟨rfl, fun p hp => ⟨p.2, get_of_mem hd hp, h p hp⟩⟩

end Document

end XavierDB
