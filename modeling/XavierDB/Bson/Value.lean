import Mathlib.Data.Rat.Defs
import Mathlib.Data.Prod.Lex
import Mathlib.Algebra.Order.Ring.Rat

/-!
# BSON values

`Bson` follows the `bson` crate's enum; `Document` is its insertion-ordered
map. A finite double is its rational value (with `-0.0` apart), a decimal its
sign, coefficient and exponent.
-/

namespace XavierDB

/-- An IEEE double, NaN payloads aside. -/
inductive F64 where
  | nan
  | negInf
  | posInf
  | negZero
  | fin (q : ℚ)
  deriving DecidableEq, Repr

namespace F64

/-- `f64::is_nan`. -/
def isNan : F64 → Bool
  | nan => true
  | _ => false

/-- The numeric position: the infinities around the finite values. -/
def position : F64 → ℤ ×ₗ ℚ
  | nan => toLex (0, 0)
  | negInf => toLex (-1, 0)
  | posInf => toLex (1, 0)
  | negZero => toLex (0, 0)
  | fin q => toLex (0, q)

end F64

/-- An IEEE decimal: `fin neg coeff exp` is `± coeff * 10 ^ exp`. -/
inductive Decimal128 where
  | nan
  | inf (neg : Bool)
  | fin (neg : Bool) (coeff : ℕ) (exp : ℤ)
  deriving DecidableEq, Repr

namespace Decimal128

/-- `± coeff * 10 ^ exp` as a rational. -/
def value (neg : Bool) (coeff : ℕ) (exp : ℤ) : ℚ :=
  let c : ℤ := if neg then -(coeff : ℤ) else coeff
  if 0 ≤ exp then ((c * 10 ^ exp.toNat : ℤ) : ℚ) else mkRat c (10 ^ (-exp).toNat)

def position : Decimal128 → ℤ ×ₗ ℚ
  | nan => toLex (0, 0)
  | inf true => toLex (-1, 0)
  | inf false => toLex (1, 0)
  | fin neg coeff exp => toLex (0, value neg coeff exp)

end Decimal128

inductive Bson where
  | double (d : F64)
  | string (s : String)
  | array (a : List Bson)
  | document (d : List (String × Bson))
  | boolean (b : Bool)
  | null
  | regularExpression (pattern options : String)
  | javaScriptCode (code : String)
  | javaScriptCodeWithScope (code : String) (scope : List (String × Bson))
  | int32 (i : Int32)
  | int64 (i : Int64)
  | timestamp (time increment : UInt32)
  | binary (subtype : UInt8) (bytes : List UInt8)
  | objectId (bytes : List UInt8)
  | dateTime (millis : Int64)
  | symbol (s : String)
  | decimal128 (d : Decimal128)
  | undefined
  | maxKey
  | minKey
  | dbPointer (ns : String) (id : List UInt8)

abbrev Document := List (String × Bson)

namespace Document

/-- `Document::get`. -/
def get : Document → String → Option Bson
  | [], _ => none
  | (k', v) :: rest, k => if k' = k then some v else get rest k

/-- `Document::insert`: replace in place, or append. -/
def insert : Document → String → Bson → Document
  | [], k, v => [(k, v)]
  | (k', v') :: rest, k, v => if k' = k then (k, v) :: rest else (k', v') :: insert rest k v

theorem mem_of_get {d : Document} {k : String} {v : Bson} (h : d.get k = some v) : (k, v) ∈ d := by
  induction d with
  | nil => cases h
  | cons p rest ih =>
    rw [get] at h
    split at h
    case isTrue hk =>
      rw [← hk, ← Option.some.inj h]
      exact List.mem_cons_self
    case isFalse => exact List.mem_cons_of_mem _ (ih h)

theorem insert_of_notMem {d : Document} {k : String} (v : Bson) (h : k ∉ d.map Prod.fst) :
    insert d k v = d ++ [(k, v)] := by
  induction d with
  | nil => rfl
  | cons p rest ih =>
    simp only [List.map_cons, List.mem_cons, not_or] at h
    rw [insert, if_neg (Ne.symm h.1), ih h.2, List.cons_append]

theorem mem_insert_self {d : Document} {k : String} {v : Bson} : (k, v) ∈ insert d k v := by
  induction d with
  | nil => exact List.mem_singleton_self _
  | cons p rest ih =>
    rw [insert]
    split
    case isTrue => exact List.mem_cons_self
    case isFalse => exact List.mem_cons_of_mem _ ih

theorem notMem_of_nodup {d : Document} {k : String} {l : List String}
    (h : (d.map Prod.fst ++ k :: l).Nodup) : k ∉ d.map Prod.fst :=
  fun hk => (List.nodup_append.mp h).2.2 _ hk _ List.mem_cons_self rfl

theorem nodup_snoc {d : Document} {k : String} {v : Bson} {l : List String}
    (h : (d.map Prod.fst ++ k :: l).Nodup) : ((d ++ [(k, v)]).map Prod.fst ++ l).Nodup := by
  rwa [List.map_append, List.map_singleton, List.append_assoc, List.singleton_append]

/-- The value a sort sees: a missing field counts as null. -/
def getOrNull (d : Document) (k : String) : Bson := (d.get k).getD .null

end Document

/-- A key that MongoDB reads as an operator. -/
def isOperatorKey (k : String) : Bool := k.toList.head? == some '$'

namespace Bson

/-- The `$type` alias of a value's own type. -/
def typeAlias : Bson → String
  | double _ => "double"
  | string _ => "string"
  | array _ => "array"
  | document _ => "object"
  | boolean _ => "bool"
  | null => "null"
  | regularExpression .. => "regex"
  | javaScriptCode _ => "javascript"
  | javaScriptCodeWithScope .. => "javascriptWithScope"
  | int32 _ => "int"
  | int64 _ => "long"
  | timestamp .. => "timestamp"
  | binary .. => "binData"
  | objectId _ => "objectId"
  | dateTime _ => "date"
  | symbol _ => "symbol"
  | decimal128 _ => "decimal"
  | undefined => "undefined"
  | maxKey => "maxKey"
  | minKey => "minKey"
  | dbPointer .. => "dbPointer"

/-- A NaN of either floating type. -/
def isNaN : Bson → Bool
  | double d => d.isNan
  | decimal128 .nan => true
  | _ => false

/-- A value of one of the four numeric types. -/
def isNumeric : Bson → Bool
  | double _ | int32 _ | int64 _ | decimal128 _ => true
  | _ => false

/-- A document whose first key is an operator: as a field condition MongoDB
reads it as operators, not as a value. -/
def isOperatorDoc : Bson → Bool
  | document ((k, _) :: _) => isOperatorKey k
  | _ => false

/-- Neither an array nor a regular expression nor the decimal NaN: the values
whose place in the sort order the code's brackets describe. -/
def isPlain : Bson → Bool
  | array _ | regularExpression .. | decimal128 .nan => false
  | _ => true

end Bson

end XavierDB
