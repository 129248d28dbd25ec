import Mathlib.Data.List.Forall2
import XavierDB.Base.Binary64
import XavierDB.Base.Numeral
import XavierDB.Bson.Value

/-!
# JSON values

`Json` follows `serde_json::Value`. A number is an integer from `0`, an integer
below `0` or a finite double; an object is its entries in insertion order.
-/

namespace XavierDB

/-- `f64::is_finite`. -/
def F64.isFinite : F64 → Bool
  | negZero | fin _ => true
  | _ => false

def F64.isZero : F64 → Bool
  | negZero => true
  | fin q => q == 0
  | _ => false

/-- The nearest double of an integer. -/
def F64.ofInt (i : ℤ) : F64 :=
  let n := i.natAbs
  let units : ℕ := Binary64.roundDiv n (Binary64.ulp n) * Binary64.ulp n
  .fin (if i < 0 then -(units : ℚ) else units)

/-- `serde_json::Number`. -/
inductive Number where
  | posInt (u : UInt64)
  | negInt (i : { i : Int64 // i < 0 })
  | float (d : { d : F64 // d.isFinite })

inductive Json where
  | null
  | bool (b : Bool)
  | number (n : Number)
  | string (s : String)
  | array (a : List Json)
  | object (m : List (String × Json))

namespace Number

def asI64 : Number → Option Int64
  | posInt u => if u.toNat ≤ 2 ^ 63 - 1 then some u.toInt64 else none
  | negInt i => some i
  | float _ => none

def asU64 : Number → Option UInt64
  | posInt u => some u
  | _ => none

def asF64 : Number → Option F64
  | posInt u => some (.ofInt u.toNat)
  | negInt i => some (.ofInt i.1.toInt)
  | float d => some d

/-- `Value::from` of a signed integer. -/
def ofI64 (i : Int64) : Number := if h : i < 0 then .negInt ⟨i, h⟩ else .posInt i.toUInt64

/-- `Value::from` of an unsigned integer. -/
def ofU32 (u : UInt32) : Number := .posInt u.toUInt64

/-- `==` of two numbers: the zeros are equal, integers and floats are not. -/
def same : Number → Number → Bool
  | posInt u, posInt u' => u == u'
  | negInt i, negInt i' => i == i'
  | float d, float d' => d.1 == d'.1 || (d.1.isZero && d'.1.isZero)
  | _, _ => false

theorem toNat_toUInt64 {i : Int64} (h : ¬ i < 0) : (i.toUInt64.toNat : ℤ) = i.toInt := by
  have hle : 0 ≤ i := Int64.not_lt.mp h
  rw [Int64.toNat_toUInt64_of_le hle, Int64.toNatClampNeg]
  rw [Int64.le_iff_toInt_le] at hle
  exact Int.toNat_of_nonneg hle

theorem asI64_ofI64 (i : Int64) : (ofI64 i).asI64 = some i := by
  unfold ofI64
  split
  case isTrue => rfl
  case isFalse h =>
    have hval := toNat_toUInt64 h
    have hlt := i.toInt_lt
    have hle : i.toUInt64.toNat ≤ 2 ^ 63 - 1 := by omega
    rw [asI64, if_pos hle, Int64.toInt64_toUInt64]

theorem toInt_toInt64 {u : UInt64} (h : u.toNat ≤ 2 ^ 63 - 1) : u.toInt64.toInt = u.toNat := by
  have hlt : 2 * u.toBitVec.toNat < 2 ^ 64 := by
    rw [UInt64.toNat_toBitVec]
    omega
  exact BitVec.toInt_eq_toNat_of_lt hlt

/-- What `as_i64` reads is what `Value::from` writes. -/
theorem ofI64_of_asI64 {n : Number} {i : Int64} (h : n.asI64 = some i) : ofI64 i = n := by
  cases n with
  | posInt u =>
    obtain ⟨hle, hi⟩ := Option.ite_none_right_eq_some.mp h
    obtain rfl := Option.some.inj hi
    have hval := toInt_toInt64 hle
    have hnonneg : ¬ u.toInt64 < 0 := by
      rw [Int64.lt_iff_toInt_lt, hval]
      exact not_lt.mpr (Int.natCast_nonneg _)
    rw [ofI64, dif_neg hnonneg, UInt64.toUInt64_toInt64]
  | negInt j =>
    obtain rfl := Option.some.inj h
    exact dif_pos j.2
  | float d => cases h

end Number

/-! ## Entries -/

theorem lookup_single {α : Type} (key k : String) (v : α) :
    [(k, v)].lookup key = if key == k then some v else none := by
  rw [List.lookup_cons, List.lookup_nil]
  cases key == k <;> rfl

theorem lookup_map {α β : Type} (f : α → β) (key : String) (m : List (String × α)) :
    (m.map fun p => (p.1, f p.2)).lookup key = (m.lookup key).map f := by
  induction m with
  | nil => rfl
  | cons p rest ih =>
    rw [List.map_cons, List.lookup_cons, List.lookup_cons]
    cases key == p.1
    case false => exact ih
    case true => rfl

theorem mem_of_lookup {α : Type} {m : List (String × α)} {key : String} {v : α}
    (h : m.lookup key = some v) : (key, v) ∈ m := by
  obtain ⟨l₁, l₂, rfl, -⟩ := List.lookup_eq_some_iff.mp h
  exact List.mem_append_right _ List.mem_cons_self

namespace Json

/-- `Value::get` of a key. -/
def get : Json → String → Option Json
  | object m, key => m.lookup key
  | _, _ => none

def asStr : Json → Option String
  | string s => some s
  | _ => none

def asI64 : Json → Option Int64
  | number n => n.asI64
  | _ => none

mutual

/-- `==` of two values: the order of keys does not matter. -/
def same : Json → Json → Bool
  | null, null => true
  | bool b, bool b' => b == b'
  | number n, number n' => n.same n'
  | string s, string s' => s == s'
  | array a, array a' => sameElems a a'
  | object m, object m' => m.length == m'.length && sameFields m m'
  | _, _ => false

def sameElems : List Json → List Json → Bool
  | [], [] => true
  | v :: rest, v' :: rest' => same v v' && sameElems rest rest'
  | _, _ => false

def sameFields : List (String × Json) → List (String × Json) → Bool
  | [], _ => true
  | (k, v) :: rest, m' =>
    (match m'.lookup k with
      | some v' => same v v'
      | none => false) && sameFields rest m'

end

end Json

end XavierDB
