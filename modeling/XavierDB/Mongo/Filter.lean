import XavierDB.Mongo.Order
import Mathlib.Data.List.Lex

/-!
# Filters of MongoDB

`evalDoc` evaluates a filter document on a document. A field condition is an
operator document (`{$gt: v}`, `{$type: [..]}`), a pattern, or a value, which
stands for equality. Each is tried on the readings of the field: its value, or
the elements of an array and the array itself; a missing field reads as null.
Range operators match only values of the operand's bracket and never NaN.
-/

namespace XavierDB.Mongo

open XavierDB

/-- The values a field condition is tried on. -/
def readings : Option Bson → List Bson
  | none => [.null]
  | some (.array xs) => xs ++ [.array xs]
  | some v => [v]

/-- A `$type` name against a value. -/
def typeNamed (name : String) (x : Bson) : Bool :=
  name == x.typeAlias || (name == "number" && x.isNumeric)

/-- `{$type: [names]}`; a missing field has no type. -/
def typeMatch (names : List String) : Option Bson → Bool
  | none => false
  | some w => (readings (some w)).any fun x => names.any fun n => typeNamed n x

variable {K : Type} [LinearOrder K]

namespace Server

variable (S : Server K)

/-- `{f: v}` for a value `v`. -/
def eqMatch (v : Bson) (w : Option Bson) : Bool :=
  (readings w).any fun x => decide (S.key x = S.key v)

/-- A range operator: the operand's bracket, no NaN, and the order asked for. -/
def rangeMatch (rel : SortKey K → SortKey K → Bool) (v : Bson) (w : Option Bson) : Bool :=
  (readings w).any fun x =>
    decide (bracket x = bracket v) && !x.isNaN && !v.isNaN && rel (S.key x) (S.key v)

/-- The names listed by a `$type` operand. -/
def typeOperand : Bson → List String
  | .string s => [s]
  | .array xs => xs.filterMap fun
    | .string s => some s
    | _ => none
  | _ => []

def fieldOp (op : String) (x : Bson) (w : Option Bson) : Bool :=
  if op = "$gt" then S.rangeMatch (fun a b => decide (b < a)) x w
  else if op = "$gte" then S.rangeMatch (fun a b => decide (b ≤ a)) x w
  else if op = "$lt" then S.rangeMatch (fun a b => decide (a < b)) x w
  else if op = "$type" then typeMatch (typeOperand x) w
  else S.otherOp op x w

/-- `{f: v}` for any `v`. -/
def fieldCond (v : Bson) (w : Option Bson) : Bool :=
  match v with
  | .document c =>
    if v.isOperatorDoc then c.all fun p => S.fieldOp p.1 p.2 w else S.eqMatch v w
  | .regularExpression p o => S.regexMatch p o w
  | _ => S.eqMatch v w

mutual

def evalDoc (d : Document) : List (String × Bson) → Bool
  | [] => true
  | (k, v) :: rest => evalClause d k v && evalDoc d rest

def evalClause (d : Document) (k : String) : Bson → Bool
  | .array xs =>
    if k = "$and" then evalAll d xs
    else if k = "$or" then evalAny d xs
    else if isOperatorKey k then S.otherClause k (.array xs) d
    else S.fieldCond (.array xs) (d.get k)
  | v => if isOperatorKey k then S.otherClause k v d else S.fieldCond v (d.get k)

def evalAll (d : Document) : List Bson → Bool
  | [] => true
  | x :: xs => evalArm d x && evalAll d xs

def evalAny (d : Document) : List Bson → Bool
  | [] => false
  | x :: xs => evalArm d x || evalAny d xs

def evalArm (d : Document) : Bson → Bool
  | .document f => evalDoc d f
  | _ => false

end

/-- `find(filter).sort(sort)`, without a limit. -/
def find (docs : List Document) (filter sort : Document) : List Document :=
  S.sorted sort (docs.filter fun d => S.evalDoc d filter)

end Server

/-- A server for closed instances: strings, object ids and booleans in their
order; the values of each other bracket that needs an order tie. -/
def byteServer : Server (List ℕ) where
  inner
    | .string s => s.toList.map Char.toNat
    | .objectId bytes => bytes.map UInt8.toNat
    | .boolean b => [b.toNat]
    | _ => []
  regexMatch _ _ _ := false
  otherOp _ _ _ := false
  otherClause _ _ _ := false

variable {S : Server K} {d : Document}

theorem mem_readings_of_notArray {v x : Bson} (hv : bracket v ≠ .array) :
    x ∈ readings (some v) ↔ x = v := by
  cases v <;> first | exact absurd rfl hv | exact List.mem_singleton

theorem fieldCond_eq_eqMatch {v : Bson} {w : Option Bson} (hop : v.isOperatorDoc = false)
    (hre : bracket v ≠ .regex) : S.fieldCond v w = S.eqMatch v w := by
  cases v with
  | document c => rw [Server.fieldCond, if_neg (by rw [hop]; decide)]
  | regularExpression p o => exact absurd rfl hre
  | _ => rfl

theorem fieldCond_op {op : String} {x : Bson} {w : Option Bson} (hop : isOperatorKey op = true) :
    S.fieldCond (.document [(op, x)]) w = S.fieldOp op x w := by
  rw [Server.fieldCond, if_pos (by exact hop), List.all_cons, List.all_nil, Bool.and_true]

theorem evalClause_field {k : String} {v : Bson} (hk : isOperatorKey k = false) :
    S.evalClause d k v = S.fieldCond v (d.get k) := by
  have ha : k ≠ "$and" := by rintro rfl; exact absurd hk (by decide)
  have ho : k ≠ "$or" := by rintro rfl; exact absurd hk (by decide)
  cases v <;> simp [Server.evalClause, ha, ho, hk]

theorem evalAll_eq {fs : List Document} :
    S.evalAll d (fs.map .document) = fs.all fun f => S.evalDoc d f := by
  induction fs with
  | nil => rfl
  | cons f fs ih => rw [List.map_cons, Server.evalAll, ih]; rfl

theorem evalAny_eq {fs : List Document} :
    S.evalAny d (fs.map .document) = fs.any fun f => S.evalDoc d f := by
  induction fs with
  | nil => rfl
  | cons f fs ih => rw [List.map_cons, Server.evalAny, ih]; rfl

theorem evalDoc_and {f g : Document} :
    S.evalDoc d [("$and", .array [.document f, .document g])] =
      (S.evalDoc d f && S.evalDoc d g) := by
  rw [Server.evalDoc, Server.evalClause, if_pos rfl, Server.evalDoc, Bool.and_true]
  rw [show ([.document f, .document g] : List Bson) = [f, g].map .document from rfl, evalAll_eq]
  simp

theorem evalDoc_or {fs : List Document} :
    S.evalDoc d [("$or", .array (fs.map .document))] = fs.any fun f => S.evalDoc d f := by
  rw [Server.evalDoc, Server.evalClause, if_neg (by decide), if_pos rfl, Server.evalDoc,
    Bool.and_true, evalAny_eq]

end XavierDB.Mongo
