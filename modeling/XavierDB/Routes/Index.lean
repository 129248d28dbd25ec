import XavierDB.Dbq.Index
import XavierDB.Routes.Batch
import XavierDB.Routes.Script

/-!
# `POST /q/{db}/{coll}/indexes` (`src/routes_q.rs`)

The body of a request to ensure an index, checked and turned into a spec.
-/

namespace XavierDB.Routes

open Dbq

structure EnsureIndexBody where
  keys : Json
  name : Option String
  unique : Option Bool
  sparse : Option Bool
  expireAfterSeconds : Option UInt64
  partialFilterExpression : Option Json

variable (T : TextForms)

/-- `1`, `-1` or an index-type string. -/
def isDirection : Bson → Bool
  | .int32 i => i == 1 || i == -1
  | .int64 i => i == 1 || i == -1
  | .string _ => true
  | _ => false

def badRequest {α : Type} (message : String) : Res α := .error (.api (.badRequest message))

/-- `json_to_bson` with the error of a bad request. -/
def bodyToBson (v : Json) : Res Bson := (jsonToBson T v).mapError fun e => .api (.badRequest e)

/-- `parse_keys`. -/
def parseKeys (v : Json) : Res Document := do
  let b ← bodyToBson T v
  let d ← (requireObject b "keys").mapError .api
  if d.isEmpty then badRequest "keys must not be empty"
  else
    match d.find? fun p => !isDirection p.2 with
    | some p =>
      badRequest ("invalid direction for key " ++ debugStr p.1 ++
        ": use 1, -1 or an index-type string")
    | none => .ok d

/-- The partial filter of a body. -/
def parsePartialFilter : Option Json → Res (Option Document)
  | none => .ok none
  | some v =>
    if hasScriptOperator v then scriptNotAllowed
    else do
      match ← bodyToBson T v with
      | .document d => pure (some d)
      | _ => badRequest "partial_filter_expression must be a JSON object"

/-- The checks of `ensure_index`. -/
def ensureIndexSpec (body : EnsureIndexBody) : Res IndexSpec := do
  let keys ← parseKeys T body.keys
  let partialFilter ← parsePartialFilter T body.partialFilterExpression
  if body.name = some "" then badRequest "index name must not be empty"
  else .ok ⟨keys, body.name, body.unique, body.sparse, body.expireAfterSeconds, partialFilter⟩

variable {T}

/-! ## Keys that pass -/

theorem insert_keys (d : Document) (k : String) (v : Bson) :
    (d.insert k v).map Prod.fst =
      if k ∈ d.map Prod.fst then d.map Prod.fst else d.map Prod.fst ++ [k] := by
  induction d with
  | nil => rfl
  | cons p rest ih =>
    rw [Document.insert]
    split
    case isTrue hk => rw [if_pos (by simp [hk]), List.map_cons, List.map_cons, hk]
    case isFalse hk =>
      rw [List.map_cons, ih, List.map_cons]
      by_cases hmem : k ∈ rest.map Prod.fst
      · rw [if_pos hmem, if_pos (List.mem_cons_of_mem _ hmem)]
      · rw [if_neg hmem, if_neg (by simp [Ne.symm hk, hmem]), List.cons_append]

theorem nodup_entriesToBson {m : List (String × Json)} {done d : Document}
    (hdone : (done.map Prod.fst).Nodup) (h : entriesToBson T done m = .ok d) :
    (d.map Prod.fst).Nodup := by
  induction m generalizing done with
  | nil =>
    obtain rfl := Except.ok.inj h
    exact hdone
  | cons p rest ih =>
    rw [entriesToBson] at h
    obtain ⟨b, -, h⟩ := bind_ok h
    refine ih ?_ h
    rw [insert_keys]
    split
    case isTrue => exact hdone
    case isFalse hk => exact hdone.append (List.nodup_singleton _) (by simpa using hk)

theorem same_of_isDirection {v : Bson} (h : isDirection v = true) : v.same v = true := by
  cases v <;> first | exact beq_self_eq_true _ | cases h

theorem eq_of_requireObject {b : Bson} {what : String} {d : Document}
    (h : requireObject b what = .ok d) : b = .document d := by
  unfold requireObject at h
  split at h
  case h_1 => rw [Except.ok.inj h]
  case h_2 => cases h

/-- A NaN is no direction: keys that pass are equal to themselves. -/
theorem parseKeys_same {v : Json} {d : Document} (h : parseKeys T v = .ok d) :
    d.same d = true := by
  unfold parseKeys at h
  obtain ⟨b, hb, h⟩ := bind_ok h
  obtain ⟨d', hd, h⟩ := bind_ok h
  split at h
  case isTrue => cases h
  case isFalse =>
    split at h
    case h_1 => cases h
    case h_2 hfind =>
      obtain rfl := Except.ok.inj h
      obtain rfl := eq_of_requireObject (mapError_ok hd)
      obtain ⟨m, -, -, hm⟩ := document_of_jsonToBson (mapError_ok hb)
      have hnodup := nodup_entriesToBson (by exact List.nodup_nil) hm
      refine Document.same_self hnodup fun p hp => ?_
      have hdir := List.find?_eq_none.mp hfind p hp
      rw [Bool.not_eq_true', Bool.not_eq_false] at hdir
      exact same_of_isDirection hdir

/-- What is asked for through the API without a partial filter is equal to itself. -/
theorem ensureIndexSpec_same {body : EnsureIndexBody} {spec : IndexSpec}
    (h : ensureIndexSpec T body = .ok spec) (hfilter : body.partialFilterExpression = none) :
    spec.keys.same spec.keys = true ∧
      samePartial spec.partialFilterExpression spec.partialFilterExpression = true := by
  unfold ensureIndexSpec at h
  obtain ⟨keys, hkeys, h⟩ := bind_ok h
  rw [hfilter] at h
  obtain ⟨partialFilter, hfilter, h⟩ := bind_ok h
  obtain rfl := Except.ok.inj hfilter
  split at h
  case isTrue => cases h
  case isFalse =>
    obtain rfl := Except.ok.inj h
    exact ⟨parseKeys_same hkeys, rfl⟩

example : ensureIndexSpec tableForms
    ⟨.object [("a", .number (.posInt 1)), ("b", .number (.posInt 1))], none, none, none, none,
      none⟩ =
      .ok ⟨[("a", .int64 1), ("b", .int64 1)], none, none, none, none, none⟩ := rfl

end XavierDB.Routes
