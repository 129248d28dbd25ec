import XavierDB.Config.Ranges
import XavierDB.Perms.Save
import XavierDB.Routes.ClientIp

/-!
# Tokens and blocks (`src/auth.rs`, `src/routes_q.rs`, `src/config.rs`)

What a request proves its identity with, and who is refused whatever it proves.
-/

namespace XavierDB.Auth

open Config (ConfigFile signJwtExp)
open Perms (unauthorized)
open Routes (HeaderMap toStr)

/-! ## Tokens -/

structure Claims where
  /-- the name -/
  sub : String
  app : String
  iat : Int
  exp : Int
  jti : String
  deriving DecidableEq, Repr

/-- The crate `jsonwebtoken` under the server's secret. -/
structure Jwt where
  encode : Claims → Except String String
  /-- `decode` with a leeway, at a time, both in seconds -/
  decode : Nat → Nat → String → Option Claims
  /-- the claims of a token whose signature is right -/
  read : String → Option Claims
  read_encode : ∀ {c t}, encode c = .ok t → read t = some c
  /-- such a token passes until its expiry is more than the leeway ago -/
  decode_iff : ∀ {leeway now t c}, decode leeway now t = some c ↔
    read t = some c ∧ (now : Int) ≤ c.exp + leeway

/-- `sign_jwt`; `now` is in milliseconds since the epoch. -/
def signJwt (J : Jwt) (now : Nat) (name app : String) (lifetimeMinutes : UInt64) (jti : String) :
    Res String :=
  let now : Nat := now / 1000
  match signJwtExp now lifetimeMinutes with
  | none => .error .panic
  | some exp =>
    (J.encode ⟨name, app, now, exp, jti⟩).mapError fun e =>
      .api (.internal ("jwt sign failed: " ++ e))

/-- `verify_jwt`, with its leeway of five seconds. -/
def verifyJwt (J : Jwt) (now : Nat) (token : String) : Except ApiError Claims :=
  match J.decode 5 (now / 1000) token with
  | none => .error unauthorized
  | some c => .ok c

/-! ## Where a request carries it -/

/-- `s.split(sep)`. -/
def splitChar (sep : Char) (s : String) : List String := (s.toList.splitOn sep).map String.ofList

/-- The first cookie of this name on the first cookie line. -/
def cookieValue (headers : HeaderMap) (name : String) : Option String := do
  let s ← (headers.get "cookie").bind toStr
  (splitChar ';' s).findSome? fun part => stripPrefix (name ++ "=") (trim part)

/-- `extract_bearer`. -/
def extractBearer (headers : HeaderMap) : Option String :=
  match ((headers.get "authorization").bind toStr).bind (stripPrefix "Bearer ") with
  | some rest => some (trim rest)
  | none => (cookieValue headers "xdb_token").map trim

/-- `session_cookie`. -/
def sessionCookie (headers : HeaderMap) : Option String := cookieValue headers "xdb_admin"

/-! ## Blocks -/

def isBlocked (c : ConfigFile) (id : String) : Bool := c.blocked.any (· == id)

inductive BlockStatus where
  | none
  | name
  | app
  deriving DecidableEq, Repr

/-- `blocked_status`. -/
def blockedStatus (c : ConfigFile) (name app : String) : BlockStatus :=
  if isBlocked c (name ++ "@" ++ app) then .name
  else if isBlocked c app then .app
  else .none

def blocked : ApiError := ⟨.blocked, "this identifier is blocked"⟩

/-- `check_block`. -/
def checkBlock (c : ConfigFile) (name app : String) : Except ApiError Unit :=
  match blockedStatus c name app with
  | .none => .ok ()
  | _ => .error blocked

theorem checkBlock_iff {c : ConfigFile} {name app : String} :
    checkBlock c name app = .ok () ↔ name ++ "@" ++ app ∉ c.blocked ∧ app ∉ c.blocked := by
  have hany : ∀ id, isBlocked c id = true ↔ id ∈ c.blocked := fun id => by
    rw [isBlocked, List.any_eq_true]
    exact ⟨fun ⟨x, hx, he⟩ => eq_of_beq he ▸ hx, fun h => ⟨id, h, beq_self_eq_true id⟩⟩
  rw [← hany, ← hany, checkBlock, blockedStatus]
  cases isBlocked c (name ++ "@" ++ app) with
  | true => simp
  | false => cases isBlocked c app <;> simp

theorem signJwt_ok {J : Jwt} {now : Nat} {name app jti t : String} {lifetime : UInt64}
    (h : signJwt J now name app lifetime jti = .ok t) :
    ∃ exp, signJwtExp (now / 1000 : Nat) lifetime = some exp ∧
      J.read t = some ⟨name, app, (now / 1000 : Nat), exp, jti⟩ := by
  unfold signJwt at h
  dsimp only at h
  split at h
  · cases h
  case h_2 exp hexp => exact ⟨exp, hexp, J.read_encode (mapError_ok h)⟩

theorem verifyJwt_ok {J : Jwt} {now : Nat} {t : String} {c : Claims} :
    verifyJwt J now t = .ok c ↔ J.read t = some c ∧ (now / 1000 : Nat) ≤ c.exp + 5 := by
  have hdecode := @J.decode_iff 5 (now / 1000) t c
  rw [verifyJwt]
  cases hd : J.decode 5 (now / 1000) t with
  | none => simpa [hd] using hdecode
  | some c' => simpa [hd] using hdecode

end XavierDB.Auth
