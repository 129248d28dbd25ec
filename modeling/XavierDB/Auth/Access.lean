import XavierDB.Auth.Throttle
import XavierDB.Auth.Identifier
import XavierDB.Auth.Token
import XavierDB.Perms.Allows

/-!
# From login to request (`src/routes_misc.rs`, `src/routes_q.rs`)

Logins and requests take a lock at a time, and between their steps others log in
and change the configuration, the permissions and the throttle. A request that
is served carries the token of a login that the app's credential let through,
and has itself found its identity unblocked and its permission granted.
-/

namespace XavierDB.Auth

open Config (ConfigFile signJwtExp)
open Perms (Credentials PermissionsFile Yaml dummyPhc unauthorized firstLogin)
open Routes (HeaderMap effectiveIp)
open Publish (exists_entry moment)

/-! ## Requests -/

/-- What the requests share. -/
structure Site where
  config : ConfigFile
  keys : Perms.Shared
  throttle : ThrottleMap

inductive Request where
  /-- `POST /auth` -/
  | login (headers : HeaderMap) (peer : IpAddr) (identifier token : String)
  /-- a request under `/q` -/
  | query (headers : HeaderMap) (action db coll : String)
  /-- whatever else changes the configuration, the permissions or the throttle -/
  | other (f : Site → Site)

/-- The clock at a step, the token id it draws, and the outcome of its disk write. -/
structure Act where
  now : Nat
  jti : String
  writeErr : Option String

inductive Phase where
  | idle
  | admitted
  | unblocked (name app : String)
  | hashed (name app hash : String)
  | verified (name app : String)
  | known (name app : String)
  | timed (name app : String) (lifetime : UInt64)
  | issued (token : String) (lifetime : UInt64)
  | authenticated (c : Claims)
  | cleared (c : Claims)
  | served (c : Claims)
  | failed (f : Fail)
  deriving DecidableEq

/-- The hash that a login is checked against. -/
def credentialHash (p : PermissionsFile) (app : String) : String :=
  ((p.apps.get? app).bind Perms.AppEntry.tokenHash).getD dummyPhc

def forbidden (action db coll : String) : ApiError :=
  ⟨.forbidden, "no " ++ action ++ " permission on " ++ db ++ "." ++ coll⟩

variable (C : Credentials) (J : Jwt) (Y : Yaml) (trustProxyHeaders : Bool)

/-- `auth_login`. -/
def loginStep (headers : HeaderMap) (peer : IpAddr) (identifier token : String) (a : Act)
    (s : Site) : Phase → Site × Phase
  | .idle =>
    let ip := effectiveIp trustProxyHeaders headers peer
    let r := throttleCheck s.throttle a.now ip s.config.auth.maxPerMinutePerIp
    ({ s with throttle := r.1 }, match r.2 with
      | .error e => .failed (.api e)
      | .ok () => .admitted)
  | .admitted => (s, match parseIdentifier identifier with
    | none => .failed (.api unauthorized)
    | some (name, app) => match checkBlock s.config name app with
      | .error e => .failed (.api e)
      | .ok () => .unblocked name app)
  | .unblocked name app => (s, .hashed name app (credentialHash s.keys.perms app))
  | .hashed name app hash =>
    (s, if C.verify token hash then .verified name app else .failed (.api unauthorized))
  | .verified name app =>
    ({ s with keys := firstLogin Y name app a.writeErr s.keys }, .known name app)
  | .known name app => (s, .timed name app s.config.global.jwtTokenLifetimeMinutes)
  | .timed name app lifetime => (s, match signJwt J a.now name app lifetime a.jti with
    | .error f => .failed f
    | .ok t => .issued t lifetime)
  | ph => (s, ph)

/-- `authorize`. -/
def queryStep (headers : HeaderMap) (action db coll : String) (a : Act) (s : Site) :
    Phase → Phase
  | .idle => match extractBearer headers with
    | none => .failed (.api unauthorized)
    | some t => match verifyJwt J a.now t with
      | .error e => .failed (.api e)
      | .ok c => .authenticated c
  | .authenticated c => match checkBlock s.config c.sub c.app with
    | .error e => .failed (.api e)
    | .ok () => .cleared c
  | .cleared c =>
    if Perms.allows s.keys.perms c.sub c.app action db coll then .served c
    else .failed (.api (forbidden action db coll))
  | ph => ph

/-- The next step of a request. -/
def advance : Request → Act → Site → Phase → Site × Phase
  | .login headers peer identifier token, a, s, ph =>
    loginStep C J Y trustProxyHeaders headers peer identifier token a s ph
  | .query headers action db coll, a, s, ph => (s, queryStep J headers action db coll a s ph)
  | .other f, _, s, ph => (f s, ph)

/-! ## Runs -/

abbrev State (ι : Type) := Publish.State ι Site Phase

variable {ι : Type} [DecidableEq ι] (req : ι → Request)

def requests : ι → Act → Site → Phase → Site × Phase :=
  fun i => advance C J Y trustProxyHeaders (req i)

/-- A token that reads under the secret was issued here. -/
def Unforged (s : State ι) (a : ι × Act) : Prop :=
  ∀ headers action db coll t c, req a.1 = .query headers action db coll →
    extractBearer headers = some t → J.read t = some c →
      ∃ j lifetime, s.phase j = .issued t lifetime

variable {req C J Y trustProxyHeaders} {s : State ι} {acts : List (ι × Act)} {i : ι}

/-! ## What it takes -/

/-- The throttle lets a login through. -/
def Site.Admits (s : Site) (trustProxyHeaders : Bool) (headers : HeaderMap) (peer : IpAddr)
    (a : Act) : Prop :=
  (throttleCheck s.throttle a.now (effectiveIp trustProxyHeaders headers peer)
    s.config.auth.maxPerMinutePerIp).2 = .ok ()

section

variable (C J Y trustProxyHeaders req) (s : State ι) (acts : List (ι × Act))

/-- What the requests share after `k` steps. -/
def siteAt (k : ℕ) : Site := (moment (requests C J Y trustProxyHeaders req) s acts k).shared

/-- Before step `n` the login `j` was let through for these claims: it passed the
throttle, its identity was not blocked, its app had a credential that it matched, and the
lifetime in force made the expiry. -/
def LoggedIn (j : ι) (c : Claims) (n : ℕ) : Prop :=
  ∃ headers peer identifier secret, req j = .login headers peer identifier secret ∧
    parseIdentifier identifier = some (c.sub, c.app) ∧
    ∃ k₀ k₁ k₂ k₃ k₄ a₀ a₄, k₀ < k₁ ∧ k₁ < k₂ ∧ k₂ < k₃ ∧ k₃ < k₄ ∧ k₄ < n ∧
      (acts[k₀]? = some (j, a₀) ∧
        (siteAt C J Y trustProxyHeaders req s acts k₀).Admits trustProxyHeaders headers peer a₀) ∧
      (c.sub ++ "@" ++ c.app ∉ (siteAt C J Y trustProxyHeaders req s acts k₁).config.blocked ∧
        c.app ∉ (siteAt C J Y trustProxyHeaders req s acts k₁).config.blocked) ∧
      (∃ e h, (siteAt C J Y trustProxyHeaders req s acts k₂).keys.perms.apps.get? c.app = some e ∧
        e.tokenHash = some h ∧ C.verify secret h = true) ∧
      (acts[k₄]? = some (j, a₄) ∧ signJwtExp (a₄.now / 1000 : ℕ)
        (siteAt C J Y trustProxyHeaders req s acts k₃).config.global.jwtTokenLifetimeMinutes =
          some c.exp)

/-- The request `i` may be served for these claims: its token is that of a login before,
then not expired, later its identity is not blocked, and later its permission granted. -/
def MayServe (i : ι) (c : Claims) (n : ℕ) : Prop :=
  ∃ headers action db coll t, req i = .query headers action db coll ∧
    extractBearer headers = some t ∧ J.read t = some c ∧
    ∃ k₁ k₂ k₃ a j, k₁ < k₂ ∧ k₂ < k₃ ∧ k₃ < n ∧
      LoggedIn C J Y trustProxyHeaders req s acts j c k₁ ∧
      (acts[k₁]? = some (i, a) ∧ (a.now / 1000 : ℕ) ≤ c.exp + 5) ∧
      (c.sub ++ "@" ++ c.app ∉ (siteAt C J Y trustProxyHeaders req s acts k₂).config.blocked ∧
        c.app ∉ (siteAt C J Y trustProxyHeaders req s acts k₂).config.blocked) ∧
      Perms.allows (siteAt C J Y trustProxyHeaders req s acts k₃).keys.perms c.sub c.app action db
        coll = true

end

/-! ## What a step can do -/

/-- The moves of a request, each with what it found. -/
inductive Move (C : Credentials) (J : Jwt) (trustProxyHeaders : Bool) :
    Request → Act → Site → Phase → Phase → Prop where
  | admitted {headers peer identifier token a s}
      (h : s.Admits trustProxyHeaders headers peer a) :
      Move C J trustProxyHeaders (.login headers peer identifier token) a s .idle .admitted
  | unblocked {headers peer identifier token a s name app}
      (hid : parseIdentifier identifier = some (name, app))
      (h : checkBlock s.config name app = .ok ()) :
      Move C J trustProxyHeaders (.login headers peer identifier token) a s .admitted
        (.unblocked name app)
  | hashed {headers peer identifier token a s name app} :
      Move C J trustProxyHeaders (.login headers peer identifier token) a s (.unblocked name app)
        (.hashed name app (credentialHash s.keys.perms app))
  | verified {headers peer identifier token a s name app hash} (h : C.verify token hash = true) :
      Move C J trustProxyHeaders (.login headers peer identifier token) a s (.hashed name app hash)
        (.verified name app)
  | known {headers peer identifier token a s name app} :
      Move C J trustProxyHeaders (.login headers peer identifier token) a s (.verified name app)
        (.known name app)
  | timed {headers peer identifier token a s name app} :
      Move C J trustProxyHeaders (.login headers peer identifier token) a s (.known name app)
        (.timed name app s.config.global.jwtTokenLifetimeMinutes)
  | issued {headers peer identifier token a s name app lifetime t}
      (h : signJwt J a.now name app lifetime a.jti = .ok t) :
      Move C J trustProxyHeaders (.login headers peer identifier token) a s
        (.timed name app lifetime) (.issued t lifetime)
  | authenticated {headers action db coll a s t c} (ht : extractBearer headers = some t)
      (h : verifyJwt J a.now t = .ok c) :
      Move C J trustProxyHeaders (.query headers action db coll) a s .idle (.authenticated c)
  | cleared {headers action db coll a s c} (h : checkBlock s.config c.sub c.app = .ok ()) :
      Move C J trustProxyHeaders (.query headers action db coll) a s (.authenticated c) (.cleared c)
  | served {headers action db coll a s c}
      (h : Perms.allows s.keys.perms c.sub c.app action db coll = true) :
      Move C J trustProxyHeaders (.query headers action db coll) a s (.cleared c) (.served c)
  | failed {r a s ph} (f : Fail) : Move C J trustProxyHeaders r a s ph (.failed f)
  | stay {r a s ph} : Move C J trustProxyHeaders r a s ph ph

theorem move_loginStep (headers : HeaderMap) (peer : IpAddr) (identifier token : String) (a : Act)
    (s : Site) (ph : Phase) :
    Move C J trustProxyHeaders (.login headers peer identifier token) a s ph
      (loginStep C J Y trustProxyHeaders headers peer identifier token a s ph).2 := by
  cases ph with
  | idle =>
    dsimp only [loginStep]
    split
    · exact .failed _
    · next h => exact .admitted h
  | admitted =>
    dsimp only [loginStep]
    split
    · exact .failed _
    · next hid =>
      split
      · exact .failed _
      · next h => exact .unblocked hid h
  | unblocked name app => exact .hashed
  | hashed name app hash =>
    dsimp only [loginStep]
    split
    · next h => exact .verified h
    · exact .failed _
  | verified name app => exact .known
  | known name app => exact .timed
  | timed name app lifetime =>
    dsimp only [loginStep]
    split
    · exact .failed _
    · next h => exact .issued h
  | issued | authenticated | cleared | served | failed => exact .stay

theorem move_queryStep (headers : HeaderMap) (action db coll : String) (a : Act) (s : Site)
    (ph : Phase) :
    Move C J trustProxyHeaders (.query headers action db coll) a s ph
      (queryStep J headers action db coll a s ph) := by
  cases ph with
  | idle =>
    dsimp only [queryStep]
    split
    · exact .failed _
    · next ht =>
      split
      · exact .failed _
      · next h => exact .authenticated ht h
  | authenticated c =>
    dsimp only [queryStep]
    split
    · exact .failed _
    · next h => exact .cleared h
  | cleared c =>
    dsimp only [queryStep]
    split
    · next h => exact .served h
    · exact .failed _
  | admitted | unblocked | hashed | verified | known | timed | issued | served | failed =>
    exact .stay

theorem move_advance (r : Request) (a : Act) (s : Site) (ph : Phase) :
    Move C J trustProxyHeaders r a s ph (advance C J Y trustProxyHeaders r a s ph).2 := by
  cases r with
  | login headers peer identifier token => exact move_loginStep headers peer identifier token a s ph
  | query headers action db coll => exact move_queryStep headers action db coll a s ph
  | other f => exact .stay

/-- A phase that a request has come to was the end of a move of its own. -/
theorem exists_move (h0 : s.phase i = .idle) {ph : Phase} {n : ℕ}
    (h : (moment (requests C J Y trustProxyHeaders req) s acts n).phase i = ph)
    (hidle : ph ≠ .idle) :
    ∃ k a ph₀, k < n ∧ acts[k]? = some (i, a) ∧ ph₀ ≠ ph ∧
      (moment (requests C J Y trustProxyHeaders req) s acts k).phase i = ph₀ ∧
      Move C J trustProxyHeaders (req i) a
        (moment (requests C J Y trustProxyHeaders req) s acts k).shared ph₀ ph := by
  obtain ⟨k, a, hk, ha, hne, heq⟩ := exists_entry (P := (· = ph)) (fun h => hidle (h ▸ h0)) h
  refine ⟨k, a, _, hk, ha, hne, rfl, ?_⟩
  rw [← heq]
  exact move_advance _ _ _ _

/-! ## Runs -/

/-- A credential that matches is that of an app. -/
theorem exists_of_verify {p : PermissionsFile} {app secret : String}
    (h : C.verify secret (credentialHash p app) = true) :
    ∃ e h, p.apps.get? app = some e ∧ e.tokenHash = some h ∧ C.verify secret h = true := by
  unfold credentialHash at h
  cases he : p.apps.get? app with
  | none =>
    rw [he, Option.bind_none, Option.getD_none, C.verify_dummyPhc] at h
    cases h
  | some e =>
    rw [he, Option.bind_some] at h
    cases hh : e.tokenHash with
    | none =>
      rw [hh, Option.getD_none, C.verify_dummyPhc] at h
      cases h
    | some phc =>
      rw [hh, Option.getD_some] at h
      exact ⟨e, phc, rfl, hh, h⟩

/-- A login past the block list was admitted, and its identity was not blocked. -/
theorem admitted_of_unblocked (hidle : s.phase i = .idle) {n : ℕ} {headers : HeaderMap}
    {peer : IpAddr} {identifier secret name app : String}
    (hr : req i = .login headers peer identifier secret)
    (h : (moment (requests C J Y trustProxyHeaders req) s acts n).phase i = .unblocked name app) :
    parseIdentifier identifier = some (name, app) ∧ ∃ k₀ k₁ a, k₀ < k₁ ∧ k₁ < n ∧
      (acts[k₀]? = some (i, a) ∧
        (siteAt C J Y trustProxyHeaders req s acts k₀).Admits trustProxyHeaders headers peer a) ∧
      name ++ "@" ++ app ∉ (siteAt C J Y trustProxyHeaders req s acts k₁).config.blocked ∧
      app ∉ (siteAt C J Y trustProxyHeaders req s acts k₁).config.blocked := by
  obtain ⟨k₁, a₁, ph₁, hk₁, -, hne₁, hph₁, hunblocked⟩ := exists_move hidle h nofun
  rw [hr] at hunblocked
  cases hunblocked with
  | stay => exact absurd rfl hne₁
  | unblocked hid hblock =>
    obtain ⟨k₀, a₀, ph₀, hk₀, ha₀, hne₀, -, hadmitted⟩ := exists_move hidle hph₁ nofun
    rw [hr] at hadmitted
    cases hadmitted with
    | stay => exact absurd rfl hne₀
    | admitted hthrottle =>
      exact ⟨hid, k₀, k₁, a₀, hk₀, hk₁, ⟨ha₀, hthrottle⟩, checkBlock_iff.mp hblock⟩

/-- A login past its credential check matched the credential that its app had. -/
theorem credential_of_verified (hidle : s.phase i = .idle) {n : ℕ} {headers : HeaderMap}
    {peer : IpAddr} {identifier secret name app : String}
    (hr : req i = .login headers peer identifier secret)
    (h : (moment (requests C J Y trustProxyHeaders req) s acts n).phase i = .verified name app) :
    ∃ k < n, (moment (requests C J Y trustProxyHeaders req) s acts k).phase i =
        .unblocked name app ∧
      ∃ e h, (siteAt C J Y trustProxyHeaders req s acts k).keys.perms.apps.get? app = some e ∧
        e.tokenHash = some h ∧ C.verify secret h = true := by
  obtain ⟨k, a, ph, hk, -, hne, hph, hverified⟩ := exists_move hidle h nofun
  rw [hr] at hverified
  cases hverified with
  | stay => exact absurd rfl hne
  | @verified _ _ _ _ _ _ _ _ hash hverify =>
    obtain ⟨k₂, a₂, ph₂, hk₂, -, hne₂, hph₂, hhashed⟩ := exists_move hidle hph nofun
    rw [hr] at hhashed
    generalize hh : hash = phc at hhashed
    cases hhashed with
    | stay => exact absurd (hh ▸ rfl) hne₂
    | hashed => exact ⟨k₂, by omega, hph₂, exists_of_verify (hh ▸ hverify)⟩

/-- A login that is to sign a token took the lifetime in force once it was verified. -/
theorem lifetime_of_timed (hidle : s.phase i = .idle) {n : ℕ} {headers : HeaderMap}
    {peer : IpAddr} {identifier secret name app : String} {lifetime : UInt64}
    (hr : req i = .login headers peer identifier secret)
    (h : (moment (requests C J Y trustProxyHeaders req) s acts n).phase i =
      .timed name app lifetime) :
    ∃ k₂ k₃, k₂ < k₃ ∧ k₃ < n ∧
      (moment (requests C J Y trustProxyHeaders req) s acts k₂).phase i = .verified name app ∧
      (siteAt C J Y trustProxyHeaders req s acts k₃).config.global.jwtTokenLifetimeMinutes =
        lifetime := by
  obtain ⟨k₃, a₃, ph₃, hk₃, -, hne₃, hph₃, htimed⟩ := exists_move hidle h nofun
  rw [hr] at htimed
  generalize hlifetime : lifetime = l at htimed
  cases htimed with
  | stay => exact absurd (hlifetime ▸ rfl) hne₃
  | timed =>
    obtain ⟨k₂, a₂, ph₂, hk₂, -, hne₂, hph₂, hknown⟩ := exists_move hidle hph₃ nofun
    rw [hr] at hknown
    cases hknown with
    | stay => exact absurd rfl hne₂
    | known => exact ⟨k₂, k₃, hk₂, hk₃, hph₂, rfl⟩

/-- A token that was issued is that of a login. -/
theorem loggedIn_of_issued (hidle : s.phase i = .idle) {n : ℕ} {t : String} {lifetime : UInt64}
    {c : Claims} (hread : J.read t = some c)
    (h : (moment (requests C J Y trustProxyHeaders req) s acts n).phase i = .issued t lifetime) :
    LoggedIn C J Y trustProxyHeaders req s acts i c n := by
  obtain ⟨k₄, a₄, ph₄, hk₄, ha₄, hne₄, hph₄, hissued⟩ := exists_move hidle h nofun
  generalize hr : req i = r at hissued
  cases hissued with
  | stay => exact absurd rfl hne₄
  | @issued headers peer identifier secret _ _ name app _ _ hsign =>
    obtain ⟨exp, hexp, hclaims⟩ := signJwt_ok hsign
    obtain rfl := Option.some.inj (hread.symm.trans hclaims)
    obtain ⟨k', k₃, hk', hk₃, hph', rfl⟩ := lifetime_of_timed hidle hr hph₄
    obtain ⟨k₂, hk₂, hph₂, hcredential⟩ := credential_of_verified hidle hr hph'
    obtain ⟨hid, k₀, k₁, a₀, hk₀, hk₁, hthrottle, hblock⟩ := admitted_of_unblocked hidle hr hph₂
    exact ⟨headers, peer, identifier, secret, hr, hid, k₀, k₁, k₂, k₃, k₄, a₀, a₄, hk₀, hk₁,
      by omega, hk₃, hk₄, hthrottle, hblock, hcredential, ha₄, hexp⟩

/-- The condition holds at each step of the run. -/
theorem unforged_at
    (h : Run.Along (Publish.step (requests C J Y trustProxyHeaders req)) (Unforged J req) s acts)
    {k : ℕ} {a : ι × Act} (ha : acts[k]? = some a) :
    Unforged J req (moment (requests C J Y trustProxyHeaders req) s acts k) a := by
  obtain ⟨hk, rfl⟩ := List.getElem?_eq_some_iff.mp ha
  have hsplit := List.take_append_drop k acts
  rw [List.drop_eq_getElem_cons hk] at hsplit
  rw [← hsplit] at h
  exact (Run.along_append.mp h).2.1

/-- **Only the logged in are served**, in any interleaving: with tokens that cannot be
forged, a request is served for the name and the app of a login whose secret matched the
app's credential, before the token's expiry and its leeway, while neither the identity nor
the app was blocked, and with the permission it asked for. -/
theorem served_of_loggedIn (hidle : ∀ i, s.phase i = .idle)
    (hforge : Run.Along (Publish.step (requests C J Y trustProxyHeaders req)) (Unforged J req) s
      acts)
    {c : Claims}
    (h : (Publish.run (requests C J Y trustProxyHeaders req) s acts).phase i = .served c) :
    MayServe C J Y trustProxyHeaders req s acts i c acts.length := by
  rw [← List.take_length (l := acts)] at h
  obtain ⟨k₃, a₃, ph₃, hk₃, -, hne₃, hph₃, hserved⟩ := exists_move (hidle i) h nofun
  generalize hr : req i = r at hserved
  cases hserved with
  | stay => exact absurd rfl hne₃
  | @served headers action db coll _ _ _ hallows =>
    obtain ⟨k₂, a₂, ph₂, hk₂, -, hne₂, hph₂, hcleared⟩ := exists_move (hidle i) hph₃ nofun
    rw [hr] at hcleared
    cases hcleared with
    | stay => exact absurd rfl hne₂
    | cleared hblock =>
      obtain ⟨k₁, a₁, ph₁, hk₁, ha₁, hne₁, -, hauthenticated⟩ := exists_move (hidle i) hph₂ nofun
      rw [hr] at hauthenticated
      cases hauthenticated with
      | stay => exact absurd rfl hne₁
      | authenticated ht hverify =>
        obtain ⟨hread, hexp⟩ := verifyJwt_ok.mp hverify
        obtain ⟨j, lifetime, hj⟩ := unforged_at hforge ha₁ _ _ _ _ _ _ hr ht hread
        exact ⟨headers, action, db, coll, _, hr, ht, hread, k₁, k₂, k₃, a₁, j, hk₁, hk₂, hk₃,
          loggedIn_of_issued (hidle j) hread hj, ⟨ha₁, hexp⟩, checkBlock_iff.mp hblock, hallows⟩

/-! ## An instance -/

def claimsCodec : Codec Claims :=
  (Codec.string.prod (.prod .string (.prod .int (.prod .int .string)))).imap
    (fun p => ⟨p.1, p.2.1, p.2.2.1, p.2.2.2.1, p.2.2.2.2⟩)
    (fun c => (c.sub, c.app, c.iat, c.exp, c.jti)) fun _ => rfl

def clerkClaims : Claims := ⟨"clerk", "shop", 60, 5460, "id"⟩

def claimsTable : List (Claims × String) := [(clerkClaims, "clerk-token")]

def sampleJwt : Jwt where
  encode c := .ok (claimsCodec.tableText '%' claimsTable c)
  decode leeway now t :=
    (claimsCodec.ofTableText claimsTable t).filter fun c => (now : Int) ≤ c.exp + leeway
  read t := claimsCodec.ofTableText claimsTable t
  decode_iff := by simp [Option.filter_eq_some_iff]
  read_encode {c t} h := by
    rw [← Except.ok.inj h]
    refine Codec.ofTableText_tableText _ (by decide) (fun p hp => ?_) c
    rw [List.mem_singleton.mp hp]
    exact ⟨'c', "lerk-token".toList, by decide, by decide⟩

/-- A grant of everything, saved while the clerk is logging in. -/
def grantAll (s : Site) : Site :=
  { s with keys := { s.keys with perms := ⟨SortedMap.empty.insert "shop"
    { Perms.AppEntry.default with
      tokenHash := some Perms.shopPhc, allow := [⟨["GET"], ["*"], ["*"]⟩] }⟩ } }

/-- A login, the grant, and a request with the token of the login. -/
def clerkRequests : Fin 3 → Request
  | 0 => .login [] Routes.peerSample "clerk@shop" "till-secret"
  | 1 => .other grantAll
  | 2 => .query [("authorization", utf8Bytes "Bearer clerk-token")] "GET" "db" "c"

def clerkState : State (Fin 3) :=
  ⟨⟨.default 0, ⟨⟨Perms.shopApps⟩, "", none, 0⟩, fun _ => none⟩, fun _ => .idle⟩

def clerkActs : List (Fin 3 × Act) :=
  [0, 0, 0, 0, 1, 0, 0, 0, 2, 2, 2].map fun i => (i, ⟨60000, "id", none⟩)

theorem served_of_loggedIn_clerk :
    MayServe Perms.sampleCredentials sampleJwt Perms.sampleYaml true clerkRequests clerkState
      clerkActs 2 clerkClaims clerkActs.length := by
  refine served_of_loggedIn (fun _ => rfl) ?_ (by decide +kernel)
  have hother : ∀ (s : State (Fin 3)) i a, i ≠ 2 → Unforged sampleJwt clerkRequests s (i, a) := by
    rintro s ⟨i, hi3⟩ a hi headers action db coll t c hr
    rcases i with _ | _ | i
    · cases hr
    · cases hr
    · exact absurd (Fin.ext (show i + 2 = 2 by omega)) hi
  have hquery : ∀ (s : State (Fin 3)) a, s.phase 0 = .issued "clerk-token" 90 →
      Unforged sampleJwt clerkRequests s (2, a) := by
    rintro s a hs headers action db coll t c ⟨⟩ ht -
    have htoken : extractBearer [("authorization", utf8Bytes "Bearer clerk-token")] =
        some "clerk-token" := by decide +kernel
    obtain rfl := Option.some.inj (htoken.symm.trans ht)
    exact ⟨0, 90, hs⟩
  exact ⟨hother _ _ _ (by decide), hother _ _ _ (by decide), hother _ _ _ (by decide),
    hother _ _ _ (by decide), hother _ _ _ (by decide), hother _ _ _ (by decide),
    hother _ _ _ (by decide), hother _ _ _ (by decide), hquery _ _ (by decide +kernel),
    hquery _ _ (by decide +kernel), hquery _ _ (by decide +kernel), trivial⟩

end XavierDB.Auth
