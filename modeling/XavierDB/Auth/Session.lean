import XavierDB.Auth.Throttle
import XavierDB.Auth.Token

/-!
# Admin sessions (`src/auth.rs`, `src/routes_admin.rs`)

A session lives in memory under its token. A check that finds it expired drops
it; nothing else does. Over a run, a token opens the dashboard exactly when the
login that drew it has not expired, was not logged out, and was not found expired
before, by a clock that has since been set back.
-/

namespace XavierDB.Auth

open Config (adminSessionExpires)
open Perms (Credentials dummyPhc unauthorized)
open Routes (HeaderMap effectiveIp)

structure AdminSession where
  user : String
  expiresMs : Int
  deriving DecidableEq, Repr

abbrev Sessions := String → Option AdminSession

/-! ## The code -/

/-- `create_admin_session`, with the token it draws. -/
def createAdminSession (sessions : Sessions) (now : Nat) (ttlHours : UInt64) (user token : String) :
    Res Sessions :=
  match adminSessionExpires now ttlHours with
  | none => .error .panic
  | some expires => .ok (Function.update sessions token (some ⟨user, expires⟩))

/-- `check_admin_session`. -/
def checkAdminSession (sessions : Sessions) (now : Nat) (token : String) :
    Sessions × Except ApiError String :=
  match sessions token with
  | none => (sessions, .error unauthorized)
  | some sess =>
    if sess.expiresMs < now then (Function.update sessions token none, .error unauthorized)
    else (sessions, .ok sess.user)

/-- `require_admin`. -/
def requireAdmin (sessions : Sessions) (now : Nat) (headers : HeaderMap) :
    Sessions × Except ApiError String :=
  match sessionCookie headers with
  | none => (sessions, .error unauthorized)
  | some token => checkAdminSession sessions now token

/-- What does not change while the server runs. -/
structure Dashboard where
  credentials : Credentials
  adminUser : String
  passwordHash : String
  dashLoginMaxPerMin : UInt32
  trustProxyHeaders : Bool
  https : Bool

structure DashState where
  sessions : Sessions
  throttle : ThrottleMap
  sessionTtlHours : UInt64

/-- The cookie that a login sets. -/
def loginCookie (https : Bool) (token : String) (ttlHours : UInt64) : String :=
  "xdb_admin=" ++ token ++ "; Path=/dashboard; HttpOnly; SameSite=Strict; Max-Age=" ++
    toString (ttlHours * 3600) ++ if https then "; Secure" else ""

/-- The credential check of `login`. -/
def credentialOk (D : Dashboard) (username password : String) : Bool :=
  let userOk := username == D.adminUser && !D.passwordHash.isEmpty
  let hash := if userOk then D.passwordHash else dummyPhc
  let ok := D.credentials.verify password hash
  userOk && ok

/-- `login`. -/
def login (D : Dashboard) (s : DashState) (now : Nat) (headers : HeaderMap) (peer : IpAddr)
    (username password token : String) : DashState × Res String :=
  let r := throttleCheck s.throttle now (effectiveIp D.trustProxyHeaders headers peer)
    D.dashLoginMaxPerMin
  let s := { s with throttle := r.1 }
  match r.2 with
  | .error e => (s, .error (.api e))
  | .ok () =>
    if !credentialOk D username password then (s, .error (.api unauthorized))
    else match createAdminSession s.sessions now s.sessionTtlHours username token with
      | .error f => (s, .error f)
      | .ok sessions =>
        ({ s with sessions := sessions }, .ok (loginCookie D.https token s.sessionTtlHours))

/-- `logout`. -/
def logout (sessions : Sessions) (headers : HeaderMap) : Sessions :=
  match sessionCookie headers with
  | none => sessions
  | some token => Function.update sessions token none

/-! ## Runs -/

inductive DashEvent where
  /-- the token is what the login draws, if it comes so far -/
  | login (now : Nat) (headers : HeaderMap) (peer : IpAddr) (username password token : String)
  | logout (headers : HeaderMap)
  /-- any other request under `/dashboard/api` -/
  | guarded (now : Nat) (headers : HeaderMap)
  /-- the settings change -/
  | configure (sessionTtlHours : UInt64)
  | sweep (now : Nat)

def dashStep (D : Dashboard) (s : DashState) : DashEvent → DashState
  | .login now headers peer username password token =>
    (login D s now headers peer username password token).1
  | .logout headers => { s with sessions := logout s.sessions headers }
  | .guarded now headers => { s with sessions := (requireAdmin s.sessions now headers).1 }
  | .configure ttl => { s with sessionTtlHours := ttl }
  | .sweep now => { s with throttle := throttleSweep s.throttle now }

def dashStart (sessionTtlHours : UInt64) : DashState :=
  ⟨fun _ => none, fun _ => none, sessionTtlHours⟩

def dashRun (D : Dashboard) (ttl : UInt64) (es : List DashEvent) : DashState :=
  es.foldl (dashStep D) (dashStart ttl)

/-- The event is a login that goes through, of the admin by the admin's password. -/
def Opens (D : Dashboard) (s : DashState) (e : DashEvent) (token : String) (sess : AdminSession) :
    Prop :=
  ∃ now headers peer password cookie, e = .login now headers peer sess.user password token ∧
    (login D s now headers peer sess.user password token).2 = .ok cookie ∧
    sess.user = D.adminUser ∧ D.passwordHash ≠ "" ∧
    D.credentials.verify password D.passwordHash = true ∧
    adminSessionExpires now s.sessionTtlHours = some sess.expiresMs

/-- The event logs the token out. -/
def Closes (e : DashEvent) (token : String) : Prop :=
  ∃ headers, e = .logout headers ∧ sessionCookie headers = some token

/-- The event is a request that finds the session expired. -/
def Expires (e : DashEvent) (token : String) (sess : AdminSession) : Prop :=
  ∃ now headers, e = .guarded now headers ∧ sessionCookie headers = some token ∧
    sess.expiresMs < (now : Nat)

/-- The session that the last login with this token opened, neither logged out nor found
expired since. -/
inductive Open (D : Dashboard) (ttl : UInt64) : List DashEvent → String → AdminSession → Prop where
  | login {es e token sess} (h : Opens D (dashRun D ttl es) e token sess) :
      Open D ttl (es ++ [e]) token sess
  | keep {es e token sess} (h : Open D ttl es token sess) (hout : ¬Closes e token)
      (hfound : ¬Expires e token sess) (hin : ∀ sess', ¬Opens D (dashRun D ttl es) e token sess') :
      Open D ttl (es ++ [e]) token sess

variable {D : Dashboard} {ttl : UInt64} {es : List DashEvent} {s : DashState} {e : DashEvent}
  {token : String} {sess : AdminSession} {now : Nat}

/-! ## One event -/

theorem credentialOk_iff {username password : String} :
    credentialOk D username password = true ↔ username = D.adminUser ∧ D.passwordHash ≠ "" ∧
      D.credentials.verify password D.passwordHash = true := by
  unfold credentialOk
  dsimp only
  by_cases hu : (username == D.adminUser && !D.passwordHash.isEmpty) = true
  · rw [if_pos hu, hu, Bool.true_and]
    rw [Bool.and_eq_true, beq_iff_eq, Bool.not_eq_true', String.isEmpty_eq_false_iff] at hu
    exact ⟨fun h => ⟨hu.1, hu.2, h⟩, fun h => h.2.2⟩
  · rw [Bool.not_eq_true] at hu
    rw [hu, Bool.false_and]
    refine iff_of_false Bool.false_ne_true fun h => ?_
    rw [h.1, beq_self_eq_true, Bool.true_and, Bool.not_eq_false', String.isEmpty_iff] at hu
    exact h.2.1 hu

/-- A login that sets its cookie opens the session of its token, and no other does anything. -/
theorem sessions_login (headers : HeaderMap) (peer : IpAddr) (username password tok : String) :
    (∃ sess, sess.user = username ∧
      Opens D s (.login now headers peer username password tok) tok sess ∧
      (login D s now headers peer username password tok).1.sessions =
        Function.update s.sessions tok (some sess)) ∨
    ((∀ t sess, ¬Opens D s (.login now headers peer username password tok) t sess) ∧
      (login D s now headers peer username password tok).1.sessions = s.sessions) := by
  have hshut : ∀ {f}, (login D s now headers peer username password tok).2 = .error f →
      ∀ t sess, ¬Opens D s (.login now headers peer username password tok) t sess := by
    rintro f hf t sess ⟨_, _, _, _, _, ⟨⟩, hok, -⟩
    rw [hf] at hok
    cases hok
  unfold login at hshut ⊢
  dsimp only at hshut ⊢
  split at hshut
  case h_1 hthrottle => exact .inr ⟨hshut rfl, rfl⟩
  case h_2 hthrottle =>
    by_cases hcred : credentialOk D username password = true
    · rw [hcred, Bool.not_true, if_neg Bool.false_ne_true] at hshut ⊢
      unfold createAdminSession at hshut ⊢
      cases hexp : adminSessionExpires now s.sessionTtlHours with
      | none =>
        rw [hexp] at hshut
        exact .inr ⟨hshut rfl, rfl⟩
      | some expires =>
        obtain ⟨huser, hhash, hverify⟩ := credentialOk_iff.mp hcred
        refine .inl ⟨⟨username, expires⟩, rfl, ⟨now, headers, peer, password,
          loginCookie D.https tok s.sessionTtlHours, rfl, ?_, huser, hhash, hverify, hexp⟩, rfl⟩
        unfold login createAdminSession
        simp only [hthrottle, hcred, hexp, Bool.not_true, Bool.false_eq_true, if_false]
    · rw [Bool.not_eq_true] at hcred
      rw [hcred, Bool.not_false, if_pos rfl] at hshut ⊢
      exact .inr ⟨hshut rfl, rfl⟩

/-- What an event does to the session of a token. -/
theorem sessions_dashStep (D : Dashboard) (s : DashState) (e : DashEvent) (token : String) :
    (∃ sess, Opens D s e token sess ∧ (dashStep D s e).sessions token = some sess) ∨
    (∀ sess, ¬Opens D s e token sess) ∧
      ((Closes e token ∨ ∃ sess, s.sessions token = some sess ∧ Expires e token sess) ∧
          (dashStep D s e).sessions token = none ∨
        ¬Closes e token ∧ (∀ sess, s.sessions token = some sess → ¬Expires e token sess) ∧
          (dashStep D s e).sessions token = s.sessions token) := by
  cases e with
  | login now headers peer username password tok =>
    rcases sessions_login headers peer username password tok with
      ⟨sess, -, hopens, heq⟩ | ⟨hno, heq⟩
    · by_cases ht : token = tok
      · subst ht
        exact .inl ⟨sess, hopens, by rw [dashStep, heq, Function.update_self]⟩
      · refine .inr ⟨?_, .inr ⟨nofun, nofun, ?_⟩⟩
        · rintro sess' ⟨_, _, _, _, _, ⟨⟩, -⟩
          exact ht rfl
        · rw [dashStep, heq, Function.update_of_ne ht]
    · exact .inr ⟨hno token, .inr ⟨nofun, nofun, by rw [dashStep, heq]⟩⟩
  | logout headers =>
    refine .inr ⟨nofun, ?_⟩
    dsimp only [dashStep, logout]
    cases hcookie : sessionCookie headers with
    | none =>
      refine .inr ⟨?_, nofun, rfl⟩
      rintro ⟨_, ⟨⟩, h⟩
      rw [hcookie] at h
      cases h
    | some tok =>
      by_cases ht : token = tok
      · subst ht
        exact .inl ⟨.inl ⟨headers, rfl, hcookie⟩, Function.update_self ..⟩
      · refine .inr ⟨?_, nofun, Function.update_of_ne ht ..⟩
        rintro ⟨_, ⟨⟩, h⟩
        exact ht (Option.some.inj (h.symm.trans hcookie))
  | guarded now headers =>
    refine .inr ⟨nofun, ?_⟩
    dsimp only [dashStep, requireAdmin, checkAdminSession]
    cases hcookie : sessionCookie headers with
    | none =>
      refine .inr ⟨nofun, ?_, rfl⟩
      rintro sess - ⟨_, _, ⟨⟩, h, -⟩
      rw [hcookie] at h
      cases h
    | some tok =>
      -- a request with another token leaves the session of this one
      have hother (ht : token ≠ tok) : ∀ sess, ¬Expires (.guarded now headers) token sess := by
        rintro sess ⟨_, _, ⟨⟩, h, -⟩
        exact ht (Option.some.inj (h.symm.trans hcookie))
      dsimp only
      cases hsess : s.sessions tok with
      | none =>
        refine .inr ⟨nofun, fun sess hmem => ?_, rfl⟩
        refine hother ?_ sess
        rintro rfl
        rw [hsess] at hmem
        cases hmem
      | some sess =>
        dsimp only
        by_cases ht : token = tok
        · subst ht
          by_cases hexp : sess.expiresMs < now
          · rw [if_pos hexp]
            refine .inl ⟨.inr ⟨sess, hsess, now, headers, rfl, hcookie, hexp⟩, ?_⟩
            exact Function.update_self ..
          · rw [if_neg hexp]
            refine .inr ⟨nofun, ?_, rfl⟩
            rintro sess' hmem ⟨_, _, ⟨⟩, -, hlt⟩
            obtain rfl := Option.some.inj (hsess.symm.trans hmem)
            exact hexp hlt
        · refine .inr ⟨nofun, fun sess' _ => hother ht sess', ?_⟩
          split
          · exact Function.update_of_ne ht ..
          · rfl
  | configure ttl => exact .inr ⟨nofun, .inr ⟨nofun, nofun, rfl⟩⟩
  | sweep now => exact .inr ⟨nofun, .inr ⟨nofun, nofun, rfl⟩⟩

/-! ## A run -/

theorem dashRun_concat (D : Dashboard) (ttl : UInt64) (es : List DashEvent) (e : DashEvent) :
    dashRun D ttl (es ++ [e]) = dashStep D (dashRun D ttl es) e := by
  rw [dashRun, List.foldl_append]
  rfl

theorem open_concat_iff : Open D ttl (es ++ [e]) token sess ↔
    Opens D (dashRun D ttl es) e token sess ∨
      Open D ttl es token sess ∧ ¬Closes e token ∧ ¬Expires e token sess ∧
        ∀ sess', ¬Opens D (dashRun D ttl es) e token sess' := by
  constructor
  · intro h
    generalize hl : es ++ [e] = l at h
    cases h with
    | login h =>
      obtain ⟨rfl, heq⟩ := List.append_inj' hl rfl
      obtain rfl := List.singleton_inj.mp heq
      exact .inl h
    | keep h hout hfound hin =>
      obtain ⟨rfl, heq⟩ := List.append_inj' hl rfl
      obtain rfl := List.singleton_inj.mp heq
      exact .inr ⟨h, hout, hfound, hin⟩
  · rintro (h | ⟨h, hout, hfound, hin⟩)
    · exact .login h
    · exact .keep h hout hfound hin

theorem not_open_nil : ¬Open D ttl [] token sess := by
  intro h
  generalize hl : [] = l at h
  cases h with
  | login => exact absurd hl.symm (List.append_ne_nil_of_right_ne_nil _ (List.cons_ne_nil _ _))
  | keep => exact absurd hl.symm (List.append_ne_nil_of_right_ne_nil _ (List.cons_ne_nil _ _))

/-- A login opens one session. -/
theorem opens_unique {s : DashState} {sess' : AdminSession} (h : Opens D s e token sess)
    (h' : Opens D s e token sess') : sess = sess' := by
  obtain ⟨now, headers, peer, password, cookie, rfl, -, -, -, -, hexp⟩ := h
  obtain ⟨_, _, _, _, _, he, -, -, -, -, hexp'⟩ := h'
  cases sess
  cases sess'
  injection he with htime _ _ huser
  dsimp only at hexp hexp' huser
  rw [← htime] at hexp'
  obtain rfl := Option.some.inj (hexp.symm.trans hexp')
  rw [huser]

/-- The sessions in memory are the open ones. -/
theorem sessions_iff_open (es : List DashEvent) (token : String) (sess : AdminSession) :
    (dashRun D ttl es).sessions token = some sess ↔ Open D ttl es token sess := by
  induction es using List.reverseRecOn generalizing sess with
  | nil => exact iff_of_false nofun not_open_nil
  | append_singleton es e ih =>
    rw [dashRun_concat, open_concat_iff]
    rcases sessions_dashStep D (dashRun D ttl es) e token with
      ⟨sess', hopens, heq⟩ | ⟨hno, ⟨hgone, heq⟩ | ⟨hout, hfound, heq⟩⟩
    · rw [heq, Option.some.injEq]
      constructor
      · rintro rfl
        exact .inl hopens
      · rintro (h | ⟨-, -, -, hin⟩)
        · exact opens_unique hopens h
        · exact absurd hopens (hin sess')
    · rw [heq]
      refine iff_of_false nofun ?_
      rintro (h | ⟨hopen, hout, hfound, -⟩)
      · exact hno sess h
      · rcases hgone with hclose | ⟨sess', hmem, hexp⟩
        · exact hout hclose
        · obtain rfl := Option.some.inj (hmem.symm.trans ((ih sess).mpr hopen))
          exact hfound hexp
    · rw [heq, ih]
      constructor
      · exact fun h => .inr ⟨h, hout, hfound sess ((ih sess).mpr h), hno⟩
      · rintro (h | ⟨h, -⟩)
        · exact absurd h (hno sess)
        · exact h

/-- **A token opens the dashboard** after any run exactly when the login that drew it went
through as that user, was neither logged out nor found expired since, and has not expired. -/
theorem requireAdmin_iff_open {headers : HeaderMap} {user : String} :
    (requireAdmin (dashRun D ttl es).sessions now headers).2 = .ok user ↔
      ∃ token expires, sessionCookie headers = some token ∧ Open D ttl es token ⟨user, expires⟩ ∧
        (now : Int) ≤ expires := by
  unfold requireAdmin checkAdminSession
  cases hcookie : sessionCookie headers with
  | none => exact ⟨nofun, fun ⟨_, _, h, _⟩ => by cases h⟩
  | some tok =>
    dsimp only
    constructor
    · intro h
      cases hsess : (dashRun D ttl es).sessions tok with
      | none =>
        rw [hsess] at h
        cases h
      | some sess =>
        rw [hsess] at h
        dsimp only at h
        split at h
        · cases h
        case isFalse hexp =>
          obtain rfl := Except.ok.inj h
          exact ⟨tok, sess.expiresMs, rfl, (sessions_iff_open es tok sess).mp hsess, by omega⟩
    · rintro ⟨tok', expires, htok, hopen, hle⟩
      obtain rfl := Option.some.inj htok
      rw [(sessions_iff_open es _ _).mpr hopen]
      dsimp only
      rw [if_neg (by omega)]

/-- The admin's password is the till's secret. -/
def sampleDashboard : Dashboard where
  credentials := Perms.sampleCredentials
  adminUser := "admin"
  passwordHash := Perms.shopPhc
  dashLoginMaxPerMin := 5
  trustProxyHeaders := false
  https := true

def sampleHeaders : HeaderMap := [("cookie", utf8Bytes "theme=dark; xdb_admin=c0ffee")]

/-- Once found expired, a session does not open again, though the clock is set back. -/
example : (requireAdmin (dashRun sampleDashboard 1
    [.login 1000 [] Routes.peerSample "admin" "till-secret" "c0ffee",
      .guarded 3601001 sampleHeaders]).sessions 2000 sampleHeaders).2 =
    .error unauthorized := by decide +kernel

end XavierDB.Auth
