import Mathlib.Data.List.TakeDrop
import XavierDB.Auth.Identifier
import XavierDB.Log.Text
import XavierDB.Perms.File

/-!
# The identities in the log (`src/routes_misc.rs`, `src/routes_q.rs`, `src/state.rs`)

A login and a request log a line with a name and an app, and the Logs tab reads
them back from it. A login line carries the identifier cut to 100 characters, so
that of a long identifier the end of the app is missing.
-/

namespace XavierDB.Log

open Auth

/-! ## What is logged -/

inductive Level where
  | error
  | warn
  | info
  | debug
  | trace
  deriving DecidableEq, Repr

def Level.text : Level → String
  | error => "ERROR"
  | warn => "WARN"
  | info => "INFO"
  | debug => "DEBUG"
  | trace => "TRACE"

/-- A line of the subscriber. -/
def traceLine (timestamp : String) (level : Level) (target msg : String) : String :=
  timestamp ++ " " ++ String.ofList (level.text.toList.leftpad 5 ' ') ++ " " ++ target ++ ": " ++ msg

/-- A line of the server's own is one of the target `XavierDB`. -/
theorem pushFmt_eq (timestamp : String) (level : Level) (msg : String) :
    pushFmt timestamp level.text msg = traceLine timestamp level "XavierDB" msg := by
  unfold pushFmt traceLine
  simp only [String.append_assoc]
  rfl

/-- `log_ident`. -/
def logIdent (s : String) : String := String.ofList (s.toList.take 100)

inductive LoginOutcome where
  | ok
  | failed
  | blocked
  deriving DecidableEq, Repr

def LoginOutcome.text : LoginOutcome → String
  | ok => "login OK: "
  | failed => "login failed: "
  | blocked => "login blocked: "

/-- What `auth_login` logs. -/
def loginMessage (outcome : LoginOutcome) (identifier addr : String) : String :=
  outcome.text ++ (logIdent identifier ++ " from " ++ addr)

/-- What `authorize` logs. -/
def requestMessage (action db coll addr name app : String) : String :=
  action ++ " " ++ ("/q/" ++ db ++ "/" ++ coll ++ " from " ++ addr) ++ " as " ++
    (name ++ "@" ++ app)

/-- What `list_visible` logs. -/
def lsMessage (addr name app : String) : String :=
  "GET /ls from " ++ addr ++ " as " ++ (name ++ "@" ++ app)

/-! ## Reading a line -/

theorem trimStart_level (level : Level) (rest : String) :
    trimStart (String.ofList (level.text.toList.leftpad 5 ' ') ++ rest) = level.text ++ rest := by
  unfold trimStart
  apply String.toList_injective
  rw [String.toList_ofList, String.toList_append, String.toList_ofList, String.toList_append]
  cases level <;> rfl

theorem parseLevelMsg_traceLine {timestamp target : String} (level : Level) (msg : String)
    (htimestamp : ' ' ∉ timestamp.toList) (htarget : ' ' ∉ target.toList) :
    parseLevelMsg (traceLine timestamp level target msg) = (level.text, target, msg) := by
  have hline : traceLine timestamp level target msg = timestamp ++ " " ++
      (String.ofList (level.text.toList.leftpad 5 ' ') ++ (" " ++ (target ++ ": " ++ msg))) := by
    unfold traceLine
    simp only [String.append_assoc]
  have hlevel : splitOnce " " (level.text ++ (" " ++ (target ++ ": " ++ msg))) =
      some (level.text, target ++ ": " ++ msg) := by
    rw [← String.append_assoc]
    exact splitOnce_append rfl (by cases level <;> decide) _
  have hlogger : splitOnce ": " (target ++ ": " ++ msg) = some (target, msg) := by
    rw [splitOnce, String.toList_append, String.toList_append]
    show (splitOnceList [':', ' '] (target.toList ++ [':', ' '] ++ msg.toList)).map _ = _
    rw [splitOnceList_pair (by decide) htarget]
    simp
  unfold parseLevelMsg
  dsimp only
  rw [hline, splitOnce_append rfl htimestamp, Option.map_some, Option.getD_some, trimStart_level,
    hlevel, Option.getD_some, hlogger, Option.getD_some]

/-! ## Reading an identity -/

/-- A client's address as text. -/
structure IsAddr (addr : String) : Prop where
  ne : addr ≠ ""
  char : ∀ c ∈ addr.toList, c ≠ '@' ∧ isWhiteSpace c = false

theorem isAddr_of_all {addr : String} (hne : addr ≠ "")
    (h : addr.toList.all (fun c => c != '@' && !isWhiteSpace c) = true) : IsAddr addr := by
  refine ⟨hne, fun c hc => ?_⟩
  have hchar := List.all_eq_true.mp h c hc
  rwa [Bool.and_eq_true, bne_iff_ne, Bool.not_eq_true'] at hchar

/-- What is left of the app in a login line. -/
def shownApp (name app : String) : String := String.ofList (app.toList.take (99 - name.length))

theorem shownApp_eq_iff {name app : String} (hname : name.length ≤ 99) :
    shownApp name app = app ↔ name.length + app.length ≤ 99 := by
  rw [shownApp, ← String.toList_inj, String.toList_ofList, List.take_eq_self_iff,
    String.length_toList]
  exact Nat.le_sub_iff_add_le' hname

theorem logIdent_eq {name : String} (hname : name.length ≤ 99) (app : String) :
    logIdent (name ++ "@" ++ app) = name ++ "@" ++ shownApp name app := by
  have hsplit : (name ++ "@" ++ app).toList = (name ++ "@").toList ++ app.toList :=
    String.toList_append
  have hlen : (name ++ "@").toList.length = name.length + 1 := by
    rw [String.length_toList, String.length_append]
    rfl
  apply String.toList_injective
  rw [logIdent, String.toList_ofList, hsplit, List.take_append, hlen,
    List.take_of_length_le (by omega), String.toList_append, shownApp, String.toList_ofList]
  have hrest : 100 - (name.length + 1) = 99 - name.length := by omega
  simp only [hrest, String.toList_append, String.toList_ofList]
  rfl

theorem isIdentifier_shownApp {name app : String} (hname : name.length ≤ 64)
    (happ : IsIdentifier app) : IsIdentifier (shownApp name app) where
  ne := by
    intro h
    rw [shownApp, String.ofList_eq_empty_iff, List.take_eq_nil_iff] at h
    rcases h with h | h
    · omega
    · exact happ.ne (String.toList_eq_nil_iff.mp h)
  length := by
    have hle := List.length_take_le' (99 - name.length) app.toList
    have happ := happ.length
    rw [shownApp, String.length_ofList]
    rw [String.length_toList] at hle
    omega
  char c hc := by
    rw [shownApp, String.toList_ofList] at hc
    exact happ.char c (List.mem_of_mem_take hc)

theorem findSome?_stripPrefix (outcome : LoginOutcome) (s : String) :
    (["login OK: ", "login failed: ", "login blocked: "].findSome? fun p =>
      stripPrefix p (outcome.text ++ s)) = some s := by
  have hfailed : stripPrefix "login OK: " ("login failed: " ++ s) = none := by
    rw [stripPrefix, String.toList_append]
    rfl
  have hblocked : stripPrefix "login OK: " ("login blocked: " ++ s) = none ∧
      stripPrefix "login failed: " ("login blocked: " ++ s) = none := by
    rw [stripPrefix, stripPrefix, String.toList_append]
    exact ⟨rfl, rfl⟩
  cases outcome with
  | ok => rw [List.findSome?_cons]; simp only [LoginOutcome.text, stripPrefix_append]
  | failed => simp only [List.findSome?_cons, LoginOutcome.text, hfailed, stripPrefix_append]
  | blocked =>
    simp only [List.findSome?_cons, LoginOutcome.text, hblocked.1, hblocked.2, stripPrefix_append]

variable {name app addr : String}

theorem identity_eq (hname : IsIdentifier name) (happ : IsIdentifier app) :
    identity name app = some (name, app) := by
  have hblank : app.toList.contains ' ' = false := by
    rw [← Bool.not_eq_true, List.contains_iff_mem]
    exact happ.notMem rfl
  have hname' := String.isEmpty_eq_false_iff.mpr hname.ne
  have happ' := String.isEmpty_eq_false_iff.mpr happ.ne
  unfold identity
  rw [hname', happ', hblank]
  rfl

theorem loginIdentity_eq (outcome : LoginOutcome) (hname : IsIdentifier name)
    (happ : IsIdentifier app) (haddr : IsAddr addr) :
    loginIdentity (outcome.text ++ (name ++ "@" ++ app ++ " from " ++ addr)) =
      some (name, app) := by
  have hrest : trim (name ++ "@" ++ app ++ " from " ++ addr) =
      name ++ "@" ++ app ++ " from " ++ addr := by
    apply trim_eq_self
    · intro c hc
      have hne : name.toList ≠ [] := fun h => hname.ne (String.toList_eq_nil_iff.mp h)
      simp only [String.toList_append, List.append_assoc, List.head?_append_of_ne_nil _ hne] at hc
      exact isWhiteSpace_identifierChar (hname.char c (List.mem_of_mem_head? hc))
    · intro c hc
      have hne : addr.toList ≠ [] := fun h => haddr.ne (String.toList_eq_nil_iff.mp h)
      rw [String.toList_append, List.getLast?_append_of_ne_nil _ hne] at hc
      exact (haddr.char c (List.mem_of_mem_getLast? hc)).2
  have hat : '@' ∉ (app ++ " from " ++ addr).toList := by
    simp only [String.toList_append, List.mem_append, not_or]
    exact ⟨⟨happ.notMem rfl, by decide⟩, fun h => (haddr.char _ h).1 rfl⟩
  have hsplit : name ++ "@" ++ app ++ " from " ++ addr =
      name ++ "@" ++ (app ++ " from " ++ addr) := by simp only [String.append_assoc]
  unfold loginIdentity
  rw [findSome?_stripPrefix, Option.getD_some, hrest, hsplit]
  dsimp only
  rw [rsplitOnce_append rfl hat,
    Option.bind_some, splitOnce_append rfl (happ.notMem rfl), Option.map_some, Option.getD_some,
    identity_eq hname happ]

/-- The last `@` and the last ` as ` are those of the identity. -/
theorem requestIdentity_eq (hname : IsIdentifier name) (happ : IsIdentifier app) (pre : String) :
    requestIdentity (pre ++ " as " ++ (name ++ "@" ++ app)) = some (name, app) := by
  have hblank : ∀ c ∈ (name ++ "@" ++ app).toList, isWhiteSpace c = false := by
    intro c hc
    simp only [String.toList_append, List.mem_append] at hc
    rcases hc with (hc | hc) | hc
    · exact isWhiteSpace_identifierChar (hname.char c hc)
    · have hat : c ∈ ['@'] := hc
      rw [List.mem_singleton.mp hat]
      decide
    · exact isWhiteSpace_identifierChar (happ.char c hc)
  have hrest : trim (name ++ "@" ++ app) = name ++ "@" ++ app := trim_eq_self
    (fun c hc => hblank c (List.mem_of_mem_head? hc))
    (fun c hc => hblank c (List.mem_of_mem_getLast? hc))
  have hspace : ' ' ∉ (name ++ "@" ++ app).toList := fun h => by
    have := hblank ' ' h
    cases this
  unfold requestIdentity
  rw [rsplitOnce_append rfl hspace, Option.map_some, Option.getD_some, hrest]
  dsimp only
  rw [rsplitOnce_append rfl (happ.notMem rfl), Option.bind_some, identity_eq hname happ]

/-- A login's message has the identity, cut, between its head and the address. -/
theorem logIdentify_of_login {addr : String} (outcome : LoginOutcome) (hname : IsIdentifier name)
    (happ : IsIdentifier app) (haddr : IsAddr addr) :
    logIdentify (loginMessage outcome (name ++ "@" ++ app) addr) =
      (some name, some (shownApp name app)) := by
  have hlen := hname.length
  have hlogin := loginIdentity_eq outcome hname (isIdentifier_shownApp hlen happ) haddr
  unfold logIdentify loginMessage
  rw [logIdent_eq (by omega), hlogin]
  rfl

/-- A message that is no login's has the identity at its end. -/
theorem logIdentify_of_request {pre : String} {c : Char} (hname : IsIdentifier name)
    (happ : IsIdentifier app) (hpre : pre.toList.head? = some c) (hc : 'l' ≠ c) :
    logIdentify (pre ++ " as " ++ (name ++ "@" ++ app)) = (some name, some app) := by
  obtain ⟨l, hpre⟩ := List.head?_eq_some_iff.mp hpre
  have hstrip : ∀ q ∈ ["login OK: ", "login failed: ", "login blocked: "],
      stripPrefix q (pre ++ " as " ++ (name ++ "@" ++ app)) = none := by
    intro q hq
    obtain ⟨rest, hrest⟩ : ∃ rest, q.toList = 'l' :: rest := by
      simp only [List.mem_cons, List.not_mem_nil, or_false] at hq
      rcases hq with rfl | rfl | rfl <;> exact ⟨_, rfl⟩
    rw [stripPrefix, String.toList_append, String.toList_append, hrest, hpre, List.cons_append,
      List.cons_append, List.isPrefixOf_cons_cons, beq_eq_false_iff_ne.mpr hc, Bool.false_and]
    rfl
  have hnone : loginIdentity (pre ++ " as " ++ (name ++ "@" ++ app)) = none := by
    unfold loginIdentity
    rw [List.findSome?_eq_none_iff.mpr hstrip]
    rfl
  unfold logIdentify
  rw [hnone, requestIdentity_eq hname happ]
  rfl

/-! ## Entries -/

/-- The entry of a line from which level, logger and identity come back. -/
def readEntry (seq : Nat) (line : String) (level : Level) (target name app : String) : LogEntry where
  seq := seq
  raw := line
  level := level.text
  logger := target
  app := some app
  name := some name

theorem entryOf_eq {timestamp target msg : String} (seq : Nat) (level : Level)
    (htimestamp : ' ' ∉ timestamp.toList) (htarget : ' ' ∉ target.toList)
    (hid : logIdentify msg = (some name, some app)) :
    entryOf seq (traceLine timestamp level target msg) =
      readEntry seq (traceLine timestamp level target msg) level target name app := by
  unfold entryOf readEntry
  rw [parseLevelMsg_traceLine level msg htimestamp htarget]
  dsimp only
  rw [hid]

/-- Of a request the level, the logger, the app and the name come back; of a login the app up
to the character 99 less the name's, which is all of it unless the two are longer together. -/
theorem entryOf_logged {timestamp target addr id name app : String} (seq : Nat) (level : Level)
    (htimestamp : ' ' ∉ timestamp.toList) (htarget : ' ' ∉ target.toList) (haddr : IsAddr addr)
    (hid : parseIdentifier id = some (name, app)) :
    (∀ outcome, let line := traceLine timestamp level target (loginMessage outcome id addr)
      entryOf seq line = readEntry seq line level target name (shownApp name app)) ∧
    (shownApp name app = app ↔ name.length + app.length ≤ 99) ∧
    (∀ action ∈ Perms.actions, ∀ db coll,
      let line := traceLine timestamp level target (requestMessage action db coll addr name app)
      entryOf seq line = readEntry seq line level target name app) ∧
    let line := traceLine timestamp level target (lsMessage addr name app)
    entryOf seq line = readEntry seq line level target name app := by
  obtain ⟨rfl, hname, happ⟩ := parseIdentifier_some hid
  have hlen := hname.length
  refine ⟨fun outcome => ?_, shownApp_eq_iff (by omega), fun action haction db coll => ?_, ?_⟩
  · exact entryOf_eq seq level htimestamp htarget (logIdentify_of_login outcome hname happ haddr)
  · refine entryOf_eq seq level htimestamp htarget ?_
    have hupper : ∀ a ∈ Perms.actions, ∃ c, a.toList.head? = some c ∧ 'l' ≠ c := by
      simp only [Perms.actions, List.forall_mem_cons]
      exact ⟨⟨_, rfl, by decide⟩, ⟨_, rfl, by decide⟩, ⟨_, rfl, by decide⟩, ⟨_, rfl, by decide⟩,
        ⟨_, rfl, by decide⟩, ⟨_, rfl, by decide⟩, List.forall_mem_nil _⟩
    obtain ⟨c, hc, hne⟩ := hupper action haction
    refine logIdentify_of_request hname happ ?_ hne
    rw [String.toList_append, String.toList_append, List.append_assoc, List.head?_append, hc]
    rfl
  · refine entryOf_eq seq level htimestamp htarget ?_
    have hget : 'l' ≠ 'G' := by decide
    refine logIdentify_of_request hname happ ?_ hget
    rw [String.toList_append]
    rfl

theorem entryOf_logged_u1 :
    let ts := "2026-08-14T13:59:50.912518Z"
    (∀ outcome,
      let line := traceLine ts .info "XavierDB::routes_q"
        (loginMessage outcome "u1@app1" "1.2.3.4:5678")
      entryOf 0 line = readEntry 0 line .info "XavierDB::routes_q" "u1" (shownApp "u1" "app1")) ∧
    (shownApp "u1" "app1" = "app1" ↔ "u1".length + "app1".length ≤ 99) ∧
    (∀ action ∈ Perms.actions, ∀ db coll,
      let line := traceLine ts .info "XavierDB::routes_q"
        (requestMessage action db coll "1.2.3.4:5678" "u1" "app1")
      entryOf 0 line = readEntry 0 line .info "XavierDB::routes_q" "u1" "app1") ∧
    let line := traceLine ts .info "XavierDB::routes_q" (lsMessage "1.2.3.4:5678" "u1" "app1")
    entryOf 0 line = readEntry 0 line .info "XavierDB::routes_q" "u1" "app1" :=
  entryOf_logged 0 .info (by decide) (by decide) (isAddr_of_all (by decide) (by decide)) (by decide +kernel)

def longName : String := String.ofList (List.replicate 64 'n')

def longApp : String := String.ofList (List.replicate 64 'a')

/-- An identifier that is accepted and of whose app 35 characters are read back. -/
theorem entryOf_cut : parseIdentifier (longName ++ "@" ++ longApp) = some (longName, longApp) ∧
    (entryOf 0 (traceLine "2026-08-14T13:59:50.912518Z" .info "XavierDB::routes_misc"
      (loginMessage .ok (longName ++ "@" ++ longApp) "1.2.3.4:5678"))).app =
        some (String.ofList (List.replicate 35 'a')) ∧
    String.ofList (List.replicate 35 'a') ≠ longApp := by
  have hid : parseIdentifier (longName ++ "@" ++ longApp) = some (longName, longApp) := by
    decide +kernel
  obtain ⟨-, hname, happ⟩ := parseIdentifier_some hid
  have haddr : IsAddr "1.2.3.4:5678" := isAddr_of_all (by decide) (by decide)
  have hshown : shownApp longName longApp = String.ofList (List.replicate 35 'a') := by decide
  refine ⟨hid, ?_, by decide⟩
  rw [entryOf_eq 0 .info (by decide) (by decide) (logIdentify_of_login .ok hname happ haddr)]
  exact congrArg some hshown

end XavierDB.Log
