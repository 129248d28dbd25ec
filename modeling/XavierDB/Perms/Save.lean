import XavierDB.Perms.File
import XavierDB.Base.Codec
import XavierDB.Base.Publish

/-!
# Concurrent permission edits (`src/routes_admin.rs`, `src/routes_misc.rs`)

`perms_save` clones the permissions and edits the copy, writes it to the file,
stamps what it wrote, and publishes the copy, each under a lock of its own; the
first login of a name does all of it under the write lock. A save overwrites
whatever was published after its clone: edits are kept in the runs where
nothing is published while another save holds a copy.
-/

namespace XavierDB.Perms

open Publish

/-! ## Requests -/

inductive Request where
  /-- A save, with the outcomes of `hash_credential` under the salt of each part. -/
  | save (body : List PermsAppIn) (salted : Nat → String → Except String String)
  /-- A login that passed the throttle and the block list. -/
  | login (name app token : String)

/-- `DUMMY_PHC`: the hash that stands in for a missing one. -/
def dummyPhc : String :=
  "$argon2id$v=19$m=65536,t=3,p=4$eOh17UFkMYH4DA6BpuZKtw$Wc0TNh3975QklccVwNHAh7Dpt44n7k2tMyajN9y02Dw"

/-- `verify_credential`; no token matches the dummy. -/
structure Credentials where
  verify : String → String → Bool
  verify_dummyPhc : ∀ t, verify t dummyPhc = false

/-- What the requests share. -/
structure Shared where
  perms : PermissionsFile
  /-- `authorized_keys.yml` -/
  disk : String
  lastPermsWritten : Option String
  permsVersion : Nat

inductive Phase where
  | idle
  /-- a login past its credential check -/
  | verified
  | cloned (p : PermissionsFile)
  | written (p : PermissionsFile) (bytes : String)
  | stamped (p : PermissionsFile)
  | done
  | failed (e : ApiError)
  deriving DecidableEq

/-- The copy a save holds. -/
def Phase.copy : Phase → Option PermissionsFile
  | cloned p | written p _ | stamped p => some p
  | _ => none

/-- The copy a save has on disk and not yet published. -/
def Phase.onDisk : Phase → Option PermissionsFile
  | written p _ | stamped p => some p
  | _ => none

def unauthorized : ApiError := ⟨.unauthorized, "missing or invalid authentication token"⟩

/-- The permissions with a name added to an app. -/
def addName (p : PermissionsFile) (app name : String) (e : AppEntry) : PermissionsFile :=
  ⟨p.apps.insert app { e with names := e.names.insert name .default }⟩

/-- The first-login branch of `auth_login`: nothing to do for a known name or a
vanished app. A failed write is only logged. -/
def firstLogin (Y : Yaml) (name app : String) (writeErr : Option String) (sh : Shared) : Shared :=
  match sh.perms.apps.get? app with
  | none => sh
  | some e =>
    if e.names.contains name then sh
    else
      match (addName sh.perms app name e).toYaml Y, writeErr with
      | .ok y, none => ⟨addName sh.perms app name e, y, some y, sh.permsVersion + 1⟩
      | _, _ => { sh with perms := addName sh.perms app name e }

/-- The next step of a request; `writeErr` is the outcome of a disk write. -/
def advance (C : Credentials) (Y : Yaml) (writeErr : Option String) :
    Request → Shared → Phase → Shared × Phase
  | .save body salted, sh, .idle =>
    match editPerms salted sh.perms body with
    | .error e => (sh, .failed e)
    | .ok p => (sh, .cloned p)
  | .save .., sh, .cloned p =>
    match p.toYaml Y, writeErr with
    | .error e, _ => (sh, .failed (.internal e))
    | .ok _, some e => (sh, .failed (.internal e))
    | .ok y, none => ({ sh with disk := y }, .written p y)
  | .save .., sh, .written p y => ({ sh with lastPermsWritten := some y }, .stamped p)
  | .save .., sh, .stamped p =>
    ({ sh with perms := p, permsVersion := sh.permsVersion + 1 }, .done)
  | .login _ app token, sh, .idle =>
    let hash := ((sh.perms.apps.get? app).bind AppEntry.tokenHash).getD dummyPhc
    if C.verify token hash then (sh, .verified) else (sh, .failed unauthorized)
  | .login name app _, sh, .verified => (firstLogin Y name app writeErr sh, .done)
  | _, sh, ph => (sh, ph)

/-! ## Runs -/

abbrev State (ι : Type) := Publish.State ι Shared Phase

variable {ι : Type}

/-- The steps of the requests; an action carries the outcome of a disk write. -/
def requests (C : Credentials) (Y : Yaml) (req : ι → Request) :
    ι → Option String → Shared → Phase → Shared × Phase :=
  fun i writeErr => advance C Y writeErr (req i)

/-- All requests still to come, and memory as the file describes it. -/
structure Initial (Y : Yaml) (s : State ι) : Prop where
  idle : ∀ i, s.phase i = .idle
  disk : PermissionsFile.parse Y s.shared.disk = .ok s.shared.perms

/-- The login adds its name. -/
def AddsName (req : ι → Request) (s : State ι) (i : ι) : Prop :=
  s.phase i = .verified ∧ ∃ name app token e, req i = .login name app token ∧
    s.shared.perms.apps.get? app = some e ∧ e.names.contains name = false

/-- The step publishes no permissions while another save holds a copy, and a
login that adds its name gets it on disk. -/
structure Exclusive (req : ι → Request) (s : State ι) (a : ι × Option String) : Prop where
  publish : ∀ p, s.phase a.1 = .stamped p → ∀ j, j ≠ a.1 → (s.phase j).copy = none
  login : AddsName req s a.1 → (∀ j, j ≠ a.1 → (s.phase j).copy = none) ∧ a.2 = none

theorem Exclusive.of_alone {req : ι → Request} {s : State ι} {a : ι × Option String}
    (h : ∀ j, j ≠ a.1 → (s.phase j).copy = none) (ha : a.2 = none) : Exclusive req s a :=
  ⟨fun _ _ => h, fun _ => ⟨h, ha⟩⟩

/-! ## What requests ask for -/

def Request.Distinct : Request → Prop
  | .save body _ => Perms.Distinct body
  | .login .. => True

/-- The edit of a request is in the permissions. -/
def Present : Request → PermissionsFile → Prop
  | .save body salted, p => ∀ a ∈ body.zipIdx, AppPresent (salted a.2) p a.1
  | .login name app _, p => ∃ e, p.apps.get? app = some e ∧ e.names.contains name = true

/-- The body neither deletes the app nor lists the name in it. -/
def LeavesName (body : List PermsAppIn) (app name : String) : Prop :=
  ∀ a ∈ body, a.app = app → a.delete = false ∧ ∀ n ∈ a.names, name ≠ n.name

/-- The requests edit different apps or names. -/
def Independent : Request → Request → Prop
  | .save b _, .save b' _ => ∀ a ∈ b, ∀ a' ∈ b', Apart a a'
  | .save b _, .login name app _ => LeavesName b app name
  | .login name app _, .save b _ => LeavesName b app name
  | .login .., .login .. => True

variable {p p' : PermissionsFile} {r : Request} {salted : Nat → String → Except String String}

theorem Present.editPerms {body : List PermsAppIn} (hp : Present r p)
    (hi : Independent r (.save body salted)) (h : editPerms salted p body = .ok p') :
    Present r p' := by
  cases r with
  | save b _ =>
    intro a ha
    exact AppPresent.editPerms (hp a ha) (hi a.1 (List.fst_mem_of_mem_zipIdx ha)) h
  | login name app _ =>
    obtain ⟨e, he, hn⟩ := hp
    obtain ⟨e', he', hn'⟩ := names_editPerms he hi h
    exact ⟨e', he', by rw [SortedMap.contains, hn']; exact hn⟩

theorem get?_addName (app name x : String) (e : AppEntry) :
    (addName p app name e).apps.get? x =
      if x = app then some { e with names := e.names.insert name .default } else p.apps.get? x :=
  SortedMap.get?_insert _ _ _ _

theorem Present.addName {app name token : String} {e : AppEntry} (hp : Present r p)
    (hi : Independent r (.login name app token)) (he : p.apps.get? app = some e) :
    Present r (addName p app name e) := by
  cases r with
  | save b _ =>
    intro a ha
    have hpa := hp a ha
    unfold AppPresent at hpa ⊢
    rw [get?_addName]
    by_cases hx : a.1.app = app
    · obtain ⟨hd, hn⟩ := hi a.1 (List.fst_mem_of_mem_zipIdx ha) hx
      rw [if_neg (by rw [hd]; decide)] at hpa ⊢
      obtain ⟨e', he', h1, h2, h3, h4⟩ := hpa
      rw [hx, he] at he'
      obtain rfl := Option.some.inj he'
      refine ⟨_, if_pos hx, h1, h2, h3, fun n hm => ?_⟩
      rw [NamePresent, SortedMap.get?_insert, if_neg (hn n hm).symm]
      exact h4 n hm
    · simp only [if_neg hx]
      exact hpa
  | login name' app' _ =>
    obtain ⟨e', he', hn⟩ := hp
    by_cases hx : app' = app
    · subst hx
      rw [he] at he'
      obtain rfl := Option.some.inj he'
      refine ⟨_, (get?_addName _ _ _ _).trans (if_pos rfl), ?_⟩
      rw [SortedMap.contains, SortedMap.get?_insert]
      split
      · rfl
      · exact hn
    · exact ⟨e', (get?_addName _ _ _ _).trans ((if_neg hx).trans he'), hn⟩

theorem present_addName {app name token : String} {e : AppEntry} :
    Present (.login name app token) (addName p app name e) := by
  refine ⟨_, (get?_addName _ _ _ _).trans (if_pos rfl), ?_⟩
  rw [SortedMap.contains, SortedMap.get?_insert, if_pos rfl]
  rfl

/-! ## The invariant -/

/-- The app of a login is there. -/
def AppExists (r : Request) (p : PermissionsFile) : Prop :=
  ∀ name app token, r = .login name app token → ∃ e, p.apps.get? app = some e

/-- What a request relies on: its edit once it is done, its app once its token is verified. -/
def Request.Asks (r : Request) : Phase → PermissionsFile → Prop
  | .done, p => Present r p
  | .verified, p => AppExists r p
  | _, _ => True

def reading (Y : Yaml) (req : ι → Request) : Reading ι Shared Phase PermissionsFile where
  mem sh := sh.perms
  file sh := (PermissionsFile.parse Y sh.disk).toOption
  copy := Phase.copy
  onDisk := Phase.onDisk
  edit i p q := ∃ body salted, req i = .save body salted ∧ editPerms salted p body = .ok q
  asks i := (req i).Asks
  settled _ := True
  copy_of_onDisk ph p h := by cases ph <;> first | exact h | cases h

variable {C : Credentials} {Y : Yaml} {req : ι → Request} {s : State ι}

theorem Initial.inv (h : Initial Y s) : Inv (reading Y req) s := by
  apply Inv.start
  · intro i
    simp only [reading, h.idle i, Request.Asks]
  · intro i
    simp only [reading, h.idle i, Phase.copy]
  · intro _
    simp only [reading, h.disk]
    rfl

/-! ## Steps -/

theorem AppExists.editPerms {body : List PermsAppIn} (hp : AppExists r p)
    (hi : Independent r (.save body salted)) (h : editPerms salted p body = .ok p') :
    AppExists r p' := by
  rintro name app token rfl
  obtain ⟨e, he⟩ := hp name app token rfl
  obtain ⟨e', he', -⟩ := names_editPerms he hi h
  exact ⟨e', he'⟩

theorem AppExists.addName {app name : String} {e : AppEntry} (hp : AppExists r p) :
    AppExists r (addName p app name e) := by
  rintro name' app' token rfl
  obtain ⟨e', he'⟩ := hp name' app' token rfl
  by_cases hx : app' = app
  · exact ⟨_, (get?_addName _ _ _ _).trans (if_pos hx)⟩
  · exact ⟨e', (get?_addName _ _ _ _).trans ((if_neg hx).trans he')⟩

theorem present_editPerms {body : List PermsAppIn} (hd : Perms.Distinct body)
    (h : editPerms salted p body = .ok p') : Present (.save body salted) p' :=
  appPresent_editPerms hd h

theorem Request.Asks.editPerms {body : List PermsAppIn} {ph : Phase} (ha : r.Asks ph p)
    (hi : Independent r (.save body salted)) (h : editPerms salted p body = .ok p') :
    r.Asks ph p' := by
  cases ph with
  | done => exact Present.editPerms ha hi h
  | verified => exact AppExists.editPerms ha hi h
  | _ => trivial

theorem Request.Asks.addName {app name token : String} {e : AppEntry} {ph : Phase}
    (ha : r.Asks ph p) (hi : Independent r (.login name app token))
    (he : p.apps.get? app = some e) : r.Asks ph (addName p app name e) := by
  cases ph with
  | done => exact Present.addName ha hi he
  | verified => exact AppExists.addName ha
  | _ => trivial

/-- A verified token comes from an app with a credential. -/
theorem Credentials.app_of_verify {app token : String}
    (h : C.verify token (((p.apps.get? app).bind AppEntry.tokenHash).getD dummyPhc) = true) :
    ∃ e, p.apps.get? app = some e := by
  cases he : p.apps.get? app with
  | none =>
    rw [he, Option.bind_none, Option.getD_none, C.verify_dummyPhc] at h
    cases h
  | some e => exact ⟨e, rfl⟩

variable [DecidableEq ι] {i : ι}

/-- A request fails with nothing of its own on disk. -/
theorem inv_fail (h : Inv (reading Y req) s) (e : ApiError)
    (hdisk : (s.phase i).onDisk = none) : Inv (reading Y req) (s.put i s.shared (.failed e)) := by
  apply h.move rfl rfl
  · exact hdisk.symm
  · exact id
  · trivial
  · intro q hq
    cases hq

/-- The steps of a save. -/
theorem inv_step_save (h : Inv (reading Y req) s) {body : List PermsAppIn}
    {writeErr : Option String} (hr : req i = .save body salted) (hd : Perms.Distinct body)
    (hi : ∀ j, j ≠ i → Independent (req j) (req i)) (hc : Exclusive req s (i, writeErr)) :
    Inv (reading Y req) (step (requests C Y req) s (i, writeErr)) := by
  unfold step requests
  dsimp only
  rw [hr]
  cases hph : s.phase i with
  | idle =>
    cases he : editPerms salted s.shared.perms body with
    | error e =>
      simp only [advance, he]
      exact inv_fail h e (by rw [hph]; rfl)
    | ok p =>
      simp only [advance, he]
      apply h.move rfl rfl
      · rw [hph]
        rfl
      · exact id
      · trivial
      · intro q hq
        obtain rfl := Option.some.inj hq
        exact ⟨body, salted, hr, he⟩
  | cloned p =>
    obtain ⟨y, hy, hparse⟩ := PermissionsFile.parse_toYaml Y p
    cases writeErr with
    | some e =>
      simp only [advance, hy]
      exact inv_fail h _ (by rw [hph]; rfl)
    | none =>
      simp only [advance, hy]
      apply h.write (p := p)
      · rfl
      · simp only [reading, hparse]
        rfl
      · rfl
      · trivial
      · rw [hph]
        rfl
  | written p y =>
    simp only [advance]
    apply h.move
    · rfl
    · rfl
    · rw [hph]
      rfl
    · exact id
    · trivial
    · intro q hq
      exact h.copy i q (by rw [hph]; exact hq)
  | stamped p =>
    simp only [advance]
    obtain ⟨body', salted', hr', hedit⟩ := h.copy i p (by rw [hph]; rfl)
    rw [hr] at hr'
    obtain ⟨rfl, rfl⟩ := Request.save.inj hr'
    have halone : Alone (reading Y req) s i := hc.publish p hph
    apply h.publish halone
    · exact h.file_of_alone halone (by rw [hph]; rfl)
    · rfl
    · show Present (req i) p
      rw [hr]
      exact present_editPerms hd hedit
    · exact fun j hj ha => ha.editPerms (hr ▸ hi j hj) hedit
  | verified => exact h.stay hph
  | done => exact h.stay hph
  | failed e => exact h.stay hph

/-- The steps of a login. -/
theorem inv_step_login (h : Inv (reading Y req) s) {name app token : String}
    {writeErr : Option String} (hr : req i = .login name app token)
    (hi : ∀ j, j ≠ i → Independent (req j) (req i)) (hc : Exclusive req s (i, writeErr)) :
    Inv (reading Y req) (step (requests C Y req) s (i, writeErr)) := by
  have hnocopy : ∀ q, (s.phase i).copy ≠ some q := by
    intro q hq
    obtain ⟨body, salted, hr', -⟩ := h.copy i q hq
    rw [hr] at hr'
    cases hr'
  unfold step requests
  dsimp only
  rw [hr]
  cases hph : s.phase i with
  | idle =>
    simp only [advance]
    split
    case isTrue hv =>
      apply h.move rfl rfl
      · rw [hph]
        rfl
      · exact id
      · show AppExists (req i) s.shared.perms
        rw [hr]
        intro _ _ _ heq
        cases heq
        exact C.app_of_verify hv
      · intro q hq
        cases hq
    case isFalse => exact inv_fail h _ (by rw [hph]; rfl)
  | verified =>
    have happ := h.asks i
    rw [hph] at happ
    obtain ⟨e, he⟩ := happ name app token hr
    change s.shared.perms.apps.get? app = some e at he
    simp only [advance, firstLogin, he]
    split
    case isTrue hn =>
      apply h.move rfl rfl
      · rw [hph]
        rfl
      · exact id
      · show Present (req i) s.shared.perms
        rw [hr]
        exact ⟨e, he, hn⟩
      · intro q hq
        cases hq
    case isFalse hn =>
      rw [Bool.not_eq_true] at hn
      obtain ⟨halone, hok⟩ := hc.login ⟨hph, name, app, token, e, hr, he, hn⟩
      obtain ⟨y, hy, hparse⟩ := PermissionsFile.parse_toYaml Y (addName s.shared.perms app name e)
      dsimp only at hok
      subst hok
      simp only [hy]
      apply h.publish halone
      · simp only [reading, hparse]
        rfl
      · rfl
      · show Present (req i) (addName s.shared.perms app name e)
        rw [hr]
        exact present_addName
      · exact fun j hj ha => ha.addName (hr ▸ hi j hj) he
  | done => exact h.stay hph
  | failed e => exact h.stay hph
  | cloned p => exact absurd (by rw [hph]; rfl) (hnocopy p)
  | written p y => exact absurd (by rw [hph]; rfl) (hnocopy p)
  | stamped p => exact absurd (by rw [hph]; rfl) (hnocopy p)

theorem inv_step (hd : ∀ i, (req i).Distinct) (hi : ∀ i j, i ≠ j → Independent (req i) (req j))
    (a : ι × Option String) (h : Inv (reading Y req) s) (hc : Exclusive req s a) :
    Inv (reading Y req) (step (requests C Y req) s a) := by
  obtain ⟨i, writeErr⟩ := a
  cases hr : req i with
  | save body salted =>
    have hdi := hd i
    rw [hr] at hdi
    exact inv_step_save h hr hdi (fun j hj => hi j i hj) hc
  | login name app token => exact inv_step_login h hr (fun j hj => hi j i hj) hc

/-! ## An instance -/

def appsCodec : Codec (SortedMap String AppEntry) :=
  let rules : Codec (List Rule) :=
    ((Codec.string.list.prod (Codec.string.list.prod Codec.string.list)).imap
      (fun r => (⟨r.1, r.2.1, r.2.2⟩ : Rule)) (fun r => (r.actions, r.databases, r.collections))
      fun _ => rfl).list
  let name : Codec NameEntry :=
    (rules.prod rules).imap (fun n => ⟨n.1, n.2⟩) (fun n => (n.allow, n.deny)) fun _ => rfl
  let app : Codec AppEntry :=
    (Codec.string.option.prod (rules.prod (rules.prod (Codec.string.sortedMap name)))).imap
      (fun e => ⟨e.1, e.2.1, e.2.2.1, e.2.2.2⟩) (fun e => (e.tokenHash, e.allow, e.deny, e.names))
      fun _ => rfl
  Codec.string.sortedMap app

def shopPhc : String :=
  "$argon2id$v=19$m=65536,t=3,p=4$AAECAwQFBgcICQoLDA0ODw$cLK2cEZTpxDj+9YRLC3Nosph7CcdImkd9yfIE5JGO+A"

/-- One app, whose credential is `till-secret`. -/
def shopApps : SortedMap String AppEntry :=
  SortedMap.empty.insert "shop" { AppEntry.default with tokenHash := some shopPhc }

def bankApps : SortedMap String AppEntry := shopApps.insert "bank" .default

def clerkApps : SortedMap String AppEntry :=
  bankApps.insert "shop"
    { AppEntry.default with
      tokenHash := some shopPhc, names := SortedMap.empty.insert "clerk" .default }

def appsTable : List (SortedMap String AppEntry × String) :=
  [(.empty, "\x7b\x7d\n"),
    (shopApps,
      "shop:\n  token_hash: $argon2id$v=19$m=65536,t=3,p=4$AAECAwQFBgcICQoLDA0ODw$cLK2cEZTpxDj+9YRLC3Nosph7CcdImkd9yfIE5JGO+A\n  allow: []\n  deny: []\n  names: \x7b\x7d\n"),
    (bankApps,
      "bank:\n  token_hash: null\n  allow: []\n  deny: []\n  names: \x7b\x7d\nshop:\n  token_hash: $argon2id$v=19$m=65536,t=3,p=4$AAECAwQFBgcICQoLDA0ODw$cLK2cEZTpxDj+9YRLC3Nosph7CcdImkd9yfIE5JGO+A\n  allow: []\n  deny: []\n  names: \x7b\x7d\n"),
    (clerkApps,
      "bank:\n  token_hash: null\n  allow: []\n  deny: []\n  names: \x7b\x7d\nshop:\n  token_hash: $argon2id$v=19$m=65536,t=3,p=4$AAECAwQFBgcICQoLDA0ODw$cLK2cEZTpxDj+9YRLC3Nosph7CcdImkd9yfIE5JGO+A\n  allow: []\n  deny: []\n  names:\n    clerk:\n      allow: []\n      deny: []\n")]

set_option maxRecDepth 4000 in
theorem head_appsTable : ∀ p ∈ appsTable,
    ∃ x l, p.2 = String.ofList (x :: l) ∧ x ≠ '%' ∧ isWhiteSpace x = false := by
  simp only [appsTable, List.forall_mem_cons]
  exact ⟨⟨'\x7b', _, rfl, by decide, by decide⟩, ⟨'s', _, rfl, by decide, by decide⟩,
    ⟨'b', _, rfl, by decide, by decide⟩, ⟨'b', _, rfl, by decide, by decide⟩, List.forall_mem_nil _⟩

def sampleYaml : Yaml where
  toStr m := .ok (appsCodec.tableText '%' appsTable m)
  fromStr s := match appsCodec.ofTableText appsTable s with
    | some m => .ok m
    | none => .error "invalid"
  fromStr_toStr m := by
    refine ⟨_, rfl, ?_, ?_⟩
    · have hmark : ∀ p ∈ appsTable, ∃ x l, p.2 = String.ofList (x :: l) ∧ x ≠ '%' := fun p hp =>
        have ⟨x, l, hx, hne, _⟩ := head_appsTable p hp
        ⟨x, l, hx, hne⟩
      rw [Codec.ofTableText_tableText _ (by decide +kernel) hmark]
    · unfold Codec.tableText
      cases hf : appsTable.find? fun p => p.1 = m with
      | some p =>
        obtain ⟨x, l, hx, -, hw⟩ := head_appsTable p (List.mem_of_find?_eq_some hf)
        simp only [hx]
        exact isEmpty_trim_of_head hw
      | none => exact isEmpty_trim_of_head (by decide)

def sampleCredentials : Credentials where
  verify t h := t == "till-secret" && h == shopPhc
  verify_dummyPhc t := by
    rw [show (dummyPhc == shopPhc) = false by decide +kernel, Bool.and_false]

def saveBank : Request := .save [⟨"bank", [], [], [], false, none⟩] fun _ _ => .error "no salt"

def dropShop : Request := .save [⟨"shop", [], [], [], true, none⟩] fun _ _ => .error "no salt"

def loginClerk : Request := .login "clerk" "shop" "till-secret"

/-- Two requests to come on the one app. -/
def shopState : State Bool :=
  ⟨⟨⟨shopApps⟩, appsCodec.tableText '%' appsTable shopApps, none, 0⟩, fun _ => .idle⟩

theorem initial_shopState : Initial sampleYaml shopState where
  idle _ := rfl
  disk := by
    obtain ⟨y, hy, hp⟩ := PermissionsFile.parse_toYaml sampleYaml ⟨shopApps⟩
    obtain rfl := Except.ok.inj hy
    exact hp

/-- The save, then the login. -/
def serial : List (Bool × Option String) :=
  [(true, none), (true, none), (true, none), (true, none), (false, none), (false, none)]

/-- The revocation falls between the clone and the write of the other save. -/
def overlap : List (Bool × Option String) :=
  [(true, none), (false, none), (false, none), (false, none), (false, none), (true, none),
    (true, none), (true, none)]

def saveAndLogin : Bool → Request
  | true => saveBank
  | false => loginClerk

def twoSaves : Bool → Request
  | true => saveBank
  | false => dropShop

/-! ## Edits kept and lost -/

/-- Requests that edit different apps or names and all report success keep their
edits, in memory and on disk, when no permissions are published over a copy. -/
theorem permsSave_keeps_edits (hd : ∀ i, (req i).Distinct)
    (hi : ∀ i j, i ≠ j → Independent (req i) (req j)) {s₀ : State ι} (h₀ : Initial Y s₀)
    {acts : List (ι × Option String)}
    (hc : Run.Along (step (requests C Y req)) (Exclusive req) s₀ acts)
    (hdone : ∀ i, (run (requests C Y req) s₀ acts).phase i = .done) :
    (∀ i, Present (req i) (run (requests C Y req) s₀ acts).shared.perms) ∧
      PermissionsFile.parse Y (run (requests C Y req) s₀ acts).shared.disk =
        .ok (run (requests C Y req) s₀ acts).shared.perms := by
  have hinv : Inv (reading Y req) (run (requests C Y req) s₀ acts) :=
    Run.foldl_inv (fun _ a h hc => inv_step hd hi a h hc) h₀.inv hc
  rcases isEmpty_or_nonempty ι with hempty | ⟨⟨i⟩⟩
  · cases acts with
    | nil => exact ⟨fun i => hempty.elim i, h₀.disk⟩
    | cons a acts => exact hempty.elim a.1
  · generalize run (requests C Y req) s₀ acts = s at hinv hdone ⊢
    have hasks := hinv.asks
    simp only [reading, hdone] at hasks
    have hfile := hinv.synced (fun j => by rw [hdone j]; rfl) ⟨i, trivial⟩
    simp only [reading] at hfile
    exact ⟨hasks, eq_ok_of_toOption hfile⟩

theorem permsSave_keeps_edits_serial :
    (∀ i, Present (saveAndLogin i)
      (run (requests sampleCredentials sampleYaml saveAndLogin) shopState serial).shared.perms) ∧
    PermissionsFile.parse sampleYaml
        (run (requests sampleCredentials sampleYaml saveAndLogin) shopState serial).shared.disk =
      .ok (run (requests sampleCredentials sampleYaml saveAndLogin) shopState serial).shared.perms := by
  refine permsSave_keeps_edits ?_ ?_ initial_shopState ?_ (by decide +kernel)
  · rintro (_ | _)
    · trivial
    · exact ⟨List.pairwise_singleton _ _, fun a ha => by rw [List.mem_singleton.mp ha]; exact .nil⟩
  · have hleaves : LeavesName [⟨"bank", [], [], [], false, none⟩] "shop" "clerk" := by
      intro a ha happ
      rw [List.mem_singleton.mp ha] at happ
      exact absurd happ (by decide)
    rintro (_ | _) (_ | _) h
    · exact absurd rfl h
    · exact hleaves
    · exact hleaves
    · exact absurd rfl h
  · exact ⟨.of_alone (by decide +kernel) rfl, .of_alone (by decide +kernel) rfl,
      .of_alone (by decide +kernel) rfl, .of_alone (by decide +kernel) rfl,
      .of_alone (by decide +kernel) rfl, .of_alone (by decide +kernel) rfl, trivial⟩

/-- Both saves report success, and the app revoked by one of them is back. -/
theorem permsSave_loses_edit_overlap :
    Initial sampleYaml shopState ∧ (∀ i, (twoSaves i).Distinct) ∧
    (∀ i j, i ≠ j → Independent (twoSaves i) (twoSaves j)) ∧
    (∀ i, (run (requests sampleCredentials sampleYaml twoSaves) shopState overlap).phase i = .done) ∧
    ¬ ∀ i, Present (twoSaves i)
      (run (requests sampleCredentials sampleYaml twoSaves) shopState overlap).shared.perms := by
  refine ⟨initial_shopState, ?_, ?_, by decide +kernel, fun h => ?_⟩
  · rintro (_ | _) <;>
      exact ⟨List.pairwise_singleton _ _, fun a ha => by rw [List.mem_singleton.mp ha]; exact .nil⟩
  · have hapart : Independent saveBank dropShop := by
      intro a ha b hb
      rw [List.mem_singleton.mp ha, List.mem_singleton.mp hb]
      exact .inl (by decide)
    rintro (_ | _) (_ | _) h
    · exact absurd rfl h
    · exact fun b hb a ha => (hapart a ha b hb).symm
    · exact hapart
    · exact absurd rfl h
  · have hgone := h false _ List.mem_cons_self
    rw [AppPresent, if_pos rfl] at hgone
    revert hgone
    decide +kernel

end XavierDB.Perms
