import XavierDB.Base.SortedMap
import XavierDB.Base.Text
import XavierDB.Error
import Mathlib.Data.String.Basic

/-!
# The permissions file (`src/perms.rs`)

The structures of `authorized_keys.yml`, their validation, and the edit a
dashboard save makes to them.
-/

namespace XavierDB.Perms

/-- `ACTIONS`. -/
def actions : List String := ["GET", "POST", "PUT", "PATCH", "DELETE", "INDEX"]

structure Rule where
  actions : List String
  databases : List String
  collections : List String
  deriving DecidableEq, Repr

structure NameEntry where
  allow : List Rule
  deny : List Rule
  deriving DecidableEq, Repr

def NameEntry.default : NameEntry := ⟨[], []⟩

structure AppEntry where
  /-- hash of the shared credential; without one nobody can authenticate -/
  tokenHash : Option String
  allow : List Rule
  deny : List Rule
  names : SortedMap String NameEntry
  deriving DecidableEq

def AppEntry.default : AppEntry := ⟨none, [], [], .empty⟩

structure PermissionsFile where
  apps : SortedMap String AppEntry
  deriving DecidableEq

/-- `serde_yaml` on the app map. -/
structure Yaml where
  toStr : SortedMap String AppEntry → Except String String
  fromStr : String → Except String (SortedMap String AppEntry)
  fromStr_toStr : ∀ m, ∃ y, toStr m = .ok y ∧ fromStr y = .ok m ∧ (trim y).isEmpty = false

namespace PermissionsFile

/-- `PermissionsFile::parse`. -/
def parse (Y : Yaml) (text : String) : Except String PermissionsFile :=
  if (trim text).isEmpty then .ok ⟨.empty⟩
  else match Y.fromStr text with
    | .error e => .error ("invalid authorized_keys.yml: " ++ e)
    | .ok apps => .ok ⟨apps⟩

/-- `PermissionsFile::to_yaml`. -/
def toYaml (Y : Yaml) (p : PermissionsFile) : Except String String :=
  (Y.toStr p.apps).mapError fun e => "serialization failed: " ++ e

theorem parse_toYaml (Y : Yaml) (p : PermissionsFile) :
    ∃ y, toYaml Y p = .ok y ∧ parse Y y = .ok p := by
  obtain ⟨y, h1, h2, h3⟩ := Y.fromStr_toStr p.apps
  refine ⟨y, ?_, ?_⟩
  · rw [toYaml, h1]; rfl
  · rw [parse, if_neg (by rw [h3]; decide), h2]

/-! ## Validation -/

/-- `check_rule`. -/
def checkRule (who list : String) (r : Rule) : Except String Unit :=
  match r.actions.find? fun a => !actions.contains a with
  | some a => .error (who ++ ": unknown action " ++ debugStr a ++ " in " ++ list ++ " (valid: [" ++
      ", ".intercalate (actions.map debugStr) ++ "])")
  | none =>
    if r.actions.isEmpty || r.databases.isEmpty then
      .error (who ++ ": " ++ list ++ " rule must list at least one action and one database")
    else if r.databases.any String.isEmpty then
      .error (who ++ ": empty database pattern in " ++ list)
    else .ok ()

/-- An identifier part that is empty or holds `@` or a blank. -/
def badId (s : String) : Bool := s.isEmpty || s.toList.contains '@' || s.toList.contains ' '

def checkRules (who : String) (allow deny : List Rule) : Except String Unit := do
  allow.forM (checkRule who "allow")
  deny.forM (checkRule who "deny")

/-- `PermissionsFile::validate`. -/
def validate (p : PermissionsFile) : Except String Unit :=
  p.apps.entries.forM fun (app, entry) => do
    if badId app then .error ("invalid app_id " ++ debugStr app) else
    checkRules app entry.allow entry.deny
    entry.names.entries.forM fun (name, nentry) => do
      if badId name then .error ("invalid name_id " ++ debugStr name ++ " for app " ++ app) else
      checkRules (name ++ "@" ++ app) nentry.allow nentry.deny

end PermissionsFile

/-! ## The edit of a save (`src/routes_admin.rs`) -/

structure PermsNameIn where
  name : String
  allow : List Rule
  deny : List Rule
  delete : Bool

structure PermsAppIn where
  app : String
  allow : List Rule
  deny : List Rule
  names : List PermsNameIn
  delete : Bool
  /-- a new shared credential for the app -/
  setToken : Option String

def saveName (names : SortedMap String NameEntry) (n : PermsNameIn) : SortedMap String NameEntry :=
  if n.delete then names.remove n.name
  else names.insert n.name ⟨n.allow, n.deny⟩

/-- The credential an app is left with. `hash` is `hash_credential` with the
salt of this part of the request. -/
def saveToken (hash : String → Except String String) (a : PermsAppIn) (old : Option String) :
    Except ApiError (Option String) :=
  match a.setToken with
  | none => .ok old
  | some t =>
    if t.utf8ByteSize < 8 then .error (.badRequest "token too short (min 8 characters)")
    else match hash t with
      | .error e => .error (.internal e)
      | .ok h => .ok (some h)

/-- `entry(..).or_insert_with(default)`. -/
def PermissionsFile.entry (p : PermissionsFile) (app : String) : AppEntry :=
  (p.apps.get? app).getD .default

/-- One turn of the loop of `perms_save`. -/
def saveApp (hash : String → Except String String) (p : PermissionsFile) (a : PermsAppIn) :
    Except ApiError PermissionsFile :=
  if a.delete then .ok ⟨p.apps.remove a.app⟩
  else
    match saveToken hash a (p.entry a.app).tokenHash with
    | .error e => .error e
    | .ok token =>
      .ok ⟨p.apps.insert a.app
        ⟨token, a.allow, a.deny, a.names.foldl saveName (p.entry a.app).names⟩⟩

/-- A part of a body, whose credential is hashed with a salt of its own. -/
def savePart (salted : Nat → String → Except String String) (p : PermissionsFile)
    (a : PermsAppIn × Nat) : Except ApiError PermissionsFile := saveApp (salted a.2) p a.1

/-- The edited and validated copy of `perms_save`; `salted i` is the
`hash_credential` of the part `i`. -/
def editPerms (salted : Nat → String → Except String String) (p : PermissionsFile)
    (body : List PermsAppIn) : Except ApiError PermissionsFile := do
  let p' ← body.zipIdx.foldlM (savePart salted) p
  p'.validate.mapError fun e => .badRequest ("invalid permissions: " ++ e)
  return p'

/-! ## What an edit asks for -/

def NamePresent (names : SortedMap String NameEntry) (n : PermsNameIn) : Prop :=
  names.get? n.name = if n.delete then none else some ⟨n.allow, n.deny⟩

/-- An app is as its part of the body asks. -/
def AppPresent (hash : String → Except String String) (p : PermissionsFile) (a : PermsAppIn) :
    Prop :=
  if a.delete then p.apps.get? a.app = none
  else ∃ e, p.apps.get? a.app = some e ∧ e.allow = a.allow ∧ e.deny = a.deny ∧
    (∀ t, a.setToken = some t → ∃ h, hash t = .ok h ∧ e.tokenHash = some h) ∧
    ∀ n ∈ a.names, NamePresent e.names n

/-- Parts on different apps, or on different names of one app that they leave
with the same rules and of which at most one sets the credential. -/
def Apart (a b : PermsAppIn) : Prop :=
  a.app ≠ b.app ∨ (a.delete = false ∧ b.delete = false ∧ a.allow = b.allow ∧ a.deny = b.deny ∧
    (a.setToken = none ∨ b.setToken = none) ∧ ∀ n ∈ a.names, ∀ m ∈ b.names, n.name ≠ m.name)

/-- The parts of a body are apart, and each lists a name once. -/
structure Distinct (body : List PermsAppIn) : Prop where
  apps : body.Pairwise Apart
  names : ∀ a ∈ body, (a.names.map PermsNameIn.name).Nodup

theorem Apart.symm {a b : PermsAppIn} (h : Apart a b) : Apart b a := by
  rcases h with h | ⟨h1, h2, h3, h4, h5, h6⟩
  · exact .inl (Ne.symm h)
  · exact .inr ⟨h2, h1, h3.symm, h4.symm, h5.symm, fun n hn m hm => (h6 m hm n hn).symm⟩

variable {hash hash' : String → Except String String} {p p' : PermissionsFile}

/-! ## Names -/

theorem get?_saveName (names : SortedMap String NameEntry) (n : PermsNameIn) (x : String) :
    (saveName names n).get? x =
      if x = n.name then (if n.delete then none else some ⟨n.allow, n.deny⟩) else names.get? x := by
  unfold saveName
  split
  · rw [SortedMap.get?_remove]
  · rw [SortedMap.get?_insert]

theorem get?_foldl_saveName_of_ne {x : String} {l : List PermsNameIn} (hx : ∀ n ∈ l, x ≠ n.name)
    (names : SortedMap String NameEntry) : (l.foldl saveName names).get? x = names.get? x := by
  induction l generalizing names with
  | nil => rfl
  | cons n l ih =>
    rw [List.forall_mem_cons] at hx
    rw [List.foldl_cons, ih hx.2, get?_saveName, if_neg hx.1]

/-- After a fold over distinct names each is as asked. -/
theorem namePresent_foldl {l : List PermsNameIn} (hl : (l.map PermsNameIn.name).Nodup)
    (names : SortedMap String NameEntry) :
    ∀ n ∈ l, NamePresent (l.foldl saveName names) n := by
  induction l generalizing names with
  | nil => exact List.forall_mem_nil _
  | cons m l ih =>
    obtain ⟨hm, hl⟩ := List.nodup_cons.mp hl
    refine List.forall_mem_cons.mpr ⟨?_, fun n hn => ih hl _ n hn⟩
    have hne : ∀ n ∈ l, m.name ≠ n.name := fun n hn he => hm (he ▸ List.mem_map_of_mem hn)
    rw [List.foldl_cons, NamePresent, get?_foldl_saveName_of_ne hne, get?_saveName, if_pos rfl]

/-! ## Apps -/

/-- A save leaves the other apps alone. -/
theorem get?_saveApp_of_ne {a : PermsAppIn} {x : String} (h : saveApp hash p a = .ok p')
    (hx : x ≠ a.app) : p'.apps.get? x = p.apps.get? x := by
  unfold saveApp at h
  split at h
  · cases h
    exact (SortedMap.get?_remove _ _ _).trans (if_neg hx)
  · split at h
    · cases h
    · cases h
      exact (SortedMap.get?_insert _ _ _ _).trans (if_neg hx)

/-- The entry a save leaves for an app it keeps. -/
theorem get?_saveApp_self {a : PermsAppIn} (h : saveApp hash p a = .ok p')
    (hd : a.delete = false) :
    ∃ token, saveToken hash a (p.entry a.app).tokenHash = .ok token ∧
      p'.apps.get? a.app = some ⟨token, a.allow, a.deny,
        a.names.foldl saveName (p.entry a.app).names⟩ := by
  rw [saveApp, if_neg (by rw [hd]; decide)] at h
  split at h
  · cases h
  case h_2 token ht =>
    cases h
    exact ⟨token, ht, (SortedMap.get?_insert _ _ _ _).trans (if_pos rfl)⟩

theorem saveToken_some {a : PermsAppIn} {old token : Option String} {t : String}
    (h : saveToken hash a old = .ok token) (ht : a.setToken = some t) :
    ∃ x, hash t = .ok x ∧ token = some x := by
  simp only [saveToken, ht] at h
  split at h
  · cases h
  · split at h
    · cases h
    case h_2 x hx =>
      cases h
      exact ⟨x, hx, rfl⟩

theorem saveToken_none {a : PermsAppIn} {old token : Option String}
    (h : saveToken hash a old = .ok token) (ht : a.setToken = none) : token = old := by
  simp only [saveToken, ht] at h
  cases h
  rfl

/-- A part is present once it is saved. -/
theorem appPresent_saveApp {a : PermsAppIn} (hn : (a.names.map PermsNameIn.name).Nodup)
    (h : saveApp hash p a = .ok p') : AppPresent hash p' a := by
  unfold AppPresent
  split
  case isTrue hd =>
    rw [saveApp, if_pos hd] at h
    cases h
    exact (SortedMap.get?_remove _ _ _).trans (if_pos rfl)
  case isFalse hd =>
    rw [Bool.not_eq_true] at hd
    obtain ⟨token, ht, hg⟩ := get?_saveApp_self h hd
    exact ⟨_, hg, rfl, rfl, fun t h' => saveToken_some ht h', namePresent_foldl hn _⟩

/-- A part stays present when another, apart from it, is saved. -/
theorem AppPresent.saveApp {a b : PermsAppIn} (hp : AppPresent hash p a) (hab : Apart a b)
    (h : saveApp hash' p b = .ok p') : AppPresent hash p' a := by
  by_cases hne : a.app = b.app
  · rcases hab with hab | ⟨hda, hdb, hallow, hdeny, htok, hnames⟩
    · exact absurd hne hab
    rw [AppPresent, if_neg (by rw [hda]; decide)] at hp ⊢
    obtain ⟨e, he, -, -, hset, hnm⟩ := hp
    obtain ⟨token, ht, hg⟩ := get?_saveApp_self h hdb
    rw [hne] at he
    rw [PermissionsFile.entry, he, Option.getD_some] at ht hg
    refine ⟨_, hne ▸ hg, hallow.symm, hdeny.symm, fun t hat => ?_, fun n hn => ?_⟩
    · rcases htok with htok | htok
      · rw [htok] at hat
        cases hat
      · obtain ⟨x, hx, hex⟩ := hset t hat
        exact ⟨x, hx, (saveToken_none ht htok).trans hex⟩
    · rw [NamePresent, get?_foldl_saveName_of_ne fun m hm => hnames n hn m hm]
      exact hnm n hn
  · have hg := get?_saveApp_of_ne h hne
    unfold AppPresent at hp ⊢
    rw [hg]
    exact hp

/-! ## Bodies -/

section Bodies

variable {salted : Nat → String → Except String String} {parts : List (PermsAppIn × Nat)}
  {body : List PermsAppIn}

theorem AppPresent.savedParts {a : PermsAppIn} (hp : AppPresent hash p a)
    (hab : ∀ b ∈ parts, Apart a b.1) (h : parts.foldlM (savePart salted) p = .ok p') :
    AppPresent hash p' a := by
  induction parts generalizing p with
  | nil => cases h; exact hp
  | cons b parts ih =>
    rw [List.forall_mem_cons] at hab
    rw [List.foldlM_cons] at h
    obtain ⟨q, hq, h⟩ := bind_ok h
    exact ih (hp.saveApp hab.1 hq) hab.2 h

/-- After a save every part of its body is present. -/
theorem appPresent_savedParts (hd : Distinct (parts.map Prod.fst))
    (h : parts.foldlM (savePart salted) p = .ok p') :
    ∀ a ∈ parts, AppPresent (salted a.2) p' a.1 := by
  induction parts generalizing p with
  | nil => exact List.forall_mem_nil _
  | cons a parts ih =>
    obtain ⟨ha, happs⟩ := List.pairwise_cons.mp hd.apps
    have hnames := List.forall_mem_cons.mp hd.names
    rw [List.foldlM_cons] at h
    obtain ⟨q, hq, h⟩ := bind_ok h
    refine List.forall_mem_cons.mpr ⟨?_, ih ⟨happs, hnames.2⟩ h⟩
    exact (appPresent_saveApp hnames.1 hq).savedParts
      (fun b hb => ha b.1 (List.mem_map_of_mem hb)) h

/-- A name stays in its app through saves that neither delete the app nor list the name. -/
theorem names_savedParts {app name : String} {e : AppEntry} (he : p.apps.get? app = some e)
    (hc : ∀ a ∈ parts, a.1.app = app → a.1.delete = false ∧ ∀ n ∈ a.1.names, name ≠ n.name)
    (h : parts.foldlM (savePart salted) p = .ok p') :
    ∃ e', p'.apps.get? app = some e' ∧ e'.names.get? name = e.names.get? name := by
  induction parts generalizing p e with
  | nil => cases h; exact ⟨e, he, rfl⟩
  | cons a parts ih =>
    rw [List.forall_mem_cons] at hc
    rw [List.foldlM_cons] at h
    obtain ⟨q, hq, h⟩ := bind_ok h
    by_cases ha : a.1.app = app
    · obtain ⟨hdel, hnames⟩ := hc.1 ha
      obtain ⟨token, -, hg⟩ := get?_saveApp_self hq hdel
      rw [PermissionsFile.entry, ha, he, Option.getD_some] at hg
      obtain ⟨e', he', hn'⟩ := ih hg hc.2 h
      exact ⟨e', he', hn'.trans (get?_foldl_saveName_of_ne hnames _)⟩
    · exact ih ((get?_saveApp_of_ne hq (Ne.symm ha)).trans he) hc.2 h

theorem editPerms_eq_ok_iff : editPerms salted p body = .ok p' ↔
    body.zipIdx.foldlM (savePart salted) p = .ok p' ∧ p'.validate = .ok () := by
  constructor
  · intro h
    obtain ⟨q, hq, h⟩ := bind_ok h
    obtain ⟨u, hv, h⟩ := bind_ok h
    obtain rfl := Except.ok.inj h
    exact ⟨hq, mapError_ok hv⟩
  · rintro ⟨hq, hv⟩
    simp only [editPerms, hq, bind, Except.bind, hv]
    rfl

/-- What was present stays through an edit apart from it. -/
theorem AppPresent.editPerms {a : PermsAppIn} (hp : AppPresent hash p a)
    (hab : ∀ b ∈ body, Apart a b) (h : editPerms salted p body = .ok p') :
    AppPresent hash p' a :=
  hp.savedParts (fun b hb => hab b.1 (List.fst_mem_of_mem_zipIdx hb)) (editPerms_eq_ok_iff.mp h).1

theorem appPresent_editPerms (hd : Distinct body) (h : editPerms salted p body = .ok p') :
    ∀ a ∈ body.zipIdx, AppPresent (salted a.2) p' a.1 :=
  appPresent_savedParts (by rwa [List.zipIdx_map_fst]) (editPerms_eq_ok_iff.mp h).1

theorem names_editPerms {app name : String} {e : AppEntry} (he : p.apps.get? app = some e)
    (hc : ∀ a ∈ body, a.app = app → a.delete = false ∧ ∀ n ∈ a.names, name ≠ n.name)
    (h : editPerms salted p body = .ok p') :
    ∃ e', p'.apps.get? app = some e' ∧ e'.names.get? name = e.names.get? name :=
  names_savedParts he (fun a ha => hc a.1 (List.fst_mem_of_mem_zipIdx ha))
    (editPerms_eq_ok_iff.mp h).1

end Bodies

end XavierDB.Perms
