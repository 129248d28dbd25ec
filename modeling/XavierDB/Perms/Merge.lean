import XavierDB.Base.LastWrite
import XavierDB.Bson.Json
import XavierDB.Perms.Allows

/-!
# What a save makes of the permissions (`src/routes_admin.rs`)

The rules and the credential of an app and the rules of a name are registers: a
part of a body writes those of its app, or of the names it lists, and leaves the
others alone. The tree that `perms_get` returns reads back as a body that
writes what is there.
-/

namespace XavierDB.Perms

open LastWrite

/-! ## The registers -/

namespace PermissionsFile

def rulesOf (p : PermissionsFile) (app : String) : Option (List Rule × List Rule) :=
  (p.apps.get? app).map fun e => (e.allow, e.deny)

def tokenOf (p : PermissionsFile) (app : String) : Option String :=
  (p.apps.get? app).bind AppEntry.tokenHash

def nameOf (p : PermissionsFile) (app name : String) : Option NameEntry :=
  (p.apps.get? app).bind fun e => e.names.get? name

end PermissionsFile

/-- The rules that a part of a body gives an app, none if it deletes the app. -/
def rulesGiven (app : String) (a : PermsAppIn) : Option (Option (List Rule × List Rule)) :=
  if a.app = app then some (if a.delete then none else some (a.allow, a.deny)) else none

/-- The credential it gives the app, none if it deletes the app. -/
def tokenGiven (hash : String → Except String String) (app : String) (a : PermsAppIn) :
    Option (Option String) :=
  if a.app = app then
    if a.delete then some none else a.setToken.map fun t => (hash t).toOption
  else none

def nameRules (name : String) (n : PermsNameIn) : Option (Option NameEntry) :=
  if n.name = name then some (if n.delete then none else some ⟨n.allow, n.deny⟩) else none

/-- The rules it gives a name of the app, none if it deletes the app or the name. -/
def nameGiven (app name : String) (a : PermsAppIn) : Option (Option NameEntry) :=
  if a.app = app then
    if a.delete then some none else lastWrite (nameRules name) a.names
  else none

/-- What a save that succeeds leaves. -/
structure Merged (salted : Nat → String → Except String String) (body : List PermsAppIn)
    (p p' : PermissionsFile) : Prop where
  /-- an app that the body does not list is unchanged -/
  unlisted : ∀ app, (∀ a ∈ body, a.app ≠ app) → p'.apps.get? app = p.apps.get? app
  /-- a listed app has the rules last given for it, or is gone -/
  rules : ∀ app, p'.rulesOf app = (lastWrite (rulesGiven app) body).getD (p.rulesOf app)
  /-- it keeps its credential, unless one is set or it is deleted -/
  token : ∀ app, p'.tokenOf app =
    (lastWrite (fun a => tokenGiven (salted a.2) app a.1) body.zipIdx).getD (p.tokenOf app)
  /-- what is set is long enough and was hashed -/
  hashed : ∀ a ∈ body.zipIdx, a.1.delete = false → ∀ t, a.1.setToken = some t →
    8 ≤ t.utf8ByteSize ∧ ∃ h, salted a.2 t = .ok h
  /-- a name has the rules last given for it, or is gone; an unlisted one keeps its own -/
  names : ∀ app name,
    p'.nameOf app name = (lastWrite (nameGiven app name) body).getD (p.nameOf app name)
  valid : p'.validate = .ok ()

variable {hash : String → Except String String} {p p' : PermissionsFile} {a : PermsAppIn}
  {body : List PermsAppIn}

/-! ## One part -/

theorem entry_tokenHash (p : PermissionsFile) (app : String) :
    (p.entry app).tokenHash = p.tokenOf app := by
  unfold PermissionsFile.entry PermissionsFile.tokenOf
  cases p.apps.get? app with
  | none => rfl
  | some e => rfl

theorem entry_names (p : PermissionsFile) (app name : String) :
    (p.entry app).names.get? name = p.nameOf app name := by
  unfold PermissionsFile.entry PermissionsFile.nameOf
  cases p.apps.get? app with
  | none => rfl
  | some e => rfl

/-- All that a part of a body does. -/
theorem saveApp_cases (h : saveApp hash p a = .ok p') (app : String) :
    (a.app ≠ app ∧ p'.apps.get? app = p.apps.get? app) ∨
    (a.app = app ∧ a.delete = true ∧ p'.apps.get? app = none) ∨
    (a.app = app ∧ a.delete = false ∧ ∃ token, saveToken hash a (p.tokenOf app) = .ok token ∧
      p'.apps.get? app =
        some ⟨token, a.allow, a.deny, a.names.foldl saveName (p.entry app).names⟩) := by
  by_cases happ : a.app = app
  · subst happ
    cases hd : a.delete with
    | true =>
      rw [saveApp, if_pos hd] at h
      cases h
      exact .inr (.inl ⟨rfl, rfl, (SortedMap.get?_remove _ _ _).trans (if_pos rfl)⟩)
    | false =>
      obtain ⟨token, ht, hg⟩ := get?_saveApp_self h hd
      rw [entry_tokenHash] at ht
      exact .inr (.inr ⟨rfl, rfl, token, ht, hg⟩)
  · exact .inl ⟨happ, get?_saveApp_of_ne h (Ne.symm happ)⟩

theorem rulesOf_saveApp (h : saveApp hash p a = .ok p') (app : String) :
    p'.rulesOf app = (rulesGiven app a).getD (p.rulesOf app) := by
  unfold PermissionsFile.rulesOf rulesGiven
  obtain ⟨happ, hg⟩ | ⟨happ, hd, hg⟩ | ⟨happ, hd, token, -, hg⟩ := saveApp_cases h app
  · rw [hg, if_neg happ, Option.getD_none]
  · rw [hg, if_pos happ, hd]
    rfl
  · rw [hg, if_pos happ, hd]
    rfl

theorem saveToken_eq {old token : Option String} (h : saveToken hash a old = .ok token) :
    token = (a.setToken.map fun t => (hash t).toOption).getD old := by
  cases ht : a.setToken with
  | none => exact saveToken_none h ht
  | some t =>
    obtain ⟨x, hx, htoken⟩ := saveToken_some h ht
    rw [htoken, Option.map_some, Option.getD_some, hx]
    rfl

theorem tokenOf_saveApp (h : saveApp hash p a = .ok p') (app : String) :
    p'.tokenOf app = (tokenGiven hash app a).getD (p.tokenOf app) := by
  unfold tokenGiven
  obtain ⟨happ, hg⟩ | ⟨happ, hd, hg⟩ | ⟨happ, hd, token, ht, hg⟩ := saveApp_cases h app
  · rw [if_neg happ, Option.getD_none, PermissionsFile.tokenOf, hg]
    rfl
  · rw [if_pos happ, hd, PermissionsFile.tokenOf, hg]
    rfl
  · rw [if_pos happ, hd, if_neg (by decide), ← saveToken_eq ht, PermissionsFile.tokenOf, hg]
    rfl

theorem get?_foldl_saveName (names : SortedMap String NameEntry) (l : List PermsNameIn)
    (name : String) :
    (l.foldl saveName names).get? name = (lastWrite (nameRules name) l).getD (names.get? name) := by
  refine reg_foldl (fun names : SortedMap String NameEntry => names.get? name)
    (fun names n => ?_) names l
  rw [get?_saveName, nameRules]
  by_cases hn : n.name = name
  · rw [if_pos hn.symm, if_pos hn, Option.getD_some]
  · rw [if_neg (Ne.symm hn), if_neg hn, Option.getD_none]

theorem nameOf_saveApp (h : saveApp hash p a = .ok p') (app name : String) :
    p'.nameOf app name = (nameGiven app name a).getD (p.nameOf app name) := by
  unfold nameGiven
  obtain ⟨happ, hg⟩ | ⟨happ, hd, hg⟩ | ⟨happ, hd, token, -, hg⟩ := saveApp_cases h app
  · rw [if_neg happ, Option.getD_none, PermissionsFile.nameOf, hg]
    rfl
  · rw [if_pos happ, hd, PermissionsFile.nameOf, hg]
    rfl
  · have hfold := get?_foldl_saveName (p.entry app).names a.names name
    rw [entry_names] at hfold
    rw [if_pos happ, hd, if_neg (by decide), ← hfold, PermissionsFile.nameOf, hg]
    rfl

theorem length_of_saveToken {old token : Option String} {t : String}
    (h : saveToken hash a old = .ok token) (ht : a.setToken = some t) : 8 ≤ t.utf8ByteSize := by
  simp only [saveToken, ht] at h
  split at h
  case isTrue => cases h
  case isFalse hlen => exact Nat.le_of_not_lt hlen

/-! ## Bodies -/

section Bodies

variable {salted : Nat → String → Except String String} {parts : List (PermsAppIn × Nat)}

theorem get?_of_unlisted {app : String} (hne : ∀ a ∈ parts, a.1.app ≠ app)
    (h : parts.foldlM (savePart salted) p = .ok p') : p'.apps.get? app = p.apps.get? app := by
  induction parts generalizing p with
  | nil => cases h; rfl
  | cons a parts ih =>
    rw [List.forall_mem_cons] at hne
    rw [List.foldlM_cons] at h
    obtain ⟨q, hq, h⟩ := bind_ok h
    rw [ih hne.2 h, get?_saveApp_of_ne hq (Ne.symm hne.1)]

theorem hashed_of_saved (h : parts.foldlM (savePart salted) p = .ok p') :
    ∀ a ∈ parts, a.1.delete = false → ∀ t, a.1.setToken = some t →
      8 ≤ t.utf8ByteSize ∧ ∃ x, salted a.2 t = .ok x := by
  induction parts generalizing p with
  | nil => exact List.forall_mem_nil _
  | cons a parts ih =>
    rw [List.foldlM_cons] at h
    obtain ⟨q, hq, h⟩ := bind_ok h
    refine List.forall_mem_cons.mpr ⟨fun hd t ht => ?_, ih h⟩
    obtain ⟨token, htoken, -⟩ := get?_saveApp_self hq hd
    obtain ⟨x, hx, -⟩ := saveToken_some htoken ht
    exact ⟨length_of_saveToken htoken ht, x, hx⟩

/-- A register that the parts write whatever their salts. -/
theorem reg_body {β : Type} {w : PermsAppIn → Option β} (reg : PermissionsFile → β)
    (hstep : ∀ hash p a p', saveApp hash p a = .ok p' → reg p' = (w a).getD (reg p))
    (h : body.zipIdx.foldlM (savePart salted) p = .ok p') :
    reg p' = (lastWrite w body).getD (reg p) := by
  have hlast : lastWrite (fun a : PermsAppIn × Nat => w a.1) body.zipIdx = lastWrite w body := by
    rw [← lastWrite_map w Prod.fst, List.zipIdx_map_fst]
  rw [← hlast]
  exact reg_foldlM (w := fun a : PermsAppIn × Nat => w a.1) reg
    (fun p a p' hs => hstep (salted a.2) p a.1 p' hs) h

/-- An edit that is accepted is a merge. -/
theorem merged_of_editPerms (h : editPerms salted p body = .ok p') :
    Merged salted body p p' := by
  obtain ⟨hfold, hvalid⟩ := editPerms_eq_ok_iff.mp h
  exact {
    unlisted := fun app hne =>
      get?_of_unlisted (fun a ha => hne a.1 (List.fst_mem_of_mem_zipIdx ha)) hfold
    rules := fun app => reg_body (fun p => PermissionsFile.rulesOf p app)
      (fun _ _ _ _ hs => rulesOf_saveApp hs app) hfold
    token := fun app => reg_foldlM
      (w := fun a : PermsAppIn × Nat => tokenGiven (salted a.2) app a.1)
      (fun p => PermissionsFile.tokenOf p app) (fun _ _ _ hs => tokenOf_saveApp hs app) hfold
    hashed := hashed_of_saved hfold
    names := fun app name => reg_body (fun p => PermissionsFile.nameOf p app name)
      (fun _ _ _ _ hs => nameOf_saveApp hs app name) hfold
    valid := hvalid }

end Bodies

/-! ## What a merge keeps -/

section Merged

variable {salted : Nat → String → Except String String}

/-- An app that is neither deleted nor given a credential keeps its own. -/
theorem Merged.keeps_token (h : Merged salted body p p') {app : String}
    (hbody : ∀ a ∈ body, a.app = app → a.delete = false ∧ a.setToken = none) :
    p'.tokenOf app = p.tokenOf app := by
  rw [h.token app, lastWrite_eq_none fun a ha => ?_, Option.getD_none]
  unfold tokenGiven
  split
  case isTrue happ =>
    obtain ⟨hd, ht⟩ := hbody a.1 (List.fst_mem_of_mem_zipIdx ha) happ
    rw [hd, ht]
    rfl
  case isFalse => rfl

/-- A name that no part on its app lists keeps its rules, unless the app is deleted. -/
theorem Merged.keeps_name (h : Merged salted body p p') {app name : String}
    (hbody : ∀ a ∈ body, a.app = app → a.delete = false ∧ ∀ n ∈ a.names, n.name ≠ name) :
    p'.nameOf app name = p.nameOf app name := by
  rw [h.names app name, lastWrite_eq_none fun a ha => ?_, Option.getD_none]
  unfold nameGiven
  split
  case isTrue happ =>
    obtain ⟨hd, hnames⟩ := hbody a ha happ
    rw [hd, if_neg (by decide)]
    exact lastWrite_eq_none fun n hn => if_neg (hnames n hn)
  case isFalse => rfl

/-- The last part on an app says its rules, or that it is gone. -/
theorem Merged.rules_of_last {l₁ l₂ : List PermsAppIn} (h : Merged salted (l₁ ++ a :: l₂) p p')
    (hlast : ∀ b ∈ l₂, b.app ≠ a.app) :
    p'.rulesOf a.app = if a.delete then none else some (a.allow, a.deny) := by
  have hwrite : lastWrite (rulesGiven a.app) (l₁ ++ a :: l₂) =
      some (if a.delete then none else some (a.allow, a.deny)) :=
    lastWrite_of_last (if_pos rfl) fun b hb => if_neg (hlast b hb)
  rw [h.rules a.app, hwrite, Option.getD_some]

end Merged

/-! ## The tree of `perms_get` -/

def stringsJson (l : List String) : Json := .array (l.map .string)

def ruleJson (r : Rule) : Json :=
  .object [("actions", stringsJson r.actions), ("databases", stringsJson r.databases),
    ("collections", stringsJson r.collections)]

def rulesJson (l : List Rule) : Json := .array (l.map ruleJson)

def effectiveJson (r : EffectiveRule) : Json :=
  .object [("source", .string r.source), ("actions", stringsJson r.actions),
    ("databases", stringsJson r.databases), ("collections", stringsJson r.collections)]

def nameJson (p : PermissionsFile) (app : String) (n : String × NameEntry) : Json :=
  .object [("name", .string n.1), ("allow", rulesJson n.2.allow), ("deny", rulesJson n.2.deny),
    ("effective", .array ((effectiveRules p app (some n.1)).map effectiveJson))]

def appJson (p : PermissionsFile) (a : String × AppEntry) : Json :=
  .object [("app", .string a.1), ("token_set", .bool a.2.tokenHash.isSome),
    ("allow", rulesJson a.2.allow), ("deny", rulesJson a.2.deny),
    ("effective", .array ((effectiveRules p a.1 none).map effectiveJson)),
    ("names", .array (a.2.names.entries.map (nameJson p a.1)))]

/-- `perms_get`. -/
def permsGet (p : PermissionsFile) (permsVersion : Nat) : Json :=
  .object [("version", .number (.posInt (.ofNat permsVersion))),
    ("apps", .array (p.apps.entries.map (appJson p)))]

/-! ## The body of a save -/

section Serde

variable {α : Type}

/-- The fields of a struct: those of an object, or the elements of an array in
the order of the struct. -/
def structFields (names : List String) : Json → Option (List (String × Json))
  | .object m => some m
  | .array l => if l.length ≤ names.length then some (names.zip l) else none
  | _ => none

/-- A field, which is given once; without it `missing`. -/
def field (read : Json → Option α) (missing : Option α) (m : List (String × Json))
    (name : String) : Option α :=
  match m.filter (·.1 == name) with
  | [] => missing
  | [f] => read f.2
  | _ => none

def readBool : Json → Option Bool
  | .bool b => some b
  | _ => none

def readList (read : Json → Option α) : Json → Option (List α)
  | .array l => l.mapM read
  | _ => none

def readOption (read : Json → Option α) : Json → Option (Option α)
  | .null => some none
  | j => (read j).map some

end Serde

def readRule (j : Json) : Option Rule := do
  let m ← structFields ["actions", "databases", "collections"] j
  let actions ← field (readList Json.asStr) (some []) m "actions"
  let databases ← field (readList Json.asStr) (some []) m "databases"
  let collections ← field (readList Json.asStr) (some ["*"]) m "collections"
  return ⟨actions, databases, collections⟩

def readName (j : Json) : Option PermsNameIn := do
  let m ← structFields ["name", "allow", "deny", "delete"] j
  let name ← field Json.asStr none m "name"
  let allow ← field (readList readRule) (some []) m "allow"
  let deny ← field (readList readRule) (some []) m "deny"
  let delete ← field readBool (some false) m "delete"
  return ⟨name, allow, deny, delete⟩

def readApp (j : Json) : Option PermsAppIn := do
  let m ← structFields ["app", "allow", "deny", "names", "delete", "set_token"] j
  let app ← field Json.asStr none m "app"
  let allow ← field (readList readRule) (some []) m "allow"
  let deny ← field (readList readRule) (some []) m "deny"
  let names ← field (readList readName) (some []) m "names"
  let delete ← field readBool (some false) m "delete"
  let setToken ← field (readOption Json.asStr) (some none) m "set_token"
  return ⟨app, allow, deny, names, delete, setToken⟩

/-- `JsonBody<PermsSaveBody>`, unless it is refused. -/
def readBody (j : Json) : Option (List PermsAppIn) := do
  let m ← structFields ["apps"] j
  field (readList readApp) none m "apps"

/-! ## Posting the tree back -/

/-- The body that says what is there. -/
def bodyOf (p : PermissionsFile) : List PermsAppIn :=
  p.apps.entries.map fun a =>
    ⟨a.1, a.2.allow, a.2.deny, a.2.names.entries.map fun n => ⟨n.1, n.2.allow, n.2.deny, false⟩,
      false, none⟩

theorem readList_map {α β : Type} {read : Json → Option β} {write : α → Json} {g : α → β}
    (h : ∀ x, read (write x) = some (g x)) (l : List α) :
    readList read (.array (l.map write)) = some (l.map g) := by
  rw [readList]
  induction l with
  | nil => rfl
  | cons x l ih => rw [List.map_cons, List.mapM_cons, h, ih]; rfl

theorem readList_stringsJson (l : List String) :
    readList Json.asStr (stringsJson l) = some l := by
  have h := readList_map (fun s : String => (rfl : Json.asStr (.string s) = some s)) l
  rwa [List.map_id'] at h

theorem readRule_ruleJson (r : Rule) : readRule (ruleJson r) = some r := by
  simp [readRule, ruleJson, structFields, field, readList_stringsJson]

theorem readList_rulesJson (l : List Rule) : readList readRule (rulesJson l) = some l := by
  rw [rulesJson, readList_map (g := id) readRule_ruleJson, List.map_id]

theorem readName_nameJson (p : PermissionsFile) (app : String) (n : String × NameEntry) :
    readName (nameJson p app n) = some ⟨n.1, n.2.allow, n.2.deny, false⟩ := by
  simp [readName, nameJson, structFields, field, readList_rulesJson, Json.asStr]

theorem readApp_appJson (p : PermissionsFile) (a : String × AppEntry) :
    readApp (appJson p a) = some ⟨a.1, a.2.allow, a.2.deny,
      a.2.names.entries.map fun n => ⟨n.1, n.2.allow, n.2.deny, false⟩, false, none⟩ := by
  simp [readApp, appJson, structFields, field, readList_rulesJson, Json.asStr,
    readList_map (readName_nameJson p a.1)]

/-- The tree is accepted as a body; what the body has no field for is skipped. -/
theorem readBody_permsGet (p : PermissionsFile) (permsVersion : Nat) :
    readBody (permsGet p permsVersion) = some (bodyOf p) := by
  simp [readBody, permsGet, structFields, field, readList_map (readApp_appJson p), bodyOf]

theorem foldl_saveName_self {names : SortedMap String NameEntry}
    {l : List (String × NameEntry)} (h : ∀ n ∈ l, names.get? n.1 = some n.2) :
    (l.map fun n => (⟨n.1, n.2.allow, n.2.deny, false⟩ : PermsNameIn)).foldl saveName names =
      names := by
  induction l with
  | nil => rfl
  | cons n l ih =>
    rw [List.forall_mem_cons] at h
    rw [List.map_cons, List.foldl_cons]
    have hn : saveName names ⟨n.1, n.2.allow, n.2.deny, false⟩ = names :=
      SortedMap.insert_of_get? h.1
    rw [hn, ih h.2]

theorem savePart_bodyOf (salted : Nat → String → Except String String) (p : PermissionsFile) :
    ∀ a ∈ (bodyOf p).zipIdx, savePart salted p a = .ok p := by
  intro a ha
  obtain ⟨⟨app, e⟩, he, hpart⟩ := List.mem_map.mp (List.fst_mem_of_mem_zipIdx ha)
  have hget : p.apps.get? app = some e := SortedMap.get?_of_mem he
  have hentry : p.entry app = e := by rw [PermissionsFile.entry, hget, Option.getD_some]
  have hnames := foldl_saveName_self fun n (hn : n ∈ e.names.entries) => SortedMap.get?_of_mem hn
  simp only [savePart, ← hpart, saveApp, saveToken, hentry, hnames]
  rw [if_neg (by decide), SortedMap.insert_of_get? hget]

/-- Posting back what `perms_get` returned changes nothing. -/
theorem editPerms_bodyOf (salted : Nat → String → Except String String) {p : PermissionsFile}
    (h : p.validate = .ok ()) : editPerms salted p (bodyOf p) = .ok p := by
  have hfixed : ∀ parts : List (PermsAppIn × Nat), (∀ a ∈ parts, savePart salted p a = .ok p) →
      parts.foldlM (savePart salted) p = .ok p := by
    intro parts hparts
    induction parts with
    | nil => rfl
    | cons a parts ih =>
      rw [List.forall_mem_cons] at hparts
      rw [List.foldlM_cons, hparts.1]
      exact ih hparts.2
  exact editPerms_eq_ok_iff.mpr ⟨hfixed _ (savePart_bodyOf salted p), h⟩

end XavierDB.Perms
