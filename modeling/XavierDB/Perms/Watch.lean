import XavierDB.Base.Run
import XavierDB.Perms.Save

/-!
# The watcher of the permissions file (`src/main.rs`)

The file is edited from outside, saves and first logins write it, the watcher
and `perms_reload` load it. The watcher skips a file that holds the bytes of the
stamp `last_perms_written`; saves, logins and the watcher itself refresh the
stamp, `perms_reload` does not.
-/

namespace XavierDB.Perms.Watch

open Run

/-! ## The operations -/

structure State where
  perms : PermissionsFile
  /-- `authorized_keys.yml`, when it is there -/
  file : Option Bytes
  lastPermsWritten : Option Bytes
  permsVersion : Nat
  /-- an event of the file has not been followed by a firing -/
  pending : Bool

/-- `read_to_string`. -/
def readToString : Option Bytes → Except String String
  | none => .error "No such file or directory (os error 2)"
  | some bytes =>
    match fromUtf8 bytes with
    | none => .error "stream did not contain valid UTF-8"
    | some text => .ok text

/-- The permissions that a file which parses and validates describes. -/
def described (Y : Yaml) (file : Option Bytes) : Option PermissionsFile :=
  match readToString file with
  | .error _ => none
  | .ok text =>
    match PermissionsFile.parse Y text with
    | .error _ => none
    | .ok perms =>
      match perms.validate with
      | .error _ => none
      | .ok _ => some perms

/-- The permissions the server starts with; problems of validation are only logged. -/
def initialPerms (Y : Yaml) (file : Option Bytes) : PermissionsFile :=
  match readToString file with
  | .error _ => ⟨.empty⟩
  | .ok text => (PermissionsFile.parse Y text).toOption.getD ⟨.empty⟩

def start (Y : Yaml) (file : Option Bytes) : State := ⟨initialPerms Y file, file, none, 0, false⟩

/-- The closure of `start_watchers`; what it cannot load it logs. -/
def onChange (Y : Yaml) (s : State) : State :=
  if s.file.isSome ∧ s.file = s.lastPermsWritten then s
  else
    match described Y s.file with
    | none => s
    | some perms =>
      { s with perms, permsVersion := s.permsVersion + 1, lastPermsWritten := s.file }

/-- A firing, which needs an event. -/
def fire (Y : Yaml) (s : State) : State :=
  if s.pending then onChange Y { s with pending := false } else s

/-- What a write of the server leaves: the file, the stamp, the permissions
written, and maybe an event. -/
def State.wrote (s : State) (perms : PermissionsFile) (yaml : String) (event : Bool) : State :=
  ⟨perms, some (utf8Bytes yaml), some (utf8Bytes yaml), s.permsVersion + 1, s.pending || event⟩

/-- `perms_save`, as one step; `writeErr` is the outcome of `persist_perms`. -/
def permsSave (Y : Yaml) (salted : Nat → String → Except String String) (body : List PermsAppIn)
    (writeErr : Option String) (event : Bool) (s : State) : State × Except ApiError Unit :=
  match editPerms salted s.perms body with
  | .error e => (s, .error e)
  | .ok perms =>
    match perms.toYaml Y, writeErr with
    | .error e, _ => (s, .error (.internal e))
    | .ok _, some e => (s, .error (.internal e))
    | .ok yaml, none => (s.wrote perms yaml event, .ok ())

/-- The first-login branch of `auth_login`. -/
def autoAdd (Y : Yaml) (name app : String) (writeErr : Option String) (event : Bool) (s : State) :
    State :=
  match s.perms.apps.get? app with
  | none => s
  | some e =>
    if e.names.contains name then s
    else
      match (addName s.perms app name e).toYaml Y, writeErr with
      | .ok yaml, none => s.wrote (addName s.perms app name e) yaml event
      | _, _ => { s with perms := addName s.perms app name e }

/-- `perms_reload`. -/
def permsReload (Y : Yaml) (path : String) (s : State) : State × Except ApiError Unit :=
  match readToString s.file with
  | .error e => (s, .error (.internal ("cannot read " ++ path ++ ": " ++ e)))
  | .ok text =>
    match PermissionsFile.parse Y text with
    | .error e => (s, .error (.badRequest e))
    | .ok perms =>
      match perms.validate with
      | .error e => (s, .error (.badRequest ("invalid permissions: " ++ e)))
      | .ok _ => ({ s with perms, permsVersion := s.permsVersion + 1 }, .ok ())

/-! ## Runs -/

inductive Event where
  /-- someone else writes the file, or removes it -/
  | edit (file : Option Bytes)
  | save (salted : Nat → String → Except String String) (body : List PermsAppIn)
    (writeErr : Option String) (event : Bool)
  | login (name app : String) (writeErr : Option String) (event : Bool)
  | reload (path : String)
  | fire

def act (Y : Yaml) (s : State) : Event → State
  | .edit file => { s with file, pending := true }
  | .save salted body writeErr event => (permsSave Y salted body writeErr event s).1
  | .login name app writeErr event => autoAdd Y name app writeErr event s
  | .reload path => (permsReload Y path s).1
  | .fire => fire Y s

/-- Memory is what the file describes, if it describes anything. -/
def Agrees (Y : Yaml) (s : State) : Prop := ∀ p, described Y s.file = some p → s.perms = p

/-- Unless an event is pending. -/
def Follows (Y : Yaml) (s : State) : Prop := s.pending = false → Agrees Y s

/-- The next firing loads nothing. -/
def Settled (s : State) : Prop :=
  s.pending = false ∨ (s.file.isSome = true ∧ s.file = s.lastPermsWritten)

/-- The login adds its name. -/
def AddsName (s : State) (name app : String) : Prop :=
  ∃ e, s.perms.apps.get? app = some e ∧ e.names.contains name = false

/-- An edit does not put back the bytes of the stamp while memory is not what
they describe, and a login that adds its name gets it on disk, unless the next
firing loads the file or the file describes nothing. -/
def Safe (Y : Yaml) (s : State) : Event → Prop
  | .edit file => file.isSome = true ∧ file = s.lastPermsWritten →
      ∀ p, described Y file = some p → s.perms = p
  | .login name app (some _) _ => AddsName s name app → Settled s → described Y s.file = none
  | _ => True

/-! ## The invariant -/

/-- Memory follows the file, also past the next firing. -/
def Inv (Y : Yaml) (s : State) : Prop := Settled s → Agrees Y s

variable {Y : Yaml} {s : State}

theorem described_utf8Bytes (yaml : String) : described Y (some (utf8Bytes yaml)) =
    match PermissionsFile.parse Y yaml with
    | .error _ => none
    | .ok p => match p.validate with
      | .error _ => none
      | .ok _ => some p := by
  rw [described, readToString, fromUtf8_utf8Bytes]

/-- A written file describes what was written, if it is valid. -/
theorem agrees_wrote {p : PermissionsFile} {yaml : String} {event : Bool}
    (h : p.toYaml Y = .ok yaml) : Agrees Y (s.wrote p yaml event) := by
  obtain ⟨y, hy, hparse⟩ := PermissionsFile.parse_toYaml Y p
  obtain rfl := Except.ok.inj (hy.symm.trans h)
  intro q hq
  rw [State.wrote, described_utf8Bytes, hparse] at hq
  show p = q
  cases hv : p.validate with
  | error e => simp [hv] at hq
  | ok _ => simpa [hv] using hq

theorem described_eq_some {file : Option Bytes} {p : PermissionsFile} :
    described Y file = some p ↔ ∃ text, readToString file = .ok text ∧
      PermissionsFile.parse Y text = .ok p ∧ p.validate = .ok () := by
  unfold described
  split
  case h_1 ht => simp [ht]
  case h_2 text ht =>
    split
    case h_1 hp => simp [ht, hp]
    case h_2 q hp =>
      split
      case h_1 hv => grind
      case h_2 hv => grind

theorem initialPerms_of_described {file : Option Bytes} {p : PermissionsFile}
    (h : described Y file = some p) : initialPerms Y file = p := by
  obtain ⟨text, ht, hp, -⟩ := described_eq_some.mp h
  rw [initialPerms, ht]
  dsimp only
  rw [hp]
  rfl

theorem inv_start (file : Option Bytes) : Inv Y (start Y file) :=
  fun _ _ hp => initialPerms_of_described hp

/-! ## Steps -/

/-- The invariant looks only at memory, file, stamp and event. -/
theorem Inv.wrote {p : PermissionsFile} {yaml : String} {event : Bool}
    (h : p.toYaml Y = .ok yaml) : Inv Y (s.wrote p yaml event) := fun _ => agrees_wrote h

/-- A save writes permissions, or changes nothing. -/
theorem permsSave_cases (Y : Yaml) (s : State) (salted : Nat → String → Except String String)
    (body : List PermsAppIn) (writeErr : Option String) (event : Bool) :
    (permsSave Y salted body writeErr event s).1 = s ∨
      ∃ p yaml, p.toYaml Y = .ok yaml ∧
        (permsSave Y salted body writeErr event s).1 = s.wrote p yaml event := by
  unfold permsSave
  split
  case h_1 => exact .inl rfl
  case h_2 p _ =>
    split
    case h_1 => exact .inl rfl
    case h_2 => exact .inl rfl
    case h_3 yaml hy => exact .inr ⟨p, yaml, hy, rfl⟩

/-- A reload takes what the file describes, or changes nothing. -/
theorem permsReload_cases (Y : Yaml) (s : State) (path : String) :
    (permsReload Y path s).1 = s ∨ ∃ p, described Y s.file = some p ∧
      (permsReload Y path s).1 = { s with perms := p, permsVersion := s.permsVersion + 1 } := by
  unfold permsReload
  split
  case h_1 => exact .inl rfl
  case h_2 text ht =>
    split
    case h_1 => exact .inl rfl
    case h_2 p hp =>
      split
      case h_1 => exact .inl rfl
      case h_2 hv => exact .inr ⟨p, described_eq_some.mpr ⟨text, ht, hp, hv⟩, rfl⟩

theorem permsReload_of_described {p : PermissionsFile} {path : String}
    (h : described Y s.file = some p) : (permsReload Y path s).1 =
      { s with perms := p, permsVersion := s.permsVersion + 1 } := by
  obtain ⟨text, ht, hp, hv⟩ := described_eq_some.mp h
  rw [permsReload, ht]
  dsimp only
  rw [hp]
  dsimp only
  rw [hv]

theorem inv_permsSave {salted : Nat → String → Except String String} {body : List PermsAppIn}
    {writeErr : Option String} {event : Bool} (h : Inv Y s) :
    Inv Y (permsSave Y salted body writeErr event s).1 := by
  rcases permsSave_cases Y s salted body writeErr event with hs | ⟨p, yaml, hy, hs⟩
  · rw [hs]
    exact h
  · rw [hs]
    exact .wrote hy

theorem inv_permsReload {path : String} (h : Inv Y s) : Inv Y (permsReload Y path s).1 := by
  rcases permsReload_cases Y s path with hs | ⟨p, hp, hs⟩
  · rw [hs]
    exact h
  · rw [hs]
    exact fun _ q hq => Option.some.inj (hp.symm.trans hq)

theorem inv_fire (h : Inv Y s) : Inv Y (fire Y s) := by
  unfold fire
  split
  case isFalse => exact h
  case isTrue =>
    unfold onChange
    split
    case isTrue hs => exact fun _ => h (.inr hs)
    case isFalse =>
      split
      case h_1 hd =>
        intro _ p hp
        rw [hp] at hd
        cases hd
      case h_2 p hd =>
        intro _ q hq
        exact Option.some.inj (hd.symm.trans hq)

theorem addName_ne {p : PermissionsFile} {app name : String} {e : AppEntry}
    (he : p.apps.get? app = some e) (hn : e.names.contains name = false) :
    p ≠ addName p app name e := by
  intro h
  have hget : p.apps.get? app = some { e with names := e.names.insert name .default } := by
    rw [h]
    exact (get?_addName _ _ _ _).trans (if_pos rfl)
  rw [he] at hget
  have hnames : e.names = e.names.insert name .default := congrArg AppEntry.names (Option.some.inj hget)
  rw [hnames, SortedMap.contains, SortedMap.get?_insert, if_pos rfl] at hn
  cases hn

theorem inv_autoAdd_none {name app : String} {event : Bool} (h : Inv Y s) :
    Inv Y (autoAdd Y name app none event s) := by
  unfold autoAdd
  cases s.perms.apps.get? app with
  | none => exact h
  | some e =>
    dsimp only
    split
    case isTrue => exact h
    case isFalse =>
      obtain ⟨yaml, hy, -⟩ := PermissionsFile.parse_toYaml Y (addName s.perms app name e)
      rw [hy]
      exact .wrote hy

/-- A name that is only added in memory breaks the invariant unless the file is
still to be loaded or describes nothing. -/
theorem inv_autoAdd_some_iff {name app err : String} {event : Bool} (h : Inv Y s) :
    Inv Y (autoAdd Y name app (some err) event s) ↔
      (AddsName s name app → Settled s → described Y s.file = none) := by
  unfold autoAdd AddsName
  cases he : s.perms.apps.get? app with
  | none =>
    refine iff_of_true h ?_
    rintro ⟨e, ⟨⟩, -⟩
  | some e =>
    dsimp only
    split
    case isTrue hn =>
      refine iff_of_true h ?_
      rintro ⟨e', ⟨⟩, hn'⟩
      rw [hn] at hn'
      cases hn'
    case isFalse hn =>
      rw [Bool.not_eq_true] at hn
      have hmatch : ∀ r : Except String String, (match r, some err with
          | .ok yaml, none => s.wrote (addName s.perms app name e) yaml event
          | _, _ => { s with perms := addName s.perms app name e }) =
            { s with perms := addName s.perms app name e } := fun r => by cases r <;> rfl
      rw [hmatch]
      constructor
      · intro hinv _ hs
        by_contra hd
        obtain ⟨p, hp⟩ := Option.ne_none_iff_exists'.mp hd
        exact addName_ne he hn ((h hs p hp).trans (hinv hs p hp).symm)
      · intro hd hs p hp
        have hnone := hd ⟨e, rfl, hn⟩ hs
        cases hnone.symm.trans hp

theorem inv_edit_iff {file : Option Bytes} : Inv Y { s with file, pending := true } ↔
    (file.isSome = true ∧ file = s.lastPermsWritten →
      ∀ p, described Y file = some p → s.perms = p) := by
  constructor
  · exact fun h hs => h (.inr hs)
  · rintro h (hs | hs)
    · cases hs
    · exact h hs

/-- A step keeps the invariant exactly when it is safe. -/
theorem inv_act_iff (s : State) (a : Event) (h : Inv Y s) : Inv Y (act Y s a) ↔ Safe Y s a := by
  cases a with
  | edit file => exact inv_edit_iff
  | save salted body writeErr event => exact iff_of_true (inv_permsSave h) trivial
  | login name app writeErr event =>
    cases writeErr with
    | none => exact iff_of_true (inv_autoAdd_none h) trivial
    | some err => exact inv_autoAdd_some_iff h
  | reload path => exact iff_of_true (inv_permsReload h) trivial
  | fire => exact iff_of_true (inv_fire h) trivial

/-- The invariant is what can be seen now and after the next firing. -/
theorem inv_iff_follows : Inv Y s ↔ Follows Y s ∧ Follows Y (fire Y s) := by
  constructor
  · intro h
    exact ⟨fun hp => h (.inl hp), fun hp => inv_fire h (.inl hp)⟩
  · rintro ⟨h1, h2⟩ (hs | hs)
    · exact h1 hs
    · by_cases hp : s.pending = true
      · rw [fire, if_pos hp, onChange, if_pos hs] at h2
        exact h2 rfl
      · exact h1 (by rwa [Bool.not_eq_true] at hp)

/-! ## Runs -/

/-- From the start on, memory follows the file at every point of a run, and past
a firing of the watcher there, exactly when every step of the run is safe. -/
theorem follows_iff_safe (Y : Yaml) (file : Option Bytes) (as : List Event) :
    (∀ bs, bs <+: as → Follows Y (bs.foldl (act Y) (start Y file)) ∧
      Follows Y (act Y (bs.foldl (act Y) (start Y file)) .fire)) ↔
    Along (act Y) (Safe Y) (start Y file) as := by
  rw [← foldl_inv_iff inv_act_iff (inv_start file)]
  exact forall₂_congr fun _ _ => inv_iff_follows.symm

/-- Safe steps are enough for memory to follow the file, with no firing at the end. -/
theorem follows_of_safe {file : Option Bytes} {as : List Event}
    (h : Along (act Y) (Safe Y) (start Y file) as) : Follows Y (as.foldl (act Y) (start Y file)) :=
  (inv_iff_follows.mp (foldl_inv (fun s a hs => (inv_act_iff s a hs).mpr) (inv_start file) h)).1

/-! ## The steps of the requests -/

/-- What the requests share, with the file as bytes. -/
def ofShared (sh : Shared) (pending : Bool) : State :=
  ⟨sh.perms, some (utf8Bytes sh.disk), sh.lastPermsWritten.map utf8Bytes, sh.permsVersion, pending⟩

/-- A login in one step does what its last step does. -/
theorem autoAdd_ofShared (Y : Yaml) (name app : String) (writeErr : Option String) (event : Bool)
    (sh : Shared) (pending : Bool) : ∃ pending',
    autoAdd Y name app writeErr event (ofShared sh pending) =
      ofShared (firstLogin Y name app writeErr sh) pending' := by
  simp only [autoAdd, firstLogin, ofShared]
  cases sh.perms.apps.get? app with
  | none => exact ⟨pending, rfl⟩
  | some e =>
    dsimp only
    cases e.names.contains name with
    | true => exact ⟨pending, rfl⟩
    | false =>
      cases (addName sh.perms app name e).toYaml Y with
      | error e => exact ⟨pending, rfl⟩
      | ok yaml =>
        cases writeErr with
        | some e => exact ⟨pending, rfl⟩
        | none => exact ⟨pending || event, rfl⟩

/-- A save in one step is its clone, its write, its stamp and its publication in
a row. -/
theorem permsSave_ofShared (C : Credentials) (Y : Yaml)
    (salted : Nat → String → Except String String) (body : List PermsAppIn)
    (writeErr : Option String) (event : Bool) (sh : Shared) (pending : Bool) : ∃ pending',
    (permsSave Y salted body writeErr event (ofShared sh pending)).1 =
      ofShared ((fun x => advance C Y writeErr (.save body salted) x.1 x.2)^[4] (sh, .idle)).1
        pending' := by
  simp only [Function.iterate_succ, Function.iterate_zero, Function.comp, id, permsSave, ofShared,
    advance]
  cases editPerms salted sh.perms body with
  | error e => exact ⟨pending, rfl⟩
  | ok p =>
    dsimp only
    cases p.toYaml Y with
    | error e => exact ⟨pending, rfl⟩
    | ok yaml =>
      cases writeErr with
      | some e => exact ⟨pending, rfl⟩
      | none => exact ⟨pending || event, rfl⟩

/-! ## A restore that the watcher skips -/

def bytesOf (apps : SortedMap String AppEntry) : Option Bytes :=
  some (utf8Bytes (appsCodec.tableText '%' appsTable apps))

/-- A save, an edit that a reload picks up, and the restore of what was saved. -/
def restore : List Event :=
  [.save (fun _ _ => .error "no salt") [⟨"bank", [], [], [], false, none⟩] none false,
    .edit (bytesOf shopApps), .reload "authorized_keys.yml", .edit (bytesOf bankApps), .fire]

theorem readToString_bytesOf (apps : SortedMap String AppEntry) :
    readToString (bytesOf apps) = .ok (appsCodec.tableText '%' appsTable apps) := by
  rw [bytesOf, readToString, fromUtf8_utf8Bytes]

theorem parse_bytesOf (apps : SortedMap String AppEntry) :
    PermissionsFile.parse sampleYaml (appsCodec.tableText '%' appsTable apps) = .ok ⟨apps⟩ := by
  obtain ⟨y, hy, hp⟩ := PermissionsFile.parse_toYaml sampleYaml ⟨apps⟩
  obtain rfl := Except.ok.inj hy
  exact hp

theorem described_bytesOf {apps : SortedMap String AppEntry}
    (h : PermissionsFile.validate ⟨apps⟩ = .ok ()) :
    described sampleYaml (bytesOf apps) = some ⟨apps⟩ :=
  described_eq_some.mpr ⟨_, readToString_bytesOf apps, parse_bytesOf apps, h⟩

/-- Memory keeps what the reload loaded. -/
theorem restore_skipped :
    ¬ Follows sampleYaml (restore.foldl (act sampleYaml) (start sampleYaml (bytesOf shopApps))) := by
  have hstart : start sampleYaml (bytesOf shopApps) =
      ⟨⟨shopApps⟩, bytesOf shopApps, none, 0, false⟩ := by
    rw [start, initialPerms_of_described (described_bytesOf (by decide +kernel))]
  have hsave : act sampleYaml ⟨⟨shopApps⟩, bytesOf shopApps, none, 0, false⟩
      (.save (fun _ _ => .error "no salt") [⟨"bank", [], [], [], false, none⟩] none false) =
        ⟨⟨bankApps⟩, bytesOf bankApps, bytesOf bankApps, 1, false⟩ := by
    have hedit : editPerms (fun _ _ => .error "no salt") ⟨shopApps⟩
        [⟨"bank", [], [], [], false, none⟩] = .ok ⟨bankApps⟩ := by decide +kernel
    simp only [act, permsSave, hedit]
    rfl
  have hreload : act sampleYaml
      ⟨⟨bankApps⟩, bytesOf shopApps, bytesOf bankApps, 1, true⟩ (.reload "authorized_keys.yml") =
        ⟨⟨shopApps⟩, bytesOf shopApps, bytesOf bankApps, 2, true⟩ := by
    rw [act, permsReload_of_described (described_bytesOf (by decide +kernel))]
  have hfire : act sampleYaml
      ⟨⟨shopApps⟩, bytesOf bankApps, bytesOf bankApps, 2, true⟩ .fire =
        ⟨⟨shopApps⟩, bytesOf bankApps, bytesOf bankApps, 2, false⟩ := by
    rw [act, fire, if_pos rfl, onChange]
    exact if_pos ⟨rfl, rfl⟩
  have hrun : restore.foldl (act sampleYaml) (start sampleYaml (bytesOf shopApps)) =
      ⟨⟨shopApps⟩, bytesOf bankApps, bytesOf bankApps, 2, false⟩ := by
    rw [hstart, restore, List.foldl_cons, hsave, List.foldl_cons, act, List.foldl_cons, hreload,
      List.foldl_cons, act, List.foldl_cons, hfire, List.foldl_nil]
  intro h
  rw [hrun] at h
  exact absurd (h rfl _ (described_bytesOf (by decide +kernel))) (by decide +kernel)

end XavierDB.Perms.Watch
