import XavierDB.Base.FileOps
import XavierDB.Perms.Merge
import XavierDB.Perms.Watch

/-!
# A save on the disk (`src/routes_admin.rs`, `src/perms.rs`)

`persist_perms` writes a file beside the permissions file, of the same name with
the extension `tmp`, and renames it. Any of these operations may fail; a save
that returns an error has then changed nothing, unless the permissions file is
itself the file written.
-/

namespace XavierDB.Perms.Persist

open FileOps

/-! ## Paths -/

/-- Around the last dot of a file name, unless the name starts with it:
`Path::file_stem` and `Path::extension`. -/
def splitExtension (name : String) : String × Option String :=
  match rsplitOnce "." name with
  | none => (name, none)
  | some (stem, ext) => if stem.isEmpty then (name, none) else (stem, some ext)

def fileStem (name : String) : String := (splitExtension name).1

def extension (name : String) : Option String := (splitExtension name).2

def IsFileName (s : String) : Prop := s ≠ "" ∧ s ≠ "." ∧ s ≠ ".." ∧ '/' ∉ s.toList

instance (s : String) : Decidable (IsFileName s) := inferInstanceAs (Decidable (_ ∧ _))

/-- A name is its stem and its extension. -/
theorem splitExtension_cases (name : String) :
    (extension name = none ∧ fileStem name = name) ∨
      ∃ ext, extension name = some ext ∧ name = fileStem name ++ "." ++ ext := by
  unfold extension fileStem splitExtension
  cases hs : rsplitOnce "." name with
  | none => exact .inl ⟨rfl, rfl⟩
  | some p =>
    obtain ⟨stem, ext⟩ := p
    dsimp only
    split
    · exact .inl ⟨rfl, rfl⟩
    · exact .inr ⟨ext, rfl, eq_of_rsplitOnce hs⟩

/-- The name with the extension `tmp`. -/
def tmpName (name : String) : String := fileStem name ++ "." ++ "tmp"

theorem tmpName_eq_self_iff {name : String} :
    tmpName name = name ↔ extension name = some "tmp" := by
  unfold tmpName
  obtain ⟨hext, hstem⟩ | ⟨ext, hext, hname⟩ := splitExtension_cases name
  · rw [hext, hstem]
    refine iff_of_false (fun h => ?_) (by rintro ⟨⟩)
    have hlen := congrArg String.length h
    rw [String.length_append, String.length_append] at hlen
    have hdot : ".".length = 1 := rfl
    omega
  · rw [hext]
    constructor
    · intro h
      have hlist := congrArg String.toList (h.trans hname)
      simp only [String.toList_append, List.append_right_inj] at hlist
      rw [String.toList_injective hlist]
    · intro h
      obtain rfl := Option.some.inj h
      exact hname.symm

theorem isFileName_tmpName {name : String} (h : IsFileName name) : IsFileName (tmpName name) := by
  obtain ⟨-, -, -, hsep⟩ := h
  have hlen : (tmpName name).length = (fileStem name).length + 4 := by
    rw [tmpName, String.length_append, String.length_append]
    rfl
  refine ⟨fun h => ?_, fun h => ?_, fun h => ?_, fun hmem => hsep ?_⟩
  · rw [h] at hlen
    cases hlen
  · rw [h] at hlen
    have hdot : ".".length = 1 := rfl
    omega
  · rw [h] at hlen
    have hdots : "..".length = 2 := rfl
    omega
  · rw [tmpName, String.append_assoc, String.toList_append, List.mem_append] at hmem
    have hstem : '/' ∈ (fileStem name).toList := hmem.resolve_right (by decide)
    obtain ⟨-, hname⟩ | ⟨ext, -, hname⟩ := splitExtension_cases name
    · rwa [hname] at hstem
    · rw [hname, String.append_assoc, String.toList_append]
      exact List.mem_append_left _ hstem

/-- The path of a file: what stands before its name, and the name. -/
structure FilePath where
  before : String
  name : String
  before_wf : before = "" ∨ before.toList.getLast? = some '/'
  name_wf : IsFileName name
  deriving DecidableEq

namespace FilePath

/-- `Path::display`. -/
def display (path : FilePath) : String := path.before ++ path.name

/-- `with_extension("tmp")`. -/
def tmp (path : FilePath) : FilePath :=
  ⟨path.before, tmpName path.name, path.before_wf, isFileName_tmpName path.name_wf⟩

theorem tmp_eq_self_iff {path : FilePath} : path.tmp = path ↔ extension path.name = some "tmp" := by
  rw [← tmpName_eq_self_iff]
  constructor
  · exact congrArg FilePath.name
  · intro h
    cases path with
    | mk before name before_wf name_wf => simpa only [tmp, mk.injEq, true_and] using h

end FilePath

/-! ## `persist_perms` -/

/-- The temporary file. -/
def tempCmds (path : FilePath) (bytes : Bytes) : List (Cmd FilePath) :=
  [⟨.create path.tmp, some ("cannot create " ++ path.tmp.display ++ ": ")⟩,
    ⟨.write path.tmp bytes, some "write failed: "⟩, ⟨.sync path.tmp, some "fsync failed: "⟩]

/-- The mode of the file, set at the end whatever comes of it, is left out. -/
def persistCmds (path : FilePath) (bytes : Bytes) : List (Cmd FilePath) :=
  tempCmds path bytes ++ [⟨.rename path.tmp path, some "rename failed: "⟩]

/-- `persist_perms`; no result when the process stops. -/
def persistPerms (path : FilePath) (os : List Outcome) (d : Dir FilePath) (yaml : String) :
    Dir FilePath × Option (Except String Bytes) :=
  match run (persistCmds path (utf8Bytes yaml)) os d with
  | (d, .through _) => (d, some (.ok (utf8Bytes yaml)))
  | (d, .stopped) => (d, none)
  | (d, .failed e) => (d, some (.error e))

variable {path : FilePath} {os : List Outcome} {d : Dir FilePath} {yaml : String}

/-- What is written to another file does not touch this one before the rename. -/
theorem run_tempCmds {bytes : Bytes} (h : path.tmp ≠ path) :
    (run (tempCmds path bytes) os d).1 path = d path := by
  refine run_of_not_mem fun c hc => ?_
  simp only [tempCmds, List.mem_cons, List.not_mem_nil, or_false] at hc
  rcases hc with rfl | rfl | rfl <;> exact fun hmem => h (List.mem_singleton.mp hmem).symm

/-- A run that does not get to its end has not renamed. -/
theorem run_persistCmds {bytes : Bytes} (h : path.tmp ≠ path) {d' : Dir FilePath} {r : Progress}
    (hrun : run (persistCmds path bytes) os d = (d', r)) (hr : ∀ rest, r ≠ .through rest) :
    d' path = d path := by
  rw [persistCmds, run_append] at hrun
  split at hrun
  case h_1 rest htemp =>
    cases rest with
    | nil =>
      obtain ⟨rfl, -⟩ := Prod.mk.inj hrun
      exact run_tempCmds h
    | cons o rest =>
      cases o with
      | done => exact absurd (Prod.mk.inj hrun).2.symm (hr rest)
      | failed left e =>
        obtain ⟨rfl, -⟩ := Prod.mk.inj hrun
        exact run_tempCmds h
  case h_2 =>
    obtain ⟨rfl, -⟩ := Prod.mk.inj hrun
    exact run_tempCmds h

/-- A run that gets to its end leaves what was to be written. -/
theorem run_persistCmds_through {bytes : Bytes} {d' : Dir FilePath} {rest : List Outcome}
    (hrun : run (persistCmds path bytes) os d = (d', .through rest)) : d' path = some bytes := by
  have hchecked : ∀ c ∈ persistCmds path bytes, c.error ≠ none := by
    simp [persistCmds, tempCmds]
  have hall := run_checked hchecked (congrArg Prod.snd hrun)
  rw [hrun] at hall
  dsimp only at hall
  rw [hall]
  simp [persistCmds, tempCmds, applyAll, Op.apply]

/-- All that `persist_perms` leaves in the permissions file. -/
theorem persistPerms_cases (h : path.tmp ≠ path) (os : List Outcome) (d : Dir FilePath)
    (yaml : String) :
    (∃ d', persistPerms path os d yaml = (d', some (.ok (utf8Bytes yaml))) ∧
      d' path = some (utf8Bytes yaml)) ∨
    (∃ d' e, persistPerms path os d yaml = (d', some (.error e)) ∧ d' path = d path) ∨
    ∃ d', persistPerms path os d yaml = (d', none) ∧ d' path = d path := by
  unfold persistPerms
  obtain ⟨d', r, hrun⟩ : ∃ d' r, run (persistCmds path (utf8Bytes yaml)) os d = (d', r) :=
    ⟨_, _, rfl⟩
  rw [hrun]
  cases r with
  | through rest => exact .inl ⟨d', rfl, run_persistCmds_through hrun⟩
  | stopped => exact .inr (.inr ⟨d', rfl, run_persistCmds h hrun (by rintro rest ⟨⟩)⟩)
  | failed e => exact .inr (.inl ⟨d', e, rfl, run_persistCmds h hrun (by rintro rest ⟨⟩)⟩)

/-! ## `perms_save` -/

/-- What a save reads and writes of the server. -/
structure Server where
  permsPath : FilePath
  perms : PermissionsFile
  disk : Dir FilePath
  lastPermsWritten : Option Bytes
  permsVersion : Nat

/-- `perms_save`; no result when the process stops. -/
def permsSave (Y : Yaml) (salted : Nat → String → Except String String) (os : List Outcome)
    (s : Server) (body : List PermsAppIn) : Server × Option (Except ApiError Unit) :=
  match editPerms salted s.perms body with
  | .error e => (s, some (.error e))
  | .ok perms =>
    match perms.toYaml Y with
    | .error e => (s, some (.error (.internal e)))
    | .ok yaml =>
      match persistPerms s.permsPath os s.disk yaml with
      | (disk, none) => ({ s with disk }, none)
      | (disk, some (.error e)) => ({ s with disk }, some (.error (.internal e)))
      | (disk, some (.ok bytes)) =>
        (⟨s.permsPath, perms, disk, some bytes, s.permsVersion + 1⟩, some (.ok ()))

/-- The permissions file. -/
def Server.file (s : Server) : Option Bytes := s.disk s.permsPath

/-- A save that returns an error has changed nothing, any other is a merge, of
the file as of the memory. -/
def AllOrNothing (Y : Yaml) (salted : Nat → String → Except String String) (os : List Outcome)
    (s : Server) (body : List PermsAppIn) : Prop :=
  match permsSave Y salted os s body with
  | (_, none) => True
  | (s', some (.error _)) =>
    s'.perms = s.perms ∧ s'.file = s.file ∧ s'.permsVersion = s.permsVersion
  | (s', some (.ok _)) =>
    Merged salted body s.perms s'.perms ∧ Watch.described Y s'.file = some s'.perms

/-- The saves of a server are framed. -/
structure Framed (Y : Yaml) (s : Server) : Prop where
  saves : ∀ salted os body, AllOrNothing Y salted os s body
  /-- what `perms_get` returned is a body, and posting it back changes no app -/
  postsBack : ∃ body, readBody (permsGet s.perms s.permsVersion) = some body ∧
    ∀ salted os, (permsSave Y salted os s body).1.perms = s.perms

variable {Y : Yaml} {salted : Nat → String → Except String String} {s : Server}
  {body : List PermsAppIn} {perms : PermissionsFile}

/-- All that a save does. -/
theorem permsSave_cases (h : s.permsPath.tmp ≠ s.permsPath) (Y : Yaml)
    (salted : Nat → String → Except String String) (os : List Outcome) (body : List PermsAppIn) :
    (∃ e, editPerms salted s.perms body = .error e ∧
      permsSave Y salted os s body = (s, some (.error e))) ∨
    ∃ perms yaml disk, editPerms salted s.perms body = .ok perms ∧ perms.toYaml Y = .ok yaml ∧
      PermissionsFile.parse Y yaml = .ok perms ∧
      ((permsSave Y salted os s body = (⟨s.permsPath, perms, disk, some (utf8Bytes yaml),
          s.permsVersion + 1⟩, some (.ok ())) ∧ disk s.permsPath = some (utf8Bytes yaml)) ∨
        disk s.permsPath = s.file ∧
          ((∃ e, permsSave Y salted os s body = ({ s with disk }, some (.error (.internal e)))) ∨
            permsSave Y salted os s body = ({ s with disk }, none))) := by
  unfold permsSave
  cases hedit : editPerms salted s.perms body with
  | error e => exact .inl ⟨e, rfl, rfl⟩
  | ok perms =>
    obtain ⟨yaml, hyaml, hparse⟩ := PermissionsFile.parse_toYaml Y perms
    dsimp only
    rw [hyaml]
    dsimp only
    obtain ⟨disk, hp, hfile⟩ | ⟨disk, e, hp, hfile⟩ | ⟨disk, hp, hfile⟩ :=
      persistPerms_cases h os s.disk yaml
    · rw [hp]
      exact .inr ⟨perms, yaml, disk, rfl, hyaml, hparse, .inl ⟨rfl, hfile⟩⟩
    · rw [hp]
      exact .inr ⟨perms, yaml, disk, rfl, hyaml, hparse, .inr ⟨hfile, .inl ⟨e, rfl⟩⟩⟩
    · rw [hp]
      exact .inr ⟨perms, yaml, disk, rfl, hyaml, hparse, .inr ⟨hfile, .inr rfl⟩⟩

theorem allOrNothing_of_tmp_ne (h : s.permsPath.tmp ≠ s.permsPath) :
    AllOrNothing Y salted os s body := by
  unfold AllOrNothing
  obtain ⟨e, -, hs⟩ | ⟨perms, yaml, disk, hedit, -, hparse, hs⟩ :=
    permsSave_cases h Y salted os body
  · rw [hs]
    exact ⟨rfl, rfl, rfl⟩
  · obtain ⟨hs, hfile⟩ | ⟨hfile, ⟨e, hs⟩ | hs⟩ := hs
    · rw [hs]
      have hmerged := merged_of_editPerms hedit
      refine ⟨hmerged, Watch.described_eq_some.mpr ⟨yaml, ?_, hparse, hmerged.valid⟩⟩
      show Watch.readToString (disk s.permsPath) = .ok yaml
      rw [hfile, Watch.readToString, fromUtf8_utf8Bytes]
    · rw [hs]
      exact ⟨rfl, hfile, rfl⟩
    · rw [hs]
      trivial

theorem utf8Bytes_toYaml_ne_nil (h : perms.toYaml Y = .ok yaml) : utf8Bytes yaml ≠ [] := by
  obtain ⟨y, hy, -, hblank⟩ := Y.fromStr_toStr perms.apps
  rw [PermissionsFile.toYaml, hy] at h
  obtain rfl := Except.ok.inj h
  intro hnil
  have hempty : some y = some "" := by
    rw [← fromUtf8_utf8Bytes, hnil, ← fromUtf8_utf8Bytes]
    rfl
  rw [Option.some.inj hempty] at hblank
  cases hblank

/-- The file written is the permissions file: either to empty it or to fill it
is a change, and what comes next may fail. -/
theorem exists_torn_of_tmp_eq (h : s.permsPath.tmp = s.permsPath)
    (hedit : editPerms salted s.perms body = .ok perms) :
    ∃ os, ¬ AllOrNothing Y salted os s body := by
  obtain ⟨yaml, hyaml, -⟩ := PermissionsFile.parse_toYaml Y perms
  have hbytes := utf8Bytes_toYaml_ne_nil hyaml
  by_cases hfile : s.file = some []
  · refine ⟨[.done, .done, .failed (some (utf8Bytes yaml)) "Input/output error (os error 5)"],
      fun hall => ?_⟩
    simp only [AllOrNothing, permsSave, hedit, hyaml, persistPerms, persistCmds, tempCmds,
      List.cons_append, run, Op.torn, h, Server.file, Function.update_self] at hall
    exact hbytes (Option.some.inj (hall.2.1.trans hfile))
  · refine ⟨[.done, .failed (some []) "No space left on device (os error 28)"], fun hall => ?_⟩
    simp only [AllOrNothing, permsSave, hedit, hyaml, persistPerms, persistCmds, tempCmds,
      List.cons_append, run, Op.torn, h, Server.file, Function.update_self] at hall
    exact hfile hall.2.1.symm

theorem perms_permsSave (hedit : editPerms salted s.perms body = .ok s.perms) (os : List Outcome) :
    (permsSave Y salted os s body).1.perms = s.perms := by
  obtain ⟨yaml, hyaml, -⟩ := PermissionsFile.parse_toYaml Y s.perms
  unfold permsSave
  rw [hedit]
  dsimp only
  rw [hyaml]
  dsimp only
  split
  · rfl
  · rfl
  · rfl

/-- The saves of a server with validated permissions are framed exactly if the
permissions file does not have the extension of the temporary one. -/
theorem framed_iff (Y : Yaml) {s : Server} (hvalid : s.perms.validate = .ok ()) :
    Framed Y s ↔ extension s.permsPath.name ≠ some "tmp" := by
  rw [Ne, ← FilePath.tmp_eq_self_iff]
  constructor
  · intro hframed h
    have hedit : editPerms (fun _ => .error) s.perms [] = .ok s.perms :=
      editPerms_eq_ok_iff.mpr ⟨rfl, hvalid⟩
    obtain ⟨os, hos⟩ := exists_torn_of_tmp_eq h hedit
    exact hos (hframed.saves _ os _)
  · intro h
    exact ⟨fun salted os body => allOrNothing_of_tmp_ne h, bodyOf s.perms, readBody_permsGet _ _,
      fun salted os => perms_permsSave (editPerms_bodyOf salted hvalid) os⟩

def keysPath : FilePath := ⟨"", "authorized_keys.yml", .inl rfl, by decide⟩

def tmpKeysPath : FilePath := ⟨"", "authorized_keys.tmp", .inl rfl, by decide⟩

/-- The app `shop` in memory and in the file. -/
def serverAt (path : FilePath) : Server :=
  ⟨path, ⟨shopApps⟩, Function.update (fun _ => none) path (Watch.bytesOf shopApps), none, 0⟩

theorem framed_iff_keysPath : Framed sampleYaml (serverAt keysPath) :=
  (framed_iff sampleYaml (by decide +kernel)).mpr (by decide +kernel)

/-- The disk is full once the permissions file is emptied. -/
theorem permsSave_tmpKeysPath :
    (serverAt tmpKeysPath).perms.validate = .ok () ∧
      ¬ AllOrNothing sampleYaml (fun _ => .error)
        [.done, .failed (some []) "No space left on device (os error 28)"]
        (serverAt tmpKeysPath) [⟨"bank", [], [], [], false, none⟩] := by
  have hedit : editPerms (fun _ => .error) ⟨shopApps⟩ [⟨"bank", [], [], [], false, none⟩] =
      .ok ⟨bankApps⟩ := by decide +kernel
  have htmp : tmpKeysPath.tmp = tmpKeysPath := by decide +kernel
  have hyaml : PermissionsFile.toYaml sampleYaml ⟨bankApps⟩ =
      .ok (appsCodec.tableText '%' appsTable bankApps) := rfl
  refine ⟨by decide +kernel, fun hall => ?_⟩
  simp only [AllOrNothing, permsSave, serverAt, hedit, hyaml, persistPerms, persistCmds, tempCmds,
    List.cons_append, run, Op.torn, htmp, Server.file, Function.update_self] at hall
  exact absurd (Option.some.inj hall.2.1) (by decide +kernel)

/-! ## The one step of the watcher's model -/

def Server.watched (s : Server) (pending : Bool) : Watch.State :=
  ⟨s.perms, s.file, s.lastPermsWritten, s.permsVersion, pending⟩

/-- A save that returns is the save of `Watch`, with some outcome of the write. -/
theorem permsSave_watched (h : s.permsPath.tmp ≠ s.permsPath)
    {s' : Server} {r : Except ApiError Unit} (hsave : permsSave Y salted os s body = (s', some r))
    (pending : Bool) :
    ∃ writeErr,
      Watch.permsSave Y salted body writeErr false (s.watched pending) = (s'.watched pending, r) := by
  unfold Watch.permsSave Server.watched
  obtain ⟨e, hedit, hs⟩ | ⟨perms, yaml, disk, hedit, hyaml, -, hs⟩ :=
    permsSave_cases h Y salted os body
  · obtain ⟨rfl, hr⟩ := Prod.mk.inj (hs.symm.trans hsave)
    obtain rfl := Option.some.inj hr
    exact ⟨none, by rw [hedit]⟩
  · obtain ⟨hs, hfile⟩ | ⟨hfile, ⟨e, hs⟩ | hs⟩ := hs
    · obtain ⟨rfl, hr⟩ := Prod.mk.inj (hs.symm.trans hsave)
      obtain rfl := Option.some.inj hr
      refine ⟨none, ?_⟩
      simp only [hedit, hyaml, Watch.State.wrote, Server.file, hfile, Bool.or_false]
    · obtain ⟨rfl, hr⟩ := Prod.mk.inj (hs.symm.trans hsave)
      obtain rfl := Option.some.inj hr
      refine ⟨some e, ?_⟩
      simp only [hedit, hyaml, Server.file, hfile]
    · cases hs.symm.trans hsave

end XavierDB.Perms.Persist
