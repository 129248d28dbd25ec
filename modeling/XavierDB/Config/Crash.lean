import XavierDB.Base.FileOps
import XavierDB.Config.Codec

/-!
# Saving the configuration, operation by operation (`src/config.rs`)

The removes, renames, copy and writes of a save on the directory, any of which
may fail or be the last. Only the final rename changes `config`, and a complete
save is the one of `Disk`.
-/

namespace XavierDB.Config

open FileOps

/-- `config`, `config.tmp`, and `config.bak`, `config.bak.2`, ... -/
inductive FileName where
  | config
  | tmp
  | bak (i : Nat)
  deriving DecidableEq

open FileName

/-! ## The operations of a save -/

/-- The shift of the backups before `config.bak.(n+2)`, the oldest first. -/
def shiftOps (n : Nat) : List (Op FileName) :=
  (List.range' 2 n).reverse.map fun i => .rename (bak i) (bak (i + 1))

/-- The operations of `rotate_backups`. -/
def rotateOps : List (Op FileName) :=
  .remove (bak maxBackups) :: shiftOps (maxBackups - 2) ++
    [.rename (bak 1) (bak 2), .copy config (bak 1)]

/-- The temporary file, at the path `tmpPath`. -/
def tempCmds (tmpPath : String) (bytes : Bytes) : List (Cmd FileName) :=
  [⟨.create tmp, some ("cannot create " ++ tmpPath ++ ": ")⟩,
    ⟨.write tmp bytes, some "write failed: "⟩, ⟨.sync tmp, some "fsync failed: "⟩]

def saveCmds (tmpPath : String) (bytes : Bytes) : List (Cmd FileName) :=
  (rotateOps.map (⟨·, none⟩) ++ tempCmds tmpPath bytes) ++
    [⟨.rename tmp config, some "rename failed: "⟩]

variable (B : Bincode) (crc : Bytes → UInt32)

/-- `save_to_disk`; no result when the process stops. -/
def saveOnDisk (tmpPath : String) (os : List Outcome) (d : Dir FileName) (c : ConfigFile) :
    Dir FileName × Option (Except String Bytes) :=
  match serializeWithChecksum B crc c with
  | .error e => (d, some (.error e))
  | .ok bytes =>
    match run (saveCmds tmpPath bytes) os d with
    | (d, .through _) => (d, some (.ok bytes))
    | (d, .stopped) => (d, none)
    | (d, .failed e) => (d, some (.error e))

/-- The files that `load_from_disk` tries, in the order of `backup_paths`. -/
def files (d : Dir FileName) : Files :=
  ⟨d config, (List.range' 1 maxBackups).map fun i => d (bak i)⟩

/-! ## The backups shift -/

/-- Each of the backups from 2 to `n+1` moves up by one, over `config.bak.(n+2)`. -/
def shifted (n : Nat) (d : Dir FileName) : Dir FileName
  | bak i => if i = 2 then none else if 2 < i ∧ i ≤ n + 2 then d (bak (i - 1)) else d (bak i)
  | f => d f

theorem shiftOps_succ (n : Nat) :
    shiftOps (n + 1) = .rename (bak (n + 2)) (bak (n + 3)) :: shiftOps n := by
  rw [shiftOps, List.range'_1_concat, List.reverse_append, List.map_append, Nat.add_comm 2 n]
  rfl

theorem applyAll_shiftOps {n : Nat} {d : Dir FileName} (h : d (bak (n + 2)) = none) :
    applyAll (shiftOps n) d = shifted n d := by
  induction n generalizing d with
  | zero =>
    funext f
    cases f with
    | bak i =>
      by_cases hi : i = 2
      · simp [hi, applyAll, shiftOps, shifted, h]
      · have : ¬ (2 < i ∧ i ≤ 2) := by omega
        simp [hi, this, applyAll, shiftOps, shifted]
    | _ => rfl
  | succ n ih =>
    rw [shiftOps_succ, applyAll, List.foldl_cons, apply_rename_of_none h, ← applyAll,
      ih (by simp)]
    funext f
    cases f with
    | bak i =>
      simp only [shifted, Function.update_apply, bak.injEq]
      grind
    | _ => simp [shifted]

/-- A complete rotation. -/
def rotated (d : Dir FileName) : Dir FileName
  | bak i => if i = 1 then d config else if 1 < i ∧ i ≤ maxBackups then d (bak (i - 1))
    else d (bak i)
  | f => d f

theorem applyAll_rotateOps (d : Dir FileName) : applyAll rotateOps d = rotated d := by
  have hvacant : (Op.remove (bak maxBackups)).apply d (bak (maxBackups - 2 + 2)) = none := by
    simp [Op.apply, maxBackups]
  have hshift : applyAll (.remove (bak maxBackups) :: shiftOps (maxBackups - 2)) d =
      shifted (maxBackups - 2) (Function.update d (bak maxBackups) none) :=
    applyAll_shiftOps hvacant
  rw [rotateOps, applyAll_append, hshift, applyAll, List.foldl_cons, List.foldl_cons,
    List.foldl_nil, apply_rename_of_none (by simp [shifted]), apply_copy_of_none (by simp)]
  funext f
  cases f with
  | bak i =>
    simp only [shifted, rotated, maxBackups, Function.update_apply, bak.injEq]
    grind
  | _ => simp [shifted, rotated]

theorem files_rotated (d : Dir FileName) : files (rotated d) = rotateBackups (files d) := by
  have hbak : ∀ i, 1 < i → i ≤ 5 → rotated d (bak i) = d (bak (i - 1)) := by
    intro i h1 h2
    rw [rotated, if_neg (by omega), if_pos ⟨h1, h2⟩]
  simp [files, rotateBackups, maxBackups, List.range', hbak]
  exact ⟨rfl, rfl⟩

/-! ## The last operations -/

variable {B crc} {tmpPath : String} {bytes : Bytes} {os rest : List Outcome} {d : Dir FileName}

/-- Once the temporary file is synced it holds the bytes. -/
theorem tmp_of_tempCmds (h : (run (tempCmds tmpPath bytes) os d).2 = .through rest) :
    (run (tempCmds tmpPath bytes) os d).1 tmp = some bytes := by
  rw [run_checked (by simp [tempCmds]) h]
  simp [tempCmds, applyAll, Op.apply]

theorem config_not_mem_targets : ∀ c ∈ rotateOps.map (⟨·, none⟩) ++ tempCmds tmpPath bytes,
    config ∉ c.op.targets := by
  have hrotate : ∀ op ∈ rotateOps, config ∉ op.targets := by decide
  rw [List.forall_mem_append]
  constructor
  · intro c hc
    obtain ⟨op, hop, rfl⟩ := List.mem_map.mp hc
    exact hrotate op hop
  · simp [tempCmds, Op.targets]

/-- Only the rename at the end changes `config`, and it puts the bytes there. -/
theorem config_of_saveCmds :
    ((run (saveCmds tmpPath bytes) os d).1 config = d config ∧
        ∀ rest, (run (saveCmds tmpPath bytes) os d).2 ≠ .through rest) ∨
      (run (saveCmds tmpPath bytes) os d).1 config = some bytes := by
  have hframe := @run_of_not_mem _ _ _ os d _ (@config_not_mem_targets tmpPath bytes)
  rw [saveCmds, run_append]
  cases hp : (run (rotateOps.map (⟨·, none⟩) ++ tempCmds tmpPath bytes) os d).2 with
  | stopped => exact .inl ⟨hframe, by rintro _ ⟨⟩⟩
  | failed e => exact .inl ⟨hframe, by rintro _ ⟨⟩⟩
  | through rest =>
    have htmp : (run (rotateOps.map (⟨·, none⟩) ++ tempCmds tmpPath bytes) os d).1 tmp =
        some bytes := by
      rw [run_append] at hp ⊢
      cases hr : (run (rotateOps.map (⟨·, none⟩)) os d).2 with
      | stopped => simp [hr] at hp
      | failed e => simp [hr] at hp
      | through rest' =>
        simp only [hr] at hp ⊢
        exact tmp_of_tempCmds hp
    generalize (run (rotateOps.map (⟨·, none⟩) ++ tempCmds tmpPath bytes) os d).1 = d' at hframe htmp
    dsimp only
    cases rest with
    | nil => exact .inl ⟨hframe, by rintro _ ⟨⟩⟩
    | cons o rest =>
      cases o with
      | failed left e => exact .inl ⟨hframe, by rintro _ ⟨⟩⟩
      | done =>
        refine .inr ?_
        rw [run, run, Op.apply, htmp, Option.isSome_some, if_pos rfl]
        exact Function.update_self config (some bytes) (Function.update d' tmp none)

/-! ## Loading after a save -/

theorem loadFromDisk_of_current {f : Files} {b : Bytes} {c : ConfigFile} (hf : f.current = some b)
    (hc : deserializeWithChecksum B crc b = .ok c) (now : Int64) (writeErr : Option String) :
    loadFromDisk B crc now writeErr f = (sanitize c, none) := by
  have hread : readCandidate B crc f.current = some c := by
    rw [readCandidate, hf, Option.bind_some, hc]
    rfl
  simp only [loadFromDisk, List.findSome?_cons, hread]

/-- What is in `config` after a save, however far it came. -/
theorem config_saveOnDisk {c : ConfigFile} (h : serializeWithChecksum B crc c = .ok bytes) :
    ((saveOnDisk B crc tmpPath os d c).1 config = d config ∧
        ∀ b, (saveOnDisk B crc tmpPath os d c).2 ≠ some (.ok b)) ∨
      (saveOnDisk B crc tmpPath os d c).1 config = some bytes := by
  have hcmds := @config_of_saveCmds tmpPath bytes os d
  rw [saveOnDisk, h]
  dsimp only
  generalize run (saveCmds tmpPath bytes) os d = r at hcmds
  obtain ⟨d', pr⟩ := r
  cases pr with
  | through rest => exact .inr (hcmds.resolve_left fun hno => hno.2 rest rfl)
  | stopped => exact hcmds.imp_left fun hno => ⟨hno.1, by rintro _ ⟨⟩⟩
  | failed e => exact hcmds.imp_left fun hno => ⟨hno.1, by rintro _ ⟨⟩⟩

/-! ## Complete saves -/

/-- Every operation is done. -/
def allDone : List Outcome := List.replicate (rotateOps.length + 4) .done

theorem length_saveCmds : (saveCmds tmpPath bytes).length = rotateOps.length + 4 := by
  simp [saveCmds, tempCmds]

theorem map_op_saveCmds : (saveCmds tmpPath bytes).map Cmd.op =
    rotateOps ++ [.create tmp, .write tmp bytes, .sync tmp, .rename tmp config] := by
  simp [saveCmds, tempCmds, Function.comp_def]

/-- A complete save on the directory is the save on the file and its backups. -/
theorem files_saveOnDisk (tmpPath : String) (d : Dir FileName) (c : ConfigFile) :
    files (saveOnDisk B crc tmpPath allDone d c).1 = (saveToDisk B crc none (files d) c).1 ∧
      (saveOnDisk B crc tmpPath allDone d c).2 = some (saveToDisk B crc none (files d) c).2 := by
  obtain ⟨bytes, h⟩ := @serializeWithChecksum_ok B crc c
  have hrun : run (saveCmds tmpPath bytes) allDone d =
      (applyAll [.create tmp, .write tmp bytes, .sync tmp, .rename tmp config] (rotated d),
        .through []) := by
    rw [allDone, ← length_saveCmds, run_done, map_op_saveCmds, applyAll_append, applyAll_rotateOps]
  have hfiles : files (applyAll [.create tmp, .write tmp bytes, .sync tmp, .rename tmp config]
      (rotated d)) = { files (rotated d) with current := some bytes } := by
    simp [applyAll, Op.apply, files]
  rw [saveToDisk_none h, saveOnDisk, h]
  dsimp only
  rw [hrun, ← files_rotated]
  exact ⟨hfiles, rfl⟩

/-- `config` and its backups, newest first. -/
def chain (d : Dir FileName) : List (Option Bytes) :=
  d config :: (List.range' 1 maxBackups).map fun i => d (bak i)

variable (B crc) in
/-- The file a configuration is saved as. -/
def contents (c : ConfigFile) : Option Bytes := (serializeWithChecksum B crc c).toOption

theorem chain_saveOnDisk (tmpPath : String) (d : Dir FileName) (c : ConfigFile) :
    chain (saveOnDisk B crc tmpPath allDone d c).1 =
      (contents B crc c :: chain d).take (maxBackups + 1) := by
  obtain ⟨bytes, h⟩ := @serializeWithChecksum_ok B crc c
  have hf := (@files_saveOnDisk B crc tmpPath d c).1
  rw [saveToDisk_none h] at hf
  obtain ⟨hcur, hbak⟩ := Files.mk.inj hf
  rw [chain, contents, h, hcur, hbak, List.take_succ_cons]
  rfl

theorem chain_saves (tmpPath : String) (cs : List ConfigFile) (d : Dir FileName) :
    chain (cs.foldl (fun d c => (saveOnDisk B crc tmpPath allDone d c).1) d) =
      ((cs.map (contents B crc)).reverse ++ chain d).take (maxBackups + 1) := by
  induction cs generalizing d with
  | nil =>
    rw [List.foldl_nil, List.map_nil, List.reverse_nil, List.nil_append, List.take_of_length_le]
    exact Nat.le_refl _
  | cons c cs ih =>
    rw [List.foldl_cons, ih, chain_saveOnDisk, List.map_cons, List.reverse_cons, List.append_assoc,
      List.singleton_append, List.take_append, List.take_take, Nat.min_eq_left (Nat.sub_le _ _),
      ← List.take_append]

/-- A configuration of another version is saved and then refused: the backup is
loaded. -/
theorem loadFromDisk_of_version_ne {old : Bytes} {c c' : ConfigFile} (hold : d config = some old)
    (hc : deserializeWithChecksum B crc old = .ok c) (hv : c'.version ≠ configVersion)
    (hfits : Fits B c') (now : Int64) (writeErr : Option String) :
    loadFromDisk B crc now writeErr (files (saveOnDisk B crc tmpPath allDone d c').1) =
      (sanitize c, none) := by
  obtain ⟨bytes, h⟩ := @serializeWithChecksum_ok B crc c'
  have hnew : readCandidate B crc (some bytes) = none := by
    rw [readCandidate, Option.bind_some, deserialize_frame h hfits, if_pos hv]
    rfl
  have hbak : readCandidate B crc (d config) = some c := by
    rw [readCandidate, hold, Option.bind_some, hc]
    rfl
  rw [(files_saveOnDisk tmpPath d c').1, saveToDisk_none h, loadFromDisk]
  simp only [rotateBackups, files, maxBackups, List.take_succ_cons, List.findSome?_cons, hnew, hbak]

/-! ## Crashes and backups -/

/-- Over a directory whose `config` holds a configuration, a save of another one
of the current version leaves a directory that loads one of the two, wherever it
stops and whatever fails, and the new one once it has returned `Ok`. Complete
saves keep the previous files in order. -/
theorem saveOnDisk_crash_atomic (B : Bincode) (crc : Bytes → UInt32) (tmpPath : String) :
    (∀ (d : Dir FileName) (old : Bytes) (c c' : ConfigFile) (os : List Outcome) (now : Int64)
        (writeErr : Option String),
      d config = some old → deserializeWithChecksum B crc old = .ok c →
      c'.version = configVersion → Fits B c' →
        (loadFromDisk B crc now writeErr (files (saveOnDisk B crc tmpPath os d c').1) =
            (sanitize c, none) ∨
          loadFromDisk B crc now writeErr (files (saveOnDisk B crc tmpPath os d c').1) =
            (sanitize c', none)) ∧
        ∀ bytes, (saveOnDisk B crc tmpPath os d c').2 = some (.ok bytes) →
          loadFromDisk B crc now writeErr (files (saveOnDisk B crc tmpPath os d c').1) =
            (sanitize c', none)) ∧
    (∀ (d : Dir FileName) (c : ConfigFile), ∃ bytes, contents B crc c = some bytes ∧
      (saveOnDisk B crc tmpPath allDone d c).2 = some (.ok bytes)) ∧
    ∀ (d : Dir FileName) (cs : List ConfigFile),
      chain (cs.foldl (fun d c => (saveOnDisk B crc tmpPath allDone d c).1) d) =
        ((cs.map (contents B crc)).reverse ++ chain d).take (maxBackups + 1) := by
  refine ⟨fun d old c c' os now writeErr hold hc hv hfits => ?_, fun d c => ?_,
    fun d cs => chain_saves tmpPath cs d⟩
  · obtain ⟨bytes, h⟩ := @serializeWithChecksum_ok B crc c'
    have hnew := deserialize_serialize h hv hfits
    rcases @config_saveOnDisk B crc tmpPath bytes os d c' h with ⟨hcur, hno⟩ | hcur
    · refine ⟨.inl (loadFromDisk_of_current (hcur.trans hold) hc now writeErr), fun b hb => ?_⟩
      exact absurd hb (hno b)
    · have hload := loadFromDisk_of_current (f := files _) hcur hnew now writeErr
      exact ⟨.inr hload, fun _ _ => hload⟩
  · obtain ⟨bytes, h⟩ := @serializeWithChecksum_ok B crc c
    refine ⟨bytes, by rw [contents, h]; rfl, ?_⟩
    rw [(files_saveOnDisk tmpPath d c).2, saveToDisk_none h]

/-- A directory with the default configuration alone. -/
def defaultDir : Dir FileName :=
  Function.update (fun _ => none) config (contents standardBincode crc32 (.default 0))

def otherVersion : ConfigFile := { ConfigFile.default 0 with version := 2 }

def outOfRange : ConfigFile := { ConfigFile.default 0 with health := ⟨0⟩ }

theorem fits_of_length {c : ConfigFile} (h : (configCodec.encode c).length < 2 ^ 32) :
    Fits standardBincode c := by
  intro payload hp
  obtain rfl := Except.ok.inj hp
  exact h

/-- A save of another version returns `Ok`, and the old configuration is loaded;
of one out of range, what is loaded is in range. -/
theorem saveOnDisk_not_loaded :
    (∃ bytes, (saveOnDisk standardBincode crc32 "config.tmp" allDone defaultDir otherVersion).2 =
        some (.ok bytes)) ∧
    loadFromDisk standardBincode crc32 0 none
        (files (saveOnDisk standardBincode crc32 "config.tmp" allDone defaultDir otherVersion).1) =
      (sanitize (.default 0), none) ∧
    sanitize (.default 0) ≠ otherVersion ∧
    loadFromDisk standardBincode crc32 0 none
        (files (saveOnDisk standardBincode crc32 "config.tmp" allDone defaultDir outOfRange).1) =
      (sanitize outOfRange, none) ∧
    sanitize outOfRange ≠ outOfRange := by
  obtain ⟨old, hold⟩ := @serializeWithChecksum_ok standardBincode crc32 (.default 0)
  have hdir : defaultDir config = some old := by
    rw [defaultDir, Function.update_self, contents, hold]
    rfl
  have hread := deserialize_serialize hold rfl (fits_of_length (by decide +kernel))
  obtain ⟨bytes, hnew⟩ := @serializeWithChecksum_ok standardBincode crc32 outOfRange
  have hcur : (files (saveOnDisk standardBincode crc32 "config.tmp" allDone defaultDir
      outOfRange).1).current = some bytes := by
    rw [(files_saveOnDisk _ _ _).1, saveToDisk_none hnew]
  refine ⟨?_, loadFromDisk_of_version_ne hdir hread (by decide) (fits_of_length (by decide +kernel))
    0 none, by decide +kernel, loadFromDisk_of_current hcur
      (deserialize_serialize hnew rfl (fits_of_length (by decide +kernel))) 0 none,
    by decide +kernel⟩
  obtain ⟨other, hother⟩ := @serializeWithChecksum_ok standardBincode crc32 otherVersion
  exact ⟨other, by rw [(files_saveOnDisk _ _ _).2, saveToDisk_none hother]⟩

end XavierDB.Config
