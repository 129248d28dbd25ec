import XavierDB.Base.Bincode
import XavierDB.Config.File

/-!
# The configuration file and its backups (`src/config.rs`)

The frame around the encoded configuration, the chain of backups and the load
that falls back along it.
-/

namespace XavierDB.Config

def configMagic : Bytes := [88, 68, 66, 49]

def maxBackups : Nat := 5

variable (B : Bincode) (crc : Bytes → UInt32)

/-! ## The frame -/

def serializeWithChecksum (c : ConfigFile) : Except String Bytes :=
  match encode B c with
  | .error e => .error e
  | .ok payload =>
    .ok (configMagic ++ leBytes 4 (crc payload).toNat ++ leBytes 4 (payload.length % 2 ^ 32) ++
      payload)

/-- The payload behind a header that gives its length. -/
def payloadOf (bytes : Bytes) : Bytes :=
  (bytes.drop 12).take (ofLeBytes ((bytes.drop 8).take 4))

def deserializeWithChecksum (bytes : Bytes) : Except String ConfigFile :=
  if bytes.length < 12 ∨ bytes.take 4 ≠ configMagic then
    .error "not a XavierDB config file (bad magic)"
  else if bytes.length < 12 + ofLeBytes ((bytes.drop 8).take 4) then
    .error "config file truncated"
  else if (crc (payloadOf bytes)).toNat ≠ ofLeBytes ((bytes.drop 4).take 4) then
    .error "config checksum mismatch (corrupted file)"
  else
    match decode B (payloadOf bytes) with
    | .error e => .error e
    | .ok cfg =>
      if cfg.version ≠ configVersion then
        .error ("unsupported config version " ++ toString cfg.version ++ " (app supports " ++
          toString configVersion ++ ")")
      else .ok cfg

/-- The length of the encoding fits the header. -/
def Fits (c : ConfigFile) : Prop := ∀ payload, encode B c = .ok payload → payload.length < 2 ^ 32

variable {B crc}

theorem serializeWithChecksum_ok (c : ConfigFile) :
    ∃ bytes, serializeWithChecksum B crc c = .ok bytes := by
  obtain ⟨payload, h, -⟩ := decode_encode B c
  unfold serializeWithChecksum
  rw [h]
  exact ⟨_, rfl⟩

theorem frame_parts {a b c d : Bytes} (ha : a.length = 4) (hb : b.length = 4)
    (hc : c.length = 4) :
    (a ++ b ++ c ++ d).length = 12 + d.length ∧ (a ++ b ++ c ++ d).take 4 = a ∧
      ((a ++ b ++ c ++ d).drop 4).take 4 = b ∧ ((a ++ b ++ c ++ d).drop 8).take 4 = c ∧
      (a ++ b ++ c ++ d).drop 12 = d := by
  refine ⟨?_, ?_, ?_, ?_, ?_⟩
  · simp only [List.length_append]
    omega
  · rw [List.append_assoc, List.append_assoc, List.take_left' ha]
  · rw [List.append_assoc, List.append_assoc, List.drop_left' ha, List.take_left' hb]
  · have hab : (a ++ b).length = 8 := by rw [List.length_append, ha, hb]
    rw [List.append_assoc, List.drop_left' hab, List.take_left' hc]
  · have habc : (a ++ b ++ c).length = 12 := by
      rw [List.length_append, List.length_append, ha, hb, hc]
    rw [List.drop_left' habc]

/-- A frame reads back as its configuration, if the version is the current one. -/
theorem deserialize_frame {c : ConfigFile} {bytes : Bytes}
    (h : serializeWithChecksum B crc c = .ok bytes) (hfits : Fits B c) :
    deserializeWithChecksum B crc bytes =
      if c.version ≠ configVersion then
        .error ("unsupported config version " ++ toString c.version ++ " (app supports " ++
          toString configVersion ++ ")")
      else .ok c := by
  obtain ⟨payload, henc, hdec⟩ := decode_encode B c
  have hlen := hfits payload henc
  unfold serializeWithChecksum at h
  rw [henc] at h
  obtain rfl := Except.ok.inj h
  obtain ⟨hlength, hmagic, hcrc, hsize, hpayload⟩ := frame_parts (d := payload)
    (rfl : configMagic.length = 4) (length_leBytes 4 (crc payload).toNat)
    (length_leBytes 4 (payload.length % 2 ^ 32))
  have hof : ofLeBytes (leBytes 4 (payload.length % 2 ^ 32)) = payload.length := by
    rw [Nat.mod_eq_of_lt hlen]
    exact ofLeBytes_leBytes hlen
  have hofCrc : ofLeBytes (leBytes 4 (crc payload).toNat) = (crc payload).toNat :=
    ofLeBytes_leBytes (crc payload).toNat_lt
  rw [← hsize] at hof
  have hbody : payloadOf (configMagic ++ leBytes 4 (crc payload).toNat ++
      leBytes 4 (payload.length % 2 ^ 32) ++ payload) = payload := by
    rw [payloadOf, hof, hpayload, List.take_length]
  unfold deserializeWithChecksum
  rw [hbody, hof, hcrc, hofCrc, hlength, hmagic, hdec,
    if_neg (by simp : ¬(12 + payload.length < 12 ∨ configMagic ≠ configMagic)),
    if_neg (Nat.lt_irrefl _), if_neg (fun h => h rfl)]

/-- What is written reads back. -/
theorem deserialize_serialize {c : ConfigFile} {bytes : Bytes}
    (h : serializeWithChecksum B crc c = .ok bytes) (hv : c.version = configVersion)
    (hfits : Fits B c) : deserializeWithChecksum B crc bytes = .ok c :=
  (deserialize_frame h hfits).trans (if_neg fun hne => hne hv)

/-! ## Files -/

/-- The file and its backups, newest first. -/
structure Files where
  current : Option Bytes
  backups : List (Option Bytes)

def rotateBackups (f : Files) : Files :=
  { f with backups := (f.current :: f.backups).take maxBackups }

variable (B crc)

/-- `save_to_disk`; `writeErr` is the outcome of the writing. -/
def saveToDisk (writeErr : Option String) (f : Files) (c : ConfigFile) :
    Files × Except String Bytes :=
  match serializeWithChecksum B crc c, writeErr with
  | .error e, _ => (f, .error e)
  | .ok _, some e => (rotateBackups f, .error e)
  | .ok bytes, none => ({ rotateBackups f with current := some bytes }, .ok bytes)

/-- A candidate that can be read. -/
def readCandidate (bytes : Option Bytes) : Option ConfigFile :=
  bytes.bind fun b => (deserializeWithChecksum B crc b).toOption

/-- `load_from_disk`: the configuration and a warning. -/
def loadFromDisk (now : Int64) (writeErr : Option String) (f : Files) :
    ConfigFile × Option String :=
  match (f.current :: f.backups).findSome? (readCandidate B crc) with
  | some cfg => (sanitize cfg, none)
  | none =>
    match (saveToDisk B crc writeErr f (.default now)).2 with
    | .error e => (.default now, some ("could not write default config: " ++ e))
    | .ok _ => (.default now, none)

variable {B crc}

theorem saveToDisk_none {c : ConfigFile} {bytes : Bytes}
    (h : serializeWithChecksum B crc c = .ok bytes) (f : Files) :
    saveToDisk B crc none f c = ({ rotateBackups f with current := some bytes }, .ok bytes) := by
  simp only [saveToDisk, h]

/-- A saved configuration is the one loaded next. -/
theorem loadFromDisk_saveToDisk {c : ConfigFile} (hv : c.version = configVersion)
    (hfits : Fits B c) (f : Files) (now : Int64) (writeErr : Option String) :
    loadFromDisk B crc now writeErr (saveToDisk B crc none f c).1 = (sanitize c, none) := by
  obtain ⟨bytes, h⟩ := @serializeWithChecksum_ok B crc c
  have hread : readCandidate B crc (some bytes) = some c := by
    rw [readCandidate, Option.bind_some, deserialize_serialize h hv hfits]
    rfl
  simp only [saveToDisk, h, loadFromDisk, List.findSome?_cons, hread]

end XavierDB.Config
