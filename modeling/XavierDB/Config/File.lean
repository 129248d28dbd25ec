import XavierDB.Base.Binary64
import XavierDB.Base.SortedMap
import XavierDB.Base.Utf8

/-!
# The configuration (`src/config.rs`)

The configuration with its undo history and redo stack. An entry's snapshot is
the configuration without either, in bincode. Where an operation reads the
clock, the readings are an argument.
-/

namespace XavierDB.Config

def configVersion : UInt32 := 1

def historyCapacity : Nat := 10000

structure GlobalCfg where
  jwtTokenLifetimeMinutes : UInt64
  permissionFile : String
  deriving DecidableEq

structure RateLimitCfg where
  minLimit : UInt32
  maxLimit : UInt32
  multiplier : Binary64
  targetLatencyMs : Binary64
  pressureSensitivity : Binary64
  latencySensitivity : Binary64
  growthRate : Binary64
  tickSeconds : UInt64
  emaAlpha : Binary64
  weights : SortedMap String Binary64
  deriving DecidableEq

structure HealthCfg where
  cacheTtlSeconds : UInt64
  deriving DecidableEq

structure DashboardCfg where
  logLevel : String
  deriving DecidableEq

structure AuthCfg where
  maxPerMinutePerIp : UInt32
  sessionTtlHours : UInt64
  deriving DecidableEq

structure HistoryEntry where
  ts : Int64
  desc : String
  path : String
  snapshot : Bytes
  «by» : String
  deriving DecidableEq

structure ConfigFile where
  version : UInt32
  createdAt : Int64
  lastModified : Int64
  global : GlobalCfg
  rateLimit : RateLimitCfg
  health : HealthCfg
  dashboard : DashboardCfg
  auth : AuthCfg
  blocked : List String
  /-- oldest first, each with the state before its change -/
  history : List HistoryEntry
  /-- the last undone change last, each with the state after it -/
  redo : List HistoryEntry
  deriving DecidableEq

def RateLimitCfg.default : RateLimitCfg where
  minLimit := 1
  maxLimit := 200
  multiplier := .lit 1 1
  targetLatencyMs := .lit 50 1
  pressureSensitivity := .lit 15 10
  latencySensitivity := .lit 1 1
  growthRate := .lit 115 100
  tickSeconds := 5
  emaAlpha := .lit 2 10
  weights := .empty

/-- `ConfigFile::default` at a time. -/
def ConfigFile.default (now : Int64) : ConfigFile where
  version := configVersion
  createdAt := now
  lastModified := now
  global := ⟨90, "authorized_keys.yml"⟩
  rateLimit := .default
  health := ⟨5⟩
  dashboard := ⟨"info"⟩
  auth := ⟨30, 24⟩
  blocked := []
  history := []
  redo := []

/-! ## Encoding -/

/-- The `bincode` crate on configurations. -/
structure Bincode where
  encodeToVec : ConfigFile → Except String Bytes
  decodeFromSlice : Bytes → Except String ConfigFile
  decode_encode : ∀ c, ∃ b, encodeToVec c = .ok b ∧ decodeFromSlice b = .ok c

def encode (B : Bincode) (c : ConfigFile) : Except String Bytes :=
  (B.encodeToVec c).mapError fun e => "config encode failed: " ++ e

def decode (B : Bincode) (bytes : Bytes) : Except String ConfigFile :=
  (B.decodeFromSlice bytes).mapError fun e => "config decode failed: " ++ e

theorem decode_encode (B : Bincode) (c : ConfigFile) :
    ∃ b, encode B c = .ok b ∧ decode B b = .ok c := by
  obtain ⟨b, h1, h2⟩ := B.decode_encode c
  refine ⟨b, ?_, ?_⟩
  · rw [encode, h1]
    rfl
  · rw [decode, h2]
    rfl

/-- A configuration without history and redo stack. -/
def ConfigFile.flat (c : ConfigFile) : ConfigFile := { c with history := [], redo := [] }

def encodeFlat (B : Bincode) (c : ConfigFile) : Bytes :=
  match encode B c.flat with
  | .ok b => b
  | .error _ => []

theorem decode_encodeFlat (B : Bincode) (c : ConfigFile) :
    decode B (encodeFlat B c) = .ok c.flat := by
  obtain ⟨b, h1, h2⟩ := decode_encode B c.flat
  rw [encodeFlat, h1]
  exact h2

/-! ## Clamping -/

def clamp {α : Type} [LT α] [DecidableLT α] (lo hi x : α) : α :=
  if x < lo then lo else if hi < x then hi else x

def RateLimitCfg.sanitize (r : RateLimitCfg) : RateLimitCfg :=
  { r with
    minLimit := clamp 1 10000 r.minLimit
    maxLimit := min (max r.maxLimit (clamp 1 10000 r.minLimit)) 10000
    weights := r.weights.mapVal (.clamp (.lit 1 10) (.lit 10 1))
    multiplier := .clamp (.lit 5 100) (.lit 20 1) r.multiplier
    targetLatencyMs := .clamp (.lit 1 1) (.lit 60000 1) r.targetLatencyMs
    growthRate := .clamp (.lit 1 1) (.lit 2 1) r.growthRate
    tickSeconds := clamp 1 3600 r.tickSeconds
    emaAlpha := .clamp (.lit 1 100) (.lit 9 10) r.emaAlpha
    pressureSensitivity := .clamp (.lit 0 1) (.lit 20 1) r.pressureSensitivity
    latencySensitivity := .clamp (.lit 0 1) (.lit 20 1) r.latencySensitivity }

def DashboardCfg.sanitize (d : DashboardCfg) : DashboardCfg :=
  if ["info", "debug"].contains d.logLevel then d else ⟨"info"⟩

/-- `ConfigFile::sanitize`. -/
def sanitize (c : ConfigFile) : ConfigFile :=
  { c with
    version := configVersion
    rateLimit := c.rateLimit.sanitize
    health := ⟨clamp 1 3600 c.health.cacheTtlSeconds⟩
    dashboard := c.dashboard.sanitize
    auth := ⟨clamp 1 10000 c.auth.maxPerMinutePerIp, clamp 1 (24 * 30) c.auth.sessionTtlHours⟩
    global := { c.global with
      jwtTokenLifetimeMinutes := clamp 1 (60 * 24 * 30) c.global.jwtTokenLifetimeMinutes } }

theorem clamp_clamp {α : Type} [LE α] [LT α] [DecidableLT α] [Std.IsLinearOrder α]
    [Std.LawfulOrderLT α] {lo hi : α} (h : lo ≤ hi) (x : α) :
    clamp lo hi (clamp lo hi x) = clamp lo hi x := by
  unfold clamp
  grind

theorem clamp_mem {α : Type} [LE α] [LT α] [DecidableLT α] [Std.IsLinearOrder α]
    [Std.LawfulOrderLT α] {lo hi : α} (h : lo ≤ hi) (x : α) :
    lo ≤ clamp lo hi x ∧ clamp lo hi x ≤ hi := by
  unfold clamp
  grind

theorem max_limit_sanitized {a b : UInt32} (hb : b ≤ 10000) :
    b ≤ min (max a b) 10000 ∧ min (max a b) 10000 ≤ 10000 ∧
      min (max (min (max a b) 10000) b) 10000 = min (max a b) 10000 := by
  have hmax : ∀ x y : UInt32, max x y = if x ≤ y then y else x := fun _ _ => rfl
  have hmin : ∀ x y : UInt32, min x y = if x ≤ y then x else y := fun _ _ => rfl
  simp only [hmax, hmin]
  grind

theorem RateLimitCfg.sanitize_sanitize (r : RateLimitCfg) : r.sanitize.sanitize = r.sanitize := by
  have hminLimit := clamp_clamp (by decide : (1 : UInt32) ≤ 10000) r.minLimit
  have hmaxLimit := (max_limit_sanitized
    (a := r.maxLimit) (clamp_mem (by decide : (1 : UInt32) ≤ 10000) r.minLimit).2).2.2
  have htick := clamp_clamp (by decide : (1 : UInt64) ≤ 3600) r.tickSeconds
  have hweight := Binary64.clamp_clamp
    (by decide +kernel : Binary64.le (.lit 1 10) (.lit 10 1) = true)
  have hmult := Binary64.clamp_clamp
    (by decide +kernel : Binary64.le (.lit 5 100) (.lit 20 1) = true)
  have htarget := Binary64.clamp_clamp
    (by decide +kernel : Binary64.le (.lit 1 1) (.lit 60000 1) = true)
  have hgrowth := Binary64.clamp_clamp
    (by decide +kernel : Binary64.le (.lit 1 1) (.lit 2 1) = true)
  have hema := Binary64.clamp_clamp
    (by decide +kernel : Binary64.le (.lit 1 100) (.lit 9 10) = true)
  have hsens := Binary64.clamp_clamp
    (by decide +kernel : Binary64.le (.lit 0 1) (.lit 20 1) = true)
  simp only [RateLimitCfg.sanitize, hminLimit, hmaxLimit, htick, SortedMap.mapVal_mapVal hweight,
    hmult, htarget, hgrowth, hema, hsens]

theorem DashboardCfg.sanitize_sanitize (d : DashboardCfg) : d.sanitize.sanitize = d.sanitize := by
  by_cases h : ["info", "debug"].contains d.logLevel = true
  · have hd : d.sanitize = d := if_pos h
    rw [hd, hd]
  · have hd : d.sanitize = ⟨"info"⟩ := if_neg h
    rw [hd]
    decide

theorem sanitize_sanitize (c : ConfigFile) : sanitize (sanitize c) = sanitize c := by
  simp only [sanitize, RateLimitCfg.sanitize_sanitize, DashboardCfg.sanitize_sanitize,
    clamp_clamp (by decide : (1 : UInt64) ≤ 3600), clamp_clamp (by decide : (1 : UInt32) ≤ 10000),
    clamp_clamp (by decide : (1 : UInt64) ≤ 24 * 30),
    clamp_clamp (by decide : (1 : UInt64) ≤ 60 * 24 * 30)]

/-- The defaults pass their own checks. -/
theorem sanitize_default (now : Int64) : sanitize (.default now) = .default now := by
  have hrate : RateLimitCfg.default.sanitize = .default := by decide +kernel
  simp only [sanitize, ConfigFile.default, hrate]
  rfl

/-! ## History -/

/-- The readings of the clock in a request: for an entry, for `last_modified` and
for a default's `created_at`. -/
structure Clock where
  ts : Int64
  lastModified : Int64
  createdAt : Int64
  deriving DecidableEq

/-- The newest entries that fit. -/
def capHistory (h : List HistoryEntry) : List HistoryEntry :=
  h.drop (h.length - historyCapacity)

/-- `ConfigFile::apply`. -/
def apply (B : Bincode) (now : Clock) (c new : ConfigFile) (desc path who : String) : ConfigFile :=
  { new with
    history := capHistory (c.history ++ [⟨now.ts, desc, path, encodeFlat B c, who⟩])
    redo := []
    lastModified := now.lastModified }

/-- `ConfigFile::undo`: what it leaves and the change it undid. -/
def undo (B : Bincode) (now : Clock) (c : ConfigFile) : ConfigFile × Option HistoryEntry :=
  match c.history.getLast? with
  | none => (c, none)
  | some entry =>
    match decode B entry.snapshot with
    | .ok prev =>
      ({ prev with
        history := c.history.dropLast
        redo := c.redo ++ [⟨now.ts, entry.desc, entry.path, encodeFlat B c, entry.by⟩]
        lastModified := now.lastModified }, some entry)
    | .error _ =>
      ({ c with
        history := c.history.dropLast
        redo := c.redo ++ [⟨now.ts, entry.desc, entry.path, encodeFlat B c, entry.by⟩] }, none)

/-- `ConfigFile::redo`. -/
def redo (B : Bincode) (now : Clock) (c : ConfigFile) : ConfigFile × Option HistoryEntry :=
  match c.redo.getLast? with
  | none => (c, none)
  | some entry =>
    match decode B entry.snapshot with
    | .ok next =>
      ({ next with
        history := c.history ++ [⟨entry.ts, entry.desc, entry.path, encodeFlat B c, entry.by⟩]
        redo := c.redo.dropLast
        lastModified := now.lastModified }, some entry)
    | .error _ => ({ c with redo := c.redo.dropLast }, none)

end XavierDB.Config
