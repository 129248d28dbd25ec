import XavierDB.Base.Text
import XavierDB.Config.Disk
import XavierDB.Error
import Mathlib.Data.List.Sort

/-!
# Configuration requests of the dashboard (`src/routes_admin.rs`)

Each request changes a clone of the configuration; `save_config` writes the
clone and then publishes it.
-/

namespace XavierDB.Config

/-! ## Single settings -/

/-- The arguments of `config_change`. -/
structure Edit where
  desc : String
  path : String
  change : ConfigFile → ConfigFile

/-- A trimmed id of admissible length. -/
def checkId (id : String) : Except ApiError String :=
  if (trim id).isEmpty ∨ 130 < (trim id).utf8ByteSize then .error (.badRequest "invalid id")
  else .ok (trim id)

def addBlocked (id : String) (c : ConfigFile) : ConfigFile :=
  if id ∈ c.blocked then c
  else { c with blocked := (c.blocked ++ [id]).insertionSort (· ≤ ·) }

def removeBlocked (id : String) (c : ConfigFile) : ConfigFile :=
  { c with blocked := c.blocked.filter fun b => b ≠ id }

def setWeight (id : String) (w : Binary64) (c : ConfigFile) : ConfigFile :=
  { c with rateLimit := { c.rateLimit with weights := c.rateLimit.weights.insert id w } }

/-- A weight in steps of 0.1. -/
def snapWeight (weight : Binary64) : Binary64 :=
  ((weight.mul (.lit 10 1)).round).div (.lit 10 1)

def block (id : String) : Except ApiError Edit :=
  (checkId id).map fun id => ⟨"block " ++ id, "blocked", addBlocked id⟩

def unblock (id : String) : Except ApiError Edit :=
  .ok ⟨"unblock " ++ id, "blocked", removeBlocked id⟩

def appWeight (id : String) (weight : Binary64) : Except ApiError Edit :=
  match checkId id with
  | .error e => .error e
  | .ok id =>
    if (Binary64.lit 1 10).le weight && weight.le (.lit 10 1) then
      .ok ⟨"weight " ++ id ++ " = " ++ (snapWeight weight).toFixed1, "rate_limit.weights." ++ id,
        setWeight id (snapWeight weight)⟩
    else .error (.badRequest "weight must be between 0.1 and 10.0")

inductive Change where
  | block (id : String)
  | unblock (id : String)
  | appWeight (id : String) (weight : Binary64)

def Change.edit : Change → Except ApiError Edit
  | .block id => Config.block id
  | .unblock id => Config.unblock id
  | .appWeight id weight => Config.appWeight id weight

/-- What an admissible change does. -/
def Change.change : Change → ConfigFile → ConfigFile
  | .block id => addBlocked (trim id)
  | .unblock id => removeBlocked id
  | .appWeight id weight => setWeight (trim id) (snapWeight weight)

theorem checkId_ok {id id' : String} (h : checkId id = .ok id') : id' = trim id := by
  unfold checkId at h
  split at h
  · cases h
  · exact (Except.ok.inj h).symm

theorem change_of_edit {ch : Change} {ed : Edit} (h : ch.edit = .ok ed) :
    ed.change = ch.change := by
  cases ch with
  | block id =>
    simp only [Change.edit, block] at h
    cases hid : checkId id with
    | error e =>
      rw [hid] at h
      cases h
    | ok id' =>
      rw [hid] at h
      cases h
      rw [checkId_ok hid]
      rfl
  | unblock id =>
    cases h
    rfl
  | appWeight id weight =>
    simp only [Change.edit, appWeight] at h
    split at h
    · cases h
    case h_2 id' hid =>
      split at h
      · cases h
        rw [checkId_ok hid]
        rfl
      · cases h

/-- A change touches the block list and the weights only. -/
theorem change_frame (ch : Change) (c : ConfigFile) : ∃ blocked weights, ch.change c =
    { c with blocked := blocked, rateLimit := { c.rateLimit with weights := weights } } := by
  cases ch with
  | block id =>
    show ∃ blocked weights, addBlocked (trim id) c = _
    unfold addBlocked
    split
    · exact ⟨c.blocked, c.rateLimit.weights, rfl⟩
    · exact ⟨_, c.rateLimit.weights, rfl⟩
  | unblock id => exact ⟨_, c.rateLimit.weights, rfl⟩
  | appWeight id weight => exact ⟨c.blocked, _, rfl⟩

theorem weight_of_edit {id : String} {weight : Binary64} {ed : Edit}
    (h : (Change.appWeight id weight).edit = .ok ed) :
    (Binary64.lit 1 10).le weight = true ∧ weight.le (.lit 10 1) = true := by
  simp only [Change.edit, appWeight] at h
  split at h
  · cases h
  · split at h
    case isTrue hw => exact Bool.and_eq_true_iff.mp hw
    · cases h

/-- The clone `config_change` saves. -/
def configChange (B : Bincode) (now : Clock) (c : ConfigFile) (e : Edit) : ConfigFile :=
  e.change (apply B now c c e.desc e.path "dashboard")

/-! ## Requests -/

inductive Request where
  | configSave (config : ConfigFile)
  | configImport (config : ConfigFile)
  | configReset
  /-- The index counts from the newest entry; it is `u64::MAX` where the body has none. -/
  | configRevert (index : Nat)
  | configUndo
  | configRedo
  /-- A reload, with the files it finds. -/
  | configReload (files : Files)
  | change (c : Change)

structure Action where
  req : Request
  now : Clock
  /-- the outcome of a disk write -/
  writeErr : Option String

/-- A request whose write succeeds. -/
def act (req : Request) : Action := ⟨req, ⟨0, 0, 0⟩, none⟩

inductive Reply where
  | ok
  | did (b : Bool)
  | reloaded (warning : Option String)
  | error (e : ApiError)
  deriving DecidableEq

theorem stored_lt {n index : Nat} (h : ¬ n ≤ index) : n - 1 - index < n := by omega

/-- The configuration `config_revert` saves. -/
def revert (B : Bincode) (now : Clock) (c : ConfigFile) (index : Nat) :
    Except ApiError ConfigFile :=
  if h : c.history.length ≤ index then .error (.badRequest "invalid history index")
  else
    match decode B (c.history.get ⟨c.history.length - 1 - index, stored_lt h⟩).snapshot with
    | .error e => .error (.internal e)
    | .ok prev =>
      .ok { sanitize prev with
        history := c.history.take (c.history.length - 1 - index)
        redo := []
        lastModified := now.lastModified }

variable (B : Bincode) (crc : Bytes → UInt32)

/-- `save_config`, by what it leaves in memory. -/
def saveConfig (a : Action) (c new : ConfigFile) (reply : Reply) : ConfigFile × Reply :=
  match serializeWithChecksum B crc new, a.writeErr with
  | .error e, _ => (c, .error (.internal ("config save failed: " ++ e)))
  | .ok _, some e => (c, .error (.internal ("config save failed: " ++ e)))
  | .ok _, none => (new, reply)

/-- A request on the configuration in memory. -/
def handle (c : ConfigFile) (a : Action) : ConfigFile × Reply :=
  match a.req with
  | .configSave new =>
    saveConfig B crc a c
      (apply B a.now c (sanitize new) "config edited from dashboard" "config" "dashboard") .ok
  | .configImport new =>
    saveConfig B crc a c
      (apply B a.now c (sanitize new) "imported config" "config" "dashboard") .ok
  | .configReset =>
    saveConfig B crc a c
      (apply B a.now c (.default a.now.createdAt) "reset to defaults" "config" "dashboard") .ok
  | .configRevert index =>
    match revert B a.now c index with
    | .error e => (c, .error e)
    | .ok prev => saveConfig B crc a c prev .ok
  | .configUndo =>
    match undo B a.now c with
    | (_, none) => (c, .did false)
    | (prev, some _) => saveConfig B crc a c prev (.did true)
  | .configRedo =>
    match redo B a.now c with
    | (_, none) => (c, .did false)
    | (next, some _) => saveConfig B crc a c next (.did true)
  | .configReload files =>
    ((loadFromDisk B crc a.now.createdAt a.writeErr files).1,
      .reloaded (loadFromDisk B crc a.now.createdAt a.writeErr files).2)
  | .change ch =>
    match ch.edit with
    | .error e => (c, .error e)
    | .ok e => saveConfig B crc a c (configChange B a.now c e) .ok

def next (c : ConfigFile) (a : Action) : ConfigFile := (handle B crc c a).1

variable {B crc}

/-! ## What a request leaves -/

/-- A save that does not fail publishes, one that fails changes nothing. -/
theorem saveConfig_eq (a : Action) (c new : ConfigFile) (reply : Reply) :
    saveConfig B crc a c new reply = match a.writeErr with
      | none => (new, reply)
      | some e => (c, .error (.internal ("config save failed: " ++ e))) := by
  obtain ⟨bytes, h⟩ := @serializeWithChecksum_ok B crc new
  unfold saveConfig
  rw [h]
  cases a.writeErr <;> rfl

theorem saveConfig_cases (a : Action) (c new : ConfigFile) (reply : Reply) :
    (saveConfig B crc a c new reply).1 = new ∨ (saveConfig B crc a c new reply).1 = c := by
  rw [saveConfig_eq]
  cases a.writeErr
  · exact .inl rfl
  · exact .inr rfl

/-! ## Weights -/

theorem lit_ten : ∃ m : Binary64.Magnitude, Binary64.lit 10 1 = .finite false m ∧
    m.units = 10 * Binary64.one :=
  ⟨⟨10 * Binary64.one, by decide +kernel, by decide +kernel⟩, by decide +kernel, rfl⟩

/-- An admissible weight is a positive double. -/
theorem weight_units {w : Binary64} (h1 : (Binary64.lit 1 10).le w = true)
    (h2 : w.le (.lit 10 1) = true) :
    ∃ m, w = .finite false m ∧ Binary64.one ≤ m.units * 10 ∧ m.units ≤ 10 * Binary64.one := by
  have hlo : (Binary64.lit 1 10).key = some (Binary64.roundUnits Binary64.one 10 : Nat) := by
    decide +kernel
  have hhi : (Binary64.lit 10 1).key = some ((10 * Binary64.one : Nat) : Int) := by decide +kernel
  have htenth : Binary64.one ≤ Binary64.roundUnits Binary64.one 10 * 10 := by decide +kernel
  have hmax : ((10 * Binary64.one : Nat) : Int) < 2 ^ 2098 := by decide +kernel
  have hone := Binary64.one_pos
  obtain ⟨a, b, ha, hb, hab⟩ := Binary64.le_iff.mp h1
  obtain ⟨b', d, hb', hd, hbd⟩ := Binary64.le_iff.mp h2
  rw [hlo] at ha
  rw [hhi] at hd
  rw [hb] at hb'
  obtain rfl := Option.some.inj ha
  obtain rfl := Option.some.inj hd
  obtain rfl := Option.some.inj hb'
  obtain ⟨m, hm, hunits⟩ := Binary64.exists_of_key hb (by omega) (hbd.trans_lt hmax)
  exact ⟨m, hm, by omega, by omega⟩

/-- A snapped weight stays as it is when it is clamped. -/
theorem clamp_snapWeight {w : Binary64} (h1 : (Binary64.lit 1 10).le w = true)
    (h2 : w.le (.lit 10 1) = true) :
    Binary64.clamp (.lit 1 10) (.lit 10 1) (snapWeight w) = snapWeight w := by
  obtain ⟨m, rfl, hlo, hhi⟩ := weight_units h1 h2
  obtain ⟨ten, hten, hunits⟩ := lit_ten
  -- ten times the weight is between 1 and 100, and so is its rounding
  have hprod : ∃ p : Binary64.Magnitude,
      (Binary64.finite false m).mul (.lit 10 1) = .finite false p ∧
        1 * Binary64.one ≤ p.units ∧ p.units ≤ 100 * Binary64.one := by
    rw [hten, Binary64.mul, hunits]
    apply Binary64.ofRatio_between Binary64.one_pos
    · decide +kernel
    · decide +kernel
    · calc 1 * Binary64.one * Binary64.one ≤ m.units * 10 * Binary64.one := by
            rw [Nat.one_mul]
            exact Nat.mul_le_mul_right _ hlo
        _ = m.units * (10 * Binary64.one) := Nat.mul_assoc _ _ _
    · calc m.units * (10 * Binary64.one) ≤ 10 * Binary64.one * (10 * Binary64.one) :=
            Nat.mul_le_mul_right _ hhi
        _ = 100 * Binary64.one * Binary64.one := by ring
    · decide +kernel
  obtain ⟨p, hp, hp1, hp100⟩ := hprod
  obtain ⟨k, hk1, hk100, hk⟩ := Binary64.round_between hp1 hp100
  have hall : ∀ k ∈ List.range 101, 1 ≤ k →
      Binary64.clamp (.lit 1 10) (.lit 10 1)
        ((Binary64.ofRatio false (k * Binary64.one) 1).div (.lit 10 1)) =
          (Binary64.ofRatio false (k * Binary64.one) 1).div (.lit 10 1) := by
    decide +kernel
  unfold snapWeight
  rw [hp, hk]
  exact hall k (List.mem_range.mpr (by omega)) hk1

end XavierDB.Config
