import XavierDB.Base.Publish
import XavierDB.Config.Codec
import XavierDB.Config.Admin

/-!
# Concurrent changes of single settings (`src/routes_admin.rs`)

`config_change` clones the configuration under a lock it drops at once, and
`save_config` writes the changed clone, stamps what it wrote and publishes it. A
request overwrites whatever was published after its clone: changes are kept in
the runs where nothing is published while another request holds a clone.
-/

namespace XavierDB.Config

open Publish

/-! ## Steps -/

/-- What the requests share. -/
structure Shared where
  config : ConfigFile
  files : Files
  lastConfigWritten : Option Bytes
  cfgVersion : Nat

inductive Phase where
  | idle
  | cloned (p : ConfigFile)
  | written (p : ConfigFile) (bytes : Bytes)
  | stamped (p : ConfigFile)
  | done
  | failed (e : ApiError)
  deriving DecidableEq

/-- The clone a request holds. -/
def Phase.copy : Phase → Option ConfigFile
  | cloned p | written p _ | stamped p => some p
  | _ => none

/-- The clone a request has on disk and not yet published. -/
def Phase.onDisk : Phase → Option ConfigFile
  | written p _ | stamped p => some p
  | _ => none

/-- The clock a request reads and the outcome of its disk write. -/
structure Outside where
  now : Clock
  writeErr : Option String

/-- The next step of a request. -/
def advance (B : Bincode) (crc : Bytes → UInt32) (ch : Change) (o : Outside) (sh : Shared) :
    Phase → Shared × Phase
  | .idle =>
    match ch.edit with
    | .error e => (sh, .failed e)
    | .ok ed => (sh, .cloned (configChange B o.now sh.config ed))
  | .cloned p =>
    match saveToDisk B crc o.writeErr sh.files p with
    | (files, .error e) =>
      ({ sh with files := files }, .failed (.internal ("config save failed: " ++ e)))
    | (files, .ok bytes) => ({ sh with files := files }, .written p bytes)
  | .written p bytes => ({ sh with lastConfigWritten := some bytes }, .stamped p)
  | .stamped p => ({ sh with config := p, cfgVersion := sh.cfgVersion + 1 }, .done)
  | ph => (sh, ph)

abbrev State (ι : Type) := Publish.State ι Shared Phase

variable {ι : Type}

def changes (B : Bincode) (crc : Bytes → UInt32) (req : ι → Change) :
    ι → Outside → Shared → Phase → Shared × Phase :=
  fun i => advance B crc (req i)

/-- All requests still to come, and a configuration of the current version. -/
structure Initial (s : State ι) : Prop where
  idle : ∀ i, s.phase i = .idle
  version : s.shared.config.version = configVersion

/-- The step publishes nothing while another request holds a clone, and what it
writes fits the file. -/
structure Exclusive (B : Bincode) (s : State ι) (a : ι × Outside) : Prop where
  publish : ∀ p, s.phase a.1 = .stamped p → ∀ j, j ≠ a.1 → (s.phase j).copy = none
  fits : ∀ p, s.phase a.1 = .cloned p → Fits B p

/-! ## What requests ask for -/

/-- The id a request acts on. -/
def Change.id : Change → String
  | .block id | .appWeight id _ => trim id
  | .unblock id => id

/-- The change of a request is in the configuration. -/
def Present : Change → ConfigFile → Prop
  | .block id, c => trim id ∈ c.blocked
  | .unblock id, c => id ∉ c.blocked
  | .appWeight id w, c => c.rateLimit.weights.get? (trim id) = some (snapWeight w)

theorem mem_addBlocked {x id : String} {c : ConfigFile} :
    x ∈ (addBlocked id c).blocked ↔ x = id ∨ x ∈ c.blocked := by
  unfold addBlocked
  split
  case isTrue h =>
    constructor
    · exact .inr
    · rintro (rfl | hx)
      · exact h
      · exact hx
  case isFalse h =>
    rw [(List.perm_insertionSort _ _).mem_iff, List.mem_append, List.mem_singleton, or_comm]

theorem mem_removeBlocked {x id : String} {c : ConfigFile} :
    x ∈ (removeBlocked id c).blocked ↔ x ∈ c.blocked ∧ x ≠ id := by
  unfold removeBlocked
  simp

theorem get?_setWeight {x id : String} {w : Binary64} {c : ConfigFile} :
    (setWeight id w c).rateLimit.weights.get? x =
      if x = id then some w else c.rateLimit.weights.get? x :=
  SortedMap.get?_insert _ _ _ _

variable {B : Bincode} {crc : Bytes → UInt32} {r r' : Change} {ed : Edit} {c : ConfigFile}
  {now : Clock}

/-- A request finds its change in the configuration it saves. -/
theorem present_configChange (h : r.edit = .ok ed) : Present r (configChange B now c ed) := by
  unfold configChange
  rw [change_of_edit h]
  cases r with
  | block id => exact mem_addBlocked.mpr (.inl rfl)
  | unblock id => exact fun hmem => (mem_removeBlocked.mp hmem).2 rfl
  | appWeight id weight => exact get?_setWeight.trans (if_pos rfl)

/-- A change on another id leaves it there. -/
theorem Present.change (hp : Present r c) (hid : r.id ≠ r'.id) : Present r (r'.change c) := by
  cases r with
  | block x =>
    cases r' with
    | block y => exact mem_addBlocked.mpr (.inr hp)
    | unblock y => exact mem_removeBlocked.mpr ⟨hp, hid⟩
    | appWeight y w => exact hp
  | unblock x =>
    cases r' with
    | block y => exact fun hmem => (mem_addBlocked.mp hmem).elim hid hp
    | unblock y => exact fun hmem => hp (mem_removeBlocked.mp hmem).1
    | appWeight y w => exact hp
  | appWeight x v =>
    cases r' with
    | block y =>
      show (addBlocked (trim y) c).rateLimit.weights.get? (trim x) = some (snapWeight v)
      unfold addBlocked
      split
      · exact hp
      · exact hp
    | unblock y => exact hp
    | appWeight y w => exact get?_setWeight.trans ((if_neg hid).trans hp)

theorem Present.configChange (hp : Present r c) (hid : r.id ≠ r'.id) (h : r'.edit = .ok ed) :
    Present r (configChange B now c ed) := by
  have happ : Present r (apply B now c c ed.desc ed.path "dashboard") := by
    cases r with
    | block x => exact hp
    | unblock x => exact hp
    | appWeight x v => exact hp
  unfold Config.configChange
  rw [change_of_edit h]
  exact happ.change hid

theorem version_configChange (h : r.edit = .ok ed) :
    (configChange B now c ed).version = c.version := by
  unfold configChange
  obtain ⟨blocked, weights, heq⟩ := change_frame r (apply B now c c ed.desc ed.path "dashboard")
  rw [change_of_edit h, heq]
  rfl

/-! ## The invariant -/

variable {req : ι → Change} {s : State ι}

def reading (B : Bincode) (crc : Bytes → UInt32) (req : ι → Change) :
    Reading ι Shared Phase ConfigFile where
  mem sh := sh.config
  file sh := readCandidate B crc sh.files.current
  copy := Phase.copy
  onDisk := Phase.onDisk
  edit i c p := ∃ ed now, (req i).edit = .ok ed ∧ configChange B now c ed = p
  asks i ph c := c.version = configVersion ∧ (ph = .done → Present (req i) c)
  settled ph := ph = .done
  copy_of_onDisk ph p h := by cases ph <;> first | exact h | cases h

theorem Initial.inv (h : Initial s) : Inv (reading B crc req) s := by
  apply Inv.start
  · intro i
    refine ⟨h.version, fun hd => ?_⟩
    rw [h.idle i] at hd
    cases hd
  · intro i
    simp only [reading, h.idle i, Phase.copy]
  · rintro ⟨i, hd⟩
    simp only [reading, h.idle i] at hd
    cases hd

variable [DecidableEq ι] {i : ι}

/-- A request fails with nothing of its own on disk. -/
theorem inv_fail (h : Inv (reading B crc req) s) {files : Files}
    (hfiles : files.current = s.shared.files.current) (e : ApiError)
    (hdisk : (s.phase i).onDisk = none) :
    Inv (reading B crc req) (s.put i { s.shared with files := files } (.failed e)) := by
  apply h.move
  · rfl
  · simp only [reading, hfiles]
  · exact hdisk.symm
  · intro hd
    cases hd
  · refine ⟨(h.asks i).1, fun hd => ?_⟩
    cases hd
  · intro q hq
    cases hq

theorem inv_step (hid : ∀ i j, i ≠ j → (req i).id ≠ (req j).id) (a : ι × Outside)
    (h : Inv (reading B crc req) s) (hc : Exclusive B s a) :
    Inv (reading B crc req) (step (changes B crc req) s a) := by
  obtain ⟨i, o⟩ := a
  have hversion : s.shared.config.version = configVersion := (h.asks i).1
  unfold step changes
  dsimp only
  cases hph : s.phase i with
  | idle =>
    cases he : (req i).edit with
    | error e =>
      simp only [advance, he]
      exact inv_fail h rfl e (by rw [hph]; rfl)
    | ok ed =>
      simp only [advance, he]
      apply h.move
      · rfl
      · rfl
      · rw [hph]
        rfl
      · intro hd
        cases hd
      · refine ⟨hversion, fun hd => ?_⟩
        cases hd
      · intro q hq
        exact ⟨ed, o.now, he, Option.some.inj hq⟩
  | cloned p =>
    obtain ⟨ed, now, he, hp⟩ := h.copy i p (by rw [hph]; rfl)
    have hpv : p.version = configVersion := by
      rw [← hp, version_configChange he]
      exact hversion
    obtain ⟨bytes, hbytes⟩ := @serializeWithChecksum_ok B crc p
    have hread := deserialize_serialize hbytes hpv (hc.fits p hph)
    cases hw : o.writeErr with
    | some e =>
      simp only [advance, saveToDisk, hbytes, hw]
      have hfiles : (rotateBackups s.shared.files).current = s.shared.files.current := rfl
      exact inv_fail h hfiles _ (by rw [hph]; rfl)
    | none =>
      simp only [advance, saveToDisk, hbytes, hw]
      apply h.write (p := p)
      · rfl
      · simp only [reading, readCandidate, Option.bind_some, hread]
        rfl
      · rfl
      · refine ⟨hversion, fun hd => ?_⟩
        cases hd
      · rw [hph]
        rfl
  | written p bytes =>
    simp only [advance]
    apply h.move
    · rfl
    · rfl
    · rw [hph]
      rfl
    · intro hd
      cases hd
    · refine ⟨hversion, fun hd => ?_⟩
      cases hd
    · intro q hq
      exact h.copy i q (by rw [hph]; exact hq)
  | stamped p =>
    simp only [advance]
    obtain ⟨ed, now, he, hp⟩ := h.copy i p (by rw [hph]; rfl)
    have hpv : p.version = configVersion := by
      rw [← hp, version_configChange he]
      exact hversion
    have halone : Alone (reading B crc req) s i := hc.publish p hph
    apply h.publish halone
    · exact h.file_of_alone halone (by rw [hph]; rfl)
    · rfl
    · exact ⟨hpv, fun _ => hp ▸ present_configChange he⟩
    · exact fun j hj ha => ⟨hpv, fun hd => hp ▸ (ha.2 hd).configChange (hid j i hj) he⟩
  | done => exact h.stay hph
  | failed e => exact h.stay hph

/-! ## An instance -/

/-- Two requests to come on the default configuration. -/
def freshState : State Bool :=
  ⟨⟨.default 0, ⟨none, [none, none, none, none, none]⟩, none, 0⟩, fun _ => .idle⟩

theorem initial_freshState : Initial freshState := ⟨fun _ => rfl, rfl⟩

def blockAndWeight : Bool → Change
  | true => .block "clerk@shop"
  | false => .appWeight "shop" (.lit 25 10)

def twoBlocks : Bool → Change
  | true => .block "shop"
  | false => .block "bank"

/-- A step at time zero whose write succeeds. -/
def go (i : Bool) : Bool × Outside := (i, ⟨⟨0, 0, 0⟩, none⟩)

/-- One request after the other. -/
def serial : List (Bool × Outside) :=
  [go true, go true, go true, go true, go false, go false, go false, go false]

/-- The second request falls between the clone and the write of the first. -/
def overlap : List (Bool × Outside) :=
  [go true, go false, go false, go false, go false, go true, go true, go true]

theorem Exclusive.of_alone {s : State Bool} {a : Bool × Outside}
    (h : ∀ j, j ≠ a.1 → (s.phase j).copy = none)
    (hfits : (s.phase a.1).copy.all (fun p => (configCodec.encode p).length < 2 ^ 32) = true) :
    Exclusive standardBincode s a where
  publish _ _ := h
  fits p hp payload hpayload := by
    rw [hp] at hfits
    obtain rfl := Except.ok.inj hpayload
    exact of_decide_eq_true hfits

/-! ## Changes kept and lost -/

/-- The file decodes to the configuration. -/
def Files.Holds (B : Bincode) (crc : Bytes → UInt32) (f : Files) (c : ConfigFile) : Prop :=
  ∃ bytes, f.current = some bytes ∧ deserializeWithChecksum B crc bytes = .ok c

theorem Files.holds_of_readCandidate {f : Files} (h : readCandidate B crc f.current = some c) :
    f.Holds B crc c := by
  obtain ⟨bytes, hbytes, hread⟩ := Option.bind_eq_some_iff.mp h
  exact ⟨bytes, hbytes, eq_ok_of_toOption hread⟩

/-- Requests on different ids that all report success keep their changes, in
memory and on disk, when nothing is published over a clone. -/
theorem configChange_keeps_changes [Nonempty ι] (hid : ∀ i j, i ≠ j → (req i).id ≠ (req j).id)
    {s₀ : State ι} (h₀ : Initial s₀) {acts : List (ι × Outside)}
    (hc : Run.Along (step (changes B crc req)) (Exclusive B) s₀ acts)
    (hdone : ∀ i, (run (changes B crc req) s₀ acts).phase i = .done) :
    (∀ i, Present (req i) (run (changes B crc req) s₀ acts).shared.config) ∧
      (run (changes B crc req) s₀ acts).shared.files.Holds B crc
        (run (changes B crc req) s₀ acts).shared.config := by
  have hinv : Inv (reading B crc req) (run (changes B crc req) s₀ acts) :=
    Run.foldl_inv (fun _ a h hc => inv_step hid a h hc) h₀.inv hc
  generalize run (changes B crc req) s₀ acts = s at hinv hdone ⊢
  have hfile := hinv.synced (fun i => by rw [hdone i]; rfl) ⟨Classical.arbitrary ι, hdone _⟩
  exact ⟨fun i => (hinv.asks i).2 (hdone i), Files.holds_of_readCandidate hfile⟩

theorem configChange_keeps_changes_serial :
    (∀ i, Present (blockAndWeight i)
      (run (changes standardBincode crc32 blockAndWeight) freshState serial).shared.config) ∧
    (run (changes standardBincode crc32 blockAndWeight) freshState serial).shared.files.Holds
      standardBincode crc32
      (run (changes standardBincode crc32 blockAndWeight) freshState serial).shared.config := by
  apply configChange_keeps_changes
  · decide +kernel
  · exact initial_freshState
  · exact ⟨.of_alone (by decide +kernel) (by decide +kernel),
      .of_alone (by decide +kernel) (by decide +kernel),
      .of_alone (by decide +kernel) (by decide +kernel),
      .of_alone (by decide +kernel) (by decide +kernel),
      .of_alone (by decide +kernel) (by decide +kernel),
      .of_alone (by decide +kernel) (by decide +kernel),
      .of_alone (by decide +kernel) (by decide +kernel),
      .of_alone (by decide +kernel) (by decide +kernel), trivial⟩
  · decide +kernel

/-- Both blocks report success, and one of them is lost. -/
theorem configChange_loses_block_overlap :
    Initial freshState ∧ (∀ i j, i ≠ j → (twoBlocks i).id ≠ (twoBlocks j).id) ∧
    (∀ i, (run (changes standardBincode crc32 twoBlocks) freshState overlap).phase i = .done) ∧
    ¬ ∀ i, Present (twoBlocks i)
      (run (changes standardBincode crc32 twoBlocks) freshState overlap).shared.config := by
  refine ⟨initial_freshState, by decide +kernel, by decide +kernel, fun h => ?_⟩
  have hlost : trim "bank" ∉
      (run (changes standardBincode crc32 twoBlocks) freshState overlap).shared.config.blocked := by
    decide +kernel
  exact hlost (h false)

end XavierDB.Config
