import XavierDB.Base.Run
import XavierDB.Base.Zipper
import XavierDB.Config.Codec
import XavierDB.Config.Admin
import Mathlib.Data.List.Forall2

/-!
# The history as a zipper (`src/config.rs`, `src/routes_admin.rs`)

The settings in force, what the snapshots of the history hold and what those of
the redo stack hold move as the present, the past and the future of a zipper of
settings.
-/

namespace XavierDB.Config

/-! ## The zipper of settings -/

/-- All fields but `last_modified`, `history` and `redo`. -/
def settings (c : ConfigFile) : ConfigFile :=
  { c with lastModified := 0, history := [], redo := [] }

/-- A change that is written takes effect. -/
def commit (a : Action) (z z' : Zipper ConfigFile) (reply : Reply) : Zipper ConfigFile × Reply :=
  match a.writeErr with
  | none => (z', reply)
  | some e => (z, .error (.internal ("config save failed: " ++ e)))

/-- What the requests but a reload do to the settings. -/
def zipperStep (z : Zipper ConfigFile) (a : Action) : Zipper ConfigFile × Reply :=
  match a.req with
  | .configSave new | .configImport new =>
    commit a z (z.push historyCapacity (settings (sanitize new))) .ok
  | .configReset => commit a z (z.push historyCapacity (settings (.default a.now.createdAt))) .ok
  | .configRevert index =>
    match z.revert index with
    | none => (z, .error (.badRequest "invalid history index"))
    | some z' => commit a z z' .ok
  | .configUndo =>
    match z.undo with
    | none => (z, .did false)
    | some z' => commit a z z' (.did true)
  | .configRedo =>
    match z.redo with
    | none => (z, .did false)
    | some z' => commit a z z' (.did true)
  | .configReload _ => (z, .ok)
  | .change ch =>
    match ch.edit with
    | .error e => (z, .error e)
    | .ok ed => commit a z (z.push historyCapacity (ed.change z.present)) .ok

/-! ## Edits -/

variable {B : Bincode} {crc : Bytes → UInt32} {ch : Change} {ed : Edit}

/-- An edit neither reads nor changes what is not a setting. -/
theorem edit_update (h : ch.edit = .ok ed) (c : ConfigFile) (history redo : List HistoryEntry)
    (lastModified : Int64) :
    ed.change { c with lastModified := lastModified, history := history, redo := redo } =
      { ed.change c with lastModified := lastModified, history := history, redo := redo } := by
  rw [change_of_edit h]
  cases ch with
  | block id =>
    unfold Change.change addBlocked
    dsimp only
    split <;> rfl
  | unblock id => rfl
  | appWeight id weight => rfl

theorem edit_stable (h : ch.edit = .ok ed) {c : ConfigFile} (hc : sanitize c = c) :
    sanitize (ed.change c) = ed.change c := by
  rw [change_of_edit h]
  cases ch with
  | block id =>
    show sanitize (addBlocked (trim id) c) = addBlocked (trim id) c
    unfold addBlocked
    split
    · exact hc
    · show { sanitize c with blocked := (c.blocked ++ [trim id]).insertionSort (· ≤ ·) } = _
      rw [hc]
  | unblock id =>
    show { sanitize c with blocked := c.blocked.filter fun b => b ≠ id } = _
    rw [hc]
    rfl
  | appWeight id weight =>
    obtain ⟨h1, h2⟩ := weight_of_edit h
    have hrate : c.rateLimit.sanitize = c.rateLimit := congrArg ConfigFile.rateLimit hc
    have hweights : c.rateLimit.weights.mapVal (.clamp (.lit 1 10) (.lit 10 1)) =
        c.rateLimit.weights := congrArg RateLimitCfg.weights hrate
    have hset : sanitize (setWeight (trim id) (snapWeight weight) c) =
        { sanitize c with
          rateLimit := { c.rateLimit.sanitize with
            weights := (c.rateLimit.weights.insert (trim id) (snapWeight weight)).mapVal
              (.clamp (.lit 1 10) (.lit 10 1)) } } := rfl
    unfold Change.change
    rw [hset, hc, hrate, SortedMap.mapVal_insert, hweights, clamp_snapWeight h1 h2]
    rfl

/-- `config_change` records the edited clone. -/
theorem configChange_eq (h : ch.edit = .ok ed) (now : Clock) (c : ConfigFile) :
    configChange B now c ed = apply B now c (ed.change c) ed.desc ed.path "dashboard" :=
  edit_update h c _ _ _

theorem settings_change (h : ch.edit = .ok ed) (c : ConfigFile) :
    settings (ed.change c) = ed.change (settings c) := (edit_update h c _ _ _).symm

/-! ## The refinement -/

/-- The settings in a snapshot. -/
def Snapshot (B : Bincode) (e : HistoryEntry) (x : ConfigFile) : Prop :=
  ∃ c, decode B e.snapshot = .ok c ∧ settings c = x

/-- The zipper of a configuration. -/
structure Represents (B : Bincode) (c : ConfigFile) (z : Zipper ConfigFile) : Prop where
  present : settings c = z.present
  past : List.Forall₂ (Snapshot B) c.history.reverse z.past
  future : List.Forall₂ (Snapshot B) c.redo.reverse z.future
  stable : z.All fun x => sanitize x = x
  bounded : z.Bounded historyCapacity

variable {c c' : ConfigFile} {z z' : Zipper ConfigFile} (now : Clock)

theorem snapshot_encodeFlat (ts : Int64) (desc path who : String) :
    Snapshot B ⟨ts, desc, path, encodeFlat B c, who⟩ (settings c) :=
  ⟨c.flat, decode_encodeFlat B c, rfl⟩

theorem Represents.default (time : Int64) :
    Represents B (.default time) (.start (settings (.default time))) where
  present := rfl
  past := .nil
  future := .nil
  stable := by
    refine ⟨List.forall_mem_nil _, ?_, List.forall_mem_nil _⟩
    exact congrArg settings (sanitize_default time)
  bounded := Nat.zero_le _

theorem Represents.apply (h : Represents B c z) {new : ConfigFile}
    (hnew : sanitize (settings new) = settings new) (desc path who : String) :
    Represents B (apply B now c new desc path who) (z.push historyCapacity (settings new)) where
  present := rfl
  past := by
    have hsnap : Snapshot B ⟨now.ts, desc, path, encodeFlat B c, who⟩ z.present :=
      h.present ▸ snapshot_encodeFlat now.ts desc path who
    unfold Config.apply capHistory Zipper.push
    dsimp only
    rw [← List.take_reverse, List.reverse_append, List.reverse_singleton, List.singleton_append]
    exact List.forall₂_take _ (.cons hsnap h.past)
  future := .nil
  stable := h.stable.push hnew
  bounded := z.bounded_push _

/-- The newest entry of a list that matches a list of settings. -/
theorem exists_getLast? {l : List HistoryEntry} {x : ConfigFile} {xs : List ConfigFile}
    (h : List.Forall₂ (Snapshot B) l.reverse (x :: xs)) :
    ∃ e, l.getLast? = some e ∧ Snapshot B e x ∧
      List.Forall₂ (Snapshot B) l.dropLast.reverse xs := by
  cases hl : l.reverse with
  | nil =>
    rw [hl] at h
    cases h
  | cons e es =>
    rw [hl] at h
    cases h with
    | cons he hes =>
      have heq : l = es.reverse ++ [e] := by rw [← List.reverse_cons, ← hl, List.reverse_reverse]
      refine ⟨e, by rw [heq, List.getLast?_concat], he, ?_⟩
      rw [heq, List.dropLast_concat, List.reverse_reverse]
      exact hes

theorem Represents.undo_none (h : Represents B c z) (hz : z.undo = none) :
    undo B now c = (c, none) := by
  have hpast : z.past = [] := by
    unfold Zipper.undo at hz
    split at hz
    case h_1 hp => exact hp
    · cases hz
  have hnil := h.past
  rw [hpast, List.forall₂_nil_right_iff, List.reverse_eq_nil_iff] at hnil
  unfold Config.undo
  rw [hnil]
  rfl

theorem Represents.undo_some (h : Represents B c z) (hz : z.undo = some z') :
    ∃ c' e, undo B now c = (c', some e) ∧ Represents B c' z' := by
  have hstable := h.stable.undo hz
  have hbounded := h.bounded.undo hz
  unfold Zipper.undo at hz
  split at hz
  · cases hz
  case h_2 x past hpast =>
    cases hz
    have hp := h.past
    rw [hpast] at hp
    obtain ⟨e, hlast, ⟨d, hd, hx⟩, hrest⟩ := exists_getLast? hp
    unfold Config.undo
    simp only [hlast, hd]
    refine ⟨_, _, rfl, hx, hrest, ?_, hstable, hbounded⟩
    dsimp only
    rw [List.reverse_append, List.reverse_singleton, List.singleton_append]
    exact .cons (h.present ▸ snapshot_encodeFlat _ _ _ _) h.future

theorem Represents.redo_none (h : Represents B c z) (hz : z.redo = none) :
    redo B now c = (c, none) := by
  have hfuture : z.future = [] := by
    unfold Zipper.redo at hz
    split at hz
    case h_1 hf => exact hf
    · cases hz
  have hnil := h.future
  rw [hfuture, List.forall₂_nil_right_iff, List.reverse_eq_nil_iff] at hnil
  unfold Config.redo
  rw [hnil]
  rfl

theorem Represents.redo_some (h : Represents B c z) (hz : z.redo = some z') :
    ∃ c' e, redo B now c = (c', some e) ∧ Represents B c' z' := by
  have hstable := h.stable.redo hz
  have hbounded := h.bounded.redo hz
  unfold Zipper.redo at hz
  split at hz
  · cases hz
  case h_2 x future hfuture =>
    cases hz
    have hf := h.future
    rw [hfuture] at hf
    obtain ⟨e, hlast, ⟨d, hd, hx⟩, hrest⟩ := exists_getLast? hf
    unfold Config.redo
    simp only [hlast, hd]
    refine ⟨_, _, rfl, hx, ?_, hrest, hstable, hbounded⟩
    dsimp only
    rw [List.reverse_append, List.reverse_singleton, List.singleton_append]
    exact .cons (h.present ▸ snapshot_encodeFlat _ _ _ _) h.past

theorem Represents.revert_none (h : Represents B c z) {index : Nat} (hz : z.revert index = none) :
    revert B now c index = .error (.badRequest "invalid history index") := by
  have hlen := h.past.length_eq
  rw [Zipper.revert, Option.map_eq_none_iff, List.getElem?_eq_none_iff, ← hlen,
    List.length_reverse] at hz
  exact dif_pos hz

/-- The display index counts from the newest entry, the stored one from the oldest. -/
theorem Represents.revert_some (h : Represents B c z) {index : Nat}
    (hz : z.revert index = some z') :
    ∃ c', revert B now c index = .ok c' ∧ Represents B c' z' := by
  have hstable := h.stable.revert hz
  have hbounded := h.bounded.revert hz
  obtain ⟨x, hx, rfl⟩ := Option.map_eq_some_iff.mp hz
  have hlt : index < c.history.length := by
    have := (List.getElem?_eq_some_iff.mp hx).1
    rwa [← h.past.length_eq, List.length_reverse] at this
  have hstored : c.history.reverse[index]? = c.history[c.history.length - 1 - index]? :=
    List.getElem?_reverse hlt
  have hsnap : Snapshot B (c.history.get ⟨c.history.length - 1 - index, by omega⟩) x := by
    obtain ⟨hlt', hxeq⟩ := List.getElem?_eq_some_iff.mp hx
    have hget := (List.forall₂_iff_get.mp h.past).2 index (by simpa using hlt) hlt'
    simp only [List.get_eq_getElem, List.getElem_reverse] at hget
    rw [hxeq] at hget
    exact hget
  obtain ⟨d, hd, rfl⟩ := hsnap
  unfold Config.revert
  rw [dif_neg (by omega), hd]
  refine ⟨_, rfl, ?_, ?_, .nil, hstable, hbounded⟩
  · show sanitize (settings d) = settings d
    exact hstable.2.1
  · show List.Forall₂ (Snapshot B) (c.history.take (c.history.length - 1 - index)).reverse _
    rw [List.reverse_take]
    have hdrop : c.history.length - (c.history.length - 1 - index) = index + 1 := by omega
    rw [hdrop]
    exact List.forall₂_drop _ h.past

/-! ## Steps and runs -/

/-- A request other than a reload. -/
def NotReload (a : Action) : Prop := ∀ files, a.req ≠ .configReload files

/-- A save and the commit of what it stands for. -/
theorem Represents.commit (h : Represents B c z) (h' : Represents B c' z') (a : Action)
    (reply : Reply) :
    Represents B (saveConfig B crc a c c' reply).1 (commit a z z' reply).1 ∧
      (saveConfig B crc a c c' reply).2 = (Config.commit a z z' reply).2 := by
  rw [saveConfig_eq]
  unfold Config.commit
  cases a.writeErr
  · exact ⟨h', rfl⟩
  · exact ⟨h, rfl⟩

theorem Represents.step {a : Action} (ha : NotReload a) (h : Represents B c z) :
    Represents B (handle B crc c a).1 (zipperStep z a).1 ∧
      (handle B crc c a).2 = (zipperStep z a).2 := by
  obtain ⟨req, now, writeErr⟩ := a
  unfold handle zipperStep
  cases req with
  | configSave new =>
    exact h.commit (h.apply now (congrArg settings (sanitize_sanitize new)) _ _ _) _ _
  | configImport new =>
    exact h.commit (h.apply now (congrArg settings (sanitize_sanitize new)) _ _ _) _ _
  | configReset =>
    exact h.commit (h.apply now (congrArg settings (sanitize_default now.createdAt)) _ _ _) _ _
  | configRevert index =>
    dsimp only
    cases hz : z.revert index with
    | none =>
      rw [h.revert_none now hz]
      exact ⟨h, rfl⟩
    | some z' =>
      obtain ⟨c', hc', hrep⟩ := h.revert_some now hz
      rw [hc']
      exact h.commit hrep _ _
  | configUndo =>
    dsimp only
    cases hz : z.undo with
    | none =>
      rw [h.undo_none now hz]
      exact ⟨h, rfl⟩
    | some z' =>
      obtain ⟨c', e, hc', hrep⟩ := h.undo_some now hz
      rw [hc']
      exact h.commit hrep _ _
  | configRedo =>
    dsimp only
    cases hz : z.redo with
    | none =>
      rw [h.redo_none now hz]
      exact ⟨h, rfl⟩
    | some z' =>
      obtain ⟨c', e, hc', hrep⟩ := h.redo_some now hz
      rw [hc']
      exact h.commit hrep _ _
  | configReload files => exact absurd rfl (ha files)
  | change ch =>
    dsimp only
    cases hed : ch.edit with
    | error e => exact ⟨h, rfl⟩
    | ok ed =>
      have hpresent : settings (ed.change c) = ed.change z.present := by
        rw [settings_change hed, h.present]
      have hstable : sanitize (settings (ed.change c)) = settings (ed.change c) := by
        rw [hpresent]
        exact edit_stable hed h.stable.2.1
      have hrep := h.apply now hstable ed.desc ed.path "dashboard"
      rw [← configChange_eq hed, hpresent] at hrep
      exact h.commit hrep _ _

/-- From the default configuration, whatever the requests, the settings move as
in a zipper that answers alike, and history and redo stack hold its past and its
future, never more than 10000 entries together. -/
theorem history_zipper (time : Int64) {acts : List Action}
    (hacts : ∀ a ∈ acts, NotReload a) :
    Run.replies (handle B crc) (.default time) acts =
      Run.replies zipperStep (.start (settings (.default time))) acts ∧
    Represents B (Run.last (handle B crc) (.default time) acts)
      (Run.last zipperStep (.start (settings (.default time))) acts) ∧
    (Run.last (handle B crc) (.default time) acts).history.length +
      (Run.last (handle B crc) (.default time) acts).redo.length ≤ historyCapacity := by
  have hstep : ∀ c z a, NotReload a → Represents B c z →
      Represents B (handle B crc c a).1 (zipperStep z a).1 ∧
        (handle B crc c a).2 = (zipperStep z a).2 := fun _ _ _ ha h => h.step ha
  obtain ⟨hrep, hreplies⟩ := Run.simulate hstep hacts (Represents.default time)
  refine ⟨hreplies, hrep, ?_⟩
  have hpast := hrep.past.length_eq
  have hfuture := hrep.future.length_eq
  rw [List.length_reverse] at hpast hfuture
  rw [hpast, hfuture]
  exact hrep.bounded

def sampleActs : List Action :=
  [act (.change (.block "shop")), act (.change (.appWeight "shop" (.lit 25 10))),
    act .configUndo, act .configRedo, act (.configRevert 1)]

theorem history_zipper_sampleActs :
    Run.replies (handle standardBincode crc32) (.default 0) sampleActs =
      Run.replies zipperStep (.start (settings (.default 0))) sampleActs ∧
    Represents standardBincode (Run.last (handle standardBincode crc32) (.default 0) sampleActs)
      (Run.last zipperStep (.start (settings (.default 0))) sampleActs) ∧
    (Run.last (handle standardBincode crc32) (.default 0) sampleActs).history.length +
      (Run.last (handle standardBincode crc32) (.default 0) sampleActs).redo.length ≤
        historyCapacity := by
  apply history_zipper
  simp only [sampleActs, act, NotReload, List.forall_mem_cons]
  refine ⟨?_, ?_, ?_, ?_, ?_, List.forall_mem_nil _⟩
  all_goals
    intro files h
    cases h

example : Run.replies zipperStep (.start (settings (.default 0))) sampleActs =
    [.ok, .ok, .did true, .did true, .ok] := by decide +kernel

/-! ## Snapshots that do not decode -/

/-- The entry an undo or a redo takes off the stack decodes. -/
def NewestDecodes (B : Bincode) (stack : List HistoryEntry) : Prop :=
  ∀ e ∈ stack.getLast?, ∃ c, decode B e.snapshot = .ok c

theorem dropLast_ne_self {l : List HistoryEntry} {e : HistoryEntry} (h : l.getLast? = some e) :
    l.dropLast ≠ l := by
  intro heq
  have hlen := congrArg List.length heq
  rw [List.length_dropLast] at hlen
  have hnil : l = [] := List.eq_nil_of_length_eq_zero (by omega)
  rw [hnil] at h
  cases h

/-- What takes the newest entry off a stack fails unchanged when that entry decodes, if
what it leaves otherwise is another configuration. -/
theorem unchanged_iff {stack : List HistoryEntry} {r : ConfigFile × Option HistoryEntry}
    (hnone : stack.getLast? = none → r = (c, none))
    (hok : ∀ e d, stack.getLast? = some e → decode B e.snapshot = .ok d → r.2 = some e)
    (herror : ∀ e err, stack.getLast? = some e → decode B e.snapshot = .error err →
      r.2 = none ∧ r.1 ≠ c) :
    (r.2 = none → r.1 = c) ↔ NewestDecodes B stack := by
  unfold NewestDecodes
  cases hlast : stack.getLast? with
  | none =>
    refine iff_of_true (fun _ => ?_) fun e he => by cases he
    rw [hnone hlast]
  | some e =>
    cases hd : decode B e.snapshot with
    | ok d =>
      refine iff_of_true (fun h => ?_) fun e' he => ?_
      · rw [hok e d hlast hd] at h
        cases h
      · cases he
        exact ⟨d, hd⟩
    | error err =>
      obtain ⟨hfails, hne⟩ := herror e err hlast hd
      refine iff_of_false (fun h => hne (h hfails)) fun h => ?_
      obtain ⟨d, hd'⟩ := h e rfl
      rw [hd] at hd'
      cases hd'

/-- A failed undo drops the entry all the same, and leaves one to redo. -/
theorem undo_unchanged_iff : ((undo B now c).2 = none → (undo B now c).1 = c) ↔
    NewestDecodes B c.history := by
  unfold undo
  apply unchanged_iff
  · intro hlast
    rw [hlast]
  · intro e d hlast hd
    simp only [hlast, hd]
  · intro e err hlast hd
    simp only [hlast, hd]
    exact ⟨trivial, fun h => dropLast_ne_self hlast (congrArg ConfigFile.history h)⟩

/-- A failed redo drops the entry. -/
theorem redo_unchanged_iff : ((redo B now c).2 = none → (redo B now c).1 = c) ↔
    NewestDecodes B c.redo := by
  unfold redo
  apply unchanged_iff
  · intro hlast
    rw [hlast]
  · intro e d hlast hd
    simp only [hlast, hd]
  · intro e err hlast hd
    simp only [hlast, hd]
    exact ⟨trivial, fun h => dropLast_ne_self hlast (congrArg ConfigFile.redo h)⟩

/-- An undo or a redo that fails leaves the configuration as it was, the stacks included. -/
def FailsUnchanged (B : Bincode) (now : Clock) (c : ConfigFile) : Prop :=
  ((undo B now c).2 = none → (undo B now c).1 = c) ∧
    ((redo B now c).2 = none → (redo B now c).1 = c)

theorem failsUnchanged_iff (B : Bincode) (now : Clock) (c : ConfigFile) :
    FailsUnchanged B now c ↔ NewestDecodes B c.history ∧ NewestDecodes B c.redo :=
  and_congr (undo_unchanged_iff now) (redo_unchanged_iff now)

def emptySnapshot : HistoryEntry := ⟨0, "block shop", "blocked", [], "dashboard"⟩

/-- A configuration whose stacks hold an empty snapshot each, the one `encode_flat` makes
of an encoding that fails. -/
def emptySnapshots : ConfigFile :=
  { ConfigFile.default 0 with history := [emptySnapshot], redo := [emptySnapshot] }

/-- The undo moves the entry to the redo stack, the redo drops it. -/
theorem failsUnchanged_emptySnapshots :
    (undo standardBincode ⟨0, 0, 0⟩ emptySnapshots).2 = none ∧
    (undo standardBincode ⟨0, 0, 0⟩ emptySnapshots).1.history.length = 0 ∧
    (undo standardBincode ⟨0, 0, 0⟩ emptySnapshots).1.redo.length = 2 ∧
    (redo standardBincode ⟨0, 0, 0⟩ emptySnapshots).2 = none ∧
    (redo standardBincode ⟨0, 0, 0⟩ emptySnapshots).1.redo.length = 0 ∧
    ¬ FailsUnchanged standardBincode ⟨0, 0, 0⟩ emptySnapshots := by
  have hhistory : (undo standardBincode ⟨0, 0, 0⟩ emptySnapshots).1.history.length = 0 := by
    decide +kernel
  have hundo : (undo standardBincode ⟨0, 0, 0⟩ emptySnapshots).2 = none := by decide +kernel
  refine ⟨hundo, hhistory, by decide +kernel, by decide +kernel, by decide +kernel, fun h => ?_⟩
  rw [h.1 hundo] at hhistory
  exact absurd hhistory (by decide)

end XavierDB.Config
