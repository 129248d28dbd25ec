import XavierDB.Base.Run
import XavierDB.Config.Admin
import XavierDB.Config.Codec
import Mathlib.Data.List.Induction

/-!
# The safe ranges of a configuration (`src/config.rs`, `src/metrics.rs`, `src/auth.rs`)

Every operation clamps what it puts in force, except undo and redo, which
restore the snapshots as they are. The ranges hold in every state reached from a
loaded file if and only if no snapshot in it that is out of range can become the
next one to undo or redo.
-/

namespace XavierDB.Config

/-! ## Ranges -/

structure InRange (c : ConfigFile) : Prop where
  minLimit : 1 ≤ c.rateLimit.minLimit
  minMax : c.rateLimit.minLimit ≤ c.rateLimit.maxLimit
  maxLimit : c.rateLimit.maxLimit ≤ 10000
  tickSeconds : 1 ≤ c.rateLimit.tickSeconds ∧ c.rateLimit.tickSeconds ≤ 3600
  jwtTokenLifetimeMinutes : 1 ≤ c.global.jwtTokenLifetimeMinutes ∧
    c.global.jwtTokenLifetimeMinutes ≤ 43200
  sessionTtlHours : 1 ≤ c.auth.sessionTtlHours ∧ c.auth.sessionTtlHours ≤ 720
  cacheTtlSeconds : 1 ≤ c.health.cacheTtlSeconds ∧ c.health.cacheTtlSeconds ≤ 3600
  maxPerMinutePerIp : 1 ≤ c.auth.maxPerMinutePerIp ∧ c.auth.maxPerMinutePerIp ≤ 10000

theorem inRange_sanitize (c : ConfigFile) : InRange (sanitize c) := by
  have hmin := clamp_mem (by decide : (1 : UInt32) ≤ 10000) c.rateLimit.minLimit
  have hmax := max_limit_sanitized (a := c.rateLimit.maxLimit) hmin.2
  exact
    { minLimit := hmin.1
      minMax := hmax.1
      maxLimit := hmax.2.1
      tickSeconds := clamp_mem (by decide) _
      jwtTokenLifetimeMinutes := clamp_mem (by decide) _
      sessionTtlHours := clamp_mem (by decide) _
      cacheTtlSeconds := clamp_mem (by decide) _
      maxPerMinutePerIp := clamp_mem (by decide) _ }

theorem inRange_default (now : Int64) : InRange (.default now) :=
  sanitize_default now ▸ inRange_sanitize (.default now)

/-- The ranges depend on four groups of settings. -/
theorem InRange.congr {c c' : ConfigFile} (h : InRange c)
    (hrate : c'.rateLimit.minLimit = c.rateLimit.minLimit ∧
      c'.rateLimit.maxLimit = c.rateLimit.maxLimit ∧
      c'.rateLimit.tickSeconds = c.rateLimit.tickSeconds)
    (hglobal : c'.global = c.global) (hhealth : c'.health = c.health) (hauth : c'.auth = c.auth) :
    InRange c' := by
  obtain ⟨h1, h2, h3⟩ := hrate
  obtain ⟨i1, i2, i3, i4, i5, i6, i7, i8⟩ := h
  constructor <;> simp only [h1, h2, h3, hglobal, hhealth, hauth] <;> assumption

/-! ## What uses them -/

/-- The result of an `i64` operation, where it does not overflow. -/
def checkedI64 (i : Int) : Option Int := if -2 ^ 63 ≤ i ∧ i < 2 ^ 63 then some i else none

/-- `as i64`. -/
def asI64 (n : UInt64) : Int := if n.toNat < 2 ^ 63 then n.toNat else n.toNat - 2 ^ 64

/-- The expiry in `sign_jwt`. -/
def signJwtExp (now : Int) (lifetimeMinutes : UInt64) : Option Int :=
  (checkedI64 (asI64 lifetimeMinutes * 60)).bind fun seconds => checkedI64 (now + seconds)

/-- The expiry in `create_admin_session`. -/
def adminSessionExpires (nowMs : Int) (ttlHours : UInt64) : Option Int :=
  (checkedI64 (asI64 ttlHours * 3600)).bind fun seconds =>
    (checkedI64 (seconds * 1000)).bind fun ms => checkedI64 (nowMs + ms)

/-- The clamp of `metrics_loop`, which panics on an empty range. -/
def metricsClamp (c : ConfigFile) (enforced : UInt32) : Option UInt32 :=
  if c.rateLimit.minLimit ≤ c.rateLimit.maxLimit then
    some (clamp c.rateLimit.minLimit c.rateLimit.maxLimit enforced)
  else none

theorem checkedI64_of_mem {i : Int} (h1 : -2 ^ 63 ≤ i) (h2 : i < 2 ^ 63) :
    checkedI64 i = some i := if_pos ⟨h1, h2⟩

theorem asI64_of_le {n bound : UInt64} (h : n ≤ bound) (hb : bound.toNat < 2 ^ 63) :
    asI64 n = n.toNat ∧ n.toNat ≤ bound.toNat := by
  have hn := UInt64.le_iff_toNat_le.mp h
  exact ⟨if_pos (by omega), hn⟩

/-- In the ranges, and at a time before `2 ^ 62`, nothing that uses them panics. -/
structure Safe (c : ConfigFile) : Prop where
  inRange : InRange c
  metrics : ∀ enforced, metricsClamp c enforced ≠ none
  jwt : ∀ now : Int, 0 ≤ now → now < 2 ^ 62 →
    signJwtExp now c.global.jwtTokenLifetimeMinutes ≠ none
  session : ∀ nowMs : Int, 0 ≤ nowMs → nowMs < 2 ^ 62 →
    adminSessionExpires nowMs c.auth.sessionTtlHours ≠ none

theorem InRange.safe {c : ConfigFile} (h : InRange c) : Safe c where
  inRange := h
  metrics enforced := by
    unfold metricsClamp
    rw [if_pos h.minMax]
    exact Option.some_ne_none _
  jwt now h0 h62 := by
    obtain ⟨hcast, hle⟩ := asI64_of_le h.jwtTokenLifetimeMinutes.2 (by decide)
    have hb : (43200 : UInt64).toNat = 43200 := rfl
    unfold signJwtExp
    rw [hcast, checkedI64_of_mem (by omega) (by omega), Option.bind_some,
      checkedI64_of_mem (by omega) (by omega)]
    exact Option.some_ne_none _
  session nowMs h0 h62 := by
    obtain ⟨hcast, hle⟩ := asI64_of_le h.sessionTtlHours.2 (by decide)
    have hb : (720 : UInt64).toNat = 720 := rfl
    unfold adminSessionExpires
    rw [hcast, checkedI64_of_mem (by omega) (by omega), Option.bind_some,
      checkedI64_of_mem (by omega) (by omega), Option.bind_some,
      checkedI64_of_mem (by omega) (by omega)]
    exact Option.some_ne_none _

/-! ## Snapshots -/

section

variable (B : Bincode)

def Readable (e : HistoryEntry) : Prop := ∃ c, decode B e.snapshot = .ok c

/-- The snapshot decodes out of range. -/
def OutOfRange (e : HistoryEntry) : Prop := ∃ c, decode B e.snapshot = .ok c ∧ ¬ InRange c

/-- The entry after an entry out of range cannot be read, so a revert to it and
an undo of it fail. -/
def HistoryClean (l : List HistoryEntry) : Prop :=
  ∀ (j : Nat) e, l[j]? = some e → OutOfRange B e → ∃ e', l[j + 1]? = some e' ∧ ¬ Readable B e'

/-- Some entry above an entry out of range cannot be read, so redos end there. -/
def RedoClean (l : List HistoryEntry) : Prop :=
  ∀ (j : Nat) e, l[j]? = some e → OutOfRange B e →
    ∃ (k : Nat) (e' : HistoryEntry), j < k ∧ l[k]? = some e' ∧ ¬ Readable B e'

structure Clean (c : ConfigFile) : Prop where
  history : HistoryClean B c.history
  redo : RedoClean B c.redo

end

variable {B : Bincode} {crc : Bytes → UInt32} {l : List HistoryEntry} {e : HistoryEntry}

theorem HistoryClean.append (h : HistoryClean B l) (he : ¬ OutOfRange B e) :
    HistoryClean B (l ++ [e]) := by
  intro j e' hj hout
  rcases Nat.lt_or_ge j l.length with hlt | hge
  · rw [List.getElem?_append_left hlt] at hj
    obtain ⟨x, hx, hread⟩ := h j e' hj hout
    obtain ⟨hlt', -⟩ := List.getElem?_eq_some_iff.mp hx
    exact ⟨x, by rw [List.getElem?_append_left hlt']; exact hx, hread⟩
  · rw [List.getElem?_append_right hge] at hj
    have hx := List.mem_of_getElem? hj
    rw [List.mem_singleton] at hx
    exact absurd (hx ▸ hout) he

theorem HistoryClean.drop (h : HistoryClean B l) (n : Nat) : HistoryClean B (l.drop n) := by
  intro j e hj hout
  rw [List.getElem?_drop] at hj
  obtain ⟨x, hx, hread⟩ := h (n + j) e hj hout
  exact ⟨x, by rw [List.getElem?_drop]; exact hx, hread⟩

/-- The entries below one that can be read. -/
theorem HistoryClean.take (h : HistoryClean B l) {n : Nat} (hn : l[n]? = some e)
    (he : Readable B e) : HistoryClean B (l.take n) := by
  intro j e' hj hout
  have hlt : j < n := by
    have := (List.getElem?_eq_some_iff.mp hj).1
    rw [List.length_take] at this
    omega
  rw [List.getElem?_take_of_lt hlt] at hj
  obtain ⟨x, hx, hread⟩ := h j e' hj hout
  have hne : j + 1 ≠ n := by
    intro heq
    rw [heq, hn] at hx
    exact hread (Option.some.inj hx ▸ he)
  exact ⟨x, by rw [List.getElem?_take_of_lt (by omega)]; exact hx, hread⟩

/-- The last entry is in range if it can be read. -/
theorem HistoryClean.getLast? (h : HistoryClean B l) (he : l.getLast? = some e) :
    ¬ OutOfRange B e := by
  intro hout
  rw [List.getLast?_eq_getElem?] at he
  obtain ⟨x, hx, -⟩ := h (l.length - 1) e he hout
  have hlt := (List.getElem?_eq_some_iff.mp hx).1
  omega

theorem RedoClean.append (h : RedoClean B l) (he : ¬ OutOfRange B e) :
    RedoClean B (l ++ [e]) := by
  intro j e' hj hout
  rcases Nat.lt_or_ge j l.length with hlt | hge
  · rw [List.getElem?_append_left hlt] at hj
    obtain ⟨k, x, hk, hx, hread⟩ := h j e' hj hout
    obtain ⟨hlt', -⟩ := List.getElem?_eq_some_iff.mp hx
    exact ⟨k, x, hk, by rw [List.getElem?_append_left hlt']; exact hx, hread⟩
  · rw [List.getElem?_append_right hge] at hj
    have hx := List.mem_of_getElem? hj
    rw [List.mem_singleton] at hx
    exact absurd (hx ▸ hout) he

theorem RedoClean.getLast? (h : RedoClean B l) (he : l.getLast? = some e) :
    ¬ OutOfRange B e := by
  intro hout
  rw [List.getLast?_eq_getElem?] at he
  obtain ⟨k, x, hk, hx, -⟩ := h (l.length - 1) e he hout
  have hlt := (List.getElem?_eq_some_iff.mp hx).1
  omega

theorem RedoClean.dropLast (h : RedoClean B l) (he : l.getLast? = some e) (hread : Readable B e) :
    RedoClean B l.dropLast := by
  intro j e' hj hout
  rw [List.dropLast_eq_take] at hj ⊢
  have hlt : j < l.length - 1 := by
    have := (List.getElem?_eq_some_iff.mp hj).1
    rw [List.length_take] at this
    omega
  rw [List.getElem?_take_of_lt hlt] at hj
  obtain ⟨k, x, hk, hx, hunread⟩ := h j e' hj hout
  have hkl := (List.getElem?_eq_some_iff.mp hx).1
  have hne : k ≠ l.length - 1 := by
    intro heq
    rw [List.getLast?_eq_getElem?, ← heq, hx] at he
    exact hunread (Option.some.inj he ▸ hread)
  exact ⟨k, x, hk, by rw [List.getElem?_take_of_lt (by omega)]; exact hx, hunread⟩

/-- A snapshot of a configuration in range is in range. -/
theorem InRange.entry {c : ConfigFile} (h : InRange c) {ts : Int64} {desc path who : String} :
    ¬ OutOfRange B ⟨ts, desc, path, encodeFlat B c, who⟩ := by
  rintro ⟨c', hc', hout⟩
  rw [decode_encodeFlat] at hc'
  obtain rfl := Except.ok.inj hc'
  exact hout (h.congr ⟨rfl, rfl, rfl⟩ rfl rfl rfl)

/-! ## Steps -/

/-- In range, with no snapshot out of range that undo or redo could restore. -/
structure Sound (B : Bincode) (c : ConfigFile) : Prop where
  inRange : InRange c
  clean : Clean B c

variable {now : Clock} {c c' : ConfigFile}

theorem Sound.apply (now : Clock) (h : Sound B c) {new : ConfigFile} (hnew : InRange new)
    (desc path who : String) : Sound B (apply B now c new desc path who) := by
  have hhist : HistoryClean B (Config.apply B now c new desc path who).history := by
    unfold Config.apply capHistory
    apply HistoryClean.drop
    exact h.clean.history.append h.inRange.entry
  have hredo : RedoClean B (Config.apply B now c new desc path who).redo := by
    intro j e hj
    cases hj
  exact ⟨hnew.congr ⟨rfl, rfl, rfl⟩ rfl rfl rfl, ⟨hhist, hredo⟩⟩

theorem Sound.configChange (h : Sound B c) {ch : Change} {ed : Edit} (hed : ch.edit = .ok ed) :
    Sound B (configChange B now c ed) := by
  have happ := h.apply now h.inRange ed.desc ed.path "dashboard"
  unfold Config.configChange
  generalize Config.apply B now c c ed.desc ed.path "dashboard" = a at happ
  obtain ⟨blocked, weights, heq⟩ := change_frame ch a
  rw [change_of_edit hed, heq]
  exact ⟨happ.inRange.congr ⟨rfl, rfl, rfl⟩ rfl rfl rfl, ⟨happ.clean.history, happ.clean.redo⟩⟩

theorem Sound.undo (h : Sound B c) {e : HistoryEntry} (hu : undo B now c = (c', some e)) :
    Sound B c' := by
  unfold Config.undo at hu
  split at hu
  · cases hu
  case h_2 entry hlast =>
    split at hu
    case h_1 prev hprev =>
      cases hu
      have hin : InRange prev := by
        by_contra hout
        exact h.clean.history.getLast? hlast ⟨prev, hprev, hout⟩
      rw [List.getLast?_eq_getElem?] at hlast
      exact
        { inRange := hin.congr ⟨rfl, rfl, rfl⟩ rfl rfl rfl
          clean :=
            { history := by
                show HistoryClean B c.history.dropLast
                rw [List.dropLast_eq_take]
                exact h.clean.history.take hlast ⟨prev, hprev⟩
              redo := h.clean.redo.append h.inRange.entry } }
    · cases hu

theorem Sound.redo (h : Sound B c) {e : HistoryEntry} (hr : redo B now c = (c', some e)) :
    Sound B c' := by
  unfold Config.redo at hr
  split at hr
  · cases hr
  case h_2 entry hlast =>
    split at hr
    case h_1 next hnext =>
      cases hr
      have hin : InRange next := by
        by_contra hout
        exact h.clean.redo.getLast? hlast ⟨next, hnext, hout⟩
      exact
        { inRange := hin.congr ⟨rfl, rfl, rfl⟩ rfl rfl rfl
          clean :=
            { history := h.clean.history.append h.inRange.entry
              redo := h.clean.redo.dropLast hlast ⟨next, hnext⟩ } }
    · cases hr

theorem Sound.revert (h : Sound B c) {index : Nat} (hr : revert B now c index = .ok c') :
    Sound B c' := by
  unfold Config.revert at hr
  split at hr
  · cases hr
  case isFalse hidx =>
    split at hr
    · cases hr
    case h_2 prev hprev =>
      cases hr
      exact
        { inRange := (inRange_sanitize prev).congr ⟨rfl, rfl, rfl⟩ rfl rfl rfl
          clean :=
            { history := h.clean.history.take
                (List.getElem?_eq_getElem (by omega)) ⟨prev, hprev⟩
              redo := by
                intro j e hj
                cases hj } }

theorem Sound.saveConfig (h : Sound B c) {new : ConfigFile} (hnew : Sound B new) (a : Action)
    (reply : Reply) : Sound B (saveConfig B crc a c new reply).1 := by
  rcases @saveConfig_cases B crc a c new reply with heq | heq
  · rw [heq]
    exact hnew
  · rw [heq]
    exact h

theorem inRange_loadFromDisk (now : Int64) (writeErr : Option String) (f : Files) :
    InRange (loadFromDisk B crc now writeErr f).1 := by
  unfold loadFromDisk
  split
  · exact inRange_sanitize _
  · split
    · exact inRange_default now
    · exact inRange_default now

/-- A reload finds no snapshot out of range that undo or redo could restore. -/
def LoadsClean (B : Bincode) (crc : Bytes → UInt32) (_ : ConfigFile) (a : Action) : Prop :=
  ∀ files, a.req = .configReload files →
    Clean B (loadFromDisk B crc a.now.createdAt a.writeErr files).1

theorem Sound.next (h : Sound B c) {a : Action} (ha : LoadsClean B crc c a) :
    Sound B (next B crc c a) := by
  obtain ⟨req, now, writeErr⟩ := a
  unfold Config.next handle
  cases req with
  | configSave new => exact h.saveConfig (h.apply now (inRange_sanitize new) _ _ _) _ _
  | configImport new => exact h.saveConfig (h.apply now (inRange_sanitize new) _ _ _) _ _
  | configReset => exact h.saveConfig (h.apply now (inRange_default _) _ _ _) _ _
  | configRevert index =>
    dsimp only
    split
    · exact h
    case h_2 prev hprev => exact h.saveConfig (h.revert hprev) _ _
  | configUndo =>
    dsimp only
    split
    · exact h
    case h_2 prev e hprev => exact h.saveConfig (h.undo hprev) _ _
  | configRedo =>
    dsimp only
    split
    · exact h
    case h_2 prev e hprev => exact h.saveConfig (h.redo hprev) _ _
  | configReload files => exact ⟨inRange_loadFromDisk _ _ _, ha files rfl⟩
  | change ch =>
    dsimp only
    split
    · exact h
    case h_2 ed hed => exact h.saveConfig (h.configChange hed) _ _

/-! ## Runs out of the ranges -/

theorem next_undo (crc : Bytes → UInt32) {prev : ConfigFile} {e : HistoryEntry} (hlast : c.history.getLast? = some e)
    (he : decode B e.snapshot = .ok prev) :
    ∃ history redo, next B crc c (act .configUndo) =
      { prev with history := history, redo := redo, lastModified := 0 } := by
  simp only [next, handle, act, undo, hlast, he, saveConfig_eq]
  exact ⟨_, _, rfl⟩

theorem next_redo (crc : Bytes → UInt32) {next' : ConfigFile} {e : HistoryEntry} (hlast : c.redo.getLast? = some e)
    (he : decode B e.snapshot = .ok next') :
    ∃ history, next B crc c (act .configRedo) =
      { next' with history := history, redo := c.redo.dropLast, lastModified := 0 } := by
  simp only [next, handle, act, redo, hlast, he, saveConfig_eq]
  exact ⟨_, rfl⟩

theorem next_revert (crc : Bytes → UInt32) {prev : ConfigFile} {e : HistoryEntry} {j : Nat}
    (hj : c.history[j]? = some e) (he : decode B e.snapshot = .ok prev) :
    (next B crc c (act (.configRevert (c.history.length - 1 - j)))).history =
      c.history.take j := by
  obtain ⟨hlt, heq⟩ := List.getElem?_eq_some_iff.mp hj
  have hidx : c.history.length - 1 - (c.history.length - 1 - j) = j := by omega
  have hrev : revert B ⟨0, 0, 0⟩ c (c.history.length - 1 - j) =
      .ok { sanitize prev with
        history := c.history.take j, redo := [], lastModified := 0 } := by
    unfold revert
    rw [dif_neg (by omega)]
    simp only [hidx, List.get_eq_getElem, heq, he]
  simp only [next, handle, act, hrev, saveConfig_eq]

/-- Redos go down the stack as long as they can read it. -/
theorem exists_redos {e : HistoryEntry} {post : List HistoryEntry} (hout : OutOfRange B e)
    (hpost : ∀ x ∈ post, Readable B x) (r : List HistoryEntry) (c : ConfigFile)
    (hc : c.redo = r ++ e :: post) :
    ¬ InRange ((List.replicate (post.length + 1) (act .configRedo)).foldl (next B crc) c) := by
  induction post using List.reverseRecOn generalizing c with
  | nil =>
    obtain ⟨prev, hprev, hno⟩ := hout
    obtain ⟨history, heq⟩ := next_redo crc (c := c) (e := e)
      (by rw [hc, List.getLast?_append]; rfl) hprev
    intro hin
    rw [List.length_nil, Nat.zero_add, List.replicate_one, List.foldl_cons, List.foldl_nil,
      heq] at hin
    exact hno (hin.congr ⟨rfl, rfl, rfl⟩ rfl rfl rfl)
  | append_singleton post x ih =>
    obtain ⟨prev, hprev⟩ := hpost x (by simp)
    have hlast : c.redo.getLast? = some x := by
      rw [hc, ← List.cons_append, ← List.append_assoc, List.getLast?_concat]
    obtain ⟨history, heq⟩ := next_redo crc hlast hprev
    have hredo : (next B crc c (act .configRedo)).redo = r ++ e :: post := by
      rw [heq, hc, ← List.cons_append, ← List.append_assoc, List.dropLast_concat]
    rw [List.length_append, List.length_singleton, List.replicate_succ, List.foldl_cons]
    exact ih (fun y hy => hpost y (by simp [hy])) _ hredo

/-- An undo that restores a snapshot out of range. -/
theorem OutOfRange.undo {e : HistoryEntry} (hout : OutOfRange B e)
    (hlast : c.history.getLast? = some e) : ¬ InRange (next B crc c (act .configUndo)) := by
  obtain ⟨prev, hprev, hno⟩ := hout
  obtain ⟨history, redo, heq⟩ := next_undo crc hlast hprev
  rw [heq]
  exact fun hin => hno (hin.congr ⟨rfl, rfl, rfl⟩ rfl rfl rfl)

theorem loadsClean_act {req : Request} (h : ∀ files, req ≠ .configReload files) (c : ConfigFile) :
    LoadsClean B crc c (act req) := fun files hreq => absurd hreq (h files)

theorem along_replicate_redo (n : Nat) (c : ConfigFile) :
    Run.Along (next B crc) (LoadsClean B crc) c (List.replicate n (act .configRedo)) := by
  induction n generalizing c with
  | zero => trivial
  | succ n ih => exact ⟨loadsClean_act (by intro files h; cases h) c, ih _⟩

/-- If the ranges hold in every run, no snapshot out of range can be restored. -/
theorem clean_of_forall_inRange
    (h : ∀ acts, Run.Along (next B crc) (LoadsClean B crc) c acts →
      InRange (acts.foldl (next B crc) c)) : Clean B c where
  history := by
    intro j e hj hout
    by_contra hno
    cases hsucc : c.history[j + 1]? with
    | none =>
      have hlast : c.history.getLast? = some e := by
        have hlt := (List.getElem?_eq_some_iff.mp hj).1
        have hge := List.getElem?_eq_none_iff.mp hsucc
        rw [List.getLast?_eq_getElem?, ← hj]
        congr 1
        omega
      exact hout.undo hlast
        (h [act .configUndo] ⟨loadsClean_act (by intro files h; cases h) c, trivial⟩)
    | some e' =>
      -- a revert to the entry above makes it the newest
      have hread : Readable B e' := by
        by_contra hunread
        exact hno ⟨e', hsucc, hunread⟩
      obtain ⟨prev, hprev⟩ := hread
      have hrev := next_revert crc hsucc hprev
      have hlast : (c.history.take (j + 1)).getLast? = some e := by
        have hlt := (List.getElem?_eq_some_iff.mp hsucc).1
        rw [List.getLast?_eq_getElem?, List.length_take, Nat.min_eq_left (by omega),
          Nat.add_sub_cancel, List.getElem?_take_of_lt (Nat.lt_succ_self j), hj]
      rw [← hrev] at hlast
      exact hout.undo hlast (h [act (.configRevert _), act .configUndo]
        ⟨loadsClean_act (by intro files h; cases h) c,
          loadsClean_act (by intro files h; cases h) _, trivial⟩)
  redo := by
    intro j e hj hout
    by_contra hno
    obtain ⟨hlt, heq⟩ := List.getElem?_eq_some_iff.mp hj
    have hsplit : c.redo = c.redo.take j ++ e :: c.redo.drop (j + 1) := by
      rw [← heq, ← List.drop_eq_getElem_cons hlt, List.take_append_drop]
    have hpost : ∀ x ∈ c.redo.drop (j + 1), Readable B x := by
      intro x hx
      obtain ⟨k, hk⟩ := List.mem_iff_getElem?.mp hx
      rw [List.getElem?_drop] at hk
      by_contra hunread
      exact hno ⟨j + 1 + k, x, by omega, hk, hunread⟩
    exact exists_redos hout hpost _ c hsplit (h _ (along_replicate_redo _ c))

/-- From a loaded file every state stays in its safe ranges, whatever the
requests, if and only if the file has no snapshot out of range that undo or redo
could restore. -/
theorem reachable_safe_iff (now : Int64) (writeErr : Option String) (files : Files) :
    (∀ acts, Run.Along (next B crc) (LoadsClean B crc) (loadFromDisk B crc now writeErr files).1
        acts → Safe (acts.foldl (next B crc) (loadFromDisk B crc now writeErr files).1)) ↔
      Clean B (loadFromDisk B crc now writeErr files).1 := by
  constructor
  · intro h
    exact clean_of_forall_inRange fun acts hacts => (h acts hacts).inRange
  · intro hclean acts hacts
    have hstep : ∀ c a, Sound B c → LoadsClean B crc c a → Sound B (next B crc c a) :=
      fun _ _ h ha => h.next ha
    have hsound := Run.foldl_inv hstep ⟨inRange_loadFromDisk now writeErr files, hclean⟩ hacts
    exact hsound.inRange.safe

/-- What the server writes can be loaded again. -/
theorem Sound.clean_reload (h : Sound B c) (hv : c.version = configVersion) (hfits : Fits B c)
    (f : Files) (now : Int64) (writeErr : Option String) :
    Clean B (loadFromDisk B crc now writeErr (saveToDisk B crc none f c).1).1 := by
  rw [loadFromDisk_saveToDisk hv hfits]
  exact ⟨h.clean.history, h.clean.redo⟩

/-! ## A file with a snapshot out of range -/

def spoiledRates : RateLimitCfg := { RateLimitCfg.default with minLimit := 500, maxLimit := 100 }

def spoiledEntry : HistoryEntry :=
  ⟨0, "config edited from dashboard", "config",
    encodeFlat standardBincode { ConfigFile.default 0 with rateLimit := spoiledRates },
    "dashboard"⟩

def spoiled : ConfigFile := { ConfigFile.default 0 with history := [spoiledEntry] }

/-- The one file of a fresh directory. -/
def spoiledFiles : Files :=
  (saveToDisk standardBincode crc32 none ⟨none, [none, none, none, none, none]⟩ spoiled).1

theorem load_spoiledFiles :
    loadFromDisk standardBincode crc32 0 none spoiledFiles = (sanitize spoiled, none) := by
  apply loadFromDisk_saveToDisk
  · rfl
  · intro payload h
    cases h
    decide +kernel

/-- The file loads, the undo succeeds, and the next tick panics. -/
theorem undo_spoiledFiles :
    (loadFromDisk standardBincode crc32 0 none spoiledFiles).2 = none ∧
    (handle standardBincode crc32 (loadFromDisk standardBincode crc32 0 none spoiledFiles).1
      (act .configUndo)).2 = .did true ∧
    metricsClamp (next standardBincode crc32
      (loadFromDisk standardBincode crc32 0 none spoiledFiles).1 (act .configUndo)) 1 = none ∧
    ¬ InRange (next standardBincode crc32
      (loadFromDisk standardBincode crc32 0 none spoiledFiles).1 (act .configUndo)) := by
  rw [load_spoiledFiles]
  refine ⟨rfl, by decide +kernel, by decide +kernel, fun h => ?_⟩
  exact absurd h.minMax (by decide +kernel)

end XavierDB.Config
