import Mathlib.Data.List.Induction
import Mathlib.Logic.Function.Basic
import XavierDB.Base.Run

/-!
# Debounced reloads of several files

Each place has a watcher, which waits until the events of its file have stopped for a while and
then reads all the files, one after the other, to make something that is served from then on.
Files change at any time, and the watchers work side by side. A watcher watches the file that it
found at its place, and only that one: when another file takes the place, its changes are no
events. As long as no reload takes as long as the wait, what is served once all is quiet was made
of the files as they are, if the last change was an event.
-/

namespace XavierDB.Debounce

open Run

/-- What becomes of a reload with the contents it has read so far. -/
inductive Verdict (R : Type) where
  | more
  | fail
  | done (r : R)

structure System (ι V R : Type) where
  /-- how long a watcher waits -/
  debounce : ℕ
  /-- the files in the order in which a reload reads them -/
  order : ℕ → ι
  verdict : List V → Verdict R

structure Reload (V : Type) where
  started : ℕ
  seen : List V

/-- Whether a watcher watches the file at its place. -/
inductive Watch where
  | notYet
  | here
  /-- it could not watch, or another file has taken the place -/
  | gone
  deriving DecidableEq

structure Watcher (V : Type) where
  watch : Watch
  /-- the events it has not received, by whether they are relevant -/
  events : List Bool
  pending : Bool
  /-- when it received the last relevant one -/
  last : ℕ
  reload : Option (Reload V)

structure State (ι V R : Type) where
  files : ι → V
  watchers : ι → Watcher V
  served : R
  now : ℕ

inductive Act (ι V : Type) where
  /-- a watcher is told to watch, which works or not -/
  | watch (i : ι) (ok : Bool)
  /-- a file changes where it is -/
  | write (i : ι) (v : V)
  /-- another file takes the place: one that is moved there is an event of the file that was
  there, a link that is turned to it is none -/
  | replace (i : ι) (v : V) (told : Bool)
  /-- an event without a change -/
  | notify (i : ι) (relevant : Bool)
  | receive (i : ι)
  | timeout (i : ι)
  /-- the next step of a watcher's reload -/
  | work (i : ι)

/-! ## Reads of files that stay as they are -/

variable {ι V R : Type} {S : System ι V R} {files : ι → V} {r : R}

/-- The first so many contents that a reload reads. -/
def System.reads (S : System ι V R) (files : ι → V) (n : ℕ) : List V :=
  (List.range n).map fun k => files (S.order k)

/-- These files make this. -/
def System.Loads (S : System ι V R) (files : ι → V) (r : R) : Prop :=
  ∃ n, S.verdict (S.reads files n) = .done r ∧ ∀ m < n, S.verdict (S.reads files m) = .more

/-- A reload that has read nothing but what is there. -/
def System.Fresh (S : System ι V R) (files : ι → V) (seen : List V) : Prop :=
  seen = S.reads files seen.length ∧ ∀ m < seen.length, S.verdict (S.reads files m) = .more

theorem fresh_nil : S.Fresh files [] := ⟨rfl, nofun⟩

theorem fresh_concat {seen : List V} (h : S.Fresh files seen) (hmore : S.verdict seen = .more) :
    S.Fresh files (seen ++ [files (S.order seen.length)]) := by
  constructor
  · rw [List.length_append, List.length_singleton, System.reads, List.range_succ, List.map_append,
      ← System.reads, ← h.1, List.map_singleton]
  · intro m hm
    rw [List.length_append, List.length_singleton] at hm
    rcases Nat.lt_succ_iff_lt_or_eq.mp hm with hlt | rfl
    · exact h.2 m hlt
    · rwa [← h.1]

theorem System.Loads.fresh (h : S.Loads files r) : ∃ seen, S.Fresh files seen ∧
    S.verdict seen = .done r := by
  obtain ⟨n, hdone, hmore⟩ := h
  have hlength : (S.reads files n).length = n := by simp [System.reads]
  exact ⟨S.reads files n, ⟨by rw [hlength], by rwa [hlength]⟩, hdone⟩

/-- A fresh reload comes to what the files make. -/
theorem verdict_of_fresh {seen : List V} (h : S.Fresh files seen) (hr : S.Loads files r) :
    S.verdict seen = .more ∨ S.verdict seen = .done r := by
  obtain ⟨n, hdone, hmore⟩ := hr
  rw [h.1]
  rcases Nat.lt_trichotomy seen.length n with hlt | heq | hgt
  · exact .inl (hmore _ hlt)
  · exact .inr (heq ▸ hdone)
  · have hm := h.2 n hgt
    rw [hdone] at hm
    cases hm

theorem System.Loads.unique {r' : R} (h : S.Loads files r) (h' : S.Loads files r') : r = r' := by
  obtain ⟨seen, hfresh, hdone⟩ := h.fresh
  rcases verdict_of_fresh hfresh h' with hv | hv <;> rw [hdone] at hv <;> cases hv
  rfl

/-! ## Steps -/

def Watcher.notified (w : Watcher V) (relevant : Bool) : Watcher V :=
  { w with events := w.events ++ [relevant] }

/-- Watching begins once. -/
def Watcher.begin (w : Watcher V) (ok : Bool) : Watcher V :=
  match w.watch with
  | .notYet => { w with watch := if ok then .here else .gone }
  | _ => w

/-- A change is an event if the watcher watches and is told of it. -/
def Watcher.changed (w : Watcher V) (told : Bool) : Watcher V :=
  if w.watch = .here ∧ told then w.notified true else w

/-- What the watcher watches is no longer at its place. -/
def Watcher.replaced (w : Watcher V) : Watcher V :=
  if w.watch = .here then { w with watch := .gone } else w

/-- A watcher takes its next event, unless it is in a reload. -/
def Watcher.receive (w : Watcher V) (now : ℕ) : Watcher V :=
  match w.reload, w.events with
  | none, relevant :: events =>
    { w with events, pending := w.pending || relevant, last := if relevant then now else w.last }
  | _, _ => w

/-- A reload starts when something is pending and the wait is over. -/
def System.timeout (S : System ι V R) (w : Watcher V) (now : ℕ) : Watcher V :=
  if w.reload.isNone ∧ w.pending ∧ S.debounce ≤ now - w.last then
    { w with pending := false, reload := some ⟨now, []⟩ }
  else w

section

variable [DecidableEq ι]

def State.put (s : State ι V R) (i : ι) (w : Watcher V) : State ι V R :=
  { s with watchers := Function.update s.watchers i w }

def State.change (s : State ι V R) (i : ι) (v : V) (w : Watcher V) : State ι V R :=
  { s.put i w with files := Function.update s.files i v }

/-- A reload reads the next file, or is done. -/
def System.work (S : System ι V R) (s : State ι V R) (i : ι) : State ι V R :=
  let w := s.watchers i
  match w.reload with
  | none => s
  | some re =>
    match S.verdict re.seen with
    | .more =>
      s.put i { w with reload := some ⟨re.started, re.seen ++ [s.files (S.order re.seen.length)]⟩ }
    | .fail => s.put i { w with reload := none }
    | .done r => { s.put i { w with reload := none } with served := r }

def System.act (S : System ι V R) (s : State ι V R) : Act ι V → State ι V R
  | .watch i ok => s.put i ((s.watchers i).begin ok)
  | .write i v => s.change i v ((s.watchers i).changed true)
  | .replace i v told => s.change i v ((s.watchers i).changed told).replaced
  | .notify i relevant => s.put i ((s.watchers i).notified relevant)
  | .receive i => s.put i ((s.watchers i).receive s.now)
  | .timeout i => s.put i (S.timeout (s.watchers i) s.now)
  | .work i => S.work s i

/-- A step some time after the one before. -/
def System.step (S : System ι V R) (s : State ι V R) (a : ℕ × Act ι V) : State ι V R :=
  S.act { s with now := s.now + a.1 } a.2

/-- At every step the reloads under way are younger than the wait. -/
def System.Prompt (S : System ι V R) (s : State ι V R) (a : ℕ × Act ι V) : Prop :=
  ∀ i re, (s.watchers i).reload = some re → s.now + a.1 < re.started + S.debounce

/-- The change of a file or of which file it is. -/
def Act.changes : Act ι V → Bool
  | .write _ _ | .replace _ _ _ => true
  | _ => false

/-- The watcher gets an event of the change. -/
def State.Tells (s : State ι V R) : Act ι V → Prop
  | .write i _ => (s.watchers i).watch = .here
  | .replace i _ told => (s.watchers i).watch = .here ∧ told = true
  | _ => False

/-- The last change in a run, if there is one, was an event. -/
def System.LastTold (S : System ι V R) (s : State ι V R) (acts : List (ℕ × Act ι V)) : Prop :=
  ∀ pre a post, acts = pre ++ a :: post → a.2.changes = true →
    (∀ b ∈ post, b.2.changes = false) → (pre.foldl S.step s).Tells a.2

/-- No event: what changes is not the file that is watched. -/
def State.Unseen (s : State ι V R) : Act ι V → Prop
  | .write i _ | .replace i _ _ => (s.watchers i).watch = .gone
  | .notify _ relevant => relevant = false
  | _ => True

end

/-! ## The invariant -/

/-- The watcher starts a reload some time after this, as it has an event of it. -/
def Watcher.Owes (w : Watcher V) (t : ℕ) : Prop := true ∈ w.events ∨ w.pending = true ∧ t ≤ w.last

/-- A reload is still to come, and those started after its event are fresh. -/
def System.Owing (S : System ι V R) (s : State ι V R) : Prop :=
  ∃ i t, t ≤ s.now ∧ (s.watchers i).Owes t ∧
    ∀ j re, (s.watchers j).reload = some re → t < re.started → S.Fresh s.files re.seen

/-- All reloads are fresh, and one is under way or has come to its end. -/
def System.Settled (S : System ι V R) (s : State ι V R) : Prop :=
  (∀ j re, (s.watchers j).reload = some re → S.Fresh s.files re.seen) ∧
    ((∃ i re, (s.watchers i).reload = some re) ∨ ∀ r, S.Loads s.files r → s.served = r)

def State.Started (s : State ι V R) : Prop :=
  ∀ i re, (s.watchers i).reload = some re → re.started ≤ s.now

structure System.Inv (S : System ι V R) (s : State ι V R) : Prop where
  started : s.Started
  current : S.Owing s ∨ S.Settled s

/-- Nothing is under way, and nothing will be. -/
def State.Quiet (s : State ι V R) : Prop :=
  ∀ i, true ∉ (s.watchers i).events ∧ (s.watchers i).pending = false ∧ (s.watchers i).reload = none

variable {w : Watcher V} {s : State ι V R} {i : ι} {t now : ℕ}

theorem System.Inv.start (hreload : ∀ i, (s.watchers i).reload = none)
    (hserved : S.Loads s.files s.served) : S.Inv s := by
  have hnone : ∀ {P : Reload V → Prop} i re, (s.watchers i).reload = some re → P re := by
    intro P i re hre
    rw [hreload i] at hre
    cases hre
  exact ⟨hnone, .inr ⟨hnone, .inr fun r hr => hserved.unique hr⟩⟩

theorem System.Inv.served_of_quiet (h : S.Inv s) (hquiet : s.Quiet) (hr : S.Loads s.files r) :
    s.served = r := by
  obtain ⟨i, t, -, howes, -⟩ | ⟨-, ⟨i, re, hre⟩ | hserved⟩ := h.current
  · obtain ⟨hevents, hpending, -⟩ := hquiet i
    rcases howes with hmem | ⟨hp, -⟩
    · exact absurd hmem hevents
    · rw [hpending] at hp
      cases hp
  · rw [(hquiet i).2.2] at hre
    cases hre
  · exact hserved r hr

theorem Watcher.owes_receive (h : w.Owes t) (ht : t ≤ now) : (w.receive now).Owes t := by
  unfold Watcher.receive
  split
  case h_1 relevant events _ hevents =>
    cases relevant with
    | true => exact .inr ⟨Bool.or_true _, ht⟩
    | false => simpa [Watcher.Owes, hevents] using h
  case h_2 => exact h

theorem Watcher.reload_receive : (w.receive now).reload = w.reload := by
  unfold Watcher.receive
  split <;> rfl

@[simp] theorem Watcher.reload_begin (ok : Bool) : (w.begin ok).reload = w.reload := by
  unfold Watcher.begin
  split <;> rfl

@[simp] theorem Watcher.reload_changed (told : Bool) : (w.changed told).reload = w.reload := by
  unfold Watcher.changed
  split <;> rfl

@[simp] theorem Watcher.reload_replaced : w.replaced.reload = w.reload := by
  unfold Watcher.replaced
  split <;> rfl

@[simp] theorem Watcher.events_replaced : w.replaced.events = w.events := by
  unfold Watcher.replaced
  split <;> rfl

theorem Watcher.owes_begin {ok : Bool} (h : w.Owes t) : (w.begin ok).Owes t := by
  unfold Watcher.begin
  split <;> exact h

theorem Watcher.events_changed (hwatch : w.watch = .here) : true ∈ (w.changed true).events := by
  simp [Watcher.changed, hwatch, Watcher.notified]

theorem Watcher.owes_notified {relevant : Bool} (h : w.Owes t) : (w.notified relevant).Owes t :=
  h.imp_left fun hmem => List.mem_append_left _ hmem

/-- A watcher that waited long enough starts a reload; else nothing happens. -/
theorem timeout_cases : S.timeout w now = w ∨ S.debounce ≤ now - w.last ∧ w.reload = none ∧
    S.timeout w now = { w with pending := false, reload := some ⟨now, []⟩ } := by
  unfold System.timeout
  split
  case isTrue h => exact .inr ⟨h.2.2, Option.isNone_iff_eq_none.mp h.1, rfl⟩
  case isFalse => exact .inl rfl

/-! ## Steps keep the invariant -/

variable [DecidableEq ι] {w' : Watcher V}

@[simp] theorem watchers_put (j : ι) :
    (s.put i w).watchers j = if j = i then w else s.watchers j := by
  simp [State.put, Function.update_apply]

/-- What holds of a watcher's new reload and of those there were. -/
theorem forall_reload_put {P : Reload V → Prop} (hw : ∀ re, w.reload = some re → P re)
    (h : ∀ j re, (s.watchers j).reload = some re → P re) (j : ι) (re : Reload V)
    (hre : ((s.put i w).watchers j).reload = some re) : P re := by
  rw [watchers_put] at hre
  split at hre
  · exact hw re hre
  · exact h j re hre

/-- A watcher that owes what it owed, with a reload that is fresh if it has to be. -/
theorem System.Owing.put (h : S.Owing s) (howes : ∀ t ≤ s.now, (s.watchers i).Owes t → w.Owes t)
    (hw : ∀ t, (∀ re, (s.watchers i).reload = some re → t < re.started → S.Fresh s.files re.seen) →
      ∀ re, w.reload = some re → t < re.started → S.Fresh s.files re.seen) :
    S.Owing (s.put i w) := by
  obtain ⟨j, t, ht, hj, hfresh⟩ := h
  refine ⟨j, t, ht, ?_, forall_reload_put (hw t (hfresh i)) hfresh⟩
  rw [watchers_put]
  split
  case isTrue heq => exact howes t ht (heq ▸ hj)
  case isFalse => exact hj

/-- A watcher that keeps its reload and what it owes. -/
theorem System.Inv.keep (h : S.Inv s) (hreload : w.reload = (s.watchers i).reload)
    (howes : ∀ t ≤ s.now, (s.watchers i).Owes t → w.Owes t) : S.Inv (s.put i w) := by
  have hw : ∀ {P : Reload V → Prop}, (∀ j re, (s.watchers j).reload = some re → P re) →
      ∀ re, w.reload = some re → P re := fun hold re hre => hold i re (hreload ▸ hre)
  refine ⟨forall_reload_put (hw h.started) h.started, h.current.imp (fun howing => ?_) ?_⟩
  · exact howing.put howes fun t hold re hre => hold re (hreload ▸ hre)
  · rintro ⟨hfresh, hend⟩
    refine ⟨forall_reload_put (hw hfresh) hfresh, hend.imp_left ?_⟩
    rintro ⟨j, re, hre⟩
    refine ⟨j, re, ?_⟩
    rw [watchers_put]
    split
    case isTrue heq => rw [hreload, ← heq, hre]
    case isFalse => exact hre

/-- Only changes change files. -/
theorem files_step (a : ℕ × Act ι V) : (S.step s a).files =
    match a.2 with
    | .write i v | .replace i v _ => Function.update s.files i v
    | _ => s.files := by
  obtain ⟨n, a⟩ := a
  cases a with
  | watch i ok => rfl
  | write i v => rfl
  | replace i v told => rfl
  | notify i relevant => rfl
  | receive i => rfl
  | timeout i => rfl
  | work i =>
    show (S.work { s with now := s.now + n } i).files = s.files
    unfold System.work
    dsimp only
    split
    · rfl
    · split <;> rfl

/-- A reload that starts starts now. -/
theorem State.Started.act (h : s.Started) (a : Act ι V) : (S.act s a).Started := by
  cases a with
  | watch i ok => exact forall_reload_put (fun re hre => h i re (by simpa using hre)) h
  | write i v => exact forall_reload_put (s := s) (fun re hre => h i re (by simpa using hre)) h
  | replace i v told =>
    exact forall_reload_put (s := s) (fun re hre => h i re (by simpa using hre)) h
  | notify i relevant => exact forall_reload_put (h i) h
  | receive i => exact forall_reload_put (fun re hre => h i re (Watcher.reload_receive ▸ hre)) h
  | timeout i =>
    refine forall_reload_put (fun re hre => ?_) h
    obtain heq | ⟨-, -, heq⟩ := @timeout_cases _ _ _ S (s.watchers i) s.now <;> rw [heq] at hre
    · exact h i re hre
    · obtain rfl := Option.some.inj hre
      exact Nat.le_refl _
  | work i =>
    show (S.work s i).Started
    unfold System.work
    dsimp only
    split
    case h_1 => exact h
    case h_2 re hre =>
      split
      case h_1 => exact forall_reload_put (by rintro re' ⟨⟩; exact h i re hre) h
      case h_2 => exact forall_reload_put nofun h
      case h_3 => exact forall_reload_put (s := s) nofun h

omit [DecidableEq ι] in
theorem State.Started.later (h : s.Started) (n : ℕ) : State.Started { s with now := s.now + n } :=
  fun i re hre => Nat.le_trans (h i re hre) (Nat.le_add_right ..)

omit [DecidableEq ι] in
theorem System.Inv.later (h : S.Inv s) (n : ℕ) : S.Inv { s with now := s.now + n } where
  started := h.started.later n
  current := by
    refine h.current.imp_left ?_
    rintro ⟨i, t, ht, hrest⟩
    exact ⟨i, t, Nat.le_trans ht (Nat.le_add_right ..), hrest⟩

/-- After a change that is an event its watcher owes a reload, and none under way started after
it, whatever was before. -/
theorem System.Inv.change {a : Act ι V} (h : s.Started) (htells : s.Tells a) :
    S.Inv (S.act s a) := by
  have howing : ∀ i v (w' : Watcher V), true ∈ w'.events → S.act s a = s.change i v w' →
      S.Inv (S.act s a) := by
    intro i v w' hw' heq
    refine ⟨h.act a, .inl ⟨i, s.now, ?_, .inl ?_, fun j re hre hlt => ?_⟩⟩
    · rw [heq]
      exact Nat.le_refl _
    · simpa [heq, State.change, State.put] using hw'
    · have hle := h.act (S := S) a j re hre
      rw [heq] at hle
      exact absurd hlt (Nat.not_lt.mpr hle)
  cases a with
  | write i v => exact howing i v _ (Watcher.events_changed htells) rfl
  | replace i v told =>
    obtain ⟨hwatch, rfl⟩ := htells
    exact howing i v _ (by simpa using Watcher.events_changed hwatch) rfl
  | watch i ok => cases htells
  | notify i relevant => cases htells
  | receive i => cases htells
  | timeout i => cases htells
  | work i => cases htells

/-- When a watcher has waited long enough after the last change, the reloads that started
before it are over. -/
theorem System.Inv.timeout (h : S.Inv s) (hD : 0 < S.debounce)
    (hprompt : ∀ j re, (s.watchers j).reload = some re → s.now < re.started + S.debounce) :
    S.Inv (S.act s (.timeout i)) := by
  have hstarted := h.started.act (S := S) (.timeout i)
  show S.Inv (s.put i (S.timeout (s.watchers i) s.now))
  obtain heq | ⟨hwait, -, heq⟩ := @timeout_cases _ _ _ S (s.watchers i) s.now <;>
    simp only [System.act, heq] at hstarted ⊢
  · exact h.keep rfl fun _ _ => id
  have hunder : ∃ j re, ((s.put i { s.watchers i with
      pending := false, reload := some ⟨s.now, []⟩ }).watchers j).reload = some re :=
    ⟨i, ⟨s.now, []⟩, by simp⟩
  refine ⟨hstarted, ?_⟩
  obtain ⟨j, t, ht, howes, hfresh⟩ | ⟨hfresh, -⟩ := h.current
  · by_cases hlast : i = j ∧ t ≤ (s.watchers i).last
    · refine .inr ⟨forall_reload_put (by rintro re ⟨⟩; exact fresh_nil) fun k re hre => ?_,
        .inl hunder⟩
      have := hprompt k re hre
      exact hfresh k re hre (by omega)
    · refine .inl ⟨j, t, ht, ?_, forall_reload_put ?_ hfresh⟩
      · rw [watchers_put]
        split
        case isTrue heq =>
          rcases howes with hmem | ⟨-, hle⟩
          · exact .inl (heq ▸ hmem)
          · exact absurd ⟨heq.symm, heq ▸ hle⟩ hlast
        case isFalse => exact howes
      · rintro re ⟨⟩ -
        exact fresh_nil
  · exact .inr ⟨forall_reload_put (by rintro re ⟨⟩; exact fresh_nil) hfresh, .inl hunder⟩

theorem System.Inv.work (h : S.Inv s) : S.Inv (S.work s i) := by
  have hstarted : (S.work s i).Started := h.started.act (.work i)
  revert hstarted
  unfold System.work
  dsimp only
  split
  case h_1 => exact fun _ => h
  case h_2 re hre =>
    have hgone : ∀ {P : Reload V → Prop},
        ∀ re', { s.watchers i with reload := none }.reload = some re' → P re' := nofun
    split <;> intro hstarted
    case h_1 hmore =>
      refine ⟨hstarted, h.current.imp (fun howing => ?_) ?_⟩
      · refine howing.put (fun _ _ => id) fun t hold re' => ?_
        rintro ⟨⟩ hlt
        exact fresh_concat (hold re hre hlt) hmore
      · rintro ⟨hfresh, -⟩
        refine ⟨forall_reload_put ?_ hfresh, .inl ⟨i, ⟨re.started, _⟩, by simp [State.put]; rfl⟩⟩
        rintro re' ⟨⟩
        exact fresh_concat (hfresh i re hre) hmore
    case h_2 hfail =>
      refine ⟨hstarted, h.current.imp (fun howing => ?_) ?_⟩
      · exact howing.put (fun _ _ => id) fun _ _ => hgone
      · rintro ⟨hfresh, -⟩
        refine ⟨forall_reload_put hgone hfresh, .inr fun r hr => ?_⟩
        rcases verdict_of_fresh (hfresh i re hre) hr with hv | hv <;> rw [hfail] at hv <;> cases hv
    case h_3 r' hdone =>
      refine ⟨hstarted, h.current.imp (fun howing => ?_) ?_⟩
      · exact howing.put (fun _ _ => id) fun _ _ => hgone
      · rintro ⟨hfresh, -⟩
        refine ⟨forall_reload_put (s := s) hgone hfresh, .inr fun r hr => ?_⟩
        rcases verdict_of_fresh (hfresh i re hre) hr with hv | hv <;> rw [hdone] at hv <;> cases hv
        rfl

theorem System.Inv.act (h : S.Inv s) (hD : 0 < S.debounce)
    (hprompt : ∀ j re, (s.watchers j).reload = some re → s.now < re.started + S.debounce)
    {a : Act ι V} (ha : a.changes = false) : S.Inv (S.act s a) := by
  cases a with
  | watch i ok => exact h.keep (Watcher.reload_begin ok) fun _ _ => Watcher.owes_begin
  | write i v => cases ha
  | replace i v told => cases ha
  | notify i relevant => exact h.keep rfl fun _ _ => Watcher.owes_notified
  | receive i => exact h.keep Watcher.reload_receive fun _ ht ho => Watcher.owes_receive ho ht
  | timeout i => exact h.timeout hD hprompt
  | work i => exact h.work

theorem State.Started.run (h : s.Started) (acts : List (ℕ × Act ι V)) :
    (acts.foldl S.step s).Started :=
  List.foldlRecOn acts _ h fun _ h a _ => (h.later a.1).act a.2

theorem System.LastTold.of_change (pre : List (ℕ × Act ι V)) {post : List (ℕ × Act ι V)}
    {a : ℕ × Act ι V} (htells : (pre.foldl S.step s).Tells a.2) (ha : a.2.changes = true)
    (hpost : ∀ b ∈ post, b.2.changes = false) : S.LastTold s (pre ++ a :: post) := by
  intro pre' a' post' heq ha' hpost'
  rcases List.append_eq_append_iff.mp heq with ⟨l, rfl, hrest⟩ | ⟨l, rfl, hrest⟩
  all_goals cases l with
  | nil =>
    obtain ⟨rfl, rfl⟩ := List.cons.inj hrest
    simpa using htells
  | cons b l => ?_
  · obtain ⟨-, rfl⟩ := List.cons.inj hrest
    have hnot := hpost a' (List.mem_append_right _ List.mem_cons_self)
    rw [ha'] at hnot
    cases hnot
  · obtain ⟨-, rfl⟩ := List.cons.inj hrest
    have hnot := hpost' a (List.mem_append_right _ List.mem_cons_self)
    rw [ha] at hnot
    cases hnot

/-- The run rule: changes that are no events do no harm if one that is comes after them. -/
theorem System.Inv.run (h : S.Inv s) (hD : 0 < S.debounce) {acts : List (ℕ × Act ι V)}
    (hacts : Along S.step S.Prompt s acts) (htold : S.LastTold s acts) :
    S.Inv (acts.foldl S.step s) := by
  induction acts using List.reverseRecOn with
  | nil => exact h
  | append_singleton acts a ih =>
    obtain ⟨hbefore, hprompt, -⟩ := along_append.mp hacts
    rw [List.foldl_append]
    cases hchanges : a.2.changes with
    | true =>
      have htells := htold acts a [] rfl hchanges nofun
      exact .change (s := { acts.foldl S.step s with now := _ }) ((h.started.run acts).later a.1)
        htells
    | false =>
      refine ((ih hbefore fun pre b post heq hb hpost => ?_).later a.1).act hD hprompt hchanges
      refine htold pre b (post ++ [a]) (by rw [heq]; simp) hb fun c hc => ?_
      rcases List.mem_append.mp hc with hc | hc
      · exact hpost c hc
      · exact List.mem_singleton.mp hc ▸ hchanges

/-! ## What no event tells of -/

theorem State.Quiet.put (h : s.Quiet) (hw : true ∉ w.events ∧ w.pending = false ∧ w.reload = none) :
    (s.put i w).Quiet := by
  intro j
  rw [watchers_put]
  split
  case isTrue => exact hw
  case isFalse => exact h j

/-- Nothing starts without an event. -/
theorem State.Quiet.act (h : s.Quiet) {a : Act ι V} (ha : s.Unseen a) :
    (S.act s a).Quiet ∧ (S.act s a).served = s.served := by
  have hchanged : ∀ i told, (s.watchers i).watch = .gone →
      (s.watchers i).changed told = s.watchers i := by
    intro i told hgone
    rw [Watcher.changed, hgone, if_neg (fun hhere => nomatch hhere.1)]
  cases a with
  | watch i ok =>
    refine ⟨h.put ?_, rfl⟩
    have hi := h i
    unfold Watcher.begin
    split <;> exact hi
  | write i v =>
    refine ⟨State.Quiet.put (s := s) h ?_, rfl⟩
    rw [hchanged i true ha]
    exact h i
  | replace i v told =>
    have hi := h i
    refine ⟨State.Quiet.put (s := s) h ?_, rfl⟩
    rw [hchanged i told ha]
    unfold Watcher.replaced
    split <;> exact hi
  | notify i relevant =>
    obtain rfl : relevant = false := ha
    obtain ⟨hevents, hrest⟩ := h i
    exact ⟨h.put ⟨by simpa [Watcher.notified] using hevents, hrest⟩, rfl⟩
  | receive i =>
    obtain ⟨hevents, hpending, hreload⟩ := h i
    refine ⟨h.put ?_, rfl⟩
    unfold Watcher.receive
    split
    case h_1 relevant events _ heq =>
      rw [heq, List.mem_cons, not_or] at hevents
      cases relevant with
      | true => exact absurd rfl hevents.1
      | false => exact ⟨hevents.2, by rw [hpending]; rfl, hreload⟩
    case h_2 => exact h i
  | timeout i =>
    have hnot : S.timeout (s.watchers i) s.now = s.watchers i := by
      rw [System.timeout, if_neg (by simp [(h i).2.1])]
    refine ⟨h.put ?_, rfl⟩
    rw [hnot]
    exact h i
  | work i =>
    have hnot : S.work s i = s := by simp [System.work, (h i).2.2]
    show (S.work s i).Quiet ∧ (S.work s i).served = s.served
    rw [hnot]
    exact ⟨h, rfl⟩

/-- Watching does not begin again. -/
theorem gone_act (h : (s.watchers i).watch = .gone) (a : Act ι V) :
    ((S.act s a).watchers i).watch = .gone := by
  have hput : ∀ j (w : Watcher V), (j = i → w.watch = .gone) →
      ((s.put j w).watchers i).watch = .gone := by
    intro j w hw
    rw [watchers_put]
    split
    case isTrue heq => exact hw heq.symm
    case isFalse => exact h
  cases a with
  | watch j ok => exact hput j _ fun heq => by subst heq; simp [Watcher.begin, h]
  | write j v => exact hput j _ fun heq => by subst heq; simp [Watcher.changed, h]
  | replace j v told =>
    exact hput j _ fun heq => by subst heq; simp [Watcher.changed, Watcher.replaced, h]
  | notify j relevant => exact hput j _ fun heq => heq ▸ h
  | receive j =>
    refine hput j _ fun heq => ?_
    unfold Watcher.receive
    split <;> exact heq ▸ h
  | timeout j =>
    refine hput j _ fun heq => ?_
    unfold System.timeout
    split <;> exact heq ▸ h
  | work j =>
    show ((S.work s j).watchers i).watch = .gone
    unfold System.work
    dsimp only
    split
    · exact h
    · split <;> exact hput j _ fun heq => heq ▸ h

theorem State.Unseen.act {a : Act ι V} (ha : s.Unseen a) (b : Act ι V) :
    (S.act s b).Unseen a := by
  cases a with
  | write i v => exact gone_act ha b
  | replace i v told => exact gone_act ha b
  | notify i relevant => exact ha
  | watch i ok => trivial
  | receive i => trivial
  | timeout i => trivial
  | work i => trivial

/-- What is written to files that are not watched is not served, as long as no event comes. -/
theorem State.Quiet.run (h : s.Quiet) {acts : List (ℕ × Act ι V)}
    (hacts : ∀ a ∈ acts, s.Unseen a.2) :
    (acts.foldl S.step s).Quiet ∧ (acts.foldl S.step s).served = s.served := by
  induction acts generalizing s with
  | nil => exact ⟨h, rfl⟩
  | cons a acts ih =>
    rw [List.forall_mem_cons] at hacts
    obtain ⟨hquiet, hserved⟩ := State.Quiet.act (S := S) (s := { s with now := s.now + a.1 }) h
      hacts.1
    obtain ⟨hend, hsame⟩ := ih hquiet fun b hb => State.Unseen.act
      (s := { s with now := s.now + a.1 }) (hacts.2 b hb) a.2
    exact ⟨hend, hsame.trans hserved⟩

/-! ## What is served stems from what was in the files -/

/-- Contents with this property at their places. -/
def System.Read (S : System ι V R) (P : ι → V → Prop) (seen : List V) : Prop :=
  ∀ k v, seen[k]? = some v → P (S.order k) v

/-- Files, reloads and what is served have to do with contents of this property only. -/
structure System.Stems (S : System ι V R) (P : ι → V → Prop) (s : State ι V R) : Prop where
  files : ∀ i, P i (s.files i)
  reload : ∀ i re, (s.watchers i).reload = some re → S.Read P re.seen
  served : ∃ seen, S.verdict seen = .done s.served ∧ S.Read P seen

variable {P : ι → V → Prop}

omit [DecidableEq ι] in
theorem System.Stems.start (hfiles : ∀ i, P i (s.files i))
    (hreload : ∀ i, (s.watchers i).reload = none) (hserved : S.Loads s.files s.served) :
    S.Stems P s := by
  refine ⟨hfiles, fun i re hre => ?_, ?_⟩
  · rw [hreload i] at hre
    cases hre
  · obtain ⟨seen, hfresh, hdone⟩ := hserved.fresh
    refine ⟨seen, hdone, fun k v hk => ?_⟩
    rw [hfresh.1, System.reads, List.getElem?_map, Option.map_eq_some_iff] at hk
    obtain ⟨n, hn, rfl⟩ := hk
    obtain ⟨hlt, rfl⟩ := List.getElem?_eq_some_iff.mp hn
    rw [List.getElem_range]
    exact hfiles _

omit [DecidableEq ι] in
theorem read_concat {seen : List V} {v : V} (h : S.Read P seen) (hv : P (S.order seen.length) v) :
    S.Read P (seen ++ [v]) := by
  intro k v' hk
  rcases Nat.lt_trichotomy k seen.length with hlt | rfl | hgt
  · rw [List.getElem?_append_left hlt] at hk
    exact h k v' hk
  · rw [List.getElem?_concat_length] at hk
    exact Option.some.inj hk ▸ hv
  · rw [List.getElem?_eq_none (by simp; omega)] at hk
    cases hk

theorem System.Stems.put (h : S.Stems P s) (hw : ∀ re, w.reload = some re → S.Read P re.seen) :
    S.Stems P (s.put i w) :=
  ⟨h.files, forall_reload_put hw h.reload, h.served⟩

theorem System.Stems.change (h : S.Stems P s) {v : V} (hv : P i v)
    (hreload : w.reload = (s.watchers i).reload) : S.Stems P (s.change i v w) := by
  refine ⟨fun j => ?_, forall_reload_put (s := s) (fun re hre => h.reload i re (hreload ▸ hre))
    h.reload, h.served⟩
  show P j (Function.update s.files i v j)
  rw [Function.update_apply]
  split
  case isTrue heq => exact heq ▸ hv
  case isFalse => exact h.files j

/-- This content is put into this place. -/
def Act.Puts (a : Act ι V) (i : ι) (v : V) : Prop := a = .write i v ∨ ∃ told, a = .replace i v told

theorem System.Stems.act (h : S.Stems P s) {a : Act ι V} (ha : ∀ i v, a.Puts i v → P i v) :
    S.Stems P (S.act s a) := by
  cases a with
  | watch i ok => exact h.put fun re hre => h.reload i re (by simpa using hre)
  | write i v => exact h.change (ha i v (.inl rfl)) (Watcher.reload_changed true)
  | replace i v told => exact h.change (ha i v (.inr ⟨told, rfl⟩)) (by simp)
  | notify i relevant => exact h.put (h.reload i)
  | receive i => exact h.put fun re hre => h.reload i re (Watcher.reload_receive.symm.trans hre)
  | timeout i =>
    refine h.put fun re hre => ?_
    obtain heq | ⟨-, -, heq⟩ := @timeout_cases _ _ _ S (s.watchers i) s.now <;> rw [heq] at hre
    · exact h.reload i re hre
    · obtain rfl := Option.some.inj hre
      exact nofun
  | work i =>
    show S.Stems P (S.work s i)
    unfold System.work
    dsimp only
    split
    case h_1 => exact h
    case h_2 re hre =>
      split
      case h_1 =>
        refine h.put fun re' => ?_
        rintro ⟨⟩
        exact read_concat (h.reload i re hre) (h.files _)
      case h_2 => exact h.put nofun
      case h_3 r hdone =>
        exact ⟨h.files, forall_reload_put (s := s) nofun h.reload, re.seen, hdone,
          h.reload i re hre⟩

theorem System.Stems.run (h : S.Stems P s) {acts : List (ℕ × Act ι V)}
    (hacts : ∀ a ∈ acts, ∀ i v, a.2.Puts i v → P i v) : S.Stems P (acts.foldl S.step s) :=
  List.foldlRecOn acts _ h fun s h a ha =>
    System.Stems.act (s := { s with now := s.now + a.1 }) ⟨h.files, h.reload, h.served⟩ (hacts a ha)

end XavierDB.Debounce
