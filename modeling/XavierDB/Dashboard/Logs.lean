import XavierDB.Base.Publish
import XavierDB.Base.Span
import XavierDB.Log.Walk

/-!
# The Logs tab (`src/assets/ts/view-logs.ts`)

The tab holds a part of the log: the newest page and the older pages it asked for
since. Its calls wait for their answers while lines are written and the user
reloads, filters or leaves. The answer to a call for an older page counts only in
the generation in which it was called.
-/

namespace XavierDB.Dashboard

open Log Publish

def logPage : ℕ := 300

def maxAutoPages : ℕ := 40

/-- As many entries as the tab retains. -/
def logMax : ℕ := logPage * (maxAutoPages + 2)

structure LogFilters where
  levels : List String
  loggers : List String
  apps : List String
  names : List String
  regex : String

def LogFilters.clear : LogFilters := ⟨[], [], [], [], ""⟩

structure Tab where
  /-- oldest first -/
  logLoaded : List LogEntry
  logTotal : ℕ
  /-- the number of the oldest entry loaded -/
  logOldestSeq : ℕ
  logNoMore : Bool
  logCapped : Bool
  logApps : List String
  logNames : List (String × String)
  logLoggers : List String
  logBusy : Bool
  logGen : ℕ
  logFilters : LogFilters
  /-- the entries with a row, while the tab is open -/
  logsBox : Option (List LogEntry)

/-- The dashboard as it starts, on another tab. -/
def Tab.start : Tab where
  logLoaded := []
  logTotal := 0
  logOldestSeq := 0
  logNoMore := false
  logCapped := false
  logApps := []
  logNames := []
  logLoggers := []
  logBusy := false
  logGen := 0
  logFilters := .clear
  logsBox := none

/-! ## What the tab does -/

/-- No choice, or one of those chosen. -/
def chosen (vals : List String) (v : Option String) : Bool := vals.isEmpty || v.any vals.contains

def seqOfHead (l : List LogEntry) : ℕ := (l.head?.map LogEntry.seq).getD 0

section

variable (regExp : String → Option (String → Bool))

def logMatches (f : LogFilters) (e : LogEntry) : Bool :=
  chosen f.levels e.level && chosen f.loggers e.logger && chosen f.apps e.app &&
    chosen f.names e.name &&
      (if f.regex = "" then none else regExp f.regex).all fun re => re e.raw

def Tab.renderLogList (t : Tab) : Tab :=
  { t with logsBox := t.logsBox.map fun _ => t.logLoaded.filter (logMatches regExp t.logFilters) }

/-- The loaded entries cut to `kept`. -/
def Tab.retain (t : Tab) (kept : List LogEntry) : Tab :=
  { t with
    logLoaded := kept
    logCapped := true
    logOldestSeq := seqOfHead kept
    logNoMore := t.logNoMore || kept.isEmpty }

def Tab.pruneRetained (t : Tab) : Tab :=
  if t.logLoaded.length ≤ logMax then t
  else (t.retain (t.logLoaded.drop (t.logLoaded.length - logMax))).renderLogList regExp

def Tab.releaseLogs (t : Tab) : Tab :=
  { t with
    logLoaded := []
    logTotal := 0
    logOldestSeq := 0
    logNoMore := true
    logCapped := false
    logApps := []
    logNames := []
    logLoggers := []
    logGen := t.logGen + 1
    logsBox := none }

/-- The head of `load`. -/
def Tab.load (t : Tab) : Tab := { t with logGen := t.logGen + 1 }

def Tab.renderLogs (t : Tab) : Tab :=
  { t with
    logLoaded := []
    logTotal := 0
    logOldestSeq := 0
    logNoMore := false
    logCapped := false
    logApps := []
    logNames := []
    logLoggers := []
    logsBox := some [] }.load

/-- `load` with its answer. -/
def Tab.loaded (t : Tab) (d : LogPage) : Tab :=
  { t with
    logLoaded := d.entries
    logTotal := d.total
    logOldestSeq := seqOfHead d.entries
    logNoMore := false
    logCapped := false
    logApps := d.apps
    logNames := d.names
    logLoggers := d.loggers }.renderLogList regExp

/-- `fetchOlder` runs. -/
def Tab.canFetch (t : Tab) : Bool :=
  !(t.logBusy || t.logNoMore || t.logCapped || t.logOldestSeq == 0)

/-- The entries of a page that are not loaded yet. -/
def Tab.fresh (t : Tab) (d : LogPage) : List LogEntry :=
  d.entries.filter fun e => !(t.logLoaded.map LogEntry.seq).contains e.seq

/-- `fetchOlder` in its own generation, with its answer. -/
def Tab.older (t : Tab) (d : LogPage) : Tab :=
  if d.entries = [] then { t with logTotal := d.total, logNoMore := true }
  else
    let t' : Tab :=
      { t with
        logTotal := d.total, logApps := d.apps, logNames := d.names, logLoggers := d.loggers }
    if t.fresh d = [] then { t' with logNoMore := true }
    else
      { t' with
        logLoaded := t.fresh d ++ t.logLoaded
        logOldestSeq := seqOfHead (t.fresh d ++ t.logLoaded)
        logsBox := t.logsBox.map
          ((t.fresh d).filter (logMatches regExp t.logFilters) ++ ·) }.pruneRetained regExp

/-- `fetchOlder` with its answer: one from before counts for nothing. -/
def Tab.fetched (t : Tab) (gen : ℕ) (d : LogPage) : Tab :=
  let t := { t with logBusy := false }
  if gen = t.logGen then t.older regExp d else t

end

/-! ## The tab and the server -/

/-- `logs` of `src/routes_admin.rs`. -/
def logs (s : LogFileSink) (limit before : Option ℕ) : LogPage :=
  s.read (min (limit.getD 0) 10000) before

/-- A call of `load` or `fetchOlder`. -/
inductive Call where
  | idle
  | load (answer : Option LogPage)
  | older (gen before : ℕ) (answer : Option LogPage)
  | done

structure Shared where
  journal : Journal
  tab : Tab

inductive Act where
  | server (a : Log.Act)
  | renderLogs
  | releaseLogs
  | refresh
  | clear
  | filter (f : LogFilters)
  | fetchOlder
  | answer
  | deliver
  | fail

section

variable (regExp : String → Option (String → Bool)) (files sizeBytes : ℕ)

/-- What a step does to the shared state and to the call that takes it. -/
def advance (a : Act) (s : Shared) (c : Call) : Shared × Call :=
  match a, c with
  | .server a, c => ({ s with journal := s.journal.step files sizeBytes a }, c)
  | .releaseLogs, c => ({ s with tab := s.tab.releaseLogs }, c)
  | .filter f, c => ({ s with tab := { s.tab with logFilters := f }.renderLogList regExp }, c)
  | .renderLogs, .idle => ({ s with tab := s.tab.renderLogs }, .load none)
  | .refresh, .idle => ({ s with tab := s.tab.load }, .load none)
  | .clear, .idle => ({ s with tab := { s.tab with logFilters := .clear }.load }, .load none)
  | .fetchOlder, .idle =>
    if s.tab.canFetch then
      -- it reads the height of the rows before it asks: without them it throws and stays busy
      ({ s with tab := { s.tab with logBusy := true } },
        if s.tab.logsBox.isSome then .older s.tab.logGen s.tab.logOldestSeq none else .done)
    else (s, .idle)
  | .answer, .load none => (s, .load (some (logs s.journal.sink (some logPage) none)))
  | .answer, .older gen before none =>
    (s, .older gen before (some (logs s.journal.sink (some logPage) (some before))))
  | .deliver, .load (some d) => ({ s with tab := s.tab.loaded regExp d }, .done)
  | .deliver, .older gen _ (some d) => ({ s with tab := s.tab.fetched regExp gen d }, .done)
  | .fail, .load _ => (s, .done)
  | .fail, .older _ _ _ => ({ s with tab := { s.tab with logBusy := false } }, .done)
  | _, c => (s, c)

end

/-! ## Pages -/

/-- All entries, as a read of everything shows them. -/
def entries (j : Journal) : List LogEntry := entriesFrom 0 j.store.kept

/-- Some of the entries, without a gap and from number `o` on. -/
def Window (es w : List LogEntry) (o : ℕ) : Prop :=
  ∃ c, o ≤ c ∧ c ≤ es.length ∧ w = span es o c ∧ (w = [] → o = 0)

theorem seq_entries (j : Journal) :
    (entries j).map LogEntry.seq = List.range (entries j).length := by
  rw [entries, seq_entriesFrom, length_entriesFrom, List.range_eq_range']

theorem take_entriesFrom {ws : List Written} {n : ℕ} (hn : n ≤ ws.length) :
    (entriesFrom 0 ws).take n = entriesFrom 0 (ws.take n) := by
  have hcut := entriesFrom_append 0 (ws.take n) (ws.drop n)
  rw [List.take_append_drop] at hcut
  rw [hcut, List.take_left' (by simp [length_entriesFrom, hn])]

variable {files sizeBytes : ℕ} {j : Journal}

/-- A page is the last entries of those below `before`. -/
theorem entries_logs (hs : Journal.Sound files j) (before : Option ℕ) :
    (logs j.sink (some logPage) before).entries =
      span (entries j) (upper before (entries j).length - logPage)
        (upper before (entries j).length) := by
  have hlen : (entries j).length = j.store.kept.length := length_entriesFrom 0 _
  have hle : upper before j.store.kept.length ≤ j.store.kept.length := Nat.sub_le ..
  show (j.sink.read logPage before).entries = _
  rw [hs.holds.read_entries hs.kept_clean, pageOf, if_neg (by simp [logPage]),
    below_entriesFrom, ← upper, length_entriesFrom, List.length_take, Nat.min_eq_left hle, span,
    hlen, entries, take_entriesFrom hle]

/-- Until a line is dropped, entries are only added. -/
theorem entries_step (hs : Journal.Sound files j) (hfiles : 2 ≤ j.sink.files) {a : Log.Act}
    (ha : Journal.DropsNone j a) :
    ∃ added, entries (j.step files sizeBytes a) = entries j ++ added := by
  cases a with
  | write line =>
    rw [entries, Journal.kept_of_not_evicts hs.toTracks hfiles (ha line rfl), entriesFrom_append]
    exact ⟨_, rfl⟩
  | restart => exact ⟨[], by simp [entries, Journal.step]⟩

/-! ## Windows -/

variable {es more w : List LogEntry} {o n k : ℕ}

theorem Window.nil : Window es [] 0 := ⟨0, by simp [span]⟩

theorem Window.append (h : Window es w o) : Window (es ++ more) w o := by
  obtain ⟨c, hoc, hc, rfl, hnil⟩ := h
  exact ⟨c, hoc, by simp; omega, (span_append hc).symm, hnil⟩

theorem seqOfHead_span (h : es.map LogEntry.seq = List.range es.length) (hac : o < n)
    (hn : n ≤ es.length) : seqOfHead (span es o n) = o := by
  rw [seqOfHead, key_head_span h hac hn, Option.getD_some]

theorem window_span (h : es.map LogEntry.seq = List.range es.length) (hn : n ≤ es.length) :
    Window es (span es o n) (seqOfHead (span es o n)) := by
  rcases Nat.lt_or_ge o n with hlt | hge
  · have hlen := length_span (a := o) hn
    refine ⟨n, ?_⟩
    rw [seqOfHead_span h hlt hn]
    exact ⟨by omega, hn, rfl, fun hnil => by rw [hnil, List.length_nil] at hlen; omega⟩
  · have hnil : span es o n = [] := List.drop_of_length_le (by simp; omega)
    rw [hnil]
    exact Window.nil

/-- A page more. -/
theorem Window.older (h : es.map LogEntry.seq = List.range es.length) (hw : Window es w o)
    (hne : w ≠ []) : Window es (span es (o - n) o ++ w) (seqOfHead (span es (o - n) o ++ w)) := by
  obtain ⟨c, hoc, hc, rfl, -⟩ := hw
  rw [span_append_span (by omega) hoc]
  exact window_span h hc

theorem Window.drop (h : es.map LogEntry.seq = List.range es.length) (hw : Window es w o) :
    Window es (w.drop k) (seqOfHead (w.drop k)) := by
  obtain ⟨c, -, hc, rfl, -⟩ := hw
  rw [drop_span]
  exact window_span h hc

/-- The page before a window has none of its entries. -/
theorem Window.fresh_eq (h : es.map LogEntry.seq = List.range es.length) {t : Tab} {d : LogPage}
    (hw : Window es t.logLoaded t.logOldestSeq)
    (hd : d.entries = span es (t.logOldestSeq - n) t.logOldestSeq) : t.fresh d = d.entries := by
  obtain ⟨c, hoc, hc, hspan, -⟩ := hw
  refine List.filter_eq_self.mpr fun e he => ?_
  have hbelow := (key_of_mem_span h (by omega) (hd ▸ he)).2
  simp only [Bool.not_eq_true', List.contains_eq_mem, decide_eq_false_iff_not, List.mem_map,
    not_exists, not_and]
  intro x hx hseq
  have habove := (key_of_mem_span h hc (hspan ▸ hx)).1
  omega

/-! ## The tab on its own -/

variable {regExp : String → Option (String → Bool)} {t : Tab} {d : LogPage}

/-- What the tab has loaded has no gap and is bounded; capped, it is full. -/
structure Tab.Gapless (es : List LogEntry) (t : Tab) : Prop where
  window : Window es t.logLoaded t.logOldestSeq
  bounded : t.logLoaded.length ≤ logMax
  full : t.logCapped = true → t.logLoaded.length = logMax

/-- The rows are those of the entries that match. -/
def Tab.InSync (regExp : String → Option (String → Bool)) (t : Tab) : Prop :=
  ∀ rows ∈ t.logsBox, rows = t.logLoaded.filter (logMatches regExp t.logFilters)

theorem inSync_renderLogList (t : Tab) : (t.renderLogList regExp).InSync regExp := by
  intro rows hrows
  obtain ⟨_, _, rfl⟩ := Option.map_eq_some_iff.mp hrows
  rfl

theorem Tab.Gapless.append (h : t.Gapless es) : t.Gapless (es ++ more) :=
  ⟨h.window.append, h.bounded, h.full⟩

theorem gapless_nil (h1 : t.logLoaded = []) (h2 : t.logOldestSeq = 0) (h3 : t.logCapped = false) :
    t.Gapless es := by
  refine ⟨?_, by simp [h1], by simp [h3]⟩
  rw [h1, h2]
  exact Window.nil

theorem Tab.forall_pruneRetained {P : Tab → Prop} (hkeep : t.logLoaded.length ≤ logMax → P t)
    (hcut : ∀ n, t.logLoaded.length = n + logMax →
      P ((t.retain (t.logLoaded.drop n)).renderLogList regExp)) : P (t.pruneRetained regExp) := by
  unfold Tab.pruneRetained
  split
  case isTrue h => exact hkeep h
  case isFalse h => exact hcut _ (by omega)

@[simp] theorem logGen_pruneRetained (t : Tab) : (t.pruneRetained regExp).logGen = t.logGen :=
  Tab.forall_pruneRetained (P := fun t' => t'.logGen = t.logGen) (fun _ => rfl) fun _ _ => rfl

theorem gapless_pruneRetained (h : es.map LogEntry.seq = List.range es.length)
    (hw : Window es t.logLoaded t.logOldestSeq) (hcapped : t.logCapped = false) :
    (t.pruneRetained regExp).Gapless es := by
  apply Tab.forall_pruneRetained
  · exact fun hle => ⟨hw, hle, by simp [hcapped]⟩
  · intro n hn
    have hlen : (t.logLoaded.drop n).length = logMax := by
      rw [List.length_drop]
      omega
    exact ⟨hw.drop h, hlen.le, fun _ => hlen⟩

theorem inSync_pruneRetained (h : t.InSync regExp) : (t.pruneRetained regExp).InSync regExp :=
  Tab.forall_pruneRetained (fun _ => h) fun _ _ => inSync_renderLogList _

/-- The tab with the page before its window. -/
def Tab.withOlder (regExp : String → Option (String → Bool)) (t : Tab) (d : LogPage) : Tab :=
  { t with
    logTotal := d.total
    logApps := d.apps
    logNames := d.names
    logLoggers := d.loggers
    logLoaded := d.entries ++ t.logLoaded
    logOldestSeq := seqOfHead (d.entries ++ t.logLoaded)
    logsBox := t.logsBox.map (d.entries.filter (logMatches regExp t.logFilters) ++ ·) }

theorem older_eq (h : es.map LogEntry.seq = List.range es.length)
    (hw : Window es t.logLoaded t.logOldestSeq) (hpos : 0 < t.logOldestSeq)
    (hd : d.entries = span es (t.logOldestSeq - logPage) t.logOldestSeq) :
    t.older regExp d = (t.withOlder regExp d).pruneRetained regExp := by
  have hne : d.entries ≠ [] := by
    obtain ⟨c, hoc, hc, -⟩ := hw
    have hle : t.logOldestSeq ≤ es.length := by omega
    have hlen := length_span (a := t.logOldestSeq - logPage) hle
    intro hnil
    rw [← hd, hnil, List.length_nil, logPage] at hlen
    omega
  rw [Tab.older, if_neg hne, hw.fresh_eq h hd, if_neg hne]
  rfl

theorem window_withOlder (h : es.map LogEntry.seq = List.range es.length)
    (hw : Window es t.logLoaded t.logOldestSeq) (hne : t.logLoaded ≠ [])
    (hd : d.entries = span es (t.logOldestSeq - logPage) t.logOldestSeq) :
    Window es (t.withOlder regExp d).logLoaded (t.withOlder regExp d).logOldestSeq := by
  show Window es (d.entries ++ t.logLoaded) (seqOfHead (d.entries ++ t.logLoaded))
  rw [hd]
  exact hw.older h hne

theorem inSync_withOlder (h : t.InSync regExp) : (t.withOlder regExp d).InSync regExp := by
  intro rows hrows
  obtain ⟨rows, hbox, rfl⟩ := Option.map_eq_some_iff.mp hrows
  rw [h rows hbox]
  exact (List.filter_append ..).symm

/-! ## Calls -/

def Call.isLoad : Call → Bool
  | .load _ => true
  | _ => false

def Call.isOlder : Call → Bool
  | .older _ _ _ => true
  | _ => false

/-- What a call is about, and its answer once there is one. -/
def Call.Fits (s : Shared) : Call → Prop
  | .load (some d) =>
    Window (entries s.journal) d.entries (seqOfHead d.entries) ∧ d.entries.length ≤ logMax
  | .older gen before d =>
    gen ≤ s.tab.logGen ∧ before ≤ (entries s.journal).length ∧
      (gen = s.tab.logGen →
        before = s.tab.logOldestSeq ∧ 0 < before ∧ s.tab.logLoaded ≠ [] ∧ s.tab.logCapped = false) ∧
      ∀ page ∈ d, page.entries = span (entries s.journal) (before - logPage) before
  | _ => True

variable {ι : Type} {s : State ι Shared Call} {sh : Shared} {c : Call} {i : ι}

/-- No base page is on its way. -/
def Settled (s : State ι Shared Call) : Prop := ∀ i, (s.phase i).isLoad = false

structure Inv (regExp : String → Option (String → Bool)) (files : ℕ) (s : State ι Shared Call) :
    Prop where
  sound : Journal.Sound files s.shared.journal
  gapless : s.shared.tab.Gapless (entries s.shared.journal)
  fits : ∀ i, (s.phase i).Fits s.shared
  /-- only one call for an older page at a time -/
  alone : ∀ i j, (s.phase i).isOlder = true → (s.phase j).isOlder = true → i = j
  busy : ∀ i, (s.phase i).isOlder = true → s.shared.tab.logBusy = true
  /-- a call whose answer will count was made with no base page on its way, and none was
  asked for since -/
  current : ∀ i before d, s.phase i = .older s.shared.tab.logGen before d → Settled s
  inSync : Settled s → s.shared.tab.InSync regExp

theorem Call.Fits.append {s : Shared} (h : c.Fits s) {j : Journal}
    (hj : entries j = entries s.journal ++ more) : c.Fits { s with journal := j } := by
  cases c with
  | idle => trivial
  | done => trivial
  | load d =>
    cases d with
    | none => trivial
    | some d =>
      show Window (entries j) _ _ ∧ _
      rw [hj]
      exact ⟨h.1.append, h.2⟩
  | older gen before d =>
    obtain ⟨hgen, hbefore, hcur, hpage⟩ := h
    refine ⟨hgen, ?_, hcur, fun page hd => ?_⟩
    · show before ≤ (entries j).length
      rw [hj, List.length_append]
      omega
    · show page.entries = span (entries j) _ _
      rw [hj, span_append hbefore]
      exact hpage page hd

/-- Answers to calls from before do not depend on the tab. -/
theorem Call.Fits.tab {s : Shared} (h : c.Fits s) {t : Tab} (hgen : s.tab.logGen ≤ t.logGen)
    (hcur : ∀ before d, c = .older t.logGen before d → s.tab.logGen = t.logGen →
      s.tab.logOldestSeq = t.logOldestSeq ∧ s.tab.logLoaded = t.logLoaded ∧
        s.tab.logCapped = t.logCapped) :
    c.Fits { s with tab := t } := by
  cases c with
  | idle => trivial
  | done => trivial
  | load d => cases d <;> exact h
  | older gen before d =>
    obtain ⟨hle, hbefore, hold, hpage⟩ := h
    refine ⟨hle.trans hgen, hbefore, fun heq => ?_, hpage⟩
    obtain rfl : gen = t.logGen := heq
    have hsame : s.tab.logGen = t.logGen := by omega
    obtain ⟨hseq, hloaded, hcapped⟩ := hcur before d rfl hsame
    obtain ⟨h1, h2, h3, h4⟩ := hold hsame.symm
    exact ⟨h1.trans hseq, h2, hloaded ▸ h3, hcapped ▸ h4⟩

/-- The others have no call for an older page. -/
theorem Inv.others (h : Inv regExp files s) (hi : (s.phase i).isOlder = true) :
    ∀ j, j ≠ i → (s.phase j).isOlder = false := by
  intro j hji
  rw [← Bool.not_eq_true]
  exact fun hj => hji (h.alone j i hj hi)

variable [DecidableEq ι]

/-- A call moves from one phase to another and leaves the shared state as `sh`. -/
theorem Inv.put (h : Inv regExp files s) (hsound : Journal.Sound files sh.journal)
    (hgapless : sh.tab.Gapless (entries sh.journal)) (hself : c.Fits sh)
    (hfits : ∀ j, j ≠ i → (s.phase j).Fits sh)
    (halone : c.isOlder = true → ∀ j, j ≠ i → (s.phase j).isOlder = false)
    (hbusy : (c.isOlder = true ∨ ∃ j, j ≠ i ∧ (s.phase j).isOlder = true) → sh.tab.logBusy = true)
    (hgen : s.shared.tab.logGen < sh.tab.logGen ∧ (c.isOlder = true → c = s.phase i) ∨
      sh.tab.logGen = s.shared.tab.logGen ∧ (c.isLoad = true → (s.phase i).isLoad = true) ∧
        ∀ before d, c = .older sh.tab.logGen before d → Settled s)
    (hsync : Settled (s.put i sh c) → sh.tab.InSync regExp) :
    Inv regExp files (s.put i sh c) where
  sound := hsound
  gapless := hgapless
  fits := State.forall_put (fun _ c => Call.Fits sh c) hself hfits
  alone j k hj hk := by
    by_cases hji : j = i
    · by_cases hki : k = i
      · rw [hji, hki]
      · rw [hji, State.put_self] at hj
        rw [State.put_of_ne hki, halone hj k hki] at hk
        cases hk
    · rw [State.put_of_ne hji] at hj
      by_cases hki : k = i
      · rw [hki, State.put_self] at hk
        rw [halone hk j hji] at hj
        cases hj
      · rw [State.put_of_ne hki] at hk
        exact h.alone j k hj hk
  busy j hj := by
    by_cases hji : j = i
    · rw [hji, State.put_self] at hj
      exact hbusy (.inl hj)
    · rw [State.put_of_ne hji] at hj
      exact hbusy (.inr ⟨j, hji, hj⟩)
  current j before d hj := by
    rw [State.put_shared] at hj
    rcases hgen with ⟨hlt, hold⟩ | ⟨heq, hload, hcur⟩
    · -- no call is of the new generation
      have hj' : s.phase j = .older sh.tab.logGen before d := by
        by_cases hji : j = i
        · rw [hji, State.put_self] at hj
          rw [hji, ← hold (by rw [hj]; rfl), hj]
        · rwa [State.put_of_ne hji] at hj
      have hfit := h.fits j
      rw [hj'] at hfit
      have hle : sh.tab.logGen ≤ s.shared.tab.logGen := hfit.1
      omega
    · have hsettled : Settled s := by
        by_cases hji : j = i
        · rw [hji, State.put_self] at hj
          exact hcur before d hj
        · rw [State.put_of_ne hji, heq] at hj
          exact h.current j before d hj
      refine State.forall_put (fun _ c => Call.isLoad c = false) ?_ fun k _ => hsettled k
      rw [← Bool.not_eq_true]
      intro hc
      have hi := hload hc
      rw [hsettled i] at hi
      cases hi
  inSync := hsync

theorem Settled.of_put (h : Settled (s.put i sh c))
    (hc : (s.phase i).isLoad = true → c.isLoad = true) : Settled s := by
  intro j
  have hj := h j
  by_cases hji : j = i
  · rw [hji, State.put_self] at hj
    rw [hji, ← Bool.not_eq_true]
    intro hload
    rw [hc hload] at hj
    cases hj
  · rwa [State.put_of_ne hji] at hj

theorem not_settled_put (hc : c.isLoad = true) : ¬Settled (s.put i sh c) := by
  intro h
  have hi := h i
  rw [State.put_self, hc] at hi
  cases hi

/-! ## One step -/

theorem inv_server (h : Inv regExp files s) (hfiles : 2 ≤ files) {a : Log.Act}
    (ha : Journal.Newlineless a) (hdrop : Journal.DropsNone s.shared.journal a) :
    Inv regExp files (s.put i
      { s.shared with journal := s.shared.journal.step files sizeBytes a } (s.phase i)) := by
  have hopen := h.sound.files
  obtain ⟨added, hadded⟩ := @entries_step files sizeBytes _ h.sound (by omega) a hdrop
  refine h.put (Journal.sound_step h.sound ha) ?_ ((h.fits i).append hadded)
    (fun j _ => (h.fits j).append hadded) h.others ?_ (.inr ⟨rfl, id, h.current i⟩)
    fun hs => h.inSync (hs.of_put id)
  · show s.shared.tab.Gapless (entries _)
    rw [hadded]
    exact h.gapless.append
  · rintro (hi | ⟨j, -, hj⟩)
    · exact h.busy i hi
    · exact h.busy j hj

/-- The tab alone changes, in a new generation. -/
theorem inv_newGen (h : Inv regExp files s) {t : Tab} (hgen : t.logGen = s.shared.tab.logGen + 1)
    (hbusy : t.logBusy = s.shared.tab.logBusy)
    (hgapless : t.Gapless (entries s.shared.journal)) (hc : c.isOlder = true → c = s.phase i)
    (hfit : c.Fits s.shared) (hsync : Settled (s.put i { s.shared with tab := t } c) →
      t.InSync regExp) :
    Inv regExp files (s.put i { s.shared with tab := t } c) := by
  have hfits : ∀ c : Call, c.Fits s.shared → c.Fits { s.shared with tab := t } := fun c hc =>
    hc.tab (by omega) fun _ _ _ heq => absurd heq (by omega)
  refine h.put h.sound hgapless (hfits c hfit) (fun j _ => hfits _ (h.fits j)) (fun hi => ?_) ?_
    (.inl ⟨by show s.shared.tab.logGen < t.logGen; omega, hc⟩) hsync
  · rw [hc hi] at hi
    exact h.others hi
  · show _ → t.logBusy = true
    rw [hbusy]
    rintro (hi | ⟨j, -, hj⟩)
    · rw [hc hi] at hi
      exact h.busy i hi
    · exact h.busy j hj

/-- A base page is called for. -/
theorem inv_load (h : Inv regExp files s) {t : Tab} (hgen : t.logGen = s.shared.tab.logGen + 1)
    (hbusy : t.logBusy = s.shared.tab.logBusy)
    (hgapless : t.Gapless (entries s.shared.journal)) :
    Inv regExp files (s.put i { s.shared with tab := t } (.load none)) :=
  inv_newGen h hgen hbusy hgapless nofun trivial fun hs => absurd hs (not_settled_put rfl)

/-- The tab alone changes, but neither its entries nor its generation. -/
theorem inv_sameEntries (h : Inv regExp files s) {t : Tab}
    (hgen : t.logGen = s.shared.tab.logGen) (hseq : t.logOldestSeq = s.shared.tab.logOldestSeq)
    (hloaded : t.logLoaded = s.shared.tab.logLoaded)
    (hcapped : t.logCapped = s.shared.tab.logCapped)
    (hfit : c.Fits s.shared) (hbusy : ∀ j, j ≠ i → (s.phase j).isOlder = true → t.logBusy = true)
    (halone : c.isOlder = true → t.logBusy = true ∧ ∀ j, j ≠ i → (s.phase j).isOlder = false)
    (hload : c.isLoad = true → (s.phase i).isLoad = true)
    (hcur : ∀ before d, c = .older t.logGen before d → Settled s)
    (hsync : Settled (s.put i { s.shared with tab := t } c) → t.InSync regExp) :
    Inv regExp files (s.put i { s.shared with tab := t } c) := by
  have hfits : ∀ c : Call, c.Fits s.shared → c.Fits { s.shared with tab := t } := fun c hc =>
    hc.tab hgen.ge fun _ _ _ _ => ⟨hseq.symm, hloaded.symm, hcapped.symm⟩
  refine h.put h.sound ⟨?_, ?_, ?_⟩ (hfits c hfit) (fun j _ => hfits _ (h.fits j))
    (fun hc => (halone hc).2) ?_ (.inr ⟨hgen, hload, hcur⟩) hsync
  · show Window (entries s.shared.journal) t.logLoaded t.logOldestSeq
    rw [hloaded, hseq]
    exact h.gapless.window
  · show t.logLoaded.length ≤ logMax
    rw [hloaded]
    exact h.gapless.bounded
  · show t.logCapped = true → t.logLoaded.length = logMax
    rw [hloaded, hcapped]
    exact h.gapless.full
  · rintro (hc | ⟨j, hji, hj⟩)
    · exact (halone hc).1
    · exact hbusy j hji hj

theorem inv_fetchOlder (h : Inv regExp files s) (hi : s.phase i = .idle)
    (hcan : s.shared.tab.canFetch = true) (hsettled : Settled s) :
    Inv regExp files (s.put i { s.shared with tab := { s.shared.tab with logBusy := true } }
      (.older s.shared.tab.logGen s.shared.tab.logOldestSeq none)) := by
  simp only [Tab.canFetch, Bool.not_eq_true', Bool.or_eq_false_iff, beq_eq_false_iff_ne] at hcan
  obtain ⟨⟨⟨hbusy, -⟩, hcapped⟩, hpos⟩ := hcan
  obtain ⟨c, hoc, hc, hspan, hnil⟩ := h.gapless.window
  refine inv_sameEntries h rfl rfl rfl rfl
    ⟨Nat.le_refl _, by omega, fun _ => ⟨rfl, by omega, ?_, hcapped⟩, nofun⟩ (fun _ _ _ => rfl)
    (fun _ => ⟨rfl, fun j _ => ?_⟩) nofun (fun _ _ _ => hsettled) fun hs => ?_
  · exact fun hn => hpos (hnil hn)
  · rw [← Bool.not_eq_true]
    intro hj
    rw [h.busy j hj] at hbusy
    cases hbusy
  · exact h.inSync (hs.of_put (by rw [hi]; exact nofun))

theorem inv_answer_load (h : Inv regExp files s) (hi : s.phase i = .load none) :
    Inv regExp files (s.put i s.shared
      (.load (some (logs s.shared.journal.sink (some logPage) none)))) := by
  refine inv_sameEntries (t := s.shared.tab) h rfl rfl rfl rfl ?_ (fun j _ hj => h.busy j hj) nofun
    (fun _ => by rw [hi]; rfl) nofun fun hs => absurd hs (not_settled_put rfl)
  have hle : upper none (entries s.shared.journal).length ≤ (entries s.shared.journal).length :=
    Nat.sub_le ..
  show Window _ _ _ ∧ _
  rw [entries_logs h.sound]
  refine ⟨window_span (seq_entries _) hle, ?_⟩
  rw [length_span hle, logMax, logPage, maxAutoPages]
  omega

theorem inv_answer_older (h : Inv regExp files s) {gen before : ℕ}
    (hi : s.phase i = .older gen before none) :
    Inv regExp files (s.put i s.shared (.older gen before
      (some (logs s.shared.journal.sink (some logPage) (some before))))) := by
  have hfit := h.fits i
  rw [hi] at hfit
  obtain ⟨hgen, hbefore, hcur, -⟩ := hfit
  have hold : (s.phase i).isOlder = true := by rw [hi]; rfl
  have hpage := entries_logs h.sound (some before)
  rw [upper_some hbefore] at hpage
  generalize logs s.shared.journal.sink (some logPage) (some before) = d at hpage ⊢
  refine inv_sameEntries (t := s.shared.tab) h rfl rfl rfl rfl ⟨hgen, hbefore, hcur, ?_⟩
    (fun j _ hj => h.busy j hj) (fun _ => ⟨h.busy i hold, h.others hold⟩) nofun ?_
    fun hs => h.inSync (hs.of_put (by rw [hi]; exact nofun))
  · rintro page ⟨⟩
    exact hpage
  · rintro _ _ ⟨⟩
    exact h.current i _ _ hi

theorem inv_deliver_load (h : Inv regExp files s) (hi : s.phase i = .load (some d)) :
    Inv regExp files (s.put i { s.shared with tab := s.shared.tab.loaded regExp d } .done) := by
  have hfit := h.fits i
  rw [hi] at hfit
  have hload : (s.phase i).isLoad = true := by rw [hi]; rfl
  have hnot : ¬Settled s := fun hs => by
    rw [hs i] at hload
    cases hload
  refine h.put h.sound ⟨hfit.1, hfit.2, nofun⟩ trivial (fun j _ => ?_) nofun ?_
    (.inr ⟨rfl, nofun, nofun⟩) fun _ => inSync_renderLogList _
  · refine (h.fits j).tab (Nat.le_refl _) fun before d' hj _ => ?_
    exact absurd (h.current j before d' hj) hnot
  · rintro (hc | ⟨j, -, hj⟩)
    · cases hc
    · exact h.busy j hj

theorem inv_deliver_older (h : Inv regExp files s) {gen before : ℕ}
    (hi : s.phase i = .older gen before (some d)) :
    Inv regExp files
      (s.put i { s.shared with tab := s.shared.tab.fetched regExp gen d } .done) := by
  have hfit := h.fits i
  rw [hi] at hfit
  obtain ⟨-, -, hcur, hpage⟩ := hfit
  have hothers := h.others (i := i) (by rw [hi]; rfl)
  have hno : ∀ j, j ≠ i → (s.phase j).isOlder = true → False := fun j hji hj => by
    rw [hothers j hji] at hj
    cases hj
  unfold Tab.fetched
  dsimp only
  split
  case isFalse =>
    exact inv_sameEntries h rfl rfl rfl rfl trivial (fun j hji hj => (hno j hji hj).elim) nofun
      nofun nofun fun hs => h.inSync (hs.of_put (by rw [hi]; exact nofun))
  case isTrue hgen =>
    obtain rfl : gen = s.shared.tab.logGen := hgen
    obtain ⟨rfl, hpos, hne, hcapped⟩ := hcur rfl
    have hseqs := seq_entries s.shared.journal
    have hw := h.gapless.window
    have hd := hpage d rfl
    rw [older_eq (t := { s.shared.tab with logBusy := false }) hseqs hw hpos hd]
    refine h.put h.sound (gapless_pruneRetained hseqs (window_withOlder hseqs hw hne hd) hcapped)
      trivial (fun j hji => ?_) nofun ?_ (.inr ⟨logGen_pruneRetained _, nofun, nofun⟩) fun _ => ?_
    · refine (h.fits j).tab (by simp [Tab.withOlder]) fun _ _ hj => ?_
      exact (hno j hji (by rw [hj]; rfl)).elim
    · rintro (hc | ⟨j, hji, hj⟩)
      · cases hc
      · exact (hno j hji hj).elim
    · exact inSync_pruneRetained (inSync_withOlder (h.inSync (h.current i _ _ hi)))

/-! ## Runs -/

/-- No line is dropped, no older page is called for while a base page is on its way, and a
base page fails to come only while the rows are in sync. -/
def Careful (regExp : String → Option (String → Bool)) (s : State ι Shared Call) (a : ι × Act) :
    Prop :=
  match a.2 with
  | .server b => Journal.Newlineless b ∧ Journal.DropsNone s.shared.journal b
  | .fetchOlder => s.shared.tab.canFetch = true → s.shared.tab.logsBox.isSome = true → Settled s
  | .fail => (s.phase a.1).isLoad = true → s.shared.tab.InSync regExp
  | _ => True

def step (regExp : String → Option (String → Bool)) (files sizeBytes : ℕ)
    (s : State ι Shared Call) (a : ι × Act) : State ι Shared Call :=
  Publish.step (fun _ => advance regExp files sizeBytes) s a

/-- The dashboard is opened on a server with this journal. -/
def start (j : Journal) : State ι Shared Call := ⟨⟨j, .start⟩, fun _ => .idle⟩

theorem put_same : s.put i s.shared (s.phase i) = s := by
  refine congrArg (State.mk s.shared) (funext fun j => ?_)
  by_cases hj : j = i
  · rw [if_pos hj, hj]
  · rw [if_neg hj]

omit [DecidableEq ι] in
theorem inv_start {j : Journal} (hs : Journal.Sound files j) :
    Inv regExp files (start j : State ι Shared Call) where
  sound := hs
  gapless := gapless_nil rfl rfl rfl
  fits _ := trivial
  alone _ _ := nofun
  busy _ := nofun
  current _ _ _ := nofun
  inSync _ := nofun

theorem inv_step (hfiles : 2 ≤ files) (h : Inv regExp files s) {a : ι × Act}
    (hc : Careful regExp s a) : Inv regExp files (step regExp files sizeBytes s a) := by
  obtain ⟨i, a⟩ := a
  have hstep : ∀ c r, s.phase i = c → advance regExp files sizeBytes a s.shared c = r →
      Inv regExp files (s.put i r.1 r.2) := by
    intro c r hi hr
    have hstay : Inv regExp files (s.put i s.shared c) := by rwa [← hi, put_same]
    unfold advance at hr
    split at hr
    case h_1 b =>
      subst hr hi
      exact inv_server h hfiles hc.1 hc.2
    case h_2 =>
      subst hr hi
      exact inv_newGen h rfl rfl (gapless_nil rfl rfl rfl) (fun _ => rfl) (h.fits i) fun _ => nofun
    case h_3 f =>
      subst hr hi
      exact inv_sameEntries h rfl rfl rfl rfl (h.fits i) (fun j _ => h.busy j)
        (fun hold => ⟨h.busy i hold, h.others hold⟩) id (h.current i)
        fun _ => inSync_renderLogList _
    case h_4 =>
      subst hr
      exact inv_load h rfl rfl (gapless_nil rfl rfl rfl)
    case h_5 =>
      subst hr
      exact inv_load h rfl rfl ⟨h.gapless.window, h.gapless.bounded, h.gapless.full⟩
    case h_6 =>
      subst hr
      exact inv_load h rfl rfl ⟨h.gapless.window, h.gapless.bounded, h.gapless.full⟩
    case h_7 =>
      split at hr
      case isTrue hcan =>
        subst hr
        by_cases hbox : s.shared.tab.logsBox.isSome = true
        · rw [if_pos hbox]
          exact inv_fetchOlder h hi hcan (hc hcan hbox)
        · rw [if_neg hbox]
          exact inv_sameEntries h rfl rfl rfl rfl trivial (fun _ _ _ => rfl) nofun nofun nofun
            fun hs => h.inSync (hs.of_put (by rw [hi]; exact nofun))
      case isFalse =>
        subst hr
        exact hstay
    case h_8 =>
      subst hr
      exact inv_answer_load h hi
    case h_9 =>
      subst hr
      exact inv_answer_older h hi
    case h_10 =>
      subst hr
      exact inv_deliver_load h hi
    case h_11 =>
      subst hr
      exact inv_deliver_older h hi
    case h_12 =>
      subst hr
      refine inv_sameEntries (t := s.shared.tab) h rfl rfl rfl rfl trivial (fun j _ => h.busy j)
        nofun nofun nofun fun _ => hc ?_
      rw [hi]
      rfl
    case h_13 =>
      subst hr
      have hold : (s.phase i).isOlder = true := by rw [hi]; rfl
      refine inv_sameEntries h rfl rfl rfl rfl trivial (fun j hji hj => ?_) nofun nofun nofun
        fun hs => h.inSync (hs.of_put (by rw [hi]; exact nofun))
      rw [h.others hold j hji] at hj
      cases hj
    case h_14 =>
      subst hr
      exact hstay
  exact hstep _ _ rfl rfl

/-- **The Logs tab has no gap.** In a careful run, what it has loaded is always a part of
the log without gaps, from the number it pages back from on, of bounded length; its rows
are those of the entries loaded that match, once no base page is on its way. -/
theorem logsTab_gapless (hfiles : 2 ≤ files) {written : List Log.Act}
    (hwritten : ∀ a ∈ written, Journal.Newlineless a) {acts : List (ι × Act)}
    (h : Run.Along (step regExp files sizeBytes) (Careful regExp)
      (start (Journal.run files sizeBytes written)) acts) {s : State ι Shared Call}
    (hs : s = acts.foldl (step regExp files sizeBytes)
      (start (Journal.run files sizeBytes written))) :
    (∃ c, s.shared.tab.logOldestSeq ≤ c ∧
      c ≤ (s.shared.journal.sink.read 0 none).entries.length ∧
      s.shared.tab.logLoaded =
        span (s.shared.journal.sink.read 0 none).entries s.shared.tab.logOldestSeq c) ∧
      s.shared.tab.logLoaded.length ≤ 12600 ∧
      (Settled s → ∀ rows ∈ s.shared.tab.logsBox,
        rows = s.shared.tab.logLoaded.filter (logMatches regExp s.shared.tab.logFilters)) := by
  have hinv : Inv regExp files s := by
    rw [hs]
    exact Run.foldl_inv (I := Inv regExp files) (fun _ _ h hc => inv_step hfiles h hc)
      (inv_start (Journal.sound_run hwritten)) h
  have hall : (s.shared.journal.sink.read 0 none).entries = entries s.shared.journal := by
    rw [hinv.sound.holds.read_entries hinv.sound.kept_clean, pageOf_all, entries]
  rw [hall]
  obtain ⟨c, hoc, hc, hspan, -⟩ := hinv.gapless.window
  exact ⟨⟨c, hoc, hc, hspan⟩, hinv.gapless.bounded, hinv.inSync⟩

/-- The tab is opened, a line is written, and the tab is refreshed. -/
def sampleActs : List (ℕ × Act) :=
  [(0, .renderLogs), (0, .answer), (0, .deliver), (0, .server (.write "c")),
    (1, .refresh), (1, .answer), (1, .deliver)]

def noRegExp : String → Option (String → Bool) := fun _ => none

def sampleTab : State ℕ Shared Call :=
  sampleActs.foldl (step noRegExp 2 1024) (start (Journal.run 2 1024 [.write "a", .write "b"]))

theorem newlineless_sample :
    ∀ a ∈ [Log.Act.write "a", .write "b"], Journal.Newlineless a := by
  rintro a ha line rfl
  simp at ha
  rcases ha with rfl | rfl <;> decide

theorem careful_sample : Run.Along (step noRegExp 2 1024) (Careful noRegExp)
    (start (Journal.run 2 1024 [.write "a", .write "b"])) sampleActs := by
  refine ⟨trivial, trivial, trivial, ⟨?_, ?_⟩, trivial, trivial, trivial, trivial⟩
  · rintro line ⟨⟩
    decide
  · rintro line ⟨⟩ ⟨hrotates, -⟩
    revert hrotates
    decide

theorem idle_sample {i : ℕ} (hi : 2 ≤ i) : sampleTab.phase i = .idle := by
  have hacts : ∀ a ∈ sampleActs, a.1 < 2 := by simp [sampleActs]
  show (run (fun _ => advance noRegExp 2 1024)
    (start (Journal.run 2 1024 [.write "a", .write "b"])) sampleActs).phase i = _
  rw [phase_run_of_ne fun a ha => by have := hacts a ha; omega]
  rfl

theorem settled_sample : Settled sampleTab := by
  intro i
  rcases Nat.lt_or_ge i 2 with hlt | hge
  · obtain rfl | rfl : i = 0 ∨ i = 1 := by omega
    · rfl
    · rfl
  · rw [idle_sample hge]
    rfl

theorem logsTab_gapless_sample : ∃ rows, sampleTab.shared.tab.logsBox = some rows ∧
    rows = sampleTab.shared.tab.logLoaded.filter
      (logMatches noRegExp sampleTab.shared.tab.logFilters) :=
  ⟨_, rfl, (logsTab_gapless (Nat.le_refl 2) newlineless_sample careful_sample rfl).2.2
    settled_sample _ rfl⟩

end XavierDB.Dashboard
