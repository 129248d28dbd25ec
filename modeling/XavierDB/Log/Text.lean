import XavierDB.Log.Read

/-!
# The texts written (`src/state.rs`, `src/main.rs`)

The counters advance once per write and the reader splits at newlines, so a
write is one entry with its text exactly when the text is one line. A panic
report never is.
-/

namespace XavierDB.Log

/-- The text has no newline and no carriage return at its end. -/
def OneLine (text : String) : Prop := '\n' ∉ text.toList ∧ text.toList.getLast? ≠ some '\r'

/-! ## Panic reports -/

/-- `{timestamp} {level:>5} XavierDB: {msg}` -/
def pushFmt (timestamp level msg : String) : String :=
  timestamp ++ " " ++ String.ofList (level.toList.leftpad 5 ' ') ++ " XavierDB: " ++ msg

/-- The message of the panic hook; the location is empty or `" at {file}:{line}:{column}"`. -/
def panicReport (thread loc payload : String) : String :=
  "thread '" ++ thread ++ "' panicked" ++ loc ++ ":\n" ++ payload

theorem not_oneLine_panicReport (timestamp thread loc payload : String) :
    ¬OneLine (pushFmt timestamp "ERROR" (panicReport thread loc payload)) := by
  refine fun h => h.1 ?_
  simp [pushFmt, panicReport]

theorem shown_eq_iff {text : String} : shown text = text ↔ text.toList.getLast? ≠ some '\r' := by
  constructor
  · intro h hlast
    have hle := length_stripCr_le (stripCr text)
    have hlt := length_stripCr_lt hlast
    rw [← shown, h] at hle
    omega
  · intro h
    rw [shown, stripCr_of_not h, stripCr_of_not h]

namespace Journal

/-- The tracked counts are those of the files, and each kept write is one entry with its text. -/
structure OneEntry (j : Journal) : Prop where
  curLines : j.sink.curLines = countLines (j.sink.dir .current)
  rotatedLines : j.sink.rotatedLines =
    (List.range (j.sink.files - 1)).map fun i => countLines (j.sink.dir (.suffix (i + 1)))
  entries : (j.sink.read 0 none).entries.map LogEntry.raw = j.store.kept.map Written.text

variable {files sizeBytes : Nat}

theorem tracks_writes (lines : List String) :
    Tracks files (run files sizeBytes (lines.map .write)) ∧
      (run files sizeBytes (lines.map .write)).written = lines := by
  induction lines using List.reverseRecOn with
  | nil => exact ⟨.start, rfl⟩
  | append_singleton lines line ih =>
    rw [List.map_append, List.map_singleton, run_concat]
    refine ⟨ih.1.write line, ?_⟩
    show (run files sizeBytes (lines.map .write)).written ++ [line] = lines ++ [line]
    rw [ih.2]

/-- The counts fit the files as soon as no kept line holds a newline. -/
theorem oneEntry_of_oneLine {j : Journal} (h : Tracks files j)
    (hline : ∀ w ∈ j.store.kept, OneLine w.text) : OneEntry j := by
  have hclean : ∀ w ∈ j.store.kept, '\n' ∉ w.text.toList := fun w hw => (hline w hw).1
  have hnew := @Holds.reopen _ _ h.holds files 0 h.files hclean
  refine ⟨h.holds.curLines.trans hnew.curLines.symm, ?_, ?_⟩
  · rw [← h.files]
    exact h.holds.rotatedLines.trans hnew.rotatedLines.symm
  · rw [h.holds.read_entries hclean, pageOf_all, raw_entriesFrom]
    exact List.map_congr_left fun w hw => shown_eq_iff.mpr (hline w hw).2

/-- Where the counts fit and the texts come back, the lines of the current file are one line. -/
theorem oneLine_of_oneEntry {j : Journal} (h : Tracks files j) (hone : OneEntry j)
    (hclean : ∀ w ∈ j.store.kept, w ∉ j.store.cur → '\n' ∉ w.text.toList) :
    ∀ w ∈ j.store.cur, OneLine w.text := by
  have hcount : (fileBytes j.store.cur).count newline = j.store.cur.length := by
    rw [← h.holds.curLines, hone.curLines, countLines, h.holds.current, Option.getD_some]
  have hcur := count_fileBytes_eq_iff.mp hcount
  have hkept : ∀ w ∈ j.store.kept, '\n' ∉ w.text.toList := by
    intro w hw
    by_cases hmem : w ∈ j.store.cur
    · exact hcur w hmem
    · exact hclean w hw hmem
  have hraws := hone.entries
  rw [h.holds.read_entries hkept, pageOf_all, raw_entriesFrom, List.map_inj_left] at hraws
  exact fun w hw => ⟨hcur w hw, shown_eq_iff.mp (hraws w (Rotating.mem_kept.mpr (.inr hw)))⟩

/-- A write is one entry with its text, along the whole run, exactly when each text is one line. -/
theorem oneEntry_iff (files sizeBytes : Nat) (lines : List String) :
    (∀ pre, pre <+: lines → OneEntry (run files sizeBytes (pre.map .write))) ↔
      ∀ line ∈ lines, OneLine line := by
  constructor
  · intro hone
    induction lines using List.reverseRecOn with
    | nil => exact List.forall_mem_nil _
    | append_singleton lines line ih =>
      have hlines := ih fun pre hpre => hone pre (hpre.trans (List.prefix_append ..))
      refine List.forall_mem_append.mpr ⟨hlines, List.forall_mem_singleton.mpr ?_⟩
      obtain ⟨htracks, hwritten⟩ := @tracks_writes files sizeBytes lines
      have hlast := hone (lines ++ [line]) (List.prefix_refl _)
      rw [List.map_append, List.map_singleton, run_concat] at hlast
      generalize run files sizeBytes (lines.map .write) = j at htracks hwritten hlast
      obtain ⟨ws, hcur⟩ := @Rotating.cur_put _ Written.size j.sink.sizeBytes j.store
        ⟨line, j.written.length⟩
      have hmem : ⟨line, j.written.length⟩ ∈ (step files sizeBytes j (.write line)).store.cur := by
        show _ ∈ (j.store.put _ _ _).cur
        rw [hcur]
        exact List.mem_append_right _ List.mem_cons_self
      refine oneLine_of_oneEntry (htracks.write line) hlast (fun w hw hold => ?_) _ hmem
      -- what is kept of the lines before is one line
      rcases List.mem_append.mp (Rotating.kept_put_suffix.subset hw) with h | h
      · have htext := htracks.kept.subset (List.mem_map_of_mem h)
        rw [hwritten] at htext
        exact (hlines _ htext).1
      · rw [List.mem_singleton.mp h] at hold
        exact absurd hmem hold
  · rintro hline pre ⟨rest, rfl⟩
    obtain ⟨htracks, hwritten⟩ := @tracks_writes files sizeBytes pre
    refine oneEntry_of_oneLine htracks fun w hw => hline _ ?_
    have hmem := htracks.kept.subset (List.mem_map_of_mem hw)
    rw [hwritten] at hmem
    exact List.mem_append_left _ hmem

/-- A panic's line: two lines of the file under one count, and only the second is read. -/
theorem panic_splits :
    let report := pushFmt "2026-08-14T13:59:50.912518Z" "ERROR" (panicReport "main" "" "boom")
    (run 5 1048576 [.write report]).sink.curLines = 1 ∧
      countLines ((run 5 1048576 [.write report]).sink.dir .current) = 2 ∧
      ((run 5 1048576 [.write report]).sink.read 0 none).entries.map LogEntry.raw = ["boom"] ∧
      ¬∀ pre, pre <+: [report] → OneEntry (run 5 1048576 (pre.map .write)) := by
  intro report
  have htracked : (run 5 1048576 [.write report]).sink.curLines = 1 := by decide +kernel
  have hfound : countLines ((run 5 1048576 [.write report]).sink.dir .current) = 2 := by
    decide +kernel
  refine ⟨htracked, hfound, by decide +kernel, fun h => ?_⟩
  have hcounts : (run 5 1048576 [.write report]).sink.curLines =
      countLines ((run 5 1048576 [.write report]).sink.dir .current) :=
    (h [report] (List.prefix_refl _)).curLines
  rw [htracked, hfound] at hcounts
  cases hcounts

end Journal

end XavierDB.Log
