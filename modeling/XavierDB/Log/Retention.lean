import Mathlib.Data.Set.Card
import XavierDB.Log.Seq
import XavierDB.Log.Text

/-!
# Retention (`src/state.rs`)

A rotation moves the files one place on within the suffixes below the number of
files. With one file there is no such suffix: the rotated file becomes
`xavierdb.log.1` all the same, a second file that no read opens.
-/

namespace XavierDB.Log

/-- What the files up to the suffix `n` hold, oldest first. -/
def Dir.bytes (d : Dir) (n : Nat) : Bytes :=
  ((List.range' 1 n).reverse.map fun i => (d (.suffix i)).getD []).flatten ++
    (d .current).getD []

/-- The lines of all log files of the directory, oldest first. -/
def Dir.HoldsLines (d : Dir) (lines : List String) : Prop :=
  ∃ n, (∀ i, d (.suffix i) ≠ none → 1 ≤ i ∧ i ≤ n) ∧
    d.bytes n = Lines.unlines newline (lines.map utf8Bytes)

namespace Journal

/-- The files are as many as configured and of the size configured, but for a file
that holds a single line; they hold the end of what was written, and a read shows all
of it. -/
structure Retains (files : Nat) (j : Journal) : Prop where
  count : {f | j.sink.dir f ≠ none}.encard ≤ files
  size : ∀ f bytes, j.sink.dir f = some bytes →
    bytes.length ≤ j.sink.sizeBytes ∨
      ∃ line ∈ j.written, '\n' ∉ line.toList ∧ bytes = utf8Bytes line ++ [newline]
  lines : ∃ lines, j.sink.dir.HoldsLines lines ∧ lines <:+ j.written ∧
    (j.sink.read 0 none).entries.map LogEntry.raw = lines.map shown

/-- The step is no write that rotates. -/
def NoRotation (j : Journal) (a : Act) : Prop := ∀ line, a = .write line → ¬j.sink.Rotates line

/-! ## Which files there are -/

theorem renameChain_of_ne {n : Nat} {f : LogFile} (h : ∀ i, 1 ≤ i → i ≤ n + 1 → f ≠ .suffix i)
    (d : Dir) : LogFileSink.renameChain n d f = d f := by
  induction n generalizing d with
  | zero => rfl
  | succ n ih =>
    rw [LogFileSink.renameChain_succ, ih fun i h1 h2 => h i h1 (by omega),
      Dir.rename_of_ne (h _ (by omega) (by omega)) (h _ (by omega) (by omega))]

/-- A rotation touches no other suffix. -/
theorem rotate_suffix_of {s : LogFileSink} {i : Nat} (hi : i = 0 ∨ max 1 (s.files - 1) < i)
    (h : s.dir (.suffix i) = none) : s.rotate.dir (.suffix i) = none := by
  unfold LogFileSink.rotate
  dsimp only
  have hchain : ∀ k, 1 ≤ k → k ≤ s.files - 2 + 1 → LogFile.suffix i ≠ .suffix k := by
    intro k h1 h2
    rw [Ne, LogFile.suffix.injEq]
    omega
  have hone : LogFile.suffix i ≠ .suffix 1 := by
    rw [Ne, LogFile.suffix.injEq]
    omega
  rw [Dir.create_of_ne (by simp), Dir.rename_of_ne (by simp) hone, renameChain_of_ne hchain]
  by_cases hlast : i = s.files - 1
  · rw [hlast, Dir.remove_self]
  · rw [Dir.remove_of_ne (by simpa using hlast), h]

theorem write_suffix (s : LogFileSink) (line : String) (i : Nat) :
    (s.write line).dir (.suffix i) =
      if s.Rotates line then s.rotate.dir (.suffix i) else s.dir (.suffix i) := by
  unfold LogFileSink.write LogFileSink.appendLine
  dsimp only
  rw [Dir.append_of_ne (by simp)]
  split <;> rfl

/-- No suffix beyond the rotated files, 1 apart. -/
def Confined (j : Journal) : Prop :=
  ∀ i, i = 0 ∨ max 1 (j.sink.files - 1) < i → j.sink.dir (.suffix i) = none

/-- What holds of every run: sound, each file within its size, no file out of place. -/
structure Kept (files sizeBytes : Nat) (j : Journal) : Prop extends Sound files j where
  sizeBytes : j.sink.sizeBytes = max sizeBytes 1024
  bounded : j.store.Bounded Written.size j.sink.sizeBytes
  confined : Confined j

variable {files sizeBytes : Nat} {j : Journal}

theorem kept_start : Kept files sizeBytes (start files sizeBytes) where
  toSound := sound_start
  sizeBytes := rfl
  bounded := Rotating.bounded_empty _
  confined i _ := by
    show Dir.create (fun _ => none) .current (.suffix i) = none
    rw [Dir.create_of_ne (by simp)]

theorem kept_write (h : Kept files sizeBytes j) {line : String} (hline : '\n' ∉ line.toList) :
    Kept files sizeBytes (step files sizeBytes j (.write line)) where
  toSound := sound_step h.toSound fun l hl => by cases hl; exact hline
  sizeBytes := (sizeBytes_write j.sink line).trans h.sizeBytes
  bounded := by
    show (j.store.put _ _ _).Bounded _ (j.sink.write line).sizeBytes
    rw [sizeBytes_write]
    exact h.bounded.put _
  confined i hi := by
    have hfiles : (step files sizeBytes j (.write line)).sink.files = j.sink.files :=
      files_write j.sink line
    rw [hfiles] at hi
    show (j.sink.write line).dir (.suffix i) = none
    rw [write_suffix]
    split
    · exact rotate_suffix_of hi (h.confined i hi)
    · exact h.confined i hi

theorem kept_restart (h : Kept files sizeBytes j) :
    Kept files sizeBytes (step files sizeBytes j .restart) where
  toSound := sound_step h.toSound fun l hl => by cases hl
  sizeBytes := rfl
  bounded := by
    show j.store.Bounded _ (max sizeBytes 1024)
    rw [← h.sizeBytes]
    exact h.bounded
  confined i hi := by
    have hfiles : (step files sizeBytes j .restart).sink.files = j.sink.files := h.files
    rw [hfiles] at hi
    show j.sink.dir.create .current (.suffix i) = none
    rw [Dir.create_of_ne (by simp)]
    exact h.confined i hi

theorem kept_run {acts : List Act} (hacts : ∀ a ∈ acts, Newlineless a) :
    Kept files sizeBytes (run files sizeBytes acts) := by
  induction acts using List.reverseRecOn with
  | nil => exact kept_start
  | append_singleton acts a ih =>
    rw [List.forall_mem_append, List.forall_mem_singleton] at hacts
    rw [run_concat]
    cases a with
    | write line => exact kept_write (ih hacts.1) (hacts.2 line rfl)
    | restart => exact kept_restart (ih hacts.1)

/-! ## What they hold -/

theorem flatten_map_fileBytes (gs : List (List Written)) :
    (gs.map fileBytes).flatten = fileBytes gs.flatten := by
  induction gs with
  | nil => rfl
  | cons g gs ih =>
    rw [List.map_cons, List.flatten_cons, ih, List.flatten_cons, fileBytes, fileBytes, fileBytes,
      List.map_append, Lines.unlines_append]

/-- The files up to the last suffix hold what is kept. -/
theorem bytes_eq {s : LogFileSink} {r : Rotating Written} (h : Holds s r) :
    s.dir.bytes r.old.length = fileBytes r.kept := by
  have hold : (List.range' 1 r.old.length).map (fun i => (s.dir (.suffix i)).getD []) =
      r.old.map fileBytes := by
    refine List.ext_getElem (by simp) fun i hi _ => ?_
    rw [List.length_map, List.length_range'] at hi
    have hfile := h.rotated i _ (List.getElem?_eq_getElem hi)
    rw [List.getElem_map, List.getElem_range', List.getElem_map, ← hfile]
    congr 3
    omega
  rw [Dir.bytes, List.map_reverse, hold, ← List.map_reverse, flatten_map_fileBytes, h.current,
    Option.getD_some, Rotating.kept, fileBytes, fileBytes, fileBytes, List.map_append,
    Lines.unlines_append]

theorem unlines_texts (ws : List Written) :
    fileBytes ws = Lines.unlines newline ((ws.map Written.text).map utf8Bytes) := by
  rw [fileBytes, List.map_map]
  rfl

/-- A file of the store is within its bounds, or holds one of the lines written. -/
theorem Kept.size_fileBytes (h : Kept files sizeBytes j) {ws : List Written}
    (hws : ws ∈ j.store.cur :: j.store.old) :
    (fileBytes ws).length ≤ j.sink.sizeBytes ∨
      ∃ line ∈ j.written, '\n' ∉ line.toList ∧ fileBytes ws = utf8Bytes line ++ [newline] := by
  rcases h.bounded ws hws with hsize | ⟨w, rfl⟩
  · exact .inl (by rw [length_fileBytes]; exact hsize)
  · have hkept : w ∈ j.store.kept := by
      rw [Rotating.kept, List.mem_append, List.mem_flatten]
      rcases List.mem_cons.mp hws with hcur | hold
      · exact .inr (hcur ▸ List.mem_singleton_self w)
      · exact .inl ⟨[w], List.mem_reverse.mpr hold, List.mem_singleton_self w⟩
    have hwritten : w.text ∈ j.written := h.kept.subset (List.mem_map_of_mem hkept)
    exact .inr ⟨w.text, hwritten, h.clean _ hwritten, by simp [fileBytes]⟩

theorem Kept.size (h : Kept files sizeBytes j) (hin : ∀ i, j.sink.dir (.suffix i) ≠ none →
    1 ≤ i ∧ i ≤ j.store.old.length) {f : LogFile} {bytes : Bytes} (hf : j.sink.dir f = some bytes) :
    bytes.length ≤ j.sink.sizeBytes ∨
      ∃ line ∈ j.written, '\n' ∉ line.toList ∧ bytes = utf8Bytes line ++ [newline] := by
  cases f with
  | current =>
    obtain rfl := Option.some.inj (h.holds.current.symm.trans hf)
    exact h.size_fileBytes List.mem_cons_self
  | suffix i =>
    obtain ⟨h1, h2⟩ := hin i (by rw [hf]; exact Option.some_ne_none bytes)
    have hget := List.getElem?_eq_getElem (by omega : i - 1 < j.store.old.length)
    have hfile := h.holds.rotated (i - 1) _ hget
    rw [Nat.sub_add_cancel h1, hf, Option.getD_some] at hfile
    rw [hfile]
    exact h.size_fileBytes (List.mem_cons_of_mem _ (List.getElem_mem _))

/-- Where every suffix is below the number of files, all is as it should be. -/
theorem Kept.retains (h : Kept files sizeBytes j) (hfiles : j.sink.files = files)
    (hpos : 1 ≤ files) (hin : ∀ i, j.sink.dir (.suffix i) ≠ none → 1 ≤ i ∧ i + 1 ≤ files) :
    Retains files j := by
  have hold := h.holds.old
  have hin' : ∀ i, j.sink.dir (.suffix i) ≠ none → 1 ≤ i ∧ i ≤ j.store.old.length := by
    intro i hi
    have := hin i hi
    omega
  constructor
  case count =>
    have hsub : {f | j.sink.dir f ≠ none} ⊆
        ((insert LogFile.current ((Finset.range (files - 1)).image fun i => .suffix (i + 1)) :
          Finset LogFile) : Set LogFile) := by
      intro f hf
      cases f with
      | current => simp
      | suffix i =>
        have := hin i hf
        simp only [Finset.coe_insert, Finset.coe_image, Set.mem_insert_iff, reduceCtorEq, false_or]
        exact ⟨i - 1, by simp; omega, congrArg LogFile.suffix (Nat.sub_add_cancel this.1)⟩
    refine (Set.encard_le_encard hsub).trans ?_
    rw [Set.encard_coe_eq_coe_finsetCard]
    have hcard := (Finset.card_insert_le LogFile.current
      ((Finset.range (files - 1)).image fun i => .suffix (i + 1))).trans
        (Nat.add_le_add_right Finset.card_image_le 1)
    rw [Finset.card_range] at hcard
    exact_mod_cast hcard.trans (by omega)
  case size => exact fun f bytes hf => h.size hin' hf
  case lines =>
    refine ⟨j.store.kept.map Written.text, ⟨j.store.old.length, hin', ?_⟩, h.kept, ?_⟩
    · rw [bytes_eq h.holds, unlines_texts]
    · rw [h.holds.read_entries h.kept_clean, pageOf_all, raw_entriesFrom, List.map_map]
      rfl

/-! ## One file -/

/-- A rotated file gets the suffix 1, however many files there are to be. -/
theorem rotate_suffix_one {s : LogFileSink} (hcur : s.dir .current ≠ none) :
    s.rotate.dir (.suffix 1) ≠ none := by
  have hchain :
      LogFileSink.renameChain (s.files - 2) (s.dir.remove (.suffix (s.files - 1))) .current =
        s.dir .current := by
    rw [LogFileSink.renameChain_current, Dir.remove_of_ne (by simp)]
  unfold LogFileSink.rotate
  dsimp only
  rw [Dir.create_of_ne (by simp), Dir.rename_dst (by simp) (.inr (by rwa [hchain])), hchain]
  exact hcur

theorem files_run {acts : List Act} (hacts : ∀ a ∈ acts, Newlineless a)
    (hfiles : 1 ≤ files ∧ files ≤ 10) : (run files sizeBytes acts).sink.files = files := by
  have hsound : Sound files (run files sizeBytes acts) := sound_run hacts
  have hopen := hsound.files
  omega

/-- With one file there is a second one as soon as a write has rotated. -/
theorem suffix_one_iff {acts : List Act} (hacts : ∀ a ∈ acts, Newlineless a) :
    (run 1 sizeBytes acts).sink.dir (.suffix 1) = none ↔
      Run.Along (step 1 sizeBytes) NoRotation (start 1 sizeBytes) acts := by
  induction acts using List.reverseRecOn with
  | nil =>
    have hnone : Dir.create (fun _ => none) .current (.suffix 1) = none :=
      Dir.create_of_ne (by simp)
    exact iff_of_true hnone trivial
  | append_singleton acts a ih =>
    rw [List.forall_mem_append, List.forall_mem_singleton] at hacts
    rw [run_concat, Run.along_append, ← ih hacts.1]
    have hkept : Kept 1 sizeBytes (run 1 sizeBytes acts) := kept_run hacts.1
    have hcur : (run 1 sizeBytes acts).sink.dir .current ≠ none := by
      rw [hkept.holds.current]
      exact Option.some_ne_none _
    have hrun : acts.foldl (step 1 sizeBytes) (start 1 sizeBytes) = run 1 sizeBytes acts := rfl
    rw [hrun]
    generalize run 1 sizeBytes acts = j at hcur
    cases a with
    | write line =>
      show (j.sink.write line).dir (.suffix 1) = none ↔ _
      rw [write_suffix]
      by_cases hrot : j.sink.Rotates line
      · rw [if_pos hrot]
        exact iff_of_false (rotate_suffix_one hcur) fun h => h.2.1 line rfl hrot
      · rw [if_neg hrot]
        refine ⟨fun h => ⟨h, fun l hl => ?_, trivial⟩, And.left⟩
        cases hl
        exact hrot
    | restart =>
      show j.sink.dir.create .current (.suffix 1) = none ↔ _
      rw [Dir.create_of_ne (by simp)]
      exact ⟨fun h => ⟨h, (fun l hl => by cases hl), trivial⟩, And.left⟩

/-- A second file is one too many. -/
theorem not_retains_one (h1 : j.sink.dir .current ≠ none) (h2 : j.sink.dir (.suffix 1) ≠ none) :
    ¬Retains 1 j := by
  intro h
  have hcount := Set.encard_le_one_iff.mp h.count .current (.suffix 1) h1 h2
  cases hcount

/-- **Retention** is bounded and visible with two files or more, and with one file
as long as no write rotates. -/
theorem retains_iff (files sizeBytes : Nat) (hfiles : 1 ≤ files ∧ files ≤ 10) (acts : List Act)
    (hacts : ∀ a ∈ acts, Newlineless a) :
    Retains files (run files sizeBytes acts) ↔
      2 ≤ files ∨ Run.Along (step files sizeBytes) NoRotation (start files sizeBytes) acts := by
  have hkept : Kept files sizeBytes (run files sizeBytes acts) := kept_run hacts
  have hopen := @files_run files sizeBytes acts hacts hfiles
  have hin : ∀ i, (run files sizeBytes acts).sink.dir (.suffix i) ≠ none →
      1 ≤ i ∧ i ≤ max 1 (files - 1) := by
    intro i hi
    have hout := mt (hkept.confined i) hi
    rw [hopen] at hout
    omega
  rcases Nat.lt_or_ge files 2 with hlt | hge
  · obtain rfl : files = 1 := by omega
    rw [or_iff_right (by omega), ← suffix_one_iff hacts]
    constructor
    · intro h
      by_contra hone
      refine not_retains_one ?_ hone h
      rw [hkept.holds.current]
      exact Option.some_ne_none _
    · intro hone
      refine hkept.retains hopen (Nat.le_refl 1) fun i hi => ?_
      have hi' := hin i hi
      obtain rfl : i = 1 := by omega
      exact absurd hone hi
  · refine iff_of_true (hkept.retains hopen hfiles.1 fun i hi => ?_) (.inl hge)
    have hi' := hin i hi
    omega

/-- One file of 1024 bytes does not hold two lines of 600. -/
theorem rotates_long {a b : String} (ha : a.utf8ByteSize = 600) (hb : b.utf8ByteSize = 600) :
    (run 1 1024 [.write a]).sink.Rotates b := by
  have hsize : (LogFileSink.new (fun _ => none) 1 1024).sizeBytes = 1024 := rfl
  have htracks : Tracks 1 (run 1 1024 [.write a]) := (tracks_writes [a]).1
  refine (htracks.holds.rotates_iff ⟨b, 1⟩).mpr ?_
  simp [run, step, start, sizeBytes_write, hsize, Rotating.empty, Rotating.put, Rotating.Full,
    Written.size, ha, hb]

/-- Two lines, one file: the first line is in a second file. -/
theorem retains_two_files :
    ¬Retains 1 (run 1 1024 [.write (longLine 'a'), .write (longLine 'b')]) := by
  have hclean : ∀ a ∈ [Act.write (longLine 'a'), .write (longLine 'b')], Newlineless a := by
    simp only [List.forall_mem_cons]
    exact ⟨newlineless_longLine (by decide), newlineless_longLine (by decide),
      List.forall_mem_nil _⟩
  have hkept : Kept 1 1024 (run 1 1024 [.write (longLine 'a'), .write (longLine 'b')]) :=
    kept_run hclean
  refine not_retains_one ?_ fun hnone => ?_
  · rw [hkept.holds.current]
    exact Option.some_ne_none _
  · obtain ⟨-, hstep, -⟩ := (suffix_one_iff hclean).mp hnone
    exact hstep _ rfl (rotates_long (utf8ByteSize_longLine (by decide : 'a'.utf8Size = 1))
      (utf8ByteSize_longLine (by decide : 'b'.utf8Size = 1)))

theorem retains_sample : Retains 2 (run 2 1024 [.write "a", .restart, .write "b"]) := by
  refine (retains_iff 2 1024 ⟨by omega, by omega⟩ _ ?_).mpr (.inl (Nat.le_refl 2))
  rintro a ha line rfl
  simp at ha
  rcases ha with rfl | rfl <;> decide

end Journal

end XavierDB.Log
