import XavierDB.Base.Run
import XavierDB.Log.Read

/-!
# Sequence numbers (`src/state.rs`)

A read numbers the lines from the oldest that is left. These are the numbers of
the writes until a rotation drops a line; then the lines that are left move up.
-/

namespace XavierDB.Log

/-- The write rotates and the file it drops is not empty. -/
def LogFileSink.Evicts (s : LogFileSink) (line : String) : Prop :=
  s.Rotates line ∧ (s.dir (.suffix (s.files - 1))).getD [] ≠ []

namespace Journal

/-- Every read gives the kept writes under these sequence numbers. -/
def ReadsAs (j : Journal) (seqOf : Nat → Nat) : Prop :=
  ∀ limit before, (j.sink.read limit before).entries =
    pageOf limit before (j.store.kept.map fun w => entryOf (seqOf w.number) (shown w.text))

/-- The newest kept write has the sequence number before the total. -/
def NewestIs (j : Journal) (seqOf : Nat → Nat) : Prop :=
  ∀ limit before w, j.store.kept.getLast? = some w →
    seqOf w.number + 1 = (j.sink.read limit before).total

/-- One numbering of the writes, no two alike, fits every read along the run. -/
def SeqsStable (files sizeBytes : Nat) (acts : List Act) : Prop :=
  ∃ seqOf : Nat → Nat, Function.Injective seqOf ∧ ∀ pre, pre <+: acts →
    (run files sizeBytes pre).ReadsAs seqOf ∧ (run files sizeBytes pre).NewestIs seqOf

/-- The step drops no line. -/
def DropsNone (j : Journal) (a : Act) : Prop := ∀ line, a = .write line → ¬j.sink.Evicts line

/-- The lines as writes. -/
def numbered (lines : List String) : List Written := lines.zipIdx.map fun p => ⟨p.1, p.2⟩

/-- Nothing was dropped: every line is kept and counted. -/
structure Complete (j : Journal) : Prop where
  kept : j.store.kept = numbered j.written
  nextSeq : j.sink.nextSeq = j.written.length

/-! ## Numbers -/

theorem numbered_concat (lines : List String) (line : String) :
    numbered (lines ++ [line]) = numbered lines ++ [⟨line, lines.length⟩] := by
  simp [numbered, List.zipIdx_append]

theorem length_numbered (lines : List String) : (numbered lines).length = lines.length := by
  rw [numbered, List.length_map, List.length_zipIdx]

theorem entriesFrom_numbered (lines : List String) :
    entriesFrom 0 (numbered lines) =
      (numbered lines).map fun w => entryOf w.number (shown w.text) := by
  induction lines using List.reverseRecOn with
  | nil => rfl
  | append_singleton lines line ih =>
    rw [numbered_concat, entriesFrom_append, ih, length_numbered, Nat.zero_add, List.map_append]
    rfl

/-- A read of all that is kept numbers it from 0. -/
theorem last_seq {j : Journal} {seqOf : Nat → Nat} {w : Written} (h : Holds j.sink j.store)
    (hclean : ∀ w ∈ j.store.kept, '\n' ∉ w.text.toList) (hreads : j.ReadsAs seqOf)
    (hlast : j.store.kept.getLast? = some w) : seqOf w.number + 1 = j.store.kept.length := by
  have hall := hreads 0 none
  obtain ⟨ws, hws⟩ := List.getLast?_eq_some_iff.mp hlast
  rw [h.read_entries hclean, pageOf_all, pageOf_all, hws, entriesFrom_append, List.map_append] at hall
  have hentry := (List.append_inj' hall rfl).2
  have hseq : 0 + ws.length = seqOf w.number :=
    congrArg LogEntry.seq (List.singleton_inj.mp hentry)
  rw [hws, List.length_append, List.length_singleton]
  omega

/-! ## One step -/

theorem oldest_eq {s : LogFileSink} {r : Rotating Written} (h : Holds s r) (hfiles : 2 ≤ s.files) :
    (s.dir (.suffix (s.files - 1))).getD [] = fileBytes r.oldest := by
  have hlen := h.old
  have hne : r.old ≠ [] := List.ne_nil_of_length_pos (by omega)
  have hlast : r.old[s.files - 2]? = some r.oldest := by
    rw [Rotating.oldest, List.getLast_cons hne, ← List.getLast?_eq_some_getLast,
      List.getLast?_eq_getElem?, hlen]
    rfl
  rw [← h.rotated _ _ hlast]
  congr 3
  omega

theorem evicts_iff {s : LogFileSink} {r : Rotating Written} (h : Holds s r) (hfiles : 2 ≤ s.files)
    (w : Written) : s.Evicts w.text ↔ r.Full Written.size s.sizeBytes w ∧ r.oldest ≠ [] := by
  rw [LogFileSink.Evicts, h.rotates_iff, oldest_eq h hfiles]
  refine and_congr_right fun _ => not_congr ⟨eq_nil_of_fileBytes, fun hnil => ?_⟩
  rw [hnil]
  rfl

/-- A sink just opened counts what it finds. -/
theorem nextSeq_new {dir : Dir} {files sizeBytes : Nat} {r : Rotating Written}
    (h : Holds (.new dir files sizeBytes) r) :
    (LogFileSink.new dir files sizeBytes).nextSeq = r.kept.length := by
  have hsum : (r.old.map List.length).sum + r.cur.length = r.kept.length := by
    simp [Rotating.kept, List.length_flatten]
  rw [← hsum, ← h.rotatedLines, ← h.curLines]
  rfl

variable {files sizeBytes : Nat} {j : Journal}

theorem nextSeq_write (s : LogFileSink) (line : String) :
    (s.write line).nextSeq = s.nextSeq + 1 := by
  unfold LogFileSink.write
  split <;> rfl

theorem sizeBytes_write (s : LogFileSink) (line : String) :
    (s.write line).sizeBytes = s.sizeBytes := by
  unfold LogFileSink.write
  split <;> rfl

theorem complete_start : Complete (start files sizeBytes) where
  kept := Rotating.kept_empty _
  nextSeq := by
    have h : (start files sizeBytes).sink.nextSeq =
        (start files sizeBytes).store.kept.length :=
      nextSeq_new (.new_empty files sizeBytes)
    rw [h, Journal.start, Rotating.kept_empty]
    rfl

/-- A write that drops no line adds its own. -/
theorem kept_of_not_evicts (ht : Tracks files j) (hfiles : 2 ≤ j.sink.files) {line : String}
    (hdrop : ¬j.sink.Evicts line) :
    (step files sizeBytes j (.write line)).store.kept =
      j.store.kept ++ [⟨line, j.written.length⟩] := by
  show (j.store.put Written.size j.sink.sizeBytes ⟨line, j.written.length⟩).kept = _
  by_cases hfull : j.store.Full Written.size j.sink.sizeBytes ⟨line, j.written.length⟩
  · have hold : j.store.oldest = [] := by
      by_contra hne
      exact hdrop ((evicts_iff ht.holds hfiles ⟨line, j.written.length⟩).mpr ⟨hfull, hne⟩)
    rw [← Rotating.kept_put_of_full hfull, hold, List.nil_append]
  · exact Rotating.kept_put_of_not_full hfull

/-- A write that drops no line keeps all. -/
theorem Complete.write (h : Complete j) (ht : Tracks files j) (hfiles : 2 ≤ j.sink.files)
    {line : String} (hdrop : ¬j.sink.Evicts line) :
    Complete (step files sizeBytes j (.write line)) where
  kept := by
    rw [kept_of_not_evicts ht hfiles hdrop, step, numbered_concat, ← h.kept]
  nextSeq := by
    show (j.sink.write line).nextSeq = (j.written ++ [line]).length
    rw [nextSeq_write, h.nextSeq, List.length_append, List.length_singleton]

/-- A write that drops a line keeps fewer than it counts. -/
theorem Complete.write_evicts (h : Complete j) (ht : Tracks files j) (hfiles : 2 ≤ j.sink.files)
    {line : String} (hevicts : j.sink.Evicts line) :
    (step files sizeBytes j (.write line)).store.kept.length <
      (step files sizeBytes j (.write line)).sink.nextSeq := by
  obtain ⟨hfull, hne⟩ := (evicts_iff ht.holds hfiles ⟨line, j.written.length⟩).mp hevicts
  have hkept := congrArg List.length (Rotating.kept_put_of_full hfull)
  have hpos := List.length_pos_iff.mpr hne
  rw [List.length_append, List.length_append, List.length_singleton, h.kept,
    length_numbered] at hkept
  show (j.store.put Written.size j.sink.sizeBytes ⟨line, j.written.length⟩).kept.length <
    (j.sink.write line).nextSeq
  rw [nextSeq_write, h.nextSeq]
  omega

theorem Complete.restart (h : Complete j) (ht : Tracks files j)
    (hclean : ∀ line ∈ j.written, '\n' ∉ line.toList) :
    Complete (step files sizeBytes j .restart) where
  kept := h.kept
  nextSeq := by
    have hnew : (step files sizeBytes j .restart).sink.nextSeq = j.store.kept.length :=
      nextSeq_new (ht.restart hclean).holds
    rw [hnew, h.kept, length_numbered]
    rfl

/-! ## Runs -/

/-- A write of a line with no newline, or a restart. -/
def Newlineless (a : Act) : Prop := ∀ line, a = .write line → '\n' ∉ line.toList

/-- What a run of such lines keeps, whatever it drops. -/
structure Sound (files : Nat) (j : Journal) : Prop extends Tracks files j where
  clean : ∀ line ∈ j.written, '\n' ∉ line.toList

theorem Sound.kept_clean (h : Sound files j) : ∀ w ∈ j.store.kept, '\n' ∉ w.text.toList :=
  fun w hw => h.clean w.text (h.kept.subset (List.mem_map_of_mem hw))

theorem sound_step (h : Sound files j) {a : Act} (ha : Newlineless a) :
    Sound files (step files sizeBytes j a) := by
  cases a with
  | write line =>
    refine { h.toTracks.write line with clean := ?_ }
    exact List.forall_mem_append.mpr ⟨h.clean, List.forall_mem_singleton.mpr (ha line rfl)⟩
  | restart => exact { h.toTracks.restart h.clean with clean := h.clean }

theorem complete_step (h : Complete j) (hs : Sound files j) (hfiles : 2 ≤ j.sink.files) {a : Act}
    (ha : DropsNone j a) : Complete (step files sizeBytes j a) := by
  cases a with
  | write line => exact h.write hs.toTracks hfiles (ha line rfl)
  | restart => exact h.restart hs.toTracks hs.clean

theorem sound_start : Sound files (start files sizeBytes) where
  toTracks := .start
  clean := List.forall_mem_nil _

theorem sound_run {acts : List Act} (hacts : ∀ a ∈ acts, Newlineless a) :
    Sound files (run files sizeBytes acts) := by
  induction acts using List.reverseRecOn with
  | nil => exact sound_start
  | append_singleton acts a ih =>
    rw [List.forall_mem_append, List.forall_mem_singleton] at hacts
    rw [run_concat]
    exact sound_step (ih hacts.1) hacts.2

/-- A run that drops no line keeps all. -/
theorem complete_run (hfiles : 2 ≤ files) {acts : List Act} (hacts : ∀ a ∈ acts, Newlineless a)
    (hdrop : Run.Along (step files sizeBytes) DropsNone (start files sizeBytes) acts) :
    Complete (run files sizeBytes acts) := by
  induction acts using List.reverseRecOn with
  | nil => exact complete_start
  | append_singleton acts a ih =>
    rw [List.forall_mem_append, List.forall_mem_singleton] at hacts
    obtain ⟨hacts', ha, -⟩ := Run.along_append.mp hdrop
    have hs : Sound files (run files sizeBytes acts) := sound_run hacts.1
    have hopen := hs.files
    rw [run_concat]
    exact complete_step (ih hacts.1 hacts') hs (by omega) ha

/-- Where nothing was dropped, reads give each write under its own number. -/
theorem Complete.reads (h : Complete j) (hs : Sound files j) : j.ReadsAs id ∧ j.NewestIs id := by
  have hreads : j.ReadsAs id := by
    intro limit before
    rw [hs.holds.read_entries hs.kept_clean, h.kept, entriesFrom_numbered]
    rfl
  refine ⟨hreads, fun limit before w hlast => ?_⟩
  rw [last_seq hs.holds hs.kept_clean hreads hlast, h.kept, length_numbered, ← h.nextSeq]
  rfl

/-- Once a line is dropped, the newest line is not the last counted. -/
theorem Complete.not_newestIs (h : Complete j) (hs : Sound files j) (hfiles : 2 ≤ j.sink.files)
    {line : String} (hline : '\n' ∉ line.toList) (hevicts : j.sink.Evicts line)
    {seqOf : Nat → Nat} (hreads : (step files sizeBytes j (.write line)).ReadsAs seqOf) :
    ¬(step files sizeBytes j (.write line)).NewestIs seqOf := by
  intro hnewest
  have hs' : Sound files (step files sizeBytes j (.write line)) :=
    sound_step hs fun l hl => by cases hl; exact hline
  have hless := @Complete.write_evicts files sizeBytes j h hs.toTracks hfiles line hevicts
  have hlast : (step files sizeBytes j (.write line)).store.kept.getLast? =
      some ⟨line, j.written.length⟩ := by
    obtain ⟨ws, hws⟩ := @Rotating.cur_put _ Written.size j.sink.sizeBytes j.store
      ⟨line, j.written.length⟩
    show (j.store.put _ _ _).kept.getLast? = _
    rw [Rotating.kept, hws, ← List.append_assoc, List.getLast?_concat]
  have hseq : seqOf j.written.length + 1 =
      (step files sizeBytes j (.write line)).store.kept.length :=
    last_seq hs'.holds hs'.kept_clean hreads hlast
  have htotal : seqOf j.written.length + 1 = (step files sizeBytes j (.write line)).sink.nextSeq :=
    hnewest 0 none _ hlast
  omega

/-- Sequence numbers are stable in exactly the runs in which no rotation drops a line. -/
theorem seqsStable_iff (files sizeBytes : Nat) (hfiles : 2 ≤ files ∧ files ≤ 10) (acts : List Act)
    (hacts : ∀ a ∈ acts, Newlineless a) :
    SeqsStable files sizeBytes acts ↔
      Run.Along (step files sizeBytes) DropsNone (start files sizeBytes) acts := by
  constructor
  · intro hstable
    induction acts using List.reverseRecOn with
    | nil => trivial
    | append_singleton acts a ih =>
      rw [List.forall_mem_append, List.forall_mem_singleton] at hacts
      obtain ⟨seqOf, hinj, h⟩ := hstable
      have halong := ih hacts.1
        ⟨seqOf, hinj, fun pre hpre => h pre (hpre.trans (List.prefix_append ..))⟩
      refine Run.along_append.mpr ⟨halong, fun line hline hevicts => ?_, trivial⟩
      subst hline
      have hs : Sound files (run files sizeBytes acts) := sound_run hacts.1
      have hopen := hs.files
      have hlast := h _ (List.prefix_refl _)
      rw [run_concat] at hlast
      exact (complete_run hfiles.1 hacts.1 halong).not_newestIs hs (by omega) (hacts.2 line rfl)
        hevicts hlast.1 hlast.2
  · intro halong
    refine ⟨id, Function.injective_id, fun pre hpre => ?_⟩
    obtain ⟨rest, rfl⟩ := hpre
    have hpre : ∀ a ∈ pre, Newlineless a := fun a ha => hacts a (List.mem_append_left _ ha)
    exact (complete_run hfiles.1 hpre (Run.along_append.mp halong).1).reads (sound_run hpre)

/-! ## A dropped line -/

/-- Two files of 1024 bytes hold two lines of 600. -/
theorem kept_long {a b c : String} (ha : a.utf8ByteSize = 600) (hb : b.utf8ByteSize = 600)
    (hc : c.utf8ByteSize = 600) :
    (run 2 1024 [.write a, .write b]).store.kept = [⟨a, 0⟩, ⟨b, 1⟩] ∧
      (run 2 1024 [.write a, .write b, .write c]).store.kept = [⟨b, 1⟩, ⟨c, 2⟩] := by
  have hsize : (LogFileSink.new (fun _ => none) 2 1024).sizeBytes = 1024 := rfl
  constructor <;>
  simp [run, step, start, sizeBytes_write, hsize, Rotating.empty, Rotating.put, Rotating.Full,
    Rotating.rotate, Rotating.kept, Written.size, ha, hb, hc]

theorem total_three (a b c : String) :
    ((run 2 1024 [.write a, .write b, .write c]).sink.read 0 none).total = 3 := by
  show ((((LogFileSink.new (fun _ => none) 2 1024).write a).write b).write c).nextSeq = 3
  rw [nextSeq_write, nextSeq_write, nextSeq_write]
  rfl

/-- A line of 600 letters. -/
def longLine (c : Char) : String := String.ofList (List.replicate 600 c)

theorem newlineless_longLine {c : Char} (hc : c ≠ '\n') : Newlineless (.write (longLine c)) := by
  rintro line hline hmem
  cases hline
  rw [longLine, String.toList_ofList, List.mem_replicate] at hmem
  exact hc hmem.2.symm

theorem utf8ByteSize_longLine {c : Char} (hc : c.utf8Size = 1) :
    (longLine c).utf8ByteSize = 600 := by
  rw [← length_utf8Bytes, longLine, utf8Bytes_ofList, List.length_flatMap, List.map_replicate,
    List.sum_replicate_nat, String.length_utf8EncodeChar, hc]

theorem raw_entryOf_longLine {c : Char} (hc : c ≠ '\r') (seq : Nat) :
    (entryOf seq (shown (longLine c))).raw = longLine c := by
  have h : stripCr (longLine c) = longLine c := by
    refine stripCr_of_not fun hlast => hc ?_
    rw [longLine, String.toList_ofList, List.getLast?_replicate, if_neg (by omega)] at hlast
    exact Option.some.inj hlast
  show shown (longLine c) = longLine c
  rw [shown, h, h]

/-- Three lines that two files do not hold. -/
def threeLong : List Act := [.write (longLine 'a'), .write (longLine 'b'), .write (longLine 'c')]

/-- The third line drops the first, and the second takes its number. -/
theorem seqs_renumbered :
    ((run 2 1024 (threeLong.take 2)).sink.read 0 none).entries.map (fun e => (e.seq, e.raw)) =
        [(0, longLine 'a'), (1, longLine 'b')] ∧
      ((run 2 1024 threeLong).sink.read 0 none).entries.map (fun e => (e.seq, e.raw)) =
        [(0, longLine 'b'), (1, longLine 'c')] ∧
      ((run 2 1024 threeLong).sink.read 0 none).total = 3 ∧ ¬SeqsStable 2 1024 threeLong := by
  have hclean : ∀ a ∈ threeLong, Newlineless a := by
    simp only [threeLong, List.forall_mem_cons]
    exact ⟨newlineless_longLine (by decide), newlineless_longLine (by decide),
      newlineless_longLine (by decide), List.forall_mem_nil _⟩
  obtain ⟨hkept2, hkept3⟩ := kept_long (utf8ByteSize_longLine (by decide : 'a'.utf8Size = 1))
    (utf8ByteSize_longLine (by decide : 'b'.utf8Size = 1))
    (utf8ByteSize_longLine (by decide : 'c'.utf8Size = 1))
  have hs2 := @sound_run 2 1024 (threeLong.take 2) fun a ha => hclean a (List.mem_of_mem_take ha)
  have hs3 := @sound_run 2 1024 threeLong hclean
  have h2 := hs2.holds.read_entries hs2.kept_clean 0 none
  have h3 := hs3.holds.read_entries hs3.kept_clean 0 none
  rw [pageOf_all, show (run 2 1024 (threeLong.take 2)).store.kept = _ from hkept2] at h2
  rw [pageOf_all, show (run 2 1024 threeLong).store.kept = _ from hkept3] at h3
  refine ⟨?_, ?_, total_three (longLine 'a') (longLine 'b') (longLine 'c'), ?_⟩
  · rw [h2]
    show [(0, (entryOf 0 (shown (longLine 'a'))).raw),
      (1, (entryOf 1 (shown (longLine 'b'))).raw)] = _
    rw [raw_entryOf_longLine (by decide), raw_entryOf_longLine (by decide)]
  · rw [h3]
    show [(0, (entryOf 0 (shown (longLine 'b'))).raw),
      (1, (entryOf 1 (shown (longLine 'c'))).raw)] = _
    rw [raw_entryOf_longLine (by decide), raw_entryOf_longLine (by decide)]
  · rintro ⟨seqOf, -, h⟩
    have hreads2 := (h (threeLong.take 2) (List.take_prefix ..)).1 0 none
    have hreads3 := (h threeLong (List.prefix_refl _)).1 0 none
    rw [h2, pageOf_all, show (run 2 1024 (threeLong.take 2)).store.kept = _ from hkept2] at hreads2
    rw [h3, pageOf_all, show (run 2 1024 threeLong).store.kept = _ from hkept3] at hreads3
    have hone : 1 = seqOf 1 :=
      congrArg LogEntry.seq (List.cons.inj (List.cons.inj hreads2).2).1
    have hzero : 0 = seqOf 1 := congrArg LogEntry.seq (List.cons.inj hreads3).1
    omega

/-- A run with a restart that drops no line. -/
theorem seqsStable_iff_sample : SeqsStable 2 1024 [.write "a", .restart, .write "b"] := by
  refine (seqsStable_iff 2 1024 ⟨by decide, by decide⟩ _ ?_).mpr ⟨?_, ?_, ?_, trivial⟩
  · rintro a ha line rfl
    simp at ha
    rcases ha with rfl | rfl <;> decide
  · rintro line hline ⟨hrotates, -⟩
    cases hline
    revert hrotates
    decide
  · exact fun line hline => by cases hline
  · rintro line hline ⟨hrotates, -⟩
    cases hline
    revert hrotates
    decide

end Journal

end XavierDB.Log
