import Mathlib.Logic.Function.Basic
import XavierDB.Base.Lines
import XavierDB.Base.Rotating
import XavierDB.Base.Utf8

/-!
# The rotating log files (`src/state.rs`)

`xavierdb.log` is the current file, `xavierdb.log.i` the one before it by `i`
rotations. No operation on a file fails, and the counters do not reach their
bounds. What the files hold is a rotating store of the writes.
-/

namespace XavierDB.Log

inductive LogFile where
  | current
  | suffix (i : Nat)
  deriving DecidableEq

/-- What the files of a directory hold. -/
abbrev Dir := LogFile → Option Bytes

namespace Dir

/-- Opening for appending creates a file that is not there. -/
def create (d : Dir) (f : LogFile) : Dir := Function.update d f (some ((d f).getD []))

def append (d : Dir) (f : LogFile) (bytes : Bytes) : Dir :=
  Function.update d f ((d f).map (· ++ bytes))

def remove (d : Dir) (f : LogFile) : Dir := Function.update d f none

/-- A file that is not there is not renamed. -/
def rename (d : Dir) (src dst : LogFile) : Dir :=
  match d src with
  | none => d
  | some bytes => Function.update (Function.update d dst (some bytes)) src none

variable {d : Dir} {f src dst : LogFile}

theorem create_self : d.create f f = some ((d f).getD []) := Function.update_self ..

theorem create_of_ne {g : LogFile} (h : g ≠ f) : d.create f g = d g := Function.update_of_ne h ..

theorem append_self (bytes : Bytes) : d.append f bytes f = (d f).map (· ++ bytes) :=
  Function.update_self ..

theorem append_of_ne {g : LogFile} (h : g ≠ f) (bytes : Bytes) : d.append f bytes g = d g :=
  Function.update_of_ne h ..

theorem remove_self : d.remove f f = none := Function.update_self ..

theorem remove_of_ne {g : LogFile} (h : g ≠ f) : d.remove f g = d g := Function.update_of_ne h ..

theorem rename_src : d.rename src dst src = none := by
  unfold rename
  cases h : d src with
  | none => exact h
  | some bytes => exact Function.update_self ..

theorem rename_dst (hne : dst ≠ src) (hfree : d dst = none ∨ d src ≠ none) :
    d.rename src dst dst = d src := by
  unfold rename
  cases h : d src with
  | none => exact hfree.resolve_right fun hsrc => hsrc h
  | some bytes => exact (Function.update_of_ne hne ..).trans (Function.update_self ..)

theorem rename_of_ne (hsrc : f ≠ src) (hdst : f ≠ dst) : d.rename src dst f = d f := by
  unfold rename
  cases d src with
  | none => rfl
  | some bytes => exact (Function.update_of_ne hsrc ..).trans (Function.update_of_ne hdst ..)

end Dir

def countLines (file : Option Bytes) : Nat := (file.getD []).count newline

structure LogFileSink where
  dir : Dir
  files : Nat
  sizeBytes : Nat
  nextSeq : Nat
  curBytes : Nat
  curLines : Nat
  /-- By suffix, from 1. -/
  rotatedLines : List Nat

namespace LogFileSink

def new (dir : Dir) (files sizeBytes : Nat) : LogFileSink :=
  let files := max 1 (min files 10)
  let rotated := (List.range (files - 1)).map fun i => countLines (dir (.suffix (i + 1)))
  { dir := dir.create .current
    files := files
    sizeBytes := max sizeBytes 1024
    nextSeq := rotated.sum + countLines (dir .current)
    curBytes := ((dir .current).getD []).length
    curLines := countLines (dir .current)
    rotatedLines := rotated }

/-- Each of the files `1` to `n` moves one place on, the last one first. -/
def renameChain (n : Nat) (dir : Dir) : Dir :=
  (List.range' 1 n).reverse.foldl (fun d i => d.rename (.suffix i) (.suffix (i + 1))) dir

/-- The counts move with the files. -/
def shiftCounts (n : Nat) (counts : List Nat) : List Nat :=
  (List.range' 1 n).reverse.foldl (fun c i => c.set i (c.getD (i - 1) 0)) counts

def rotate (s : LogFileSink) : LogFileSink :=
  let dir := s.dir.remove (.suffix (s.files - 1))
  let dir := (renameChain (s.files - 2) dir).rename .current (.suffix 1)
  { s with
    dir := dir.create .current
    curBytes := 0
    curLines := 0
    rotatedLines :=
      if 1 < s.files then (shiftCounts (s.files - 2) s.rotatedLines).set 0 s.curLines
      else s.rotatedLines }

/-- The line would take the current file over its size. -/
def Rotates (s : LogFileSink) (line : String) : Prop :=
  s.sizeBytes < s.curBytes + (line.utf8ByteSize + 1)

instance (s : LogFileSink) (line : String) : Decidable (s.Rotates line) :=
  inferInstanceAs (Decidable (_ < _))

/-- The line and its newline go to the end of the current file. -/
def appendLine (s : LogFileSink) (line : String) : LogFileSink :=
  { s with
    dir := s.dir.append .current (utf8Bytes line ++ [newline])
    curBytes := s.curBytes + (line.utf8ByteSize + 1)
    nextSeq := s.nextSeq + 1
    curLines := s.curLines + 1 }

def write (s : LogFileSink) (line : String) : LogFileSink :=
  (if s.Rotates line then s.rotate else s).appendLine line

/-! ## The chain of files -/

theorem renameChain_succ (n : Nat) (d : Dir) :
    renameChain (n + 1) d = renameChain n (d.rename (.suffix (n + 1)) (.suffix (n + 2))) := by
  rw [renameChain, List.range'_concat, List.reverse_concat, Nat.one_mul, Nat.add_comm 1 n]
  rfl

theorem renameChain_current (n : Nat) (d : Dir) : renameChain n d .current = d .current := by
  induction n generalizing d with
  | zero => rfl
  | succ n ih => rw [renameChain_succ, ih, Dir.rename_of_ne (by simp) (by simp)]

theorem renameChain_above {n i : Nat} (hi : n + 1 < i) (d : Dir) :
    renameChain n d (.suffix i) = d (.suffix i) := by
  induction n generalizing d with
  | zero => rfl
  | succ n ih =>
    rw [renameChain_succ, ih (by omega), Dir.rename_of_ne] <;>
    · rw [Ne, LogFile.suffix.injEq]
      omega

/-- The place behind the last file is free, so each file takes that of the next. -/
theorem renameChain_suffix {n i : Nat} {d : Dir} (hfree : d (.suffix (n + 1)) = none)
    (hi : 1 ≤ i) (hin : i ≤ n) : renameChain n d (.suffix (i + 1)) = d (.suffix i) := by
  induction n generalizing d with
  | zero => omega
  | succ n ih =>
    rw [renameChain_succ]
    have hne : LogFile.suffix (n + 2) ≠ .suffix (n + 1) := by simp
    rcases Nat.lt_or_ge n i with h | h
    · obtain rfl : i = n + 1 := by omega
      rw [renameChain_above (by omega), Dir.rename_dst hne (.inl hfree)]
    · have h1 : LogFile.suffix i ≠ .suffix (n + 1) := by simp; omega
      have h2 : LogFile.suffix i ≠ .suffix (n + 2) := by simp; omega
      rw [ih Dir.rename_src h, Dir.rename_of_ne h1 h2]

theorem shiftCounts_succ (n : Nat) (counts : List Nat) :
    shiftCounts (n + 1) counts = shiftCounts n (counts.set (n + 1) (counts.getD n 0)) := by
  rw [shiftCounts, List.range'_concat, List.reverse_concat, Nat.one_mul, Nat.add_comm 1 n]
  rfl

theorem getElem?_shiftCounts {n : Nat} {counts : List Nat} (hn : n < counts.length) (j : Nat) :
    (shiftCounts n counts)[j]? = if 1 ≤ j ∧ j ≤ n then counts[j - 1]? else counts[j]? := by
  induction n generalizing counts with
  | zero => rw [if_neg (by omega)]; rfl
  | succ n ih =>
    have hmoved : counts.getD n 0 = counts[n] := by
      rw [List.getD_eq_getElem?_getD, List.getElem?_eq_getElem (by omega), Option.getD_some]
    rw [shiftCounts_succ, ih (by rw [List.length_set]; omega), hmoved]
    grind

theorem set_shiftCounts {counts : List Nat} (h : counts ≠ []) (count : Nat) :
    (shiftCounts (counts.length - 1) counts).set 0 count = count :: counts.dropLast := by
  have hpos := List.length_pos_iff.mpr h
  refine List.ext_getElem? fun j => ?_
  have hshift := @getElem?_shiftCounts (counts.length - 1) counts (by omega) j
  cases j with
  | zero => grind
  | succ j =>
    rw [List.getElem?_set_ne (by omega), hshift, List.getElem?_cons_succ, List.getElem?_dropLast]
    grind

end LogFileSink

/-! ## The store of the writes -/

/-- A write: its line and its number among all writes. -/
structure Written where
  text : String
  number : Nat

/-- The bytes of the line and its newline. -/
def Written.size (w : Written) : Nat := w.text.utf8ByteSize + 1

def fileBytes (ws : List Written) : Bytes :=
  Lines.unlines newline (ws.map fun w => utf8Bytes w.text)

theorem fileBytes_concat (ws : List Written) (w : Written) :
    fileBytes (ws ++ [w]) = fileBytes ws ++ (utf8Bytes w.text ++ [newline]) := by
  simp [fileBytes]

theorem eq_nil_of_fileBytes {ws : List Written} (h : fileBytes ws = []) : ws = [] := by
  cases ws with
  | nil => rfl
  | cons w ws =>
    rw [fileBytes, List.map_cons, Lines.unlines_cons, List.append_eq_nil_iff] at h
    cases h.2

theorem length_fileBytes (ws : List Written) :
    (fileBytes ws).length = (ws.map Written.size).sum := by
  induction ws with
  | nil => rfl
  | cons w ws ih =>
    rw [fileBytes, List.map_cons, Lines.unlines_cons, List.length_append, List.length_cons,
      ← fileBytes, ih, List.map_cons, List.sum_cons, Written.size, length_utf8Bytes]
    omega

/-- The newlines count the writes when no line holds one, and only then. -/
theorem count_fileBytes_eq_iff {ws : List Written} :
    (fileBytes ws).count newline = ws.length ↔ ∀ w ∈ ws, '\n' ∉ w.text.toList := by
  have h := @Lines.count_unlines_eq_iff _ _ newline (ws.map fun w => utf8Bytes w.text)
  rw [List.length_map] at h
  rw [fileBytes, h, List.forall_mem_map]
  exact forall₂_congr fun w _ => not_congr newline_mem_utf8Bytes

/-- The sink's files and counts are those of the store. -/
structure Holds (s : LogFileSink) (r : Rotating Written) : Prop where
  old : r.old.length = s.files - 1
  current : s.dir .current = some (fileBytes r.cur)
  rotated : ∀ (i : Nat) ws, r.old[i]? = some ws →
    (s.dir (.suffix (i + 1))).getD [] = fileBytes ws
  curBytes : s.curBytes = (r.cur.map Written.size).sum
  curLines : s.curLines = r.cur.length
  rotatedLines : s.rotatedLines = r.old.map List.length

namespace Holds

variable {s : LogFileSink} {r : Rotating Written}

/-- Each file has taken the place of the next. -/
theorem rotate_suffix (h : Holds s r) {i : Nat} (hi : i + 1 < s.files) :
    (s.rotate.dir (.suffix (i + 1))).getD [] =
      match i with
      | 0 => fileBytes r.cur
      | i + 1 => (s.dir (.suffix (i + 1))).getD [] := by
  have hcurrent : LogFileSink.renameChain (s.files - 2) (s.dir.remove (.suffix (s.files - 1)))
      .current = some (fileBytes r.cur) := by
    rw [LogFileSink.renameChain_current, Dir.remove_of_ne (by simp), h.current]
  have hfree : s.dir.remove (.suffix (s.files - 1)) (.suffix (s.files - 2 + 1)) = none := by
    rw [show s.files - 2 + 1 = s.files - 1 by omega]
    exact Dir.remove_self
  unfold LogFileSink.rotate
  dsimp only
  rw [Dir.create_of_ne (by simp)]
  cases i with
  | zero =>
    rw [Dir.rename_dst (by simp) (.inr (by rw [hcurrent]; simp)), hcurrent, Option.getD_some]
  | succ i =>
    have hne : LogFile.suffix (i + 1) ≠ .suffix (s.files - 1) := by simp; omega
    rw [Dir.rename_of_ne (by simp) (by simp),
      LogFileSink.renameChain_suffix hfree (by omega) (by omega), Dir.remove_of_ne hne]

theorem rotate (h : Holds s r) : Holds s.rotate r.rotate where
  old := by
    rw [Rotating.rotate, List.length_dropLast, List.length_cons, h.old]
    rfl
  current := by
    unfold LogFileSink.rotate
    dsimp only
    rw [Dir.create_self, Dir.rename_src]
    rfl
  rotated i ws hi := by
    obtain ⟨hlt, hget⟩ : i + 1 < s.files ∧ (r.cur :: r.old)[i]? = some ws := by
      rw [Rotating.rotate, List.getElem?_dropLast, List.length_cons, h.old] at hi
      split at hi
      · exact ⟨by omega, hi⟩
      · cases hi
    rw [h.rotate_suffix hlt]
    cases i with
    | zero => rw [Option.some.inj hget]
    | succ i => exact h.rotated i ws hget
  curBytes := rfl
  curLines := rfl
  rotatedLines := by
    have hlen : s.rotatedLines.length = s.files - 1 := by
      rw [h.rotatedLines, List.length_map, h.old]
    unfold LogFileSink.rotate Rotating.rotate
    dsimp only
    rw [List.map_dropLast, List.map_cons, ← h.rotatedLines, ← h.curLines]
    split
    case isTrue hfiles =>
      have hne : s.rotatedLines ≠ [] := List.ne_nil_of_length_pos (by omega)
      rw [show s.files - 2 = s.rotatedLines.length - 1 by omega,
        LogFileSink.set_shiftCounts hne, List.dropLast_cons_of_ne_nil hne]
    case isFalse hfiles =>
      rw [List.length_eq_zero_iff.mp (by omega : s.rotatedLines.length = 0)]
      rfl

theorem rotates_iff (h : Holds s r) (w : Written) :
    s.Rotates w.text ↔ r.Full Written.size s.sizeBytes w := by
  rw [LogFileSink.Rotates, Rotating.Full, h.curBytes]
  rfl

theorem appendLine (h : Holds s r) (w : Written) :
    Holds (s.appendLine w.text) { r with cur := r.cur ++ [w] } where
  old := h.old
  current := by
    unfold LogFileSink.appendLine
    dsimp only
    rw [Dir.append_self, h.current, fileBytes_concat]
    rfl
  rotated i ws hi := by
    unfold LogFileSink.appendLine
    dsimp only
    rw [Dir.append_of_ne (by simp)]
    exact h.rotated i ws hi
  curBytes := by
    rw [List.map_append, List.sum_append, ← h.curBytes]
    rfl
  curLines := by
    rw [List.length_append, ← h.curLines]
    rfl
  rotatedLines := h.rotatedLines

/-- A write puts its line into the store. -/
theorem write (h : Holds s r) (w : Written) :
    Holds (s.write w.text) (r.put Written.size s.sizeBytes w) := by
  unfold LogFileSink.write
  by_cases hfull : s.Rotates w.text
  · rw [if_pos hfull, Rotating.put_of_full ((h.rotates_iff w).mp hfull)]
    exact h.rotate.appendLine w
  · rw [if_neg hfull, Rotating.put_of_not_full (mt (h.rotates_iff w).mpr hfull)]
    exact h.appendLine w

/-! ## Opening -/

theorem new_empty (files sizeBytes : Nat) :
    Holds (.new (fun _ => none) files sizeBytes) (.empty (max 1 (min files 10) - 1)) where
  old := List.length_replicate
  current := by
    show Dir.create (fun _ => none) .current .current = _
    rw [Dir.create_self]
    rfl
  rotated i ws hi := by
    have hws := List.mem_of_getElem? hi
    rw [Rotating.empty, List.mem_replicate] at hws
    rw [hws.2]
    rfl
  curBytes := rfl
  curLines := rfl
  rotatedLines := by
    unfold LogFileSink.new Rotating.empty
    rw [List.map_replicate, ← List.length_range (n := max 1 (min files 10) - 1)]
    exact List.map_const' ..

/-- Opened again, the sink is as before. -/
theorem reopen (h : Holds s r) {files sizeBytes : Nat} (hfiles : max 1 (min files 10) = s.files)
    (hclean : ∀ w ∈ r.kept, '\n' ∉ w.text.toList) : Holds (.new s.dir files sizeBytes) r where
  old := by
    rw [h.old, ← hfiles]
    rfl
  current := by
    unfold LogFileSink.new
    dsimp only
    rw [Dir.create_self, h.current, Option.getD_some]
  rotated i ws hi := by
    unfold LogFileSink.new
    dsimp only
    rw [Dir.create_of_ne (by simp)]
    exact h.rotated i ws hi
  curBytes := by
    unfold LogFileSink.new
    dsimp only
    rw [h.current, Option.getD_some, length_fileBytes]
  curLines := by
    unfold LogFileSink.new countLines
    dsimp only
    rw [h.current, Option.getD_some]
    exact count_fileBytes_eq_iff.mpr fun w hw => hclean w (Rotating.mem_kept.mpr (.inr hw))
  rotatedLines := by
    unfold LogFileSink.new countLines
    dsimp only
    rw [hfiles, ← h.old]
    refine List.ext_getElem? fun i => ?_
    rw [List.getElem?_map, List.getElem?_map]
    rcases Nat.lt_or_ge i r.old.length with hi | hi
    · have hget := List.getElem?_eq_getElem hi
      rw [List.getElem?_range hi, hget, Option.map_some, Option.map_some, h.rotated i _ hget]
      refine congrArg some (count_fileBytes_eq_iff.mpr fun w hw => hclean w ?_)
      exact Rotating.mem_kept.mpr (.inl ⟨_, List.getElem_mem hi, hw⟩)
    · rw [List.getElem?_eq_none hi, List.getElem?_eq_none (by rwa [List.length_range])]
      rfl

end Holds

/-! ## Runs -/

inductive Act where
  | write (line : String)
  | restart

/-- The sink, the store of its writes and every line written. -/
structure Journal where
  sink : LogFileSink
  store : Rotating Written
  written : List String

namespace Journal

variable (files sizeBytes : Nat)

/-- A sink opened on an empty directory. -/
def start : Journal where
  sink := .new (fun _ => none) files sizeBytes
  store := .empty (max 1 (min files 10) - 1)
  written := []

def step (j : Journal) : Act → Journal
  | .write line =>
    { sink := j.sink.write line
      store := j.store.put Written.size j.sink.sizeBytes ⟨line, j.written.length⟩
      written := j.written ++ [line] }
  | .restart => { j with sink := .new j.sink.dir files sizeBytes }

def run (acts : List Act) : Journal := acts.foldl (step files sizeBytes) (start files sizeBytes)

theorem run_concat (acts : List Act) (a : Act) :
    run files sizeBytes (acts ++ [a]) = step files sizeBytes (run files sizeBytes acts) a := by
  rw [run, List.foldl_append]
  rfl

/-- What the store says of the sink and of the lines written. -/
structure Tracks (j : Journal) : Prop where
  files : max 1 (min files 10) = j.sink.files
  holds : Holds j.sink j.store
  kept : j.store.kept.map Written.text <:+ j.written

variable {files sizeBytes} {j : Journal}

theorem files_write (s : LogFileSink) (line : String) : (s.write line).files = s.files := by
  unfold LogFileSink.write
  split <;> rfl

theorem Tracks.start : Tracks files (start files sizeBytes) where
  files := rfl
  holds := .new_empty files sizeBytes
  kept := by
    rw [Journal.start, Rotating.kept_empty]
    exact List.nil_suffix

theorem Tracks.write (h : Tracks files j) (line : String) :
    Tracks files (step files sizeBytes j (.write line)) where
  files := h.files.trans (files_write j.sink line).symm
  holds := h.holds.write ⟨line, j.written.length⟩
  kept := by
    have hput := (@Rotating.kept_put_suffix _ Written.size j.sink.sizeBytes j.store
      ⟨line, j.written.length⟩).map Written.text
    rw [List.map_append] at hput
    obtain ⟨lost, hlost⟩ := h.kept
    refine hput.trans ⟨lost, ?_⟩
    rw [← List.append_assoc, hlost]
    rfl

theorem Tracks.restart (h : Tracks files j) (hclean : ∀ line ∈ j.written, '\n' ∉ line.toList) :
    Tracks files (step files sizeBytes j .restart) where
  files := rfl
  holds := h.holds.reopen h.files fun w hw =>
    hclean w.text (h.kept.subset (List.mem_map_of_mem hw))
  kept := h.kept

end Journal

end XavierDB.Log
