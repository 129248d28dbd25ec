import Mathlib.Data.Bool.Basic
import Mathlib.Data.List.Induction
import XavierDB.Base.Lines
import XavierDB.Base.Utf8

/-!
# The end of a log file (`src/state.rs`)

`read_tail` counts newlines backwards, a chunk at a time, until it knows where
the wanted lines begin and end. The state of the scan is a function of the
boundaries passed, however the file is cut into chunks.
-/

namespace XavierDB.Log

/-- The size of the scan's buffer. -/
def chunkBytes : Nat := 64 * 1024

/-- The window found so far, from `o1` to `o2`; `done` stands for having left the loop. -/
structure Scan where
  passed : Nat
  o1 : Nat
  o2 : Nat
  setO2 : Bool
  done : Bool

namespace Scan

variable (skip need : Nat)

/-- A boundary: `after` is the offset behind it. -/
def pass (s : Scan) (after : Nat) : Scan :=
  if s.done then s
  else
    { passed := s.passed + 1
      o1 := if s.passed + 1 = need + 1 then after else s.o1
      o2 := if !s.setO2 ∧ s.passed + 1 = skip + 1 then after else s.o2
      setO2 := s.setO2 || s.passed + 1 == skip + 1
      done := s.passed + 1 == need + 1 }

/-- The bytes of a chunk that starts at `pos`, last first. -/
def chunk (buf : Bytes) (pos : Nat) (s : Scan) : Scan :=
  (buf.zipIdx pos).foldr (fun p s => if p.1 = newline then s.pass skip need (p.2 + 1) else s) s

/-- The chunks below `pos`, last first; the number bounds the chunks. -/
def chunks (bytes : Bytes) : Nat → Nat → Scan → Scan
  | 0, _, s => s
  | n + 1, pos, s =>
    if pos = 0 then s
    else
      let start := pos - min pos chunkBytes
      chunks bytes n start (s.chunk skip need ((bytes.drop start).take (min pos chunkBytes)) start)

end Scan

/-- The file does not end in a newline. -/
def unterminated (bytes : Bytes) : Bool := bytes.getLast?.any (· ≠ newline)

/-- The window of the `take` lines that start `skip` lines from the end. -/
def tailScan (bytes : Bytes) (skip need : Nat) : Scan :=
  let size := bytes.length
  let s : Scan :=
    { passed := if unterminated bytes then 1 else 0
      o1 := 0
      o2 := size
      setO2 := skip == 0
      done := false }
  if s.passed < need + 1 then Scan.chunks skip need bytes size size s else s

def readTail (bytes : Bytes) (skip take : Nat) : String :=
  let need := skip + take
  if need = 0 then ""
  else
    let s := tailScan bytes skip need
    if s.o2 ≤ s.o1 then "" else fromUtf8Lossy ((bytes.drop s.o1).take (s.o2 - s.o1))

/-! ## The state after some boundaries -/

namespace Scan

variable {skip need : Nat}

/-- The state after the boundaries `ps` of a file of that size. -/
def after (skip need size : Nat) (ps : List Nat) : Scan where
  passed := min ps.length (need + 1)
  o1 := ps[need]?.getD 0
  o2 := if skip = 0 then size else ps[skip]?.getD size
  setO2 := skip = 0 ∨ skip < ps.length
  done := need < ps.length

theorem pass_after (hskip : skip ≤ need) (size : Nat) (ps : List Nat) (a : Nat) :
    (after skip need size ps).pass skip need a = after skip need size (ps ++ [a]) := by
  unfold pass after
  by_cases hdone : need < ps.length
  · simp only [hdone, decide_true, if_true, List.length_append, List.length_singleton]
    rw [List.getElem?_append_left hdone, List.getElem?_append_left (by omega)]
    simp only [mk.injEq, true_and, decide_eq_decide]
    grind
  · have hpassed : min ps.length (need + 1) = ps.length := by omega
    simp only [hdone, decide_false, Bool.false_eq_true, if_false, hpassed, mk.injEq]
    refine ⟨?_, ?_, ?_, ?_, ?_⟩ <;> grind

theorem foldl_pass (hskip : skip ≤ need) (size : Nat) (ps as : List Nat) :
    as.foldl (pass skip need) (after skip need size ps) = after skip need size (ps ++ as) := by
  induction as generalizing ps with
  | nil => rw [List.append_nil]; rfl
  | cons a as ih => rw [List.foldl_cons, pass_after hskip, ih, List.append_assoc]; rfl

theorem chunk_eq (buf : Bytes) (s : Scan) :
    s.chunk skip need buf 0 = (Lines.ends newline buf).foldl (pass skip need) s :=
  Lines.foldr_zipIdx (pass skip need) s buf

/-- The chunks are scanned as one. -/
theorem chunks_eq (bytes : Bytes) {n pos : Nat} (hn : pos ≤ n) (hpos : pos ≤ bytes.length)
    (s : Scan) : chunks skip need bytes n pos s = s.chunk skip need (bytes.take pos) 0 := by
  induction n generalizing pos s with
  | zero =>
    obtain rfl : pos = 0 := by omega
    rfl
  | succ n ih =>
    rw [chunks]
    split
    case isTrue h => rw [h]; rfl
    case isFalse h =>
      obtain ⟨k, hk, hkpos⟩ : ∃ k, min pos chunkBytes = k ∧ 0 < k ∧ k ≤ pos :=
        ⟨_, rfl, by unfold chunkBytes; omega, Nat.min_le_left ..⟩
      have hsplit : bytes.take pos = bytes.take (pos - k) ++ (bytes.drop (pos - k)).take k := by
        rw [← List.take_add, Nat.sub_add_cancel hkpos.2]
      dsimp only
      rw [hk, ih (by omega) (by omega), hsplit]
      unfold chunk
      rw [List.zipIdx_append, List.foldr_append, Nat.zero_add, List.length_take,
        Nat.min_eq_left (by omega)]

end Scan

/-- The offsets behind the lines, the last one first. -/
def boundaries (bytes : Bytes) : List Nat :=
  (if unterminated bytes then [bytes.length] else []) ++ Lines.ends newline bytes

theorem tailScan_eq (bytes : Bytes) {skip need : Nat} (hskip : skip ≤ need) (hneed : 0 < need) :
    tailScan bytes skip need = .after skip need bytes.length (boundaries bytes) := by
  unfold tailScan
  dsimp only
  rw [if_pos (by split <;> omega), Scan.chunks_eq bytes (Nat.le_refl _) (Nat.le_refl _),
    List.take_length, Scan.chunk_eq, boundaries, ← Scan.foldl_pass hskip]
  congr 1
  unfold Scan.after
  split <;> grind

/-! ## Terminated lines -/

variable {ls : List Bytes}

theorem unterminated_unlines : unterminated (Lines.unlines newline ls) = false := by
  induction ls using List.reverseRecOn with
  | nil => rfl
  | append_singleton ls l _ =>
    have h : Lines.unlines newline (ls ++ [l]) = Lines.unlines newline ls ++ l ++ [newline] := by
      simp
    rw [h, unterminated, List.getLast?_concat]
    decide

theorem tailScan_unlines (hls : ∀ l ∈ ls, newline ∉ l) {skip need : Nat} (hskip : skip < need)
    (hneed : need ≤ ls.length) :
    (tailScan (Lines.unlines newline ls) skip need).o1 =
        (Lines.unlines newline (ls.take (ls.length - need))).length ∧
      (tailScan (Lines.unlines newline ls) skip need).o2 =
        (Lines.unlines newline (ls.take (ls.length - skip))).length := by
  have hends : boundaries (Lines.unlines newline ls) =
      Lines.ends newline (Lines.unlines newline ls) := by
    rw [boundaries, unterminated_unlines]
    rfl
  rw [tailScan_eq _ (by omega) (by omega), hends]
  constructor
  · show (Lines.ends newline (Lines.unlines newline ls))[need]?.getD 0 = _
    rcases Nat.lt_or_eq_of_le hneed with h | h
    · rw [Lines.getElem?_ends_unlines hls h, Option.getD_some]
    · rw [List.getElem?_eq_none (by rw [Lines.length_ends_unlines hls]; omega), h, Nat.sub_self]
      rfl
  · show (if skip = 0 then _ else (Lines.ends newline (Lines.unlines newline ls))[skip]?.getD _) = _
    split
    case isTrue h => rw [h, Nat.sub_zero, List.take_length]
    case isFalse h => rw [Lines.getElem?_ends_unlines hls (by omega), Option.getD_some]

/-- The tail of terminated lines is the lines asked for. -/
theorem readTail_unlines (hls : ∀ l ∈ ls, newline ∉ l) {skip take : Nat} (htake : 0 < take)
    (hle : skip + take ≤ ls.length) :
    readTail (Lines.unlines newline ls) skip take =
      fromUtf8Lossy (Lines.unlines newline
        ((ls.take (ls.length - skip)).drop (ls.length - (skip + take)))) := by
  obtain ⟨ho1, ho2⟩ := tailScan_unlines hls (by omega : skip < skip + take) hle
  have hwindow := Lines.window_unlines newline ls
    (by omega : ls.length - (skip + take) ≤ ls.length - skip)
  unfold readTail
  dsimp only
  rw [if_neg (by omega), ho1, ho2, hwindow]
  split
  case isTrue h =>
    rw [Nat.sub_eq_zero_of_le h, List.take_zero] at hwindow
    rw [← hwindow]
    exact (fromUtf8Lossy_utf8Bytes "").symm
  case isFalse => rfl

end XavierDB.Log
