import XavierDB.Log.Tail

/-!
# The window of `read_tail` (`src/state.rs`)

`read_tail` on any content, its counts in 64 bits. The boundaries of the scan are
the ends of the lines, a rest without a newline included; the phantom boundary at
the start of the file stands for `o1` only, so that asking to skip all lines
gives all of them.
-/

namespace XavierDB.Log

/-! ## The code -/

/-- The scan before the first boundary. -/
def Scan.start (bytes : Bytes) (skip : Nat) : Scan where
  passed := if unterminated bytes then 1 else 0
  o1 := 0
  o2 := bytes.length
  setO2 := skip == 0
  done := false

/-- The scan with `need + 1` in 64 bits: it wraps to 0, and nothing is scanned. -/
def tailScan64 (bytes : Bytes) (skip need : Nat) : Scan :=
  if (need + 1) % 2 ^ 64 = 0 then .start bytes skip else tailScan bytes skip need

/-- The bytes of `read_tail`, read with the true size; `none` where `checked_add` overflows. -/
def readTailBytes (bytes : Bytes) (skip take : UInt64) : Option Bytes :=
  let need := skip.toNat + take.toNat
  if 2 ^ 64 ≤ need then none
  else if need = 0 then some []
  else
    let s := tailScan64 bytes skip.toNat need
    if s.o2 ≤ s.o1 then some [] else some ((bytes.drop s.o1).take (s.o2 - s.o1))

/-- `read_tail`. -/
def readTail64 (bytes : Bytes) (skip take : UInt64) : Option String :=
  (readTailBytes bytes skip take).map fromUtf8Lossy

theorem tailScan64_of_lt (bytes : Bytes) (skip : Nat) {need : Nat} (h : need + 1 < 2 ^ 64) :
    tailScan64 bytes skip need = tailScan bytes skip need := by
  rw [tailScan64, Nat.mod_eq_of_lt h, if_neg (Nat.succ_ne_zero need)]

/-- Below the last number the counts do not wrap. -/
theorem readTail64_eq (bytes : Bytes) {skip take : UInt64}
    (h : skip.toNat + take.toNat + 1 < 2 ^ 64) :
    readTail64 bytes skip take = some (readTail bytes skip.toNat take.toNat) := by
  have hempty : fromUtf8Lossy [] = "" := fromUtf8Lossy_utf8Bytes ""
  unfold readTail64 readTailBytes readTail
  dsimp only
  rw [if_neg (by omega), tailScan64_of_lt bytes _ h]
  split
  · rw [Option.map_some, hempty]
  · split
    · rw [Option.map_some, hempty]
    · rw [Option.map_some]

/-! ## The lines -/

/-- The lines with their newlines; a rest without one is a line. -/
def contentLines (bytes : Bytes) : List Bytes := Lines.splitInclusive newline bytes

/-- The lines asked for. -/
def tailWindow (bytes : Bytes) (skip take : Nat) : Bytes :=
  let ls := contentLines bytes
  ((ls.take (ls.length - skip)).drop (ls.length - (skip + take))).flatten

/-- The length of the first lines. -/
def linesEnd (bytes : Bytes) (k : Nat) : Nat := ((contentLines bytes).take k).flatten.length

variable {bytes : Bytes}

theorem flatten_contentLines : (contentLines bytes).flatten = bytes :=
  Lines.flatten_splitInclusive newline bytes

theorem linesEnd_length : linesEnd bytes (contentLines bytes).length = bytes.length := by
  rw [linesEnd, List.take_length, flatten_contentLines]

theorem unterminated_append {ls : List Bytes} {r : Bytes} (hr : newline ∉ r) :
    unterminated (Lines.unlines newline ls ++ r) = decide (r ≠ []) := by
  cases r using List.reverseRecOn with
  | nil => rw [List.append_nil, unterminated_unlines]; rfl
  | append_singleton r b =>
    have hb : b ≠ newline := fun h => hr (h ▸ List.mem_append_right _ List.mem_cons_self)
    rw [unterminated, ← List.append_assoc, List.getLast?_concat]
    simp [hb]

theorem contentLines_append {ls : List Bytes} {r : Bytes} (hls : ∀ l ∈ ls, newline ∉ l)
    (hr : newline ∉ r) : contentLines (Lines.unlines newline ls ++ r) =
      ls.map (· ++ [newline]) ++ if r = [] then [] else [r] :=
  Lines.splitInclusive_unlines_append hls hr

theorem linesEnd_append {ls : List Bytes} {r : Bytes} (hls : ∀ l ∈ ls, newline ∉ l)
    (hr : newline ∉ r) {k : Nat} (hk : k ≤ ls.length) :
    linesEnd (Lines.unlines newline ls ++ r) k = (Lines.unlines newline (ls.take k)).length := by
  rw [linesEnd, contentLines_append hls hr, List.take_append_of_le_length (by simpa using hk),
    ← List.map_take, Lines.unlines, List.flatMap_def]

/-- The boundaries are the ends of the lines, the last line first. -/
theorem boundaries_spec (bytes : Bytes) :
    (boundaries bytes).length = (contentLines bytes).length ∧
      ∀ k < (contentLines bytes).length,
        (boundaries bytes)[k]? = some (linesEnd bytes ((contentLines bytes).length - k)) := by
  obtain ⟨ls, r, rfl, hls, hr⟩ := Lines.exists_unlines newline bytes
  have hends := Lines.length_ends_unlines hls
  by_cases hnil : r = []
  · have hlen : (contentLines (Lines.unlines newline ls ++ r)).length = ls.length := by
      rw [contentLines_append hls hr, if_pos hnil, List.append_nil, List.length_map]
    have hb : boundaries (Lines.unlines newline ls ++ r) =
        Lines.ends newline (Lines.unlines newline ls) := by
      rw [boundaries, unterminated_append hr, Lines.ends_append hr]
      simp [hnil]
    rw [hlen, hb]
    refine ⟨hends, fun k hk => ?_⟩
    rw [Lines.getElem?_ends_unlines hls hk, linesEnd_append hls hr (by omega)]
  · have hlen : (contentLines (Lines.unlines newline ls ++ r)).length = ls.length + 1 := by
      rw [contentLines_append hls hr, if_neg hnil, List.length_append, List.length_map,
        List.length_singleton]
    have hb : boundaries (Lines.unlines newline ls ++ r) =
        (Lines.unlines newline ls ++ r).length ::
          Lines.ends newline (Lines.unlines newline ls) := by
      rw [boundaries, unterminated_append hr, Lines.ends_append hr]
      simp [hnil]
    have hall := @linesEnd_length (Lines.unlines newline ls ++ r)
    rw [hlen] at hall ⊢
    rw [hb]
    refine ⟨by rw [List.length_cons, hends], fun k hk => ?_⟩
    cases k with
    | zero => rw [List.getElem?_cons_zero, Nat.sub_zero, hall]
    | succ k =>
      rw [List.getElem?_cons_succ, Lines.getElem?_ends_unlines hls (by omega),
        Nat.add_sub_add_right, linesEnd_append hls hr (by omega)]

/-! ## The window -/

theorem length_contentLines_le : (contentLines bytes).length ≤ bytes.length := by
  have hne : ∀ p ∈ contentLines bytes, p ≠ [] := fun p hp =>
    Lines.ne_nil_of_mem_splitInclusive hp
  have hle := Lines.length_le_length_flatten hne
  rwa [flatten_contentLines] at hle

theorem contentLines_eq_nil : (contentLines bytes).length = 0 ↔ bytes = [] := by
  constructor
  · intro h
    rw [← @flatten_contentLines bytes, List.eq_nil_of_length_eq_zero h, List.flatten_nil]
  · rintro rfl
    rfl

/-- The bytes of the first lines and those of the others. -/
theorem length_linesEnd (k : Nat) :
    linesEnd bytes k + ((contentLines bytes).drop k).flatten.length = bytes.length := by
  rw [linesEnd, ← List.length_append, ← List.flatten_append, List.take_append_drop,
    flatten_contentLines]

theorem linesEnd_lt {k : Nat} (hk : k < (contentLines bytes).length) :
    linesEnd bytes k < bytes.length := by
  have hsplit := @length_linesEnd bytes k
  have hne : ∀ p ∈ (contentLines bytes).drop k, p ≠ [] := fun p hp =>
    Lines.ne_nil_of_mem_splitInclusive (List.mem_of_mem_drop hp)
  have hle := Lines.length_le_length_flatten hne
  rw [List.length_drop] at hle
  omega

/-- Between the ends of lines are the lines. -/
theorem drop_take_linesEnd {a b : Nat} (h : a ≤ b) :
    (bytes.drop (linesEnd bytes a)).take (linesEnd bytes b - linesEnd bytes a) =
      (((contentLines bytes).take b).drop a).flatten := by
  have hwindow := Lines.window_flatten (contentLines bytes) h
  rwa [flatten_contentLines] at hwindow

/-- The bytes between the offsets of a scan. -/
def Scan.window (bytes : Bytes) (s : Scan) : Bytes :=
  if s.o2 ≤ s.o1 then [] else (bytes.drop s.o1).take (s.o2 - s.o1)

theorem Scan.window_all {s : Scan} (h1 : s.o1 = 0) (h2 : s.o2 = bytes.length) :
    s.window bytes = bytes := by
  unfold Scan.window
  rw [h1, h2]
  split
  case isTrue h => rw [List.eq_nil_of_length_eq_zero (Nat.le_zero.mp h)]
  case isFalse => rw [List.drop_zero, Nat.sub_zero, List.take_length]

theorem readTailBytes_eq {skip take : UInt64} (h0 : 0 < skip.toNat + take.toNat)
    (h : skip.toNat + take.toNat < 2 ^ 64) : readTailBytes bytes skip take =
      some ((tailScan64 bytes skip.toNat (skip.toNat + take.toNat)).window bytes) := by
  unfold readTailBytes Scan.window
  dsimp only
  rw [if_neg (by omega), if_neg (by omega)]
  split <;> rfl

/-- Where a line is left, the offsets are the ends of the lines around the window. -/
theorem tailScan_window {skip take : Nat} (hneed : 0 < skip + take)
    (hskip : skip = 0 ∨ skip < (contentLines bytes).length) :
    (tailScan bytes skip (skip + take)).window bytes = tailWindow bytes skip take := by
  obtain ⟨hlen, hget⟩ := boundaries_spec bytes
  rw [tailScan_eq bytes (Nat.le_add_right ..) hneed]
  have ho2 : (Scan.after skip (skip + take) bytes.length (boundaries bytes)).o2 =
      linesEnd bytes ((contentLines bytes).length - skip) := by
    show (if skip = 0 then bytes.length else (boundaries bytes)[skip]?.getD bytes.length) = _
    split
    case isTrue h => rw [h, Nat.sub_zero, linesEnd_length]
    case isFalse h => rw [hget skip (by omega), Option.getD_some]
  have ho1 : (Scan.after skip (skip + take) bytes.length (boundaries bytes)).o1 =
      linesEnd bytes ((contentLines bytes).length - (skip + take)) := by
    show (boundaries bytes)[skip + take]?.getD 0 = _
    by_cases h : skip + take < (contentLines bytes).length
    · rw [hget _ h, Option.getD_some]
    · rw [List.getElem?_eq_none (by omega), Nat.sub_eq_zero_of_le (by omega)]
      rfl
  have hle : (contentLines bytes).length - (skip + take) ≤ (contentLines bytes).length - skip := by
    omega
  have hwindow := @drop_take_linesEnd bytes _ _ hle
  unfold Scan.window tailWindow
  rw [ho1, ho2]
  split
  case isTrue h =>
    rw [Nat.sub_eq_zero_of_le h, List.take_zero] at hwindow
    exact hwindow
  case isFalse => exact hwindow

/-- Where no line is left, neither offset is found and the window is the file. -/
theorem tailScan_window_all {skip take : Nat} (hskip : 0 < skip)
    (hall : (contentLines bytes).length ≤ skip) :
    (tailScan bytes skip (skip + take)).window bytes = bytes := by
  obtain ⟨hlen, -⟩ := boundaries_spec bytes
  rw [tailScan_eq bytes (Nat.le_add_right ..) (by omega)]
  apply Scan.window_all
  · show (boundaries bytes)[skip + take]?.getD 0 = 0
    rw [List.getElem?_eq_none (by omega)]
    rfl
  · show (if skip = 0 then bytes.length else (boundaries bytes)[skip]?.getD bytes.length) = _
    rw [if_neg (by omega), List.getElem?_eq_none (by omega)]
    rfl

/-- With no line above the window, it is the first lines. -/
theorem tailWindow_first {skip take : Nat} (h : (contentLines bytes).length ≤ skip + take) :
    tailWindow bytes skip take =
      ((contentLines bytes).take ((contentLines bytes).length - skip)).flatten := by
  unfold tailWindow
  dsimp only
  rw [Nat.sub_eq_zero_of_le h, List.drop_zero]

/-- These first lines are the file only when none is skipped. -/
theorem first_lines_eq_iff {skip : Nat} :
    ((contentLines bytes).take ((contentLines bytes).length - skip)).flatten = bytes ↔
      bytes = [] ∨ skip = 0 := by
  constructor
  · intro h
    by_contra hnot
    rw [not_or, ← contentLines_eq_nil] at hnot
    have hlt := @linesEnd_lt bytes ((contentLines bytes).length - skip) (by omega)
    rw [linesEnd, h] at hlt
    omega
  · rintro (rfl | rfl)
    · show (List.take _ ([] : List Bytes)).flatten = []
      rw [List.take_nil, List.flatten_nil]
    · rw [Nat.sub_zero, List.take_length, flatten_contentLines]

/-- `read_tail` returns the window asked for exactly when the sum of its arguments fits and
a line is left: where the file has no more than `skip` lines it returns all of them. -/
theorem readTailBytes_eq_iff (bytes : Bytes) (hsize : bytes.length < 2 ^ 64)
    (skip take : UInt64) :
    readTailBytes bytes skip take = some (tailWindow bytes skip.toNat take.toNat) ↔
      skip.toNat + take.toNat < 2 ^ 64 ∧ (bytes = [] ∨ skip.toNat = 0 ∨
        skip.toNat < (contentLines bytes).length ∧ skip.toNat + take.toNat + 1 < 2 ^ 64) := by
  generalize hn : skip.toNat + take.toNat = need
  by_cases hover : 2 ^ 64 ≤ need
  · refine iff_of_false (fun h => ?_) fun h => by omega
    rw [readTailBytes, if_pos (by omega)] at h
    cases h
  by_cases h0 : need = 0
  · have hskip : skip.toNat = 0 := by omega
    refine iff_of_true ?_ ⟨by omega, .inr (.inl hskip)⟩
    rw [readTailBytes, if_neg (by omega), if_pos (by omega), tailWindow, hn, h0, hskip]
    simp
  rw [readTailBytes_eq (by omega) (by omega), Option.some.injEq]
  by_cases hwrap : need + 1 = 2 ^ 64
  · -- `need + 1` wraps: the file as it is, which has fewer lines than `need`
    have hlines := @length_contentLines_le bytes
    have hscan : tailScan64 bytes skip.toNat need = .start bytes skip.toNat := by
      rw [tailScan64, hwrap, Nat.mod_self, if_pos rfl]
    have hnot : ¬ (skip.toNat < (contentLines bytes).length ∧ need + 1 < 2 ^ 64) := by omega
    rw [hn, hscan, Scan.window_all rfl rfl, tailWindow_first (by omega), eq_comm,
      first_lines_eq_iff, and_iff_right (by omega), or_iff_left hnot]
  rw [hn, tailScan64_of_lt bytes _ (by omega), ← hn]
  by_cases hskip : skip.toNat = 0 ∨ skip.toNat < (contentLines bytes).length
  · refine iff_of_true (tailScan_window (by omega) hskip) ⟨by omega, ?_⟩
    rcases hskip with hskip | hskip
    · exact .inr (.inl hskip)
    · exact .inr (.inr ⟨hskip, by omega⟩)
  · rw [not_or] at hskip
    have hnot : ¬ (skip.toNat < (contentLines bytes).length ∧
        skip.toNat + take.toNat + 1 < 2 ^ 64) := by omega
    rw [tailScan_window_all (by omega) (by omega), tailWindow_first (by omega), eq_comm,
      first_lines_eq_iff, and_iff_right (by omega), or_iff_left hnot]

theorem readTailBytes_eq_iff_lastLine :
    readTailBytes [97, 10, 98, 10, 99] 0 1 =
      some (tailWindow [97, 10, 98, 10, 99] (0 : UInt64).toNat (1 : UInt64).toNat) ↔
    (0 : UInt64).toNat + (1 : UInt64).toNat < 2 ^ 64 ∧ (([97, 10, 98, 10, 99] : Bytes) = [] ∨
      (0 : UInt64).toNat = 0 ∨ (0 : UInt64).toNat < (contentLines [97, 10, 98, 10, 99]).length ∧
        (0 : UInt64).toNat + (1 : UInt64).toNat + 1 < 2 ^ 64) :=
  readTailBytes_eq_iff [97, 10, 98, 10, 99] (by decide) 0 1

/-- One line, and one to skip: the line is returned. -/
theorem readTail64_skipped : tailWindow [97, 10] 1 1 = [] ∧
    readTailBytes [97, 10] 1 1 = some [97, 10] ∧ readTail64 [97, 10] 1 1 = some "a\n" := by
  have hbytes : readTailBytes [97, 10] 1 1 = some [97, 10] := by decide +kernel
  refine ⟨by decide, hbytes, ?_⟩
  rw [readTail64, hbytes]
  exact congrArg some (fromUtf8Lossy_utf8Bytes "a\n")

end XavierDB.Log
