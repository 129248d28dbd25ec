import Mathlib.Data.List.TakeWhile
import XavierDB.Base.Lines
import XavierDB.Base.Utf8

/-!
# Text as Rust's standard library treats it
-/

namespace XavierDB

/-- `char::is_whitespace`: the Unicode `White_Space` property. -/
def isWhiteSpace (c : Char) : Bool :=
  let n := c.toNat
  (9 ≤ n && n ≤ 13) || n == 0x20 || n == 0x85 || n == 0xA0 || n == 0x1680 ||
    (0x2000 ≤ n && n ≤ 0x200A) || n == 0x2028 || n == 0x2029 || n == 0x202F || n == 0x205F ||
    n == 0x3000

theorem isDigit_iff {c : Char} : c.isDigit = true ↔ 48 ≤ c.toNat ∧ c.toNat ≤ 57 := by
  have hrange : c.isDigit = (decide (48 ≤ c.val) && decide (c.val ≤ 57)) := rfl
  rw [hrange, Bool.and_eq_true, decide_eq_true_eq, decide_eq_true_eq, UInt32.le_iff_toNat_le,
    UInt32.le_iff_toNat_le]
  exact Iff.rfl

theorem isAlpha_iff {c : Char} : c.isAlpha = true ↔
    65 ≤ c.toNat ∧ c.toNat ≤ 90 ∨ 97 ≤ c.toNat ∧ c.toNat ≤ 122 := by
  have hranges : c.isAlpha = (decide (65 ≤ c.val ∧ c.val ≤ 90) ||
      (decide (97 ≤ c.val) && decide (c.val ≤ 122))) := rfl
  rw [hranges, Bool.or_eq_true, Bool.and_eq_true]
  simp only [decide_eq_true_eq, UInt32.le_iff_toNat_le]
  exact Iff.rfl

/-- `str::trim`. -/
def trim (s : String) : String :=
  String.ofList (((s.toList.dropWhile isWhiteSpace).reverse.dropWhile isWhiteSpace).reverse)

/-- A text that starts with no blank is not blank. -/
theorem isEmpty_trim_of_head {c : Char} {l : List Char} (hc : isWhiteSpace c = false) :
    (trim (String.ofList (c :: l))).isEmpty = false := by
  have hdrop : (c :: l).dropWhile isWhiteSpace = c :: l :=
    List.dropWhile_cons_of_neg (by rw [hc]; decide)
  rw [String.isEmpty_eq_false_iff, trim, String.toList_ofList, hdrop, Ne, String.ofList_eq_empty_iff,
    List.reverse_eq_nil_iff, List.dropWhile_eq_nil_iff]
  intro h
  have := h c (List.mem_reverse.mpr List.mem_cons_self)
  rw [hc] at this
  cases this

/-- `str::trim_start`. -/
def trimStart (s : String) : String := String.ofList (s.toList.dropWhile isWhiteSpace)

/-- `{:?}` of a printable string. -/
def debugStr (s : String) : String :=
  "\"" ++ String.ofList (s.toList.flatMap fun c =>
    if c = '"' || c = '\\' then ['\\', c] else [c]) ++ "\""

/-! ## Splitting -/

/-- Around the first occurrence of the pattern. -/
def splitOnceList (pat : List Char) : List Char → Option (List Char × List Char)
  | [] => if pat.isEmpty then some ([], []) else none
  | c :: l =>
    if pat.isPrefixOf (c :: l) then some ([], (c :: l).drop pat.length)
    else (splitOnceList pat l).map fun p => (c :: p.1, p.2)

/-- `str::split_once`. -/
def splitOnce (pat s : String) : Option (String × String) :=
  (splitOnceList pat.toList s.toList).map fun p => (String.ofList p.1, String.ofList p.2)

/-- `str::rsplit_once`. -/
def rsplitOnce (pat s : String) : Option (String × String) :=
  (splitOnceList pat.toList.reverse s.toList.reverse).map fun p =>
    (String.ofList p.2.reverse, String.ofList p.1.reverse)

/-- `str::strip_prefix`. -/
def stripPrefix (pat s : String) : Option String :=
  if pat.toList.isPrefixOf s.toList then some (String.ofList (s.toList.drop pat.length)) else none

theorem eq_of_splitOnceList {pat l b a : List Char} (h : splitOnceList pat l = some (b, a)) :
    l = b ++ pat ++ a := by
  induction l generalizing b with
  | nil =>
    rw [splitOnceList] at h
    split at h
    case isTrue hpat =>
      obtain ⟨rfl, rfl⟩ := Prod.mk.inj (Option.some.inj h)
      rw [List.isEmpty_iff.mp hpat]
      rfl
    case isFalse => cases h
  | cons c l ih =>
    rw [splitOnceList] at h
    split at h
    case isTrue hpat =>
      obtain ⟨rfl, rfl⟩ := Prod.mk.inj (Option.some.inj h)
      obtain ⟨rest, hrest⟩ := List.isPrefixOf_iff_prefix.mp hpat
      rw [← hrest, List.drop_left, List.nil_append]
    case isFalse =>
      obtain ⟨⟨b', a'⟩, hp, heq⟩ := Option.map_eq_some_iff.mp h
      obtain ⟨rfl, rfl⟩ := Prod.mk.inj heq
      rw [ih hp]
      rfl

theorem eq_of_rsplitOnce {pat s b a : String} (h : rsplitOnce pat s = some (b, a)) :
    s = b ++ pat ++ a := by
  obtain ⟨⟨x, y⟩, hp, heq⟩ := Option.map_eq_some_iff.mp h
  obtain ⟨rfl, rfl⟩ := Prod.mk.inj heq
  have hl := eq_of_splitOnceList hp
  apply String.toList_injective
  rw [← List.reverse_reverse s.toList, hl]
  simp [String.toList_append]

/-- A text is split at the pattern when its first character is not before. -/
theorem splitOnceList_append {x : Char} {l : List Char} (h : x ∉ l) (pat r : List Char) :
    splitOnceList (x :: pat) (l ++ (x :: pat) ++ r) = some (l, r) := by
  induction l with
  | nil =>
    have hpre : (x :: pat).isPrefixOf (x :: (pat ++ r)) = true :=
      List.isPrefixOf_iff_prefix.mpr (List.prefix_append (x :: pat) r)
    rw [List.nil_append, List.cons_append, splitOnceList, if_pos hpre, List.length_cons,
      List.drop_succ_cons, List.drop_left]
  | cons c l ih =>
    rw [List.mem_cons, not_or] at h
    have hpre : (x :: pat).isPrefixOf (c :: (l ++ (x :: pat) ++ r)) = false := by
      rw [List.isPrefixOf_cons_cons, beq_eq_false_iff_ne.mpr h.1, Bool.false_and]
    rw [List.cons_append, List.cons_append, splitOnceList, hpre, ih h.2]
    rfl

/-- Of a pattern of two characters the second may be the one that is not before. -/
theorem splitOnceList_pair {x y : Char} {l : List Char} (hxy : x ≠ y) (h : y ∉ l)
    (r : List Char) : splitOnceList [x, y] (l ++ [x, y] ++ r) = some (l, r) := by
  induction l with
  | nil => simp [splitOnceList]
  | cons c l ih =>
    rw [List.mem_cons, not_or] at h
    have hpre : [x, y].isPrefixOf (c :: (l ++ [x, y] ++ r)) = false := by
      cases l with
      | nil =>
        show [x, y].isPrefixOf (c :: x :: y :: r) = false
        rw [List.isPrefixOf_cons_cons, List.isPrefixOf_cons_cons,
          beq_eq_false_iff_ne.mpr hxy.symm, Bool.false_and, Bool.and_false]
      | cons d l =>
        rw [List.mem_cons, not_or] at h
        show [x, y].isPrefixOf (c :: d :: (l ++ [x, y] ++ r)) = false
        rw [List.isPrefixOf_cons_cons, List.isPrefixOf_cons_cons,
          beq_eq_false_iff_ne.mpr h.2.1, Bool.false_and, Bool.and_false]
    rw [List.cons_append, List.cons_append, splitOnceList, hpre, ih h.2]
    rfl

theorem splitOnce_append {pat l : String} {x : Char} {ps : List Char}
    (hpat : pat.toList = x :: ps) (h : x ∉ l.toList) (r : String) :
    splitOnce pat (l ++ pat ++ r) = some (l, r) := by
  rw [splitOnce, String.toList_append, String.toList_append, hpat, splitOnceList_append h]
  simp

theorem rsplitOnce_append {pat r : String} {x : Char} {ps : List Char}
    (hpat : pat.toList.reverse = x :: ps) (h : x ∉ r.toList) (l : String) :
    rsplitOnce pat (l ++ pat ++ r) = some (l, r) := by
  have hrev : (l ++ pat ++ r).toList.reverse =
      r.toList.reverse ++ pat.toList.reverse ++ l.toList.reverse := by simp
  rw [rsplitOnce, hrev, hpat, splitOnceList_append (by rwa [List.mem_reverse])]
  simp

theorem stripPrefix_append (pat s : String) : stripPrefix pat (pat ++ s) = some s := by
  have hpre : pat.toList.isPrefixOf (pat ++ s).toList = true := by
    rw [String.toList_append, List.isPrefixOf_iff_prefix]
    exact List.prefix_append _ _
  rw [stripPrefix, if_pos hpre, String.toList_append, ← String.length_toList, List.drop_left,
    String.ofList_toList]

/-- A text with no blank at its ends. -/
theorem trim_eq_self {s : String} (hhead : ∀ c ∈ s.toList.head?, isWhiteSpace c = false)
    (hlast : ∀ c ∈ s.toList.getLast?, isWhiteSpace c = false) : trim s = s := by
  have hdrop : ∀ l : List Char, (∀ c ∈ l.head?, isWhiteSpace c = false) →
      l.dropWhile isWhiteSpace = l := by
    intro l hl
    cases l with
    | nil => rfl
    | cons c l => rw [List.dropWhile_cons, hl c rfl]; rfl
  rw [trim, hdrop _ hhead, hdrop _ (by rwa [List.head?_reverse]), List.reverse_reverse,
    String.ofList_toList]

/-! ## Lines -/

/-- `strip_suffix` of a character. -/
def stripLast (c : Char) (l : List Char) : Option (List Char) :=
  if l.getLast? = some c then some l.dropLast else none

/-- The line that a piece of `str::split_inclusive` holds. -/
def lineOfPiece (piece : List Char) : List Char :=
  match stripLast '\n' piece with
  | none => piece
  | some line => (stripLast '\r' line).getD line

/-- `str::lines`. -/
def lines (s : String) : List String :=
  (Lines.splitInclusive '\n' s.toList).map fun piece => String.ofList (lineOfPiece piece)

/-- A carriage return at the end is taken off. -/
def stripCr (s : String) : String := String.ofList ((stripLast '\r' s.toList).getD s.toList)

theorem lines_unlines {ls : List String} (h : ∀ l ∈ ls, '\n' ∉ l.toList) :
    lines (String.ofList (Lines.unlines '\n' (ls.map String.toList))) = ls.map stripCr := by
  rw [lines, String.toList_ofList, Lines.splitInclusive_unlines (List.forall_mem_map.mpr h),
    List.map_map, List.map_map]
  refine List.map_congr_left fun l _ => ?_
  have hpiece : stripLast '\n' (l.toList ++ ['\n']) = some l.toList := by
    rw [stripLast, if_pos List.getLast?_concat, List.dropLast_concat]
  simp only [Function.comp_apply, lineOfPiece, hpiece, stripCr]

theorem getD_stripLast_subset (c : Char) (l : List Char) : (stripLast c l).getD l ⊆ l := by
  unfold stripLast
  split
  case isTrue => exact List.dropLast_subset l
  case isFalse => exact fun _ h => h

/-- No line holds a line feed. -/
theorem notMem_of_mem_lines {s l : String} (h : l ∈ lines s) : '\n' ∉ l.toList := by
  obtain ⟨piece, hpiece, rfl⟩ := List.mem_map.mp h
  obtain ⟨ls, r, hs, hls, hr⟩ := Lines.exists_unlines '\n' s.toList
  rw [hs, Lines.splitInclusive_unlines_append hls hr, List.mem_append] at hpiece
  rw [String.toList_ofList]
  obtain hpiece | hpiece := hpiece
  · obtain ⟨x, hx, rfl⟩ := List.mem_map.mp hpiece
    rw [lineOfPiece, stripLast, if_pos List.getLast?_concat, List.dropLast_concat]
    exact fun hmem => hls x hx (getD_stripLast_subset '\r' x hmem)
  · split at hpiece
    case isTrue => cases hpiece
    case isFalse =>
      obtain rfl := List.mem_singleton.mp hpiece
      rw [lineOfPiece, stripLast, if_neg fun hlast => hr (List.mem_of_getLast? hlast)]
      exact hr

theorem utf8Bytes_unlines (ls : List String) :
    utf8Bytes (String.ofList (Lines.unlines '\n' (ls.map String.toList))) =
      Lines.unlines newline (ls.map utf8Bytes) := by
  rw [utf8Bytes_ofList]
  induction ls with
  | nil => rfl
  | cons l ls ih =>
    rw [List.map_cons, Lines.unlines_cons, List.map_cons, Lines.unlines_cons, List.flatMap_append,
      ← utf8Bytes_eq, List.flatMap_cons, ih]
    rfl

theorem stripCr_of_not {s : String} (h : s.toList.getLast? ≠ some '\r') : stripCr s = s := by
  rw [stripCr, stripLast, if_neg h, Option.getD_none, String.ofList_toList]

theorem length_stripCr_le (s : String) : (stripCr s).length ≤ s.length := by
  rw [stripCr, String.length_ofList, ← String.length_toList, stripLast]
  split
  · rw [Option.getD_some, List.length_dropLast]
    omega
  · exact Nat.le_refl _

/-- Only a text that ends in one loses a carriage return. -/
theorem length_stripCr_lt {s : String} (h : s.toList.getLast? = some '\r') :
    (stripCr s).length < s.length := by
  have hpos : 0 < s.toList.length := List.length_pos_iff.mpr fun hnil => by simp [hnil] at h
  rw [stripCr, String.length_ofList, ← String.length_toList, stripLast, if_pos h, Option.getD_some,
    List.length_dropLast]
  omega

end XavierDB
