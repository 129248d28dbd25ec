import Mathlib.Data.List.Sort
import Mathlib.Data.String.Basic
import XavierDB.Log.Entry
import XavierDB.Log.Sink
import XavierDB.Log.Tail

/-!
# Reading the log files back (`src/state.rs`)

The files are walked newest first; each gives the end of its lines, numbered
from the counts of the files before it. What comes out is the page asked for of
the lines of the store, numbered from the oldest kept.
-/

namespace XavierDB.Log

/-- The lines scanned for the facets. -/
def logFacetLines : Nat := 2000

/-- The answer: the entries, the total and the facets. -/
structure LogPage where
  entries : List LogEntry
  total : Nat
  apps : List String
  names : List (String × String)
  loggers : List String

/-- The distinct values in order. -/
def facet {α : Type} [DecidableEq α] (le : α → α → Prop) [DecidableRel le] (l : List α) : List α :=
  l.dedup.insertionSort le

def nameLe (p q : String × String) : Prop := p.1 < q.1 ∨ p.1 = q.1 ∧ p.2 ≤ q.2

instance : DecidableRel nameLe := fun _ _ => inferInstanceAs (Decidable (_ ∨ _))

/-- The files with the number of the first line of each. -/
def withBases : Nat → List (Bytes × Nat) → List (Nat × Bytes × Nat)
  | _, [] => []
  | base, (bytes, count) :: rest => (base, bytes, count) :: withBases (base + count) rest

/-- The number of lines wanted; `none` is `usize::MAX`. -/
def wanted (limit : Nat) : Option Nat := if limit = 0 then none else some (max limit logFacetLines)

def atMost (want : Option Nat) (n : Nat) : Nat := want.elim n (min · n)

def upTo {α : Type} (want : Option Nat) (l : List α) : List α := want.elim l fun n => l.take n

/-- The lines at the end of a file that are not below `before`. -/
def skipEnd (before : Option Nat) (base count : Nat) : Nat :=
  before.elim 0 fun b => count - (b - base)

/-- The entries of the files, newest first. -/
def walk (before : Option Nat) : List (Nat × Bytes × Nat) → Option Nat → List LogEntry
  | [], _ => []
  | (base, bytes, count) :: rest, want =>
    if want = some 0 then []
    else if count = 0 ∨ before.any (· ≤ base) then walk before rest want
    else
      let skip := skipEnd before base count
      let window := readTail bytes skip (atMost want (count - skip))
      let found := upTo want ((lines window).reverse.zipIdx.map fun p =>
        entryOf (base + count - 1 - skip - p.2) (stripCr p.1))
      found ++ walk before rest (want.map (· - found.length))

namespace LogFileSink

/-- The files that are there, oldest first, with their counts. -/
def present (s : LogFileSink) : List (Bytes × Nat) :=
  (List.range' 1 (s.files - 1)).reverse.filterMap (fun i =>
    (s.dir (.suffix i)).map fun bytes => (bytes, s.rotatedLines.getD (i - 1) 0)) ++
  ((s.dir .current).map fun bytes => (bytes, s.curLines)).toList

def read (s : LogFileSink) (limit : Nat) (before : Option Nat) : LogPage :=
  let collected := (walk before (withBases 0 s.present).reverse (wanted limit)).reverse
  { entries := if limit = 0 then collected else collected.drop (collected.length - limit)
    total := s.nextSeq
    apps := facet (· ≤ ·) (collected.filterMap (·.app))
    names := facet nameLe (collected.filterMap fun e => e.app.bind fun a => e.name.map fun n => (a, n))
    loggers := facet (· ≤ ·) (collected.map (·.logger)) }

end LogFileSink

/-! ## The entries of the store -/

/-- What is read of a line. -/
def shown (line : String) : String := stripCr (stripCr line)

/-- The entries of the writes, numbered from `base`. -/
def entriesFrom (base : Nat) (ws : List Written) : List LogEntry :=
  (ws.zipIdx base).map fun p => entryOf p.2 (shown p.1.text)

def below (before : Option Nat) (es : List LogEntry) : List LogEntry :=
  es.filter fun e => before.all (e.seq < ·)

/-- The last `limit` entries below `before`; no limit is 0. -/
def pageOf (limit : Nat) (before : Option Nat) (es : List LogEntry) : List LogEntry :=
  if limit = 0 then below before es
  else (below before es).drop ((below before es).length - limit)

/-- The file of the writes and its count. -/
def fileOf (ws : List Written) : Bytes × Nat := (fileBytes ws, ws.length)

theorem entriesFrom_append (base : Nat) (vs ws : List Written) :
    entriesFrom base (vs ++ ws) = entriesFrom base vs ++ entriesFrom (base + vs.length) ws := by
  rw [entriesFrom, List.zipIdx_append, List.map_append]
  rfl

theorem length_entriesFrom (base : Nat) (ws : List Written) :
    (entriesFrom base ws).length = ws.length := by
  rw [entriesFrom, List.length_map, List.length_zipIdx]

theorem raw_entriesFrom (base : Nat) (ws : List Written) :
    (entriesFrom base ws).map LogEntry.raw = ws.map fun w => shown w.text := by
  have hfst : (ws.zipIdx base).map Prod.fst = ws := List.zipIdx_map_fst base ws
  calc (entriesFrom base ws).map LogEntry.raw
      = ((ws.zipIdx base).map Prod.fst).map fun w => shown w.text := by
        rw [entriesFrom, List.map_map, List.map_map]
        rfl
    _ = ws.map fun w => shown w.text := by rw [hfst]

theorem pageOf_all (es : List LogEntry) : pageOf 0 none es = es :=
  List.filter_eq_self.mpr fun _ _ => rfl

theorem withBases_append (base : Nat) (gs hs : List (Bytes × Nat)) :
    withBases base (gs ++ hs) =
      withBases base gs ++ withBases (base + (gs.map Prod.snd).sum) hs := by
  induction gs generalizing base with
  | nil => rfl
  | cons g gs ih =>
    rw [List.cons_append, withBases, ih, withBases, List.map_cons, List.sum_cons, Nat.add_assoc]
    rfl

/-! ## Budgets -/

theorem upTo_append {α : Type} (want : Option Nat) (l m : List α) :
    upTo want (l ++ m) = upTo want l ++ upTo (want.map (· - (upTo want l).length)) m := by
  cases want with
  | none => rfl
  | some n =>
    show (l ++ m).take n = l.take n ++ m.take (n - (l.take n).length)
    rw [List.take_append, List.length_take]
    congr 2
    omega

theorem upTo_take_atMost {α : Type} (want : Option Nat) (l : List α) :
    upTo want (l.take (atMost want l.length)) = upTo want l := by
  cases want with
  | none => exact List.take_length
  | some n =>
    show (l.take (min n l.length)).take n = l.take n
    rw [List.take_take, ← Nat.min_assoc, Nat.min_self]
    exact (List.take_eq_take_min ..).symm

theorem atMost_bounds {want : Option Nat} {n : Nat} (hwant : want ≠ some 0) (hn : 0 < n) :
    0 < atMost want n ∧ atMost want n ≤ n := by
  cases want with
  | none => exact ⟨hn, Nat.le_refl n⟩
  | some m =>
    have hm : m ≠ 0 := fun h => hwant (congrArg some h)
    show 0 < min m n ∧ min m n ≤ n
    omega

/-! ## One file -/

theorem filter_entriesFrom (base b : Nat) (ws : List Written) :
    (entriesFrom base ws).filter (fun e => e.seq < b) = entriesFrom base (ws.take (b - base)) := by
  induction ws generalizing base with
  | nil => rw [List.take_nil]; rfl
  | cons w ws ih =>
    have hcons : ∀ vs, entriesFrom base (w :: vs) =
        entryOf base (shown w.text) :: entriesFrom (base + 1) vs := fun _ => rfl
    have hseq : (entryOf base (shown w.text)).seq = base := rfl
    rw [hcons]
    rcases Nat.lt_or_ge base b with h | h
    · rw [List.filter_cons_of_pos (by rwa [hseq, decide_eq_true_iff]), ih,
        show b - base = b - (base + 1) + 1 by omega, List.take_succ_cons, hcons]
    · rw [List.filter_cons_of_neg (by rw [hseq, decide_eq_true_iff]; omega), ih,
        Nat.sub_eq_zero_of_le h, Nat.sub_eq_zero_of_le (by omega)]
      rfl

theorem lines_readTail {ws : List Written} (hclean : ∀ w ∈ ws, '\n' ∉ w.text.toList)
    {skip take : Nat} (htake : 0 < take) (hle : skip + take ≤ ws.length) :
    lines (readTail (fileBytes ws) skip take) =
      ((ws.take (ws.length - skip)).drop (ws.length - (skip + take))).map
        fun w => stripCr w.text := by
  have hbytes : ∀ l ∈ (ws.map Written.text).map utf8Bytes, newline ∉ l := by
    simp only [List.forall_mem_map]
    exact fun w hw => mt newline_mem_utf8Bytes.mp (hclean w hw)
  have hfile : fileBytes ws = Lines.unlines newline ((ws.map Written.text).map utf8Bytes) := by
    rw [fileBytes, List.map_map]
    rfl
  have htext : ∀ l ∈ ((ws.take (ws.length - skip)).drop (ws.length - (skip + take))).map
      Written.text, '\n' ∉ l.toList := by
    simp only [List.forall_mem_map]
    exact fun w hw => hclean w (List.mem_of_mem_take (List.mem_of_mem_drop hw))
  rw [hfile, readTail_unlines hbytes htake (by simpa using hle), List.length_map, List.length_map,
    ← List.map_take, ← List.map_drop, ← List.map_take, ← List.map_drop, ← utf8Bytes_unlines,
    fromUtf8Lossy_utf8Bytes, lines_unlines htext, List.map_map]
  rfl

/-- The last lines of a file, newest first, under their numbers. -/
theorem reverse_lines (base : Nat) (ws : List Written) {n : Nat} (hn : n ≤ ws.length) :
    (((ws.drop (ws.length - n)).map fun w => stripCr w.text).reverse.zipIdx.map fun p =>
        entryOf (base + ws.length - 1 - p.2) (stripCr p.1)) =
      (entriesFrom base ws).reverse.take n := by
  refine List.ext_getElem ?_ fun k _ h => ?_
  · simp only [List.length_map, List.length_zipIdx, List.length_reverse, List.length_drop,
      List.length_take, length_entriesFrom]
    omega
  · simp only [List.length_take, List.length_reverse, length_entriesFrom] at h
    have hnumber : base + ws.length - 1 - k = base + (ws.length - 1 - k) := by omega
    have hplace : ws.length - n + (ws.length - (ws.length - n) - 1 - k) = ws.length - 1 - k := by
      omega
    simp [entriesFrom, shown, hnumber, hplace]

theorem skipEnd_le (before : Option Nat) (base count : Nat) : skipEnd before base count ≤ count := by
  cases before with
  | none => exact Nat.zero_le _
  | some b => exact Nat.sub_le ..

theorem skipEnd_lt {before : Option Nat} {base count : Nat}
    (hbefore : before.any (· ≤ base) = false) (hcount : 0 < count) :
    skipEnd before base count < count := by
  cases before with
  | none => exact hcount
  | some b =>
    have hb : ¬b ≤ base := of_decide_eq_false hbefore
    show count - (b - base) < count
    omega

theorem below_entriesFrom (before : Option Nat) (base : Nat) (ws : List Written) :
    below before (entriesFrom base ws) =
      entriesFrom base (ws.take (ws.length - skipEnd before base ws.length)) := by
  cases before with
  | none =>
    rw [below, skipEnd, Option.elim_none, Nat.sub_zero, List.take_length]
    exact List.filter_eq_self.mpr fun _ _ => rfl
  | some b =>
    have hlen : ws.length - (ws.length - (b - base)) = min (b - base) ws.length := by omega
    rw [skipEnd, Option.elim_some, hlen, ← List.take_eq_take_min]
    exact filter_entriesFrom base b ws

theorem below_eq_nil {before : Option Nat} {base : Nat} (h : before.any (· ≤ base) = true)
    (ws : List Written) : below before (entriesFrom base ws) = [] := by
  cases before with
  | none => cases h
  | some b =>
    have hb : b ≤ base := of_decide_eq_true h
    rw [below_entriesFrom, skipEnd, Option.elim_some, Nat.sub_eq_zero_of_le hb, Nat.sub_zero,
      Nat.sub_self]
    rfl

/-- What one file gives. -/
theorem found_eq {before want : Option Nat} {base : Nat} {ws : List Written}
    (hclean : ∀ w ∈ ws, '\n' ∉ w.text.toList) (hws : ws ≠ []) (hwant : want ≠ some 0)
    (hbefore : before.any (· ≤ base) = false) :
    upTo want ((lines (readTail (fileBytes ws) (skipEnd before base ws.length)
        (atMost want (ws.length - skipEnd before base ws.length)))).reverse.zipIdx.map fun p =>
          entryOf (base + ws.length - 1 - skipEnd before base ws.length - p.2) (stripCr p.1)) =
      upTo want (below before (entriesFrom base ws)).reverse := by
  have hle := skipEnd_le before base ws.length
  have hskip := skipEnd_lt hbefore (List.length_pos_iff.mpr hws)
  rw [below_entriesFrom]
  generalize skipEnd before base ws.length = skip at hle hskip ⊢
  have hlen : (ws.take (ws.length - skip)).length = ws.length - skip := by
    rw [List.length_take]
    omega
  obtain ⟨hpos, hmost⟩ := atMost_bounds hwant (by omega : 0 < ws.length - skip)
  have hdrop : ws.length - (skip + atMost want (ws.length - skip)) =
      (ws.take (ws.length - skip)).length - atMost want (ws.length - skip) := by
    omega
  have hnumber : ∀ k, base + ws.length - 1 - skip - k =
      base + (ws.take (ws.length - skip)).length - 1 - k := by
    omega
  rw [lines_readTail hclean hpos (by omega), hdrop]
  simp only [hnumber]
  rw [reverse_lines base _ (by omega), ← upTo_take_atMost want (entriesFrom base _).reverse,
    List.length_reverse, length_entriesFrom, hlen]

/-! ## The walk -/

theorem below_append (before : Option Nat) (es fs : List LogEntry) :
    below before (es ++ fs) = below before es ++ below before fs :=
  List.filter_append ..

/-- The walk gives the newest entries below `before`, as many as wanted. -/
theorem walk_eq {before : Option Nat} {gs : List (List Written)}
    (hclean : ∀ g ∈ gs, ∀ w ∈ g, '\n' ∉ w.text.toList) (want : Option Nat) :
    walk before (withBases 0 (gs.map fileOf)).reverse want =
      upTo want (below before (entriesFrom 0 gs.flatten)).reverse := by
  induction gs using List.reverseRecOn generalizing want with
  | nil =>
    cases want with
    | none => rfl
    | some n => exact List.take_nil.symm
  | append_singleton gs g ih =>
    rw [List.forall_mem_append, List.forall_mem_singleton] at hclean
    have hcount : 0 + ((gs.map fileOf).map Prod.snd).sum = gs.flatten.length := by
      rw [List.map_map, List.length_flatten, Nat.zero_add]
      rfl
    rw [List.map_append, List.map_singleton, withBases_append, List.reverse_append, hcount,
      List.flatten_append, List.flatten_singleton, entriesFrom_append, below_append,
      List.reverse_append, Nat.zero_add]
    show walk before ((gs.flatten.length, fileBytes g, g.length) ::
      (withBases 0 (gs.map fileOf)).reverse) want = _
    rw [walk]
    split
    case isTrue h => rw [h]; rfl
    case isFalse hwant =>
      split
      case isTrue h =>
        have hnil : below before (entriesFrom gs.flatten.length g) = [] := by
          rcases h with h | h
          · rw [List.length_eq_zero_iff.mp h]
            rfl
          · exact below_eq_nil h g
        rw [ih hclean.1, hnil, List.reverse_nil, List.nil_append]
      case isFalse h =>
        rw [not_or, Bool.not_eq_true] at h
        dsimp only
        rw [found_eq hclean.2 (mt List.length_eq_zero_iff.mpr h.1) hwant h.2, upTo_append,
          ih hclean.1]

/-! ## The sink -/

theorem Holds.present_old {s : LogFileSink} {r : Rotating Written} (h : Holds s r) {n : Nat}
    (hn : n ≤ r.old.length) :
    ∃ gs : List (List Written),
      (List.range' 1 n).reverse.filterMap (fun i => (s.dir (.suffix i)).map fun bytes =>
        (bytes, s.rotatedLines.getD (i - 1) 0)) = gs.map fileOf ∧
      gs.flatten = (r.old.take n).reverse.flatten := by
  induction n with
  | zero => exact ⟨[], rfl, rfl⟩
  | succ n ih =>
    obtain ⟨gs, hgs, hflat⟩ := ih (by omega)
    have hget := List.getElem?_eq_getElem (l := r.old) (i := n) (by omega)
    have hfile := h.rotated n _ hget
    have hcount : s.rotatedLines.getD n 0 = (r.old[n]).length := by
      rw [h.rotatedLines, List.getD_eq_getElem?_getD, List.getElem?_map, hget]
      rfl
    rw [List.range'_concat, List.reverse_concat, Nat.one_mul, Nat.add_comm 1 n, List.filterMap_cons,
      Nat.add_sub_cancel, hcount, hgs, List.take_succ_eq_append_getElem (by omega),
      List.reverse_concat, List.flatten_cons, ← hflat]
    cases hdir : s.dir (.suffix (n + 1)) with
    | none =>
      -- a file that is not there counts as an empty one
      rw [hdir, Option.getD_none] at hfile
      exact ⟨gs, rfl, by rw [eq_nil_of_fileBytes hfile.symm, List.nil_append]⟩
    | some bytes =>
      rw [hdir, Option.getD_some] at hfile
      exact ⟨r.old[n] :: gs, by rw [hfile]; rfl, rfl⟩

/-- The files that are there hold what is kept. -/
theorem Holds.present {s : LogFileSink} {r : Rotating Written} (h : Holds s r) :
    ∃ gs : List (List Written), s.present = gs.map fileOf ∧ gs.flatten = r.kept := by
  obtain ⟨gs, hgs, hflat⟩ := h.present_old (Nat.le_refl _)
  rw [h.old] at hgs
  rw [List.take_length] at hflat
  refine ⟨gs ++ [r.cur], ?_, ?_⟩
  · rw [LogFileSink.present, hgs, h.current, h.curLines, List.map_append]
    rfl
  · rw [List.flatten_append, hflat, List.flatten_singleton, Rotating.kept]

/-- The answer of a read is the page asked for of what is kept. -/
theorem Holds.read_entries {s : LogFileSink} {r : Rotating Written} (h : Holds s r)
    (hclean : ∀ w ∈ r.kept, '\n' ∉ w.text.toList) (limit : Nat) (before : Option Nat) :
    (s.read limit before).entries = pageOf limit before (entriesFrom 0 r.kept) := by
  obtain ⟨gs, hpresent, hkept⟩ := h.present
  have hgs : ∀ g ∈ gs, ∀ w ∈ g, '\n' ∉ w.text.toList := fun g hg w hw =>
    hclean w (hkept ▸ List.mem_flatten.mpr ⟨g, hg, hw⟩)
  unfold LogFileSink.read pageOf
  dsimp only
  rw [hpresent, walk_eq hgs, hkept]
  generalize below before (entriesFrom 0 r.kept) = es
  split
  case isTrue h => rw [wanted, if_pos h, upTo, Option.elim_none, List.reverse_reverse]
  case isFalse h =>
    rw [wanted, if_neg h, upTo, Option.elim_some, List.reverse_take, List.reverse_reverse,
      List.length_drop, List.length_reverse, List.drop_drop]
    congr 1
    omega

end XavierDB.Log
