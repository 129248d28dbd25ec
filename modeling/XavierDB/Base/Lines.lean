import Mathlib.Algebra.Ring.Nat
import Mathlib.Data.List.Induction

/-!
# Lines

A text of lines is its lines, each followed by a terminator. The terminators
tell the lines apart as long as no line holds one.
-/

namespace XavierDB.Lines

variable {α : Type}

/-- The lines, each followed by the terminator. -/
def unlines (nl : α) (ls : List (List α)) : List α := ls.flatMap (· ++ [nl])

@[simp] theorem unlines_nil (nl : α) : unlines nl [] = [] := rfl

@[simp] theorem unlines_cons (nl : α) (l : List α) (ls : List (List α)) :
    unlines nl (l :: ls) = l ++ nl :: unlines nl ls := by
  simp [unlines]

@[simp] theorem unlines_append (nl : α) (ls ms : List (List α)) :
    unlines nl (ls ++ ms) = unlines nl ls ++ unlines nl ms :=
  List.flatMap_append

/-- Some of the pieces in the middle. -/
theorem window_flatten (ps : List (List α)) {a b : Nat} (hab : a ≤ b) :
    (ps.flatten.drop (ps.take a).flatten.length).take
      ((ps.take b).flatten.length - (ps.take a).flatten.length) =
      ((ps.take b).drop a).flatten := by
  have hall : ps.flatten = (ps.take b).flatten ++ (ps.drop b).flatten := by
    rw [← List.flatten_append, List.take_append_drop]
  have hb : (ps.take b).flatten = (ps.take a).flatten ++ ((ps.take b).drop a).flatten := by
    have htake : (ps.take b).take a = ps.take a := by rw [List.take_take, Nat.min_eq_left hab]
    rw [← List.flatten_append, ← htake, List.take_append_drop]
  rw [hall, hb, List.append_assoc, List.drop_left' rfl, List.length_append,
    Nat.add_sub_cancel_left, List.take_left' rfl]

theorem length_le_length_flatten {ps : List (List α)} (h : ∀ p ∈ ps, p ≠ []) :
    ps.length ≤ ps.flatten.length := by
  induction ps with
  | nil => exact Nat.le_refl 0
  | cons p ps ih =>
    rw [List.forall_mem_cons] at h
    have hp := List.length_pos_iff.mpr h.1
    have hps := ih h.2
    rw [List.flatten_cons, List.length_append, List.length_cons]
    omega

/-- The bytes of some lines in the middle. -/
theorem window_unlines (nl : α) (ls : List (List α)) {a b : Nat} (hab : a ≤ b) :
    ((unlines nl ls).drop (unlines nl (ls.take a)).length).take
      ((unlines nl (ls.take b)).length - (unlines nl (ls.take a)).length) =
      unlines nl ((ls.take b).drop a) := by
  simp only [unlines, List.flatMap_def, List.map_take, List.map_drop]
  exact window_flatten _ hab

variable [DecidableEq α] {nl : α} {ls : List (List α)}

/-! ## Counting -/

theorem count_unlines : (unlines nl ls).count nl = (ls.map (List.count nl)).sum + ls.length := by
  induction ls with
  | nil => rfl
  | cons l ls ih =>
    rw [unlines_cons, List.count_append, List.count_cons_self, ih, List.map_cons, List.sum_cons,
      List.length_cons]
    omega

/-- The terminators count the lines when no line holds one, and only then. -/
theorem count_unlines_eq_iff : (unlines nl ls).count nl = ls.length ↔ ∀ l ∈ ls, nl ∉ l := by
  rw [count_unlines, Nat.add_eq_right, List.sum_eq_zero_iff_forall_eq_nat]
  constructor
  · intro h l hl
    exact List.count_eq_zero.mp (h _ (List.mem_map_of_mem hl))
  · intro h n hn
    obtain ⟨l, hl, rfl⟩ := List.mem_map.mp hn
    exact List.count_eq_zero.mpr (h l hl)

/-! ## Splitting -/

/-- The pieces that end behind a terminator, and what is left. -/
def splitInclusive (nl : α) : List α → List (List α)
  | [] => []
  | a :: l =>
    if a = nl then [a] :: splitInclusive nl l
    else
      match splitInclusive nl l with
      | [] => [[a]]
      | p :: ps => (a :: p) :: ps

theorem splitInclusive_append {l : List α} (hl : nl ∉ l) (rest : List α) :
    splitInclusive nl (l ++ nl :: rest) = (l ++ [nl]) :: splitInclusive nl rest := by
  induction l with
  | nil => rw [List.nil_append, splitInclusive, if_pos rfl, List.nil_append]
  | cons a l ih =>
    rw [List.mem_cons, not_or] at hl
    rw [List.cons_append, splitInclusive, if_neg (Ne.symm hl.1), ih hl.2]
    rfl

theorem splitInclusive_unlines (h : ∀ l ∈ ls, nl ∉ l) :
    splitInclusive nl (unlines nl ls) = ls.map (· ++ [nl]) := by
  induction ls with
  | nil => rfl
  | cons l ls ih =>
    rw [List.forall_mem_cons] at h
    rw [unlines_cons, splitInclusive_append h.1, ih h.2, List.map_cons]

/-- Terminated lines and a rest without a terminator. -/
theorem exists_unlines (nl : α) (l : List α) :
    ∃ ls r, l = unlines nl ls ++ r ∧ (∀ x ∈ ls, nl ∉ x) ∧ nl ∉ r := by
  induction l with
  | nil => exact ⟨[], [], rfl, List.forall_mem_nil _, List.not_mem_nil⟩
  | cons a l ih =>
    obtain ⟨ls, r, rfl, hls, hr⟩ := ih
    by_cases ha : a = nl
    · subst ha
      exact ⟨[] :: ls, r, rfl, List.forall_mem_cons.mpr ⟨List.not_mem_nil, hls⟩, hr⟩
    · cases ls with
      | nil =>
        refine ⟨[], a :: r, rfl, hls, fun h => ?_⟩
        rcases List.mem_cons.mp h with h | h
        · exact ha h.symm
        · exact hr h
      | cons x ls =>
        rw [List.forall_mem_cons] at hls
        refine ⟨(a :: x) :: ls, r, rfl, List.forall_mem_cons.mpr ⟨fun h => ?_, hls.2⟩, hr⟩
        rcases List.mem_cons.mp h with h | h
        · exact ha h.symm
        · exact hls.1 h

theorem splitInclusive_of_notMem {r : List α} (hr : nl ∉ r) :
    splitInclusive nl r = if r = [] then [] else [r] := by
  induction r with
  | nil => rfl
  | cons a r ih =>
    rw [List.mem_cons, not_or] at hr
    rw [splitInclusive, if_neg (Ne.symm hr.1), ih hr.2]
    by_cases h : r = [] <;> simp [h]

theorem splitInclusive_unlines_append (h : ∀ l ∈ ls, nl ∉ l) {r : List α} (hr : nl ∉ r) :
    splitInclusive nl (unlines nl ls ++ r) =
      ls.map (· ++ [nl]) ++ if r = [] then [] else [r] := by
  induction ls with
  | nil => exact splitInclusive_of_notMem hr
  | cons l ls ih =>
    rw [List.forall_mem_cons] at h
    rw [unlines_cons, List.append_assoc, List.cons_append, splitInclusive_append h.1, ih h.2,
      List.map_cons, List.cons_append]

theorem flatten_splitInclusive (nl : α) (l : List α) : (splitInclusive nl l).flatten = l := by
  obtain ⟨ls, r, rfl, hls, hr⟩ := exists_unlines nl l
  rw [splitInclusive_unlines_append hls hr, List.flatten_append, unlines, List.flatMap_def]
  split <;> simp_all

theorem ne_nil_of_mem_splitInclusive {l p : List α} (h : p ∈ splitInclusive nl l) : p ≠ [] := by
  obtain ⟨ls, r, rfl, hls, hr⟩ := exists_unlines nl l
  rw [splitInclusive_unlines_append hls hr, List.mem_append] at h
  rcases h with h | h
  · obtain ⟨x, -, rfl⟩ := List.mem_map.mp h
    exact List.append_ne_nil_of_right_ne_nil _ (List.cons_ne_nil _ _)
  · split at h
    · cases h
    case isFalse hne => rwa [List.mem_singleton.mp h]

/-! ## The ends of lines, from the last -/

/-- The offsets behind the terminators, the last one first. -/
def ends (nl : α) (l : List α) : List Nat :=
  (l.zipIdx.filterMap fun p => if p.1 = nl then some (p.2 + 1) else none).reverse

/-- A fold from the right that looks at terminators only folds their offsets. -/
theorem foldr_zipIdx {σ : Type} (f : σ → Nat → σ) (s : σ) (l : List α) :
    l.zipIdx.foldr (fun p s => if p.1 = nl then f s (p.2 + 1) else s) s = (ends nl l).foldl f s := by
  rw [ends, List.foldl_reverse, List.foldr_filterMap]
  congr 1
  funext p s
  split <;> rfl

theorem ends_concat (l : List α) : ends nl (l ++ [nl]) = (l.length + 1) :: ends nl l := by
  simp [ends, List.zipIdx_append]

theorem ends_append {l m : List α} (h : nl ∉ m) : ends nl (l ++ m) = ends nl l := by
  have hm : (m.zipIdx (0 + l.length)).filterMap
      (fun p => if p.1 = nl then some (p.2 + 1) else none) = [] := by
    rw [List.filterMap_eq_nil_iff]
    intro p hp
    refine if_neg fun hnl => h ?_
    rw [← hnl]
    exact List.fst_mem_of_mem_zipIdx hp
  rw [ends, List.zipIdx_append, List.filterMap_append, hm, List.append_nil, ends]

theorem ends_unlines_concat {l : List α} (hl : nl ∉ l) :
    ends nl (unlines nl (ls ++ [l])) =
      (unlines nl (ls ++ [l])).length :: ends nl (unlines nl ls) := by
  have h : unlines nl (ls ++ [l]) = unlines nl ls ++ l ++ [nl] := by simp
  have hlen : (unlines nl ls ++ l ++ [nl]).length = (unlines nl ls ++ l).length + 1 :=
    List.length_append ..
  rw [h, ends_concat, ends_append hl, hlen]

/-- The end number `k` from the last is that of the first lines but `k`. -/
theorem getElem?_ends_unlines (h : ∀ l ∈ ls, nl ∉ l) {k : Nat} (hk : k < ls.length) :
    (ends nl (unlines nl ls))[k]? = some (unlines nl (ls.take (ls.length - k))).length := by
  induction ls using List.reverseRecOn generalizing k with
  | nil => cases hk
  | append_singleton ls l ih =>
    rw [List.forall_mem_append, List.forall_mem_singleton] at h
    rw [ends_unlines_concat h.2]
    cases k with
    | zero => rw [List.getElem?_cons_zero, Nat.sub_zero, List.take_length]
    | succ k =>
      rw [List.length_append, List.length_singleton] at hk ⊢
      have hle : ls.length + 1 - (k + 1) ≤ ls.length := by omega
      rw [List.getElem?_cons_succ, ih h.1 (by omega), List.take_append_of_le_length hle,
        Nat.add_sub_add_right]

theorem length_ends_unlines (h : ∀ l ∈ ls, nl ∉ l) :
    (ends nl (unlines nl ls)).length = ls.length := by
  induction ls using List.reverseRecOn with
  | nil => rfl
  | append_singleton ls l ih =>
    rw [List.forall_mem_append, List.forall_mem_singleton] at h
    rw [ends_unlines_concat h.2, List.length_cons, ih h.1, List.length_append,
      List.length_singleton]

end XavierDB.Lines
