import Mathlib.Data.List.Induction
import Mathlib.Data.List.Nodup

/-!
# Maps in the order of insertion

A map as its entries in the order in which their keys came (JavaScript's `Map`),
built by changes to single entries. A run of changes leaves the keys as they
first came, each with its own changes applied in order.
-/

namespace XavierDB.Ordered

variable {κ ν α β : Type} [DecidableEq κ] [DecidableEq α]

/-- Change the entry of the key, made from its default if there is none. -/
def upsert (dflt : κ → ν) (k : κ) (f : ν → ν) : List (κ × ν) → List (κ × ν)
  | [] => [(k, f (dflt k))]
  | (k', v) :: rest => if k' = k then (k', f v) :: rest else (k', v) :: upsert dflt k f rest

def upserts (dflt : κ → ν) (ops : List (κ × (ν → ν))) (m : List (κ × ν)) : List (κ × ν) :=
  ops.foldl (fun m op => upsert dflt op.1 op.2 m) m

/-- What the changes make of the key's value. -/
def changed (ops : List (κ × (ν → ν))) (k : κ) (v : ν) : ν :=
  (ops.filter fun op => op.1 == k).foldl (fun v op => op.2 v) v

/-! ## First occurrences -/

theorem nodup_eraseDups (l : List α) : l.eraseDups.Nodup := by
  induction hn : l.length using Nat.strongRecOn generalizing l with
  | ind n ih =>
    cases l with
    | nil => exact List.nodup_nil
    | cons a l =>
      rw [List.eraseDups_cons, List.nodup_cons]
      have hlen := List.length_filter_le (fun b => !b == a) l
      rw [List.length_cons] at hn
      refine ⟨fun ha => ?_, ih _ (by omega) _ rfl⟩
      have := List.mem_filter.mp (List.mem_eraseDups.mp ha)
      simp at this

theorem eraseDups_of_nodup {l : List α} (h : l.Nodup) : l.eraseDups = l := by
  induction l with
  | nil => rfl
  | cons a l ih =>
    rw [List.nodup_cons] at h
    have hself : (l.filter fun b => !b == a) = l := List.filter_eq_self.mpr fun b hb => by
      simp only [Bool.not_eq_true', beq_eq_false_iff_ne]
      exact fun hba => h.1 (hba ▸ hb)
    rw [List.eraseDups_cons, hself, ih h.2]

/-- Copies of distinct elements: those that have any. -/
theorem eraseDups_flatMap {l : List α} (hl : l.Nodup) {f : α → List α}
    (hf : ∀ x ∈ l, ∀ y ∈ f x, y = x) :
    (l.flatMap f).eraseDups = l.filter fun x => !(f x).isEmpty := by
  induction l with
  | nil => rfl
  | cons a l ih =>
    rw [List.nodup_cons] at hl
    rw [List.forall_mem_cons] at hf
    rw [List.flatMap_cons, List.eraseDups_append, List.filter_cons]
    cases hfa : f a with
    | nil => rw [List.removeAll_nil, ih hl.2 hf.2]; rfl
    | cons b bs =>
      have hcopies : ∀ y ∈ bs, y = a := fun y hy => hf.1 y (hfa ▸ List.mem_cons_of_mem _ hy)
      obtain rfl : b = a := hf.1 b (hfa ▸ List.mem_cons_self)
      have hone : (b :: bs).eraseDups = [b] := by
        have hnil : (bs.filter fun y => !y == b) = [] :=
          List.filter_eq_nil_iff.mpr fun y hy => by simp [hcopies y hy]
        rw [List.eraseDups_cons, hnil, List.eraseDups_nil]
      have hrest : (l.flatMap f).removeAll (b :: bs) = l.flatMap f := by
        refine List.filter_eq_self.mpr fun y hy => ?_
        obtain ⟨x, hx, hyx⟩ := List.mem_flatMap.mp hy
        have hne : y ≠ b := by
          rintro rfl
          rw [hf.2 x hx y hyx] at hl
          exact hl.1 hx
        simp only [List.elem_eq_mem, Bool.not_eq_true', decide_eq_false_iff_not, List.mem_cons,
          not_or]
        exact ⟨hne, fun hyb => hne (hcopies y hyb)⟩
      rw [hone, hrest, ih hl.2 hf.2]
      rfl

/-! ## Two rounds of copies

The elements of `l` that have copies in a first round, then those that have some
in a second round only. -/

section Rounds

variable {l : List α} {f g : α → List α} {h : α → List β}

omit [DecidableEq α] in
theorem mem_flatMap_copies (hf : ∀ x ∈ l, ∀ y ∈ f x, y = x) {x : α} :
    x ∈ l.flatMap f ↔ x ∈ l ∧ f x ≠ [] := by
  rw [List.mem_flatMap]
  constructor
  · rintro ⟨y, hy, hx⟩
    obtain rfl := hf y hy x hx
    exact ⟨hy, List.ne_nil_of_mem hx⟩
  · rintro ⟨hx, hne⟩
    obtain ⟨y, hy⟩ := List.exists_mem_of_ne_nil _ hne
    exact ⟨x, hx, hf x hx y hy ▸ hy⟩

omit [DecidableEq α] in
theorem flatMap_filter_of_nil {q : α → Bool} (hq : ∀ x ∈ l, q x = false → h x = []) :
    (l.filter q).flatMap h = l.flatMap h := by
  induction l with
  | nil => rfl
  | cons x l ih =>
    rw [List.forall_mem_cons] at hq
    rw [List.filter_cons, List.flatMap_cons, ← ih hq.2]
    split
    case isTrue => rw [List.flatMap_cons]
    case isFalse hx => rw [hq.1 (eq_false_of_ne_true hx), List.nil_append]

/-- What comes of the first round comes in the old order. -/
theorem flatMap_rounds (hl : l.Nodup) (hf : ∀ x ∈ l, ∀ y ∈ f x, y = x)
    (hg : ∀ x ∈ l, ∀ y ∈ g x, y = x) (hh : ∀ x ∈ l, f x = [] → h x = []) :
    (l.flatMap f ++ l.flatMap g).eraseDups.flatMap h = l.flatMap h := by
  have hsecond : (((l.flatMap g).removeAll (l.flatMap f)).eraseDups).flatMap h = [] := by
    refine List.flatMap_eq_nil_iff.mpr fun x hx => ?_
    obtain ⟨hxg, hxf⟩ := List.mem_filter.mp (List.mem_eraseDups.mp hx)
    have hxl := ((mem_flatMap_copies hg).mp hxg).1
    refine hh x hxl (by_contra fun hne => ?_)
    have hmem := (mem_flatMap_copies hf).mpr ⟨hxl, hne⟩
    simp [hmem] at hxf
  rw [List.eraseDups_append, List.flatMap_append, hsecond, List.append_nil, eraseDups_flatMap hl hf]
  exact flatMap_filter_of_nil fun x hx hempty =>
    hh x hx (List.isEmpty_iff.mp (by simpa using hempty))

theorem perm_flatMap_rounds (hl : l.Nodup) (hf : ∀ x ∈ l, ∀ y ∈ f x, y = x)
    (hg : ∀ x ∈ l, ∀ y ∈ g x, y = x) (hh : ∀ x ∈ l, f x = [] → g x = [] → h x = []) :
    ((l.flatMap f ++ l.flatMap g).eraseDups.flatMap h).Perm (l.flatMap h) := by
  have hkept : (l.flatMap f ++ l.flatMap g).eraseDups.Perm
      (l.filter fun x => !(f x).isEmpty || !(g x).isEmpty) := by
    refine (List.perm_ext_iff_of_nodup (nodup_eraseDups _) (hl.filter _)).mpr fun x => ?_
    rw [List.mem_eraseDups, List.mem_append, mem_flatMap_copies hf, mem_flatMap_copies hg,
      List.mem_filter, ← and_or_left]
    simp
  rw [← flatMap_filter_of_nil (l := l) (h := h) (q := fun x => !(f x).isEmpty || !(g x).isEmpty)]
  · exact hkept.flatMap_right h
  · intro x hx hempty
    simp at hempty
    exact hh x hx hempty.1 hempty.2

/-- One element counts. -/
theorem flatMap_of_forall_ne {x : α} (hl : l.Nodup) (hx : x ∈ l) (hh : ∀ y ∈ l, y ≠ x → h y = []) :
    l.flatMap h = h x := by
  have hone : (l.filter (· == x)) = [x] := by
    rw [List.filter_beq, List.count_eq_one_of_mem hl hx]
    rfl
  rw [← flatMap_filter_of_nil (l := l) (h := h) (q := (· == x)), hone, List.flatMap_singleton]
  exact fun y hy hne => hh y hy (beq_eq_false_iff_ne.mp hne)

end Rounds

/-! ## Runs of changes -/

theorem upsert_map (dflt : κ → ν) (k : κ) (f : ν → ν) (g : κ → ν) (ks : List κ) (hks : ks.Nodup) :
    upsert dflt k f (ks.map fun j => (j, g j)) =
      if k ∈ ks then ks.map fun j => (j, if j = k then f (g j) else g j)
      else ks.map (fun j => (j, g j)) ++ [(k, f (dflt k))] := by
  induction ks with
  | nil => rfl
  | cons j ks ih =>
    rw [List.nodup_cons] at hks
    rw [List.map_cons, upsert, ih hks.2]
    by_cases hj : j = k
    · subst hj
      rw [if_pos rfl, if_pos List.mem_cons_self, List.map_cons, if_pos rfl]
      refine congrArg _ (List.map_congr_left fun i hi => ?_)
      have hi' : i ≠ j := fun h => hks.1 (h ▸ hi)
      rw [if_neg hi']
    · rw [if_neg hj]
      by_cases hk : k ∈ ks
      · rw [if_pos hk, if_pos (List.mem_cons_of_mem _ hk), List.map_cons, if_neg hj]
      · rw [if_neg hk, if_neg (by simp [Ne.symm hj, hk]), List.cons_append]

/-- **A run from the empty map**: the keys as they first came, with their changes. -/
theorem upserts_nil (dflt : κ → ν) (ops : List (κ × (ν → ν))) :
    upserts dflt ops [] =
      (ops.map Prod.fst).eraseDups.map fun k => (k, changed ops k (dflt k)) := by
  induction ops using List.reverseRecOn with
  | nil => rfl
  | append_singleton ops op ih =>
    obtain ⟨k, f⟩ := op
    have hchanged : ∀ j v, changed (ops ++ [(k, f)]) j v =
        if j = k then f (changed ops j v) else changed ops j v := by
      intro j v
      unfold changed
      rw [List.filter_append, List.foldl_append]
      by_cases hj : j = k
      · rw [if_pos hj, List.filter_cons_of_pos (by simp [hj])]
        rfl
      · rw [if_neg hj, List.filter_cons_of_neg (by simp [Ne.symm hj])]
        rfl
    have hrun : upserts dflt (ops ++ [(k, f)]) [] = upsert dflt k f (upserts dflt ops []) := by
      rw [upserts, List.foldl_append]
      rfl
    rw [hrun, ih, upsert_map _ _ _ _ _ (nodup_eraseDups _), List.map_append, List.eraseDups_append]
    simp only [hchanged, List.mem_eraseDups]
    by_cases hk : k ∈ ops.map Prod.fst
    · have hnone : ([(k, f)].map Prod.fst).removeAll (ops.map Prod.fst) = [] := by
        simp [List.removeAll, List.filter_eq_nil_iff] at hk ⊢
        exact hk
      rw [if_pos hk, hnone, List.eraseDups_nil, List.append_nil]
    · have hone : ([(k, f)].map Prod.fst).removeAll (ops.map Prod.fst) = [k] := by
        simp [List.removeAll, List.filter_eq_self] at hk ⊢
        exact hk
      have hnew : changed ops k (dflt k) = dflt k := by
        have hnil : (ops.filter fun op => op.1 == k) = [] :=
          List.filter_eq_nil_iff.mpr fun op hop => by
            simp only [beq_iff_eq]
            exact fun h => hk (h ▸ List.mem_map_of_mem hop)
        rw [changed, hnil]
        rfl
      rw [if_neg hk, hone, eraseDups_of_nodup (List.nodup_singleton k), List.map_append,
        List.map_singleton, if_pos rfl, hnew]
      refine congrArg (· ++ _) (List.map_congr_left fun j hj => ?_)
      have hjk : j ≠ k := fun h => hk (h ▸ List.mem_eraseDups.mp hj)
      rw [if_neg hjk]

end XavierDB.Ordered
