import Mathlib.Logic.Equiv.Defs
import XavierDB.Base.Paging

/-!
# Walks over a sequence that changes

Each request of a walk sees a sequence of its own, `items r`, in a strict order.
`Follows fetch items lt At V` says that a position marks the item its page ended
on, and that a page is the items past the mark, up to its last. Such a walk
returns in order items that its requests saw, and no item that all of them saw
is missing from it.
-/

namespace XavierDB.Paging

variable {α β ε ι : Type}

/-- A strict order that does not tell apart what is the same. -/
structure Ranks (lt same : α → α → Prop) : Prop where
  irrefl : ∀ a, ¬lt a a
  trans : ∀ {a b c}, lt a b → lt b c → lt a c
  equiv : Equivalence same
  right : ∀ {a b c}, same a b → (lt c a ↔ lt c b)

/-- Past the mark, or anywhere without one. -/
def After (lt : α → α → Prop) : Option α → α → Prop
  | none, _ => True
  | some x, d => lt x d

instance (lt : α → α → Prop) [DecidableRel lt] (o : Option α) : DecidablePred (After lt o) :=
  match o with
  | none => fun _ => inferInstanceAs (Decidable True)
  | some x => fun d => inferInstanceAs (Decidable (lt x d))

/-- A position made at a mark. -/
def Marks (At : α → β → Prop) : Option α → Option β → Prop
  | none, none => True
  | some x, some b => At x b
  | _, _ => False

structure Follows (fetch : ι → Option β → Except ε (List α × Option β)) (items : ι → List α)
    (lt : α → α → Prop) [DecidableRel lt] (At : α → β → Prop) (V : ι → Prop) : Prop where
  sorted : ∀ {r}, V r → (items r).Pairwise lt
  /-- A page is what is past the mark, or ends on an item that the next position marks. -/
  page : ∀ {r o b}, V r → Marks At o b →
    fetch r b = .ok ((items r).filter fun d => After lt o d, none) ∨
      ∃ A x B b', ((items r).filter fun d => After lt o d) = A ++ x :: B ∧
        fetch r b = .ok (A ++ [x], some b') ∧ At x b'

/-- Of the lists that the first `n` requests saw, `out` holds in order some items past
the mark, and each that stayed throughout. -/
structure Complete (lt same : α → α → Prop) (n : ℕ) (lists : ℕ → List α) (o : Option α)
    (out : List α) : Prop where
  ordered : out.Pairwise lt
  after : ∀ x ∈ out, After lt o x
  seen : ∀ x ∈ out, ∃ i, i < n ∧ x ∈ lists i
  stayed : ∀ d : ℕ → α, (∀ i, i < n → d i ∈ lists i ∧ same (d 0) (d i)) → After lt o (d 0) →
    ∃ i, i < n ∧ d i ∈ out

variable {fetch : ι → Option β → Except ε (List α × Option β)} {items : ι → List α}
  {lt same : α → α → Prop} [DecidableRel lt] {At : α → β → Prop} {V : ι → Prop}

omit [DecidableRel lt] in
/-- An ordered list holds nothing twice. -/
theorem Ranks.eq_of_same (hlt : Ranks lt same) {l : List α} (h : l.Pairwise lt) {a b : α}
    (ha : a ∈ l) (hb : b ∈ l) (hab : same a b) : a = b := by
  have hnot : ∀ {c d}, same c d → ¬lt c d := fun hcd hlt' =>
    hlt.irrefl _ ((hlt.right hcd).mpr hlt')
  obtain ⟨i, hi, rfl⟩ := List.getElem_of_mem ha
  obtain ⟨j, hj, rfl⟩ := List.getElem_of_mem hb
  rw [List.pairwise_iff_getElem] at h
  rcases Nat.lt_trichotomy i j with hij | rfl | hij
  · exact absurd (h i j hi hj hij) (hnot hab)
  · rfl
  · exact absurd (h j i hj hi hij) (hnot (hlt.equiv.symm hab))

theorem mem_filter_after {l : List α} {o : Option α} {d : α} :
    (d ∈ l.filter fun d => After lt o d) ↔ d ∈ l ∧ After lt o d := by
  rw [List.mem_filter, decide_eq_true_iff]

omit [DecidableRel lt] in
theorem After.trans (hlt : Ranks lt same) {o : Option α} {x d : α} (hx : After lt o x)
    (hd : lt x d) : After lt o d := by
  cases o with
  | none => trivial
  | some y => exact hlt.trans hx hd

/-- No page fails. -/
theorem Follows.walk_ok (h : Follows fetch items lt At V) {n : ℕ} {rs : ℕ → ι} {o : Option α}
    {b : Option β} (hv : ∀ i, i < n → V (rs i)) (hb : Marks At o b) :
    ∃ r, walk fetch n rs b = .ok r := by
  induction n generalizing rs o b with
  | zero => exact ⟨none, rfl⟩
  | succ n ih =>
    rcases h.page (hv 0 (by omega)) hb with hpage | ⟨A, x, B, b', -, hpage, hat⟩
    · exact ⟨some _, by rw [walk, hpage]⟩
    · obtain ⟨r, hr⟩ := ih (o := some x) (b := some b') (fun i hi => hv (i + 1) (by omega)) hat
      exact ⟨r.map ((A ++ [x]) ++ ·), by rw [walk, hpage]; simp only [hr]⟩

/-- The first page before a complete rest. -/
theorem Complete.cons {n : ℕ} {lists : ℕ → List α} {o : Option α} {A B out : List α} {x : α}
    (hlt : Ranks lt same) (hsorted : (lists 0).Pairwise lt)
    (hpage : ((lists 0).filter fun d => After lt o d) = A ++ x :: B)
    (h : Complete lt same (n + 1) (fun i => lists (i + 1)) (some x) out) :
    Complete lt same (n + 1 + 1) lists o ((A ++ [x]) ++ out) := by
  have hmem : ∀ d ∈ A ++ x :: B, d ∈ lists 0 ∧ After lt o d := fun d hd =>
    mem_filter_after.mp (hpage ▸ hd)
  have hlist : (A ++ x :: B).Pairwise lt := hpage ▸ hsorted.filter _
  have hto : ∀ d ∈ A ++ [x], d ∈ A ++ x :: B := fun d hd => by
    rw [List.append_cons]
    exact List.mem_append_left _ hd
  have hx := hmem x (hto x List.mem_concat_self)
  obtain ⟨hA, hB, hcross⟩ := List.pairwise_append.mp hlist
  constructor
  case ordered =>
    refine List.pairwise_append.mpr ⟨?_, h.ordered, fun a ha d hd => ?_⟩
    · rw [List.append_cons] at hlist
      exact (List.pairwise_append.mp hlist).1
    · have hxd : lt x d := h.after d hd
      rcases List.mem_append.mp ha with ha | ha
      · exact hlt.trans (hcross a ha x List.mem_cons_self) hxd
      · rwa [List.mem_singleton.mp ha]
  case after =>
    intro d hd
    rcases List.mem_append.mp hd with hd | hd
    · exact (hmem d (hto d hd)).2
    · exact After.trans hlt hx.2 (h.after d hd)
  case seen =>
    intro d hd
    rcases List.mem_append.mp hd with hd | hd
    · exact ⟨0, by omega, (hmem d (hto d hd)).1⟩
    · obtain ⟨i, hi, hdi⟩ := h.seen d hd
      exact ⟨i + 1, by omega, hdi⟩
  case stayed =>
    intro d hd ho
    have h0 : d 0 ∈ A ++ x :: B := hpage ▸ mem_filter_after.mpr ⟨(hd 0 (by omega)).1, ho⟩
    rw [List.append_cons] at h0
    rcases List.mem_append.mp h0 with h0 | h0
    · exact ⟨0, by omega, List.mem_append_left _ h0⟩
    · -- it is past the end of the page, and so is what stands for it at the next request
      have hx0 : lt x (d 0) := (List.pairwise_cons.mp hB).1 _ h0
      have h1 := (hd 1 (by omega)).2
      obtain ⟨i, hi, hmem⟩ := h.stayed (fun i => d (i + 1))
        (fun i hi => ⟨(hd (i + 1) (by omega)).1,
          hlt.equiv.trans (hlt.equiv.symm h1) (hd (i + 1) (by omega)).2⟩)
        ((hlt.right h1).mp hx0)
      exact ⟨i + 1, by omega, List.mem_append_right _ hmem⟩

/-- A walk that returns is complete. -/
theorem Follows.walk_complete (h : Follows fetch items lt At V) (hlt : Ranks lt same) {n : ℕ}
    {rs : ℕ → ι} {o : Option α} {b : Option β} {out : List α} (hv : ∀ i, i < n → V (rs i))
    (hb : Marks At o b) (hw : walk fetch n rs b = .ok (some out)) :
    Complete lt same n (fun i => items (rs i)) o out := by
  induction n generalizing rs o b out with
  | zero => cases hw
  | succ n ih =>
    rcases h.page (hv 0 (by omega)) hb with hpage | ⟨A, x, B, b', hcut, hpage, hat⟩
    · rcases Paging.walk_ok hw with hend | ⟨page, b'', rest, hmid, -, -⟩
      · rw [hpage] at hend
        obtain ⟨rfl, -⟩ := Prod.mk.inj (Except.ok.inj hend)
        constructor
        case ordered => exact (h.sorted (hv 0 (by omega))).filter _
        case after => exact fun d hd => (mem_filter_after.mp hd).2
        case seen => exact fun d hd => ⟨0, by omega, (mem_filter_after.mp hd).1⟩
        case stayed =>
          exact fun d hd ho =>
            ⟨0, by omega, mem_filter_after.mpr ⟨(hd 0 (by omega)).1, ho⟩⟩
      · rw [hpage] at hmid
        cases hmid
    · rcases Paging.walk_ok hw with hend | ⟨page, b'', rest, hmid, hrest, rfl⟩
      · rw [hpage] at hend
        cases hend
      · rw [hpage] at hmid
        obtain ⟨rfl, hnext⟩ := Prod.mk.inj (Except.ok.inj hmid)
        obtain rfl := Option.some.inj hnext
        cases n with
        | zero => cases hrest
        | succ n =>
          have hcomplete := ih (o := some x) (b := some b') (fun i hi => hv (i + 1) (by omega)) hat
            hrest
          exact hcomplete.cons hlt (h.sorted (hv 0 (by omega))) hcut

/-- Fewer items of `all` are past a later mark. -/
theorem length_filter_after_lt (hlt : Ranks lt same) {all : List α} {o : Option α} {x : α}
    (hx : x ∈ all) (ho : After lt o x) :
    (all.filter fun d => After lt (some x) d).length <
      (all.filter fun d => After lt o d).length := by
  have hsplit : (all.filter fun d => After lt (some x) d) =
      (all.filter fun d => After lt o d).filter fun d => After lt (some x) d := by
    rw [List.filter_filter]
    refine List.filter_congr fun d _ => ?_
    by_cases hd : After lt (some x) d
    · have ho' : After lt o d := After.trans hlt ho hd
      simp only [hd, ho', decide_true, Bool.and_self]
    · simp only [hd, decide_false, Bool.false_and]
  rw [hsplit]
  refine List.length_filter_lt_length_iff_exists.mpr ⟨x, mem_filter_after.mpr ⟨hx, ho⟩, ?_⟩
  exact fun h => hlt.irrefl x (of_decide_eq_true h)

/-- A walk over items of a list returns. -/
theorem Follows.walk_ends (h : Follows fetch items lt At V) (hlt : Ranks lt same)
    {all : List α} {n : ℕ} {rs : ℕ → ι} {o : Option α} {b : Option β} (hv : ∀ i, i < n → V (rs i))
    (hall : ∀ i, i < n → items (rs i) ⊆ all) (hb : Marks At o b)
    (hn : (all.filter fun d => After lt o d).length < n) :
    ∃ out, walk fetch n rs b = .ok (some out) := by
  induction n generalizing rs o b with
  | zero => omega
  | succ n ih =>
    rcases h.page (hv 0 (by omega)) hb with hpage | ⟨A, x, B, b', hcut, hpage, hat⟩
    · exact ⟨_, by rw [walk, hpage]⟩
    · have hx : x ∈ items (rs 0) ∧ After lt o x :=
        mem_filter_after.mp (hcut ▸ List.mem_append_right _ List.mem_cons_self)
      have hless := length_filter_after_lt hlt (hall 0 (by omega) hx.1) hx.2
      obtain ⟨rest, hrest⟩ := ih (o := some x) (b := some b') (fun i hi => hv (i + 1) (by omega))
        (fun i hi => hall (i + 1) (by omega)) hat (by omega)
      refine ⟨(A ++ [x]) ++ rest, ?_⟩
      rw [walk, hpage]
      simp only [hrest, Option.map_some]

end XavierDB.Paging
