import Mathlib.Data.List.Basic

/-!
# Walks over pages

A client reads a sequence page by page: `fetch r b` answers the request `r` at
the position `b` (`none` is the start) with a page and the position after it,
or fails. `walk fetch fuel rs b` follows the positions to the end, with one
request per page. `Serves fetch size V E P G` says that positions stand for
remainders: a page is a prefix of what remains, and the next position stands
for the rest, unless the page ends on an item outside `G`; the only failures
are those of `E`. `Serves.walk_or` is the resulting exactness of every walk
whose pages end inside `G`.
-/

namespace XavierDB.Paging

variable {α β ε ι : Type}

/-- The items of a walk, or the error of the page that failed; `none` when the
fuel runs out. -/
def walk (fetch : ι → Option β → Except ε (List α × Option β)) :
    Nat → (Nat → ι) → Option β → Except ε (Option (List α))
  | 0, _, _ => .ok none
  | n + 1, rs, b =>
    match fetch (rs 0) b with
    | .error e => .error e
    | .ok (page, none) => .ok (some page)
    | .ok (page, some b') =>
      match walk fetch n (fun i => rs (i + 1)) (some b') with
      | .error e => .error e
      | .ok rest => .ok (rest.map (page ++ ·))

/-- `b` ends a page that has a successor, when `R` is cut into pages of the
requested sizes. -/
inductive Boundary (size : ι → Nat) : (Nat → ι) → List α → α → Prop where
  | here {rs : Nat → ι} {A B : List α} {b : α} (hs : size (rs 0) = A.length + 1) (hB : B ≠ []) :
      Boundary size rs (A ++ b :: B) b
  | later {rs : Nat → ι} {R : List α} {b : α}
      (h : Boundary size (fun i => rs (i + 1)) (R.drop (size (rs 0))) b) : Boundary size rs R b

theorem Boundary.mem {size : ι → Nat} {rs : Nat → ι} {R : List α} {b : α}
    (h : Boundary size rs R b) : b ∈ R := by
  induction h with
  | here => exact List.mem_append_right _ List.mem_cons_self
  | later _ ih => exact List.mem_of_mem_drop ih

/-- `P b R`: the position `b` stands for the remainder `R`. -/
structure Serves (fetch : ι → Option β → Except ε (List α × Option β)) (size : ι → Nat)
    (V : ι → Prop) (E : ε → Prop) (P : Option β → List α → Prop) (G : α → Prop) : Prop where
  /-- A valid request asks for something. -/
  pos : ∀ {r}, V r → 1 ≤ size r
  /-- A page that reaches the end is the whole remainder. -/
  last : ∀ {b R r}, V r → P b R → R.length ≤ size r → fetch r b = .ok (R, none)
  /-- A page with a successor is a prefix of the remainder, or the request is refused. -/
  more : ∀ {b r A x B}, V r → P b (A ++ x :: B) → size r = A.length + 1 → B ≠ [] → G x →
    (∃ b', fetch r b = .ok (A ++ [x], some b') ∧ P (some b') B) ∨
      ∃ e, fetch r b = .error e ∧ E e

variable {fetch : ι → Option β → Except ε (List α × Option β)} {size : ι → Nat} {V : ι → Prop}
  {E : ε → Prop} {P : Option β → List α → Prop} {G : α → Prop}

/-- A list longer than a page, cut at the page's last item. -/
theorem exists_cut {R : List α} {n : Nat} (hn : 1 ≤ n) (h : n < R.length) :
    ∃ A x B, R = A ++ x :: B ∧ n = A.length + 1 ∧ B ≠ [] := by
  have hlt : n - 1 < R.length := by omega
  refine ⟨R.take (n - 1), R[n - 1], R.drop n, ?_, ?_, ?_⟩
  · have hd : R.drop (n - 1) = R[n - 1] :: R.drop n := by
      rw [List.drop_eq_getElem_cons hlt, Nat.sub_add_cancel hn]
    rw [← hd, List.take_append_drop]
  · rw [List.length_take]; omega
  · exact List.ne_nil_of_length_pos (by rw [List.length_drop]; omega)

/-- A walk from a position that stands for `R` returns `R`, or is refused. -/
theorem Serves.walk_or (h : Serves fetch size V E P G) :
    ∀ {fuel : Nat} {rs : Nat → ι} {b : Option β} {R : List α}, P b R → (∀ i, V (rs i)) →
      (∀ x, Boundary size rs R x → G x) → R.length < fuel →
      walk fetch fuel rs b = .ok (some R) ∨ ∃ e, walk fetch fuel rs b = .error e ∧ E e := by
  intro fuel
  induction fuel with
  | zero => intro _ _ _ _ _ _ hf; omega
  | succ n ih =>
    intro rs b R hP hv hG hf
    rcases Nat.lt_or_ge (size (rs 0)) R.length with hlt | hge
    · obtain ⟨A, x, B, rfl, hs, hB⟩ := exists_cut (h.pos (hv 0)) hlt
      rcases h.more (hv 0) hP hs hB (hG x (.here hs hB)) with ⟨b', hb', hP'⟩ | ⟨e, he, hE⟩
      · have hdrop : (A ++ x :: B).drop (size (rs 0)) = B := by
          rw [hs, List.append_cons, List.drop_left' (by simp)]
        have hlen : B.length < n := by
          rw [List.length_append, List.length_cons] at hf; omega
        rcases ih hP' (fun i => hv (i + 1))
          (fun y hy => hG y (.later (hdrop.symm ▸ hy))) hlen with hw | ⟨e, he, hE⟩
        · left
          simp only [walk, hb', hw, Option.map_some, List.append_assoc, List.singleton_append]
        · right
          exact ⟨e, by simp only [walk, hb', he], hE⟩
      · right
        exact ⟨e, by simp only [walk, he], hE⟩
    · left
      simp only [walk, h.last (hv 0) hP hge]

/-- With no refusals every walk returns the remainder of its position. -/
theorem Serves.walk_eq (h : Serves fetch size V (fun _ => False) P G) {fuel : Nat} {rs : Nat → ι}
    {b : Option β} {R : List α} (hP : P b R) (hv : ∀ i, V (rs i))
    (hG : ∀ x, Boundary size rs R x → G x) (hf : R.length < fuel) :
    walk fetch fuel rs b = .ok (some R) := by
  rcases h.walk_or hP hv hG hf with hw | ⟨_, _, hE⟩
  · exact hw
  · exact hE.elim

/-- A walk that returns is its first page, or its first page and a walk from the
position after it. -/
theorem walk_ok {n : Nat} {rs : Nat → ι} {b : Option β} {R : List α}
    (h : walk fetch (n + 1) rs b = .ok (some R)) :
    fetch (rs 0) b = .ok (R, none) ∨
      ∃ page b' rest, fetch (rs 0) b = .ok (page, some b') ∧
        walk fetch n (fun i => rs (i + 1)) (some b') = .ok (some rest) ∧ R = page ++ rest := by
  rw [walk] at h
  split at h
  case h_1 => cases h
  case h_2 page hp =>
    cases h
    exact .inl hp
  case h_3 page b' hp =>
    split at h
    case h_1 => cases h
    case h_2 rest hw =>
      cases rest with
      | none => cases h
      | some rest =>
        cases h
        exact .inr ⟨page, b', rest, hp, hw, rfl⟩

/-- The first item that a walk returns is on its first page, if pages with a
successor hold something. -/
theorem exists_head_page {n : Nat} {rs : Nat → ι} {b : Option β} {x : α} {R : List α}
    (hmore : ∀ {page b'}, fetch (rs 0) b = .ok (page, some b') → page ≠ [])
    (h : walk fetch n rs b = .ok (some (x :: R))) :
    ∃ page next, fetch (rs 0) b = .ok (page, next) ∧ x ∈ page := by
  cases n with
  | zero => cases h
  | succ n =>
    rcases walk_ok h with hp | ⟨page, b', rest, hp, -, heq⟩
    · exact ⟨_, _, hp, List.mem_cons_self⟩
    · cases page with
      | nil => exact absurd rfl (hmore hp)
      | cons y page =>
        obtain ⟨rfl, -⟩ := List.cons.inj heq
        exact ⟨_, _, hp, List.mem_cons_self⟩

/-- In a walk by pages of one item that returned `A ++ x :: B`, the position
after `x` returned `B`. -/
theorem walk_reach {At : α → β → Prop} {r : ι}
    (hend : ∀ {b page}, fetch r b = .ok (page, none) → page.length ≤ 1)
    (hmore : ∀ {b page b'}, fetch r b = .ok (page, some b') → ∃ y, page = [y] ∧ At y b')
    {x : α} {B : List α} (hB : B ≠ []) :
    ∀ {fuel : Nat} {b : Option β} {A : List α},
      walk fetch fuel (fun _ => r) b = .ok (some (A ++ x :: B)) →
      ∃ b' n, At x b' ∧ walk fetch n (fun _ => r) (some b') = .ok (some B) := by
  intro fuel
  induction fuel with
  | zero => intro b A h; cases h
  | succ n ih =>
    intro b A h
    rcases walk_ok h with hp | ⟨page, b', rest, hp, hw, heq⟩
    · have hlen := hend hp
      have hpos := List.length_pos_of_ne_nil hB
      rw [List.length_append, List.length_cons] at hlen
      omega
    · obtain ⟨y, rfl, hy⟩ := hmore hp
      cases A with
      | nil =>
        obtain ⟨rfl, rfl⟩ := List.cons.inj heq
        exact ⟨b', n, hy, hw⟩
      | cons a A =>
        obtain ⟨-, rfl⟩ := List.cons.inj heq
        exact ih hw

end XavierDB.Paging
