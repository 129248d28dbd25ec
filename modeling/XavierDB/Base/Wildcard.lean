import Mathlib.Data.List.Basic

/-!
# Wildcard patterns

A pattern is a list of tokens: one element, a possibly empty sequence of
elements, or an element that stands for itself. A sequence matches when it can
be split to match the tokens one by one; the predicate `ok` says which elements
the wildcards stand for.
-/

namespace XavierDB.Wildcard

variable {α β : Type}

inductive Token (α : Type) where
  | one
  | many
  | lit (a : α)
  deriving DecidableEq, Repr

/-- The same token over another alphabet. -/
def Token.map (f : α → β) : Token α → Token β
  | .one => .one
  | .many => .many
  | .lit a => .lit (f a)

inductive Matches (ok : α → Prop) : List (Token α) → List α → Prop where
  | nil : Matches ok [] []
  | one {c : α} {ts : List (Token α)} {v : List α} :
    ok c → Matches ok ts v → Matches ok (.one :: ts) (c :: v)
  | many {w : List α} {ts : List (Token α)} {v : List α} :
    (∀ c ∈ w, ok c) → Matches ok ts v → Matches ok (.many :: ts) (w ++ v)
  | lit {a : α} {ts : List (Token α)} {v : List α} :
    Matches ok ts v → Matches ok (.lit a :: ts) (a :: v)

variable {ok : α → Prop} {ts us : List (Token α)} {v w : List α} {a c : α}

/-! ## One token -/

@[simp] theorem matches_nil : Matches ok [] v ↔ v = [] := by
  constructor
  · intro h
    cases h
    rfl
  · rintro rfl
    exact .nil

@[simp] theorem not_matches_one_nil : ¬ Matches ok (.one :: ts) [] := by
  intro h
  cases h

@[simp] theorem matches_one_cons :
    Matches ok (.one :: ts) (c :: v) ↔ ok c ∧ Matches ok ts v := by
  constructor
  · intro h
    cases h with
    | one hc h => exact ⟨hc, h⟩
  · exact fun h => .one h.1 h.2

@[simp] theorem not_matches_lit_nil : ¬ Matches ok (.lit a :: ts) [] := by
  intro h
  cases h

@[simp] theorem matches_lit_cons :
    Matches ok (.lit a :: ts) (c :: v) ↔ c = a ∧ Matches ok ts v := by
  constructor
  · intro h
    cases h with
    | lit h => exact ⟨rfl, h⟩
  · rintro ⟨rfl, h⟩
    exact .lit h

theorem matches_many :
    Matches ok (.many :: ts) v ↔ ∃ w x, v = w ++ x ∧ (∀ c ∈ w, ok c) ∧ Matches ok ts x := by
  constructor
  · intro h
    cases h with
    | @many w _ x hw h => exact ⟨w, x, rfl, hw, h⟩
  · rintro ⟨w, x, rfl, hw, h⟩
    exact .many hw h

@[simp] theorem matches_many_nil : Matches ok (.many :: ts) [] ↔ Matches ok ts [] := by
  rw [matches_many]
  constructor
  · rintro ⟨w, x, h, -, hx⟩
    obtain ⟨rfl, rfl⟩ := List.append_eq_nil_iff.mp h.symm
    exact hx
  · exact fun h => ⟨[], [], rfl, by simp, h⟩

/-- A sequence token stops here, or takes one more element. -/
@[simp] theorem matches_many_cons : Matches ok (.many :: ts) (c :: v) ↔
    Matches ok ts (c :: v) ∨ (ok c ∧ Matches ok (.many :: ts) v) := by
  constructor
  · intro h
    obtain ⟨w, x, hv, hw, hx⟩ := matches_many.mp h
    cases w with
    | nil => exact .inl (hv ▸ hx)
    | cons d w =>
      obtain ⟨rfl, rfl⟩ := List.cons.inj hv
      rw [List.forall_mem_cons] at hw
      exact .inr ⟨hw.1, .many hw.2 hx⟩
  · rintro (h | ⟨hc, h⟩)
    · exact .many (w := []) (by simp) h
    · obtain ⟨w, x, rfl, hw, hx⟩ := matches_many.mp h
      exact .many (w := c :: w) (List.forall_mem_cons.mpr ⟨hc, hw⟩) hx

/-! ## A matcher -/

/-- Give a sequence token nothing, one element, two, ... -/
def runMany (ok : α → Bool) (rest : List α → Bool) : List α → Bool
  | [] => rest []
  | c :: v => rest (c :: v) || (ok c && runMany ok rest v)

/-- The matcher that tries every split. -/
def run [DecidableEq α] (ok : α → Bool) : List (Token α) → List α → Bool
  | [], v => v.isEmpty
  | .one :: ts, v => match v with
    | [] => false
    | c :: v => ok c && run ok ts v
  | .lit a :: ts, v => match v with
    | [] => false
    | c :: v => c == a && run ok ts v
  | .many :: ts, v => runMany ok (run ok ts) v

theorem run_iff [DecidableEq α] {ok : α → Bool} {ts : List (Token α)} {v : List α} :
    run ok ts v = true ↔ Matches (fun c => ok c = true) ts v := by
  induction ts generalizing v with
  | nil => rw [run, List.isEmpty_iff, matches_nil]
  | cons t ts ih =>
    cases t with
    | one => cases v <;> simp [run, ih]
    | lit a => cases v <;> simp [run, ih]
    | many =>
      rw [run]
      induction v with
      | nil => rw [runMany, ih, matches_many_nil]
      | cons c v ihv => rw [runMany, Bool.or_eq_true, Bool.and_eq_true, ih, ihv, matches_many_cons]

/-! ## Several tokens -/

theorem Matches.append (h : Matches ok ts v) (h' : Matches ok us w) :
    Matches ok (ts ++ us) (v ++ w) := by
  induction h with
  | nil => exact h'
  | one hc _ ih => exact .one hc ih
  | @many x _ _ hx _ ih =>
    rw [List.append_assoc]
    exact .many hx ih
  | lit _ ih => exact .lit ih

theorem matches_replicate_one {n : Nat} :
    Matches ok (List.replicate n .one) v ↔ v.length = n ∧ ∀ c ∈ v, ok c := by
  induction n generalizing v with
  | zero => rw [List.replicate_zero, matches_nil, List.length_eq_zero_iff, and_iff_left_of_imp]; simp +contextual
  | succ n ih =>
    cases v with
    | nil => simp [List.replicate_succ]
    | cons c v =>
      rw [List.replicate_succ, matches_one_cons, ih, List.forall_mem_cons, List.length_cons]
      grind

/-- An element that stands for itself is in what matches. -/
theorem Matches.mem_of_lit_mem (h : Matches ok ts v) (ha : .lit a ∈ ts) : a ∈ v := by
  induction h with
  | nil => cases ha
  | one _ _ ih =>
    rcases List.mem_cons.mp ha with h | h
    · cases h
    · exact List.mem_cons_of_mem _ (ih h)
  | many _ _ ih =>
    rcases List.mem_cons.mp ha with h | h
    · cases h
    · exact List.mem_append_right _ (ih h)
  | lit _ ih =>
    rcases List.mem_cons.mp ha with h | h
    · cases h
      exact List.mem_cons_self
    · exact List.mem_cons_of_mem _ (ih h)

/-- Matching does not depend on how the elements are written. -/
theorem matches_map {ok' : β → Prop} {f : α → β} (hf : Function.Injective f)
    (hok : ∀ c ∈ v, ok' (f c) ↔ ok c) :
    Matches ok' (ts.map (Token.map f)) (v.map f) ↔ Matches ok ts v := by
  induction ts generalizing v with
  | nil => simp
  | cons t ts ih =>
    rw [List.map_cons]
    cases t with
    | one =>
      cases v with
      | nil => simp [Token.map]
      | cons c v =>
        rw [List.forall_mem_cons] at hok
        simp only [Token.map, List.map_cons, matches_one_cons, hok.1, ih hok.2]
    | lit a =>
      cases v with
      | nil => simp [Token.map]
      | cons c v =>
        rw [List.forall_mem_cons] at hok
        simp only [Token.map, List.map_cons, matches_lit_cons, hf.eq_iff, ih hok.2]
    | many =>
      simp only [Token.map]
      induction v with
      | nil =>
        have := ih hok
        simpa using this
      | cons c v ihv =>
        have hcons := ih hok
        rw [List.forall_mem_cons] at hok
        rw [List.map_cons] at hcons ⊢
        rw [matches_many_cons, matches_many_cons, hcons, hok.1, ihv hok.2]

/-! ## Wildcards that stand for anything -/

/-- A sequence token matches what some later part lets the rest match. -/
theorem matches_many_drop (hok : ∀ c, ok c) :
    Matches ok (.many :: ts) v ↔ ∃ k, Matches ok ts (v.drop k) := by
  rw [matches_many]
  constructor
  · rintro ⟨w, x, rfl, -, hx⟩
    exact ⟨w.length, by rwa [List.drop_left]⟩
  · rintro ⟨k, h⟩
    exact ⟨v.take k, v.drop k, (List.take_append_drop k v).symm, fun c _ => hok c, h⟩

end XavierDB.Wildcard
