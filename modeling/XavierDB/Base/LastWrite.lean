import Mathlib.Data.List.Basic

/-!
# The last write

A step of a program writes a register or leaves it alone. After a list of steps
the register holds what the last of the writing steps wrote, and without one
what it held before.
-/

namespace XavierDB.LastWrite

variable {σ α β ε : Type} {w : α → Option β} {l : List α}

/-- What the last of the steps that write the register writes. -/
def lastWrite (w : α → Option β) (l : List α) : Option β := l.reverse.findSome? w

theorem lastWrite_cons (w : α → Option β) (a : α) (l : List α) :
    lastWrite w (a :: l) = (lastWrite w l).or (w a) := by
  rw [lastWrite, List.reverse_cons, List.findSome?_append, List.findSome?_singleton]
  rfl

theorem lastWrite_map {γ : Type} (w : β → Option γ) (f : α → β) (l : List α) :
    lastWrite w (l.map f) = lastWrite (fun a => w (f a)) l := by
  rw [lastWrite, ← List.map_reverse, List.findSome?_map]
  rfl

theorem lastWrite_eq_none (h : ∀ a ∈ l, w a = none) : lastWrite w l = none :=
  List.findSome?_eq_none_iff.mpr fun a ha => h a (List.mem_reverse.mp ha)

theorem lastWrite_of_last {l₁ l₂ : List α} {a : α} {b : β} (ha : w a = some b)
    (hlater : ∀ c ∈ l₂, w c = none) : lastWrite w (l₁ ++ a :: l₂) = some b := by
  refine List.findSome?_eq_some_iff.mpr ⟨l₂.reverse, a, l₁.reverse, ?_, ha, fun c hc => ?_⟩
  · rw [List.reverse_append, List.reverse_cons, List.append_assoc, List.singleton_append]
  · exact hlater c (List.mem_reverse.mp hc)

/-- The register after a run of steps. -/
theorem reg_foldl {step : σ → α → σ} (reg : σ → β)
    (h : ∀ s a, reg (step s a) = (w a).getD (reg s)) (s : σ) (l : List α) :
    reg (l.foldl step s) = (lastWrite w l).getD (reg s) := by
  induction l generalizing s with
  | nil => rfl
  | cons a l ih => rw [List.foldl_cons, ih, h, lastWrite_cons, Option.getD_or]

/-- The register after a run of steps that may fail and did not. -/
theorem reg_foldlM {step : σ → α → Except ε σ} (reg : σ → β)
    (h : ∀ s a s', step s a = .ok s' → reg s' = (w a).getD (reg s)) {s s' : σ}
    (hrun : l.foldlM step s = .ok s') : reg s' = (lastWrite w l).getD (reg s) := by
  induction l generalizing s with
  | nil => cases hrun; rfl
  | cons a l ih =>
    rw [List.foldlM_cons] at hrun
    cases ht : step s a with
    | error e =>
      rw [ht] at hrun
      cases hrun
    | ok t =>
      rw [ht] at hrun
      rw [ih hrun, h s a t ht, lastWrite_cons, Option.getD_or]

end XavierDB.LastWrite
