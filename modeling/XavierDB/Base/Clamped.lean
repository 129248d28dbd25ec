import Mathlib.Data.List.Induction
import Mathlib.Order.MinMax

/-!
# Clamped runs

A value is moved by one monotone map after the other and clamped to the same
bounds after each move. However many moves there are, the run is one clamp of
the free run, between the runs from the two bounds; where these meet, it has
forgotten where it came from.
-/

namespace XavierDB.Clamped

variable {α : Type} [LinearOrder α]

def clamp (lo hi x : α) : α := max lo (min hi x)

/-- A clamp after each move. -/
def run (lo hi x : α) (moves : List (α → α)) : α := moves.foldl (fun x g => clamp lo hi (g x)) x

/-- The moves alone. -/
def free (x : α) (moves : List (α → α)) : α := moves.foldl (fun x g => g x) x

variable {lo hi x y : α} {moves : List (α → α)}

/-! ## Clamps -/

theorem clamp_of_mem (hlo : lo ≤ x) (hhi : x ≤ hi) : clamp lo hi x = x := by
  rw [clamp, min_eq_right hhi, max_eq_right hlo]

theorem le_clamp : lo ≤ clamp lo hi x := le_max_left _ _

theorem clamp_le (h : lo ≤ hi) : clamp lo hi x ≤ hi := max_le h (min_le_left _ _)

theorem clamp_mono (h : x ≤ y) : clamp lo hi x ≤ clamp lo hi y :=
  max_le_max le_rfl (min_le_min le_rfl h)

theorem map_clamp {g : α → α} (hg : Monotone g) :
    g (clamp lo hi x) = clamp (g lo) (g hi) (g x) := by
  rw [clamp, hg.map_max, hg.map_min, clamp]

/-- Two clamps are one, at the inner bounds clamped. -/
theorem clamp_clamp {a b : α} (h : lo ≤ hi) (hab : a ≤ b) :
    clamp lo hi (clamp a b x) = clamp (clamp lo hi a) (clamp lo hi b) x := by
  unfold clamp
  grind

/-! ## Runs -/

@[simp] theorem run_concat (g : α → α) :
    run lo hi x (moves ++ [g]) = clamp lo hi (g (run lo hi x moves)) := by
  simp [run]

theorem run_append (moves' : List (α → α)) :
    run lo hi x (moves ++ moves') = run lo hi (run lo hi x moves) moves' :=
  List.foldl_append ..

omit [LinearOrder α] in
@[simp] theorem free_concat (g : α → α) : free x (moves ++ [g]) = g (free x moves) := by
  simp [free]

theorem run_mem (h : lo ≤ hi) (hlo : lo ≤ x) (hhi : x ≤ hi) :
    lo ≤ run lo hi x moves ∧ run lo hi x moves ≤ hi := by
  cases moves using List.reverseRecOn with
  | nil => exact ⟨hlo, hhi⟩
  | append_singleton moves g => simp [le_clamp, clamp_le h]

theorem run_mono (hmoves : ∀ g ∈ moves, Monotone g) (h : x ≤ y) :
    run lo hi x moves ≤ run lo hi y moves := by
  induction moves using List.reverseRecOn with
  | nil => exact h
  | append_singleton moves g ih =>
    rw [run_concat, run_concat]
    exact clamp_mono (hmoves g (by simp) (ih fun g hg => hmoves g (by simp [hg])))

/-- A clamped run is the free run, clamped once between the runs from the bounds. -/
theorem run_eq (h : lo ≤ hi) (hmoves : ∀ g ∈ moves, Monotone g) (hlo : lo ≤ x) (hhi : x ≤ hi) :
    run lo hi x moves = clamp (run lo hi lo moves) (run lo hi hi moves) (free x moves) := by
  induction moves using List.reverseRecOn with
  | nil => exact (clamp_of_mem hlo hhi).symm
  | append_singleton moves g ih =>
    have hmoves' : ∀ g ∈ moves, Monotone g := fun g hg => hmoves g (by simp [hg])
    have hg : Monotone g := hmoves g (by simp)
    calc run lo hi x (moves ++ [g])
        = clamp lo hi (g (clamp (run lo hi lo moves) (run lo hi hi moves) (free x moves))) := by
          rw [run_concat, ih hmoves']
      _ = clamp lo hi (clamp (g (run lo hi lo moves)) (g (run lo hi hi moves))
            (g (free x moves))) := by rw [map_clamp hg]
      _ = _ := by rw [clamp_clamp h (hg (run_mono hmoves' h)), run_concat, run_concat, free_concat]

/-- Moves that go up are stopped by the upper bound only. -/
theorem run_eq_min (hmoves : ∀ g ∈ moves, Monotone g) (hup : ∀ g ∈ moves, ∀ y, lo ≤ y → y ≤ g y)
    (hlo : lo ≤ x) (hhi : x ≤ hi) :
    run lo hi x moves = min hi (free x moves) ∧ x ≤ free x moves := by
  induction moves using List.reverseRecOn with
  | nil => exact ⟨(min_eq_right hhi).symm, le_rfl⟩
  | append_singleton moves g ih =>
    obtain ⟨hrun, hfree⟩ := ih (fun g hg => hmoves g (by simp [hg]))
      fun g hg => hup g (by simp [hg])
    have hg : Monotone g := hmoves g (by simp)
    have hstep : free x moves ≤ g (free x moves) := hup g (by simp) _ (hlo.trans hfree)
    have hhi' : hi ≤ g hi := hup g (by simp) _ (hlo.trans hhi)
    have hx : x ≤ g (free x moves) := hfree.trans hstep
    refine ⟨?_, by rwa [free_concat]⟩
    rw [run_concat, free_concat, hrun, hg.map_min, clamp, ← min_assoc, min_eq_left hhi']
    exact max_eq_right (le_min (hlo.trans hhi) (hlo.trans hx))

/-- Moves that go down are stopped by the lower bound only. -/
theorem run_eq_max (hmoves : ∀ g ∈ moves, Monotone g) (hdown : ∀ g ∈ moves, ∀ y, lo ≤ y → g y ≤ y)
    (hlo : lo ≤ x) (hhi : x ≤ hi) :
    run lo hi x moves = max lo (free x moves) ∧ free x moves ≤ hi := by
  induction moves using List.reverseRecOn with
  | nil => exact ⟨(max_eq_right hlo).symm, hhi⟩
  | append_singleton moves g ih =>
    obtain ⟨hrun, hfree⟩ := ih (fun g hg => hmoves g (by simp [hg]))
      fun g hg => hdown g (by simp [hg])
    have hg : Monotone g := hmoves g (by simp)
    have hlo' : g lo ≤ lo := hdown g (by simp) _ le_rfl
    have hhi' : g hi ≤ hi := hdown g (by simp) _ (hlo.trans hhi)
    have hx : g (free x moves) ≤ hi := (hg hfree).trans hhi'
    refine ⟨?_, by rwa [free_concat]⟩
    rw [run_concat, free_concat, hrun, hg.map_max, clamp,
      min_eq_right (max_le (hlo'.trans (hlo.trans hhi)) hx), ← max_assoc, max_eq_left hlo']

end XavierDB.Clamped
