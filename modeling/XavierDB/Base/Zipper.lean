import Mathlib.Data.List.Basic

/-!
# Zippers

What was in force before (`past`, nearest first), what is in force, and what an
undo took back (`future`, nearest first). A change forgets the future, and the
past keeps its nearest `cap` entries.
-/

namespace XavierDB

structure Zipper (α : Type) where
  past : List α
  present : α
  future : List α

namespace Zipper

variable {α : Type} {z z' : Zipper α} {cap : Nat}

def start (x : α) : Zipper α := ⟨[], x, []⟩

def push (cap : Nat) (z : Zipper α) (x : α) : Zipper α := ⟨(z.present :: z.past).take cap, x, []⟩

def undo (z : Zipper α) : Option (Zipper α) :=
  match z.past with
  | [] => none
  | x :: past => some ⟨past, x, z.present :: z.future⟩

def redo (z : Zipper α) : Option (Zipper α) :=
  match z.future with
  | [] => none
  | x :: future => some ⟨z.present :: z.past, x, future⟩

/-- Back to before the `i`-th newest change, which is forgotten with all later ones. -/
def revert (z : Zipper α) (i : Nat) : Option (Zipper α) :=
  (z.past[i]?).map fun x => ⟨z.past.drop (i + 1), x, []⟩

/-- Everything in the zipper. -/
def All (p : α → Prop) (z : Zipper α) : Prop :=
  (∀ x ∈ z.past, p x) ∧ p z.present ∧ ∀ x ∈ z.future, p x

def Bounded (cap : Nat) (z : Zipper α) : Prop := z.past.length + z.future.length ≤ cap

/-! ## Properties of the contents -/

theorem All.push {p : α → Prop} {x : α} (h : z.All p) (hx : p x) : (z.push cap x).All p := by
  refine ⟨fun y hy => ?_, hx, fun y hy => by cases hy⟩
  rcases List.mem_cons.mp (List.mem_of_mem_take hy) with rfl | hy
  · exact h.2.1
  · exact h.1 y hy

theorem All.undo {p : α → Prop} (h : z.All p) (hu : z.undo = some z') : z'.All p := by
  obtain ⟨past, present, future⟩ := z
  cases past with
  | nil => cases hu
  | cons x past =>
    cases hu
    obtain ⟨hpast, hpresent, hfuture⟩ := h
    rw [List.forall_mem_cons] at hpast
    exact ⟨hpast.2, hpast.1, List.forall_mem_cons.mpr ⟨hpresent, hfuture⟩⟩

theorem All.redo {p : α → Prop} (h : z.All p) (hr : z.redo = some z') : z'.All p := by
  obtain ⟨past, present, future⟩ := z
  cases future with
  | nil => cases hr
  | cons x future =>
    cases hr
    obtain ⟨hpast, hpresent, hfuture⟩ := h
    rw [List.forall_mem_cons] at hfuture
    exact ⟨List.forall_mem_cons.mpr ⟨hpresent, hpast⟩, hfuture.1, hfuture.2⟩

theorem All.revert {p : α → Prop} {i : Nat} (h : z.All p) (hr : z.revert i = some z') :
    z'.All p := by
  obtain ⟨x, hx, rfl⟩ := Option.map_eq_some_iff.mp hr
  refine ⟨fun y hy => h.1 y (List.mem_of_mem_drop hy), h.1 x (List.mem_of_getElem? hx), ?_⟩
  intro y hy
  cases hy

/-! ## Bounds -/

theorem bounded_push (z : Zipper α) (x : α) : (z.push cap x).Bounded cap := by
  have hlen := List.length_take_le cap (z.present :: z.past)
  unfold Bounded push
  dsimp only [List.length_nil]
  omega

theorem Bounded.undo (h : z.Bounded cap) (hu : z.undo = some z') : z'.Bounded cap := by
  obtain ⟨past, present, future⟩ := z
  cases past with
  | nil => cases hu
  | cons x past =>
    cases hu
    unfold Bounded at h ⊢
    simp only [List.length_cons] at h ⊢
    omega

theorem Bounded.redo (h : z.Bounded cap) (hr : z.redo = some z') : z'.Bounded cap := by
  obtain ⟨past, present, future⟩ := z
  cases future with
  | nil => cases hr
  | cons x future =>
    cases hr
    unfold Bounded at h ⊢
    simp only [List.length_cons] at h ⊢
    omega

theorem Bounded.revert {i : Nat} (h : z.Bounded cap) (hr : z.revert i = some z') :
    z'.Bounded cap := by
  obtain ⟨x, -, rfl⟩ := Option.map_eq_some_iff.mp hr
  unfold Bounded at h ⊢
  simp only [List.length_drop, List.length_nil]
  omega

end Zipper

end XavierDB
