import Mathlib.Algebra.Ring.Nat
import Mathlib.Data.List.Basic

/-!
# A rotating store

Items go to the current file until the next one would take it over the limit;
then the files move one place on, the oldest is dropped, and a fresh file is
started. What is kept is the end of what was kept before and put in.
-/

namespace XavierDB

/-- The current file and the older ones, newest first. -/
structure Rotating (α : Type) where
  cur : List α
  old : List (List α)

namespace Rotating

variable {α : Type}

/-- A current file and `n` older ones. -/
def empty (n : Nat) : Rotating α := ⟨[], List.replicate n []⟩

/-- The items, oldest first. -/
def kept (r : Rotating α) : List α := r.old.reverse.flatten ++ r.cur

/-- The file that the next rotation drops. -/
def oldest (r : Rotating α) : List α := (r.cur :: r.old).getLast (List.cons_ne_nil _ _)

def rotate (r : Rotating α) : Rotating α := ⟨[], (r.cur :: r.old).dropLast⟩

variable (size : α → Nat) (limit : Nat)

/-- The item would take the current file over the limit. -/
def Full (r : Rotating α) (a : α) : Prop := limit < (r.cur.map size).sum + size a

instance (r : Rotating α) (a : α) : Decidable (r.Full size limit a) :=
  inferInstanceAs (Decidable (_ < _))

def put (r : Rotating α) (a : α) : Rotating α :=
  if r.Full size limit a then { r.rotate with cur := [a] } else { r with cur := r.cur ++ [a] }

variable {size limit} {r : Rotating α} {a : α}

theorem kept_empty (n : Nat) : (empty n : Rotating α).kept = [] := by
  rw [kept, empty, List.reverse_replicate, List.flatten_replicate_nil, List.nil_append]

theorem mem_kept {x : α} : x ∈ r.kept ↔ (∃ l ∈ r.old, x ∈ l) ∨ x ∈ r.cur := by
  simp [kept]

/-- A rotation drops the oldest file and no other item. -/
theorem oldest_append_kept_rotate (r : Rotating α) : r.oldest ++ r.rotate.kept = r.kept := by
  have h := List.dropLast_concat_getLast (List.cons_ne_nil r.cur r.old)
  calc r.oldest ++ r.rotate.kept
      = ((r.cur :: r.old).dropLast ++ [r.oldest]).reverse.flatten := by
        simp [rotate, kept]
    _ = (r.cur :: r.old).reverse.flatten := by rw [oldest, h]
    _ = r.kept := by simp [kept]

theorem put_of_full (h : r.Full size limit a) :
    r.put size limit a = { r.rotate with cur := [a] } :=
  if_pos h

theorem put_of_not_full (h : ¬r.Full size limit a) :
    r.put size limit a = { r with cur := r.cur ++ [a] } :=
  if_neg h

theorem kept_put_of_full (h : r.Full size limit a) :
    r.oldest ++ (r.put size limit a).kept = r.kept ++ [a] := by
  rw [put_of_full h, ← oldest_append_kept_rotate r]
  simp [kept, rotate]

theorem kept_put_of_not_full (h : ¬r.Full size limit a) :
    (r.put size limit a).kept = r.kept ++ [a] := by
  rw [put_of_not_full h, kept, kept, List.append_assoc]

/-- The new item is the last one. -/
theorem cur_put : ∃ l, (r.put size limit a).cur = l ++ [a] := by
  by_cases h : r.Full size limit a
  · exact ⟨[], by rw [put_of_full h, List.nil_append]⟩
  · exact ⟨r.cur, by rw [put_of_not_full h]⟩

theorem kept_put_suffix : (r.put size limit a).kept <:+ r.kept ++ [a] := by
  by_cases h : r.Full size limit a
  · exact ⟨_, kept_put_of_full h⟩
  · exact ⟨[], by rw [kept_put_of_not_full h, List.nil_append]⟩

/-! ## Sizes -/

/-- Each file is within the limit or holds one item. -/
def Bounded (size : α → Nat) (limit : Nat) (r : Rotating α) : Prop :=
  ∀ l ∈ r.cur :: r.old, (l.map size).sum ≤ limit ∨ ∃ a, l = [a]

theorem bounded_empty (n : Nat) : Bounded size limit (empty n) := by
  intro l hl
  rcases List.mem_cons.mp hl with rfl | hl
  · exact .inl (Nat.zero_le _)
  · rw [empty, List.mem_replicate] at hl
    rw [hl.2]
    exact .inl (Nat.zero_le _)

theorem Bounded.put (h : Bounded size limit r) (a : α) :
    Bounded size limit (r.put size limit a) := by
  unfold Bounded at h ⊢
  by_cases hfull : r.Full size limit a
  · rw [put_of_full hfull]
    refine List.forall_mem_cons.mpr ⟨.inr ⟨a, rfl⟩, fun l hl => h l ?_⟩
    exact List.dropLast_subset _ hl
  · rw [put_of_not_full hfull]
    have hold := (List.forall_mem_cons.mp h).2
    refine List.forall_mem_cons.mpr ⟨.inl ?_, hold⟩
    rw [Full] at hfull
    rw [List.map_append, List.sum_append, List.map_singleton, List.sum_singleton]
    omega

end Rotating

end XavierDB
