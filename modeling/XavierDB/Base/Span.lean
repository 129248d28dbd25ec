import Mathlib.Data.List.Basic
import Mathlib.Data.List.Range

/-!
# Spans

The items of a list between two positions. A span stays what it is while the
list grows at its end, and two spans that meet are one.
-/

namespace XavierDB

variable {α : Type}

/-- The items from position `a` up to position `c`. -/
def span (l : List α) (a c : ℕ) : List α := (l.take c).drop a

variable {l m : List α} {a b c k : ℕ}

theorem length_span (hc : c ≤ l.length) : (span l a c).length = c - a := by
  rw [span, List.length_drop, List.length_take, Nat.min_eq_left hc]

@[simp] theorem span_all : span l 0 l.length = l := by simp [span]

theorem span_append_span (hab : a ≤ b) (hbc : b ≤ c) : span l a b ++ span l b c = span l a c := by
  have hcut : (l.take c).take b = l.take b := by rw [List.take_take, Nat.min_eq_left hbc]
  calc span l a b ++ span l b c
      = ((l.take c).take b).drop a ++ (l.take c).drop b := by rw [span, span, hcut]
    _ = ((l.take c).take b ++ (l.take c).drop b).drop a := by
        rcases Nat.lt_or_ge b (l.take c).length with hlt | hge
        · rw [List.drop_append_of_le_length]
          rw [List.length_take]
          omega
        · simp [List.take_of_length_le hge, List.drop_of_length_le hge]
    _ = span l a c := by rw [List.take_append_drop, span]

theorem drop_span : (span l a c).drop k = span l (a + k) c := by simp [span]

/-- What is added at the end is in no span there was. -/
theorem span_append (hc : c ≤ l.length) : span (l ++ m) a c = span l a c := by
  rw [span, List.take_append_of_le_length hc, span]

/-! ## Spans of what is numbered by its positions -/

variable {key : α → ℕ}

theorem map_span (h : l.map key = List.range l.length) (hc : c ≤ l.length) :
    (span l a c).map key = List.range' a (c - a) := by
  rw [span, List.map_drop, List.map_take, h, List.take_range, Nat.min_eq_left hc,
    List.range_eq_range', List.drop_range', Nat.mul_comm]
  simp

theorem key_of_mem_span (h : l.map key = List.range l.length) (hc : c ≤ l.length) {x : α}
    (hx : x ∈ span l a c) : a ≤ key x ∧ key x < c := by
  have hmem := List.mem_map_of_mem (f := key) hx
  rw [map_span h hc, List.mem_range'_1] at hmem
  omega

theorem key_head_span (h : l.map key = List.range l.length) (hac : a < c) (hc : c ≤ l.length) :
    (span l a c).head?.map key = some a := by
  have hhead := congrArg List.head? (map_span (a := a) h hc)
  rw [List.head?_map] at hhead
  rw [hhead, List.head?_range', if_neg (by omega)]

end XavierDB
