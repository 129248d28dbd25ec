import Mathlib.Data.List.Forall2
import XavierDB.Base.Wildcard
import XavierDB.Perms.File

/-!
# Glob patterns (`src/perms.rs`)

`glob_match` as the loop with two pointers and one point to return to, against
the documented meaning of a pattern. A star of the pattern that meets a star of
the value takes it for itself and is not recorded as a wildcard; `Reads` is the
meaning this gives to patterns.
-/

namespace XavierDB.Perms

open Wildcard

/-- The variables of the loop of `glob_match`; `star` is `none` while it is
`usize::MAX`. -/
structure Cursor where
  pi : Nat
  vi : Nat
  star : Option Nat
  mark : Nat
  deriving DecidableEq, Repr

/-- One turn of the loop; `none` is its `return false`. -/
def Cursor.turn (pat val : List Char) (c : Cursor) : Option Cursor :=
  if c.pi < pat.length ∧ (pat[c.pi]? = some '?' ∨ pat[c.pi]? = val[c.vi]?) then
    some { c with pi := c.pi + 1, vi := c.vi + 1 }
  else if c.pi < pat.length ∧ pat[c.pi]? = some '*' then
    some { c with star := some c.pi, mark := c.vi, pi := c.pi + 1 }
  else match c.star with
    | some star => some { c with pi := star + 1, mark := c.mark + 1, vi := c.mark + 1 }
    | none => none

/-- The loop of `glob_match` and the stars left after it; `none` when the turns
do not suffice. -/
def globLoop (pat val : List Char) : Nat → Cursor → Option Bool
  | 0, _ => none
  | n + 1, c =>
    if c.vi < val.length then
      match c.turn pat val with
      | some c' => globLoop pat val n c'
      | none => some false
    else some ((pat.drop c.pi).dropWhile (· == '*')).isEmpty

/-- Turns that suffice. -/
def globTurns (pat val : List Char) : Nat :=
  (pat.length + 1) * ((val.length + 1) * (pat.length + 1))

/-- `glob_match`. -/
def globMatch (pattern value : String) : Bool :=
  if pattern = "*" ∨ pattern = "**" then true
  else (globLoop pattern.toList value.toList (globTurns pattern.toList value.toList)
    ⟨0, 0, none, 0⟩).getD false

/-- `rule_matches`. -/
def ruleMatches (rules : List Rule) (action db coll : String) : Bool :=
  rules.any fun r =>
    r.actions.any (· == action) && r.databases.any (globMatch · db) &&
      r.collections.any (globMatch · coll)

/-! ## What a pattern means -/

def token (c : Char) : Token Char :=
  if c = '?' then .one else if c = '*' then .many else .lit c

/-- The value can be split to match the pattern character by character. -/
def Covers (pattern value : String) : Prop :=
  Matches (fun _ => True) (pattern.toList.map token) value.toList

variable {pat val : List Char} {c d : Cursor} {n : Nat} {r : Bool}

theorem matches_star {ts : List (Token Char)} {v : List Char} :
    Matches (fun _ => True) (token '*' :: ts) v ↔ ∃ k, Matches (fun _ => True) ts (v.drop k) :=
  matches_many_drop fun _ => trivial

theorem matches_char {x y : Char} {ts : List (Token Char)} {v : List Char}
    (hxy : x = '?' ∨ x = y) (h : Matches (fun _ => True) ts v) :
    Matches (fun _ => True) (token x :: ts) (y :: v) := by
  unfold token
  split
  · exact .one trivial h
  · split
    · exact .many (w := [y]) (fun _ _ => trivial) h
    · obtain rfl := hxy.resolve_left ‹_›
      exact .lit h

theorem exists_of_matches_char {x : Char} {ts : List (Token Char)} {v : List Char} (hx : x ≠ '*')
    (h : Matches (fun _ => True) (token x :: ts) v) :
    ∃ y w, v = y :: w ∧ (x = '?' ∨ x = y) ∧ Matches (fun _ => True) ts w := by
  unfold token at h
  split at h
  case isTrue hq =>
    cases h with
    | one _ h => exact ⟨_, _, rfl, .inl hq, h⟩
  case isFalse =>
    cases h with
    | lit h => exact ⟨_, _, rfl, .inr rfl, h⟩

/-! ## What the loop makes of it -/

/-- The value can be split to match the pattern, where a star that comes to stand
before a star takes that one alone. -/
inductive Reads : List Char → List Char → Prop where
  | nil : Reads [] []
  | char {x y : Char} {p v : List Char} :
    x = '?' ∨ x = y → Reads p v → Reads (x :: p) (y :: v)
  | star {p v : List Char} (k : Nat) :
    v.head? ≠ some '*' → Reads p (v.drop k) → Reads ('*' :: p) v

/-- The pattern's characters are taken one for one. -/
abbrev OneForOne (pre pre' : List Char) : Prop :=
  List.Forall₂ (fun x y => x = '?' ∨ x = y) pre pre'

section Reads

variable {x y : Char} {p v seg u q t : List Char}

theorem reads_char (hxy : x = '?' ∨ x = y) : Reads (x :: p) (y :: v) ↔ Reads p v := by
  constructor
  · intro h
    cases h with
    | char _ h => exact h
    | star k hy _ => exact absurd (hxy.resolve_left (by decide)) (by simpa [eq_comm] using hy)
  · exact .char hxy

theorem reads_star (hv : v.head? ≠ some '*') : Reads ('*' :: p) v ↔ ∃ k, Reads p (v.drop k) := by
  constructor
  · intro h
    cases h with
    | char hxy _ => exact absurd (hxy.resolve_left (by decide)) (by simpa [eq_comm] using hv)
    | star k _ h => exact ⟨k, h⟩
  · rintro ⟨k, h⟩
    exact .star k hv h

theorem Reads.exists_drop (h : Reads (x :: p) v) : ∃ k, Reads p (v.drop k) := by
  cases h with
  | char _ h => exact ⟨1, h⟩
  | star k _ h => exact ⟨k, h⟩

theorem reads_nil_iff : Reads p [] ↔ ∀ x ∈ p, x = '*' := by
  induction p with
  | nil => exact iff_of_true .nil (List.forall_mem_nil _)
  | cons x p ih =>
    rw [List.forall_mem_cons]
    constructor
    · intro h
      cases h with
      | star k _ h => exact ⟨rfl, ih.mp (by rwa [List.drop_nil] at h)⟩
    · rintro ⟨rfl, h⟩
      exact .star 0 (by simp) (ih.mpr h)

theorem reads_append (h : OneForOne seg u) : Reads (seg ++ q) (u ++ t) ↔ Reads q t := by
  induction h with
  | nil => rfl
  | cons hxy _ ih => rw [List.cons_append, List.cons_append, reads_char hxy, ih]

/-- One point to return to is enough: where a part of the pattern is taken one
for one, what follows it is not matched any earlier by starting the part later. -/
theorem Reads.after (h : OneForOne seg u) {j : Nat} (hr : Reads (seg ++ q) ((u ++ t).drop j)) :
    ∃ i, Reads q (t.drop i) := by
  induction h generalizing j with
  | nil => exact ⟨j, hr⟩
  | cons hxy _ ih =>
    cases j with
    | zero =>
      rw [List.cons_append, List.cons_append, List.drop_zero, reads_char hxy] at hr
      exact ih (j := 0) hr
    | succ j =>
      obtain ⟨k, hk⟩ := hr.exists_drop
      rw [List.cons_append, List.drop_succ_cons, List.drop_drop] at hk
      exact ih hk

theorem Reads.length_eq (h : Reads p v) (hp : '*' ∉ p) : v.length = p.length := by
  induction h with
  | nil => rfl
  | char _ _ ih =>
    rw [List.mem_cons, not_or] at hp
    rw [List.length_cons, List.length_cons, ih hp.2]
  | star => exact absurd List.mem_cons_self hp

/-- What is read is covered. -/
theorem Reads.matches (h : Reads p v) : Matches (fun _ => True) (p.map token) v := by
  induction h with
  | nil => exact .nil
  | char hxy _ ih => exact matches_char hxy ih
  | star k _ _ ih => exact matches_star.mpr ⟨k, ih⟩

/-- What is covered is read, unless pattern and value both hold a star. -/
theorem reads_of_matches (hsep : '*' ∉ p ∨ '*' ∉ v)
    (h : Matches (fun _ => True) (p.map token) v) : Reads p v := by
  induction p generalizing v with
  | nil =>
    obtain rfl := matches_nil.mp h
    exact .nil
  | cons x p ih =>
    by_cases hx : x = '*'
    · subst hx
      have hv : '*' ∉ v := hsep.resolve_left fun hp => hp List.mem_cons_self
      obtain ⟨k, hk⟩ := matches_star.mp h
      exact .star k (fun hhead => hv (List.mem_of_mem_head? hhead))
        (ih (.inr fun hmem => hv (List.mem_of_mem_drop hmem)) hk)
    · obtain ⟨y, w, rfl, hxy, hw⟩ := exists_of_matches_char hx h
      exact .char hxy (ih (hsep.imp (mt (List.mem_cons_of_mem _)) (mt (List.mem_cons_of_mem _))) hw)

end Reads

/-! ## The turns -/

theorem drop_of_getElem? {l : List Char} {i : Nat} {x : Char} (h : l[i]? = some x) :
    l.drop i = x :: l.drop (i + 1) := by
  obtain ⟨hi, rfl⟩ := List.getElem?_eq_some_iff.mp h
  exact List.drop_eq_getElem_cons hi

/-- No branch for the pattern's character is taken. -/
def Stuck (pat val : List Char) (c : Cursor) : Prop :=
  ∀ x, pat[c.pi]? = some x → x ≠ '?' ∧ x ≠ '*' ∧ val[c.vi]? ≠ some x

/-- Everything a turn can do. -/
theorem turn_cases (pat : List Char) (hv : c.vi < val.length) :
    (∃ x y, pat[c.pi]? = some x ∧ val[c.vi]? = some y ∧ (x = '?' ∨ x = y) ∧
      c.turn pat val = some { c with pi := c.pi + 1, vi := c.vi + 1 }) ∨
    (pat[c.pi]? = some '*' ∧ val[c.vi]? ≠ some '*' ∧
      c.turn pat val = some { c with star := some c.pi, mark := c.vi, pi := c.pi + 1 }) ∨
    (Stuck pat val c ∧ ∃ s, c.star = some s ∧
      c.turn pat val = some { c with pi := s + 1, mark := c.mark + 1, vi := c.mark + 1 }) ∨
    (Stuck pat val c ∧ c.star = none ∧ c.turn pat val = none) := by
  have hy : val[c.vi]? = some val[c.vi] := List.getElem?_eq_getElem hv
  unfold Cursor.turn
  split
  case isTrue hx =>
    refine .inl ⟨pat[c.pi], val[c.vi], List.getElem?_eq_getElem hx.1, hy, ?_, rfl⟩
    have := hx.2
    rwa [hy, List.getElem?_eq_getElem hx.1, Option.some.injEq, Option.some.injEq] at this
  case isFalse hx =>
    split
    case isTrue hs =>
      have hne : val[c.vi]? ≠ some '*' := fun hy => hx ⟨hs.1, .inr (hs.2.trans hy.symm)⟩
      exact .inr (.inl ⟨hs.2, hne, rfl⟩)
    case isFalse hs =>
      have hstuck : Stuck pat val c := by
        intro x hp
        have hlt := (List.getElem?_eq_some_iff.mp hp).1
        grind
      cases h : c.star with
      | some s => exact .inr (.inr (.inl ⟨hstuck, s, rfl, rfl⟩))
      | none => exact .inr (.inr (.inr ⟨hstuck, rfl, rfl⟩))

/-! ## The loop ends -/

/-- The last star is before the pointers, which stay within the pattern and the value. -/
structure Cursor.Within (pat val : List Char) (c : Cursor) : Prop where
  pi : c.pi ≤ pat.length
  vi : c.vi ≤ val.length
  mark : c.mark ≤ c.vi
  star : ∀ s, c.star = some s → s < c.pi

/-- What the loop counts down: the pattern after the last star, the value after
its mark, the pattern after the pointer. -/
def Cursor.rank (pat val : List Char) (c : Cursor) : Nat :=
  (pat.length - (c.star.map (· + 1)).getD 0) * ((val.length + 1) * (pat.length + 1)) +
    ((val.length - c.mark) * (pat.length + 1) + (pat.length - c.pi))

theorem mul_add_le_of_lt {a b k : Nat} (h : a < b) : a * k + k ≤ b * k := by
  rw [← Nat.succ_mul]
  exact Nat.mul_le_mul_right k h

theorem turn_within (hc : c.Within pat val) (hv : c.vi < val.length)
    (h : c.turn pat val = some d) : d.Within pat val ∧ d.rank pat val < c.rank pat val := by
  obtain ⟨hpi, hvi, hmark, hstar⟩ := hc
  rcases turn_cases pat hv with
    ⟨x, y, hx, -, -, ht⟩ | ⟨hx, -, ht⟩ | ⟨-, s, hs, ht⟩ | ⟨-, -, ht⟩
  · have hlt := (List.getElem?_eq_some_iff.mp hx).1
    cases ht.symm.trans h
    refine ⟨⟨hlt, hv, Nat.le_succ_of_le hmark, fun s hs => Nat.lt_succ_of_lt (hstar s hs)⟩, ?_⟩
    simp only [Cursor.rank]
    omega
  · have hlt := (List.getElem?_eq_some_iff.mp hx).1
    cases ht.symm.trans h
    refine ⟨⟨hlt, hvi, Nat.le_refl _, fun s hs => ?_⟩, ?_⟩
    · cases hs
      exact Nat.lt_succ_self _
    · have hnext : (c.star.map (· + 1)).getD 0 ≤ c.pi := by
        cases hs : c.star with
        | none => exact Nat.zero_le _
        | some s => exact hstar s hs
      have h1 := mul_add_le_of_lt (k := (val.length + 1) * (pat.length + 1))
        (show pat.length - (c.pi + 1) < pat.length - (c.star.map (· + 1)).getD 0 by omega)
      have h2 := mul_add_le_of_lt (k := pat.length + 1)
        (show val.length - c.vi < val.length + 1 by omega)
      simp only [Cursor.rank, Option.map_some, Option.getD_some]
      omega
  · cases ht.symm.trans h
    have hs' := hstar s hs
    refine ⟨⟨Nat.le_trans hs' hpi, Nat.lt_of_le_of_lt hmark hv, Nat.le_refl _, fun t ht => ?_⟩, ?_⟩
    · rw [hs] at ht
      cases ht
      exact Nat.lt_succ_self _
    · have h1 := mul_add_le_of_lt (k := pat.length + 1)
        (show val.length - (c.mark + 1) < val.length - c.mark by omega)
      simp only [Cursor.rank, hs, Option.map_some, Option.getD_some]
      omega
  · cases ht.symm.trans h

/-- The loop ends within its rank, whatever more turns it is given. -/
theorem globLoop_ends (hc : c.Within pat val) :
    ∃ r, ∀ n, c.rank pat val < n → globLoop pat val n c = some r := by
  induction hk : c.rank pat val using Nat.strongRecOn generalizing c with
  | ind k ih =>
    by_cases hv : c.vi < val.length
    · cases ht : c.turn pat val with
      | none =>
        refine ⟨false, fun n hn => ?_⟩
        obtain ⟨n, rfl⟩ := Nat.exists_eq_add_of_lt hn
        rw [globLoop, if_pos hv, ht]
      | some d =>
        obtain ⟨hd, hlt⟩ := turn_within hc hv ht
        obtain ⟨r, hr⟩ := ih _ (hk ▸ hlt) hd rfl
        refine ⟨r, fun n hn => ?_⟩
        cases n with
        | zero => exact absurd hn (Nat.not_lt_zero _)
        | succ n =>
          rw [globLoop, if_pos hv, ht]
          exact hr n (by omega)
    · refine ⟨((pat.drop c.pi).dropWhile (· == '*')).isEmpty, fun n hn => ?_⟩
      cases n with
      | zero => exact absurd hn (Nat.not_lt_zero _)
      | succ n => rw [globLoop, if_neg hv]

/-! ## Whether a match is left -/

/-- What is left of the pattern reads what is left of the value, or does when the
last star takes more. -/
def Alive (pat val : List Char) (c : Cursor) : Prop :=
  Reads (pat.drop c.pi) (val.drop c.vi) ∨
    ∃ s k, c.star = some s ∧ c.mark < k ∧ Reads (pat.drop (s + 1)) (val.drop k)

/-- The part of the pattern after the last star has been taken one for one. -/
def Straight (pat val : List Char) (c : Cursor) : Prop :=
  ∀ s, c.star = some s → ∃ seg u, pat.drop (s + 1) = seg ++ pat.drop c.pi ∧
    val.drop c.mark = u ++ val.drop c.vi ∧ OneForOne seg u

theorem straight_turn (hv : c.vi < val.length) (h : c.turn pat val = some d)
    (hc : Straight pat val c) : Straight pat val d := by
  rcases turn_cases pat hv with
    ⟨x, y, hx, hy, hxy, ht⟩ | ⟨hx, -, ht⟩ | ⟨-, s, hs, ht⟩ | ⟨-, -, ht⟩ <;> cases ht.symm.trans h
  · intro s hs
    obtain ⟨seg, u, hseg, hu, htaken⟩ := hc s hs
    refine ⟨seg ++ [x], u ++ [y], ?_, ?_, List.rel_append htaken (.cons hxy .nil)⟩
    · rw [hseg, drop_of_getElem? hx, ← List.append_cons]
    · rw [hu, drop_of_getElem? hy, ← List.append_cons]
  · rintro s ⟨⟩
    exact ⟨[], [], rfl, rfl, .nil⟩
  · intro t ht
    rw [hs] at ht
    cases ht
    exact ⟨[], [], rfl, rfl, .nil⟩

/-- Whatever the last star takes, what follows the part after it is found later. -/
theorem Straight.exists_reads (hc : Straight pat val c) {s k : Nat} (hs : c.star = some s)
    (hk : c.mark < k) (h : Reads (pat.drop (s + 1)) (val.drop k)) :
    ∃ i, Reads (pat.drop c.pi) ((val.drop c.vi).drop i) := by
  obtain ⟨seg, u, hseg, hu, htaken⟩ := hc s hs
  obtain ⟨j, rfl⟩ := Nat.exists_eq_add_of_lt hk
  rw [hseg, Nat.add_assoc, ← List.drop_drop, hu] at h
  exact h.after htaken

theorem not_reads_of_stuck (hv : c.vi < val.length) (hs : Stuck pat val c) :
    ¬ Reads (pat.drop c.pi) (val.drop c.vi) := by
  rw [List.drop_eq_getElem_cons hv]
  cases hp : pat[c.pi]? with
  | none =>
    rw [List.getElem?_eq_none_iff] at hp
    rw [List.drop_eq_nil_of_le hp]
    rintro ⟨⟩
  | some x =>
    obtain ⟨h1, h2, h3⟩ := hs x hp
    rw [drop_of_getElem? hp]
    intro h
    cases h with
    | char hxy _ =>
      obtain rfl := hxy.resolve_left h1
      exact h3 (List.getElem?_eq_getElem hv)
    | star => exact h2 rfl

/-- With a star before no star, a match is left when one is with this star as the
last, whatever the star before it would take. -/
theorem alive_star (hc : Straight pat val c) (hx : pat[c.pi]? = some '*')
    (hy : val[c.vi]? ≠ some '*') :
    Alive pat val c ↔ ∃ k, Reads (pat.drop (c.pi + 1)) ((val.drop c.vi).drop k) := by
  have hhead : (val.drop c.vi).head? ≠ some '*' := by rwa [List.head?_drop]
  rw [← reads_star hhead, ← drop_of_getElem? hx]
  constructor
  · rintro (h | ⟨s, k, hs, hk, h⟩)
    · exact h
    · obtain ⟨i, hi⟩ := hc.exists_reads hs hk h
      rw [drop_of_getElem? hx] at hi ⊢
      obtain ⟨j, hj⟩ := hi.exists_drop
      rw [List.drop_drop] at hj
      exact .star _ hhead hj
  · exact .inl

/-- A turn neither finds a match nor loses one. -/
theorem alive_turn (hv : c.vi < val.length) (h : c.turn pat val = some d)
    (hc : Straight pat val c) : Alive pat val d ↔ Alive pat val c := by
  rcases turn_cases pat hv with
    ⟨x, y, hx, hy, hxy, ht⟩ | ⟨hx, hy, ht⟩ | ⟨hstuck, s, hs, ht⟩ | ⟨-, -, ht⟩ <;>
    cases ht.symm.trans h
  · refine or_congr_left ?_
    rw [drop_of_getElem? hx, drop_of_getElem? hy, reads_char hxy]
  · rw [alive_star hc hx hy]
    constructor
    · rintro (h | ⟨s, k, ⟨⟩, hk, h⟩)
      · exact ⟨0, h⟩
      · refine ⟨k - c.vi, ?_⟩
        rwa [List.drop_drop, Nat.add_sub_cancel' (Nat.le_of_lt hk)]
    · rintro ⟨k, h⟩
      rw [List.drop_drop] at h
      cases k with
      | zero => exact .inl h
      | succ k => exact .inr ⟨c.pi, _, rfl, Nat.lt_add_of_pos_right (Nat.succ_pos k), h⟩
  · have hno := not_reads_of_stuck hv hstuck
    constructor
    · rintro (h | ⟨t, k, ht, hk, h⟩)
      · exact .inr ⟨s, c.mark + 1, hs, Nat.lt_succ_self _, h⟩
      · exact .inr ⟨t, k, ht, Nat.lt_of_succ_lt hk, h⟩
    · rintro (h | ⟨t, k, ht, hk, h⟩)
      · exact absurd h hno
      · rw [hs] at ht
        cases ht
        rcases Nat.eq_or_lt_of_le (Nat.succ_le_of_lt hk) with rfl | hlt
        · exact .inl h
        · exact .inr ⟨s, k, hs, hlt, h⟩

theorem not_alive_of_stuck (hv : c.vi < val.length) (h : c.turn pat val = none) :
    ¬ Alive pat val c := by
  rcases turn_cases pat hv with
    ⟨_, _, _, _, _, ht⟩ | ⟨_, _, ht⟩ | ⟨_, _, _, ht⟩ | ⟨hstuck, hs, -⟩
  · cases h.symm.trans ht
  · cases h.symm.trans ht
  · cases h.symm.trans ht
  · rintro (hr | ⟨s, k, hs', -⟩)
    · exact not_reads_of_stuck hv hstuck hr
    · cases hs.symm.trans hs'

theorem alive_end (hv : ¬ c.vi < val.length) (hc : Straight pat val c) :
    ((pat.drop c.pi).dropWhile (· == '*')).isEmpty = true ↔ Alive pat val c := by
  have hnil : val.drop c.vi = [] := List.drop_eq_nil_of_le (Nat.le_of_not_lt hv)
  have hstars : ((pat.drop c.pi).dropWhile (· == '*')).isEmpty = true ↔
      Reads (pat.drop c.pi) (val.drop c.vi) := by
    rw [hnil, reads_nil_iff, List.isEmpty_iff, List.dropWhile_eq_nil_iff]
    simp only [beq_iff_eq]
  rw [hstars]
  constructor
  · exact .inl
  · rintro (h | ⟨s, k, hs, hk, h⟩)
    · exact h
    · obtain ⟨i, hi⟩ := hc.exists_reads hs hk h
      rw [hnil, List.drop_nil] at hi
      rwa [hnil]

/-! ## The loop decides -/

theorem globLoop_iff (hc : Straight pat val c) (h : globLoop pat val n c = some r) :
    r = true ↔ Alive pat val c := by
  induction n generalizing c with
  | zero => cases h
  | succ n ih =>
    rw [globLoop] at h
    split at h
    case isTrue hv =>
      cases ht : c.turn pat val with
      | none =>
        rw [ht] at h
        cases h
        exact iff_of_false Bool.false_ne_true (not_alive_of_stuck hv ht)
      | some d =>
        rw [ht] at h
        rw [← alive_turn hv ht hc]
        exact ih (straight_turn hv ht hc) h
    case isFalse hv =>
      cases h
      exact alive_end hv hc

theorem alive_start : Alive pat val ⟨0, 0, none, 0⟩ ↔ Reads pat val := by
  constructor
  · rintro (h | ⟨s, k, ⟨⟩, -⟩)
    exact h
  · exact .inl

theorem globLoop_turns (pat val : List Char) : ∃ r, ∀ n, globTurns pat val ≤ n →
    globLoop pat val n ⟨0, 0, none, 0⟩ = some r := by
  have hc : Cursor.Within pat val ⟨0, 0, none, 0⟩ :=
    ⟨Nat.zero_le _, Nat.zero_le _, Nat.le_refl _, by rintro s ⟨⟩⟩
  obtain ⟨r, hr⟩ := globLoop_ends hc
  refine ⟨r, fun n hn => hr n (Nat.lt_of_lt_of_le ?_ hn)⟩
  simp only [Cursor.rank, globTurns, Option.map_none, Option.getD_none, Nat.sub_zero,
    Nat.succ_mul]
  omega

/-- `*` and `**` apart, `glob_match` accepts what is read. -/
theorem globMatch_iff_reads (p v : String) :
    globMatch p v = true ↔ p = "*" ∨ p = "**" ∨ Reads p.toList v.toList := by
  rw [← or_assoc, globMatch]
  split
  case isTrue hp => exact iff_of_true rfl (.inl hp)
  case isFalse hp =>
    obtain ⟨r, hr⟩ := globLoop_turns p.toList v.toList
    have hloop := hr _ (Nat.le_refl _)
    rw [hloop, Option.getD_some, or_iff_right hp, ← alive_start]
    exact globLoop_iff (by rintro s ⟨⟩) hloop

theorem covers_of_all {p : String} (hp : p = "*" ∨ p = "**") (v : String) : Covers p v := by
  have hall : ∀ c ∈ v.toList, (fun _ : Char => True) c := fun _ _ => trivial
  have h : Matches (fun _ => True) [.many] v.toList := by
    have h := Matches.many hall .nil
    rwa [List.append_nil] at h
  rcases hp with rfl | rfl
  · exact h
  · exact .many (w := []) (List.forall_mem_nil _) h

/-- What `glob_match` accepts is covered. -/
theorem covers_of_globMatch {p v : String} (h : globMatch p v = true) : Covers p v := by
  rcases (globMatch_iff_reads p v).mp h with hp | hp | hr
  · exact covers_of_all (.inl hp) v
  · exact covers_of_all (.inr hp) v
  · exact hr.matches

/-- What is covered is accepted, unless pattern and value both hold a star. -/
theorem globMatch_of_covers {p v : String} (hsep : '*' ∉ p.toList ∨ '*' ∉ v.toList)
    (h : Covers p v) : globMatch p v = true :=
  (globMatch_iff_reads p v).mpr (.inr (.inr (reads_of_matches hsep h)))

theorem globMatch_iff {p v : String} (hsep : '*' ∉ p.toList ∨ '*' ∉ v.toList) :
    globMatch p v = true ↔ Covers p v :=
  ⟨covers_of_globMatch, globMatch_of_covers hsep⟩

/-! ## Stars taken for characters -/

theorem globMatch_eq_false {p v : String} {pre pre' post post' : List Char}
    (hp : ¬ (p = "*" ∨ p = "**")) (hpl : p.toList = pre ++ post) (hvl : v.toList = pre' ++ post')
    (h : OneForOne pre pre') (hstar : '*' ∉ post) (hlen : post'.length ≠ post.length) :
    globMatch p v = false := by
  rw [← Bool.not_eq_true, globMatch_iff_reads, ← or_assoc, or_iff_right hp, hpl, hvl, reads_append h]
  exact fun hr => hlen (hr.length_eq hstar)

theorem OneForOne.matches {pre pre' : List Char} (h : OneForOne pre pre') :
    Matches (fun _ => True) (pre.map token) pre' := by
  induction h with
  | nil => exact .nil
  | cons hxy _ ih => exact matches_char hxy ih

theorem oneForOne_questions (l : List Char) : OneForOne (List.replicate l.length '?') l := by
  induction l with
  | nil => exact .nil
  | cons c l ih => exact .cons (.inl rfl) ih

theorem oneForOne_self (l : List Char) : OneForOne l l :=
  List.forall₂_same.mpr fun _ _ => .inr rfl

/-- Question marks cover what is as long as they are. -/
theorem matches_questions (l : List Char) :
    Matches (fun _ => True) ((List.replicate l.length '?').map token) l :=
  (oneForOne_questions l).matches

theorem star_not_mem_replicate (n : Nat) : '*' ∉ List.replicate n '?' := by
  rw [List.mem_replicate]
  rintro ⟨-, h⟩
  exact absurd h (by decide)

/-- Question marks as long as `a`, a star, and question marks for one character
more than `b`. -/
def questionsAround (a b : List Char) : List Char :=
  (List.replicate a.length '?' ++ ['*']) ++ List.replicate (b.length + 1) '?'

/-- The star stands for nothing. -/
theorem matches_questionsAround (a b : List Char) :
    Matches (fun _ => True) ((questionsAround a b).map token) (a ++ '*' :: b) := by
  rw [questionsAround, List.append_assoc, List.singleton_append, List.map_append]
  exact (matches_questions a).append (.many (w := []) (by simp) (matches_questions ('*' :: b)))

theorem ne_star_of_question {p : String} (h : '?' ∈ p.toList) : ¬ (p = "*" ∨ p = "**") := by
  rintro (rfl | rfl) <;> exact absurd h (by decide)

/-- A value with a star is missed by a pattern that covers it. -/
theorem exists_pattern_of_star {v : String} (hv : '*' ∈ v.toList) :
    ∃ p, Covers p v ∧ globMatch p v = false := by
  obtain ⟨a, b, hab, -⟩ := List.eq_append_cons_of_mem hv
  have hpl : (String.ofList (questionsAround a b)).toList = questionsAround a b :=
    String.toList_ofList
  have hvl : v.toList = (a ++ ['*']) ++ b := by
    rw [hab, List.append_assoc, List.singleton_append]
  have hcov : Covers (String.ofList (questionsAround a b)) v := by
    rw [Covers, hpl, hab]
    exact matches_questionsAround a b
  refine ⟨_, hcov, globMatch_eq_false ?_ hpl hvl ?_ (star_not_mem_replicate _) ?_⟩
  · apply ne_star_of_question
    rw [hpl]
    simp [questionsAround]
  · exact List.rel_append (oneForOne_questions a) (.cons (.inr rfl) .nil)
  · rw [List.length_replicate]
    exact Nat.ne_of_lt (Nat.lt_succ_self _)

/-- A text covers itself. -/
theorem matches_self (l : List Char) : Matches (fun _ => True) (l.map token) l :=
  (oneForOne_self l).matches

/-- A star stands for a star and a letter. -/
theorem matches_letterAfter (a b : List Char) :
    Matches (fun _ => True) (((a ++ ['*']) ++ b).map token) ((a ++ ['*']) ++ 'a' :: b) := by
  rw [List.append_assoc, List.append_assoc, List.map_append]
  exact (matches_self _).append (.many (w := ['*', 'a']) (fun _ _ => trivial) (matches_self _))

theorem eq_append_last_star {l : List Char} (h : '*' ∈ l) :
    ∃ a b, l = (a ++ ['*']) ++ b ∧ '*' ∉ b := by
  obtain ⟨b, a, hab, hb⟩ := List.eq_append_cons_of_mem (List.mem_reverse.mpr h)
  refine ⟨a.reverse, b.reverse, ?_, by rwa [List.mem_reverse]⟩
  rw [← List.reverse_reverse l, hab]
  simp

/-- A pattern with a star, `*` and `**` apart, misses a value it covers: itself
with a letter after its last star. -/
theorem exists_value_of_star {p : String} (hp : '*' ∈ p.toList) (hall : ¬ (p = "*" ∨ p = "**")) :
    ∃ v, Covers p v ∧ globMatch p v = false := by
  obtain ⟨a, b, hpl, hb⟩ := eq_append_last_star hp
  have hvl : (String.ofList ((a ++ ['*']) ++ 'a' :: b)).toList = (a ++ ['*']) ++ 'a' :: b :=
    String.toList_ofList
  have hcov : Covers p (String.ofList ((a ++ ['*']) ++ 'a' :: b)) := by
    rw [Covers, hpl, hvl]
    exact matches_letterAfter a b
  refine ⟨_, hcov, globMatch_eq_false hall hpl hvl (oneForOne_self _) hb ?_⟩
  rw [List.length_cons]
  exact Nat.succ_ne_self _

/-! ## `glob_match` against the documented patterns -/

/-- Some rule lists the action, a pattern that covers the database and one that
covers the collection. -/
def RulesCover (rules : List Rule) (action db coll : String) : Prop :=
  ∃ r ∈ rules, action ∈ r.actions ∧ (∃ p ∈ r.databases, Covers p db) ∧
    ∃ p ∈ r.collections, Covers p coll

theorem ruleMatches_iff {rules : List Rule} {action db coll : String} (hdb : '*' ∉ db.toList)
    (hcoll : '*' ∉ coll.toList) :
    ruleMatches rules action db coll = true ↔ RulesCover rules action db coll := by
  simp only [ruleMatches, RulesCover, List.any_eq_true, Bool.and_eq_true, beq_iff_eq,
    exists_eq_right, globMatch_iff (.inr hdb), globMatch_iff (.inr hcoll), and_assoc]

theorem globMatch_star (v : String) : globMatch "*" v = true := if_pos (.inl rfl)

/-- The rule that a missed pattern makes useless. -/
theorem ruleMatches_singleton (action p q db coll : String) :
    ruleMatches [⟨[action], [p], [q]⟩] action db coll = (globMatch p db && globMatch q coll) := by
  simp [ruleMatches]

theorem rulesCover_singleton {action p q db coll : String} (hp : Covers p db)
    (hq : Covers q coll) : RulesCover [⟨[action], [p], [q]⟩] action db coll :=
  ⟨_, List.mem_singleton_self _, List.mem_singleton_self _, ⟨p, List.mem_singleton_self _, hp⟩,
    ⟨q, List.mem_singleton_self _, hq⟩⟩

/-- The loop ends. A pattern and a value are decided as documented exactly when
the value, if it is covered, can also be read. Every pattern is decided as
documented on exactly the values without a star; exactly the patterns without a
star, `*` and `**` decide every value; and every rule list covers a name as
documented exactly when neither part of the name holds a star. -/
theorem globMatch_decides_iff (p v db coll : String) :
    (∀ n, globTurns p.toList v.toList ≤ n →
      (globLoop p.toList v.toList n ⟨0, 0, none, 0⟩).isSome = true) ∧
    ((globMatch p v = true ↔ Covers p v) ↔
      (Covers p v → p = "*" ∨ p = "**" ∨ Reads p.toList v.toList)) ∧
    ((∀ p, globMatch p v = true ↔ Covers p v) ↔ '*' ∉ v.toList) ∧
    ((∀ v, globMatch p v = true ↔ Covers p v) ↔ '*' ∉ p.toList ∨ p = "*" ∨ p = "**") ∧
    ((∀ rules action,
      ruleMatches rules action db coll = true ↔ RulesCover rules action db coll) ↔
      '*' ∉ db.toList ∧ '*' ∉ coll.toList) := by
  refine ⟨fun n hn => ?_, ?_, ⟨fun h hv => ?_, fun hv p => globMatch_iff (.inr hv)⟩,
    ⟨fun h => ?_, ?_⟩, ⟨fun h => ⟨fun hdb => ?_, fun hcoll => ?_⟩,
      fun h rules action => ruleMatches_iff h.1 h.2⟩⟩
  · obtain ⟨r, hr⟩ := globLoop_turns p.toList v.toList
    rw [hr n hn]
    rfl
  · rw [← globMatch_iff_reads]
    exact ⟨fun h => h.mpr, fun h => ⟨covers_of_globMatch, h⟩⟩
  · obtain ⟨p, hcov, hf⟩ := exists_pattern_of_star hv
    exact Bool.eq_false_iff.mp hf ((h p).mpr hcov)
  · by_contra hnot
    rw [not_or, not_not] at hnot
    obtain ⟨v, hcov, hf⟩ := exists_value_of_star hnot.1 hnot.2
    exact Bool.eq_false_iff.mp hf ((h v).mpr hcov)
  · rintro (hp | hp) v
    · exact globMatch_iff (.inl hp)
    · exact ⟨fun _ => covers_of_all hp v, fun _ => if_pos hp⟩
  · obtain ⟨p, hcov, hf⟩ := exists_pattern_of_star hdb
    have := (h _ "GET").mpr (rulesCover_singleton hcov (covers_of_all (.inl rfl) coll))
    rw [ruleMatches_singleton, hf] at this
    cases this
  · obtain ⟨p, hcov, hf⟩ := exists_pattern_of_star hcoll
    have := (h _ "GET").mpr (rulesCover_singleton (covers_of_all (.inl rfl) db) hcov)
    rw [ruleMatches_singleton, hf, Bool.and_false] at this
    cases this

/-- The pattern `*a` covers `*ba`, which it does not match, so that a deny rule
with it does not apply. -/
theorem globMatch_missed : Covers "*a" "*ba" ∧ globMatch "*a" "*ba" = false ∧
    RulesCover [⟨["GET"], ["*"], ["*a"]⟩] "GET" "db" "*ba" ∧
    ruleMatches [⟨["GET"], ["*"], ["*a"]⟩] "GET" "db" "*ba" = false := by
  have hcov : Covers "*a" "*ba" := .many (w := ['*', 'b']) (fun _ _ => trivial) (.lit .nil)
  exact ⟨hcov, by decide +kernel, rulesCover_singleton (covers_of_all (.inl rfl) _) hcov,
    by decide +kernel⟩

end XavierDB.Perms
