import Mathlib.Data.List.Induction
import Mathlib.Order.Lattice

/-!
# Buckets of a stream

Items come in the order of their keys. The items of one key make a bucket, which
is summed up as they come and closed when the next key comes; then the buckets
that have expired are dropped from the front. What is there at any time is what
the whole stream would be summed up to, bucket by bucket, without the expired.
-/

namespace XavierDB

structure Buckets (κ β γ : Type) where
  closed : List (κ × γ)
  opened : Option (κ × β)

namespace Buckets

variable {α β γ κ : Type} [LinearOrder κ]

/-- How a stream is summed up: the key of an item, the sum of a bucket with its first item and
with one more, what is kept of it, and what has expired when a bucket is opened. -/
structure Scheme (α β γ κ : Type) where
  key : α → κ
  init : α → β
  add : β → α → β
  finish : β → γ
  expired : α → κ → Bool

variable (S : Scheme α β γ κ)

def empty : Buckets κ β γ := ⟨[], none⟩

def push (S : Scheme α β γ κ) (b : Buckets κ β γ) (x : α) : Buckets κ β γ :=
  match b.opened with
  | some (k, acc) =>
    if k = S.key x then { b with opened := some (k, S.add acc x) }
    else ⟨(b.closed ++ [(k, S.finish acc)]).dropWhile fun p => S.expired x p.1,
      some (S.key x, S.init x)⟩
  | none => ⟨b.closed.dropWhile fun p => S.expired x p.1, some (S.key x, S.init x)⟩

/-- The sum of a bucket of these items. -/
def Scheme.sum : List α → Option β
  | [] => none
  | x :: xs => some (xs.foldl S.add (S.init x))

/-- The items of a key. -/
def Scheme.bucket (xs : List α) (k : κ) : List α := xs.filter fun x => S.key x = k

/-- Later items have no smaller keys, and see expired what earlier ones saw. -/
structure Scheme.Before (x y : α) : Prop where
  key : S.key x ≤ S.key y
  expired : ∀ k, S.expired x k = true → S.expired y k = true

/-- What is expired is older than what is not. -/
def Scheme.Ordered : Prop := ∀ x k k', k ≤ k' → S.expired x k' = true → S.expired x k = true

/-! ## One item more -/

variable {S} {b : Buckets κ β γ} {xs : List α} {x o : α} {k : κ}

omit [LinearOrder κ] in
theorem sum_concat (xs : List α) (x : α) :
    S.sum (xs ++ [x]) = some (((S.sum xs).map fun acc => S.add acc x).getD (S.init x)) := by
  cases xs with
  | nil => rfl
  | cons y ys =>
    rw [List.cons_append, Scheme.sum, List.foldl_append, Scheme.sum]
    rfl

theorem bucket_concat : S.bucket (xs ++ [x]) k =
    if S.key x = k then S.bucket xs k ++ [x] else S.bucket xs k := by
  rw [Scheme.bucket, List.filter_append]
  split
  case isTrue h => rw [List.filter_cons_of_pos (by simpa using h), List.filter_nil, Scheme.bucket]
  case isFalse h =>
    rw [List.filter_cons_of_neg (by simpa using h), List.filter_nil, List.append_nil, Scheme.bucket]

/-- What is left of a sorted list when the expired are dropped from its front. -/
theorem mem_dropWhile {p : κ × γ → Bool} {l : List (κ × γ)}
    (hsorted : l.Pairwise fun a b => a.1 < b.1)
    (hp : ∀ a ∈ l, ∀ b ∈ l, a.1 < b.1 → p b = true → p a = true) (q : κ × γ) :
    q ∈ l.dropWhile p ↔ q ∈ l ∧ p q = false := by
  induction l with
  | nil => simp
  | cons a l ih =>
    rw [List.pairwise_cons] at hsorted
    by_cases ha : p a = true
    · have hrest := ih hsorted.2 fun b hb c hc =>
        hp b (List.mem_cons_of_mem _ hb) c (List.mem_cons_of_mem _ hc)
      rw [List.dropWhile_cons_of_pos ha, hrest, List.mem_cons]
      refine ⟨fun ⟨hq, hpq⟩ => ⟨.inr hq, hpq⟩, fun ⟨hq, hpq⟩ => ⟨hq.resolve_left ?_, hpq⟩⟩
      rintro rfl
      rw [ha] at hpq
      cases hpq
    · rw [List.dropWhile_cons_of_neg ha]
      refine ⟨fun hq => ⟨hq, ?_⟩, And.left⟩
      rw [Bool.eq_false_iff]
      intro hpq
      rcases List.mem_cons.mp hq with rfl | hq'
      · exact ha hpq
      · exact ha (hp a List.mem_cons_self q hq (hsorted.1 q hq') hpq)

/-! ## What is there -/

variable (S) in
/-- The buckets of `xs`; `o` opened the last one. -/
structure Holds (b : Buckets κ β γ) (xs : List α) (o : α) : Prop where
  opened : b.opened = (S.sum (S.bucket xs (S.key o))).map fun acc => (S.key o, acc)
  mem : o ∈ xs
  le : ∀ x ∈ xs, S.key x ≤ S.key o
  sorted : b.closed.Pairwise fun p q => p.1 < q.1
  closed : ∀ k c, (k, c) ∈ b.closed ↔ k < S.key o ∧ S.expired o k = false ∧
    ∃ acc, S.sum (S.bucket xs k) = some acc ∧ c = S.finish acc

theorem exists_sum (h : x ∈ xs) : ∃ acc, S.sum (S.bucket xs (S.key x)) = some acc := by
  have hmem : x ∈ S.bucket xs (S.key x) := List.mem_filter.mpr ⟨h, by simp⟩
  generalize S.bucket xs (S.key x) = ys at hmem
  cases ys with
  | nil => cases hmem
  | cons y ys => exact ⟨_, rfl⟩

theorem exists_of_sum {acc : β} (h : S.sum (S.bucket xs k) = some acc) : ∃ x ∈ xs, S.key x = k := by
  cases hys : S.bucket xs k with
  | nil => rw [hys] at h; cases h
  | cons y ys =>
    have hy : y ∈ S.bucket xs k := by rw [hys]; exact List.mem_cons_self
    obtain ⟨hmem, hkey⟩ := List.mem_filter.mp hy
    exact ⟨y, hmem, of_decide_eq_true hkey⟩

theorem le_of_sum (h : Holds S b xs o) {acc : β} (hacc : S.sum (S.bucket xs k) = some acc) :
    k ≤ S.key o := by
  obtain ⟨y, hy, rfl⟩ := exists_of_sum hacc
  exact h.le y hy

theorem Holds.push (h : Holds S b xs o) (hS : S.Ordered) (hx : S.Before o x) :
    Holds S (push S b x) (xs ++ [x]) (if S.key o = S.key x then o else x) := by
  obtain ⟨acc, hacc⟩ := exists_sum (S := S) h.mem
  have hopened : b.opened = some (S.key o, acc) := by rw [h.opened, hacc]; rfl
  unfold Buckets.push
  rw [hopened]
  dsimp only
  split
  case isTrue hkey =>
    constructor
    · rw [bucket_concat, if_pos hkey.symm, sum_concat, hacc]
      rfl
    · exact List.mem_append_left _ h.mem
    · intro y hy
      rcases List.mem_append.mp hy with hy | hy
      · exact h.le y hy
      · rw [List.mem_singleton.mp hy, hkey]
    · exact h.sorted
    · intro k c
      rw [h.closed, bucket_concat]
      refine and_congr_right fun hk => ?_
      rw [if_neg fun hxk => hk.ne (hxk.symm.trans hkey.symm)]
  case isFalse hkey =>
    have hlt : S.key o < S.key x := lt_of_le_of_ne hx.key hkey
    have hsorted : (b.closed ++ [(S.key o, S.finish acc)]).Pairwise fun p q => p.1 < q.1 := by
      rw [List.pairwise_append]
      refine ⟨h.sorted, List.pairwise_singleton _ _, fun p hp q hq => ?_⟩
      rw [List.mem_singleton.mp hq]
      exact ((h.closed p.1 p.2).mp hp).1
    constructor
    · rw [bucket_concat, if_pos rfl]
      have hnil : S.bucket xs (S.key x) = [] := by
        rw [Scheme.bucket, List.filter_eq_nil_iff]
        intro y hy
        simpa using ((h.le y hy).trans_lt hlt).ne
      rw [hnil]
      rfl
    · exact List.mem_append_right _ (List.mem_singleton_self x)
    · intro y hy
      rcases List.mem_append.mp hy with hy | hy
      · exact (h.le y hy).trans hx.key
      · rw [List.mem_singleton.mp hy]
    · exact hsorted.sublist (List.dropWhile_sublist _)
    · intro k c
      rw [mem_dropWhile hsorted (fun p _ q _ hpq => hS x p.1 q.1 hpq.le), List.mem_append,
        List.mem_singleton, h.closed, bucket_concat]
      constructor
      · rintro ⟨⟨hk, -, acc', hacc', hc⟩ | heq, hexp⟩
        · have hkx := hk.trans hlt
          exact ⟨hkx, hexp, acc', by rw [if_neg hkx.ne']; exact hacc', hc⟩
        · obtain ⟨rfl, rfl⟩ := Prod.mk.inj heq
          exact ⟨hlt, hexp, acc, by rw [if_neg hlt.ne']; exact hacc, rfl⟩
      · rintro ⟨hk, hexp, acc', hacc', hc⟩
        rw [if_neg hk.ne'] at hacc'
        refine ⟨?_, hexp⟩
        rcases (le_of_sum h hacc').lt_or_eq with hko | rfl
        · refine .inl ⟨hko, ?_, acc', hacc', hc⟩
          rw [Bool.eq_false_iff]
          intro hexpo
          rw [hx.expired k hexpo] at hexp
          cases hexp
        · rw [hacc] at hacc'
          rw [hc, Option.some.inj hacc']
          exact .inr rfl

end Buckets

end XavierDB
