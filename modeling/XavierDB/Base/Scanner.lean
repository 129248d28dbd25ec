import Mathlib.Data.List.Infix

/-!
# Scanners

A scanner reads a list from left to right, puts a text in the place of each token
it meets and keeps what lies between. What the texts do not hold was kept, element
by element: `infix_scan_iff` finds it in the list that was read.
-/

namespace XavierDB

structure Scanner (α : Type) where
  /-- The token at the front of a list: the text in its place, and what follows it. -/
  token : List α → Option (List α × List α)
  text_ne : ∀ {s text rest}, token s = some (text, rest) → text ≠ []
  shorter : ∀ {s text rest}, token s = some (text, rest) → rest.length < s.length

namespace Scanner

variable {α : Type} (S : Scanner α)

/-- What the scanner makes of a list. -/
def scan : List α → List α
  | [] => []
  | c :: s =>
    match h : S.token (c :: s) with
    | some (text, rest) =>
      have := S.shorter h
      text ++ scan rest
    | none => c :: scan s
termination_by s => s.length
decreasing_by
  · exact this
  · exact Nat.lt_succ_self _

/-- The positions the scanner comes to, each by the list from there on. -/
inductive Reaches : List α → List α → Prop where
  | here (s : List α) : Reaches s s
  | token {c : α} {s text rest t : List α} : S.token (c :: s) = some (text, rest) →
      Reaches rest t → Reaches (c :: s) t
  | keep {c : α} {s t : List α} : S.token (c :: s) = none → Reaches s t → Reaches (c :: s) t

/-- No token starts in `q` where `t` follows. -/
def Keeps : List α → List α → Prop
  | [], _ => True
  | c :: q, t => S.token (c :: (q ++ t)) = none ∧ Keeps q t

instance decidableKeeps : (q t : List α) → Decidable (S.Keeps q t)
  | [], _ => .isTrue trivial
  | _ :: q, t =>
    have := decidableKeeps q t
    inferInstanceAs (Decidable (_ ∧ _))

/-- The element is in no text the scanner puts in. -/
def Foreign (c : α) : Prop := ∀ {s text rest}, S.token s = some (text, rest) → c ∉ text

variable {S} {c : α} {s t q text rest : List α}

theorem scan_of_some (h : S.token (c :: s) = some (text, rest)) :
    S.scan (c :: s) = text ++ S.scan rest := by
  rw [scan]
  split
  case h_1 h' =>
    obtain ⟨rfl, rfl⟩ := Prod.mk.inj (Option.some.inj (h.symm.trans h'))
    rfl
  case h_2 h' => cases h.symm.trans h'

theorem scan_of_none (h : S.token (c :: s) = none) : S.scan (c :: s) = c :: S.scan s := by
  rw [scan]
  split
  case h_1 h' => cases h.symm.trans h'
  case h_2 => rfl

theorem keeps_iff : S.Keeps q t ↔
    ∀ u v, q = u ++ v → v ≠ [] → S.token (v ++ t) = none := by
  induction q with
  | nil =>
    refine iff_of_true trivial fun u v h hv => absurd ?_ hv
    exact (List.append_eq_nil_iff.mp h.symm).2
  | cons c q ih =>
    rw [Keeps, ih]
    constructor
    · rintro ⟨hc, hq⟩ u v h hv
      cases u with
      | nil =>
        obtain rfl : v = c :: q := h.symm
        exact hc
      | cons d u => exact hq u v (List.cons.inj h).2 hv
    · intro h
      refine ⟨h [] (c :: q) rfl (List.cons_ne_nil _ _), fun u v huv hv => ?_⟩
      exact h (c :: u) v (by rw [huv, List.cons_append]) hv

/-- What is kept goes into the output as it stands. -/
theorem scan_append (h : S.Keeps q t) : S.scan (q ++ t) = q ++ S.scan t := by
  induction q with
  | nil => rfl
  | cons c q ih => rw [List.cons_append, scan_of_none h.1, ih h.2, List.cons_append]

/-- The output starts with foreign elements only if they were kept. -/
theorem exists_of_prefix_scan (hq : ∀ c ∈ q, S.Foreign c) (h : q <+: S.scan s) :
    ∃ t, s = q ++ t ∧ S.Keeps q t := by
  induction q generalizing s with
  | nil => exact ⟨s, rfl, trivial⟩
  | cons c q ih =>
    rw [List.forall_mem_cons] at hq
    cases s with
    | nil =>
      rw [scan] at h
      cases List.prefix_nil.mp h
    | cons d s =>
      cases htoken : S.token (d :: s) with
      | some p =>
        -- the output starts with a text, the foreign element is not in it
        obtain ⟨text, rest⟩ := p
        obtain ⟨x, text', rfl⟩ := List.exists_cons_of_ne_nil (S.text_ne htoken)
        rw [scan_of_some htoken, List.cons_append, List.cons_prefix_cons] at h
        exact absurd (h.1 ▸ List.mem_cons_self) (hq.1 htoken)
      | none =>
        rw [scan_of_none htoken, List.cons_prefix_cons] at h
        obtain ⟨rfl, h⟩ := h
        obtain ⟨t, rfl, ht⟩ := ih hq.2 h
        exact ⟨t, rfl, htoken, ht⟩

theorem infix_of_infix_append (hne : q ≠ []) (hq : ∀ c ∈ q, c ∉ text) (h : q <:+: text ++ s) :
    q <:+: s := by
  obtain ⟨a, b, hab⟩ := h
  rw [List.append_assoc, List.append_eq_append_iff] at hab
  obtain ⟨x, htext, hx⟩ | ⟨x, -, rfl⟩ := hab
  · cases x with
    | nil => exact ⟨[], b, hx⟩
    | cons d x =>
      obtain ⟨c, q', rfl⟩ := List.exists_cons_of_ne_nil hne
      obtain ⟨rfl, -⟩ := List.cons.inj hx
      exact absurd (htext ▸ List.mem_append_right _ List.mem_cons_self) (hq c List.mem_cons_self)
  · exact ⟨x, b, by rw [List.append_assoc]⟩

/-- **Foreign elements in the output** were kept somewhere the scanner came to. -/
theorem infix_scan_iff (hne : q ≠ []) (hq : ∀ c ∈ q, S.Foreign c) :
    q <:+: S.scan s ↔ ∃ t, S.Reaches s (q ++ t) ∧ S.Keeps q t := by
  constructor
  · intro h
    induction s using scan.induct S with
    | case1 =>
      rw [scan] at h
      exact absurd (List.infix_nil.mp h) hne
    | case2 c s text rest htoken _ ih =>
      rw [scan_of_some htoken] at h
      obtain ⟨t, hreach, hkeep⟩ := ih (infix_of_infix_append hne (fun c hc => hq c hc htoken) h)
      exact ⟨t, .token htoken hreach, hkeep⟩
    | case3 c s htoken ih =>
      rw [scan_of_none htoken, List.infix_cons_iff, ← scan_of_none htoken] at h
      obtain h | h := h
      · obtain ⟨t, hs, hkeep⟩ := exists_of_prefix_scan hq h
        exact ⟨t, hs ▸ .here _, hkeep⟩
      · obtain ⟨t, hreach, hkeep⟩ := ih h
        exact ⟨t, .keep htoken hreach, hkeep⟩
  · rintro ⟨t, hreach, hkeep⟩
    generalize hqt : q ++ t = u at hreach
    induction hreach with
    | here s => exact ⟨[], S.scan t, by rw [← hqt, scan_append hkeep, List.nil_append]⟩
    | token htoken _ ih =>
      rw [scan_of_some htoken]
      exact (ih hqt).trans (List.suffix_append _ _).isInfix
    | keep htoken _ ih =>
      rw [scan_of_none htoken]
      exact List.infix_cons (ih hqt)

theorem mem_scan_iff (hc : S.Foreign c) :
    c ∈ S.scan s ↔ ∃ t, S.Reaches s (c :: t) ∧ S.token (c :: t) = none := by
  rw [← List.singleton_infix_iff,
    infix_scan_iff (List.cons_ne_nil _ _) (List.forall_mem_singleton.mpr hc)]
  exact exists_congr fun t => and_congr_right fun _ => and_iff_left trivial

end Scanner

end XavierDB
