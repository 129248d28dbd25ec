import Mathlib.Algebra.BigOperators.Group.Finset.Basic
import XavierDB.Base.Run

/-!
# Requests that publish copies of a shared value

Requests share a state and each have a phase of their own; a run interleaves
their steps. Some of them change a shared value by copy: they edit a copy of it,
put the copy in a file and then publish it. A `Reading` says which value is
shared, what the file holds and which copies are around; `Inv` is what holds as
long as nobody publishes while somebody else has a copy.
-/

namespace XavierDB.Publish

variable {ι σ φ α M : Type}

/-! ## Interleaved requests -/

structure State (ι σ φ : Type) where
  shared : σ
  phase : ι → φ

/-- Request `i` leaves the shared state and its own phase as given. -/
def State.put [DecidableEq ι] (s : State ι σ φ) (i : ι) (sh : σ) (ph : φ) : State ι σ φ :=
  ⟨sh, fun j => if j = i then ph else s.phase j⟩

/-- One step of a request, by what it does to the shared state and its phase. -/
def step [DecidableEq ι] (advance : ι → α → σ → φ → σ × φ) (s : State ι σ φ) (a : ι × α) :
    State ι σ φ :=
  let r := advance a.1 a.2 s.shared (s.phase a.1)
  s.put a.1 r.1 r.2

def run [DecidableEq ι] (advance : ι → α → σ → φ → σ × φ) (s : State ι σ φ)
    (acts : List (ι × α)) : State ι σ φ :=
  acts.foldl (step advance) s

section

variable [DecidableEq ι] {s : State ι σ φ} {i : ι} {sh : σ} {ph : φ}

@[simp] theorem State.put_shared : (s.put i sh ph).shared = sh := rfl

@[simp] theorem State.put_self : (s.put i sh ph).phase i = ph := if_pos rfl

@[simp] theorem State.put_put {sh' : σ} {ph' : φ} :
    (s.put i sh ph).put i sh' ph' = s.put i sh' ph' := by
  refine congrArg (State.mk sh') (funext fun j => ?_)
  by_cases hj : j = i
  · simp [hj]
  · simp [hj, State.put]

theorem State.put_of_ne {j : ι} (h : j ≠ i) : (s.put i sh ph).phase j = s.phase j := if_neg h

/-- What holds of the new phase and of every other one holds after the step. -/
theorem State.forall_put (P : ι → φ → Prop) (hself : P i ph)
    (hothers : ∀ j, j ≠ i → P j (s.phase j)) (j : ι) : P j ((s.put i sh ph).phase j) := by
  by_cases hj : j = i
  · rw [hj, State.put_self]
    exact hself
  · rw [State.put_of_ne hj]
    exact hothers j hj

/-- What the phases of some requests add up to, when one of them moves on. -/
theorem State.sum_put (f : φ → ℕ) {is : Finset ι} (hi : i ∈ is) :
    (∑ j ∈ is, f ((s.put i sh ph).phase j)) + f (s.phase i) =
      (∑ j ∈ is, f (s.phase j)) + f ph := by
  have hrest : ∑ j ∈ is.erase i, f ((s.put i sh ph).phase j) = ∑ j ∈ is.erase i, f (s.phase j) :=
    Finset.sum_congr rfl fun j hj => by rw [State.put_of_ne (Finset.ne_of_mem_erase hj)]
  rw [← Finset.add_sum_erase is _ hi, ← Finset.add_sum_erase is (fun j => f (s.phase j)) hi, hrest,
    State.put_self]
  omega

/-- A request that takes no step keeps its phase. -/
theorem phase_run_of_ne {advance : ι → α → σ → φ → σ × φ} {acts : List (ι × α)}
    (h : ∀ a ∈ acts, a.1 ≠ i) : (run advance s acts).phase i = s.phase i := by
  induction acts generalizing s with
  | nil => rfl
  | cons a acts ih =>
    rw [List.forall_mem_cons] at h
    have hrest : (run advance (step advance s a) acts).phase i = (step advance s a).phase i :=
      ih h.2
    exact hrest.trans (State.put_of_ne h.1.symm)

end

/-! ## How a phase was entered -/

section

variable [DecidableEq ι] {advance : ι → α → σ → φ → σ × φ} {s : State ι σ φ} {acts : List (ι × α)}
  {i : ι} {P : φ → Prop}

/-- The state after `k` steps of a run. -/
def moment (advance : ι → α → σ → φ → σ × φ) (s : State ι σ φ) (acts : List (ι × α)) (k : ℕ) :
    State ι σ φ := run advance s (acts.take k)

/-- What a request has come to by some moment, one of its own steps before took it to. -/
theorem exists_entry {n : ℕ} (h0 : ¬P (s.phase i)) (h : P ((moment advance s acts n).phase i)) :
    ∃ k a, k < n ∧ acts[k]? = some (i, a) ∧ ¬P ((moment advance s acts k).phase i) ∧
      P (advance i a (moment advance s acts k).shared ((moment advance s acts k).phase i)).2 := by
  induction n with
  | zero => exact absurd h h0
  | succ n ih =>
    by_cases hn : P ((moment advance s acts n).phase i)
    · obtain ⟨k, a, hk, hrest⟩ := ih hn
      exact ⟨k, a, by omega, hrest⟩
    · rw [moment, List.take_add_one] at h
      cases ha : acts[n]? with
      | none =>
        rw [ha, Option.toList_none, List.append_nil] at h
        exact absurd h hn
      | some b =>
        obtain ⟨j, a⟩ := b
        rw [ha, Option.toList_some, run, List.foldl_append, List.foldl_cons, List.foldl_nil] at h
        change P ((State.put (moment advance s acts n) j _ _).phase i) at h
        by_cases hj : i = j
        · subst hj
          rw [State.put_self] at h
          exact ⟨n, a, by omega, ha, hn, h⟩
        · rw [State.put_of_ne hj] at h
          exact absurd h hn

end

/-! ## Readings -/

structure Reading (ι σ φ M : Type) where
  /-- the shared value -/
  mem : σ → M
  /-- the value in the file -/
  file : σ → Option M
  /-- the copy a request holds -/
  copy : φ → Option M
  /-- the copy it has put in the file and not yet published -/
  onDisk : φ → Option M
  /-- the copies a request makes of a value -/
  edit : ι → M → M → Prop
  /-- what a request relies on -/
  asks : ι → φ → M → Prop
  /-- once a phase is so, the file is in step -/
  settled : φ → Prop
  copy_of_onDisk : ∀ ph p, onDisk ph = some p → copy ph = some p

/-- A copy is an edit of the shared value, and the file, once in step, holds the
shared value or the last copy put there. -/
structure Inv (R : Reading ι σ φ M) (s : State ι σ φ) : Prop where
  asks : ∀ i, R.asks i (s.phase i) (R.mem s.shared)
  copy : ∀ i p, R.copy (s.phase i) = some p → R.edit i (R.mem s.shared) p
  synced : (∀ i, R.onDisk (s.phase i) = none) → (∃ i, R.settled (s.phase i)) →
    R.file s.shared = some (R.mem s.shared)
  ahead : ∀ i, R.onDisk (s.phase i) ≠ none →
    ∃ j q, R.onDisk (s.phase j) = some q ∧ R.file s.shared = some q

/-- No other request holds a copy. -/
def Alone (R : Reading ι σ φ M) (s : State ι σ φ) (i : ι) : Prop :=
  ∀ j, j ≠ i → R.copy (s.phase j) = none

variable {R : Reading ι σ φ M} {s : State ι σ φ}

/-- Nobody holds a copy. -/
theorem Inv.start (hasks : ∀ i, R.asks i (s.phase i) (R.mem s.shared))
    (hcopy : ∀ i, R.copy (s.phase i) = none)
    (hfile : (∃ i, R.settled (s.phase i)) → R.file s.shared = some (R.mem s.shared)) :
    Inv R s where
  asks := hasks
  copy i p hp := by rw [hcopy i] at hp; cases hp
  synced _ := hfile
  ahead i hi := by
    obtain ⟨q, hq⟩ := Option.ne_none_iff_exists'.mp hi
    have := R.copy_of_onDisk _ q hq
    rw [hcopy i] at this
    cases this

/-- Nobody else has a copy, so the file holds the one request `i` put there. -/
theorem Inv.file_of_alone (h : Inv R s) {i : ι} (hi : Alone R s i) {p : M}
    (hp : R.onDisk (s.phase i) = some p) : R.file s.shared = some p := by
  obtain ⟨j, q, hq, hfile⟩ := h.ahead i (by rw [hp]; exact Option.some_ne_none p)
  by_cases hj : j = i
  · rw [hj, hp] at hq
    exact Option.some.inj hq ▸ hfile
  · have := R.copy_of_onDisk _ q hq
    rw [hi j hj] at this
    cases this

variable [DecidableEq ι] {i : ι} {sh : σ} {ph : φ}

/-- A step that changes neither the value nor the file: the request only moves on. -/
theorem Inv.move (h : Inv R s) (hmem : R.mem sh = R.mem s.shared)
    (hfile : R.file sh = R.file s.shared) (hdisk : R.onDisk ph = R.onDisk (s.phase i))
    (hsettled : R.settled ph → R.settled (s.phase i)) (hasks : R.asks i ph (R.mem sh))
    (hcopy : ∀ p, R.copy ph = some p → R.edit i (R.mem sh) p) :
    Inv R (s.put i sh ph) := by
  have hsame : ∀ j, R.onDisk ((s.put i sh ph).phase j) = R.onDisk (s.phase j) :=
    State.forall_put (fun j ph => R.onDisk ph = R.onDisk (s.phase j)) hdisk fun _ _ => rfl
  constructor
  case asks =>
    apply State.forall_put (fun j ph => R.asks j ph (R.mem sh)) hasks
    intro j _
    rw [hmem]
    exact h.asks j
  case copy =>
    apply State.forall_put (fun j ph => ∀ p, R.copy ph = some p → R.edit j (R.mem sh) p) hcopy
    intro j _
    rw [hmem]
    exact h.copy j
  case synced =>
    intro hno hex
    rw [State.put_shared, hfile, hmem]
    apply h.synced fun j => (hsame j).symm.trans (hno j)
    obtain ⟨j, hj⟩ := hex
    by_cases hji : j = i
    · rw [hji, State.put_self] at hj
      exact ⟨i, hsettled hj⟩
    · rw [State.put_of_ne hji] at hj
      exact ⟨j, hj⟩
  case ahead =>
    intro j hj
    rw [hsame] at hj
    obtain ⟨j', q, hq, hp⟩ := h.ahead j hj
    exact ⟨j', q, (hsame j').trans hq, by rw [State.put_shared, hfile]; exact hp⟩

/-- A request that has nothing left to do. -/
theorem Inv.stay (h : Inv R s) (hph : s.phase i = ph) : Inv R (s.put i s.shared ph) := by
  subst hph
  exact h.move rfl rfl rfl id (h.asks i) (h.copy i)

/-- A request puts its copy in the file. -/
theorem Inv.write (h : Inv R s) {p : M} (hmem : R.mem sh = R.mem s.shared)
    (hfile : R.file sh = some p) (hdisk : R.onDisk ph = some p)
    (hasks : R.asks i ph (R.mem sh)) (hcopy : R.copy (s.phase i) = some p) :
    Inv R (s.put i sh ph) := by
  have hsame : ∀ j, R.copy ((s.put i sh ph).phase j) = R.copy (s.phase j) := by
    apply State.forall_put fun j ph => R.copy ph = R.copy (s.phase j)
    · rw [hcopy]
      exact R.copy_of_onDisk ph p hdisk
    · exact fun _ _ => rfl
  constructor
  case asks =>
    apply State.forall_put (fun j ph => R.asks j ph (R.mem sh)) hasks
    intro j _
    rw [hmem]
    exact h.asks j
  case copy =>
    intro j q hq
    rw [State.put_shared, hmem]
    exact h.copy j q ((hsame j).symm.trans hq)
  case synced =>
    intro hno _
    have := hno i
    rw [State.put_self, hdisk] at this
    cases this
  case ahead => exact fun _ _ => ⟨i, p, by rw [State.put_self]; exact hdisk, hfile⟩

/-- The value and the file are replaced while nobody else holds a copy. -/
theorem Inv.publish (h : Inv R s) (hi : Alone R s i) (hfile : R.file sh = some (R.mem sh))
    (hcopy : R.copy ph = none) (hasks : R.asks i ph (R.mem sh))
    (hkeep : ∀ j, j ≠ i → R.asks j (s.phase j) (R.mem s.shared) →
      R.asks j (s.phase j) (R.mem sh)) :
    Inv R (s.put i sh ph) := by
  apply Inv.start
  · exact State.forall_put (fun j ph => R.asks j ph (R.mem sh)) hasks fun j hj =>
      hkeep j hj (h.asks j)
  · exact State.forall_put (fun _ ph => R.copy ph = none) hcopy hi
  · exact fun _ => hfile

end XavierDB.Publish
