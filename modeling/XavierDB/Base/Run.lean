import Mathlib.Data.List.Basic

/-!
# Runs of a step function

A run folds a step function over a list of actions; `Along step C s as` says
that the condition `C` holds at every step of the run from `s`. An invariant
kept by the steps that meet the condition holds at the end of such a run. Steps
may answer; related machines that answer alike give the same answers.
-/

namespace XavierDB.Run

variable {σ τ α ρ : Type}

/-- Every step of the run meets the condition. -/
def Along (step : σ → α → σ) (C : σ → α → Prop) : σ → List α → Prop
  | _, [] => True
  | s, a :: as => C s a ∧ Along step C (step s a) as

/-- The invariant rule for runs. -/
theorem foldl_inv {step : σ → α → σ} {C : σ → α → Prop} {I : σ → Prop}
    (hstep : ∀ s a, I s → C s a → I (step s a)) {s : σ} {as : List α} (h : I s)
    (hc : Along step C s as) : I (as.foldl step s) := by
  induction as generalizing s with
  | nil => exact h
  | cons a as ih => exact ih (hstep s a h hc.1) hc.2

/-- Where the condition on a step says exactly when the invariant is kept, the
invariant holds all along a run exactly when all its steps meet the condition. -/
theorem foldl_inv_iff {step : σ → α → σ} {C : σ → α → Prop} {I : σ → Prop}
    (hstep : ∀ s a, I s → (I (step s a) ↔ C s a)) {s : σ} {as : List α} (h : I s) :
    (∀ bs, bs <+: as → I (bs.foldl step s)) ↔ Along step C s as := by
  induction as generalizing s with
  | nil =>
    refine iff_of_true (fun bs hbs => ?_) trivial
    rw [List.prefix_nil.mp hbs]
    exact h
  | cons a as ih =>
    rw [Along]
    constructor
    · intro hall
      have hnext : I (step s a) := hall [a] (List.prefix_cons_inj a |>.mpr List.nil_prefix)
      exact ⟨(hstep s a h).mp hnext,
        (ih hnext).mp fun bs hbs => hall (a :: bs) ((List.prefix_cons_inj a).mpr hbs)⟩
    · rintro ⟨hc, has⟩ bs hbs
      cases bs with
      | nil => exact h
      | cons b bs =>
        obtain ⟨rfl, hrest⟩ := List.cons_prefix_cons.mp hbs
        exact (ih ((hstep s b h).mpr hc)).mpr has bs hrest

theorem along_append {step : σ → α → σ} {C : σ → α → Prop} {s : σ} {as bs : List α} :
    Along step C s (as ++ bs) ↔ Along step C s as ∧ Along step C (as.foldl step s) bs := by
  induction as generalizing s with
  | nil => exact (and_iff_right trivial).symm
  | cons a as ih => rw [List.cons_append, Along, Along, ih, List.foldl_cons, and_assoc]

/-! ## Answers -/

/-- The answers of a run. -/
def replies (step : σ → α → σ × ρ) : σ → List α → List ρ
  | _, [] => []
  | s, a :: as => (step s a).2 :: replies step (step s a).1 as

def last (step : σ → α → σ × ρ) (s : σ) (as : List α) : σ := as.foldl (fun s a => (step s a).1) s

/-- The simulation rule. -/
theorem simulate {step : σ → α → σ × ρ} {step' : τ → α → τ × ρ} {R : σ → τ → Prop}
    {p : α → Prop}
    (hstep : ∀ s t a, p a → R s t → R (step s a).1 (step' t a).1 ∧ (step s a).2 = (step' t a).2)
    {s : σ} {t : τ} {as : List α} (hp : ∀ a ∈ as, p a) (h : R s t) :
    R (last step s as) (last step' t as) ∧ replies step s as = replies step' t as := by
  induction as generalizing s t with
  | nil => exact ⟨h, rfl⟩
  | cons a as ih =>
    rw [List.forall_mem_cons] at hp
    obtain ⟨hrel, hreply⟩ := hstep s t a hp.1 h
    obtain ⟨hlast, hreplies⟩ := ih hp.2 hrel
    exact ⟨hlast, by rw [replies, replies, hreply, hreplies]⟩

end XavierDB.Run
