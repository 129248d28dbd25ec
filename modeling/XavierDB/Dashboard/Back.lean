import XavierDB.Dashboard.Logs

/-!
# Back to the first line (`src/assets/ts/view-logs.ts`)

The tab pages back until the first line is loaded or it holds as much as it
retains. A tab that is full does not page back any more, so that it does not drop
the pages it asks for and ask for them again. A call made when the tab has been left
throws, and the tab never pages back again.
-/

namespace XavierDB.Dashboard

open Log Publish

variable {files sizeBytes : ℕ} {regExp : String → Option (String → Bool)} {es : List LogEntry}
  {t : Tab} {d : LogPage} {ι : Type} [DecidableEq ι] {s : State ι Shared Call} {i : ι}

/-- A call for an older page, answered at once. -/
def round (i : ι) : List (ι × Act) := [(i, .fetchOlder), (i, .answer), (i, .deliver)]

/-- Busy with no call that will end. -/
def Stuck (s : State ι Shared Call) : Prop :=
  s.shared.tab.logBusy = true ∧ ∀ i, (s.phase i).isOlder = false

omit [DecidableEq ι] in
theorem Stuck.canFetch (h : Stuck s) : s.shared.tab.canFetch = false := by
  simp [Tab.canFetch, h.1]

/-- A base page may still come when the tab has been left; a call for an older one is then
the last. -/
theorem stuck_of_fetchOlder (h : Inv regExp files s) (hi : s.phase i = .idle)
    (hcan : s.shared.tab.canFetch = true) (hbox : s.shared.tab.logsBox = none) :
    Stuck (step regExp files sizeBytes s (i, .fetchOlder)) := by
  have hcall : step regExp files sizeBytes s (i, .fetchOlder) =
      s.put i { s.shared with tab := { s.shared.tab with logBusy := true } } .done := by
    unfold step Publish.step
    rw [hi]
    dsimp only [advance]
    rw [if_pos hcan, hbox]
    rfl
  have hidle : ∀ j, (s.phase j).isOlder = false := by
    intro j
    rw [← Bool.not_eq_true]
    intro hj
    simp [Tab.canFetch, h.busy j hj] at hcan
  rw [hcall]
  exact ⟨rfl, State.forall_put (fun _ c => Call.isOlder c = false) rfl fun j _ => hidle j⟩

theorem stuck_step (h : Stuck s) (a : ι × Act) : Stuck (step regExp files sizeBytes s a) := by
  obtain ⟨i, a⟩ := a
  have hput : ∀ {sh : Shared} {c : Call}, sh.tab.logBusy = true → c.isOlder = false →
      Stuck (s.put i sh c) := fun hbusy hc =>
    ⟨hbusy, State.forall_put (fun _ c => Call.isOlder c = false) hc fun j _ => h.2 j⟩
  have hstep : ∀ c r, c.isOlder = false → advance regExp files sizeBytes a s.shared c = r →
      Stuck (s.put i r.1 r.2) := by
    intro c r hc hr
    unfold advance at hr
    split at hr
    case h_7 =>
      rw [if_neg (by simp [h.canFetch])] at hr
      subst hr
      exact hput h.1 rfl
    case h_9 => cases hc
    case h_11 => cases hc
    case h_13 => cases hc
    all_goals
      subst hr
      exact hput h.1 hc
  exact hstep _ _ (h.2 i) rfl

/-- The tab never pages back again. -/
theorem stuck_run (h : Stuck s) (acts : List (ι × Act)) :
    (acts.foldl (step regExp files sizeBytes) s).shared.tab.canFetch = false := by
  induction acts generalizing s with
  | nil => exact h.canFetch
  | cons a acts ih => exact ih (stuck_step h a)

end XavierDB.Dashboard
