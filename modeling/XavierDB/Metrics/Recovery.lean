import Mathlib.Algebra.Order.BigOperators.GroupWithZero.List
import XavierDB.Base.Clamped
import XavierDB.Metrics.Limit

/-!
# Recovery and load shedding (`src/metrics.rs`)

The limit of an app over a run of ticks, from any limit within its bounds, over
exact rationals: one clamp of the product of the factors. Enough calm ticks take
it back to the maximum and enough loaded ones down to the minimum, and what was
before has no effect any more.
-/

namespace XavierDB.Metrics

/-- The limit of an app after a run of ticks. -/
def after {F : Type} [Arith F] (P : Params F) (weight : F) (s : Option (LimitState F))
    (rs : List (Reading F)) : Option (LimitState F) :=
  rs.foldl (fun s r => some (updateLimit P weight (pressure r.cpuPct r.memPct) r s)) s

variable {P : Params ℚ} {w e : ℚ} {s s' : Option (LimitState ℚ)} {r : Reading ℚ}
  {rs : List (Reading ℚ)}

theorem after_concat : after P w s (rs ++ [r]) =
    some (updateLimit P w (pressure r.cpuPct r.memPct) r (after P w s rs)) := by
  simp [after]

/-- The last of a run's limits, if it has ticks. -/
theorem getLast?_ticks : (ticks P w s rs).getLast?.or s = after P w s rs := by
  induction rs generalizing s with
  | nil => rfl
  | cons r rs ih =>
    have ih := @ih (some (updateLimit P w (pressure r.cpuPct r.memPct) r s))
    rw [ticks, List.getLast?_cons, after, List.foldl_cons, ← after, ← ih]
    cases (ticks P w (some (updateLimit P w (pressure r.cpuPct r.memPct) r s)) rs).getLast? <;> rfl

/-! ## A run of ticks as a clamped run -/

/-- The load that `shrink` weighs, nothing while the app and the system are calm. -/
def Reading.load (P : Params ℚ) (r : Reading ℚ) : ℚ :=
  P.latencySensitivity * latErr P r.p50 + P.pressureSensitivity * pressure r.cpuPct r.memPct

def Reading.factor (P : Params ℚ) (r : Reading ℚ) : ℚ :=
  Metrics.factor P (shrink P (latErr P r.p50) (pressure r.cpuPct r.memPct))

/-- A tick before its clamp. -/
def Reading.move (P : Params ℚ) (r : Reading ℚ) (x : ℚ) : ℚ := x * r.factor P

theorem clamp_eq {lo hi : ℚ} (h : lo ≤ hi) (x : ℚ) :
    Exact.clamp lo hi x = Clamped.clamp lo hi x := by
  unfold Exact.clamp Clamped.clamp
  grind

theorem startOf_after (hP : P.Sanitized) : startOf P (after P w s rs) =
    Clamped.run (P.minLimit.toNat : ℚ) P.maxLimit.toNat (startOf P s)
      (rs.map (Reading.move P)) := by
  induction rs using List.reverseRecOn with
  | nil => rfl
  | append_singleton rs r ih =>
    rw [after_concat, startOf, internal_updateLimit, internal_eq, ih, clamp_eq (limits_le hP),
      List.map_append, List.map_singleton, Clamped.run_concat]
    rfl

theorem free_moves (x : ℚ) :
    Clamped.free x (rs.map (Reading.move P)) = x * (rs.map (Reading.factor P)).prod := by
  induction rs using List.reverseRecOn with
  | nil => simp [Clamped.free]
  | append_singleton rs r ih =>
    rw [List.map_append, List.map_singleton, Clamped.free_concat, ih, Reading.move, mul_assoc]
    simp

theorem load_nonneg (hP : P.Sanitized) (r : Reading ℚ) : 0 ≤ r.load P := by
  have hl := (@latErr_mono P _ _ (le_refl r.p50)).1
  have hp := (pressure_mono (le_refl r.cpuPct) (le_refl r.memPct)).1
  have := hP.latencySensitivity.1
  have := hP.pressureSensitivity.1
  unfold Reading.load
  positivity

theorem shrink_load :
    shrink P (latErr P r.p50) (pressure r.cpuPct r.memPct) = 1 / (1 + r.load P) := by
  rw [shrink_eq, Reading.load, add_assoc]

theorem factor_calm (h : r.load P = 0) : r.factor P = P.growthRate := by
  rw [Reading.factor, shrink_load, h, Metrics.factor, if_pos (by norm_num)]

theorem factor_loaded (he : 0 < e) (h : e ≤ r.load P) : r.factor P = 1 / (1 + r.load P) := by
  have hlt : 1 / (1 + r.load P) < 1 := by
    rw [div_lt_one] <;> linarith
  rw [Reading.factor, shrink_load, Metrics.factor, if_neg (by linarith)]

theorem factor_pos (hP : P.Sanitized) (r : Reading ℚ) : 0 < r.factor P := by
  rcases (load_nonneg hP r).eq_or_lt with h | h
  · rw [factor_calm h.symm]
    linarith [hP.growthRate.1]
  · rw [factor_loaded h le_rfl]
    positivity

theorem monotone_move (hP : P.Sanitized) : ∀ g ∈ rs.map (Reading.move P), Monotone g := by
  intro g hg
  obtain ⟨r, -, rfl⟩ := List.mem_map.mp hg
  exact fun x y h => mul_le_mul_of_nonneg_right h (factor_pos hP r).le

theorem startOf_mem (hP : P.Sanitized) (hs : ∀ l, s = some l → P.Within l) :
    (P.minLimit.toNat : ℚ) ≤ startOf P s ∧ startOf P s ≤ P.maxLimit.toNat := by
  cases s with
  | none => exact ⟨limits_le hP, le_rfl⟩
  | some l => exact (hs l rfl).1

/-- The limit after a tick says all of its state that the tick's start has a part in. -/
theorem updateLimit_congr {p : ℚ}
    (h : (updateLimit P w p r s).internal = (updateLimit P w p r s').internal) :
    updateLimit P w p r s = updateLimit P w p r s' := by
  cases s <;> cases s' <;> simp_all [updateLimit]

theorem after_congr (hne : rs ≠ []) (h : startOf P (after P w s rs) = startOf P (after P w s' rs)) :
    after P w s rs = after P w s' rs := by
  cases rs using List.reverseRecOn with
  | nil => exact absurd rfl hne
  | append_singleton rs r =>
    rw [after_concat, after_concat] at h ⊢
    rw [updateLimit_congr h]

/-! ## Any run -/

/-- **A run of ticks is one clamp of the product of its factors**, between the limits that the
same ticks lead to from the minimum and from the maximum; where these are one, the whole state
of the limit is the same from every start within the bounds. -/
theorem limit_run (hP : P.Sanitized) (hs : ∀ l, s = some l → P.Within l) {low : LimitState ℚ}
    (hlow : low.internal = P.minLimit.toNat) :
    startOf P (after P w s rs) = max (startOf P (after P w (some low) rs))
        (min (startOf P (after P w none rs)) (startOf P s * (rs.map (Reading.factor P)).prod)) ∧
      (startOf P (after P w (some low) rs) = startOf P (after P w none rs) → rs ≠ [] →
        after P w s rs = after P w none rs) := by
  have heq : startOf P (after P w s rs) = Clamped.clamp (startOf P (after P w (some low) rs))
      (startOf P (after P w none rs)) (startOf P s * (rs.map (Reading.factor P)).prod) := by
    obtain ⟨hlo, hhi⟩ := startOf_mem hP hs
    rw [startOf_after hP, startOf_after hP, startOf_after hP,
      Clamped.run_eq (limits_le hP) (monotone_move hP) hlo hhi, free_moves]
    simp only [startOf, hlow]
  refine ⟨heq, fun hmeet hne => after_congr hne ?_⟩
  rw [heq, hmeet, Clamped.clamp]
  exact max_eq_left (min_le_left _ _)

/-- A limit in the middle after a calm and a busy tick. -/
theorem limit_run_sample :
    let P := defaultParams.sanitize
    let at' (x : ℚ) : LimitState ℚ := ⟨x, 1, 0, 0, 1, 0, 0, 0⟩
    startOf P (after P 1 (some (at' 40)) [calm, busy]) =
      max (startOf P (after P 1 (some (at' 1)) [calm, busy]))
        (min (startOf P (after P 1 none [calm, busy]))
          (40 * ([calm, busy].map (Reading.factor P)).prod)) := by
  intro P at'
  refine (limit_run (P := P) defaultParams.sanitized_sanitize (fun l hl => ?_) rfl).1
  obtain rfl := Option.some.inj hl
  exact ⟨⟨by decide, by decide⟩, by decide, by decide⟩

/-! ## Calm and loaded runs -/

theorem prod_calm (h : ∀ r ∈ rs, r.load P = 0) :
    (rs.map (Reading.factor P)).prod = P.growthRate ^ rs.length := by
  rw [List.map_congr_left fun r hr => factor_calm (h r hr), List.map_const', List.prod_replicate]

theorem prod_loaded (hP : P.Sanitized) (he : 0 < e) (h : ∀ r ∈ rs, e ≤ r.load P) :
    (rs.map (Reading.factor P)).prod ≤ (1 / (1 + e)) ^ rs.length := by
  induction rs with
  | nil => simp
  | cons r rs ih =>
    rw [List.forall_mem_cons] at h
    have hfactor : r.factor P ≤ 1 / (1 + e) := by
      rw [factor_loaded he h.1]
      exact one_div_le_one_div_of_le (by linarith) (by linarith [h.1])
    have hprod : 0 ≤ (rs.map (Reading.factor P)).prod := by
      refine List.prod_nonneg fun f hf => ?_
      obtain ⟨r, -, rfl⟩ := List.mem_map.mp hf
      exact (factor_pos hP r).le
    rw [List.map_cons, List.prod_cons, List.length_cons, pow_succ']
    exact mul_le_mul hfactor (ih h.2) hprod (by positivity)

/-- Nothing that `lat_err` and `pressure` count from. -/
def Reading.Calm (P : Params ℚ) (r : Reading ℚ) : Prop :=
  r.p50 ≤ P.targetLatencyMs ∧ r.cpuPct ≤ 60 ∧ r.memPct ≤ 70

theorem Reading.Calm.load (h : r.Calm P) : r.load P = 0 := by
  obtain ⟨hp50, hcpu, hmem⟩ := h
  have hl : latErr P r.p50 = 0 := by
    rw [latErr_eq]
    exact max_eq_right (div_nonpos_of_nonpos_of_nonneg (by linarith) (by positivity))
  have hp : pressure r.cpuPct r.memPct = 0 := by
    rw [pressure_eq]
    exact max_eq_right (max_le (by linarith) (by linarith))
  rw [Reading.load, hl, hp, mul_zero, mul_zero, add_zero]

theorem exists_after (hne : rs ≠ []) : ∃ l, after P w s rs = some l ∧
    l.internal = startOf P (after P w s rs) ∧ l.enforced = enforced P w l.internal := by
  cases rs using List.reverseRecOn with
  | nil => exact absurd rfl hne
  | append_singleton rs r =>
    rw [after_concat]
    exact ⟨_, rfl, rfl, enforced_updateLimit _ _⟩

/-- Growth is stopped by the maximum only. -/
theorem startOf_calm (hP : P.Sanitized) (hs : ∀ l, s = some l → P.Within l)
    (h : ∀ r ∈ rs, r.Calm P) :
    startOf P (after P w s rs) =
      min ↑P.maxLimit.toNat (startOf P s * P.growthRate ^ rs.length) := by
  obtain ⟨hlo, hhi⟩ := startOf_mem hP hs
  have hmin : (0 : ℚ) ≤ P.minLimit.toNat := Nat.cast_nonneg _
  rw [startOf_after hP, (Clamped.run_eq_min (monotone_move hP) ?_ hlo hhi).1, free_moves,
    prod_calm fun r hr => (h r hr).load]
  intro g hg x hx
  obtain ⟨r, hr, rfl⟩ := List.mem_map.mp hg
  rw [Reading.move, factor_calm (h r hr).load]
  exact le_mul_of_one_le_right (hmin.trans hx) hP.growthRate.1

/-- Shrinkage is stopped by the minimum only. -/
theorem startOf_loaded (hP : P.Sanitized) (hs : ∀ l, s = some l → P.Within l) (he : 0 < e)
    (h : ∀ r ∈ rs, e ≤ r.load P) :
    startOf P (after P w s rs) ≤ max ↑P.minLimit.toNat (startOf P s / (1 + e) ^ rs.length) := by
  obtain ⟨hlo, hhi⟩ := startOf_mem hP hs
  have hmin : (0 : ℚ) ≤ P.minLimit.toNat := Nat.cast_nonneg _
  rw [startOf_after hP, (Clamped.run_eq_max (monotone_move hP) ?_ hlo hhi).1, free_moves]
  · refine max_le_max le_rfl ?_
    rw [div_eq_mul_inv, ← inv_pow, ← one_div]
    exact mul_le_mul_of_nonneg_left (prod_loaded hP he h) (hmin.trans hlo)
  · intro g hg x hx
    obtain ⟨r, hr, rfl⟩ := List.mem_map.mp hg
    have hload : 0 < r.load P := he.trans_le (h r hr)
    rw [Reading.move, factor_loaded he (h r hr)]
    refine mul_le_of_le_one_right (hmin.trans hx) ?_
    rw [div_le_one] <;> linarith

/-- **Recovery and shedding take a bounded number of ticks**, from any limit within the bounds.
Over calm ticks the limit grows by the growth rate alone, and it is at the maximum once the
growth is the ratio of the bounds; over ticks of a load of `e` or more it falls by `1 + e` at
least, and it is at the minimum once that is the ratio. -/
theorem limit_recovers (hP : P.Sanitized) (hs : ∀ l, s = some l → P.Within l) (hne : rs ≠ []) :
    ∃ l, after P w s rs = some l ∧ l.enforced = enforced P w l.internal ∧
      ((∀ r ∈ rs, r.Calm P) →
        l.internal = min ↑P.maxLimit.toNat (startOf P s * P.growthRate ^ rs.length) ∧
        ((P.maxLimit.toNat : ℚ) ≤ P.minLimit.toNat * P.growthRate ^ rs.length →
          l.internal = P.maxLimit.toNat)) ∧
      ∀ e, 0 < e → (∀ r ∈ rs, e ≤ r.load P) →
        l.internal ≤ max ↑P.minLimit.toNat (startOf P s / (1 + e) ^ rs.length) ∧
        ((P.maxLimit.toNat : ℚ) ≤ P.minLimit.toNat * (1 + e) ^ rs.length →
          l.internal = P.minLimit.toNat) := by
  obtain ⟨l, hl, hinternal, henforced⟩ := @exists_after P w s rs hne
  obtain ⟨hlo, hhi⟩ := startOf_mem hP hs
  refine ⟨l, hl, henforced, fun hcalm => ?_, fun e he hload => ?_⟩
  · have hgrown := @startOf_calm P w s rs hP hs hcalm
    rw [← hinternal] at hgrown
    refine ⟨hgrown, fun hratio => hgrown.trans (min_eq_left (hratio.trans ?_))⟩
    have hgrow := hP.growthRate.1
    gcongr
  · have hfallen := @startOf_loaded P w e s rs hP hs he hload
    rw [← hinternal] at hfallen
    refine ⟨hfallen, fun hratio => le_antisymm (hfallen.trans (max_le le_rfl ?_)) ?_⟩
    · rw [div_le_iff₀ (by positivity)]
      exact hhi.trans hratio
    · rw [hinternal, startOf_after hP]
      exact (Clamped.run_mem (limits_le hP) hlo hhi).1

/-- From the bottom to the top in 38 calm ticks, and down again in 5 busy ones. -/
theorem limit_recovers_default :
    let P := defaultParams.sanitize
    let low : LimitState ℚ := ⟨1, 1, 0, 0, 1, 0, 0, 0⟩
    ((after P 1 (some low) (List.replicate 38 calm)).map LimitState.internal = some 200) ∧
      (after P 1 none (List.replicate 5 busy)).map LimitState.internal = some 1 := by
  intro P low
  have hP : P.Sanitized := defaultParams.sanitized_sanitize
  have hmin : (P.minLimit.toNat : ℚ) = 1 := by norm_num [show P.minLimit.toNat = 1 by decide]
  have hmax : (P.maxLimit.toNat : ℚ) = 200 := by norm_num [show P.maxLimit.toNat = 200 by decide]
  constructor
  · have hlow : ∀ l, some low = some l → P.Within l := by
      rintro l ⟨⟩
      exact ⟨⟨by decide, by decide⟩, by decide, by decide⟩
    obtain ⟨l, hl, -, hcalm, -⟩ := @limit_recovers P 1 (some low) (List.replicate 38 calm) hP hlow
      (by simp)
    have hgrowth : P.growthRate = 23 / 20 := by decide +kernel
    have hready : calm.p50 ≤ P.targetLatencyMs ∧ calm.cpuPct ≤ 60 ∧ calm.memPct ≤ 70 := by
      decide +kernel
    have hl' := (hcalm (by simpa [Reading.Calm] using hready)).2 (by
      rw [hmin, hmax, hgrowth]
      norm_num)
    rw [hl, Option.map_some, hl', hmax]
  · obtain ⟨l, hl, -, -, hload⟩ := @limit_recovers P 1 none (List.replicate 5 busy) hP nofun
      (by simp)
    have hbusy : 5 / 2 ≤ busy.load P := by decide +kernel
    have hl' := (hload (5 / 2) (by norm_num) (by simpa using hbusy)).2 (by
      rw [hmin, hmax]
      norm_num)
    rw [hl, Option.map_some, hl', hmin]

end XavierDB.Metrics
