import Mathlib.Tactic.Positivity
import XavierDB.Base.Arith
import XavierDB.Config.File

/-!
# The adaptive limit (`src/metrics.rs`)

One tick of the limit of an app, over any number type, and the comparison of
two runs over exact rationals: the heavier load never has the larger limit.
-/

namespace XavierDB.Metrics

variable {F : Type}

/-- What a tick reads of the configuration at its start. -/
structure Params (F : Type) where
  minLimit : UInt32
  maxLimit : UInt32
  multiplier : F
  targetLatencyMs : F
  latencySensitivity : F
  pressureSensitivity : F
  growthRate : F

/-- `LimitState`. -/
structure LimitState (F : Type) where
  internal : F
  enforced : UInt32
  latErr : F
  pressure : F
  shrink : F
  p50Ms : F
  /-- requests per second -/
  rate : F
  updatedMs : UInt64

/-- What a tick measures of an app and of the system. -/
structure Reading (F : Type) where
  p50 : F
  cpuPct : F
  memPct : F
  rate : F
  nowMs : UInt64

section Tick

variable [Arith F]

/-- `pressure`. -/
def pressure (cpuPct memPct : F) : F :=
  max (max ((cpuPct - Arith.lit 60 1) / Arith.lit 40 1) ((memPct - Arith.lit 70 1) / Arith.lit 30 1))
    (Arith.lit 0 1)

/-- `lat_err`. -/
def latErr (P : Params F) (p50 : F) : F :=
  max ((p50 - P.targetLatencyMs) / max P.targetLatencyMs (Arith.lit 1 1)) (Arith.lit 0 1)

/-- `shrink`. -/
def shrink (P : Params F) (latErr pressure : F) : F :=
  Arith.lit 1 1 /
    (Arith.lit 1 1 + P.latencySensitivity * latErr + P.pressureSensitivity * pressure)

/-- `internal`: growth while nothing presses, else the shrinkage. -/
def internal (P : Params F) (old shrink : F) : F :=
  if Arith.ge shrink (Arith.lit 1 1) then
    Arith.clamp (Arith.ofU32 P.minLimit) (Arith.ofU32 P.maxLimit) (old * P.growthRate)
  else Arith.clamp (Arith.ofU32 P.minLimit) (Arith.ofU32 P.maxLimit) (old * shrink)

/-- `enforced`; a weight is clamped where it is read. -/
def enforced (P : Params F) (weight internal : F) : UInt32 :=
  Config.clamp P.minLimit P.maxLimit (Arith.toU32 (Arith.round
    (internal * P.multiplier * Arith.clamp (Arith.lit 1 10) (Arith.lit 10 1) weight)))

/-- The update of an app's limit in `metrics_loop`; an app without one starts at
the maximum. -/
def updateLimit (P : Params F) (weight : F) (pressure : F) (r : Reading F)
    (old : Option (LimitState F)) : LimitState F :=
  let latErr := latErr P r.p50
  let shrink := shrink P latErr pressure
  let start := match old with
    | some entry => entry.internal
    | none => Arith.ofU32 P.maxLimit
  let internal := internal P start shrink
  ⟨internal, enforced P weight internal, latErr, pressure, shrink, r.p50, r.rate, r.nowMs⟩

/-- The limits after each of a run of ticks. -/
def ticks (P : Params F) (weight : F) : Option (LimitState F) → List (Reading F) →
    List (LimitState F)
  | _, [] => []
  | old, r :: rs =>
    updateLimit P weight (pressure r.cpuPct r.memPct) r old ::
      ticks P weight (some (updateLimit P weight (pressure r.cpuPct r.memPct) r old)) rs

end Tick

/-! ## Bounds -/

theorem enforced_mem [Arith F] {P : Params F} (h : P.minLimit ≤ P.maxLimit) (weight internal : F) :
    P.minLimit ≤ enforced P weight internal ∧ enforced P weight internal ≤ P.maxLimit :=
  Config.clamp_mem h _

/-- `ConfigFile::sanitize` on what a tick reads. -/
def Params.sanitize [Arith F] (P : Params F) : Params F where
  minLimit := Config.clamp 1 10000 P.minLimit
  maxLimit := min (max P.maxLimit (Config.clamp 1 10000 P.minLimit)) 10000
  multiplier := Arith.clamp (Arith.lit 5 100) (Arith.lit 20 1) P.multiplier
  targetLatencyMs := Arith.clamp (Arith.lit 1 1) (Arith.lit 60000 1) P.targetLatencyMs
  latencySensitivity := Arith.clamp (Arith.lit 0 1) (Arith.lit 20 1) P.latencySensitivity
  pressureSensitivity := Arith.clamp (Arith.lit 0 1) (Arith.lit 20 1) P.pressureSensitivity
  growthRate := Arith.clamp (Arith.lit 1 1) (Arith.lit 2 1) P.growthRate

def Params.ofRateLimit (r : Config.RateLimitCfg) : Params Binary64 :=
  ⟨r.minLimit, r.maxLimit, r.multiplier, r.targetLatencyMs, r.latencySensitivity,
    r.pressureSensitivity, r.growthRate⟩

theorem Params.limits_sanitize [Arith F] (P : Params F) :
    1 ≤ P.sanitize.minLimit ∧ P.sanitize.minLimit ≤ P.sanitize.maxLimit ∧
      P.sanitize.maxLimit ≤ 10000 := by
  have hmin := Config.clamp_mem (by decide : (1 : UInt32) ≤ 10000) P.minLimit
  have hmax := @Config.max_limit_sanitized P.maxLimit _ hmin.2
  exact ⟨hmin.1, hmax.1, hmax.2.1⟩

/-- The ranges of a sanitized configuration. -/
structure Params.Sanitized (P : Params ℚ) : Prop where
  minLimit : 1 ≤ P.minLimit
  limits : P.minLimit ≤ P.maxLimit
  maxLimit : P.maxLimit ≤ 10000
  multiplier : 5 / 100 ≤ P.multiplier ∧ P.multiplier ≤ 20
  targetLatencyMs : 1 ≤ P.targetLatencyMs ∧ P.targetLatencyMs ≤ 60000
  latencySensitivity : 0 ≤ P.latencySensitivity ∧ P.latencySensitivity ≤ 20
  pressureSensitivity : 0 ≤ P.pressureSensitivity ∧ P.pressureSensitivity ≤ 20
  growthRate : 1 ≤ P.growthRate ∧ P.growthRate ≤ 2

/-- Both limits are within the configured ones. -/
def Params.Within (P : Params ℚ) (s : LimitState ℚ) : Prop :=
  ((P.minLimit.toNat : ℚ) ≤ s.internal ∧ s.internal ≤ P.maxLimit.toNat) ∧
    P.minLimit ≤ s.enforced ∧ s.enforced ≤ P.maxLimit

/-- The second load is at least the first. -/
structure Reading.Le (r r' : Reading ℚ) : Prop where
  p50 : r.p50 ≤ r'.p50
  cpuPct : r.cpuPct ≤ r'.cpuPct
  memPct : r.memPct ≤ r'.memPct

/-! ## The operations over the rationals -/

theorem lit_one (n : Nat) : (Arith.lit n 1 : ℚ) = n := by simp [Arith.lit]

theorem Params.sanitized_sanitize (P : Params ℚ) : P.sanitize.Sanitized := by
  obtain ⟨hmin, hlimits, hmax⟩ := P.limits_sanitize
  have hclamp : ∀ lo hi x : ℚ, lo ≤ hi → lo ≤ Arith.clamp lo hi x ∧ Arith.clamp lo hi x ≤ hi :=
    fun _ _ x h => Exact.clamp_mem h x
  have hmul : (Arith.lit 5 100 : ℚ) = 5 / 100 := by simp [Arith.lit]
  refine ⟨hmin, hlimits, hmax, ?_, ?_, ?_, ?_, ?_⟩ <;>
    simp only [sanitize, hmul, lit_one] <;> exact_mod_cast hclamp _ _ _ (by norm_num)

section Exact

variable {P : Params ℚ}

theorem pressure_eq (c m : ℚ) : pressure c m = max (max ((c - 60) / 40) ((m - 70) / 30)) 0 := by
  simp only [pressure, lit_one]
  norm_num

theorem latErr_eq (p50 : ℚ) :
    latErr P p50 = max ((p50 - P.targetLatencyMs) / max P.targetLatencyMs 1) 0 := by
  simp only [latErr, lit_one]
  norm_num

theorem shrink_eq (l p : ℚ) :
    shrink P l p = 1 / (1 + P.latencySensitivity * l + P.pressureSensitivity * p) := by
  simp only [shrink, lit_one]
  norm_num

/-- The factor that a tick multiplies the limit with. -/
def factor (P : Params ℚ) (shrink : ℚ) : ℚ := if 1 ≤ shrink then P.growthRate else shrink

theorem internal_eq (old s : ℚ) : internal P old s =
    Exact.clamp P.minLimit.toNat P.maxLimit.toNat (old * factor P s) := by
  have hlit : (Arith.lit 1 1 : ℚ) = 1 := by rw [lit_one, Nat.cast_one]
  have hge : Arith.ge s (1 : ℚ) = decide (1 ≤ s) := rfl
  rw [internal, factor, hlit, hge]
  simp only [decide_eq_true_eq]
  split <;> rfl

theorem enforced_eq (w x : ℚ) : enforced P w x = Config.clamp P.minLimit P.maxLimit
    (Exact.toU32 (Exact.round (x * P.multiplier * Exact.clamp (1 / 10) 10 w))) := by
  have h1 : (Arith.lit 1 10 : ℚ) = 1 / 10 := by simp [Arith.lit]
  have h2 : (Arith.lit 10 1 : ℚ) = 10 := by rw [lit_one, Nat.cast_ofNat]
  rw [enforced, h1, h2]
  rfl

end Exact

/-! ## Monotonicity -/

section Mono

variable {P : Params ℚ}

theorem pressure_mono {c c' m m' : ℚ} (hc : c ≤ c') (hm : m ≤ m') :
    0 ≤ pressure c m ∧ pressure c m ≤ pressure c' m' := by
  rw [pressure_eq, pressure_eq]
  exact ⟨le_max_right _ _, by gcongr⟩

theorem latErr_mono {p p' : ℚ} (hp : p ≤ p') : 0 ≤ latErr P p ∧ latErr P p ≤ latErr P p' := by
  rw [latErr_eq, latErr_eq]
  have hpos : (0 : ℚ) < max P.targetLatencyMs 1 := lt_max_of_lt_right one_pos
  refine ⟨le_max_right _ _, max_le_max_right _ ?_⟩
  exact div_le_div_of_nonneg_right (by linarith) hpos.le

/-- A heavier load shrinks more. -/
theorem shrink_mono (hP : P.Sanitized) {l l' p p' : ℚ} (hl : 0 ≤ l) (hl' : l ≤ l') (hp : 0 ≤ p)
    (hp' : p ≤ p') : 0 < shrink P l' p' ∧ shrink P l' p' ≤ shrink P l p := by
  rw [shrink_eq, shrink_eq]
  have hlat := hP.latencySensitivity.1
  have hpres := hP.pressureSensitivity.1
  have hden : 0 < 1 + P.latencySensitivity * l + P.pressureSensitivity * p := by positivity
  have hle : 1 + P.latencySensitivity * l + P.pressureSensitivity * p ≤
      1 + P.latencySensitivity * l' + P.pressureSensitivity * p' := by gcongr
  exact ⟨one_div_pos.mpr (hden.trans_le hle), one_div_le_one_div_of_le hden hle⟩

/-- The switch from growth to shrinkage does not turn the order around: a growth
rate is at least 1, a shrinkage below. -/
theorem factor_mono (hP : P.Sanitized) {s s' : ℚ} (hpos : 0 < s') (h : s' ≤ s) :
    0 < factor P s' ∧ factor P s' ≤ factor P s := by
  have hgrow := hP.growthRate.1
  unfold factor
  split_ifs <;> constructor <;> linarith

/-- A start below zero ends at the lower bound under every factor. -/
theorem clamp_mul_mono {lo hi x x' f f' : ℚ} (hlo : 0 ≤ lo) (hb : lo ≤ hi) (hx : x' ≤ x)
    (hf' : 0 < f') (hf : f' ≤ f) :
    Exact.clamp lo hi (x' * f') ≤ Exact.clamp lo hi (x * f) := by
  by_cases h0 : 0 ≤ x
  · apply Exact.clamp_mono hb
    calc x' * f' ≤ x * f' := mul_le_mul_of_nonneg_right hx hf'.le
      _ ≤ x * f := mul_le_mul_of_nonneg_left hf h0
  · have hneg : x' * f' ≤ lo := (mul_neg_of_neg_of_pos (by linarith) hf').le.trans hlo
    rw [Exact.clamp_of_le hb hneg]
    exact (Exact.clamp_mem hb _).1

theorem limits_le (hP : P.Sanitized) : (P.minLimit.toNat : ℚ) ≤ P.maxLimit.toNat :=
  Nat.cast_le.mpr (UInt32.le_iff_toNat_le.mp hP.limits)

theorem clampU32_mono {lo hi x y : UInt32} (hb : lo ≤ hi) (h : x ≤ y) :
    Config.clamp lo hi x ≤ Config.clamp lo hi y := by
  unfold Config.clamp
  grind

theorem enforced_mono (hP : P.Sanitized) (w : ℚ) {x y : ℚ} (h : x ≤ y) :
    enforced P w x ≤ enforced P w y := by
  rw [enforced_eq, enforced_eq]
  have hmul : 0 ≤ P.multiplier := le_trans (by norm_num) hP.multiplier.1
  have hw : (0 : ℚ) ≤ Exact.clamp (1 / 10) 10 w :=
    le_trans (by norm_num) (Exact.clamp_mem (by norm_num) w).1
  have hprod : x * P.multiplier * Exact.clamp (1 / 10) 10 w ≤
      y * P.multiplier * Exact.clamp (1 / 10) 10 w := by gcongr
  exact clampU32_mono hP.limits (Exact.toU32_mono (Exact.round_mono hprod))

end Mono

/-! ## Two runs -/

variable {P : Params ℚ} {r r' : Reading ℚ} {s s' : Option (LimitState ℚ)}

/-- The limit a tick starts from. -/
def startOf (P : Params ℚ) (s : Option (LimitState ℚ)) : ℚ :=
  match s with
  | some entry => entry.internal
  | none => P.maxLimit.toNat

theorem internal_updateLimit (w p : ℚ) : (updateLimit P w p r s).internal =
    internal P (startOf P s) (shrink P (latErr P r.p50) p) := by
  cases s <;> rfl

theorem enforced_updateLimit (w p : ℚ) : (updateLimit P w p r s).enforced =
    enforced P w (updateLimit P w p r s).internal := by
  cases s <;> rfl

theorem within_updateLimit (hP : P.Sanitized) (w p : ℚ) : P.Within (updateLimit P w p r s) := by
  refine ⟨?_, ?_⟩
  · rw [internal_updateLimit, internal_eq]
    exact Exact.clamp_mem (limits_le hP) _
  · rw [enforced_updateLimit]
    exact enforced_mem hP.limits _ _

/-- One tick keeps the order of the limits. -/
theorem updateLimit_mono (hP : P.Sanitized) (w : ℚ) (hr : r.Le r') (hs : startOf P s' ≤ startOf P s) :
    (updateLimit P w (pressure r'.cpuPct r'.memPct) r' s').internal ≤
        (updateLimit P w (pressure r.cpuPct r.memPct) r s).internal ∧
      (updateLimit P w (pressure r'.cpuPct r'.memPct) r' s').enforced ≤
        (updateLimit P w (pressure r.cpuPct r.memPct) r s).enforced := by
  obtain ⟨hp0, hp⟩ := pressure_mono hr.cpuPct hr.memPct
  obtain ⟨hl0, hl⟩ := @latErr_mono P _ _ hr.p50
  obtain ⟨hpos, hshrink⟩ := shrink_mono hP hl0 hl hp0 hp
  obtain ⟨hfpos, hfactor⟩ := factor_mono hP hpos hshrink
  have hinternal : (updateLimit P w (pressure r'.cpuPct r'.memPct) r' s').internal ≤
      (updateLimit P w (pressure r.cpuPct r.memPct) r s).internal := by
    rw [internal_updateLimit, internal_updateLimit, internal_eq, internal_eq]
    exact clamp_mul_mono (Nat.cast_nonneg _) (limits_le hP) hs hfpos hfactor
  refine ⟨hinternal, ?_⟩
  rw [enforced_updateLimit, enforced_updateLimit]
  exact enforced_mono hP w hinternal

/-- The heavier load has the smaller limits, and both are within the bounds. -/
def Ordered (P : Params ℚ) (a b : LimitState ℚ) : Prop :=
  b.internal ≤ a.internal ∧ b.enforced ≤ a.enforced ∧ P.Within a ∧ P.Within b

theorem ticks_ordered (hP : P.Sanitized) (w : ℚ) {light heavy : List (Reading ℚ)}
    (h : List.Forall₂ Reading.Le light heavy) (hs : startOf P s' ≤ startOf P s) :
    List.Forall₂ (Ordered P) (ticks P w s light) (ticks P w s' heavy) := by
  induction h generalizing s s' with
  | nil => exact .nil
  | cons hr _ ih =>
    obtain ⟨hinternal, henforced⟩ := updateLimit_mono hP w hr hs
    refine .cons ⟨hinternal, henforced, within_updateLimit hP _ _, within_updateLimit hP _ _⟩ ?_
    exact ih hinternal

/-- Under a fixed sanitized configuration and a fixed weight, of two runs from
one limit state the one whose figures are at least the other's at every tick has
the smaller limits at every tick, and both stay within the bounds. -/
theorem moreLoad_smallerLimits (hP : P.Sanitized) (w : ℚ) (s : Option (LimitState ℚ))
    {light heavy : List (Reading ℚ)} (h : List.Forall₂ Reading.Le light heavy) :
    List.Forall₂ (Ordered P) (ticks P w s light) (ticks P w s heavy) :=
  ticks_ordered hP w h (le_refl _)

def calm : Reading ℚ := ⟨10, 5, 20, 1, 0⟩

def busy : Reading ℚ := ⟨120, 90, 80, 30, 0⟩

def defaultParams : Params ℚ := ⟨1, 200, 1, 50, 1, 3 / 2, 23 / 20⟩

theorem moreLoad_smallerLimits_busy : List.Forall₂ (Ordered defaultParams.sanitize)
    (ticks defaultParams.sanitize 1 none [calm, calm, busy])
    (ticks defaultParams.sanitize 1 none [calm, busy, busy]) :=
  moreLoad_smallerLimits defaultParams.sanitized_sanitize 1 none
    (.cons ⟨le_refl _, le_refl _, le_refl _⟩ (.cons ⟨by decide, by decide, by decide⟩
      (.cons ⟨le_refl _, le_refl _, le_refl _⟩ .nil)))

end XavierDB.Metrics
