import Mathlib.Data.Nat.Log
import Mathlib.Tactic.Ring

/-!
# Double-precision numbers

A finite double is a sign and a number of units of `2 ^ -1074`, of which at most
53 bits are significant. Results are exact ratios rounded once, to nearest with
ties to even; NaNs are not told apart.
-/

namespace XavierDB

namespace Binary64

/-! ## Rounding -/

/-- The quotient as the nearest integer, ties to even. -/
def roundDiv (a b : Nat) : Nat :=
  if 2 * (a % b) < b then a / b
  else if b < 2 * (a % b) then a / b + 1
  else if a / b % 2 = 0 then a / b
  else a / b + 1

/-- The distance of the doubles from `n` units on. -/
def ulp (n : Nat) : Nat := 2 ^ (n.log2 - 52)

def roundUnits (num den : Nat) : Nat :=
  roundDiv num (den * ulp (num / den)) * ulp (num / den)

def Representable (n : Nat) : Prop := ulp n ∣ n

instance (n : Nat) : Decidable (Representable n) := inferInstanceAs (Decidable (ulp n ∣ n))

theorem le_roundDiv {a b c : Nat} (hb : 0 < b) (h : c * b ≤ a) : c ≤ roundDiv a b := by
  have hq : c ≤ a / b := (Nat.le_div_iff_mul_le hb).mpr h
  unfold roundDiv
  split
  · exact hq
  · split
    · omega
    · split <;> omega

theorem roundDiv_le {a b c : Nat} (hb : 0 < b) (h : a ≤ c * b) : roundDiv a b ≤ c := by
  have hq : a / b ≤ c := Nat.div_le_of_le_mul (by rwa [Nat.mul_comm])
  rcases Nat.lt_or_eq_of_le hq with hlt | heq
  · unfold roundDiv
    split
    · exact hq
    · split
      · omega
      · split <;> omega
  · have hr : a % b = 0 := by
      have hdiv := Nat.div_add_mod a b
      rw [heq, Nat.mul_comm] at hdiv
      omega
    rw [roundDiv, if_pos (by omega)]
    exact hq

theorem ulp_pos (n : Nat) : 0 < ulp n := Nat.two_pow_pos _

theorem log2_mono {m n : Nat} (h : m ≤ n) : m.log2 ≤ n.log2 := by
  rw [Nat.log2_eq_log_two, Nat.log2_eq_log_two]
  exact Nat.log_mono_right h

theorem ulp_dvd_ulp {m n : Nat} (h : m ≤ n) : ulp m ∣ ulp n :=
  Nat.pow_dvd_pow 2 (Nat.sub_le_sub_right (log2_mono h) 52)

/-- Rounding does not pass a double above. -/
theorem roundUnits_le {num den v : Nat} (hd : 0 < den) (hv : Representable v) (h : num ≤ v * den) :
    roundUnits num den ≤ v := by
  have hq : num / den ≤ v := Nat.div_le_of_le_mul (by rwa [Nat.mul_comm])
  obtain ⟨c, hc⟩ := (ulp_dvd_ulp hq).trans hv
  have hle : roundDiv num (den * ulp (num / den)) ≤ c := by
    apply roundDiv_le (Nat.mul_pos hd (ulp_pos _))
    calc num ≤ v * den := h
      _ = c * (den * ulp (num / den)) := by rw [hc]; ring
  calc roundUnits num den ≤ c * ulp (num / den) := Nat.mul_le_mul_right _ hle
    _ = v := by rw [Nat.mul_comm, ← hc]

/-- Rounding does not pass a double below. -/
theorem le_roundUnits {num den v : Nat} (hd : 0 < den) (hv : Representable v) (h : v * den ≤ num) :
    v ≤ roundUnits num den := by
  have hq : v ≤ num / den := (Nat.le_div_iff_mul_le hd).mpr h
  have hpos := Nat.mul_pos hd (ulp_pos (num / den))
  by_cases hdvd : ulp (num / den) ∣ v
  · obtain ⟨c, hc⟩ := hdvd
    have hle : c ≤ roundDiv num (den * ulp (num / den)) := by
      apply le_roundDiv hpos
      calc c * (den * ulp (num / den)) = v * den := by rw [hc]; ring
        _ ≤ num := h
    calc v = c * ulp (num / den) := by rw [Nat.mul_comm, ← hc]
      _ ≤ roundUnits num den := Nat.mul_le_mul_right _ hle
  · -- the doubles are farther apart at the quotient than at `v`, so `v` is below its power of two
    have hlog : v.log2 < (num / den).log2 ∧ 52 ≤ (num / den).log2 := by
      by_contra hno
      apply hdvd
      apply Dvd.dvd.trans _ hv
      apply Nat.pow_dvd_pow
      have := log2_mono hq
      omega
    have hne : num / den ≠ 0 := by
      intro h0
      rw [h0] at hlog
      exact absurd hlog.2 (by decide)
    have hpow : 2 ^ 52 * ulp (num / den) = 2 ^ (num / den).log2 := by
      rw [ulp, ← Nat.pow_add]
      congr 1
      omega
    have hle : 2 ^ 52 ≤ roundDiv num (den * ulp (num / den)) := by
      apply le_roundDiv hpos
      calc 2 ^ 52 * (den * ulp (num / den)) = den * 2 ^ (num / den).log2 := by rw [← hpow]; ring
        _ ≤ den * (num / den) := Nat.mul_le_mul_left _ (Nat.log2_self_le hne)
        _ ≤ num := Nat.mul_div_le num den
    calc v ≤ 2 ^ (num / den).log2 := by
          apply Nat.le_of_lt
          exact (Nat.lt_log2_self).trans_le (Nat.pow_le_pow_right (by decide) hlog.1)
      _ = 2 ^ 52 * ulp (num / den) := hpow.symm
      _ ≤ roundUnits num den := Nat.mul_le_mul_right _ hle

theorem representable_of_eq {n m k : Nat} (hm : m ≤ 2 ^ 53) (h : n = m * 2 ^ k) :
    Representable n := by
  subst h
  unfold Representable ulp
  rcases Nat.eq_zero_or_pos m with rfl | hpos
  · rw [Nat.zero_mul]
    exact Nat.dvd_zero _
  · rcases Nat.lt_or_eq_of_le hm with hlt | rfl
    · apply Dvd.dvd.trans _ (Nat.dvd_mul_left _ _)
      apply Nat.pow_dvd_pow
      have hlog : (m * 2 ^ k).log2 < 53 + k := by
        rw [Nat.log2_lt (Nat.mul_ne_zero hpos.ne' (Nat.two_pow_pos k).ne'), Nat.pow_add]
        exact Nat.mul_lt_mul_of_pos_right hlt (Nat.two_pow_pos k)
      omega
    · rw [← Nat.pow_add, Nat.log2_two_pow]
      exact Nat.pow_dvd_pow 2 (Nat.sub_le _ _)

theorem representable_roundUnits (num den : Nat) : Representable (roundUnits num den) := by
  apply representable_of_eq _ rfl
  rcases Nat.eq_zero_or_pos den with rfl | hd
  · rw [Nat.zero_mul, roundDiv, Nat.div_zero]
    split
    · decide
    · split
      · decide
      · decide
  · apply roundDiv_le (Nat.mul_pos hd (ulp_pos _))
    have hq : num / den + 1 ≤ 2 ^ 53 * ulp (num / den) := by
      apply Nat.succ_le_of_lt
      calc num / den < 2 ^ ((num / den).log2 + 1) := Nat.lt_log2_self
        _ ≤ 2 ^ (53 + ((num / den).log2 - 52)) := Nat.pow_le_pow_right (by decide) (by omega)
        _ = 2 ^ 53 * ulp (num / den) := Nat.pow_add _ _ _
    calc num ≤ (num / den + 1) * den := (Nat.lt_mul_of_div_lt (Nat.lt_succ_self _) hd).le
      _ ≤ 2 ^ 53 * ulp (num / den) * den := Nat.mul_le_mul_right _ hq
      _ = 2 ^ 53 * (den * ulp (num / den)) := by ring

/-! ## Values -/

/-- `2 ^ 1074`, the units of one. -/
def one : Nat := 2 ^ 1074

/-- A magnitude in units of `2 ^ -1074`, below `2 ^ 1024` (`2 ^ 2098` units). -/
structure Magnitude where
  units : Nat
  representable : Representable units
  bounded : units < 2 ^ 2098
  deriving DecidableEq

end Binary64

inductive Binary64 where
  | nan
  | inf (neg : Bool)
  | finite (neg : Bool) (m : Binary64.Magnitude)
  deriving DecidableEq

namespace Binary64

/-- The double nearest to a ratio of units. -/
def ofRatio (neg : Bool) (num den : Nat) : Binary64 :=
  if h : roundUnits num den < 2 ^ 2098 then
    .finite neg ⟨roundUnits num den, representable_roundUnits num den, h⟩
  else .inf neg

/-- A decimal literal `num / den`. -/
def lit (num den : Nat) : Binary64 := ofRatio false (num * one) den

def mul : Binary64 → Binary64 → Binary64
  | .nan, _ | _, .nan => .nan
  | .inf s, .inf t => .inf (s != t)
  | .inf s, .finite t m | .finite t m, .inf s => if m.units = 0 then .nan else .inf (s != t)
  | .finite s m, .finite t n => ofRatio (s != t) (m.units * n.units) one

def div : Binary64 → Binary64 → Binary64
  | .nan, _ | _, .nan => .nan
  | .inf _, .inf _ => .nan
  | .inf s, .finite t _ => .inf (s != t)
  | .finite s _, .inf t => ofRatio (s != t) 0 1
  | .finite s m, .finite t n =>
    if n.units = 0 then if m.units = 0 then .nan else .inf (s != t)
    else ofRatio (s != t) (m.units * one) n.units

/-- The nearest integer, halves away from zero. -/
def round : Binary64 → Binary64
  | .finite s m => ofRatio s ((2 * m.units + one) / (2 * one) * one) 1
  | x => x

/-- The value in units, infinities beyond all others; a NaN has none. -/
def key : Binary64 → Option Int
  | .nan => none
  | .inf s => some (if s then -(2 ^ 2098) else 2 ^ 2098)
  | .finite s m => some (if s then -m.units else m.units)

def lt (x y : Binary64) : Bool :=
  match x.key, y.key with
  | some a, some b => a < b
  | _, _ => false

def le (x y : Binary64) : Bool :=
  match x.key, y.key with
  | some a, some b => a ≤ b
  | _, _ => false

/-- `{:.1}`. -/
def toFixed1 : Binary64 → String
  | .nan => "NaN"
  | .inf s => if s then "-inf" else "inf"
  | .finite s m =>
    (if s then "-" else "") ++ toString (roundDiv (m.units * 10) one / 10) ++ "." ++
      toString (roundDiv (m.units * 10) one % 10)

theorem lt_iff {x y : Binary64} :
    lt x y = true ↔ ∃ a b, x.key = some a ∧ y.key = some b ∧ a < b := by
  unfold lt
  cases x.key <;> cases y.key <;> simp

theorem le_iff {x y : Binary64} :
    le x y = true ↔ ∃ a b, x.key = some a ∧ y.key = some b ∧ a ≤ b := by
  unfold le
  cases x.key <;> cases y.key <;> simp

theorem not_lt_self (x : Binary64) : lt x x ≠ true := by
  rw [Ne, lt_iff]
  rintro ⟨a, b, ha, hb, hlt⟩
  rw [ha] at hb
  have := Option.some.inj hb
  omega

theorem not_lt_of_le {x y : Binary64} (h : le x y = true) : lt y x ≠ true := by
  obtain ⟨a, b, ha, hb, hle⟩ := le_iff.mp h
  rw [Ne, lt_iff]
  rintro ⟨b', a', hb', ha', hlt⟩
  rw [ha] at ha'
  rw [hb] at hb'
  have h1 := Option.some.inj ha'
  have h2 := Option.some.inj hb'
  omega

/-- `f64::clamp`. -/
def clamp (lo hi x : Binary64) : Binary64 :=
  if lt x lo then lo else if lt hi x then hi else x

theorem clamp_clamp {lo hi : Binary64} (h : le lo hi = true) (x : Binary64) :
    clamp lo hi (clamp lo hi x) = clamp lo hi x := by
  have hlo : clamp lo hi lo = lo := by
    rw [clamp, if_neg (not_lt_self lo), if_neg (not_lt_of_le h)]
  have hhi : clamp lo hi hi = hi := by
    rw [clamp, if_neg (not_lt_of_le h), if_neg (not_lt_self hi)]
  by_cases h1 : lt x lo = true
  · have hx : clamp lo hi x = lo := if_pos h1
    rw [hx, hlo]
  · by_cases h2 : lt hi x = true
    · have hx : clamp lo hi x = hi := by rw [clamp, if_neg h1, if_pos h2]
      rw [hx, hhi]
    · have hx : clamp lo hi x = x := by rw [clamp, if_neg h1, if_neg h2]
      rw [hx, hx]

/-! ## Sums -/

def signed (s : Bool) (m : Magnitude) : Int := if s then -m.units else m.units

/-- A sum that cancels is a positive zero, unless both are negative zeros. -/
def add : Binary64 → Binary64 → Binary64
  | .nan, _ | _, .nan => .nan
  | .inf s, .inf t => if s = t then .inf s else .nan
  | .inf s, .finite _ _ | .finite _ _, .inf s => .inf s
  | .finite s m, .finite t n =>
    if signed s m + signed t n = 0 then ofRatio (s && t) 0 1
    else ofRatio (signed s m + signed t n < 0) (signed s m + signed t n).natAbs 1

def neg : Binary64 → Binary64
  | .nan => .nan
  | .inf s => .inf !s
  | .finite s m => .finite (!s) m

def sub (x y : Binary64) : Binary64 := add x y.neg

/-- `f64::max`: a NaN loses. -/
def max (x y : Binary64) : Binary64 :=
  if x = .nan then y else if y = .nan then x else if lt x y then y else x

/-- `as u32`, saturating. -/
def toU32 : Binary64 → UInt32
  | .nan => 0
  | .inf s => if s then 0 else UInt32.ofNat (2 ^ 32 - 1)
  | .finite s m => if s then 0 else UInt32.ofNat (Nat.min (m.units / one) (2 ^ 32 - 1))

/-! ## Ranges of results -/

theorem one_pos : 0 < one := by decide +kernel

/-- A positive value below infinity is that of a finite double. -/
theorem exists_of_key {x : Binary64} {k : Int} (h : x.key = some k) (h0 : 0 < k)
    (hk : k < 2 ^ 2098) : ∃ m : Magnitude, x = .finite false m ∧ (m.units : Int) = k := by
  have hbig : (0 : Int) < 2 ^ 2098 := by decide +kernel
  unfold key at h
  generalize (2 : Int) ^ 2098 = big at hk hbig h
  cases x with
  | nan => cases h
  | inf s =>
    have hs := Option.some.inj h
    cases s <;> simp only [if_true, Bool.false_eq_true, if_false] at hs <;> omega
  | finite s m =>
    have hs := Option.some.inj h
    cases s with
    | true =>
      simp only [if_true] at hs
      omega
    | false => exact ⟨m, rfl, hs⟩

/-- A positive double between two integers rounds to an integer between them. -/
theorem round_between {m : Magnitude} {a b : Nat} (ha : a * one ≤ m.units)
    (hb : m.units ≤ b * one) :
    ∃ k, a ≤ k ∧ k ≤ b ∧ round (.finite false m) = ofRatio false (k * one) 1 := by
  have hone := one_pos
  refine ⟨(2 * m.units + one) / (2 * one), ?_, ?_, rfl⟩
  · rw [Nat.le_div_iff_mul_le (by omega)]
    calc a * (2 * one) = 2 * (a * one) := by ring
      _ ≤ 2 * m.units + one := by omega
  · apply Nat.le_of_lt_succ
    rw [Nat.div_lt_iff_lt_mul (by omega)]
    calc 2 * m.units + one < 2 * (b * one) + 2 * one := by omega
      _ = (b + 1) * (2 * one) := by ring

/-- A product between two doubles. -/
theorem ofRatio_between {s : Bool} {num den a b : Nat} (hd : 0 < den) (ha : Representable a)
    (hb : Representable b) (hlo : a * den ≤ num) (hhi : num ≤ b * den) (hmax : b < 2 ^ 2098) :
    ∃ m : Magnitude, ofRatio s num den = .finite s m ∧ a ≤ m.units ∧ m.units ≤ b := by
  have hle := le_roundUnits hd ha hlo
  have hge := roundUnits_le hd hb hhi
  have hlt := hge.trans_lt hmax
  exact ⟨⟨_, representable_roundUnits num den, hlt⟩, dif_pos hlt, hle, hge⟩

theorem ofRatio_eq {s : Bool} {num den n : Nat} (hd : 0 < den) (hn : Representable n)
    (h : num = n * den) (hmax : n < 2 ^ 2098) :
    ∃ m : Magnitude, ofRatio s num den = .finite s m ∧ m.units = n := by
  obtain ⟨m, heq, hlo, hhi⟩ := ofRatio_between (s := s) hd hn hn h.ge h.le hmax
  exact ⟨m, heq, Nat.le_antisymm hhi hlo⟩

/-- Half of an integer by an integer: the quotient does not round up to the next integer. -/
theorem toU32_div_lit {a w : Nat} (hw : 0 < w) (hws : w ≤ 2 ^ 19) (ha : a < 2 ^ 32) :
    (toU32 (div (lit a 2) (lit w 1))).toNat = a / (2 * w) := by
  obtain ⟨u, hu⟩ : ∃ u, u = 2 ^ 1054 := ⟨_, rfl⟩
  have hone : one = 2 ^ 20 * u := by rw [hu, one, ← Nat.pow_add]
  have hupos : 0 < u := Nat.pos_of_mul_pos_left (hone ▸ one_pos)
  have hrep : ∀ m : Nat, m ≤ 2 ^ 53 → Representable (m * u) :=
    fun m hm => representable_of_eq hm (by rw [hu])
  have hmax : 2 ^ 53 * 2 ^ 1054 < 2 ^ 2098 := by decide +kernel
  rw [← hu] at hmax
  have hbig : ∀ m : Nat, m ≤ 2 ^ 53 → m * u < 2 ^ 2098 :=
    fun m hm => (Nat.mul_le_mul_right _ hm).trans_lt hmax
  have hlit : ∀ b d c : Nat, 0 < d → b * one = c * u * d → c ≤ 2 ^ 53 →
      ∃ m : Magnitude, lit b d = .finite false m ∧ m.units = c * u :=
    fun b d c hd h hc => ofRatio_eq hd (hrep c hc) h (hbig c hc)
  obtain ⟨m, hm, hmunits⟩ := hlit a 2 (a * 2 ^ 19) (by omega) (by rw [hone]; ring) (by omega)
  obtain ⟨n, hn, hnunits⟩ := hlit w 1 (w * 2 ^ 20) (by omega) (by rw [hone]; ring) (by omega)
  have hk : a / (2 * w) < 2 ^ 32 := (Nat.div_le_self ..).trans_lt ha
  have hlow : a / (2 * w) * (2 * w) ≤ a := Nat.div_mul_le_self ..
  have hhigh : a + 1 ≤ (a / (2 * w) + 1) * (2 * w) := by
    rw [Nat.mul_comm]
    exact Nat.lt_mul_div_succ a (by omega)
  generalize a / (2 * w) = k at hk hlow hhigh ⊢
  have hnpos : 0 < n.units := hnunits ▸ Nat.mul_pos (Nat.mul_pos hw (by decide)) hupos
  -- the quotient is between `k` and the double before `k + 1`
  have hqlo : k * 2 ^ 20 * u * n.units ≤ m.units * one := by
    rw [hmunits, hnunits, hone]
    calc k * 2 ^ 20 * u * (w * 2 ^ 20 * u) = k * (2 * w) * (2 ^ 19 * u * (2 ^ 20 * u)) := by ring
      _ ≤ a * (2 ^ 19 * u * (2 ^ 20 * u)) := Nat.mul_le_mul_right _ hlow
      _ = a * 2 ^ 19 * u * (2 ^ 20 * u) := by ring
  have hqhi : m.units * one ≤ ((k + 1) * 2 ^ 20 - 1) * u * n.units := by
    have hle : a * 2 ^ 19 ≤ ((k + 1) * 2 ^ 20 - 1) * w := by
      rw [Nat.sub_mul]
      refine Nat.le_sub_of_add_le ?_
      calc a * 2 ^ 19 + 1 * w ≤ (a + 1) * 2 ^ 19 := by omega
        _ ≤ (k + 1) * (2 * w) * 2 ^ 19 := Nat.mul_le_mul_right _ hhigh
        _ = (k + 1) * 2 ^ 20 * w := by ring
    rw [hmunits, hnunits, hone]
    calc a * 2 ^ 19 * u * (2 ^ 20 * u) = a * 2 ^ 19 * (u * (2 ^ 20 * u)) := by ring
      _ ≤ ((k + 1) * 2 ^ 20 - 1) * w * (u * (2 ^ 20 * u)) := Nat.mul_le_mul_right _ hle
      _ = ((k + 1) * 2 ^ 20 - 1) * u * (w * 2 ^ 20 * u) := by ring
  obtain ⟨q, hq, hqlow, hqhigh⟩ := ofRatio_between (s := false) hnpos (hrep _ (by omega))
    (hrep _ (by omega)) hqlo hqhi (hbig _ (by omega))
  have hdiv : div (lit a 2) (lit w 1) = .finite false q := by
    rw [hm, hn, div, if_neg hnpos.ne', ← hq]
    rfl
  have hquot : q.units / one = k := by
    rw [hone]
    refine Nat.div_eq_of_lt_le (by rwa [← Nat.mul_assoc]) (hqhigh.trans_lt ?_)
    rw [← Nat.mul_assoc]
    exact Nat.mul_lt_mul_of_pos_right (by omega) hupos
  have hmin : Nat.min k (2 ^ 32 - 1) = k := Nat.min_eq_left (by omega)
  rw [hdiv, toU32, if_neg Bool.false_ne_true, hquot, hmin]
  exact UInt32.toNat_ofNat_of_lt' hk

/-! ## Bits -/

/-- The biased exponent and fraction of a magnitude. -/
def Magnitude.bits (m : Magnitude) : Nat :=
  (m.units.log2 - 52) * 2 ^ 52 + m.units / ulp m.units

/-- The units of the magnitude with the given bits. -/
def unitsOfBits (b : Nat) : Nat :=
  if b / 2 ^ 52 = 0 then b else (2 ^ 52 + b % 2 ^ 52) * 2 ^ (b / 2 ^ 52 - 1)

/-- `f64::to_bits`, with one NaN. -/
def toBits : Binary64 → Nat
  | .nan => 2047 * 2 ^ 52 + 2 ^ 51
  | .inf s => (if s then 2 ^ 63 else 0) + 2047 * 2 ^ 52
  | .finite s m => (if s then 2 ^ 63 else 0) + m.bits

/-- `f64::from_bits`. -/
def ofBits (b : Nat) : Binary64 :=
  if b % 2 ^ 63 / 2 ^ 52 = 2047 then
    if b % 2 ^ 52 = 0 then .inf (2 ^ 63 ≤ b) else .nan
  else ofRatio (2 ^ 63 ≤ b) (unitsOfBits (b % 2 ^ 63)) 1

theorem log2_lt_of_lt_two_pow {n k : Nat} (hk : 0 < k) (h : n < 2 ^ k) : n.log2 < k := by
  rcases Nat.eq_zero_or_pos n with rfl | hpos
  · exact hk
  · exact (Nat.log2_lt hpos.ne').mpr h

theorem Magnitude.log2_lt (m : Magnitude) : m.units.log2 < 2098 :=
  log2_lt_of_lt_two_pow (by decide) m.bounded

theorem Magnitude.units_eq (m : Magnitude) : m.units / ulp m.units * ulp m.units = m.units :=
  Nat.div_mul_cancel m.representable

/-- The significand of a magnitude whose doubles are more than a unit apart is full. -/
theorem Magnitude.significand (m : Magnitude) :
    m.units / ulp m.units < 2 ^ 53 ∧
      (52 < m.units.log2 → 2 ^ 52 ≤ m.units / ulp m.units) := by
  have hpos := ulp_pos m.units
  constructor
  · rw [Nat.div_lt_iff_lt_mul hpos, ulp, ← Nat.pow_add]
    exact Nat.lt_log2_self.trans_le (Nat.pow_le_pow_right (by decide) (by omega))
  · intro h
    rw [Nat.le_div_iff_mul_le hpos, ulp, ← Nat.pow_add]
    have hne : m.units ≠ 0 := by
      intro h0
      rw [h0] at h
      exact absurd h (by decide)
    calc 2 ^ (52 + (m.units.log2 - 52)) = 2 ^ m.units.log2 := by congr 1; omega
      _ ≤ m.units := Nat.log2_self_le hne

theorem Magnitude.unitsOfBits_bits (m : Magnitude) : unitsOfBits m.bits = m.units := by
  obtain ⟨hlt, hge⟩ := m.significand
  have heq := m.units_eq
  unfold unitsOfBits bits
  by_cases hlog : 52 < m.units.log2
  · have hge := hge hlog
    generalize m.units / ulp m.units = q at *
    have hdiv : ((m.units.log2 - 52) * 2 ^ 52 + q) / 2 ^ 52 = m.units.log2 - 52 + 1 := by omega
    have hmod : ((m.units.log2 - 52) * 2 ^ 52 + q) % 2 ^ 52 = q - 2 ^ 52 := by omega
    rw [hdiv, hmod, if_neg (by omega), Nat.add_sub_cancel, Nat.add_sub_cancel' hge]
    exact heq
  · have he : m.units.log2 - 52 = 0 := by omega
    have hu : ulp m.units = 1 := by rw [ulp, he, Nat.pow_zero]
    rw [hu, Nat.div_one] at hlt ⊢
    rw [he, Nat.zero_mul, Nat.zero_add]
    split
    · rfl
    case isFalse h =>
      have hdiv : m.units / 2 ^ 52 = 1 := by omega
      rw [hdiv, Nat.sub_self, Nat.pow_zero, Nat.mul_one]
      omega

theorem Magnitude.bits_lt (m : Magnitude) : m.bits < 2047 * 2 ^ 52 := by
  obtain ⟨hlt, -⟩ := m.significand
  have hlog := m.log2_lt
  unfold bits
  omega

/-- A double is the nearest one to itself. -/
theorem ofRatio_units (s : Bool) (m : Magnitude) : ofRatio s m.units 1 = .finite s m := by
  have hround : roundUnits m.units 1 = m.units := by
    apply Nat.le_antisymm
    · exact roundUnits_le Nat.one_pos m.representable (by rw [Nat.mul_one])
    · exact le_roundUnits Nat.one_pos m.representable (by rw [Nat.mul_one])
  rw [ofRatio, dif_pos (by rw [hround]; exact m.bounded)]
  congr

theorem ofBits_toBits (x : Binary64) : ofBits x.toBits = x := by
  cases x with
  | nan => rfl
  | inf s => cases s <;> rfl
  | finite s m =>
    have hlt := m.bits_lt
    have hmod : (toBits (.finite s m)) % 2 ^ 63 = m.bits := by
      cases s <;> simp only [toBits, if_true, Bool.false_eq_true, if_false] <;> omega
    have hsign : decide (2 ^ 63 ≤ toBits (.finite s m)) = s := by
      cases s <;> simp only [toBits, if_true, Bool.false_eq_true, if_false, decide_eq_true_iff,
        decide_eq_false_iff_not] <;> omega
    rw [ofBits, hmod, if_neg (by omega), hsign, m.unitsOfBits_bits, ofRatio_units]

theorem toBits_lt (x : Binary64) : x.toBits < 2 ^ 64 := by
  cases x with
  | nan => decide
  | inf s => cases s <;> decide
  | finite s m =>
    have hlt := m.bits_lt
    cases s <;> simp only [toBits, if_true, Bool.false_eq_true, if_false] <;> omega

end Binary64

end XavierDB
