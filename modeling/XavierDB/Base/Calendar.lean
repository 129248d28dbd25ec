import Mathlib.Data.Int.Notation
import Mathlib.Data.Nat.Notation

/-!
# The proleptic Gregorian calendar

Dates are counted year by year and month by month; `daysOfYears_eq` sums the
years up.
-/

namespace XavierDB.Calendar

/-- A leap year: by 4, not by 100, but by 400. -/
def IsLeap (y : ℤ) : Prop := y % 4 = 0 ∧ (y % 100 ≠ 0 ∨ y % 400 = 0)

instance (y : ℤ) : Decidable (IsLeap y) := inferInstanceAs (Decidable (_ ∧ _))

def yearDays (y : ℤ) : ℕ := if IsLeap y then 366 else 365

theorem yearDays_le (y : ℤ) : yearDays y ≤ 366 := by
  unfold yearDays
  split <;> omega

def monthDays (y m : ℤ) : ℕ :=
  if m = 2 then if IsLeap y then 29 else 28
  else if m = 4 ∨ m = 6 ∨ m = 9 ∨ m = 11 then 30
  else 31

/-- The days of the `n` years from `y` on. -/
def daysOfYears (y : ℤ) : ℕ → ℕ
  | 0 => 0
  | n + 1 => daysOfYears y n + yearDays (y + n)

/-- The days of the first `n` months of a year. -/
def daysOfMonths (y : ℤ) : ℕ → ℕ
  | 0 => 0
  | n + 1 => daysOfMonths y n + monthDays y (n + 1)

structure DateTime where
  year : ℤ
  month : ℤ
  day : ℤ
  hour : ℕ
  minute : ℕ
  second : ℕ
  deriving DecidableEq, Repr

namespace DateTime

/-- A date and a time of the calendar. -/
structure Valid (t : DateTime) : Prop where
  month : 1 ≤ t.month ∧ t.month ≤ 12
  day : 1 ≤ t.day ∧ t.day ≤ monthDays t.year t.month
  hour : t.hour < 24
  minute : t.minute < 60
  second : t.second < 60

/-- The days from 1970-01-01 on to a date. -/
def dayCount (t : DateTime) : ℤ :=
  daysOfYears 1970 (t.year - 1970).toNat + daysOfMonths t.year (t.month - 1).toNat + (t.day - 1)

/-- The seconds from 1970-01-01T00:00:00 on. -/
def secondCount (t : DateTime) : ℤ :=
  t.dayCount * 86400 + (t.hour * 3600 + t.minute * 60 + t.second : ℕ)

end DateTime

/-! ## Sums of years -/

/-- The days before a year, from the first on. -/
def daysBefore (y : ℤ) : ℤ := 365 * (y - 1) + (y - 1) / 4 - (y - 1) / 100 + (y - 1) / 400

theorem daysBefore_succ (y : ℤ) : daysBefore (y + 1) = daysBefore y + yearDays y := by
  unfold daysBefore yearDays
  by_cases h : IsLeap y
  · rw [if_pos h]
    unfold IsLeap at h
    omega
  · rw [if_neg h]
    unfold IsLeap at h
    omega

theorem daysOfYears_eq (y : ℤ) (n : ℕ) :
    (daysOfYears y n : ℤ) = daysBefore (y + n) - daysBefore y := by
  induction n with
  | zero => simp [daysOfYears]
  | succ n ih =>
    have hstep := daysBefore_succ (y + n)
    have hnext : y + (n + 1 : ℕ) = y + n + 1 := by omega
    rw [daysOfYears, Int.natCast_add, ih, hnext, hstep]
    omega

end XavierDB.Calendar
