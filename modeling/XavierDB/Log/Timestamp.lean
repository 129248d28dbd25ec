import XavierDB.Base.Calendar
import Mathlib.Order.Monotone.Basic
import Mathlib.Tactic.IntervalCases

/-!
# Timestamps (`src/state.rs`)

`fmt_ts` turns the seconds since the epoch into a date by eras of 400 years that
begin in March, so that the leap day is the last of its year. The date is the
one the calendar counts the same seconds to.
-/

namespace XavierDB.Log

open Calendar

/-- The fields of `fmt_ts`; `/` of the source truncates. For a `u64` of seconds
no value here leaves `i64`. -/
def civil (secs : ℕ) : DateTime :=
  let days : ℤ := (secs / 86400 : ℕ)
  let rem := secs % 86400
  let z := days + 719468
  let era := (if 0 ≤ z then z else z - 146096).tdiv 146097
  let doe := z - era * 146097
  let yoe := (doe - doe.tdiv 1460 + doe.tdiv 36524 - doe.tdiv 146096).tdiv 365
  let y := yoe + era * 400
  let doy := doe - (365 * yoe + yoe.tdiv 4 - yoe.tdiv 100)
  let mp := (5 * doy + 2).tdiv 153
  let dd := doy - (153 * mp + 2).tdiv 5 + 1
  let mm := if mp < 10 then mp + 3 else mp - 9
  let yy := if mm ≤ 2 then y + 1 else y
  ⟨yy, mm, dd, rem / 3600, rem % 3600 / 60, rem % 60⟩

/-- A number padded with zeros, the sign first. -/
def zeroPad (width : ℕ) (i : ℤ) : String :=
  if i < 0 then "-" ++ String.ofList ((toString i.natAbs).toList.leftpad (width - 1) '0')
  else String.ofList ((toString i).toList.leftpad width '0')

/-- `fmt_ts` at a time. -/
def fmtTs (secs micros : ℕ) : String :=
  let t := civil secs
  zeroPad 4 t.year ++ "-" ++ zeroPad 2 t.month ++ "-" ++ zeroPad 2 t.day ++ "T" ++
    zeroPad 2 t.hour ++ ":" ++ zeroPad 2 t.minute ++ ":" ++ zeroPad 2 t.second ++ "." ++
    zeroPad 6 micros ++ "Z"

example : fmtTs 1786715990 912518 = "2026-08-14T13:59:50.912518Z" := by decide +kernel

/-! ## Years of an era -/

/-- The days of an era before its year `n`. -/
def yearStart (n : ℕ) : ℕ := 365 * n + n / 4 - n / 100 + n / 400

/-- A day of the era without the leap days before it. -/
def leapless (doe : ℕ) : ℕ := doe - doe / 1460 + doe / 36524 - doe / 146096

theorem leapless_mono : Monotone leapless := by
  refine monotone_nat_of_le_succ fun doe => ?_
  unfold leapless
  omega

/-- The first and the last day of each year of an era. -/
theorem leapless_yearStart : ∀ n ≤ 400, leapless (yearStart n - 1) < 365 * n ∨ n = 0 := by
  decide +kernel

theorem le_leapless_yearStart : ∀ n < 400, 365 * n ≤ leapless (yearStart n) := by
  decide +kernel

/-- The year of the era in which a day lies. -/
theorem yearStart_le {doe : ℕ} (h : doe < 146097) :
    leapless doe / 365 < 400 ∧ yearStart (leapless doe / 365) ≤ doe ∧
      doe < yearStart (leapless doe / 365 + 1) := by
  have hlast : leapless doe ≤ 145999 := leapless_mono (Nat.le_sub_one_of_lt h)
  refine ⟨by omega, ?_, ?_⟩
  · by_contra hlt
    have hle : leapless doe ≤ leapless (yearStart (leapless doe / 365) - 1) :=
      leapless_mono (by omega)
    rcases leapless_yearStart (leapless doe / 365) (by omega) with hn | hn
    · omega
    · rw [hn] at hlt
      exact hlt (Nat.zero_le _)
  · by_contra hge
    rw [Nat.not_lt] at hge
    by_cases hn : leapless doe / 365 + 1 < 400
    · have hle := (le_leapless_yearStart _ hn).trans (leapless_mono hge)
      omega
    · have h400 : leapless doe / 365 + 1 = 400 := by omega
      have hera : yearStart 400 = 146097 := rfl
      rw [h400, hera] at hge
      omega

/-! ## Months of a year -/

/-- The days of the first `mp` months from March on. -/
def marchDays (mp : ℤ) : ℤ := (153 * mp + 2) / 5

/-- The month and day of day `doy` of the year that begins in March of year `y`. -/
structure MarchDate (y doy yy mm dd : ℤ) : Prop where
  month : 1 ≤ mm ∧ mm ≤ 12
  day : 1 ≤ dd ∧ dd ≤ monthDays yy mm
  count : daysBefore yy + daysOfMonths yy (mm - 1).toNat + (dd - 1) =
    daysBefore (y + 1) - 306 + doy

theorem monthDays_march (y : ℤ) {mp : ℕ} (h : mp < 10) :
    (monthDays y (mp + 3) : ℤ) = marchDays (mp + 1) - marchDays mp := by
  interval_cases mp <;> rfl

theorem daysOfMonths_march (y : ℤ) {mp : ℕ} (h : mp ≤ 10) :
    (daysOfMonths y (mp + 2) : ℤ) = daysOfMonths y 2 + marchDays mp := by
  induction mp with
  | zero => rfl
  | succ mp ih =>
    have hmonth := monthDays_march y (by omega : mp < 10)
    have hnext : daysOfMonths y (mp + 1 + 2) =
        daysOfMonths y (mp + 2) + monthDays y (mp + 3) := rfl
    rw [hnext, Int.natCast_add, ih (by omega), hmonth, Int.natCast_succ]
    omega

theorem daysBefore_march (y : ℤ) : daysBefore y + daysOfMonths y 2 = daysBefore (y + 1) - 306 := by
  have hstep := daysBefore_succ y
  have hmonths : (daysOfMonths y 2 : ℤ) = yearDays y - 306 := by
    unfold yearDays daysOfMonths daysOfMonths monthDays
    by_cases h : IsLeap y <;> simp [h, daysOfMonths]
  omega

theorem marchDate_of_lt (y : ℤ) {doy : ℤ} {mp : ℕ} (h : mp < 10)
    (hmp : (5 * doy + 2) / 153 = mp) :
    MarchDate y doy y (mp + 3) (doy - (153 * mp + 2) / 5 + 1) where
  month := by omega
  day := by
    have hmonth := monthDays_march y h
    unfold marchDays at hmonth
    omega
  count := by
    have hdays := daysOfMonths_march y (Nat.le_of_lt h)
    have hmarch := daysBefore_march y
    have hnat : ((mp : ℤ) + 3 - 1).toNat = mp + 2 := by omega
    unfold marchDays at hdays
    rw [hnat, hdays]
    omega

/-- January and February count to the year after; the leap day is the last of all. -/
theorem marchDate_of_ge (y : ℤ) {doy : ℤ} {mp : ℕ} (h : 10 ≤ mp)
    (hmp : (5 * doy + 2) / 153 = mp) (hdoy : doy < yearDays (y + 1)) :
    MarchDate y doy (y + 1) (mp - 9) (doy - (153 * mp + 2) / 5 + 1) := by
  have hle := yearDays_le (y + 1)
  obtain rfl | rfl : mp = 10 ∨ mp = 11 := by omega
  · refine ⟨by omega, ?_, ?_⟩
    · have hjan : monthDays (y + 1) 1 = 31 := rfl
      show 1 ≤ _ ∧ _ ≤ (monthDays (y + 1) 1 : ℤ)
      omega
    · show daysBefore (y + 1) + 0 + _ = _
      omega
  · refine ⟨by omega, ?_, ?_⟩
    · have hfeb : (monthDays (y + 1) 2 : ℤ) = yearDays (y + 1) - 337 := by
        unfold yearDays monthDays
        by_cases hl : IsLeap (y + 1) <;> simp [hl]
      show 1 ≤ _ ∧ _ ≤ (monthDays (y + 1) 2 : ℤ)
      omega
    · show daysBefore (y + 1) + 31 + _ = _
      omega

/-! ## The date -/

/-- The fields from the year that begins in March on. -/
def ofMarch (y doy : ℤ) (rem : ℕ) : DateTime :=
  let mp := (5 * doy + 2) / 153
  let mm := if mp < 10 then mp + 3 else mp - 9
  ⟨if mm ≤ 2 then y + 1 else y, mm, doy - (153 * mp + 2) / 5 + 1, rem / 3600, rem % 3600 / 60,
    rem % 60⟩

theorem marchDate_ofMarch {y doy : ℤ} (h0 : 0 ≤ doy) (hdoy : doy < yearDays (y + 1)) (rem : ℕ) :
    MarchDate y doy (ofMarch y doy rem).year (ofMarch y doy rem).month (ofMarch y doy rem).day := by
  obtain ⟨mp, hmp⟩ : ∃ mp : ℕ, (5 * doy + 2) / 153 = mp :=
    ⟨((5 * doy + 2) / 153).toNat, by omega⟩
  unfold ofMarch
  dsimp only
  rw [hmp]
  by_cases h : mp < 10
  · have hmm : (if (mp : ℤ) < 10 then (mp : ℤ) + 3 else mp - 9) = mp + 3 := if_pos (by omega)
    rw [hmm, if_neg (by omega)]
    exact marchDate_of_lt y h hmp
  · have hle := yearDays_le (y + 1)
    have hmm : (if (mp : ℤ) < 10 then (mp : ℤ) + 3 else mp - 9) = mp - 9 := if_neg (by omega)
    rw [hmm, if_pos (by omega)]
    exact marchDate_of_ge y (by omega) hmp hdoy

/-- In years from March on, an era is as long as any other. -/
theorem daysBefore_era {era yoe : ℕ} (h : yoe < 400) :
    daysBefore ((yoe + era * 400 : ℕ) + 1) = 146097 * era + yearStart yoe ∧
      (yearStart (yoe + 1) : ℤ) - yearStart yoe = yearDays ((yoe + era * 400 : ℕ) + 1) := by
  unfold daysBefore yearStart yearDays
  refine ⟨by omega, ?_⟩
  by_cases hl : IsLeap ((yoe + era * 400 : ℕ) + 1)
  · rw [if_pos hl]
    unfold IsLeap at hl
    omega
  · rw [if_neg hl]
    unfold IsLeap at hl
    omega

theorem civil_eq (secs : ℕ) : ∃ era yoe doy : ℕ, yoe < 400 ∧
    secs / 86400 + 719468 = 146097 * era + yearStart yoe + doy ∧
    yearStart yoe + doy < yearStart (yoe + 1) ∧
    civil secs = ofMarch (yoe + era * 400 : ℕ) doy (secs % 86400) := by
  obtain ⟨z, hz⟩ : ∃ z, z = secs / 86400 + 719468 := ⟨_, rfl⟩
  obtain ⟨hyoe, hlo, hhi⟩ := yearStart_le (Nat.mod_lt z (by decide : 146097 > 0))
  obtain ⟨yoe, hyoe'⟩ : ∃ yoe, yoe = leapless (z % 146097) / 365 := ⟨_, rfl⟩
  rw [← hyoe'] at hyoe hlo hhi
  refine ⟨z / 146097, yoe, z % 146097 - yearStart yoe, hyoe, by omega, by omega, ?_⟩
  have hera : (if (0 : ℤ) ≤ (secs / 86400 : ℕ) + 719468 then ((secs / 86400 : ℕ) + 719468 : ℤ)
      else (secs / 86400 : ℕ) + 719468 - 146096).tdiv 146097 = (z / 146097 : ℕ) := by
    rw [if_pos (by omega), Int.tdiv_eq_ediv_of_nonneg (by omega)]
    omega
  have hdoe : ((secs / 86400 : ℕ) + 719468 : ℤ) - (z / 146097 : ℕ) * 146097 =
      (z % 146097 : ℕ) := by omega
  have hyear : ((z % 146097 : ℕ) - ((z % 146097 : ℕ) : ℤ).tdiv 1460 +
      ((z % 146097 : ℕ) : ℤ).tdiv 36524 - ((z % 146097 : ℕ) : ℤ).tdiv 146096 : ℤ).tdiv 365 = yoe := by
    unfold leapless at hyoe'
    simp only [Int.tdiv_eq_ediv_of_nonneg (Int.natCast_nonneg _)]
    rw [Int.tdiv_eq_ediv_of_nonneg (by omega)]
    omega
  have hdoy : ((z % 146097 : ℕ) : ℤ) - (365 * yoe + (yoe : ℤ).tdiv 4 - (yoe : ℤ).tdiv 100) =
      (z % 146097 - yearStart yoe : ℕ) := by
    simp only [Int.tdiv_eq_ediv_of_nonneg (Int.natCast_nonneg _)]
    unfold yearStart at hlo ⊢
    omega
  unfold civil ofMarch
  simp only [hera, hdoe, hyear, hdoy]
  generalize z % 146097 - yearStart yoe = doy
  have hmp : (5 * (doy : ℤ) + 2).tdiv 153 = (5 * doy + 2) / 153 :=
    Int.tdiv_eq_ediv_of_nonneg (by omega)
  have hdd : (153 * ((5 * (doy : ℤ) + 2) / 153) + 2).tdiv 5 =
      (153 * ((5 * doy + 2) / 153) + 2) / 5 := Int.tdiv_eq_ediv_of_nonneg (by omega)
  have hyy : ((yoe + z / 146097 * 400 : ℕ) : ℤ) = yoe + (z / 146097 : ℕ) * 400 := by omega
  rw [hmp, hdd, hyy]

theorem MarchDate.dayCount {y doy : ℤ} {t : DateTime} (h : MarchDate y doy t.year t.month t.day)
    (hyear : 1970 ≤ t.year) : t.dayCount = daysBefore (y + 1) - 306 + doy - 719162 := by
  have hepoch : daysBefore 1970 = 719162 := rfl
  have hnat : (1970 : ℤ) + (t.year - 1970).toNat = t.year := by omega
  have hcount := h.count
  unfold DateTime.dayCount
  rw [daysOfYears_eq, hnat, hepoch]
  omega

/-- The epoch lies in the year that begins in March of 1969. -/
theorem epoch_le_ofMarch {y doy : ℤ} (h : 719468 ≤ daysBefore (y + 1) + doy) (hdoy : doy < 366)
    (rem : ℕ) : 1970 ≤ (ofMarch y doy rem).year := by
  unfold daysBefore at h
  unfold ofMarch
  dsimp only
  split
  · split <;> omega
  · split <;> omega

/-- The text's fields are a date and a time of the calendar, and counting to it from
the epoch gives the seconds back. -/
theorem civil_counts (secs : ℕ) : (civil secs).Valid ∧ 1970 ≤ (civil secs).year ∧
    (civil secs).secondCount = secs := by
  obtain ⟨era, yoe, doy, hyoe, hdays, hlt, heq⟩ := civil_eq secs
  obtain ⟨hera, hlen⟩ := @daysBefore_era era yoe hyoe
  rw [heq]
  generalize hy : ((yoe + era * 400 : ℕ) : ℤ) = y at hera hlen ⊢
  have hmarch := @marchDate_ofMarch y doy (by omega) (by omega) (secs % 86400)
  have hlong := yearDays_le (y + 1)
  have hyear := @epoch_le_ofMarch y doy (by omega) (by omega) (secs % 86400)
  refine ⟨⟨hmarch.month, hmarch.day, ?_, ?_, ?_⟩, hyear, ?_⟩
  · show secs % 86400 / 3600 < 24
    omega
  · show secs % 86400 % 3600 / 60 < 60
    omega
  · show secs % 86400 % 60 < 60
    omega
  · have hcount := hmarch.dayCount hyear
    unfold DateTime.secondCount
    rw [hcount, hera]
    show _ * 86400 + ((secs % 86400 / 3600 * 3600 + secs % 86400 % 3600 / 60 * 60 +
      secs % 86400 % 60 : ℕ) : ℤ) = secs
    omega

end XavierDB.Log
