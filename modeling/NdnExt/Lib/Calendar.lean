import Mathlib.Algebra.BigOperators.Group.List.Basic
import Mathlib.Tactic.IntervalCases

/-! The proleptic Gregorian calendar. -/

namespace NdnExt.Lib.Calendar

/-- Days from 1970-01-01. Years start in March, so that the day of a leap year comes last, and
the lengths of the months from March on repeat every five months. -/
def dayNumber (year : Int) (month day : Nat) : Int :=
  let y := if month ≤ 2 then year - 1 else year
  let mp : Int := if month ≤ 2 then month + 9 else month - 3
  365 * y + y / 4 - y / 100 + y / 400 + (153 * mp + 2) / 5 + day - 719469

/-- The days before a year, by the year of its era. -/
theorem days_of_era {yoe : Nat} (era : Int) (small : yoe < 400) :
    365 * (yoe + era * 400) + (yoe + era * 400) / 4 - (yoe + era * 400) / 100 +
      (yoe + era * 400) / 400 = era * 146097 +
    (365 * yoe + (yoe : Int) / 4 - (yoe : Int) / 100) := by
  have fourths : (yoe + era * 400) / 4 = 100 * era + (yoe : Int) / 4 := by omega
  have hundredths : (yoe + era * 400) / 100 = 4 * era + (yoe : Int) / 100 := by omega
  have eras : (yoe + era * 400) / 400 = era := by omega
  rw [fourths, hundredths, eras]
  omega

/-- The year of the era and the day of the year for a day of the 400-year era. -/
theorem year_of_era {doe yoe : Nat} (era : doe < 146097)
    (year : yoe = (doe - doe / 1460 + doe / 36524 - doe / 146096) / 365) :
    365 * yoe + yoe / 4 - yoe / 100 ≤ doe ∧ doe ≤ 365 * yoe + yoe / 4 - yoe / 100 + 365 ∧
      yoe ≤ 399 := by
  rcases Nat.eq_or_lt_of_le (Nat.le_of_lt_succ era) with last | before
  · subst last
    omega
  -- Century `c`, four-year cycle `k` of it, and year `t` of the cycle.
  have noLast : doe / 146096 = 0 := by omega
  obtain ⟨c, century⟩ : ∃ c, c = doe / 36524 := ⟨_, rfl⟩
  obtain ⟨k, cycle⟩ : ∃ k, k = doe % 36524 / 1461 := ⟨_, rfl⟩
  obtain ⟨s, day⟩ : ∃ s, s = doe % 36524 % 1461 := ⟨_, rfl⟩
  have parts : doe = 36524 * c + 1461 * k + s := by omega
  rw [noLast, ← century] at year
  obtain ⟨t, ofCycle⟩ : ∃ t, t = (s - (doe / 1460 - (25 * c + k))) / 365 := ⟨_, rfl⟩
  have years : yoe = 100 * c + 4 * k + t := by omega
  have fourths : yoe / 4 = 25 * c + k := by omega
  have hundredths : yoe / 100 = c := by omega
  rw [fourths, hundredths, parts, years]
  omega

/-- The month from March and the day of the month for a day of the year. -/
theorem month_of_year {doy mp : Nat} (year : doy ≤ 365) (month : mp = (5 * doy + 2) / 153) :
    mp ≤ 11 ∧ (153 * mp + 2) / 5 ≤ doy ∧ doy - (153 * mp + 2) / 5 ≤ 30 := by
  omega

/-- Up to the end of 9999 the year has at most four digits. -/
theorem year_le {year : Int} {month day : Nat} (monthly : month ≤ 12) (real : 1 ≤ month)
    (daily : 1 ≤ day) (early : dayNumber year month day ≤ 2932896) : year ≤ 9999 := by
  by_contra late
  unfold dayNumber at early
  split at early
  · dsimp only at early
    omega
  · dsimp only at early
    omega

/-- From 1970-01-01 on the year is not before 1970. -/
theorem le_year {year : Int} {month day : Nat} (monthly : month ≤ 12) (real : 1 ≤ month)
    (daily : day ≤ 31) (late : 0 ≤ dayNumber year month day) : 1970 ≤ year := by
  by_contra early
  unfold dayNumber at late
  split at late
  · dsimp only at late
    omega
  · dsimp only at late
    omega

/-! ### Days counted year by year and month by month -/

def IsLeap (year : Nat) : Prop := year % 4 = 0 ∧ (year % 100 ≠ 0 ∨ year % 400 = 0)

instance : DecidablePred IsLeap := fun year =>
  inferInstanceAs (Decidable (year % 4 = 0 ∧ (year % 100 ≠ 0 ∨ year % 400 = 0)))

def yearLength (year : Nat) : Nat := if IsLeap year then 366 else 365

def monthLength (year month : Nat) : Nat :=
  if month = 2 then if IsLeap year then 29 else 28
  else if month = 4 ∨ month = 6 ∨ month = 9 ∨ month = 11 then 30 else 31

/-- A day of the calendar. -/
def IsDay (year month day : Nat) : Prop :=
  1 ≤ month ∧ month ≤ 12 ∧ 1 ≤ day ∧ day ≤ monthLength year month

instance (year month day : Nat) : Decidable (IsDay year month day) :=
  inferInstanceAs (Decidable (1 ≤ month ∧ month ≤ 12 ∧ 1 ≤ day ∧ day ≤ monthLength year month))

/-- The days from 1970-01-01. -/
def daysSince (year month day : Nat) : Nat :=
  ((List.range' 1970 (year - 1970)).map yearLength).sum +
    ((List.range' 1 (month - 1)).map (monthLength year)).sum + (day - 1)

theorem dayNumber_next_year (year : Nat) :
    dayNumber (year + 1 : Nat) 1 1 = dayNumber year 1 1 + yearLength year := by
  unfold yearLength
  split
  next leap =>
    unfold IsLeap at leap
    simp only [dayNumber, Nat.one_le_ofNat, if_true]
    omega
  next common =>
    unfold IsLeap at common
    simp only [dayNumber, Nat.one_le_ofNat, if_true]
    omega

theorem dayNumber_new_year (years : Nat) : dayNumber (1970 + years : Nat) 1 1 =
    (((List.range' 1970 years).map yearLength).sum : Nat) := by
  induction years with
  | zero => rfl
  | succ years ih =>
    rw [← Nat.add_assoc, dayNumber_next_year, ih, List.range'_1_concat, List.map_append,
      List.sum_append]
    push_cast
    rfl

theorem dayNumber_in_year {year month day : Nat} (real : 1 ≤ month) (monthly : month ≤ 12)
    (daily : 1 ≤ day) : dayNumber year month day =
      dayNumber year 1 1 + (((List.range' 1 (month - 1)).map (monthLength year)).sum : Nat) +
        (day - 1 : Nat) := by
  by_cases leap : IsLeap year
  · have rule : year % 4 = 0 ∧ (year % 100 ≠ 0 ∨ year % 400 = 0) := leap
    interval_cases month <;> simp [dayNumber, monthLength, List.range'_succ, leap] <;> omega
  · have rule : ¬ (year % 4 = 0 ∧ (year % 100 ≠ 0 ∨ year % 400 = 0)) := leap
    interval_cases month <;> simp [dayNumber, monthLength, List.range'_succ, leap] <;> omega

/-- The formula counts the days. -/
theorem daysSince_eq {year month day : Nat} (late : 1970 ≤ year) (real : 1 ≤ month)
    (monthly : month ≤ 12) (daily : 1 ≤ day) :
    (daysSince year month day : Int) = dayNumber year month day := by
  have years := dayNumber_new_year (year - 1970)
  rw [Nat.add_sub_cancel' late] at years
  rw [dayNumber_in_year real monthly daily, years, daysSince]
  push_cast
  rfl

end NdnExt.Lib.Calendar
