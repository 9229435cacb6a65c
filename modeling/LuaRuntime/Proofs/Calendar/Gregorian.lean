import Mathlib.Algebra.BigOperators.Group.Finset.Basic
import Mathlib.Tactic.IntervalCases
import LuaRuntime.Calendar

/-!
# Days of the Gregorian calendar

The lengths of the months are all there is to the calendar: the first of a month is as many days
from the first of January 1970 as the months in between have, and those before 1970 count negatively
(`daysToFirst`).  `dayNumber` gives the same number without going through the months
(`firstDay_eq`), because it grows from each month to the next by the length of the month
(`firstDay_succ`).

A month is counted from the first month of the year 0, so that its year and its place in the year
are a quotient and a remainder by 12.
-/

namespace LuaRuntime

namespace Calendar

/-! ## Months -/

/-- A year has a leap day if 4 divides it, unless 100 does and 400 does not. -/
def IsLeapYear (year : ℤ) : Prop := 4 ∣ year ∧ (100 ∣ year → 400 ∣ year)

instance (year : ℤ) : Decidable (IsLeapYear year) := inferInstanceAs (Decidable (_ ∧ _))

/-- The number of days of a month, which is counted from 1. -/
def daysInMonth (year month : ℤ) : ℤ :=
  if month = 2 then if IsLeapYear year then 29 else 28
  else if month = 4 ∨ month = 6 ∨ month = 9 ∨ month = 11 then 30
  else 31

/-- The number of days of a month, counted from the first month of the year 0. -/
def monthLength (m : ℤ) : ℤ := daysInMonth (m / 12) (m % 12 + 1)

/-- January 1970. -/
def epoch : ℤ := 12 * 1970

/-- The days from the first of January 1970 to the first of a month, less than zero if it is
earlier. -/
def daysToFirst (m : ℤ) : ℤ :=
  ∑ k ∈ Finset.range (m - epoch).toNat, monthLength (epoch + k) -
    ∑ k ∈ Finset.range (epoch - m).toNat, monthLength (epoch - 1 - k)

theorem daysToFirst_epoch : daysToFirst epoch = 0 := by
  simp [daysToFirst]

/-- From the first of a month to the first of the next one it is as long as the month. -/
theorem daysToFirst_succ (m : ℤ) : daysToFirst (m + 1) = daysToFirst m + monthLength m := by
  rw [daysToFirst, daysToFirst]
  rcases lt_or_ge m epoch with hbefore | hafter
  · obtain ⟨n, hn⟩ := Int.eq_ofNat_of_zero_le (by omega : 0 ≤ epoch - 1 - m)
    have hmonths : (epoch - m).toNat = n + 1 := by omega
    have hfewer : (epoch - (m + 1)).toNat = n := by omega
    have hnone : (m + 1 - epoch).toNat = 0 := by omega
    have hnone' : (m - epoch).toNat = 0 := by omega
    have hmonth : epoch - 1 - (n : ℤ) = m := by omega
    rw [hmonths, hfewer, hnone, hnone', Finset.sum_range_succ, hmonth]
    omega
  · obtain ⟨n, hn⟩ := Int.eq_ofNat_of_zero_le (by omega : 0 ≤ m - epoch)
    have hmonths : (m + 1 - epoch).toNat = n + 1 := by omega
    have hfewer : (m - epoch).toNat = n := by omega
    have hnone : (epoch - (m + 1)).toNat = 0 := by omega
    have hnone' : (epoch - m).toNat = 0 := by omega
    have hmonth : epoch + (n : ℤ) = m := by omega
    rw [hmonths, hfewer, hnone, hnone', Finset.sum_range_succ, hmonth]
    omega

/-! ## Numbers of days -/

theorem isLeap_iff (year : ℤ) : isLeap year = true ↔ IsLeapYear year := by
  simp only [isLeap, IsLeapYear, Bool.and_eq_true, Bool.or_eq_true, beq_iff_eq, bne_iff_ne]
  omega

/-- A year is a day longer if it has a leap day. -/
theorem leapDays_succ (year : ℤ) :
    leapDays (year + 1) = leapDays year + if IsLeapYear year then 1 else 0 := by
  have hdiv (y d : ℤ) (hd : 0 ≤ d) : y.fdiv d = y / d := Int.fdiv_eq_ediv_of_nonneg y hd
  simp only [leapDays, hdiv _ 4 (by decide), hdiv _ 100 (by decide), hdiv _ 400 (by decide)]
  split
  · next h =>
    rw [IsLeapYear] at h
    omega
  · next h =>
    rw [IsLeapYear] at h
    omega

/-- The number of the first day of a month. -/
def firstDay (m : ℤ) : ℤ := dayNumber (m / 12) (m % 12).toNat

/-- In a year the first of a month comes as many days after the first of the month before it as that
month has. -/
theorem dayNumber_next_month (year : ℤ) {month : ℕ} (h : month < 11) :
    dayNumber year (month + 1) = dayNumber year month + daysInMonth year (month + 1) := by
  simp only [dayNumber, isLeap_iff, daysInMonth]
  generalize 365 * (year - 1970) + (leapDays year - leapDays 1970) = past
  by_cases hleap : IsLeapYear year
  · simp only [hleap, and_true, if_true]
    interval_cases month <;> simp [daysBeforeMonth] <;> omega
  · simp only [hleap, and_false, if_false]
    interval_cases month <;> simp [daysBeforeMonth] <;> omega

/-- The year ends with a month of 31 days. -/
theorem dayNumber_next_year (year : ℤ) :
    dayNumber (year + 1) 0 = dayNumber year 11 + daysInMonth year 12 := by
  have hleap := leapDays_succ year
  simp only [dayNumber, isLeap_iff, hleap, daysInMonth, daysBeforeMonth]
  by_cases hyear : IsLeapYear year <;> simp [hyear] <;> omega

/-- The first days of a month and of the next one are as far apart as the month is long. -/
theorem firstDay_succ (m : ℤ) : firstDay (m + 1) = firstDay m + monthLength m := by
  obtain ⟨year, month, hmonth, rfl⟩ : ∃ (year : ℤ) (month : ℕ), month < 12 ∧
      m = 12 * year + month := ⟨m / 12, (m % 12).toNat, by omega, by omega⟩
  have hplace : (12 * year + month) % 12 = (month : ℤ) := by omega
  have hyear : (12 * year + month) / 12 = year := by omega
  rw [firstDay, firstDay, monthLength, hyear, hplace, Int.toNat_natCast]
  by_cases hlast : month = 11
  · have hyear' : (12 * year + month + 1) / 12 = year + 1 := by omega
    have hplace' : (12 * year + month + 1) % 12 = 0 := by omega
    rw [hyear', hplace', hlast]
    exact dayNumber_next_year year
  · have hyear' : (12 * year + month + 1) / 12 = year := by omega
    have hplace' : (12 * year + month + 1) % 12 = ((month + 1 : ℕ) : ℤ) := by omega
    rw [hyear', hplace', Int.toNat_natCast]
    exact dayNumber_next_month year (by omega)

/-- The number of a first day counts the days of the months from January 1970 on. -/
theorem firstDay_eq (m : ℤ) : firstDay m = daysToFirst m := by
  induction m using Int.inductionOn' (b := epoch) with
  | zero =>
    rw [daysToFirst_epoch]
    decide
  | succ m _ ih => rw [firstDay_succ, daysToFirst_succ, ih]
  | pred m _ ih =>
    have hday := firstDay_succ (m - 1)
    have hdays := daysToFirst_succ (m - 1)
    rw [sub_add_cancel] at hday hdays
    omega

end Calendar

end LuaRuntime
