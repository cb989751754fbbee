import Mathlib.Data.Int.Notation
import Mathlib.Tactic.SplitIfs

/-!
# Years and days of the year

Of the calendar of Java, for days counted from the first of January 1970. It is the Julian calendar
up to the fourth of October 1582, which is followed by the fifteenth in the Gregorian one.
-/
namespace NumentaApps.UtcCalendar

def isLeapYear (year : ℤ) : Bool :=
  if 1582 < year then (year % 4 = 0 && year % 100 ≠ 0) || year % 400 = 0 else year % 4 = 0

def daysInYear (year : ℤ) : ℤ := if year = 1582 then 355 else if isLeapYear year then 366 else 365

/-- The day that the year begins with. -/
def firstDay (year : ℤ) : ℤ :=
  365 * (year - 1970) +
    if 1582 < year then (year - 1) / 4 - (year - 1) / 100 + (year - 1) / 400 - 477
    else (year - 1) / 4 - 479

/-- By the mean length of a year. -/
def estimatedYear (day : ℤ) : ℤ :=
  if firstDay 1583 ≤ day then (day + 719162) * 400 / 146097 + 1 else (day + 719164) * 4 / 1461 + 1

def yearOfDay (day : ℤ) : ℤ :=
  if day < firstDay (estimatedYear day) then estimatedYear day - 1
  else if firstDay (estimatedYear day + 1) ≤ day then estimatedYear day + 1
  else estimatedYear day

/-- From one on. -/
def dayOfYear (day : ℤ) : ℤ := day - firstDay (yearOfDay day) + 1

theorem isLeapYear_iff (year : ℤ) : isLeapYear year = true ↔
    year % 4 = 0 ∧ (1582 < year → year % 100 ≠ 0 ∨ year % 400 = 0) := by
  rw [isLeapYear]
  split
  · simp only [Bool.or_eq_true, Bool.and_eq_true, decide_eq_true_eq]
    omega
  · simp only [decide_eq_true_eq]
    omega

theorem daysInYear_of_leap {year : ℤ} (h : isLeapYear year = true) : daysInYear year = 366 := by
  have hcut : year ≠ 1582 := by
    rintro rfl
    cases h
  rw [daysInYear, if_neg hcut, if_pos h]

theorem daysInYear_of_not_leap {year : ℤ} (h : isLeapYear year = false) :
    355 ≤ daysInYear year ∧ daysInYear year ≤ 365 := by
  rw [daysInYear, h]
  split <;> decide

theorem firstDay_succ (year : ℤ) : firstDay (year + 1) = firstDay year + daysInYear year := by
  simp only [firstDay, daysInYear, isLeapYear_iff]
  split_ifs <;> omega

/-- The estimate is off by one at most. -/
theorem estimatedYear_spec (day : ℤ) :
    firstDay (estimatedYear day - 1) ≤ day ∧ day < firstDay (estimatedYear day + 1 + 1) := by
  have hcut : firstDay 1583 = -141349 := rfl
  simp only [estimatedYear, hcut]
  split
  · simp only [firstDay]
    split_ifs <;> omega
  · simp only [firstDay]
    split_ifs <;> omega

theorem yearOfDay_spec (day : ℤ) :
    firstDay (yearOfDay day) ≤ day ∧ day < firstDay (yearOfDay day + 1) := by
  obtain ⟨hlower, hupper⟩ := estimatedYear_spec day
  rw [yearOfDay]
  split
  · next hlt =>
    rw [Int.sub_add_cancel]
    exact ⟨hlower, hlt⟩
  · next hle =>
    split
    · next hnext => exact ⟨hnext, hupper⟩
    · next hnext => exact ⟨Int.not_lt.mp hle, Int.not_le.mp hnext⟩

theorem firstDay_add_le {year year' : ℤ} (h : year < year') : firstDay year + 355 ≤ firstDay year' := by
  simp only [firstDay]
  split_ifs <;> omega

theorem dayOfYear_sub {a b : ℤ} (h : yearOfDay a = yearOfDay b) :
    dayOfYear b - dayOfYear a = b - a := by
  unfold dayOfYear
  rw [h]
  omega

/-- Within the shortest year the year is passed once at most. -/
theorem yearOfDay_eq_succ {a b : ℤ} (hle : a ≤ b) (hb : b ≤ a + 355)
    (hne : yearOfDay a ≠ yearOfDay b) : yearOfDay b = yearOfDay a + 1 := by
  obtain ⟨ha₁, ha⟩ := yearOfDay_spec a
  obtain ⟨hb₁, hb₂⟩ := yearOfDay_spec b
  rcases Int.lt_trichotomy (yearOfDay b) (yearOfDay a + 1) with hlt | heq | hlt
  · -- not an earlier year either
    have hearlier : yearOfDay b + 1 = yearOfDay a ∨ yearOfDay b + 1 < yearOfDay a := by omega
    rcases hearlier with heq | hlt
    · rw [heq] at hb₂
      omega
    · have := firstDay_add_le hlt
      omega
  · exact heq
  · have := firstDay_add_le hlt
    omega

/-- The last day of December is followed by the first day of a year. -/
theorem dayOfYear_sub_next {a b : ℤ} (h : yearOfDay b = yearOfDay a + 1) :
    dayOfYear b - dayOfYear a = b - a - daysInYear (yearOfDay a) := by
  unfold dayOfYear
  rw [h, firstDay_succ]
  omega

end NumentaApps.UtcCalendar
