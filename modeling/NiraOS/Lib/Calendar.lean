import Mathlib.Data.Nat.Basic
import Mathlib.Tactic.Common

/-!
# Days of the Gregorian calendar

Days are counted from the first day of the year 0.  A day number may be past the end of its
month: it is then counted into the next.
-/

namespace Calendar

def isLeap (year : ℕ) : Bool := year % 4 = 0 && (year % 100 ≠ 0 || year % 400 = 0)

def daysInYear (year : ℕ) : ℕ := if isLeap year then 366 else 365

def daysInMonth (year month : ℕ) : ℕ :=
  if month = 2 then (if isLeap year then 29 else 28)
  else if month = 4 ∨ month = 6 ∨ month = 9 ∨ month = 11 then 30
  else 31

def daysBeforeYear : ℕ → ℕ
  | 0 => 0
  | year + 1 => daysBeforeYear year + daysInYear year

/-- The days of a year before a month. -/
def daysBeforeMonth (year : ℕ) : ℕ → ℕ
  | 0 => 0
  | 1 => 0
  | month + 2 => daysBeforeMonth year (month + 1) + daysInMonth year (month + 1)

/-- How many days are before a date. -/
def dayNumber (year month day : ℕ) : ℕ :=
  daysBeforeYear year + daysBeforeMonth year month + (day - 1)

theorem daysBeforeYear_mono {y y' : ℕ} (h : y ≤ y') : daysBeforeYear y ≤ daysBeforeYear y' := by
  induction h with
  | refl => exact Nat.le_refl _
  | step _ ih => exact Nat.le_trans ih (Nat.le_add_right ..)

theorem daysBeforeMonth_mono (y : ℕ) {m m' : ℕ} (h : m ≤ m') :
    daysBeforeMonth y m ≤ daysBeforeMonth y m' := by
  induction h with
  | refl => exact Nat.le_refl _
  | @step m' _ ih =>
      refine Nat.le_trans ih ?_
      cases m' with
      | zero => exact Nat.le_refl _
      | succ m' => exact Nat.le_add_right ..

theorem daysBeforeMonth_succ (y : ℕ) {m : ℕ} (h : 1 ≤ m) :
    daysBeforeMonth y (m + 1) = daysBeforeMonth y m + daysInMonth y m := by
  obtain ⟨m, rfl⟩ := Nat.exists_eq_add_of_le' h
  rfl

/-- The months fill the year. -/
theorem daysBeforeMonth_end (y : ℕ) : daysBeforeMonth y 13 = daysInYear y := by
  unfold daysInYear
  cases h : isLeap y <;> simp [daysBeforeMonth, daysInMonth, h]

/-- A month ends before a later one starts, in the same year or in another. -/
theorem endOfMonth_le {y m y' : ℕ} (m' : ℕ) (hm : 1 ≤ m ∧ m ≤ 12) (h : y < y' ∨ y = y' ∧ m < m') :
    daysBeforeYear y + daysBeforeMonth y m + daysInMonth y m ≤
      daysBeforeYear y' + daysBeforeMonth y' m' := by
  rw [Nat.add_assoc, ← daysBeforeMonth_succ y hm.1]
  rcases h with hyear | ⟨rfl, hmonth⟩
  · have hend := daysBeforeMonth_mono y (show m + 1 ≤ 13 by omega)
    rw [daysBeforeMonth_end] at hend
    have hnext := daysBeforeYear_mono (show y + 1 ≤ y' from hyear)
    rw [daysBeforeYear] at hnext
    omega
  · have hnext := daysBeforeMonth_mono y (show m + 1 ≤ m' from hmonth)
    omega

end Calendar
