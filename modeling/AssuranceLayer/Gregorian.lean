import Mathlib.Algebra.BigOperators.Intervals
import Mathlib.Data.Nat.Basic

set_option autoImplicit false

/-! The Gregorian calendar, carried back to the year zero: which days there are, and their count. -/
namespace AssuranceLayer.Gregorian

/-- Every fourth year, but of the full centuries only every fourth. -/
def Leap (year : ℕ) : Prop := 4 ∣ year ∧ (100 ∣ year → 400 ∣ year)

instance (year : ℕ) : Decidable (Leap year) := inferInstanceAs (Decidable (_ ∧ _))

def monthLength (year month : ℕ) : ℕ :=
  if month = 2 then if Leap year then 29 else 28
  else if month ∈ [4, 6, 9, 11] then 30 else 31

def yearLength (year : ℕ) : ℕ := if Leap year then 366 else 365

def Exists (year month day : ℕ) : Prop := (1 ≤ month ∧ month ≤ 12) ∧ 1 ≤ day ∧ day ≤ monthLength year month

/-- The days before a day, from the first of January of the year zero on. -/
def daysBefore (year month day : ℕ) : ℕ :=
  ∑ y ∈ Finset.range year, yearLength y + ∑ m ∈ Finset.range (month - 1), monthLength year (m + 1) + (day - 1)

theorem year_months (year : ℕ) : ∑ m ∈ Finset.range 12, monthLength year (m + 1) = yearLength year := by
  by_cases h : Leap year <;> simp [yearLength, monthLength, Finset.sum_range_succ, h]

end AssuranceLayer.Gregorian
