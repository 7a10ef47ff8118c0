import AssuranceLayer.Instant

set_option autoImplicit false

/-!
Days and dates as the language computes them, from `Date.UTC` to the parts of a date, and that they
are the calendar's.
-/
namespace AssuranceLayer.JavaScript
open Instant (daysInMonth isLeap daysFromCivil monthStart)

/-! ## From a date to a time -/

/-- `DayFromYear`. -/
def dayFromYear (y : ℤ) : ℤ := 365 * (y - 1970) + (y - 1969) / 4 - (y - 1901) / 100 + (y - 1601) / 400

/-- The days of a year before its month, counted from zero. -/
def monthOffset (y : ℤ) (month : ℕ) : ℤ := ∑ k ∈ Finset.range month, (daysInMonth y (k + 1) : ℤ)

/-- `MakeFullYear`. -/
def fullYear (y : ℕ) : ℤ := if y ≤ 99 then 1900 + y else y

/-- `MakeDay`. A date past its month runs over into the next. -/
def makeDay (y : ℤ) (month date : ℕ) : ℤ := dayFromYear y + monthOffset y month + date - 1

/-- `Date.UTC`, in milliseconds. Years of four digits are within the range of times. -/
def dateUtc (year month date hour minute second : ℕ) : ℤ :=
  makeDay (fullYear year) month date * 86400000 +
    (hour * 3600000 + minute * 60000 + second * 1000)

/-! ## From a time to a date -/

def dayOf (time : ℤ) : ℤ := time / 86400000

/-- `YearFromTime`: an estimate by the mean length of a year is off by one at most. -/
def yearFromDay (day : ℤ) : ℤ :=
  let y := 1970 + day * 400 / 146097
  if dayFromYear (y + 1) ≤ day then y + 1 else if day < dayFromYear y then y - 1 else y

def dayWithinYear (day : ℤ) : ℤ := day - dayFromYear (yearFromDay day)

/-- `MonthFromTime`. -/
def monthFromDay (day : ℤ) : ℕ :=
  ((List.range 12).find? fun m => dayWithinYear day < monthOffset (yearFromDay day) (m + 1)).getD 11

/-- `DateFromTime`. -/
def dateFromDay (day : ℤ) : ℤ :=
  dayWithinYear day - monthOffset (yearFromDay day) (monthFromDay day) + 1

/-! ## Years and months -/

theorem dayFromYear_strictMono : StrictMono dayFromYear := by
  intro y z h
  simp only [dayFromYear]
  omega

theorem yearFromDay_bounds (day : ℤ) :
    dayFromYear (yearFromDay day) ≤ day ∧ day < dayFromYear (yearFromDay day + 1) := by
  rw [yearFromDay]
  generalize hy : 1970 + day * 400 / 146097 = y
  have hlow : dayFromYear (y - 1) ≤ day := by
    simp only [dayFromYear]
    omega
  have hhigh : day < dayFromYear (y + 2) := by
    simp only [dayFromYear]
    omega
  split_ifs with h1 h2
  · exact ⟨h1, by rwa [add_assoc]⟩
  · exact ⟨hlow, by rwa [sub_add_cancel]⟩
  · exact ⟨not_lt.mp h2, not_le.mp h1⟩

theorem yearFromDay_eq {y day : ℤ} (h : dayFromYear y ≤ day) (h' : day < dayFromYear (y + 1)) :
    yearFromDay day = y := by
  obtain ⟨hlow, hhigh⟩ := yearFromDay_bounds day
  have h1 := dayFromYear_strictMono.lt_iff_lt.mp (hlow.trans_lt h')
  have h2 := dayFromYear_strictMono.lt_iff_lt.mp (h.trans_lt hhigh)
  omega

theorem monthOffset_mono (y : ℤ) : Monotone (monthOffset y) := by
  refine monotone_nat_of_le_succ fun m => ?_
  rw [monthOffset, monthOffset, Finset.sum_range_succ]
  omega

theorem monthOffset_succ (y : ℤ) (m : ℕ) : monthOffset y (m + 1) = monthOffset y m + daysInMonth y (m + 1) :=
  Finset.sum_range_succ _ _

theorem monthOffset_nonneg (y : ℤ) (m : ℕ) : 0 ≤ monthOffset y m :=
  monthOffset_mono y (Nat.zero_le m)

theorem monthOffset_year (y : ℤ) : dayFromYear y + monthOffset y 12 = dayFromYear (y + 1) := by
  simp only [monthOffset, Finset.sum_range_succ, Finset.sum_range_zero, daysInMonth, isLeap, dayFromYear]
  split_ifs <;> simp at * <;> omega

theorem monthFromDay_eq {day : ℤ} {m : ℕ} (hm : m < 12)
    (h : monthOffset (yearFromDay day) m ≤ dayWithinYear day)
    (h' : dayWithinYear day < monthOffset (yearFromDay day) (m + 1)) : monthFromDay day = m := by
  have hfind : ((List.range 12).find? fun m => dayWithinYear day < monthOffset (yearFromDay day) (m + 1)) =
      some m := by
    refine List.find?_range_eq_some.mpr ⟨decide_eq_true h', List.mem_range.mpr hm, fun j hj => ?_⟩
    have hle := (monthOffset_mono (yearFromDay day) (Nat.succ_le_of_lt hj)).trans h
    simpa using hle
  rw [monthFromDay, hfind, Option.getD_some]

theorem dayWithinYear_lt (day : ℤ) :
    dayWithinYear day < monthOffset (yearFromDay day) (monthFromDay day + 1) := by
  have hyear := monthOffset_year (yearFromDay day)
  have hbounds := yearFromDay_bounds day
  rw [monthFromDay]
  cases hfind : (List.range 12).find? fun m =>
      dayWithinYear day < monthOffset (yearFromDay day) (m + 1) with
  | none =>
    rw [Option.getD_none, dayWithinYear]
    exact sub_lt_iff_lt_add'.mpr (hbounds.2.trans_eq hyear.symm)
  | some m =>
    rw [Option.getD_some]
    exact of_decide_eq_true (List.find?_range_eq_some.mp hfind).1

/-! ## There and back -/

/-- The date that comes back is the one put in exactly when its month has that day. -/
theorem back_iff {y : ℤ} {m d : ℕ} (hm : m < 12) (hd : 1 ≤ d) :
    (yearFromDay (makeDay y m d) = y ∧ monthFromDay (makeDay y m d) = m ∧ dateFromDay (makeDay y m d) = d) ↔
      d ≤ daysInMonth y (m + 1) := by
  have hsucc := monthOffset_succ y m
  constructor
  · rintro ⟨hyear, hmonth, _⟩
    have hlt := dayWithinYear_lt (makeDay y m d)
    rw [hmonth, hyear, dayWithinYear, hyear, makeDay] at hlt
    omega
  · intro hle
    have hyear : yearFromDay (makeDay y m d) = y := by
      have hoffset := monthOffset_mono y (Nat.succ_le_of_lt hm)
      have hnonneg := monthOffset_nonneg y m
      have hlast := monthOffset_year y
      rw [Nat.succ_eq_add_one] at hoffset
      refine yearFromDay_eq ?_ ?_ <;> rw [makeDay] <;> omega
    have hday : dayWithinYear (makeDay y m d) = monthOffset y m + d - 1 := by
      rw [dayWithinYear, hyear, makeDay]
      omega
    have hmonth : monthFromDay (makeDay y m d) = m := by
      refine monthFromDay_eq hm ?_ ?_ <;> rw [hyear, hday] <;> omega
    refine ⟨hyear, hmonth, ?_⟩
    rw [dateFromDay, hyear, hmonth, hday]
    omega

/-- A year of the first century comes back as one of the twentieth. -/
theorem back_ne {y m d : ℕ} (hy : y ≤ 99) (hd : 1 ≤ d) :
    yearFromDay (makeDay (fullYear y) m d) ≠ y := by
  intro h
  have hnonneg := monthOffset_nonneg (fullYear y) m
  have hle : dayFromYear (fullYear y) ≤ makeDay (fullYear y) m d := by
    rw [makeDay]
    omega
  have hlt := dayFromYear_strictMono.lt_iff_lt.mp (hle.trans_lt (yearFromDay_bounds _).2)
  rw [h, fullYear, if_pos hy] at hlt
  omega

theorem dayOf_dateUtc (year month date : ℕ) {hour minute second : ℕ}
    (h : hour ≤ 23 ∧ minute ≤ 59 ∧ second ≤ 59) :
    dayOf (dateUtc year month date hour minute second) = makeDay (fullYear year) month date := by
  rw [dayOf, dateUtc]
  omega

/-! ## The calendar -/

theorem daysFromCivil_year (y : ℕ) : daysFromCivil y 1 1 = dayFromYear y := by
  rw [Instant.daysFromCivil_eq (Int.natCast_nonneg y), dayFromYear]
  norm_num
  omega

theorem daysFromCivil_month (y : ℕ) {m : ℕ} (hm : m < 12) :
    daysFromCivil y (m + 1) 1 = dayFromYear y + monthOffset y m := by
  induction m with
  | zero => exact (daysFromCivil_year y).trans (add_zero _).symm
  | succ m ih =>
    have hlength := Instant.month_length y (Nat.le_add_left 1 m) hm.le
    have hstart := Instant.monthStart_eq y (Nat.le_add_left 1 (m + 1)) hm
    rw [Nat.add_sub_cancel] at hstart
    rw [← hstart, ← hlength, ih (by omega), monthOffset_succ, add_assoc]

theorem makeDay_eq (y : ℕ) {m d : ℕ} (hm : m < 12) : makeDay y m d = daysFromCivil y (m + 1) d := by
  rw [Instant.daysFromCivil_day, daysFromCivil_month y hm, makeDay]

end AssuranceLayer.JavaScript
