import Mathlib.Data.Int.Order.Basic

/-!
# `DatabaseEngine.Library.Calendar`: the proleptic Gregorian calendar

Dates by year, month and day, with a year 0 and years before it, and their numbers. The count goes
by years that begin in March, so that the day a leap year has more is the last of its year.

* `dayNumber_lt`: a later date has a larger number, whatever the two years.
* `dayNumber_inj`: two dates with one number are one date.
* `daysBefore_succ`: the count leaves no day out and counts none twice between two years.
-/

set_option autoImplicit false

namespace Library

/-- A year, a month and a day. -/
structure CivilDate where
  year : Int
  month : Int
  day : Int
  deriving DecidableEq

/-- Years that 4 divides are leap years, of those that 100 divides only every fourth. -/
def Leap (year : Int) : Prop := year % 4 = 0 ∧ year % 100 ≠ 0 ∨ year % 400 = 0

instance (year : Int) : Decidable (Leap year) := inferInstanceAs (Decidable (_ ∨ _))

/-- The days of a month. -/
def monthLength (year month : Int) : Int :=
  if month = 2 then (if Leap year then 29 else 28)
  else if month = 4 ∨ month = 6 ∨ month = 9 ∨ month = 11 then 30
  else 31

/-- No month has more than 31 days. -/
theorem monthLength_le (year month : Int) : monthLength year month ≤ 31 := by
  unfold monthLength
  split
  · split <;> decide
  · split <;> decide

/-- A date that the calendar has. -/
structure CivilDate.Valid (date : CivilDate) : Prop where
  month : 1 ≤ date.month ∧ date.month ≤ 12
  day : 1 ≤ date.day ∧ date.day ≤ monthLength date.year date.month

instance (date : CivilDate) : Decidable date.Valid :=
  decidable_of_iff (_ ∧ _) ⟨fun ⟨h₁, h₂⟩ => ⟨h₁, h₂⟩, fun ⟨h₁, h₂⟩ => ⟨h₁, h₂⟩⟩

/-- The order of the calendar. -/
def CivilDate.Before (a b : CivilDate) : Prop :=
  a.year < b.year ∨ a.year = b.year ∧
    (a.month < b.month ∨ a.month = b.month ∧ a.day < b.day)

/-! ### Years that begin in March -/

/-- The year, counted from March on. -/
def CivilDate.marchYear (date : CivilDate) : Int :=
  if date.month ≤ 2 then date.year - 1 else date.year

/-- The months from March on, from 0. -/
def CivilDate.marchMonth (date : CivilDate) : Int :=
  if date.month ≤ 2 then date.month + 9 else date.month - 3

/-- The day of the year, from 0. -/
def CivilDate.dayOfYear (date : CivilDate) : Int := (153 * date.marchMonth + 2) / 5 + date.day - 1

/-- The days from March of the year 0 to March of another. -/
def daysBefore (year : Int) : Int := 365 * year + year / 4 - year / 100 + year / 400

/-- The length of the year that begins in March of a year. -/
def yearLength (year : Int) : Int := if Leap (year + 1) then 366 else 365

/-- The days since March 1 of the year 0. -/
def CivilDate.dayNumber (date : CivilDate) : Int := daysBefore date.marchYear + date.dayOfYear

/-- A year from March has 365 days, or 366 when the February that ends it is that of a leap year. -/
theorem yearLength_cases (year : Int) :
    yearLength year = 365 ∨ yearLength year = 366 ∧ Leap (year + 1) := by
  unfold yearLength
  split
  · next h => exact Or.inr ⟨rfl, h⟩
  · exact Or.inl rfl

/-- The next year begins a year's length later. -/
theorem daysBefore_succ (year : Int) : daysBefore (year + 1) = daysBefore year + yearLength year := by
  unfold daysBefore yearLength
  by_cases hleap : Leap (year + 1)
  · rw [if_pos hleap]
    unfold Leap at hleap
    omega
  · rw [if_neg hleap]
    unfold Leap at hleap
    omega

/-- A year is over before a later one begins. -/
theorem daysBefore_le {a b : Int} (h : a < b) : daysBefore a + yearLength a ≤ daysBefore b := by
  rw [← daysBefore_succ]
  unfold daysBefore
  omega

/-- A year of 400 is followed by one like the first. -/
theorem daysBefore_era (era year : Int) :
    daysBefore (year + era * 400) = era * 146097 + daysBefore year := by
  unfold daysBefore
  omega

/-! ### Numbers of dates -/

section
variable {a b : CivilDate}

/-- Months from March on are numbered from 0 to 11. -/
theorem marchMonth_bounds (h : 1 ≤ a.month ∧ a.month ≤ 12) :
    0 ≤ a.marchMonth ∧ a.marchMonth ≤ 11 := by
  unfold CivilDate.marchMonth
  split <;> omega

/-- The months but the last are as long as the formula for the days before them says, and the last
has what is left of the year. -/
theorem monthLength_march (h : 1 ≤ a.month ∧ a.month ≤ 12) :
    monthLength a.year a.month =
      if a.marchMonth < 11 then (153 * (a.marchMonth + 1) + 2) / 5 - (153 * a.marchMonth + 2) / 5
      else yearLength a.marchYear - 337 := by
  have hcases : a.month = 1 ∨ a.month = 2 ∨ a.month = 3 ∨ a.month = 4 ∨ a.month = 5 ∨ a.month = 6 ∨
      a.month = 7 ∨ a.month = 8 ∨ a.month = 9 ∨ a.month = 10 ∨ a.month = 11 ∨ a.month = 12 := by
    omega
  unfold monthLength CivilDate.marchMonth CivilDate.marchYear yearLength
  rcases hcases with h | h | h | h | h | h | h | h | h | h | h | h <;> rw [h]
  case inr.inl =>
    -- February
    show (if Leap a.year then 29 else 28) = (if Leap (a.year - 1 + 1) then 366 else 365) - 337
    rw [Int.sub_add_cancel]
    split <;> rfl
  all_goals rfl

/-- A date is one of the days of its year. -/
theorem dayOfYear_bounds (h : a.Valid) : 0 ≤ a.dayOfYear ∧ a.dayOfYear < yearLength a.marchYear := by
  have hmonth := marchMonth_bounds h.month
  have hlength := monthLength_march h.month
  have hday := h.day
  have hyear := yearLength_cases a.marchYear
  unfold CivilDate.dayOfYear
  split at hlength <;> omega

/-- In one year from March on, a later date is a later day. -/
theorem dayOfYear_lt (ha : a.Valid) (hb : b.Valid)
    (h : a.marchMonth < b.marchMonth ∨ a.marchMonth = b.marchMonth ∧ a.day < b.day) :
    a.dayOfYear < b.dayOfYear := by
  have hbound := (marchMonth_bounds hb.month).2
  have hday := ha.day
  have hday' := hb.day.1
  unfold CivilDate.dayOfYear
  rcases h with hmonth | ⟨hmonth, hday'⟩
  · rw [monthLength_march ha.month, if_pos (by omega)] at hday
    omega
  · rw [hmonth]
    omega

/-- The order of the calendar is that of the years from March. -/
theorem CivilDate.Before.march (ha : a.Valid) (hb : b.Valid) (h : a.Before b) :
    a.marchYear < b.marchYear ∨ a.marchYear = b.marchYear ∧
      (a.marchMonth < b.marchMonth ∨ a.marchMonth = b.marchMonth ∧ a.day < b.day) := by
  have := ha.month
  have := hb.month
  unfold CivilDate.Before at h
  unfold CivilDate.marchYear CivilDate.marchMonth
  split <;> split <;> omega

/-- An earlier date has a smaller number. -/
theorem dayNumber_lt (ha : a.Valid) (hb : b.Valid) (h : a.Before b) : a.dayNumber < b.dayNumber := by
  have hbounds := dayOfYear_bounds ha
  have hbounds' := dayOfYear_bounds hb
  unfold CivilDate.dayNumber
  rcases h.march ha hb with hyear | ⟨hyear, hday⟩
  · have hle := daysBefore_le hyear
    omega
  · have hlt := dayOfYear_lt ha hb hday
    rw [hyear]
    omega

/-- Of two dates one is before the other. -/
theorem CivilDate.before_total (h : a ≠ b) : a.Before b ∨ b.Before a := by
  have hne : a.year ≠ b.year ∨ a.month ≠ b.month ∨ a.day ≠ b.day := by
    by_contra hall
    simp only [not_or, not_not] at hall
    obtain ⟨hyear, hmonth, hday⟩ := hall
    cases a
    cases b
    exact h (by simp_all)
  unfold CivilDate.Before
  omega

/-- No two dates have one number. -/
theorem dayNumber_inj (ha : a.Valid) (hb : b.Valid) (h : a.dayNumber = b.dayNumber) : a = b := by
  by_contra hne
  rcases CivilDate.before_total hne with hlt | hlt
  · exact absurd h (Int.ne_of_lt (dayNumber_lt ha hb hlt))
  · exact absurd h.symm (Int.ne_of_lt (dayNumber_lt hb ha hlt))

end

end Library
