namespace QueryWire.Calendar

def isLeap (year : Int) : Bool :=
  year % 4 = 0 && (year % 100 ≠ 0 || year % 400 = 0)

/-- The number of days of a month, January being month 1. -/
def monthLength (year : Int) (month : Nat) : Nat :=
  if month = 2 then (if isLeap year then 29 else 28)
  else if month = 4 ∨ month = 6 ∨ month = 9 ∨ month = 11 then 30
  else 31

def firstYear : Int := -262143

def lastYear : Int := 262142

/-- A date of the proleptic Gregorian calendar. -/
structure Date where
  year : Int
  month : Nat
  day : Nat
  year_bounds : firstYear ≤ year ∧ year ≤ lastYear
  month_bounds : 1 ≤ month ∧ month ≤ 12
  day_bounds : 1 ≤ day ∧ day ≤ monthLength year month
deriving DecidableEq

namespace Date

/-- The date of the given fields, if the calendar has it. -/
def of? (year : Int) (month day : Nat) : Option Date :=
  if years : firstYear ≤ year ∧ year ≤ lastYear then
    if months : 1 ≤ month ∧ month ≤ 12 then
      if days : 1 ≤ day ∧ day ≤ monthLength year month then
        some ⟨year, month, day, years, months, days⟩
      else none
    else none
  else none

theorem of?_fields (date : Date) : of? date.year date.month date.day = some date := by
  simp [of?, date.year_bounds, date.month_bounds, date.day_bounds]

theorem of?_eq_some_iff {year : Int} {month day : Nat} {date : Date} :
    of? year month day = some date ↔ date.year = year ∧ date.month = month ∧ date.day = day := by
  constructor
  · intro found
    simp only [of?] at found
    split at found
    · split at found
      · split at found <;> cases found
        exact ⟨rfl, rfl, rfl⟩
      · cases found
    · cases found
  · rintro ⟨rfl, rfl, rfl⟩
    exact of?_fields date

theorem isSome_of? {year : Int} {month day : Nat} (years : firstYear ≤ year ∧ year ≤ lastYear)
    (months : 1 ≤ month ∧ month ≤ 12) (days : 1 ≤ day ∧ day ≤ monthLength year month) :
    (of? year month day).isSome := by
  simp [of?, years, months, days]

/-- The day after, unless it lies beyond the last year. -/
def next? (date : Date) : Option Date :=
  if date.day < monthLength date.year date.month then
    of? date.year date.month (date.day + 1)
  else if date.month < 12 then of? date.year (date.month + 1) 1
  else of? (date.year + 1) 1 1

/-- The day before, unless it lies before the first year. -/
def previous? (date : Date) : Option Date :=
  if 1 < date.day then of? date.year date.month (date.day - 1)
  else if 1 < date.month then
    of? date.year (date.month - 1) (monthLength date.year (date.month - 1))
  else of? (date.year - 1) 12 31

end Date

end QueryWire.Calendar
