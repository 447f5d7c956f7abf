import Mathlib.Order.Monotone.Basic
import QueryWire.Calendar.Timestamp

namespace QueryWire.Calendar

/-- The days of the years in front of the given one, year 1 being the first. -/
def daysBeforeYear (year : Int) : Int :=
  365 * (year - 1) + (year - 1) / 4 - (year - 1) / 100 + (year - 1) / 400

/-- The days of the first months of a year. -/
def daysOfMonths (year : Int) : Nat → Nat
  | 0 => 0
  | months + 1 => daysOfMonths year months + monthLength year (months + 1)

@[simp]
theorem daysOfMonths_zero (year : Int) : daysOfMonths year 0 = 0 := rfl

theorem daysBeforeYear_succ (year : Int) :
    daysBeforeYear (year + 1) = daysBeforeYear year + daysOfMonths year 12 := by
  have months : daysOfMonths year 12 = if isLeap year then 366 else 365 := by
    cases leap : isLeap year <;> simp [daysOfMonths, monthLength, leap]
  rw [months]
  simp only [daysBeforeYear, isLeap, Bool.and_eq_true, Bool.or_eq_true, decide_eq_true_eq]
  split <;> omega

theorem one_le_monthLength (year : Int) (month : Nat) : 1 ≤ monthLength year month := by
  unfold monthLength
  split
  · split <;> decide
  · split <;> decide

theorem strictMono_daysOfMonths (year : Int) : StrictMono (daysOfMonths year) :=
  strictMono_nat_of_lt_succ fun months =>
    Nat.lt_add_of_pos_right (one_le_monthLength year (months + 1))

theorem daysBeforeYear_le {year later : Int} (order : year ≤ later) :
    daysBeforeYear year ≤ daysBeforeYear later := by
  refine monotone_int_of_le_succ (fun year => ?_) order
  rw [daysBeforeYear_succ]
  omega

namespace Date

/-- The number of the day, the first day of year 1 being day 1. -/
def dayNumber (date : Date) : Int :=
  daysBeforeYear date.year + daysOfMonths date.year (date.month - 1) + date.day

theorem daysOfMonths_month (date : Date) :
    daysOfMonths date.year date.month =
      daysOfMonths date.year (date.month - 1) + monthLength date.year date.month := by
  obtain ⟨months, shape⟩ : ∃ months, date.month = months + 1 :=
    ⟨date.month - 1, by have := date.month_bounds; omega⟩
  rw [shape, daysOfMonths, Nat.add_sub_cancel]

/-- A day has a number inside its month. -/
theorem dayNumber_le (date : Date) :
    date.dayNumber ≤ daysBeforeYear date.year + daysOfMonths date.year date.month := by
  have inside := date.day_bounds
  have months := date.daysOfMonths_month
  simp only [dayNumber]
  omega

/-- A day has a number inside its year. -/
theorem dayNumber_le_daysBeforeYear (date : Date) :
    date.dayNumber ≤ daysBeforeYear (date.year + 1) := by
  have months : daysOfMonths date.year date.month ≤ daysOfMonths date.year 12 :=
    (strictMono_daysOfMonths date.year).monotone date.month_bounds.2
  have inside := date.dayNumber_le
  rw [daysBeforeYear_succ]
  omega

theorem daysBeforeYear_lt_dayNumber (date : Date) :
    daysBeforeYear date.year < date.dayNumber := by
  have inside := date.day_bounds
  simp only [dayNumber]
  omega

theorem year_le_of_dayNumber {date date' : Date} (same : date.dayNumber = date'.dayNumber) :
    date.year ≤ date'.year := by
  by_contra later
  have years : daysBeforeYear (date'.year + 1) ≤ daysBeforeYear date.year :=
    daysBeforeYear_le (by omega)
  have above := date.daysBeforeYear_lt_dayNumber
  have below := date'.dayNumber_le_daysBeforeYear
  omega

theorem month_le_of_dayNumber {date date' : Date} (sameYear : date.year = date'.year)
    (same : date.dayNumber = date'.dayNumber) : date.month ≤ date'.month := by
  by_contra later
  have months : daysOfMonths date.year date'.month ≤ daysOfMonths date.year (date.month - 1) :=
    (strictMono_daysOfMonths date.year).monotone (by omega)
  have inside := date.day_bounds
  have below := date'.dayNumber_le
  rw [← same, ← sameYear] at below
  simp only [dayNumber] at below
  omega

theorem dayNumber_injective : Function.Injective dayNumber := by
  intro date date' same
  have sameYear : date.year = date'.year :=
    Int.le_antisymm (year_le_of_dayNumber same) (year_le_of_dayNumber same.symm)
  have sameMonth : date.month = date'.month :=
    Nat.le_antisymm (month_le_of_dayNumber sameYear same)
      (month_le_of_dayNumber sameYear.symm same.symm)
  have sameDay : date.day = date'.day := by
    simp only [dayNumber, sameYear, sameMonth] at same
    omega
  exact Option.some.inj ((of?_fields date).symm.trans
    (of?_eq_some_iff.mpr ⟨sameYear.symm, sameMonth.symm, sameDay.symm⟩))

/-- The day behind the last day of a month is the first one of the next month, and
behind December that is in the next year. -/
theorem next?_eq_some {date later : Date} (found : date.next? = some later) :
    later.dayNumber = date.dayNumber + 1 ∧
      date.year ≤ later.year ∧ later.year ≤ date.year + 1 := by
  have days := date.day_bounds
  have months := date.month_bounds
  have whole := date.daysOfMonths_month
  simp only [next?] at found
  split at found
  · obtain ⟨sameYear, sameMonth, nextDay⟩ := of?_eq_some_iff.mp found
    simp only [dayNumber, sameYear, sameMonth, nextDay]
    omega
  · have last : date.day = monthLength date.year date.month := by omega
    split at found
    · obtain ⟨sameYear, nextMonth, firstDay⟩ := of?_eq_some_iff.mp found
      simp only [dayNumber, sameYear, nextMonth, firstDay, Nat.add_sub_cancel]
      omega
    · obtain ⟨nextYear, firstMonth, firstDay⟩ := of?_eq_some_iff.mp found
      have december : date.month = 12 := by omega
      rw [december] at whole last
      simp only [dayNumber, nextYear, firstMonth, firstDay, december, daysBeforeYear_succ,
        Nat.sub_self, daysOfMonths_zero]
      omega

theorem previous?_eq_some {date earlier : Date} (found : date.previous? = some earlier) :
    earlier.dayNumber = date.dayNumber - 1 ∧
      date.year - 1 ≤ earlier.year ∧ earlier.year ≤ date.year := by
  have days := date.day_bounds
  have months := date.month_bounds
  have whole := earlier.daysOfMonths_month
  simp only [previous?] at found
  split at found
  · obtain ⟨sameYear, sameMonth, dayBefore⟩ := of?_eq_some_iff.mp found
    simp only [dayNumber, sameYear, sameMonth, dayBefore]
    omega
  · split at found
    · obtain ⟨sameYear, monthBefore, lastDay⟩ := of?_eq_some_iff.mp found
      simp only [sameYear, monthBefore] at whole
      simp only [dayNumber, sameYear, monthBefore, lastDay]
      omega
    · obtain ⟨yearBefore, december, lastDay⟩ := of?_eq_some_iff.mp found
      have january : date.month = 1 := by omega
      have years : daysBeforeYear date.year =
          daysBeforeYear earlier.year + daysOfMonths earlier.year 12 := by
        rw [← daysBeforeYear_succ, yearBefore, Int.sub_add_cancel]
      have lengthOfDecember : monthLength earlier.year 12 = 31 := rfl
      rw [december, lengthOfDecember] at whole
      simp only [dayNumber, december, lastDay, january, years, Nat.sub_self, daysOfMonths_zero]
      omega

theorem isSome_next? (date : Date) (before : date.year < lastYear) : date.next?.isSome := by
  have years := date.year_bounds
  have months := date.month_bounds
  have days := date.day_bounds
  unfold next?
  split
  · exact isSome_of? years months (by omega)
  · split
    · exact isSome_of? years (by omega) ⟨Nat.le_refl 1, one_le_monthLength _ _⟩
    · exact isSome_of? (by omega) (by omega) ⟨Nat.le_refl 1, one_le_monthLength _ _⟩

theorem isSome_previous? (date : Date) (behind : firstYear < date.year) :
    date.previous?.isSome := by
  have years := date.year_bounds
  have months := date.month_bounds
  have days := date.day_bounds
  unfold previous?
  split
  · exact isSome_of? years months (by omega)
  · split
    · exact isSome_of? years (by omega) ⟨one_le_monthLength _ _, Nat.le_refl _⟩
    · exact isSome_of? (by omega) (by omega) ⟨by decide, Nat.le_refl 31⟩

end Date

namespace Timestamp

/-- The seconds from the day in front of year 1 on, leap seconds not counted. -/
def instant (time : Timestamp) : Int :=
  time.date.dayNumber * secondsPerDay + time.second

theorem eq_of_instant {time time' : Timestamp} (same : time.instant = time'.instant)
    (sameNano : time.nano = time'.nano) : time = time' := by
  have bound := time.second_lt
  have bound' := time'.second_lt
  simp only [instant, secondsPerDay] at same bound bound'
  have sameDate : time.date = time'.date := Date.dayNumber_injective (by omega)
  have sameSecond : time.second = time'.second := by rw [sameDate] at same; omega
  cases time
  cases time'
  subst sameDate sameSecond sameNano
  rfl

/-- Moving to UTC takes the offset from the instant, keeps the nanoseconds and leaves the
year at most for the next one to it. -/
theorem toUtc?_eq_some {wall moment : Timestamp} {offset : Offset}
    (moved : wall.toUtc? offset = some moment) :
    moment.instant = wall.instant - offset.seconds ∧ moment.nano = wall.nano ∧
      wall.date.year - 1 ≤ moment.date.year ∧ moment.date.year ≤ wall.date.year + 1 := by
  have within : wall.second < 86400 := wall.second_lt
  have bounds := offset.bounds
  have length : (secondsPerDay : Int) = 86400 := rfl
  obtain ⟨date, found, rfl⟩ := Option.map_eq_some_iff.mp moved
  -- An offset is shorter than a day, so the date moves by one day at the most.
  simp only [instant, length, true_and] at bounds found ⊢
  split at found
  · have before := Date.previous?_eq_some found
    omega
  · split at found
    · cases found
      omega
    · have behind := Date.next?_eq_some found
      omega

/-- A leap second at the end of its minute stays there just if the offset is whole minutes. -/
theorem secondOfMinute_toUtc? {wall moment : Timestamp} {offset : Offset}
    (moved : wall.toUtc? offset = some moment) :
    moment.secondOfMinute = wall.secondOfMinute ↔ 60 ∣ offset.seconds := by
  have shifted := (toUtc?_eq_some moved).1
  have length : (secondsPerDay : Int) = 86400 := rfl
  -- Days are whole minutes, so the instants agree with the clocks in the second of the minute.
  simp only [instant, length] at shifted
  simp only [secondOfMinute]
  omega

theorem isSome_toUtc? {wall : Timestamp} (offset : Offset)
    (inside : firstYear < wall.date.year ∧ wall.date.year < lastYear) :
    (wall.toUtc? offset).isSome := by
  rw [toUtc?, Option.isSome_map]
  split
  · exact wall.date.isSome_previous? inside.1
  · split
    · rfl
    · exact wall.date.isSome_next? inside.2

theorem toUtc?_zero (time : Timestamp)
    (bounds : -secondsPerDay < (0 : Int) ∧ (0 : Int) < secondsPerDay) :
    time.toUtc? ⟨0, bounds⟩ = some time := by
  obtain ⟨date, second, nano, second_lt, nano_lt⟩ := time
  have positive : ¬ ((second : Int) - 0 < 0) := by omega
  have withinDay : (second : Int) - 0 < secondsPerDay := by omega
  have same : (((second : Int) - 0) % secondsPerDay).toNat = second := by
    rw [Int.sub_zero, Int.emod_eq_of_lt (by omega) (by omega), Int.toNat_natCast]
  simp only [toUtc?, positive, withinDay, ↓reduceIte, Option.map_some, same]

end Timestamp

theorem LocalTime.toUtc?_wall (clock : LocalTime) :
    clock.wall.toUtc? clock.offset = some clock.utc :=
  (Option.some_get clock.inCalendar).symm

end QueryWire.Calendar
