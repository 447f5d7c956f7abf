import QueryWire.Calendar.Date

namespace QueryWire.Calendar

/-! # Timestamps

A leap second is kept as the second before it with nanoseconds of one thousand
million or more, so that the seconds of a day always number 86400.  Moving a
clock time to UTC moves whole seconds only; the nanoseconds, and with them a leap
second, stay as they are.
-/

def secondsPerDay : Nat := 86400

def nanosPerSecond : Nat := 1000000000

structure Timestamp where
  date : Date
  /-- The second of the day. -/
  second : Nat
  /-- The nanosecond of the second, counted on through a leap second. -/
  nano : Nat
  second_lt : second < secondsPerDay
  nano_lt : nano < 2 * nanosPerSecond
deriving DecidableEq

/-- A distance from UTC in seconds, east positive, of less than a day. -/
structure Offset where
  seconds : Int
  bounds : -secondsPerDay < seconds ∧ seconds < secondsPerDay
deriving DecidableEq

namespace Offset

def of? (seconds : Int) : Option Offset :=
  if bounds : -secondsPerDay < seconds ∧ seconds < secondsPerDay then
    some ⟨seconds, bounds⟩
  else none

end Offset

namespace Timestamp

/-- The timestamp of the given fields, if there is such a time of day.  A leap
second is allowed in the last second of any minute. -/
def of? (date : Date) (hour minute second nano : Nat) : Option Timestamp :=
  if fields : hour < 24 ∧ minute < 60 ∧ second < 60 ∧ nano < 2 * nanosPerSecond ∧
      (nano < nanosPerSecond ∨ second = 59) then
    some ⟨date, (hour * 60 + minute) * 60 + second, nano,
      by simp only [secondsPerDay]; omega, fields.2.2.2.1⟩
  else none

def hour (time : Timestamp) : Nat := time.second / 3600

def minute (time : Timestamp) : Nat := time.second / 60 % 60

def secondOfMinute (time : Timestamp) : Nat := time.second % 60

/-- The UTC time of a clock time at the given offset, unless it falls on a day
outside the calendar.  The date moves by at most one day. -/
def toUtc? (wall : Timestamp) (offset : Offset) : Option Timestamp :=
  let second : Int := wall.second - offset.seconds
  let date? :=
    if second < 0 then wall.date.previous?
    else if second < secondsPerDay then some wall.date
    else wall.date.next?
  date?.map fun date =>
    ⟨date, (second % secondsPerDay).toNat, wall.nano,
      by simp only [secondsPerDay]; omega, wall.nano_lt⟩

end Timestamp

/-- A clock time together with the offset from UTC that the clock has. -/
structure LocalTime where
  wall : Timestamp
  offset : Offset
  inCalendar : (wall.toUtc? offset).isSome
deriving DecidableEq

namespace LocalTime

def of? (wall : Timestamp) (offset : Offset) : Option LocalTime :=
  if inCalendar : (wall.toUtc? offset).isSome then some ⟨wall, offset, inCalendar⟩
  else none

def utc (time : LocalTime) : Timestamp :=
  (time.wall.toUtc? time.offset).get time.inCalendar

end LocalTime

end QueryWire.Calendar
