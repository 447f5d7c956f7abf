import QueryWire.Calendar.IsoDate
import QueryWire.Calendar.Timestamp

namespace QueryWire.Calendar

/-- The shortest of no, three, six or nine fraction digits that is exact. -/
def fractionText (nano : Nat) : List Char :=
  if nano = 0 then []
  else if nano % 1000000 = 0 then '.' :: Text.padded 3 (nano / 1000000)
  else if nano % 1000 = 0 then '.' :: Text.padded 6 (nano / 1000)
  else '.' :: Text.padded 9 nano

/-- A leap second is written as one second more than the second it is kept at. -/
def Timestamp.text (time : Timestamp) : List Char :=
  let second := time.secondOfMinute + time.nano / nanosPerSecond
  time.date.text ++ 'T' :: Text.padded 2 time.hour ++
    ':' :: Text.padded 2 time.minute ++ ':' :: Text.padded 2 second ++
    fractionText (time.nano % nanosPerSecond) ++ ['Z']

namespace Rfc3339

/-- Reads a date of eight digits; it must exist. -/
def date : Reader Date := do
  let year ← Reader.digits 4
  Reader.expect '-'
  let month ← Reader.digits 2
  Reader.expect '-'
  let day ← Reader.digits 2
  Reader.existing (Date.of? year month day)

def separator : Reader Unit
  | [] => .error .premature
  | c :: rest =>
      if c = 'T' ∨ c = 't' ∨ c = ' ' then .ok ((), rest) else .error .invalid

/-- The nanoseconds of a run of fraction digits; digits behind the ninth do not
count. -/
def nanosOf (run : List Char) : Nat :=
  Text.numeral (run.take 9) * Nat.pow 10 (9 - run.length)

def fraction : Reader Nat
  | [] => .ok (0, [])
  | '.' :: [] => .error .premature
  | '.' :: c :: rest =>
      if c.isDigit then
        .ok (nanosOf ((c :: rest).takeWhile Char.isDigit),
          (c :: rest).dropWhile Char.isDigit)
      else .error .invalid
  | text => .ok (0, text)

/-- Reads a time of day on the given date.  Second 60 is the leap second behind
second 59. -/
def timeOn (date : Date) : Reader Timestamp := do
  let hour ← Reader.digits 2
  Reader.expect ':'
  let minute ← Reader.digits 2
  Reader.expect ':'
  let second ← Reader.digits 2
  let nano ← fraction
  Reader.existing <|
    if second = 60 then Timestamp.of? date hour minute 59 (nano + nanosPerSecond)
    else Timestamp.of? date hour minute second nano

/-- Reads two digits of an offset; two bytes must be left for them. -/
def offsetDigits : Reader Nat := do
  Reader.require 2
  Reader.digits 2

/-- Reads an offset behind its sign, in seconds. -/
def unsignedOffset : Reader Nat := do
  let hours ← offsetDigits
  Reader.expect ':'
  let minutes ← offsetDigits
  Reader.ensure (minutes < 60)
  return hours * 3600 + minutes * 60

/-- Reads an offset in seconds.  The minus sign may also be U+2212. -/
def offset : Reader Int
  | [] => .error .premature
  | c :: rest =>
      if c = 'Z' ∨ c = 'z' then .ok (0, rest)
      else if c = '+' then do
        let (seconds, rest) ← unsignedOffset rest
        .ok (seconds, rest)
      else if c = '-' ∨ c = '\u2212' then do
        let (seconds, rest) ← unsignedOffset rest
        .ok (-seconds, rest)
      else .error .invalid

/-- The least number of bytes that hold a date and a time. -/
def leastBytes : Nat := 19

def timestamp : Reader Timestamp := do
  Reader.require leastBytes
  let date ← date
  separator
  let wall ← timeOn date
  let seconds ← offset
  Reader.atEnd
  let offset ← Reader.existing (Offset.of? seconds)
  Reader.existing (wall.toUtc? offset)

end Rfc3339

def Timestamp.read (text : List Char) : Except ReadFault Timestamp :=
  Reader.readAll Rfc3339.timestamp text

example : (Timestamp.read "2015-01-01T10:00:00.25+02:00".toList).toOption.map Timestamp.text =
    some "2015-01-01T08:00:00.250Z".toList := by decide +kernel

example : (Timestamp.read "1990-12-31T15:59:60-08:00".toList).toOption.map Timestamp.text =
    some "1990-12-31T23:59:60Z".toList := by decide +kernel

end QueryWire.Calendar
