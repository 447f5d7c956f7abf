import QueryWire.Calendar.Date
import QueryWire.Calendar.Reader
import QueryWire.Text.Blank

namespace QueryWire.Calendar

def yearText (year : Int) : List Char :=
  if year < 0 then '-' :: Text.padded 4 year.natAbs
  else if year ≤ 9999 then Text.padded 4 year.natAbs
  else '+' :: Text.padded 4 year.natAbs

def Date.text (date : Date) : List Char :=
  yearText date.year ++ '-' :: Text.padded 2 date.month ++
    '-' :: Text.padded 2 date.day

namespace IsoDate

def skipBlanks : Reader Unit := fun text =>
  .ok ((), text.dropWhile Text.isBlank)

/-- Reads a year: a sign and any number of digits, or one to four digits. -/
def signedYear : Reader Int
  | '-' :: rest => do
      let (value, rest) ← Reader.digitsUpTo rest.length rest
      .ok (-value, rest)
  | '+' :: rest => do
      let (value, rest) ← Reader.digitsUpTo rest.length rest
      .ok (value, rest)
  | text => do
      let (value, rest) ← Reader.digitsUpTo 4 text
      .ok (value, rest)

/-- Reads a year of the date form.  A year of more than 32 bits is refused
before the text behind it is looked at. -/
def year : Reader Int := do
  skipBlanks
  let value ← signedYear
  Reader.ensure (Int32.minValue.toInt ≤ value ∧ value ≤ Int32.maxValue.toInt)
  return value

/-- Reads a field of one or two digits that counts from 1 to `last`. -/
def field (last : Nat) : Reader Nat := do
  skipBlanks
  let value ← Reader.digitsUpTo 2
  Reader.ensure (1 ≤ value ∧ value ≤ last)
  return value

/-- Reads a date and the end of the text behind it; the date must exist. -/
def date : Reader Date := do
  let year ← year
  Reader.expect '-'
  let month ← field 12
  Reader.expect '-'
  let day ← field 31
  Reader.atEnd
  Reader.existing (Date.of? year month day)

end IsoDate

def Date.read (text : List Char) : Except ReadFault Date :=
  Reader.readAll IsoDate.date text

example : (Date.read "2024-2-29".toList).map Date.text =
    .ok "2024-02-29".toList := by rfl

example : (Date.read "2023-02-29".toList).map Date.text =
    .error .outOfRange := by rfl

end QueryWire.Calendar
