import QueryWire.Decimal.Shortest

namespace QueryWire.Decimal

/-- The powers of ten of a first digit that is written positionally. -/
def isPositional (leading : Int) : Bool :=
  -5 ≤ leading && leading < 16

def withoutTrailingZeros (digits : List Char) : List Char :=
  (digits.reverse.dropWhile (· = '0')).reverse

/-- Positional notation of digits whose first stands at the power `leading`. -/
def positional (digits : List Char) (leading : Int) : List Char :=
  if leading < 0 then
    "0.".toList ++ List.replicate (leading.natAbs - 1) '0' ++ digits
  else
    let whole := leading.toNat + 1
    if digits.length ≤ whole then
      digits ++ List.replicate (whole - digits.length) '0' ++ ".0".toList
    else digits.take whole ++ '.' :: digits.drop whole

/-- Notation with an exponent, whose sign is always written: one digit, the
others behind a point if there are any, and the power of ten. -/
def scientific (digits : List Char) (leading : Int) : List Char :=
  let sign := if leading < 0 then '-' else '+'
  let power := 'e' :: sign :: Text.decimal leading.natAbs
  match digits with
  | [] => power
  | [first] => first :: power
  | first :: rest => first :: '.' :: rest ++ power

def Scaled.text (decimal : Scaled) : List Char :=
  let digits := Text.decimal decimal.digits
  let leading := decimal.exponent + (digits.length : Int) - 1
  let digits := withoutTrailingZeros digits
  if isPositional leading then positional digits leading
  else scientific digits leading

namespace Binary64

def magnitudeText (magnitude : Nat) : List Char :=
  if magnitude = 0 then "0.0".toList
  else if magnitude < infinite then (shortest magnitude).text
  else if magnitude = infinite then "inf".toList
  else "NaN".toList

/-- The text of a double.  A negative zero keeps its sign; what is no number has
none. -/
def text (x : Binary64) : List Char :=
  if x.isNegative && !x.isNaN then '-' :: magnitudeText x.magnitude
  else magnitudeText x.magnitude

example : text ⟨0x3FF0000000000000⟩ = "1.0".toList := by decide +kernel
example : text ⟨0x8000000000000000⟩ = "-0.0".toList := by decide +kernel
example : text ⟨0x3EE4F8B588E368F1⟩ = "0.00001".toList := by decide +kernel
example : text ⟨0x4341C37937E08000⟩ = "1e+16".toList := by decide +kernel
example : text ⟨0x0000000000000001⟩ = "5e-324".toList := by decide +kernel

/-- Two decimals of seventeen digits are equally near; the even one is taken. -/
example : text ⟨0x3E60000000000000⟩ = "2.9802322387695312e-8".toList := by
  decide +kernel

end Binary64

end QueryWire.Decimal
