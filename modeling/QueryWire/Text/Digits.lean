namespace QueryWire.Text

/-- The decimal text of a number, without leading zeros. -/
def decimal (n : Nat) : List Char :=
  Nat.toDigits 10 n

theorem isDigit_of_mem_decimal {n : Nat} {c : Char} (member : c ∈ decimal n) :
    c.isDigit = true :=
  Nat.isDigit_of_mem_toDigits (by decide) (by decide) member

/-- The decimal text of a number, a negative one with a minus sign in front. -/
def signedDecimal (n : Int) : List Char :=
  if n < 0 then '-' :: decimal n.natAbs else decimal n.natAbs

/-- The decimal text of a number with zeros in front up to `width` digits.  A
number of more digits is written in full. -/
def padded (width n : Nat) : List Char :=
  List.replicate (width - (decimal n).length) '0' ++ decimal n

def digitValue (c : Char) : Nat :=
  c.toNat - '0'.toNat

/-- The value of a run of digit characters. -/
def numeral (digits : List Char) : Nat :=
  digits.foldl (fun value c => 10 * value + digitValue c) 0

def hexDigit (n : Nat) : Char :=
  Nat.digitChar (n % 16)

example : padded 4 33 = ['0', '0', '3', '3'] := by decide
example : padded 2 123 = ['1', '2', '3'] := by decide
example : numeral (padded 4 33) = 33 := by decide

end QueryWire.Text
