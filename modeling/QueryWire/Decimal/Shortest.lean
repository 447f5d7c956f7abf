import QueryWire.Decimal.Binary64
import QueryWire.Text.Digits

namespace QueryWire.Decimal

/-! # Shortest decimals

A decimal reads back as a double if that double is the nearest one; halfway
between two doubles, the one of even magnitude is read.  `shortest` chooses,
among the decimals that read back, one of the fewest digits, and of those the
nearest; of two equally near ones it takes the even last digit.

If any decimal of a given number of digits reads back, then so does one of the
two that enclose the value, so only these are tried.  When none of up to
seventeen digits does, the exact value is taken, which always reads back.
-/

/-- A decimal number: digits scaled by a power of ten. -/
structure Scaled where
  digits : Nat
  exponent : Int
deriving DecidableEq, Repr

def Scaled.value (decimal : Scaled) : Rat :=
  (decimal.digits : Rat) * (10 : Rat) ^ decimal.exponent

namespace Binary64

def halfway (magnitude : Nat) : Rat :=
  (absolute magnitude + absolute (magnitude + 1)) / 2

/-- Whether a positive number is read as the double of the given nonzero
magnitude. -/
def ReadsBack (magnitude : Nat) (value : Rat) : Prop :=
  if magnitude % 2 = 0 then
    halfway (magnitude - 1) ≤ value ∧ value ≤ halfway magnitude
  else
    halfway (magnitude - 1) < value ∧ value < halfway magnitude

instance (magnitude : Nat) (value : Rat) : Decidable (ReadsBack magnitude value) := by
  unfold ReadsBack
  infer_instance

/-- The power of ten at the first digit of a positive number. -/
def leadingExponent (value : Rat) : Int :=
  let estimate : Int :=
    ((Text.decimal value.num.natAbs).length : Int) - (Text.decimal value.den).length
  if (10 : Rat) ^ estimate ≤ value then estimate else estimate - 1

/-- The two decimals that enclose `value` on the grid of multiples of ten to the
power `exponent`, the nearer one first; halfway, the one with the even last
digit. -/
def enclosing (value : Rat) (exponent : Int) : List Scaled :=
  let scaled := value / (10 : Rat) ^ exponent
  let below := scaled.floor.toNat
  let rest := scaled - below
  let low : Scaled := ⟨below, exponent⟩
  let high : Scaled := ⟨below + 1, exponent⟩
  if rest < 1 / 2 ∨ (rest = 1 / 2 ∧ below % 2 = 0) then [low, high] else [high, low]

/-- The best decimal on a grid that reads back, if any does. -/
def onGrid? (magnitude : Nat) (exponent : Int) : Option Scaled :=
  (enclosing (absolute magnitude) exponent).find? fun decimal =>
    ReadsBack magnitude decimal.value

/-- The exact value at a magnitude, written with all its digits. -/
def exact (magnitude : Nat) : Scaled :=
  ⟨units magnitude * Nat.pow 5 1075, -1075⟩

/-- The shortest decimal that reads back as the double of the given magnitude,
which is finite and not zero. -/
def shortest (magnitude : Nat) : Scaled :=
  let first := leadingExponent (absolute magnitude)
  let grids := (List.range 17).map fun (more : Nat) => first - (more : Int)
  (grids.findSome? (onGrid? magnitude)).getD (exact magnitude)

example : shortest 0x3FF8000000000000 = ⟨15, -1⟩ := by decide +kernel

/-- The least positive double needs one digit. -/
example : shortest 1 = ⟨5, -324⟩ := by decide +kernel

end Binary64

end QueryWire.Decimal
