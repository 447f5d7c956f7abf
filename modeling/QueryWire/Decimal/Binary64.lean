namespace QueryWire.Decimal

/-- A double by its bits.  Below the sign bit they order the doubles by absolute value. -/
structure Binary64 where
  bits : UInt64
deriving DecidableEq, Repr

namespace Binary64

def signBit : Nat := 1 <<< 63

/-- The number of magnitudes between two powers of two. -/
def binade : Nat := 1 <<< 52

/-- The bits below the sign. -/
def magnitude (x : Binary64) : Nat := x.bits.toNat % signBit

def isNegative (x : Binary64) : Bool := signBit ≤ x.bits.toNat

/-- The magnitude of the infinities; every greater one is no number. -/
def infinite : Nat := 2047 * binade

def isFinite (x : Binary64) : Bool := x.magnitude < infinite

def isNaN (x : Binary64) : Bool := infinite < x.magnitude

def isZero (x : Binary64) : Bool := x.magnitude = 0

/-- Numeric equality: both zeros are equal, and no number equals nothing. -/
def same (x y : Binary64) : Bool :=
  !x.isNaN && !y.isNaN && (x == y || (x.isZero && y.isZero))

/-- The absolute value at a magnitude in units of 2 to the power -1075, half the
least positive double.  It is even and grows with the magnitude; at `infinite` it
is the power of two that follows the greatest double. -/
def units (magnitude : Nat) : Nat :=
  if magnitude < binade then 2 * magnitude
  else (binade + magnitude % binade) <<< (magnitude / binade)

def absolute (magnitude : Nat) : Rat :=
  (units magnitude : Rat) / (1 <<< 1075 : Nat)

example : absolute 0x3FF8000000000000 = 3 / 2 := by decide +kernel

example : absolute 1 = 1 / 2 ^ 1074 := by decide +kernel

end Binary64

end QueryWire.Decimal
