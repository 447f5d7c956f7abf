import QueryWire.Decimal.Notation

namespace QueryWire

/-- An integer that a signed or an unsigned word of sixty-four bits holds. -/
structure Integer64 where
  value : Int
  lower : Int64.minValue.toInt ≤ value
  upper : value < UInt64.size
deriving DecidableEq

namespace Integer64

def of? (value : Int) : Option Integer64 :=
  if bounds : Int64.minValue.toInt ≤ value ∧ value < UInt64.size then some ⟨value, bounds.1, bounds.2⟩
  else none

def ofSigned (n : Int64) : Integer64 :=
  ⟨n.toInt, n.minValue_le_toInt, by have := n.toInt_lt; simp only [UInt64.size]; omega⟩

def ofUnsigned (n : UInt64) : Integer64 :=
  ⟨n.toNat, by rw [Int64.toInt_minValue]; omega, by have := n.toNat_lt; simp only [UInt64.size]; omega⟩

/-- The signed word of the same value, if there is one. -/
def toSigned? (n : Integer64) : Option Int64 :=
  if n.value ≤ Int64.maxValue.toInt then some (Int64.ofInt n.value) else none

end Integer64

inductive Number where
  | integer (n : Integer64)
  | double (x : Decimal.Binary64)
deriving DecidableEq

namespace Number

/-- JSON has no number for the infinities and for what is no number; `null` stands there. -/
def token : Number → List Char
  | .integer n => Text.signedDecimal n.value
  | .double x => if x.isFinite then x.text else "null".toList

/-- Numeric equality within integers and within doubles. -/
def same : Number → Number → Bool
  | .integer n, .integer m => n == m
  | .double x, .double y => x.same y
  | _, _ => false

end Number

end QueryWire
