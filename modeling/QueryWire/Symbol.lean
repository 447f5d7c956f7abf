import QueryWire.Text.Digits

namespace QueryWire

structure SymbolSupply where
  /-- The number of the last symbol drawn.  Behind the greatest number it starts again
  at zero. -/
  issued : UInt64 := 0
deriving DecidableEq, Repr

namespace SymbolSupply

/-- A supply whose first symbol has the number behind `last`. -/
def startingAt (last : UInt64) : SymbolSupply := ⟨last⟩

def symbol (stem : String) (number : UInt64) : String :=
  stem ++ "_" ++ String.ofList (Text.decimal number.toNat)

def draw (supply : SymbolSupply) (stem : String) : String × SymbolSupply :=
  (symbol stem (supply.issued + 1), ⟨supply.issued + 1⟩)

example : ((startingAt 41).draw "map").1 = "map_42" := by decide

example : ((startingAt 18446744073709551615).draw "x").1 = "x_0" := by decide

end SymbolSupply

end QueryWire
