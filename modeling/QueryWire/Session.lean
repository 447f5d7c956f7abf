import QueryWire.Recipe.Build

namespace QueryWire

namespace Session

/-- The outcome of every recipe, with the supply as the recipe leaves it. -/
def run : List Recipe → SymbolSupply → List (Except Error Expr × SymbolSupply)
  | [], _ => []
  | recipe :: recipes, supply =>
      let outcome := recipe.run supply
      outcome :: run recipes outcome.2

end Session

end QueryWire
