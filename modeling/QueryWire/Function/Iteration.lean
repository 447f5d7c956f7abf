import QueryWire.Expr

namespace QueryWire

/-- Functions that go through a collection with a lambda.  The lambda is written
first, though it is the second argument. -/
inductive Iteration where
  | map | foreach | filter
deriving DecidableEq, Repr

namespace Iteration

def name : Iteration → String
  | .map => "map"
  | .foreach => "foreach"
  | .filter => "filter"

def apply {ν : Type} (function : Iteration) (collection lambda : Expr ν) : Expr ν :=
  .call function.name lambda [("collection", collection)]

end Iteration

end QueryWire
