import QueryWire.Binding
import QueryWire.Recipe
import QueryWire.Symbol

namespace QueryWire

/-! # Building expressions from recipes

Building goes from left to right and depth first, and stops at the first error.
A shorthand builds its source, then draws its variable, then builds its body; so
the variables of nested lambdas differ, and a lambda whose body fails has drawn
its variable all the same.  Variables are drawn as symbols, all from one supply,
but one can build with any other way to draw them.

The leaves of a host value are built before any of it is encoded, so an error of
theirs is reported before one of encoding.
-/

/-- A way to draw the variables of lambdas: the leaf of a fresh one for a stem, and the
state behind it. -/
abbrev Drawing (σ ν : Type) := String → σ → ν × σ

/-- Symbols as variables. -/
def SymbolSupply.variables : Drawing SymbolSupply Value := fun stem supply =>
  let (symbol, next) := supply.draw stem
  (.string symbol, next)

/-- A computation that draws and may fail.  What it has drawn stays drawn when it fails. -/
abbrev Build (σ : Type) := ExceptT Error (StateM σ)

/-- The expressions that the parameters in scope stand for, innermost first. -/
abbrev Scope (ν : Type := Value) := List (String × Expr ν)

variable {σ ν α : Type}

namespace Build

variable (drawing : Drawing σ ν)

def draw (stem : String) : Build σ ν :=
  modifyGet (drawing stem)

/-- A lambda with a fresh variable, whose body is made from a reference to it. -/
def lambda (stem : String) (body : Expr ν → Build σ (Expr ν)) : Build σ (Expr ν) := do
  let leaf ← draw drawing stem
  return Binary.lambda.apply (.literal leaf) (← body (.variableOf leaf))

/-- A function over a source with such a lambda. -/
def shorthand (function : Shorthand) (source : Expr ν) (body : Expr ν → Build σ (Expr ν)) :
    Build σ (Expr ν) :=
  return function.apply source (← lambda drawing function.stem body)

def repeated (step : α → Build σ α) : Nat → α → Build σ α
  | 0, made => pure made
  | count + 1, made => do repeated step count (← step made)

end Build

namespace Recipe

variable [Leaf ν] (drawing : Drawing σ ν)

mutual

def build (scope : Scope ν) : Recipe → Build σ (Expr ν)
  | .literal source => return .value (← source.toValue)
  | .parameter name =>
      match scope.lookup name with
      | some expr => return expr
      | none => throw (.unboundParameter name)
  | .variableNamed name => return .variableNamed name
  | .array items => return .array (← buildItems scope items)
  | .oneOrMany items => return .oneOrMany (← buildItems scope items)
  | .object pairs => return .ofPairs (← buildPairs scope pairs)
  | .path segments => return segments.toExpr
  | .encode host => do
      let host ← buildHost scope host
      host.encode
  | .nullary function => return function.apply
  | .unary function argument => return function.apply (← argument.build scope)
  | .binary function first second =>
      return function.apply (← first.build scope) (← second.build scope)
  | .ternary function first second third =>
      return function.apply (← first.build scope) (← second.build scope)
        (← third.build scope)
  | .quaternary function first second third fourth =>
      return function.apply (← first.build scope) (← second.build scope)
        (← third.build scope) (← fourth.build scope)
  | .variadic function arguments =>
      return function.apply (← buildItems scope arguments)
  | .sequence steps => return .sequence (← buildItems scope steps)
  | .invoke function arguments =>
      return .invoke (← function.build scope) (← buildItems scope arguments)
  | .iterate function collection body =>
      return function.apply (← collection.build scope) (← body.build scope)
  | .call name argument fields =>
      return .call name (← argument.build scope) (← buildFields scope fields)
  | .letIn pairs body => do
      let binding := Binding.ofPairs (← buildPairs scope pairs)
      binding.toExpr (← body.build scope)
  | .paginate resource settings => do
      let page := Pagination.ofResource (← resource.build scope)
      return ((← buildSettings scope settings).foldl Pagination.set page).toExpr
  | .lambda stem param body =>
      Build.lambda drawing stem fun handle => body.build ((param, handle) :: scope)
  | .shorthand function source param body => do
      let source ← source.build scope
      Build.shorthand drawing function source fun handle =>
        body.build ((param, handle) :: scope)
  | .repeated count param seed step => do
      let seed ← seed.build scope
      Build.repeated (fun made => step.build ((param, made) :: scope)) count seed

def buildItems (scope : Scope ν) : List Recipe → Build σ (List (Expr ν))
  | [] => return []
  | item :: items => return (← item.build scope) :: (← buildItems scope items)

def buildPairs (scope : Scope ν) : List (String × Recipe) → Build σ (List (String × Expr ν))
  | [] => return []
  | (name, recipe) :: pairs =>
      return (name, ← recipe.build scope) :: (← buildPairs scope pairs)

/-- Absent fields are left out. -/
def buildFields (scope : Scope ν) :
    List (String × Option Recipe) → Build σ (List (String × Expr ν))
  | [] => return []
  | (name, some recipe) :: fields =>
      return (name, ← recipe.build scope) :: (← buildFields scope fields)
  | (_, none) :: fields => buildFields scope fields

def buildSetting (scope : Scope ν) : Setting Recipe → Build σ (Setting (Expr ν))
  | .ts time => return .ts (← time.build scope)
  | .after cursor => return .after (← cursor.build scope)
  | .before cursor => return .before (← cursor.build scope)
  | .size count => return .size (← count.build scope)
  | .events on => return .events on
  | .sources on => return .sources on

def buildSettings (scope : Scope ν) : List (Setting Recipe) → Build σ (List (Setting (Expr ν)))
  | [] => return []
  | setting :: settings =>
      return (← buildSetting scope setting) :: (← buildSettings scope settings)

/-- The host value with its leaves built. -/
def buildHost (scope : Scope ν) : Host Literal Recipe → Build σ (Host Value (Expr ν))
  | .string text => return .string text
  | .boolean on => return .boolean on
  | .int32 n => return .int32 n
  | .int64 n => return .int64 n
  | .uint32 n => return .uint32 n
  | .uint64 n => return .uint64 n
  | .double x => return .double x
  | .value source => return .value (← source.toValue)
  | .expr recipe => return .expr (← recipe.build scope)
  | .absent => return .absent
  | .present host => return .present (← buildHost scope host)
  | .sequence items => return .sequence (← buildHosts scope items)
  | .map insertions => return .map (← buildInsertions scope insertions)
  | .json tree => return .json tree

def buildHosts (scope : Scope ν) :
    List (Host Literal Recipe) → Build σ (List (Host Value (Expr ν)))
  | [] => return []
  | host :: hosts => return (← buildHost scope host) :: (← buildHosts scope hosts)

def buildInsertions (scope : Scope ν) :
    List (String × Host Literal Recipe) → Build σ (List (String × Host Value (Expr ν)))
  | [] => return []
  | (key, host) :: insertions =>
      return (key, ← buildHost scope host) :: (← buildInsertions scope insertions)

end

/-- Builds a recipe that stands in no scope with the symbols of a supply. -/
def run (recipe : Recipe) (supply : SymbolSupply) : Except Error Expr × SymbolSupply :=
  (recipe.build SymbolSupply.variables []).run.run supply

end Recipe

end QueryWire
