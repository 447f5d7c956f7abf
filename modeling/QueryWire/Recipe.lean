import QueryWire.Function.Iteration
import QueryWire.Function.Several
import QueryWire.Function.Single
import QueryWire.Function.Variadic
import QueryWire.Host
import QueryWire.Literal
import QueryWire.Pagination
import QueryWire.Path

namespace QueryWire

/-- Functions whose lambda can be written by a shorthand. -/
inductive Shorthand where
  | iterate (function : Iteration)
  | join
deriving DecidableEq, Repr

namespace Shorthand

def stem : Shorthand → String
  | .iterate function => function.name
  | .join => "join"

def apply {ν : Type} : Shorthand → Expr ν → Expr ν → Expr ν
  | .iterate function, source, lambda => function.apply source lambda
  | .join, source, lambda => Binary.join.apply source lambda

end Shorthand

inductive Recipe where
  | literal (source : Literal)
  /-- What the innermost enclosing recipe has bound to a parameter. -/
  | parameter (name : String)
  /-- A variable of the query language by its name on the wire. -/
  | variableNamed (name : String)
  | array (items : List Recipe)
  | oneOrMany (items : List Recipe)
  | object (pairs : List (String × Recipe))
  | path (path : Path)
  | encode (host : Host Literal Recipe)
  | nullary (function : Nullary)
  | unary (function : Unary) (argument : Recipe)
  | binary (function : Binary) (first second : Recipe)
  | ternary (function : Ternary) (first second third : Recipe)
  | quaternary (function : Quaternary) (first second third fourth : Recipe)
  | variadic (function : Variadic) (arguments : List Recipe)
  | sequence (steps : List Recipe)
  | invoke (function : Recipe) (arguments : List Recipe)
  | iterate (function : Iteration) (collection lambda : Recipe)
  /-- A call of any name with any fields, some of which may be absent. -/
  | call (name : String) (argument : Recipe) (fields : List (String × Option Recipe))
  | letIn (pairs : List (String × Recipe)) (body : Recipe)
  | paginate (resource : Recipe) (settings : List (Setting Recipe))
  /-- A lambda whose variable has a fresh symbol; the parameter refers to it. -/
  | lambda (stem param : String) (body : Recipe)
  /-- A function over a source with such a lambda. -/
  | shorthand (function : Shorthand) (source : Recipe) (param : String) (body : Recipe)
  /-- The step made `count` times, starting from the seed; the parameter refers to
  what has been made so far. -/
  | repeated (count : Nat) (param : String) (seed step : Recipe)

end QueryWire
