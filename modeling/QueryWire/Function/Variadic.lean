import QueryWire.Expr

namespace QueryWire

/-- Functions of any number of arguments.  A single argument stands for itself,
any other number of them for an array. -/
inductive Variadic where
  | union | intersection | difference | ngramTerms | equals | add | bitAnd
  | bitOr | bitXor | divide | max | min | modulo | multiply | subtract | lt
  | lte | gt | gte | and | or
deriving DecidableEq, Repr

namespace Variadic

def name : Variadic → String
  | .union => "union"
  | .intersection => "intersection"
  | .difference => "difference"
  | .ngramTerms => "ngram"
  | .equals => "equals"
  | .add => "add"
  | .bitAnd => "bitand"
  | .bitOr => "bitor"
  | .bitXor => "bitxor"
  | .divide => "divide"
  | .max => "max"
  | .min => "min"
  | .modulo => "modulo"
  | .multiply => "multiply"
  | .subtract => "subtract"
  | .lt => "lt"
  | .lte => "lte"
  | .gt => "gt"
  | .gte => "gte"
  | .and => "and"
  | .or => "or"

def apply {ν : Type} (function : Variadic) (arguments : List (Expr ν)) : Expr ν :=
  .call function.name (.oneOrMany arguments) []

end Variadic

namespace Expr

variable {ν : Type}

/-- Evaluates the expressions in order.  Even a single one is in an array. -/
def sequence (steps : List (Expr ν)) : Expr ν :=
  .call "do" (.array steps) []

/-- Calls a function that the user has stored. -/
def invoke (function : Expr ν) (arguments : List (Expr ν)) : Expr ν :=
  .call "call" function [("arguments", .oneOrMany arguments)]

end Expr

end QueryWire
