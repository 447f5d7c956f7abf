import QueryWire.Expr

namespace QueryWire

/-- Functions of two arguments. -/
inductive Binary where
  | referenceIn | classIn | databaseIn | indexIn | functionIn | asOf | lambda
  | take | drop | prepend | append | getAt | isThereAt | create | update
  | replace | matchingTerms | join | login | identify | concatWith
  | casefoldWith | findText | findPattern | repeatedTimes | substringFrom
  | epoch | contains | select | selectAll | hypotWith | powWith | roundTo
  | truncTo
deriving DecidableEq, Repr

namespace Binary

def fields : Binary → String × String
  | .referenceIn => ("ref", "id")
  | .classIn => ("class", "scope")
  | .databaseIn => ("database", "scope")
  | .indexIn => ("index", "scope")
  | .functionIn => ("function", "scope")
  | .asOf => ("at", "expr")
  | .lambda => ("lambda", "expr")
  | .take => ("take", "collection")
  | .drop => ("drop", "collection")
  | .prepend => ("prepend", "collection")
  | .append => ("append", "collection")
  | .getAt => ("get", "ts")
  | .isThereAt => ("exists", "ts")
  | .create => ("create", "params")
  | .update => ("update", "params")
  | .replace => ("replace", "params")
  | .matchingTerms => ("match", "terms")
  | .join => ("join", "with")
  | .login => ("login", "params")
  | .identify => ("identify", "password")
  | .concatWith => ("concat", "separator")
  | .casefoldWith => ("casefold", "normalizer")
  | .findText => ("findstr", "find")
  | .findPattern => ("findstrregex", "pattern")
  | .repeatedTimes => ("repeat", "number")
  | .substringFrom => ("substring", "start")
  | .epoch => ("epoch", "unit")
  | .contains => ("contains", "in")
  | .select => ("select", "from")
  | .selectAll => ("select_all", "from")
  | .hypotWith => ("hypot", "b")
  | .powWith => ("pow", "exp")
  | .roundTo => ("round", "precision")
  | .truncTo => ("trunc", "precision")

def apply {ν : Type} (function : Binary) (first second : Expr ν) : Expr ν :=
  .call function.fields.1 first [(function.fields.2, second)]

end Binary

/-- Functions of three arguments. -/
inductive Ternary where
  | choice | remove | findTextFrom | findPatternFrom | ngramBetween
  | replaceText | replacePattern | substringOf | selectOr | selectAllOr
deriving DecidableEq, Repr

namespace Ternary

def fields : Ternary → String × String × String
  | .choice => ("if", "then", "else")
  | .remove => ("remove", "ts", "action")
  | .findTextFrom => ("findstr", "find", "start")
  | .findPatternFrom => ("findstrregex", "pattern", "start")
  | .ngramBetween => ("ngram", "min", "max")
  | .replaceText => ("replacestr", "find", "replace")
  | .replacePattern => ("replacestrregex", "pattern", "replace")
  | .substringOf => ("substring", "start", "length")
  | .selectOr => ("select", "from", "default")
  | .selectAllOr => ("select_all", "from", "default")

def apply {ν : Type} (function : Ternary) (first second third : Expr ν) : Expr ν :=
  let (name, field, last) := function.fields
  .call name first [(field, second), (last, third)]

end Ternary

/-- Functions of four arguments. -/
inductive Quaternary where
  | insert | findPatternLimited | replaceFirstPattern
deriving DecidableEq, Repr

namespace Quaternary

def fields : Quaternary → String × String × String × String
  | .insert => ("insert", "ts", "action", "params")
  | .findPatternLimited => ("findstrregex", "pattern", "start", "num_results")
  | .replaceFirstPattern => ("replacestrregex", "pattern", "replace", "first")

def apply {ν : Type} (function : Quaternary) (first second third fourth : Expr ν) : Expr ν :=
  let (name, field, next, last) := function.fields
  .call name first [(field, second), (next, third), (last, fourth)]

end Quaternary

end QueryWire
