import QueryWire.Expr

namespace QueryWire

/-- Functions without arguments.  Their calls carry null. -/
inductive Nullary where
  | classes | databases | indexes | functions | keys | tokens | credentials
  | newId | nextId | identity | hasIdentity
deriving DecidableEq, Repr

namespace Nullary

def name : Nullary → String
  | .classes => "classes"
  | .databases => "databases"
  | .indexes => "indexes"
  | .functions => "functions"
  | .keys => "keys"
  | .tokens => "tokens"
  | .credentials => "credentials"
  | .newId => "new_id"
  | .nextId => "next_id"
  | .identity => "identity"
  | .hasIdentity => "has_identity"

def apply {ν : Type} [Leaf ν] (function : Nullary) : Expr ν :=
  .call function.name .null []

end Nullary

/-- Functions of one argument, which stands under the function's name. -/
inductive Unary where
  | abort | query
  | classes | databases | indexes | functions | keys | tokens | credentials
  | classNamed | databaseNamed | indexNamed | functionNamed
  | isEmpty | isNonempty
  | get | keyFromSecret | isThere
  | delete | createClass | createDatabase | createKey | createIndex
  | createFunction
  | singleton | events | matching | distinct
  | logout
  | concat | casefold | length | lowercase | ltrim | ngram | repeated | rtrim
  | space | substring | titlecase | trim | uppercase
  | time | date
  | abs | acos | asin | atan | bitNot | ceil | cos | cosh | degrees | exp
  | floor | ln | log | radians | sign | sin | sinh | sqrt | tan | tanh
  | hypot | pow | round | trunc
  | not | toText | toNumber | toTime | toDate
deriving DecidableEq, Repr

namespace Unary

def name : Unary → String
  | .abort => "abort"
  | .query => "query"
  | .classes => "classes"
  | .databases => "databases"
  | .indexes => "indexes"
  | .functions => "functions"
  | .keys => "keys"
  | .tokens => "tokens"
  | .credentials => "credentials"
  | .classNamed => "class"
  | .databaseNamed => "database"
  | .indexNamed => "index"
  | .functionNamed => "function"
  | .isEmpty => "is_empty"
  | .isNonempty => "is_nonempty"
  | .get => "get"
  | .keyFromSecret => "key_from_secret"
  | .isThere => "exists"
  | .delete => "delete"
  | .createClass => "create_class"
  | .createDatabase => "create_database"
  | .createKey => "create_key"
  | .createIndex => "create_index"
  | .createFunction => "create_function"
  | .singleton => "singleton"
  | .events => "events"
  | .matching => "match"
  | .distinct => "distinct"
  | .logout => "logout"
  | .concat => "concat"
  | .casefold => "casefold"
  | .length => "length"
  | .lowercase => "lowercase"
  | .ltrim => "ltrim"
  | .ngram => "ngram"
  | .repeated => "repeat"
  | .rtrim => "rtrim"
  | .space => "space"
  | .substring => "substring"
  | .titlecase => "titlecase"
  | .trim => "trim"
  | .uppercase => "uppercase"
  | .time => "time"
  | .date => "date"
  | .abs => "abs"
  | .acos => "acos"
  | .asin => "asin"
  | .atan => "atan"
  | .bitNot => "bitnot"
  | .ceil => "ceil"
  | .cos => "cos"
  | .cosh => "cosh"
  | .degrees => "degrees"
  | .exp => "exp"
  | .floor => "floor"
  | .ln => "ln"
  | .log => "log"
  | .radians => "radians"
  | .sign => "sign"
  | .sin => "sin"
  | .sinh => "sinh"
  | .sqrt => "sqrt"
  | .tan => "tan"
  | .tanh => "tanh"
  | .hypot => "hypot"
  | .pow => "pow"
  | .round => "round"
  | .trunc => "trunc"
  | .not => "not"
  | .toText => "to_string"
  | .toNumber => "to_number"
  | .toTime => "to_time"
  | .toDate => "to_date"

def apply {ν : Type} (function : Unary) (argument : Expr ν) : Expr ν :=
  .call function.name argument []

end Unary

end QueryWire
