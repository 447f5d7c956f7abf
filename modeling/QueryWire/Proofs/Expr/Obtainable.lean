import QueryWire.Binding
import QueryWire.Function.Iteration
import QueryWire.Function.Several
import QueryWire.Function.Single
import QueryWire.Function.Variadic
import QueryWire.Host
import QueryWire.Literal
import QueryWire.Path
import QueryWire.Proofs.Expr.Fields

namespace QueryWire

/-- The means of a program: the names of the calls it makes with the general call
builder, and the parts of finished expressions that it uses again. -/
structure Surface where
  free : String → Prop
  reads : Expr → Prop

namespace Surface

/-- All constructors, with calls of any name. -/
def constructors : Surface := ⟨fun _ => True, fun _ => False⟩

/-- All constructors but the general call builder. -/
def functions : Surface := ⟨fun _ => False, fun _ => False⟩

/-- All constructors, and all parts of finished expressions. -/
def all : Surface := ⟨fun _ => True, fun _ => True⟩

end Surface

/-- What can be seen of an expression by looking into it step by step. -/
inductive Visible (whole : Expr) : Expr → Prop where
  | root : Visible whole whole
  | field {parent : Expr} {call : Call} {field : String × Expr} (seen : Visible whole parent)
      (shape : parent.asCall? = some call) (part : field ∈ call.fields) : Visible whole field.2
  | item {parent item : Expr} {items : List Expr} (seen : Visible whole parent)
      (shape : parent.asArray? = some items) (part : item ∈ items) : Visible whole item
  | entry {parent : Expr} {members : List (String × Expr)} {member : String × Expr}
      (seen : Visible whole parent) (shape : parent.asObject? = some members)
      (part : member ∈ members) : Visible whole member.2
  | named {parent part : Expr} {name : String} (seen : Visible whole parent)
      (found : parent.get? name = some part) : Visible whole part

namespace Host

/-- What to collect at the leaves of a host value. -/
structure Collector (ν ε α : Type) where
  text : String → List α := fun _ => []
  value : ν → List α := fun _ => []
  expr : ε → List α := fun _ => []
  json : Json Number → List α := fun _ => []

variable {ν ε α : Type}

section Collecting

variable (collector : Collector ν ε α)

mutual

def collect : Host ν ε → List α
  | .string text => collector.text text
  | .value leaf => collector.value leaf
  | .expr leaf => collector.expr leaf
  | .present host => host.collect
  | .sequence items => collectItems items
  | .map insertions => collectInsertions insertions
  | .json tree => collector.json tree
  | .boolean _ | .int32 _ | .int64 _ | .uint32 _ | .uint64 _ | .double _ | .absent => []

def collectItems : List (Host ν ε) → List α
  | [] => []
  | item :: items => item.collect ++ collectItems items

def collectInsertions : List (String × Host ν ε) → List α
  | [] => []
  | (_, host) :: insertions => host.collect ++ collectInsertions insertions

end

end Collecting

namespace Collector

def values : Collector ν ε ν where
  value leaf := [leaf]

def exprs : Collector ν ε ε where
  expr leaf := [leaf]

end Collector

/-- The values at the leaves of a host value. -/
def values (host : Host ν ε) : List ν :=
  host.collect .values

def exprs (host : Host ν ε) : List ε :=
  host.collect .exprs

end Host

def Value.Made (value : Value) : Prop :=
  ∃ source : Literal, source.toValue = .ok value

open QueryWire.Expr in
inductive Obtainable (surface : Surface) : Expr → Prop where
  | literal {value : Value} (made : value.Made) : Obtainable surface (.literal value)
  | variableNamed (name : String) : Obtainable surface (.variableNamed name)
  | array {items : List Expr} (each : ∀ item ∈ items, Obtainable surface item) :
      Obtainable surface (.array items)
  | oneOrMany {items : List Expr} (each : ∀ item ∈ items, Obtainable surface item) :
      Obtainable surface (.oneOrMany items)
  | ofPairs {pairs : List (String × Expr)}
      (each : ∀ pair ∈ pairs, Obtainable surface pair.2) :
      Obtainable surface (.ofPairs pairs)
  | path (path : Path) : Obtainable surface path.toExpr
  | encode {host : Host Value Expr} {expr : Expr}
      (values : ∀ value ∈ host.values, value.Made)
      (exprs : ∀ leaf ∈ host.exprs, Obtainable surface leaf)
      (encoded : host.encode = .ok expr) : Obtainable surface expr
  | nullary (function : Nullary) : Obtainable surface function.apply
  | unary (function : Unary) {argument : Expr} (first : Obtainable surface argument) :
      Obtainable surface (function.apply argument)
  | binary (function : Binary) {argument second : Expr}
      (first : Obtainable surface argument) (next : Obtainable surface second) :
      Obtainable surface (function.apply argument second)
  | ternary (function : Ternary) {argument second third : Expr}
      (first : Obtainable surface argument) (next : Obtainable surface second)
      (last : Obtainable surface third) :
      Obtainable surface (function.apply argument second third)
  | quaternary (function : Quaternary) {argument second third fourth : Expr}
      (first : Obtainable surface argument) (next : Obtainable surface second)
      (later : Obtainable surface third) (last : Obtainable surface fourth) :
      Obtainable surface (function.apply argument second third fourth)
  | variadic (function : Variadic) {arguments : List Expr}
      (each : ∀ argument ∈ arguments, Obtainable surface argument) :
      Obtainable surface (function.apply arguments)
  | sequence {steps : List Expr} (each : ∀ step ∈ steps, Obtainable surface step) :
      Obtainable surface (.sequence steps)
  | invoke {function : Expr} {arguments : List Expr}
      (first : Obtainable surface function)
      (each : ∀ argument ∈ arguments, Obtainable surface argument) :
      Obtainable surface (.invoke function arguments)
  | iterate (function : Iteration) {collection lambda : Expr}
      (source : Obtainable surface collection) (body : Obtainable surface lambda) :
      Obtainable surface (function.apply collection lambda)
  | call {name : String} {argument : Expr} {others : List (String × Expr)}
      (allowed : surface.free name) (first : Obtainable surface argument)
      (each : ∀ field ∈ others, Obtainable surface field.2) :
      Obtainable surface (.call name argument others)
  /-- A binding of pairs, with further names bound before it is closed. -/
  | letIn {pairs more : List (String × Expr)} {binding : Binding} {body expr : Expr}
      (each : ∀ pair ∈ pairs, Obtainable surface pair.2)
      (eachLater : ∀ pair ∈ more, Obtainable surface pair.2)
      (bound : (Binding.ofPairs pairs).bindAll more = .ok binding)
      (visible : Obtainable surface body)
      (closed : binding.toExpr body = .ok expr) : Obtainable surface expr
  | paginate {resource : Expr} {settings : List (Setting Expr)}
      (source : Obtainable surface resource)
      (each : ∀ setting ∈ settings, ∀ value ∈ setting.value?, Obtainable surface value) :
      Obtainable surface
        (settings.foldl Pagination.set (Pagination.ofResource resource)).toExpr
  | read {whole part : Expr} (known : Obtainable surface whole) (seen : Visible whole part)
      (allowed : surface.reads part) : Obtainable surface part

end QueryWire
