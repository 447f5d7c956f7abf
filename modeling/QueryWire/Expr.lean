import QueryWire.Members
import QueryWire.Value

namespace QueryWire

/-! # Expressions

An expression is a tree of four shapes.  A call is an ordered list of named
fields, of which the first names the remote function and carries its principal
argument; it may repeat a name.  An object holds user keys, each once.

On the wire a bare object would be taken for a call, so objects stand only under
the reserved call `object`, which `Expr.ofPairs` makes, and under `let`.

The leaves of an expression are values.  The constructors and whatever only puts
expressions together work with leaves of any type that has the values among them,
so that one can build with variables that have no name yet.
-/

/-- A type of leaves that has the values among them. -/
class Leaf (ν : Type) where
  ofValue : Value → ν

@[default_instance] instance : Leaf Value := ⟨fun value => value⟩

@[simp] theorem Leaf.ofValue_value (value : Value) : Leaf.ofValue value = value := rfl

inductive Expr (ν : Type := Value) where
  | literal (leaf : ν)
  | call (name : String) (argument : Expr ν) (others : List (String × Expr ν))
  | array (items : List (Expr ν))
  | object (members : List (String × Expr ν))

instance : Inhabited Expr := ⟨.literal .null⟩

/-- The fields of one call, the first apart. -/
structure Call (ν : Type := Value) where
  name : String
  argument : Expr ν
  others : List (String × Expr ν) := []

namespace Call

variable {ν : Type}

def field (call : Call ν) (name : String) (value : Expr ν) : Call ν :=
  { call with others := call.others ++ [(name, value)] }

/-- The call with one more field if there is a value for it. -/
def field? (call : Call ν) (name : String) : Option (Expr ν) → Call ν
  | some value => call.field name value
  | none => call

def fields (call : Call ν) : List (String × Expr ν) :=
  (call.name, call.argument) :: call.others

def get? (call : Call ν) (name : String) : Option (Expr ν) :=
  call.fields.lookup name

def toExpr (call : Call ν) : Expr ν :=
  .call call.name call.argument call.others

end Call

namespace Expr

variable {ν : Type}

section Literals

variable [Leaf ν]

def value (value : Value) : Expr ν := .literal (Leaf.ofValue value)

def null : Expr ν := .value .null

def text (text : String) : Expr ν := .value (.string text)

def long (n : Int64) : Expr ν := .value (.long n)

def boolean (on : Bool) : Expr ν := .value (.boolean on)

@[simp] theorem value_eq_literal (value : Value) : (.value value : Expr) = .literal value := rfl

end Literals

/-- The object of the given pairs under its reserved call. -/
def ofPairs (pairs : List (String × Expr ν)) : Expr ν :=
  .call "object" (.object (Members.ofPairs pairs)) []

/-- An argument that is one expression or an array of them: one alone stands for
itself, any other number of them becomes an array. -/
def oneOrMany : List (Expr ν) → Expr ν
  | [single] => single
  | many => .array many

/-- A reference to the variable that a leaf stands for. -/
def variableOf (leaf : ν) : Expr ν :=
  .call "var" (.literal leaf) []

/-- A reference to a variable that `let` or a lambda binds. -/
def variableNamed [Leaf ν] (name : String) : Expr ν :=
  .variableOf (Leaf.ofValue (.string name))

def asLiteral? : Expr ν → Option ν
  | .literal leaf => some leaf
  | _ => none

def asCall? : Expr ν → Option (Call ν)
  | .call name argument others => some ⟨name, argument, others⟩
  | _ => none

def asArray? : Expr ν → Option (List (Expr ν))
  | .array items => some items
  | _ => none

def asObject? : Expr ν → Option (List (String × Expr ν))
  | .object members => some members
  | _ => none

def asVariable? : Expr → Option String
  | .call "var" (.literal (.string name)) [] => some name
  | _ => none

/-- The value of the first field of a call, or of the member of an object, with
the given name. -/
def get? (expr : Expr ν) (name : String) : Option (Expr ν) :=
  match expr with
  | .call first argument others => Call.get? ⟨first, argument, others⟩ name
  | .object members => members.lookup name
  | _ => none

def item? (expr : Expr ν) (index : Nat) : Option (Expr ν) :=
  expr.asArray?.bind (·[index]?)

end Expr

end QueryWire
