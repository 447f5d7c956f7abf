import QueryWire.Expr.Equality

namespace QueryWire

/-- Names keep the order of their first binding, since a later one may refer to an
earlier one; a name bound again gets its new expression in place. -/
inductive Binding (ν : Type := Value) where
  | collecting (members : List (String × Expr ν))
  | closed

namespace Binding

variable {ν : Type}

def ofPairs (pairs : List (String × Expr ν)) : Binding ν :=
  .collecting (Members.ofPairs pairs)

def bind (binding : Binding ν) (name : String) (value : Expr ν) : Except Error (Binding ν) :=
  match binding with
  | .collecting members => .ok (.collecting (Members.put name value members))
  | .closed => .error (.misuse .bind)

/-- Binds pairs one after the other, up to the first failure. -/
def bindAll (binding : Binding ν) (pairs : List (String × Expr ν)) :
    Except Error (Binding ν) :=
  pairs.foldlM (fun binding (name, value) => binding.bind name value) binding

/-- Makes the `let` expression with the given body.  Whatever comes of it, the
binding is closed afterwards. -/
def close (binding : Binding ν) (body : Expr ν) : Except Error (Expr ν) × Binding ν :=
  match binding with
  | .collecting members =>
      (.ok (.call "let" (.object members) [("in", body)]), .closed)
  | .closed => (.error (.misuse .close), .closed)

/-- The `let` expression of a binding that is not needed again. -/
def toExpr (binding : Binding ν) (body : Expr ν) : Except Error (Expr ν) :=
  (binding.close body).1

def isClosed : Binding ν → Bool
  | .collecting _ => false
  | .closed => true

/-- The names bound so far, in order.  A closed binding has none. -/
def names : Binding ν → List String
  | .collecting members => Members.names members
  | .closed => []

def get? (binding : Binding ν) (name : String) : Option (Expr ν) :=
  match binding with
  | .collecting members => members.lookup name
  | .closed => none

def same : Binding → Binding → Bool
  | .collecting members, .collecting others => Expr.sameFields members others
  | .closed, .closed => true
  | _, _ => false

end Binding

end QueryWire
