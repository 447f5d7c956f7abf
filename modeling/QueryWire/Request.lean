import QueryWire.Expr.Wire

namespace QueryWire

structure Request where
  body : String
  document : Json Number

namespace Request

def prepare (layout : Layout) (expr : Expr) : Request :=
  ⟨expr.render layout, expr.document⟩

def byteCount (request : Request) : Nat := request.body.utf8ByteSize

def same (request other : Request) : Bool :=
  request.document.same other.document && request.body == other.body

end Request

end QueryWire
