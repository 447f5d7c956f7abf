import QueryWire.Expr
import QueryWire.Json.Document

namespace QueryWire

/-! # Host values

An object of the host becomes an object under the reserved call, so no key can be
taken for a control field.  Encoding fails at the first leaf, in the order of
writing, that has no form on the wire; an entry that a later one replaces does
not count.
-/

/-- Host values with leaves of any types `ν` and `ε`. -/
inductive Host (ν ε : Type) where
  | string (text : String)
  | boolean (value : Bool)
  | int32 (n : Int32)
  | int64 (n : Int64)
  | uint32 (n : UInt32)
  | uint64 (n : UInt64)
  | double (x : Decimal.Binary64)
  | value (value : ν)
  | expr (expr : ε)
  | absent
  | present (host : Host ν ε)
  | sequence (items : List (Host ν ε))
  /-- A map with its keys in order, given by the insertions that made it. -/
  | map (insertions : List (String × Host ν ε))
  /-- A JSON document, given by a tree that may repeat members. -/
  | json (tree : Json Number)

section Encoding

variable {ν : Type} [Leaf ν]

namespace Number

/-- An integer becomes a long, if one holds it, and a double a double. -/
def encode : Number → Except Error (Expr ν)
  | .integer n =>
      match n.toSigned? with
      | some n => .ok (.long n)
      | none => .error (.literal (.exceedsLong n.value.toNat))
  | .double x => (Value.ofDouble x).map .value

end Number

namespace Json

mutual

def encode : Json Number → Except Error (Expr ν)
  | .null => .ok .null
  | .boolean value => .ok (.boolean value)
  | .number value => value.encode
  | .string text => .ok (.text text)
  | .array items => return .array (← encodeItems items)
  | .object members =>
      return .ofPairs (← Members.allOk (Members.ofPairs (encodeMembers members)))

def encodeItems : List (Json Number) → Except Error (List (Expr ν))
  | [] => .ok []
  | item :: items => return (← item.encode) :: (← encodeItems items)

def encodeMembers :
    List (String × Json Number) → List (String × Except Error (Expr ν))
  | [] => []
  | (name, value) :: members => (name, value.encode) :: encodeMembers members

end

end Json

namespace Host

mutual

def encode : Host Value (Expr ν) → Except Error (Expr ν)
  | .string text => .ok (.text text)
  | .boolean on => .ok (.boolean on)
  | .int32 n => .ok (.long n.toInt64)
  | .int64 n => .ok (.long n)
  | .uint32 n => .ok (.long (Int64.ofNat n.toNat))
  | .uint64 n => Number.encode (.integer (.ofUnsigned n))
  | .double x => (Value.ofDouble x).map .value
  | .value leaf => .ok (.value leaf)
  | .expr leaf => .ok leaf
  | .absent => .ok .null
  | .present host => host.encode
  | .sequence items => return .array (← encodeItems items)
  | .map insertions =>
      return .ofPairs
        (← Members.allOk (Members.sortedOfPairs (encodeInsertions insertions)))
  | .json tree => tree.encode

def encodeItems : List (Host Value (Expr ν)) → Except Error (List (Expr ν))
  | [] => .ok []
  | item :: items => return (← item.encode) :: (← encodeItems items)

def encodeInsertions :
    List (String × Host Value (Expr ν)) → List (String × Except Error (Expr ν))
  | [] => []
  | (key, host) :: insertions => (key, host.encode) :: encodeInsertions insertions

end

end Host

end Encoding

end QueryWire
