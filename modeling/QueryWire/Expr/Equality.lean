import QueryWire.Expr

namespace QueryWire.Expr

mutual

def same : Expr → Expr → Bool
  | .literal value, .literal other => value.same other
  | .call name argument others, .call name' argument' others' =>
      name == name' && argument.same argument' && sameFields others others'
  | .array items, .array items' => sameItems items items'
  | .object members, .object members' => sameFields members members'
  | _, _ => false

def sameItems : List Expr → List Expr → Bool
  | [], [] => true
  | item :: items, item' :: items' => item.same item' && sameItems items items'
  | _, _ => false

def sameFields : List (String × Expr) → List (String × Expr) → Bool
  | [], [] => true
  | (name, value) :: fields, (name', value') :: fields' =>
      name == name' && value.same value' && sameFields fields fields'
  | _, _ => false

end

def same? : Option Expr → Option Expr → Bool
  | some expr, some other => expr.same other
  | none, none => true
  | _, _ => false

end QueryWire.Expr
