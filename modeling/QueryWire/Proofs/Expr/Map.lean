import QueryWire.Function.Several
import QueryWire.Proofs.Expr.Places
import QueryWire.Proofs.Members

namespace QueryWire.Expr

variable {ν μ : Type}

mutual

/-- The expression with other leaves. -/
def map (f : ν → μ) : Expr ν → Expr μ
  | .literal leaf => .literal (f leaf)
  | .call name argument others => .call name (argument.map f) (mapFields f others)
  | .array items => .array (mapItems f items)
  | .object members => .object (mapFields f members)

def mapItems (f : ν → μ) : List (Expr ν) → List (Expr μ)
  | [] => []
  | item :: items => item.map f :: mapItems f items

def mapFields (f : ν → μ) : List (String × Expr ν) → List (String × Expr μ)
  | [] => []
  | (name, value) :: fields => (name, value.map f) :: mapFields f fields

end

variable {f : ν → μ}

theorem mapItems_eq_map (items : List (Expr ν)) : mapItems f items = items.map (map f) := by
  induction items with
  | nil => rfl
  | cons item items ih => rw [mapItems, ih, List.map_cons]

theorem mapFields_eq_mapValues (fields : List (String × Expr ν)) :
    mapFields f fields = Members.mapValues (map f) fields := by
  induction fields with
  | nil => rfl
  | cons field fields ih => rw [mapFields, ih, Members.mapValues_cons]

@[simp] theorem map_literal (leaf : ν) : (literal leaf).map f = .literal (f leaf) := by
  rw [map]

@[simp] theorem map_call (name : String) (argument : Expr ν) (others : List (String × Expr ν)) :
    (call name argument others).map f =
      .call name (argument.map f) (Members.mapValues (map f) others) := by
  rw [map, mapFields_eq_mapValues]

@[simp] theorem map_array (items : List (Expr ν)) :
    (array items).map f = .array (items.map (map f)) := by
  rw [map, mapItems_eq_map]

@[simp] theorem map_object (members : List (String × Expr ν)) :
    (object members).map f = .object (Members.mapValues (map f) members) := by
  rw [map, mapFields_eq_mapValues]

theorem map_variableOf (leaf : ν) : (variableOf leaf).map f = .variableOf (f leaf) := by
  simp [variableOf]

theorem map_lambda (leaf : ν) (body : Expr ν) :
    (Binary.lambda.apply (.literal leaf) body).map f =
      Binary.lambda.apply (.literal (f leaf)) (body.map f) := by
  simp [Binary.apply]

theorem map_ofPairs (pairs : List (String × Expr ν)) :
    (ofPairs pairs).map f = .ofPairs (Members.mapValues (map f) pairs) := by
  simp [ofPairs, Members.ofPairs_mapValues]

theorem children_map (expr : Expr ν) : (expr.map f).children = expr.children.map (map f) := by
  cases expr with
  | literal leaf => simp [children]
  | call name argument others => simp [children, Members.mapValues]
  | array items => simp [children]
  | object members => simp [children, Members.mapValues]

theorem at?_map (expr : Expr ν) (place : List Nat) :
    (expr.map f).at? place = (expr.at? place).map (map f) := by
  induction place generalizing expr with
  | nil => rfl
  | cons index place ih =>
      simp only [at?, children_map, List.getElem?_map]
      cases expr.children[index]? with
      | none => rfl
      | some child => exact ih child

end QueryWire.Expr
