import QueryWire.Expr
import QueryWire.Json.Document

namespace QueryWire

namespace Value

/-- An object of one member that tells a category. -/
def tagged (tag : String) (text : List Char) : Json Number :=
  .object [(tag, .string (String.ofList text))]

def wire : Value → Json Number
  | .null => .null
  | .string text => .string text
  | .long n => .number (.integer (Integer64.ofSigned n))
  | .double x => if x.isFinite then .number (.double x) else .null
  | .boolean value => .boolean value
  | .time moment => tagged "@ts" moment.text
  | .date day => tagged "@date" day.text
  | .bytes content => tagged "@bytes" (Text.Base64.encode content)
  | .reference id => tagged "@ref" id.toList

end Value

namespace Expr

mutual

def wire : Expr → Json Number
  | .literal value => value.wire
  | .call name argument others =>
      .object ((name, argument.wire) :: wireFields others)
  | .array items => .array (wireItems items)
  | .object members => .object (wireFields members)

def wireItems : List Expr → List (Json Number)
  | [] => []
  | item :: items => item.wire :: wireItems items

def wireFields : List (String × Expr) → List (String × Json Number)
  | [] => []
  | (name, value) :: fields => (name, value.wire) :: wireFields fields

end

theorem wireItems_eq_map (items : List Expr) : wireItems items = items.map wire := by
  induction items with
  | nil => rfl
  | cons item items ih => rw [wireItems, ih, List.map_cons]

theorem wireFields_eq_map (fields : List (String × Expr)) :
    wireFields fields = fields.map fun (name, value) => (name, value.wire) := by
  induction fields with
  | nil => rfl
  | cons field fields ih =>
      obtain ⟨name, value⟩ := field
      rw [wireFields, ih, List.map_cons]

def render (layout : Layout) (expr : Expr) : String :=
  expr.wire.write layout

def compact (expr : Expr) : String :=
  expr.render .compact

def pretty (expr : Expr) : String :=
  expr.render .pretty

/-- The JSON document of an expression.  Where a call repeats a field, the
document has only the last of them, at the place of the first. -/
def document (expr : Expr) : Json Number :=
  expr.wire.collapse

instance : ToString Expr := ⟨compact⟩

end Expr

end QueryWire
