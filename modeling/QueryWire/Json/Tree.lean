namespace QueryWire

/-- A tree keeps the order of members and every repeated one, as a JSON text does.
Numbers are values in a document and tokens in a tree that is about to be written. -/
inductive Json (ν : Type) where
  | null
  | boolean (value : Bool)
  | number (value : ν)
  | string (text : String)
  | array (items : List (Json ν))
  | object (members : List (String × Json ν))

namespace Json

variable {ν μ : Type}

instance : Inhabited (Json ν) := ⟨.null⟩

mutual

def mapNumbers (f : ν → μ) : Json ν → Json μ
  | .null => .null
  | .boolean value => .boolean value
  | .number value => .number (f value)
  | .string text => .string text
  | .array items => .array (mapItems f items)
  | .object members => .object (mapMembers f members)

def mapItems (f : ν → μ) : List (Json ν) → List (Json μ)
  | [] => []
  | item :: items => item.mapNumbers f :: mapItems f items

def mapMembers (f : ν → μ) : List (String × Json ν) → List (String × Json μ)
  | [] => []
  | (name, value) :: members => (name, value.mapNumbers f) :: mapMembers f members

end

theorem mapItems_eq_map (f : ν → μ) (items : List (Json ν)) :
    mapItems f items = items.map (mapNumbers f) := by
  induction items with
  | nil => rfl
  | cons item items ih => rw [mapItems, ih, List.map_cons]

theorem mapMembers_eq_map (f : ν → μ) (members : List (String × Json ν)) :
    mapMembers f members =
      members.map fun (name, value) => (name, value.mapNumbers f) := by
  induction members with
  | nil => rfl
  | cons member members ih =>
      obtain ⟨name, value⟩ := member
      rw [mapMembers, ih, List.map_cons]

end Json

end QueryWire
