import QueryWire.Json.Number
import QueryWire.Json.Layout
import QueryWire.Members

namespace QueryWire.Json

variable {ν : Type}

mutual

def collapse : Json ν → Json ν
  | .null => .null
  | .boolean value => .boolean value
  | .number value => .number value
  | .string text => .string text
  | .array items => .array (collapseItems items)
  | .object members => .object (Members.ofPairs (collapseMembers members))

def collapseItems : List (Json ν) → List (Json ν)
  | [] => []
  | item :: items => item.collapse :: collapseItems items

def collapseMembers : List (String × Json ν) → List (String × Json ν)
  | [] => []
  | (name, value) :: members => (name, value.collapse) :: collapseMembers members

end

theorem collapseItems_eq_map (items : List (Json ν)) :
    collapseItems items = items.map collapse := by
  induction items with
  | nil => rfl
  | cons item items ih => rw [collapseItems, ih, List.map_cons]

theorem collapseMembers_eq_map (members : List (String × Json ν)) :
    collapseMembers members =
      members.map fun (name, value) => (name, value.collapse) := by
  induction members with
  | nil => rfl
  | cons member members ih =>
      obtain ⟨name, value⟩ := member
      rw [collapseMembers, ih, List.map_cons]

mutual

def same : Json Number → Json Number → Bool
  | .null, .null => true
  | .boolean value, .boolean other => value == other
  | .number value, .number other => value.same other
  | .string text, .string other => text == other
  | .array items, .array others => sameItems items others
  | .object members, .object others =>
      members.length == others.length && sameMembers members others
  | _, _ => false

def sameItems : List (Json Number) → List (Json Number) → Bool
  | [], [] => true
  | item :: items, other :: others => item.same other && sameItems items others
  | _, _ => false

/-- Whether every member has an equal one of its name among the others. -/
def sameMembers : List (String × Json Number) → List (String × Json Number) → Bool
  | [], _ => true
  | (name, value) :: members, others =>
      (match others.lookup name with
        | some other => value.same other
        | none => false) && sameMembers members others

end

def write (layout : Layout) (tree : Json Number) : String :=
  (tree.mapNumbers Number.token).render layout

end QueryWire.Json
