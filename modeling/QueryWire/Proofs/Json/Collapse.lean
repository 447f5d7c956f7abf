import QueryWire.Proofs.Json.RoundTrip
import QueryWire.Proofs.Members

namespace QueryWire.Json

variable {ν μ : Type}

mutual

/-- The tree in which, at every depth, a repeated name keeps the place of its first
member and the value of its last. -/
def lastWins : Json ν → Json ν
  | .null => .null
  | .boolean value => .boolean value
  | .number value => .number value
  | .string text => .string text
  | .array items => .array (lastWinsItems items)
  | .object members => .object (Members.lastOfEach (lastWinsMembers members))

def lastWinsItems : List (Json ν) → List (Json ν)
  | [] => []
  | item :: items => item.lastWins :: lastWinsItems items

def lastWinsMembers : List (String × Json ν) → List (String × Json ν)
  | [] => []
  | (name, value) :: members => (name, value.lastWins) :: lastWinsMembers members

end

mutual

theorem collapse_eq_lastWins : (tree : Json ν) → tree.collapse = tree.lastWins
  | .null | .boolean _ | .number _ | .string _ => rfl
  | .array items => congrArg Json.array (collapseItems_eq_lastWins items)
  | .object members => by
      rw [collapse, lastWins, collapseMembers_eq_lastWins members, Members.ofPairs_eq_lastOfEach]

theorem collapseItems_eq_lastWins : (items : List (Json ν)) →
    collapseItems items = lastWinsItems items
  | [] => rfl
  | item :: items =>
      congrArg₂ List.cons (collapse_eq_lastWins item) (collapseItems_eq_lastWins items)

theorem collapseMembers_eq_lastWins : (members : List (String × Json ν)) →
    collapseMembers members = lastWinsMembers members
  | [] => rfl
  | (name, value) :: members =>
      congrArg₂ List.cons (congrArg (name, ·) (collapse_eq_lastWins value))
        (collapseMembers_eq_lastWins members)

end

theorem collapseMembers_eq_mapValues (members : List (String × Json ν)) :
    collapseMembers members = Members.mapValues collapse members :=
  collapseMembers_eq_map members

theorem mapMembers_eq_mapValues (f : ν → μ) (members : List (String × Json ν)) :
    mapMembers f members = Members.mapValues (mapNumbers f) members :=
  mapMembers_eq_map f members

mutual

theorem collapse_mapNumbers (f : ν → μ) :
    (tree : Json ν) → (tree.mapNumbers f).collapse = tree.collapse.mapNumbers f
  | .null | .boolean _ | .number _ | .string _ => rfl
  | .array items => congrArg Json.array (collapseItems_mapItems f items)
  | .object members => by
      rw [mapNumbers, collapse, collapseMembers_mapMembers f members, collapse, mapNumbers,
        mapMembers_eq_mapValues, Members.ofPairs_mapValues, mapMembers_eq_mapValues]

theorem collapseItems_mapItems (f : ν → μ) :
    (items : List (Json ν)) → collapseItems (mapItems f items) = mapItems f (collapseItems items)
  | [] => rfl
  | item :: items =>
      congrArg₂ List.cons (collapse_mapNumbers f item) (collapseItems_mapItems f items)

theorem collapseMembers_mapMembers (f : ν → μ) : (members : List (String × Json ν)) →
    collapseMembers (mapMembers f members) = mapMembers f (collapseMembers members)
  | [] => rfl
  | (name, value) :: members =>
      congrArg₂ List.cons (congrArg (name, ·) (collapse_mapNumbers f value))
        (collapseMembers_mapMembers f members)

end

theorem Each.collapse {property : ν → Prop} {tree : Json ν} (each : tree.Each property) :
    tree.collapse.Each property := by
  induction each with
  | null => exact .null
  | boolean value => exact .boolean value
  | number held => exact .number held
  | string text => exact .string text
  | array _ ih =>
      rw [Json.collapse, collapseItems_eq_map]
      exact .array (List.forall_mem_map.mpr ih)
  | object _ ih =>
      rw [Json.collapse, collapseMembers_eq_map]
      refine .object fun member inside => ?_
      obtain ⟨source, present, rfl⟩ := List.mem_map.mp (Members.mem_of_mem_ofPairs inside)
      exact ih source present

theorem map_eq_self_iff {α : Type} {f : α → α} {items : List α} :
    items.map f = items ↔ ∀ item ∈ items, f item = item := by
  rw [← List.map_inj_left, List.map_id']

theorem collapse_array_eq_self_iff {items : List (Json ν)} :
    (Json.array items).collapse = .array items ↔ ∀ item ∈ items, item.collapse = item := by
  rw [collapse, collapseItems_eq_map, Json.array.injEq]
  exact map_eq_self_iff

theorem names_collapseMembers (members : List (String × Json ν)) :
    Members.names (collapseMembers members) = Members.names members := by
  rw [collapseMembers_eq_mapValues, Members.names_mapValues]

/-- Where the names are distinct nothing is replaced, and a document has distinct names. -/
theorem collapse_object_eq_self_iff {members : List (String × Json ν)} :
    (Json.object members).collapse = .object members ↔
      (Members.names members).Nodup ∧ ∀ member ∈ members, member.2.collapse = member.2 := by
  have unrepeated (distinct : (Members.names members).Nodup) :
      Members.ofPairs (collapseMembers members) = collapseMembers members :=
    Members.ofPairs_of_nodup (by rwa [names_collapseMembers])
  rw [collapse, Json.object.injEq]
  constructor
  · intro same
    have distinct : (Members.names members).Nodup := same ▸ Members.nodup_names_ofPairs _
    rw [unrepeated distinct, collapseMembers_eq_map] at same
    exact ⟨distinct, fun member inside =>
      (Prod.mk.inj (map_eq_self_iff.mp same member inside)).2⟩
  · rintro ⟨distinct, each⟩
    rw [unrepeated distinct, collapseMembers_eq_map]
    exact map_eq_self_iff.mpr fun member inside => Prod.ext rfl (each member inside)

end QueryWire.Json
