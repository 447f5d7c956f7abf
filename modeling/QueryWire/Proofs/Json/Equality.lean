import QueryWire.Proofs.Json.Collapse

namespace QueryWire

theorem Number.same_self {number : Number} (finite : number.Finite) :
    number.same number = true := by
  cases number with
  | integer n => exact beq_self_eq_true n
  | double x => simp [same, Decimal.Binary64.same, Decimal.Binary64.isNaN_of_isFinite finite]

namespace Json

theorem sameItems_self {items : List (Json Number)}
    (each : ∀ item ∈ items, item.same item = true) : sameItems items items = true := by
  induction items with
  | nil => rfl
  | cons item items ih =>
      obtain ⟨first, later⟩ := List.forall_mem_cons.mp each
      rw [sameItems, first, ih later, Bool.and_self]

/-- The members that are compared are a part of the others, which are looked up whole. -/
theorem sameMembers_of_lookup {members others : List (String × Json Number)}
    (found : ∀ member ∈ members, others.lookup member.1 = some member.2)
    (each : ∀ member ∈ members, member.2.same member.2 = true) :
    sameMembers members others = true := by
  induction members with
  | nil => rfl
  | cons member members ih =>
      obtain ⟨name, value⟩ := member
      obtain ⟨here, there⟩ := List.forall_mem_cons.mp found
      obtain ⟨first, later⟩ := List.forall_mem_cons.mp each
      simp [sameMembers, here, first, ih there later]

theorem sameMembers_self {members : List (String × Json Number)}
    (distinct : (Members.names members).Nodup)
    (each : ∀ member ∈ members, member.2.same member.2 = true) :
    sameMembers members members = true :=
  sameMembers_of_lookup (fun _ => (Members.mem_iff_lookup distinct).mp) each

theorem same_collapse_self {tree : Json Number} (finite : tree.Each Number.Finite) :
    tree.collapse.same tree.collapse = true := by
  induction finite with
  | null => rfl
  | boolean value => exact beq_self_eq_true value
  | number held => exact Number.same_self held
  | string text => exact beq_self_eq_true text
  | array _ ih =>
      rw [collapse, collapseItems_eq_map, same]
      exact sameItems_self (List.forall_mem_map.mpr ih)
  | object _ ih =>
      rw [collapse, same, beq_self_eq_true, Bool.true_and]
      refine sameMembers_self (Members.nodup_names_ofPairs _) fun member inside => ?_
      rw [collapseMembers_eq_map] at inside
      obtain ⟨source, present, rfl⟩ := List.mem_map.mp (Members.mem_of_mem_ofPairs inside)
      exact ih source present

end Json

end QueryWire
