import QueryWire.Expr

namespace QueryWire.Expr

variable {ν : Type}

/-- The nodes directly under a node, in the order of writing. -/
def children : Expr ν → List (Expr ν)
  | .literal _ => []
  | .call _ argument others => argument :: others.map Prod.snd
  | .array items => items
  | .object members => members.map Prod.snd

/-- The node at a place. -/
def at? (expr : Expr ν) : List Nat → Option (Expr ν)
  | [] => some expr
  | index :: place => expr.children[index]?.bind (·.at? place)

theorem sizeOf_child_lt {expr child : Expr ν} (member : child ∈ expr.children) :
    sizeOf child < sizeOf expr := by
  have second {fields : List (String × Expr ν)} (inside : child ∈ fields.map Prod.snd) :
      sizeOf child < sizeOf fields := by
    obtain ⟨⟨name, value⟩, field, rfl⟩ := List.mem_map.mp inside
    have := List.sizeOf_lt_of_mem field
    simp only [Prod.mk.sizeOf_spec] at this ⊢
    omega
  cases expr with
  | literal value => simp [children] at member
  | call name argument others =>
      rcases List.mem_cons.mp member with rfl | inside
      · simp only [call.sizeOf_spec]
        omega
      · have := second inside
        simp only [call.sizeOf_spec]
        omega
  | array items =>
      have := List.sizeOf_lt_of_mem (show child ∈ items from member)
      simp only [array.sizeOf_spec]
      omega
  | object members =>
      have := second member
      simp only [object.sizeOf_spec]
      omega

/-- What follows for every node from its children holds of every expression. -/
theorem induction_children {motive : Expr ν → Prop}
    (step : ∀ expr, (∀ child ∈ expr.children, motive child) → motive expr) (expr : Expr ν) :
    motive expr :=
  step expr fun child member =>
    have := sizeOf_child_lt member
    induction_children step child
termination_by sizeOf expr

/-- A property of every node of an expression, the root included. -/
def Everywhere (property : Expr → Prop) (expr : Expr) : Prop :=
  ∀ place node, expr.at? place = some node → property node

theorem everywhere_iff {property : Expr → Prop} {expr : Expr} :
    expr.Everywhere property ↔
      property expr ∧ ∀ child ∈ expr.children, child.Everywhere property := by
  constructor
  · intro holds
    refine ⟨holds [] expr rfl, fun child member place node found => ?_⟩
    obtain ⟨index, bound, rfl⟩ := List.getElem_of_mem member
    exact holds (index :: place) node (by simpa [at?, bound] using found)
  · rintro ⟨root, below⟩ place node found
    cases place with
    | nil =>
        cases found
        exact root
    | cons index place =>
        obtain ⟨child, present, deeper⟩ := Option.bind_eq_some_iff.mp found
        exact below child (List.mem_of_getElem? present) place node deeper

theorem Everywhere.root {property : Expr → Prop} {expr : Expr}
    (holds : expr.Everywhere property) : property expr :=
  (everywhere_iff.mp holds).1

theorem Everywhere.child {property : Expr → Prop} {expr child : Expr}
    (holds : expr.Everywhere property) (member : child ∈ expr.children) :
    child.Everywhere property :=
  (everywhere_iff.mp holds).2 child member

theorem Everywhere.call {property : Expr → Prop} {name : String} {argument : Expr}
    {others : List (String × Expr)} (root : property (.call name argument others))
    (first : argument.Everywhere property) (each : ∀ field ∈ others, field.2.Everywhere property) :
    (call name argument others).Everywhere property := by
  refine everywhere_iff.mpr ⟨root, fun child member => ?_⟩
  rcases List.mem_cons.mp member with rfl | later
  · exact first
  · obtain ⟨field, inside, rfl⟩ := List.mem_map.mp later
    exact each field inside

theorem Everywhere.object {property : Expr → Prop} {members : List (String × Expr)}
    (root : property (.object members)) (each : ∀ member ∈ members, member.2.Everywhere property) :
    (Expr.object members).Everywhere property := by
  refine everywhere_iff.mpr ⟨root, fun child member => ?_⟩
  obtain ⟨entry, inside, rfl⟩ := List.mem_map.mp member
  exact each entry inside

theorem Everywhere.imp {property wanted : Expr → Prop}
    (gives : ∀ node, property node → wanted node) {expr : Expr}
    (holds : expr.Everywhere property) : expr.Everywhere wanted :=
  fun place node found => gives node (holds place node found)

example : at? (.array [.null, .ofPairs [("a", .text "b")]]) [1, 0, 0] = some (.text "b") := rfl

end QueryWire.Expr
