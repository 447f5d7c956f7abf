import QueryWire.Proofs.Expr.Places
import QueryWire.Proofs.Expr.Shaped
import QueryWire.Proofs.Recipe.Obtainable

namespace QueryWire

namespace Expr

def isObject (expr : Expr) : Bool := expr.asObject?.isSome

/-- What holds of a node whatever stands around it. -/
structure SoundNode (node : Expr) : Prop where
  /-- The name of a call is the name of its first field, so there is one. -/
  named : ∀ call, node.asCall? = some call → call.fields ≠ []
  distinct : ∀ members, node.asObject? = some members → (Members.names members).Nodup
  finite : ∀ x, node.asLiteral? = some (.double x) → x.isFinite = true
  referred : ∀ id, node.asLiteral? = some (.reference id) → id ≠ ""

/-- Among the children of a node, an object stands only as the argument of a call
`object` without other fields, or of a call `let` with the one other field `in`. -/
def PlacesObjects : Expr → Prop
  | .call name argument others =>
      (argument.isObject = true →
        name = "object" ∧ others = [] ∨ name = "let" ∧ Members.names others = ["in"]) ∧
      ∀ field ∈ others, field.2.isObject = false
  | node => ∀ child ∈ node.children, child.isObject = false

/-- Objects stand under their reserved call or under `let`, and not at the root. -/
def ObjectsWrapped (expr : Expr) : Prop :=
  expr.isObject = false ∧ expr.Everywhere PlacesObjects

def WellFormed (expr : Expr) : Prop :=
  expr.Everywhere SoundNode ∧ expr.ObjectsWrapped

theorem soundNode_literal {value : Value} :
    SoundNode (.literal value) ↔ value.Sendable := by
  constructor
  · intro sound
    cases value with
    | double x => exact sound.finite x rfl
    | reference id => exact sound.referred id rfl
    | _ => trivial
  · intro sendable
    refine ⟨by simp [asCall?], by simp [asObject?], ?_, ?_⟩
    · rintro x same
      cases same
      exact sendable
    · rintro id same
      cases same
      exact sendable

theorem soundNode_call (name : String) (argument : Expr) (others : List (String × Expr)) :
    SoundNode (.call name argument others) :=
  ⟨by simp [asCall?, Call.fields], by simp [asObject?], by simp [asLiteral?],
    by simp [asLiteral?]⟩

theorem soundNode_array (items : List Expr) : SoundNode (.array items) :=
  ⟨by simp [asCall?], by simp [asObject?], by simp [asLiteral?], by simp [asLiteral?]⟩

theorem soundNode_object {members : List (String × Expr)} :
    SoundNode (.object members) ↔ (Members.names members).Nodup := by
  constructor
  · exact fun sound => sound.distinct members rfl
  · intro distinct
    refine ⟨by simp [asCall?], ?_, by simp [asLiteral?], by simp [asLiteral?]⟩
    rintro others same
    cases same
    exact distinct

/-- The two conditions on every node, of a node whose children satisfy them. -/
theorem everywhere_of_children {expr : Expr} (sound : SoundNode expr)
    (placed : PlacesObjects expr)
    (below : ∀ child ∈ expr.children,
      child.Everywhere SoundNode ∧ child.Everywhere PlacesObjects) :
    expr.Everywhere SoundNode ∧ expr.Everywhere PlacesObjects :=
  ⟨everywhere_iff.mpr ⟨sound, fun child member => (below child member).1⟩,
    everywhere_iff.mpr ⟨placed, fun child member => (below child member).2⟩⟩

/-- A node that is no object is well-formed if its children satisfy the two conditions. -/
theorem wellFormed_of_children {expr : Expr} (sound : SoundNode expr)
    (notObject : expr.isObject = false) (placed : PlacesObjects expr)
    (below : ∀ child ∈ expr.children,
      child.Everywhere SoundNode ∧ child.Everywhere PlacesObjects) : expr.WellFormed :=
  have all := everywhere_of_children sound placed below
  ⟨all.1, notObject, all.2⟩

theorem WellFormed.everywhere {expr : Expr} (wellFormed : expr.WellFormed) :
    expr.Everywhere SoundNode ∧ expr.Everywhere PlacesObjects :=
  ⟨wellFormed.1, wellFormed.2.2⟩

/-- An object with well-formed entries satisfies all conditions but the one that it
stands somewhere. -/
theorem everywhere_object {members : List (String × Expr)}
    (distinct : (Members.names members).Nodup)
    (each : ∀ member ∈ members, member.2.WellFormed) :
    (object members).Everywhere SoundNode ∧ (object members).Everywhere PlacesObjects := by
  refine everywhere_of_children (soundNode_object.mpr distinct) ?_ ?_
  · intro child member
    obtain ⟨entry, inside, rfl⟩ := List.mem_map.mp member
    exact (each entry inside).2.1
  · intro child member
    obtain ⟨entry, inside, rfl⟩ := List.mem_map.mp member
    exact (each entry inside).everywhere

theorem wellFormed_of_shaped {free : String → Prop} {given : Expr → Prop}
    (sound : ∀ expr, given expr → expr.WellFormed) {expr : Expr}
    (shaped : Shaped free given expr) : expr.WellFormed := by
  induction shaped with
  | given held => exact sound _ held
  | literal sendable =>
      exact wellFormed_of_children (soundNode_literal.mpr sendable) rfl
        (by intro child member; cases member) (by intro child member; cases member)
  | @array items _ each =>
      exact wellFormed_of_children (soundNode_array items) rfl
        (fun child member => (each child member).2.1)
        fun child member => (each child member).everywhere
  | @call name argument others _ _ _ first each =>
      refine wellFormed_of_children (soundNode_call name argument others) rfl
        ⟨fun isObject => by simp [first.2.1] at isObject,
          fun field member => (each field member).2.1⟩
        fun child member => ?_
      rcases List.mem_cons.mp member with rfl | later
      · exact first.everywhere
      · obtain ⟨field, inside, rfl⟩ := List.mem_map.mp later
        exact (each field inside).everywhere
  | @wrapped members distinct _ each =>
      refine wellFormed_of_children (soundNode_call "object" (.object members) []) rfl
        ⟨fun _ => .inl ⟨rfl, rfl⟩, by simp⟩ fun child member => ?_
      cases List.mem_singleton.mp member
      exact everywhere_object distinct each
  | @bound members body distinct _ _ each visible =>
      refine wellFormed_of_children (soundNode_call "let" (.object members) [("in", body)]) rfl
        ⟨fun _ => .inr ⟨rfl, rfl⟩, by simpa using visible.2.1⟩ fun child member => ?_
      rcases List.mem_pair.mp member with rfl | rfl
      · exact everywhere_object distinct each
      · exact visible.everywhere

/-- Objects have no shape of their own, so the induction also says what holds of
the entries of an object. -/
theorem shaped_of_everywhere {free : String → Prop} {given : Expr → Prop}
    (anyName : ∀ name, free name) (expr : Expr) :
    expr.Everywhere SoundNode → expr.Everywhere PlacesObjects →
      (expr.isObject = false → Shaped free given expr) ∧
      ∀ members, expr = .object members → ∀ member ∈ members, Shaped free given member.2 := by
  induction expr using induction_children with
  | step expr ih =>
  intro sound placed
  have below (child : Expr) (member : child ∈ expr.children) :=
    ih child member (sound.child member) (placed.child member)
  cases expr with
  | literal value =>
      exact ⟨fun _ => .literal (soundNode_literal.mp sound.root), by simp⟩
  | array items =>
      refine ⟨fun _ => .array fun item member => ?_, by simp⟩
      exact (below item member).1 (placed.root item member)
  | object members =>
      refine ⟨by simp [isObject, asObject?], ?_⟩
      rintro others same member inside
      cases same
      have child : member.2 ∈ children (.object members) := List.mem_map_of_mem inside
      exact (below member.2 child).1 (placed.root member.2 child)
  | call name argument others =>
      refine ⟨fun _ => ?_, by simp⟩
      have field (entry : String × Expr) (inside : entry ∈ others) : Shaped free given entry.2 := by
        have child : entry.2 ∈ children (.call name argument others) :=
          List.mem_cons_of_mem argument (List.mem_map_of_mem inside)
        exact (below entry.2 child).1 (placed.root.2 entry inside)
      have first := below argument List.mem_cons_self
      cases wrapped : argument.isObject with
      | false => exact .call (anyName name) (first.1 wrapped) field
      | true =>
          obtain ⟨members, object⟩ := Option.isSome_iff_exists.mp wrapped
          cases argument <;> cases object
          have distinct := soundNode_object.mp (sound.child List.mem_cons_self).root
          rcases placed.root.1 wrapped with ⟨rfl, rfl⟩ | ⟨rfl, names⟩
          · exact .wrapped distinct (first.2 members rfl)
          · obtain ⟨⟨other, body⟩, single, same⟩ := List.map_eq_singleton_iff.mp names
            cases single
            cases same
            exact .bound distinct (first.2 members rfl) (field _ List.mem_cons_self)

theorem WellFormed.shaped {free : String → Prop} {given : Expr → Prop}
    (anyName : ∀ name, free name) {expr : Expr} (wellFormed : expr.WellFormed) :
    Shaped free given expr :=
  (shaped_of_everywhere anyName expr wellFormed.1 wellFormed.2.2).1 wellFormed.2.1

theorem allowsFunctions_of_any {free : String → Prop} (anyName : ∀ name, free name) :
    AllowsFunctions free where
  nullary function := anyName function.name
  unary function := anyName function.name
  binary function := anyName function.fields.1
  ternary function := anyName function.fields.1
  quaternary function := anyName function.fields.1
  variadic function := anyName function.name
  iteration function := anyName function.name
  other name _ := anyName name

theorem wellFormed_iff_obtainable {expr : Expr} :
    expr.WellFormed ↔ Obtainable .constructors expr := by
  have anyName (name : String) : Surface.constructors.free name := trivial
  constructor
  · exact fun wellFormed =>
      (wellFormed.shaped anyName : Shaped _ (fun _ => False) expr).obtainable (fun _ => False.elim)
  · exact fun obtained => wellFormed_of_shaped (fun _ => False.elim)
      (Shaped.of_obtainable (allowsFunctions_of_any anyName) (fun _ _ => False.elim) obtained)

/-- The constructors make the well-formed expressions and no others, in whatever way
they are nested, and so does every recipe that builds an expression. -/
theorem constructors_make_wellFormed (expr : Expr) :
    (Obtainable .constructors expr ↔ expr.WellFormed) ∧
      ∀ (recipe : Recipe) (supply after : SymbolSupply),
        recipe.run supply = (.ok expr, after) → expr.WellFormed :=
  ⟨wellFormed_iff_obtainable.symm, fun _ _ _ built =>
    wellFormed_iff_obtainable.mpr (Recipe.obtainable_of_run built)⟩

/-- User keys named like control fields, and a call that takes the wrapper's name. -/
def controlNamedKeys : Recipe :=
  .letIn [("a", .encode (.map [("let", .uint64 1), ("in", .double ⟨0x3FF8000000000000⟩)]))]
    (.shorthand (.iterate .map) (.array [.variableNamed "a"]) "x"
      (.call "object" (.parameter "x") [("object", some (.literal (.reference "r")))]))

theorem wellFormed_control_named_keys :
    ∃ expr after, controlNamedKeys.run {} = (.ok expr, after) ∧ expr.WellFormed := by
  obtain ⟨expr, after, built⟩ : ∃ expr after, controlNamedKeys.run {} = (.ok expr, after) :=
    ⟨_, _, rfl⟩
  exact ⟨expr, after, built, (constructors_make_wellFormed expr).2 controlNamedKeys {} after built⟩

end Expr

end QueryWire
