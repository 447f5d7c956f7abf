import QueryWire.Expr.Wire
import QueryWire.Proofs.Expr.WellFormed

namespace QueryWire.Expr

/-! # Parts of finished expressions

A program that uses the parts of finished expressions can take the object out of
its reserved call and put it anywhere.  What it obtains is then every expression
with sound nodes, and objects stay wrapped in just those expressions that could
have been constructed without reading.  A bare object is written like a call, so
its first key is taken for the name of a function.
-/

theorem mem_children_of_field {whole : Expr} {call : Call} {field : String × Expr}
    (shape : whole.asCall? = some call) (part : field ∈ call.fields) :
    field.2 ∈ whole.children := by
  cases whole <;> cases shape
  rcases List.mem_cons.mp part with rfl | later
  · exact List.mem_cons_self
  · exact List.mem_cons_of_mem _ (List.mem_map_of_mem later)

theorem mem_children_of_item {whole item : Expr} {items : List Expr}
    (shape : whole.asArray? = some items) (part : item ∈ items) : item ∈ whole.children := by
  cases whole <;> cases shape
  exact part

theorem mem_children_of_entry {whole : Expr} {members : List (String × Expr)}
    {member : String × Expr} (shape : whole.asObject? = some members)
    (part : member ∈ members) : member.2 ∈ whole.children := by
  cases whole <;> cases shape
  exact List.mem_map_of_mem part

theorem mem_of_lookup {name : String} {value : Expr} {fields : List (String × Expr)}
    (found : fields.lookup name = some value) : (name, value) ∈ fields := by
  obtain ⟨before, behind, rfl, -⟩ := List.lookup_eq_some_iff.mp found
  simp

theorem mem_children_of_get? {whole part : Expr} {name : String}
    (found : whole.get? name = some part) : part ∈ whole.children := by
  cases whole with
  | literal value => cases found
  | call first argument others =>
      exact @mem_children_of_field _ ⟨first, argument, others⟩ (name, part) rfl
        (mem_of_lookup found)
  | array items => cases found
  | object members => exact List.mem_map_of_mem (mem_of_lookup found)

theorem Everywhere.visible {property : Expr → Prop} {whole part : Expr}
    (holds : whole.Everywhere property) (seen : Visible whole part) :
    part.Everywhere property := by
  induction seen with
  | root => exact holds
  | field _ shape member ih => exact ih.child (mem_children_of_field shape member)
  | item _ shape member ih => exact ih.child (mem_children_of_item shape member)
  | entry _ shape member ih => exact ih.child (mem_children_of_entry shape member)
  | named _ found ih => exact ih.child (mem_children_of_get? found)

theorem sound_of_shaped {free : String → Prop} {expr : Expr}
    (shaped : Shaped free (Everywhere SoundNode) expr) : expr.Everywhere SoundNode := by
  induction shaped with
  | given held => exact held
  | literal sendable =>
      exact everywhere_iff.mpr ⟨soundNode_literal.mpr sendable, List.forall_mem_nil _⟩
  | @array items _ each => exact everywhere_iff.mpr ⟨soundNode_array items, each⟩
  | call _ _ _ first each => exact .call (soundNode_call _ _ _) first each
  | wrapped distinct _ each =>
      exact .call (soundNode_call _ _ _) (.object (soundNode_object.mpr distinct) each)
        (List.forall_mem_nil _)
  | bound distinct _ _ each visible =>
      exact .call (soundNode_call _ _ _) (.object (soundNode_object.mpr distinct) each)
        (List.forall_mem_singleton.mpr visible)

theorem sound_of_obtainable {expr : Expr} (obtained : Obtainable .all expr) :
    expr.Everywhere SoundNode :=
  sound_of_shaped (Shaped.of_obtainable (allowsFunctions_of_any fun _ => trivial)
    (fun whole seen _ => .given ((sound_of_shaped whole).visible seen)) obtained)

/-- An object is obtained by wrapping its entries and reading the wrapper's field. -/
theorem obtainable_object {members : List (String × Expr)}
    (distinct : (Members.names members).Nodup)
    (each : ∀ member ∈ members, Obtainable .all member.2) :
    Obtainable .all (.object members) := by
  have wrapped := Obtainable.ofPairs each
  rw [ofPairs, Members.ofPairs_of_nodup distinct] at wrapped
  have found : (call "object" (object members) []).get? "object" = some (object members) := rfl
  exact .read wrapped (.named .root found) trivial

theorem obtainable_of_sound {expr : Expr} (sound : expr.Everywhere SoundNode) :
    Obtainable .all expr := by
  induction expr using induction_children with
  | step expr ih =>
  have below (child : Expr) (member : child ∈ expr.children) : Obtainable .all child :=
    ih child member (sound.child member)
  cases expr with
  | literal value => exact .literal (soundNode_literal.mp sound.root).made
  | array items => exact .array below
  | call name argument others =>
      refine .call trivial (below argument List.mem_cons_self) fun field inside => ?_
      exact below field.2 (List.mem_cons_of_mem argument (List.mem_map_of_mem inside))
  | object members =>
      refine obtainable_object (soundNode_object.mp sound.root) fun member inside => ?_
      exact below member.2 (List.mem_map_of_mem inside)

theorem objectsWrapped_iff_constructed {expr : Expr} (obtained : Obtainable .all expr) :
    expr.ObjectsWrapped ↔ Obtainable .constructors expr := by
  rw [← wellFormed_iff_obtainable]
  exact ⟨fun wrapped => ⟨sound_of_obtainable obtained, wrapped⟩, And.right⟩

/-- A program that uses every part but the objects themselves. -/
def sparingObjects : Surface := ⟨fun _ => True, fun part => part.isObject = false⟩

theorem WellFormed.visible {whole part : Expr} (wellFormed : whole.WellFormed)
    (seen : Visible whole part) (noObject : part.isObject = false) : part.WellFormed :=
  ⟨wellFormed.1.visible seen, noObject, wellFormed.2.2.visible seen⟩

theorem wellFormed_of_sparing {expr : Expr} (obtained : Obtainable sparingObjects expr) :
    expr.WellFormed := by
  have anyName (name : String) : sparingObjects.free name := trivial
  refine @wellFormed_of_shaped _ WellFormed (fun _ => id) expr
    (Shaped.of_obtainable (allowsFunctions_of_any anyName) ?_ obtained)
  intro whole part shaped seen noObject
  exact .given ((wellFormed_of_shaped (fun _ => id) shaped).visible seen noObject)

/-- An object that is used by itself is sent as the call of its first key. -/
theorem not_objectsWrapped_array (name : String) (value : Expr)
    (members : List (String × Expr)) :
    ¬ (array [.object ((name, value) :: members)]).ObjectsWrapped ∧
      ∀ layout, (array [.object ((name, value) :: members)]).render layout =
        (array [.call name value members]).render layout := by
  refine ⟨fun wrapped => ?_, fun layout => rfl⟩
  have placed := wrapped.2.root (.object ((name, value) :: members)) List.mem_cons_self
  cases placed

theorem obtainable_bare_abort : Obtainable .all (.array [.object [("abort", .text "now")]]) := by
  have text : Value.Made (.string "now") := Value.Sendable.made trivial
  have read : Obtainable .all (.object [("abort", .text "now")]) :=
    obtainable_object (by decide) (List.forall_mem_singleton.mpr (.literal text))
  exact .array (List.forall_mem_singleton.mpr read)

theorem bare_object_is_sent_as_call :
    Obtainable .all (.array [.object [("abort", .text "now")]]) ∧
      ¬ (array [.object [("abort", .text "now")]]).ObjectsWrapped ∧
      (array [.object [("abort", .text "now")]]).compact =
        (array [.call "abort" (.text "now") []]).compact := by
  obtain ⟨unwrapped, sent⟩ := not_objectsWrapped_array "abort" (.text "now") []
  exact ⟨obtainable_bare_abort, unwrapped, sent .compact⟩

/-- Reading can break the promise that objects stay wrapped, and only reading can.  A
program obtains every expression with sound nodes; the promise is kept in just those
that could have been constructed without reading, and in all of them if the program uses
no object by itself. -/
theorem objects_stay_wrapped_unless_read (expr : Expr) :
    (Obtainable .all expr ↔ expr.Everywhere SoundNode) ∧
      (Obtainable .all expr → (expr.ObjectsWrapped ↔ Obtainable .constructors expr)) ∧
      (Obtainable sparingObjects expr → expr.ObjectsWrapped) :=
  ⟨⟨sound_of_obtainable, obtainable_of_sound⟩, objectsWrapped_iff_constructed,
    fun sparing => (wellFormed_of_sparing sparing).2⟩

theorem objects_stay_wrapped_in_abort :
    Obtainable .all (.array [.object [("abort", .text "now")]]) ∧
      (array [.object [("abort", .text "now")]]).Everywhere SoundNode ∧
      ¬ Obtainable .constructors (.array [.object [("abort", .text "now")]]) ∧
      Obtainable sparingObjects (ofPairs [("abort", .text "now")]) ∧
      (ofPairs [("abort", .text "now")]).ObjectsWrapped := by
  obtain ⟨sound, constructed, -⟩ :=
    objects_stay_wrapped_unless_read (.array [.object [("abort", .text "now")]])
  have unwrapped := (not_objectsWrapped_array "abort" (.text "now") []).1
  have sparing : Obtainable sparingObjects (ofPairs [("abort", .text "now")]) :=
    .ofPairs (List.forall_mem_singleton.mpr (.literal (Value.Sendable.made trivial)))
  exact ⟨obtainable_bare_abort, sound.mp obtainable_bare_abort,
    fun made => unwrapped ((constructed obtainable_bare_abort).mpr made), sparing,
    (objects_stay_wrapped_unless_read _).2.2 sparing⟩

end QueryWire.Expr
