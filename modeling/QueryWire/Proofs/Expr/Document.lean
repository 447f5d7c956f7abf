import QueryWire.Proofs.Expr.Lossless
import QueryWire.Proofs.Json.Collapse

namespace QueryWire.Expr

theorem wireFields_eq_mapValues (fields : List (String × Expr)) :
    wireFields fields = Members.mapValues wire fields :=
  wireFields_eq_map fields

/-- The names of a call's fields, or of an object's entries, are distinct. -/
def DistinctNames : Expr → Prop
  | .call name argument others => (Members.names ((name, argument) :: others)).Nodup
  | .object members => (Members.names members).Nodup
  | _ => True

theorem wireFields_kept_iff (fields : List (String × Expr)) :
    (Json.object (wireFields fields)).collapse = .object (wireFields fields) ↔
      (Members.names fields).Nodup ∧
        ∀ child ∈ fields.map Prod.snd, child.wire.collapse = child.wire := by
  rw [Json.collapse_object_eq_self_iff, wireFields_eq_mapValues, Members.names_mapValues]
  simp only [Members.mapValues, List.forall_mem_map]

theorem wire_kept_iff (expr : Expr) :
    expr.wire.collapse = expr.wire ↔
      expr.DistinctNames ∧ ∀ child ∈ expr.children, child.wire.collapse = child.wire := by
  cases expr with
  | literal value =>
      have kept : value.wire.collapse = value.wire := by
        cases value with
        | double x =>
            rw [Value.wire]
            split <;> rfl
        | _ => rfl
      exact iff_of_true kept ⟨trivial, List.forall_mem_nil _⟩
  | call name argument others => exact wireFields_kept_iff ((name, argument) :: others)
  | array items =>
      rw [wire, Json.collapse_array_eq_self_iff, wireItems_eq_map, List.forall_mem_map]
      exact iff_of_eq (true_and _).symm
  | object members => exact wireFields_kept_iff members

theorem collapse_wire_eq_self_iff (expr : Expr) :
    expr.wire.collapse = expr.wire ↔ expr.Everywhere DistinctNames := by
  induction expr using induction_children with
  | step expr ih =>
  rw [wire_kept_iff, everywhere_iff]
  exact and_congr_right fun _ => forall₂_congr ih

/-- No two fields of the node have one name, if it is a call. -/
def RepeatsNoField (node : Expr) : Prop :=
  ∀ call, node.asCall? = some call → (Members.names call.fields).Nodup

theorem SoundNode.distinctNames_iff {node : Expr} (sound : SoundNode node) :
    node.DistinctNames ↔ node.RepeatsNoField := by
  cases node with
  | call name argument others =>
      refine ⟨?_, fun each => each ⟨name, argument, others⟩ rfl⟩
      rintro distinct call ⟨⟩
      exact distinct
  | object members => exact iff_of_true (sound.distinct members rfl) nofun
  | _ => exact iff_of_true trivial nofun

/-- The compact text of the document is that of the expression just if no call in the
expression repeats a field. -/
theorem document_lossless_iff {expr : Expr} (constructed : Obtainable .constructors expr) :
    expr.document.write .compact = expr.compact ↔ expr.Everywhere RepeatsNoField := by
  have wellFormed := wellFormed_iff_obtainable.mpr constructed
  have finite := expr.finite_wire
  -- A tree is known from its text, so no other change makes up for a lost member.
  have same : expr.document.write .compact = expr.compact ↔ expr.wire.collapse = expr.wire :=
    ⟨Json.write_injective finite.collapse finite, congrArg (Json.write .compact)⟩
  have nodes : expr.Everywhere DistinctNames ↔ expr.Everywhere RepeatsNoField :=
    forall₃_congr fun place node found => (wellFormed.1 place node found).distinctNames_iff
  exact same.trans ((collapse_wire_eq_self_iff expr).trans nodes)

/-- A call that repeats its own name, with a longer value. -/
def repeatingCall : Call := ⟨"add", .text "", [("x", .null), ("add", .text "\" \\")]⟩

def nestedRepeat : Expr := .array [.ofPairs [("let", repeatingCall.toExpr)]]

theorem nestedRepeat_constructed : Obtainable .constructors nestedRepeat := by
  have leaf {value : Value} (sendable : value.Sendable) :
      Obtainable .constructors (.literal value) := .literal sendable.made
  refine .array (List.forall_mem_singleton.mpr (.ofPairs (List.forall_mem_singleton.mpr ?_)))
  refine .call trivial (leaf trivial) ?_
  exact List.forall_mem_cons.mpr ⟨leaf trivial, List.forall_mem_singleton.mpr (leaf trivial)⟩

theorem document_loses_nested_repeat :
    Obtainable .constructors nestedRepeat ∧
      nestedRepeat.document.write .compact ≠ nestedRepeat.compact := by
  refine ⟨nestedRepeat_constructed, fun same => ?_⟩
  have each := (document_lossless_iff nestedRepeat_constructed).mp same
  exact absurd (each [0, 0, 0] _ rfl _ rfl) (by decide)

end QueryWire.Expr
