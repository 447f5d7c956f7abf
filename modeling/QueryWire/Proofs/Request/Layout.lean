import QueryWire.Proofs.Json.Equality
import QueryWire.Proofs.Json.Scan
import QueryWire.Proofs.Expr.Lossless
import QueryWire.Request

namespace QueryWire

namespace Json

variable {ν : Type}

/-- Whether a tree has no items and no members. -/
def isBare : Json ν → Bool
  | .array (_ :: _) | .object (_ :: _) => false
  | _ => true

theorem write_of_isBare {tree : Json Number} (bare : tree.isBare = true) :
    tree.write .compact = tree.write .pretty := by
  match tree with
  | .null | .boolean true | .boolean false | .number _ | .string _ | .array [] | .object [] => rfl
  | .array (_ :: _) | .object (_ :: _) => cases bare

/-- Behind the opening mark of a container that holds something, a new line starts. -/
theorem starts_of_not_isBare {tree : Json Number} (filled : tree.isBare = false) :
    ∃ mark rest, mark ≠ '"' ∧ (tree.write .pretty).toList = mark :: '\n' :: rest := by
  match tree with
  | .null | .boolean _ | .number _ | .string _ | .array [] | .object [] => cases filled
  | .array (_ :: _) => exact ⟨'[', _, by decide, String.toList_ofList⟩
  | .object (_ :: _) => exact ⟨'\x7b', _, by decide, String.toList_ofList⟩

theorem write_layouts_eq_iff {tree : Json Number} :
    tree.write .compact = tree.write .pretty ↔ tree.isBare = true := by
  refine ⟨fun same => ?_, write_of_isBare⟩
  by_contra notBare
  obtain ⟨mark, rest, notQuote, starts⟩ := starts_of_not_isBare (Bool.eq_false_iff.mpr notBare)
  -- A text that is also the compact one loses nothing, so that its new line would have to stay.
  have kept := congrArg String.toList ((stripped_write .pretty tree).trans same)
  rw [stripped, String.toList_ofList, starts] at kept
  have atNewline : ¬ (Scan.outside.run [mark]).Deletes '\n' := Scan.not_deletes_of_kept kept
  exact atNewline ⟨if_neg notQuote, .inr rfl⟩

end Json

namespace Value

/-- The categories whose wire form is one token of JSON. -/
def tokenKinds : List Kind := [.null, .string, .long, .double, .boolean]

/-- The categories whose wire form is an object that tells the category. -/
def taggedKinds : List Kind := [.time, .date, .bytes, .reference]

theorem not_mem_tokenKinds {kind : Kind} (tagged : kind ∈ taggedKinds) : kind ∉ tokenKinds := by
  revert tagged
  cases kind <;> decide

theorem isBare_wire_iff {value : Value} :
    value.wire.isBare = true ↔ value.kind ∈ tokenKinds := by
  cases value with
  | double x =>
      rw [wire]
      split <;> simp [Json.isBare, kind, tokenKinds]
  | _ => simp [wire, tagged, Json.isBare, kind, tokenKinds]

end Value

namespace Expr

/-- A literal that is one token on the wire, or an array without items. -/
def LayoutFree (expr : Expr) : Prop :=
  (∃ value, expr = .literal value ∧ value.kind ∈ Value.tokenKinds) ∨ expr = .array []

theorem layoutFree_literal {value : Value} :
    (literal value).LayoutFree ↔ value.kind ∈ Value.tokenKinds := by
  simp [LayoutFree]

theorem layoutFree_array {items : List Expr} : (array items).LayoutFree ↔ items = [] := by
  simp [LayoutFree]

theorem not_layoutFree_call {name : String} {argument : Expr} {others : List (String × Expr)} :
    ¬ (call name argument others).LayoutFree := by
  simp [LayoutFree]

/-- An object without entries is written on one line as well, but no constructor makes one
that stands by itself. -/
theorem isBare_wire_iff {expr : Expr} (notObject : expr.isObject = false) :
    expr.wire.isBare = true ↔ expr.LayoutFree := by
  cases expr with
  | literal value => exact Value.isBare_wire_iff.trans layoutFree_literal.symm
  | call name argument others => exact iff_of_false Bool.false_ne_true not_layoutFree_call
  | array items =>
      rw [layoutFree_array]
      cases items with
      | nil => exact iff_of_true rfl rfl
      | cons item items => exact iff_of_false Bool.false_ne_true (List.cons_ne_nil item items)
  | object members => cases notObject

end Expr

namespace Request

theorem documents_same (expr : Expr) (layout other : Layout) :
    (prepare layout expr).document.same (prepare other expr).document = true :=
  Json.same_collapse_self expr.finite_wire

theorem bodies_eq_iff {expr : Expr} (notObject : expr.isObject = false) :
    (prepare .compact expr).body = (prepare .pretty expr).body ↔ expr.LayoutFree :=
  Json.write_layouts_eq_iff.trans (Expr.isBare_wire_iff notObject)

/-- The two requests of an expression have equal documents, and are equal themselves just if
the expression is a token or an array without items.  A call always has its argument inside,
a tagged leaf its text, and any other array its first item. -/
theorem layout_matters_unless_free {expr : Expr} (constructed : Obtainable .constructors expr) :
    (prepare .compact expr).document.same (prepare .pretty expr).document = true ∧
      ((prepare .compact expr).same (prepare .pretty expr) = true ↔ expr.LayoutFree) ∧
      (∀ call, expr.asCall? = some call →
        (prepare .compact expr).same (prepare .pretty expr) = false) ∧
      (∀ value, expr = .literal value → value.kind ∈ Value.taggedKinds →
        (prepare .compact expr).same (prepare .pretty expr) = false) ∧
      ∀ item items, expr = .array (item :: items) →
        (prepare .compact expr).same (prepare .pretty expr) = false := by
  have wellFormed := Expr.wellFormed_iff_obtainable.mpr constructed
  have documents := documents_same expr .compact .pretty
  have equal : (prepare .compact expr).same (prepare .pretty expr) = true ↔ expr.LayoutFree := by
    rw [same, documents, Bool.true_and, beq_iff_eq]
    exact bodies_eq_iff wellFormed.2.1
  have apart (filled : ¬ expr.LayoutFree) :
      (prepare .compact expr).same (prepare .pretty expr) = false :=
    Bool.eq_false_iff.mpr (mt equal.mp filled)
  refine ⟨documents, equal, fun call shape => apart ?_, fun value shape tagged => apart ?_,
    fun item items shape => apart ?_⟩
  · cases expr <;> cases shape
    exact Expr.not_layoutFree_call
  · rw [shape, Expr.layoutFree_literal]
    exact Value.not_mem_tokenKinds tagged
  · rw [shape, Expr.layoutFree_array]
    exact List.cons_ne_nil item items

/-- A string that is a line break. -/
def lineBreak : Expr := .text "\n"

theorem constructed_lineBreak : Obtainable .constructors lineBreak :=
  .literal (Value.Sendable.made trivial)

/-- A line break inside a string is content of both bodies, while a wrapped object without
entries, a `let` without names and a pagination without settings are on several lines of the
pretty one only. -/
theorem layout_matters_unless_free_calls :
    (prepare .compact lineBreak).same (prepare .pretty lineBreak) = true ∧
      ∀ expr ∈ [.ofPairs [], .call "let" (.object []) [("in", lineBreak)],
          (Pagination.ofResource lineBreak).toExpr],
        Obtainable .constructors expr ∧
          (prepare .compact expr).same (prepare .pretty expr) = false := by
  obtain ⟨-, equal, -⟩ := layout_matters_unless_free constructed_lineBreak
  refine ⟨equal.mpr (.inl ⟨_, rfl, by decide⟩), ?_⟩
  have apart {expr : Expr} (constructed : Obtainable .constructors expr) (call : Call)
      (shape : expr.asCall? = some call) :
      Obtainable .constructors expr ∧
        (prepare .compact expr).same (prepare .pretty expr) = false :=
    ⟨constructed, (layout_matters_unless_free constructed).2.2.1 call shape⟩
  have none : ∀ pair ∈ ([] : List (String × Expr)), Obtainable .constructors pair.2 :=
    List.forall_mem_nil _
  have bound : Obtainable .constructors (.call "let" (.object []) [("in", lineBreak)]) :=
    .letIn none none rfl constructed_lineBreak rfl
  have unset : ∀ setting ∈ ([] : List (Setting Expr)),
      ∀ value ∈ setting.value?, Obtainable .constructors value := List.forall_mem_nil _
  have page : Obtainable .constructors (Pagination.ofResource lineBreak).toExpr :=
    .paginate constructed_lineBreak unset
  simp only [List.forall_mem_cons]
  exact ⟨apart (.ofPairs none) _ rfl, apart bound _ rfl, apart page _ rfl, List.forall_mem_nil _⟩

end Request

end QueryWire
