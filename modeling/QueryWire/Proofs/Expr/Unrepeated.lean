import QueryWire.Proofs.Expr.Document

namespace QueryWire

theorem Binary.names_nodup (function : Binary) :
    [function.fields.1, function.fields.2].Nodup := by
  cases function <;> decide

theorem Ternary.names_nodup (function : Ternary) :
    [function.fields.1, function.fields.2.1, function.fields.2.2].Nodup := by
  cases function <;> decide

theorem Quaternary.names_nodup (function : Quaternary) :
    [function.fields.1, function.fields.2.1, function.fields.2.2.1,
      function.fields.2.2.2].Nodup := by
  cases function <;> decide

theorem Iteration.names_nodup (function : Iteration) :
    [function.name, "collection"].Nodup := by
  cases function <;> decide

namespace Expr

/-- No shape repeats a name but that of a free call. -/
theorem distinct_of_shaped {expr : Expr}
    (shaped : Shaped (fun _ => False) (Everywhere DistinctNames) expr) :
    expr.Everywhere DistinctNames := by
  induction shaped with
  | given held => exact held
  | literal _ => exact everywhere_iff.mpr ⟨trivial, List.forall_mem_nil _⟩
  | array _ each => exact everywhere_iff.mpr ⟨trivial, each⟩
  | call allowed => exact allowed.elim
  | wrapped distinct _ each =>
      exact .call (List.nodup_singleton _) (.object distinct each) (List.forall_mem_nil _)
  | bound distinct _ _ each visible =>
      have names : ["let", "in"].Nodup := by decide
      exact .call names (.object distinct each) (List.forall_mem_singleton.mpr visible)

theorem distinct_of_functions {expr : Expr} (obtained : Obtainable .functions expr) :
    expr.Everywhere DistinctNames := by
  have literal {value : Value} (sendable : value.Sendable) :
      (Expr.literal value).Everywhere DistinctNames := distinct_of_shaped (.literal sendable)
  have given {items : List Expr} (each : ∀ item ∈ items, item.Everywhere DistinctNames) :
      (oneOrMany items).Everywhere DistinctNames :=
    distinct_of_shaped (.oneOrMany fun item member => .given (each item member))
  induction obtained with
  | literal made => exact literal made.sendable
  | variableNamed name =>
      exact .call (List.nodup_singleton _) (literal trivial)
        (List.forall_mem_nil _)
  | array _ each => exact everywhere_iff.mpr ⟨trivial, each⟩
  | oneOrMany _ each => exact given each
  | ofPairs _ each =>
      exact distinct_of_shaped (.ofPairs fun pair member => .given (each pair member))
  | path segments => exact distinct_of_shaped (.path segments)
  | encode values _ encoded exprs =>
      exact distinct_of_shaped
        (.host values (fun leaf member => .given (exprs leaf member)) encoded)
  | nullary function =>
      exact .call (List.nodup_singleton _) (literal trivial)
        (List.forall_mem_nil _)
  | unary function _ first =>
      exact .call (List.nodup_singleton _) first (List.forall_mem_nil _)
  | binary function _ _ first next =>
      exact .call function.names_nodup first
        (List.forall_mem_singleton.mpr next)
  | ternary function _ _ _ first next last =>
      exact .call function.names_nodup first (by simpa using ⟨next, last⟩)
  | quaternary function _ _ _ _ first next later last =>
      exact .call function.names_nodup first
        (by simpa using ⟨next, later, last⟩)
  | variadic function _ each =>
      exact .call (List.nodup_singleton _) (given each) (List.forall_mem_nil _)
  | sequence _ each =>
      exact .call (List.nodup_singleton _)
        (everywhere_iff.mpr ⟨trivial, each⟩) (List.forall_mem_nil _)
  | invoke _ _ first each =>
      have names : ["call", "arguments"].Nodup := by decide
      exact .call names first (List.forall_mem_singleton.mpr (given each))
  | iterate function _ _ source lambda =>
      exact .call function.names_nodup lambda
        (List.forall_mem_singleton.mpr source)
  | call allowed => exact allowed.elim
  | letIn _ _ bound _ closed each eachLater visible =>
      exact distinct_of_shaped (.letIn (fun pair member => .given (each pair member))
        (fun pair member => .given (eachLater pair member)) bound (.given visible) closed)
  | @paginate resource settings _ _ source each =>
      have holds := Pagination.holds_settings source each
      rw [Pagination.toExpr_eq]
      refine .call ?_ holds.resource (holds.entries (literal trivial))
      have names : ["paginate", "ts", "after", "before", "size", "events", "sources"].Nodup := by
        decide
      exact ((Pagination.names_entries_sublist _ _).cons_cons "paginate").nodup names
  | read _ _ allowed => exact allowed.elim

theorem repeatsNoField_of_distinct {node : Expr} (distinct : node.DistinctNames) :
    node.RepeatsNoField := by
  intro call shape
  cases node <;> cases shape
  exact distinct

theorem document_of_distinct {expr : Expr} (distinct : expr.Everywhere DistinctNames) :
    expr.document = expr.wire :=
  (collapse_wire_eq_self_iff expr).mpr distinct

/-- Whatever is made without the general call builder, by applying functions or by a recipe
with its shorthands, repeats no field in any call.  So its document is written as the
expression itself is. -/
theorem functions_repeat_no_field (expr : Expr)
    (made : Obtainable .functions expr ∨ ∃ (recipe : Recipe) (supply after : SymbolSupply),
      recipe.callNames = [] ∧ recipe.run supply = (.ok expr, after)) :
    expr.Everywhere RepeatsNoField ∧
      ∀ layout, expr.document.write layout = expr.render layout := by
  have obtained : Obtainable .functions expr := by
    rcases made with obtained | ⟨recipe, supply, after, noCall, built⟩
    · exact obtained
    · exact Recipe.obtainable_of_named (by simp [noCall]) built
  have distinct := distinct_of_functions obtained
  refine ⟨distinct.imp fun node => repeatsNoField_of_distinct, fun layout => ?_⟩
  rw [document_of_distinct distinct, render]

/-- A setting made twice, a function of four arguments and user keys that repeat. -/
def settingAndKeyTwice : Recipe :=
  .shorthand (.iterate .map)
    (.paginate (.variableNamed "s") [.size (.literal (.long 1)), .size (.literal (.long 2))]) "x"
    (.letIn [("a", .object [("k", .literal .null), ("k", .parameter "x")])]
      (.quaternary .insert (.parameter "x") (.variableNamed "a") (.literal (.string "create"))
        (.encode (.map [("ts", .uint64 1), ("insert", .absent)]))))

theorem functions_repeat_no_field_setting_and_key_twice :
    ∃ expr after, settingAndKeyTwice.callNames = [] ∧
      settingAndKeyTwice.run {} = (.ok expr, after) ∧
      expr.Everywhere RepeatsNoField ∧ expr.document.write .compact = expr.compact := by
  obtain ⟨expr, after, built⟩ : ∃ expr after, settingAndKeyTwice.run {} = (.ok expr, after) :=
    ⟨_, _, rfl⟩
  have noCall : settingAndKeyTwice.callNames = [] := rfl
  obtain ⟨unrepeated, written⟩ :=
    functions_repeat_no_field expr (.inr ⟨settingAndKeyTwice, {}, after, noCall, built⟩)
  exact ⟨expr, after, noCall, built, unrepeated, written .compact⟩

end Expr

end QueryWire
