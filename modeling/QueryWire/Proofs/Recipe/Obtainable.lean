import QueryWire.Proofs.Recipe.Parametric

namespace QueryWire.Recipe

variable {surface : Surface}

theorem obtainable_parametric (supply : SymbolSupply) (known : List String) :
    Parametric supply.source supply.source surface.free known
      fun _ _ expr (_ : Expr) => Obtainable surface expr where
  congruent _ _ :=
    { value := fun supplied => .literal supplied.made
      array := fun each => .array (List.forall_mem_map.mpr each)
      ofPairs := fun each => .ofPairs (List.forall_mem_map.mpr each)
      variableNamed := fun {name} _ => .variableNamed name
      nullary := .nullary
      unary := fun function _ _ first => .unary function first
      binary := fun function _ _ _ _ first next => .binary function first next
      ternary := fun function _ _ _ _ _ _ first next last => .ternary function first next last
      quaternary := fun function _ _ _ _ _ _ _ _ first next later last =>
        .quaternary function first next later last
      variadic := fun function _ each => .variadic function (List.forall_mem_map.mpr each)
      sequence := fun each => .sequence (List.forall_mem_map.mpr each)
      invoke := fun first each => .invoke first (List.forall_mem_map.mpr each)
      iterate := fun function _ _ _ _ source body => .iterate function source body
      call := fun allowed _ _ _ first each => .call allowed first (List.forall_mem_map.mpr each)
      letIn := fun _ each visible => .ok (.letIn (List.forall_mem_map.mpr each)
        (List.forall_mem_nil _) rfl visible rfl)
      paginate := fun source each => .paginate source (Setting.forall_value_map each) }
  grow _ holds := holds
  enter _ holds := holds
  handle _ := .variableNamed _
  lambda _ _ inside := .binary .lambda (.literal ⟨.string _, rfl⟩) inside

/-- A recipe that builds an expression has no means but the constructors, and of the general
call builder no more than the names that it says. -/
theorem obtainable_of_named {recipe : Recipe} (named : ∀ name ∈ recipe.callNames, surface.free name)
    {supply after : SymbolSupply} {expr : Expr} (built : recipe.run supply = (.ok expr, after)) :
    Obtainable surface expr := by
  obtain ⟨outcome, drawn, ran, -, -, complete⟩ := parallel_closed
    (obtainable_parametric supply recipe.strings) recipe named (List.Subset.refl _)
  have ended : outcome.map Prod.fst = .ok expr := (Prod.mk.inj (ran.symm.trans built)).1
  obtain ⟨both, rfl, rfl⟩ := map_eq_ok ended
  exact (complete both rfl).2

theorem obtainable_of_run {recipe : Recipe} {supply after : SymbolSupply} {expr : Expr}
    (built : recipe.run supply = (.ok expr, after)) : Obtainable .constructors expr :=
  obtainable_of_named (fun _ _ => trivial) built

end QueryWire.Recipe
