import QueryWire.Proofs.Recipe.Hygiene

namespace QueryWire

namespace Build

variable {σ α β : Type}

theorem run_bind_pure (first : Build σ α) (f : α → β) (before : σ) :
    (first >>= fun made => pure (f made)).run.run before =
      ((first.run.run before).1.map f, (first.run.run before).2) := by
  rw [run_bind]
  cases first.run.run before with
  | mk outcome after => cases outcome <;> rfl

variable {body : Expr → Build SymbolSupply Expr} {own : String}
  {supply next after : SymbolSupply} {outcome : Except Error Expr}

theorem run_lambda {stem : String} (drawn : supply.draw stem = (own, next))
    (inside : (body (.variableNamed own)).run.run next = (outcome, after)) :
    (lambda SymbolSupply.variables stem body).run.run supply =
      (outcome.map (Binary.lambda.apply (.text own)), after) := by
  have ran : (draw SymbolSupply.variables stem).run.run supply = (.ok (.string own), next) := by
    change (Except.ok (Value.string (supply.draw stem).1), (supply.draw stem).2) = _
    rw [drawn]
  rw [lambda, run_bind, ran]
  dsimp only
  have inside : (body (.variableOf (.string own))).run.run next = (outcome, after) := inside
  rw [run_bind_pure, inside]
  rfl

theorem run_shorthand {function : Shorthand} (source : Expr)
    (drawn : supply.draw function.stem = (own, next))
    (inside : (body (.variableNamed own)).run.run next = (outcome, after)) :
    (shorthand SymbolSupply.variables function source body).run.run supply =
      (outcome.map fun inner => function.apply source (Binary.lambda.apply (.text own) inner),
        after) := by
  rw [shorthand, run_bind_pure, run_lambda drawn inside]
  cases outcome <;> rfl

end Build

theorem SymbolSupply.behind_source_eq_drawAll (supply : SymbolSupply) (stems : List String) :
    supply.source.behind stems = (supply.drawAll stems).2 := by
  rw [drawAll_eq]
  exact behind_source supply.issued stems

/-- Nothing is said of what is built. -/
theorem Parametric.unrelated {σ τ ν μ : Type} [Leaf ν] [Leaf μ] (left : Source σ ν)
    (right : Source τ μ) (known : List String) :
    Parametric left right (fun _ => True) known fun _ _ _ _ => True where
  congruent _ _ := .ofCall ⟨fun _ => trivial, fun _ => trivial, fun _ => trivial⟩
    (fun _ _ _ _ _ _ => trivial) fun _ _ _ => trivial
  grow _ _ := trivial
  enter _ _ := trivial
  handle _ := trivial
  lambda _ _ _ := trivial

namespace Recipe

/-- Building the recipe in the scope with the symbols of the supply draws for the stems
`drawn`, which are all of the recipe's unless it fails, and ends with the outcome. -/
structure Builds (recipe : Recipe) (scope : Scope) (supply : SymbolSupply)
    (drawn : List String) (outcome : Except Error Expr) : Prop where
  run : (recipe.build SymbolSupply.variables scope).run.run supply =
    (outcome, (supply.drawAll drawn).2)
  begun : drawn <+: recipe.stems
  complete : ∀ expr, outcome = .ok expr → drawn = recipe.stems

theorem exists_builds (recipe : Recipe) (scope : Scope) (supply : SymbolSupply) :
    ∃ drawn outcome, recipe.Builds scope supply drawn outcome := by
  have same : Members.mapValues Prod.fst
      (Members.mapValues (fun expr => ((expr, expr) : Expr × Expr)) scope) = scope :=
    Members.mapValues_mapValues_cancel fun _ _ => rfl
  have held : InScope (fun _ _ _ _ => True) [] []
      (Members.mapValues (fun expr => ((expr, expr) : Expr × Expr)) scope) :=
    ⟨List.forall_mem_nil _, fun _ _ _ => trivial⟩
  obtain ⟨outcome, drawn, ran, -, begun, complete⟩ :=
    parallel_build (.unrelated supply.source supply.source recipe.strings) recipe
      ⟨fun _ _ => trivial, List.Subset.refl _⟩ held
  rw [same, List.nil_append, SymbolSupply.behind_source_eq_drawAll _ drawn] at ran
  refine ⟨drawn, outcome.map Prod.fst, ran, begun, fun expr ended => ?_⟩
  obtain ⟨both, built, -⟩ := map_eq_ok ended
  exact (complete both built).1

theorem builds_sketched (recipe : Recipe) (start : UInt64) :
    recipe.Builds [] (.startingAt start) recipe.sketched.2
      (recipe.sketched.1.map (Template.fill start)) := by
  obtain ⟨ran, begun, complete⟩ :=
    recipe.build_eq_fill (SymbolSupply.leaf_source start)
  rw [SymbolSupply.behind_source_eq_drawAll] at ran
  refine ⟨ran, begun, fun expr ended => ?_⟩
  obtain ⟨template, sketched, -⟩ := map_eq_ok ended
  exact complete template sketched

end Recipe

/-- One evaluation of a shorthand, with the stems that it draws for and its outcome.  First
come the draws of the source, then its own, then those of the body. -/
inductive Shorthand.Evaluates (function : Shorthand) (source : Recipe) (param : String)
    (body : Recipe) (scope : Scope) (supply : SymbolSupply) :
    List String → Except Error Expr → Prop where
  | stops {drawn : List String} {reason : Error}
      (failed : source.Builds scope supply drawn (.error reason)) :
      Evaluates function source param body scope supply drawn (.error reason)
  | enters {made : Expr} {own : String} {inside : List String} {outcome : Except Error Expr}
      (first : source.Builds scope supply source.stems (.ok made))
      (numbered : own =
        SymbolSupply.symbol function.stem
          (supply.issued + UInt64.ofNat (source.stems.length + 1)))
      (next : body.Builds ((param, .variableNamed own) :: scope)
        (.startingAt (supply.issued + UInt64.ofNat (source.stems.length + 1))) inside outcome) :
      Evaluates function source param body scope supply
        (source.stems ++ function.stem :: inside)
        (outcome.map fun inner => function.apply made (Binary.lambda.apply (.text own) inner))

namespace Recipe

theorem exists_builds_lambda (stem param : String) (body : Recipe) (scope : Scope)
    (supply : SymbolSupply) :
    ∃ own inside outcome, own = SymbolSupply.symbol stem (supply.issued + 1) ∧
      body.Builds ((param, .variableNamed own) :: scope) (.startingAt (supply.issued + 1))
          inside outcome ∧
        (lambda stem param body).Builds scope supply (stem :: inside)
          (outcome.map (Binary.lambda.apply (.text own))) := by
  obtain ⟨inside, outcome, next⟩ := body.exists_builds ((param, .variableNamed _) :: scope)
    (.startingAt (supply.issued + 1))
  refine ⟨_, inside, outcome, rfl, next, ?_, ?_, fun expr ended => ?_⟩
  · rw [build]
    exact Build.run_lambda rfl next.run
  · exact (List.prefix_cons_inj stem).mpr next.begun
  · obtain ⟨inner, built, -⟩ := map_eq_ok ended
    rw [next.complete inner built, stems_lambda]

theorem exists_evaluates (function : Shorthand) (source : Recipe) (param : String)
    (body : Recipe) (scope : Scope) (supply : SymbolSupply) :
    ∃ drawn outcome, function.Evaluates source param body scope supply drawn outcome ∧
      (shorthand function source param body).Builds scope supply drawn outcome := by
  obtain ⟨drawn, outcome, first⟩ := source.exists_builds scope supply
  cases outcome with
  | error reason =>
      refine ⟨drawn, .error reason, .stops first, ?_, ?_, nofun⟩
      · rw [build, Build.run_bind, first.run]
      · exact first.begun.trans (List.prefix_append _ _)
  | ok made =>
      cases first.complete made rfl
      obtain ⟨inside, outcome, next⟩ := body.exists_builds ((param, .variableNamed _) :: scope)
        (.startingAt (supply.issued + UInt64.ofNat (source.stems.length + 1)))
      refine ⟨_, _, .enters first rfl next, ?_, ?_, fun expr ended => ?_⟩
      · have own := SymbolSupply.draw_startingAt_add supply.issued source.stems.length
          function.stem
        rw [build, Build.run_bind, first.run, SymbolSupply.drawAll_append,
          SymbolSupply.drawAll_eq supply, SymbolSupply.drawAll_cons, own]
        exact Build.run_shorthand made own next.run
      · exact (List.prefix_append_right_inj _).mpr ((List.prefix_cons_inj _).mpr next.begun)
      · obtain ⟨inner, built, -⟩ := map_eq_ok ended
        rw [next.complete inner built, stems_shorthand]

/-- A recipe has one template, or one error, and one list of draws for all starts, and the
draws are made in the order of building.  Wherever a shorthand is built, the draws of its
source come before its own, and those of its body after it. -/
theorem numbering_independent_of_start (recipe : Recipe) :
    (∃ (outcome : Except Error Template) (drawn : List String),
      (∀ start, recipe.run (.startingAt start) =
        (outcome.map (Template.fill start), .startingAt (start + UInt64.ofNat drawn.length))) ∧
      (∀ start : UInt64, start.toNat + drawn.length < 2 ^ 64 →
        (start + UInt64.ofNat drawn.length).toNat = start.toNat + drawn.length ∧
          ∀ mark : Mark, mark.Drawn drawn → mark.symbol start =
            mark.stem ++ "_" ++ toString (start.toNat + (mark.earlier + 1))) ∧
      drawn <+: recipe.stems ∧
      ∀ template, outcome = .ok template → drawn = recipe.stems ∧
        ∀ place mark, template.at? place = some (Template.hole mark) → mark.Drawn drawn) ∧
    (∀ function source param body scope supply, ∃ drawn outcome,
      Shorthand.Evaluates function source param body scope supply drawn outcome ∧
        (shorthand function source param body).Builds scope supply drawn outcome) ∧
    ∀ stem param body scope supply, ∃ own inside outcome,
      own = SymbolSupply.symbol stem (supply.issued + 1) ∧
        Builds body ((param, .variableNamed own) :: scope) (.startingAt (supply.issued + 1))
          inside outcome ∧
        (lambda stem param body).Builds scope supply (stem :: inside)
          (outcome.map (Binary.lambda.apply (.text own))) := by
  refine ⟨⟨recipe.sketched.1, recipe.sketched.2, recipe.run_startingAt, fun start few => ?_,
    ?_, ?_⟩, exists_evaluates, exists_builds_lambda⟩
  · refine ⟨SymbolSupply.toNat_add_ofNat few, fun mark drawn => ?_⟩
    have within := drawn.earlier_lt
    rw [Mark.symbol, SymbolSupply.symbol, SymbolSupply.toNat_add_ofNat (by omega)]
    rfl
  · exact (recipe.builds_sketched 0).begun
  · intro template sketched
    refine ⟨?_, fun place mark => ?_⟩
    · refine (recipe.builds_sketched 0).complete (template.fill 0) ?_
      rw [sketched]
      rfl
    · exact (scoped_sketched sketched).drawn_of_hole

example :
    (shorthand .join (.shorthand (.iterate .map) (.array []) "x" (.parameter "x")) "y"
      (.lambda "pair" "z" (.parameter "y"))).stems = ["map", "join", "pair"] := by decide

end Recipe

end QueryWire
