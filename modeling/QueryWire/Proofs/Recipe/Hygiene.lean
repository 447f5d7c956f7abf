import QueryWire.Proofs.Recipe.Scoped

namespace QueryWire

/-! # Hygiene of the shorthands

The variables of shorthands are hygienic as long as no text that a recipe supplies
itself is one of the symbols that it draws.  Such a symbol is then bound by the
lambda it was drawn for and by nothing else, every reference that was made from
the variable stands in the body of that lambda, and nothing on the way down to it
binds the symbol again.
-/

namespace Expr

/-- The names that a node binds: a lambda its parameters, a `let` its keys. -/
def binds : Expr → List String
  | .call name argument _ => if name = "lambda" ∨ name = "let" then argument.names else []
  | _ => []

def BindsAt (expr : Expr) (place : List Nat) (name : String) : Prop :=
  ∃ node, expr.at? place = some node ∧ name ∈ node.binds

end Expr

/-- No two of at most `2 ^ 64` draws have the same symbol, wherever they start. -/
theorem Mark.Drawn.symbol_injective {start : UInt64} {stems : List String}
    (few : stems.length ≤ 2 ^ 64) {mark other : Mark} (drawn : mark.Drawn stems)
    (drawnOther : other.Drawn stems) (same : mark.symbol start = other.symbol start) :
    mark = other := by
  have places : mark.earlier = other.earlier :=
    SymbolSupply.add_ofNat_succ_inj (drawn.earlier_lt.trans_le few)
      (drawnOther.earlier_lt.trans_le few) (SymbolSupply.symbol_injective same).2
  have stem := (SymbolSupply.symbol_injective same).1
  cases mark
  cases other
  cases places
  cases stem
  rfl

namespace Expr

variable {ν : Type}

theorem at?_append (expr : Expr ν) (above below : List Nat) :
    expr.at? (above ++ below) = (expr.at? above).bind (·.at? below) := by
  induction above generalizing expr with
  | nil => rfl
  | cons index above ih =>
      simp only [List.cons_append, at?]
      cases expr.children[index]? with
      | none => rfl
      | some child => exact ih child

theorem at?_cons_eq_some {expr node : Expr ν} {index : Nat} {place : List Nat}
    (found : expr.at? (index :: place) = some node) :
    ∃ child, expr.children[index]? = some child ∧ child.at? place = some node :=
  Option.bind_eq_some_iff.mp found

theorem eq_of_at?_literal {leaf : ν} {place : List Nat} {node : Expr ν}
    (found : (literal leaf).at? place = some node) : node = .literal leaf := by
  cases place with
  | nil => exact (Option.some.inj found).symm
  | cons index place => simp [at?, children] at found

end Expr

namespace Scoped

variable {known stems : List String} {marks : List Mark} {template node : Template}
  {start : UInt64}

/-- What stands directly under a scoped template: a mark, a scoped template, or the
body of a lambda, which is scoped with one lambda more around it. -/
theorem under (held : Scoped known stems marks template) {index : Nat} {child : Template}
    (found : template.children[index]? = some child) :
    (∃ mark, child = Template.hole mark) ∨ Scoped known stems marks child ∨
      ∃ mark, index = 1 ∧ template = Template.lambda mark child ∧
        Scoped known stems (mark :: marks) child := by
  cases held with
  | literal value => simp [Expr.children] at found
  | @handle _ mark drawn bound =>
      have inside := List.mem_of_getElem? found
      rw [Template.children_handle, List.mem_singleton] at inside
      exact .inl ⟨mark, inside⟩
  | @lambda _ mark body drawn fresh inside =>
      rcases index with _ | _ | index
      · exact .inl ⟨mark, (Option.some.inj found).symm⟩
      · cases found
        exact .inr (.inr ⟨mark, rfl, rfl, inside⟩)
      · simp at found
  | call own first each =>
      rcases List.mem_cons.mp (List.mem_of_getElem? found) with rfl | inside
      · exact .inr (.inl first)
      · obtain ⟨field, member, rfl⟩ := List.mem_map.mp inside
        exact .inr (.inl (each field member))
  | array each => exact .inr (.inl (each child (List.mem_of_getElem? found)))
  | object each =>
      obtain ⟨member, inside, rfl⟩ := List.mem_map.mp (List.mem_of_getElem? found)
      exact .inr (.inl (each member inside))

theorem inside (held : Scoped known stems marks template) {place : List Nat}
    (found : template.at? place = some node) :
    (∃ mark, node = Template.hole mark) ∨
      ∃ wider, marks ⊆ wider ∧ Scoped known stems wider node := by
  induction place generalizing template marks with
  | nil => exact .inr ⟨marks, List.Subset.refl marks, Option.some.inj found ▸ held⟩
  | cons index place ih =>
      obtain ⟨child, first, found⟩ := Expr.at?_cons_eq_some found
      rcases held.under first with ⟨mark, rfl⟩ | held | ⟨mark, _, _, held⟩
      · exact .inl ⟨mark, Expr.eq_of_at?_literal found⟩
      · exact ih held found
      · refine (ih held found).imp_right fun ⟨wider, kept, held⟩ => ⟨wider, ?_, held⟩
        exact List.Subset.trans (List.subset_cons_self mark marks) kept

/-- A name that a scoped template binds, and that the recipe does not supply, is the
symbol of a lambda's draw, and no lambda around it is of the same draw. -/
theorem lambda_of_binds (held : Scoped known stems marks template) {name : String}
    (foreign : name ∉ known) (bound : name ∈ (template.fill start).binds) :
    ∃ mark body, template = Template.lambda mark body ∧ name = mark.symbol start ∧
      mark.Drawn stems ∧ (∀ outer ∈ marks, outer.earlier ≠ mark.earlier) ∧
        Scoped known stems (mark :: marks) body := by
  cases held with
  | literal value => simp [Expr.binds] at bound
  | handle drawn bound' => simp [Expr.binds] at bound
  | @lambda _ mark body drawn fresh inside =>
      have same : name = mark.symbol start := by
        simpa [Expr.binds, Expr.names, Value.asString?] using bound
      exact ⟨mark, body, rfl, same, drawn, fresh, inside⟩
  | call own first each =>
      simp only [Template.fill_call, Expr.binds] at bound
      split at bound
      · rename_i binder
        refine absurd (own ?_ start name bound) foreign
        rcases binder with rfl | rfl <;> decide
      · cases bound
  | array each => simp [Expr.binds] at bound
  | object each => simp [Expr.binds] at bound

theorem lambda_of_bindsAt (held : Scoped known stems marks template) {place : List Nat}
    {name : String} (foreign : name ∉ known)
    (bound : (template.fill start).BindsAt place name) :
    ∃ wider mark body, marks ⊆ wider ∧ template.at? place = some (Template.lambda mark body) ∧
      name = mark.symbol start ∧ mark.Drawn stems ∧
        (∀ outer ∈ wider, outer.earlier ≠ mark.earlier) ∧
        Scoped known stems (mark :: wider) body := by
  obtain ⟨filled, present, binds⟩ := bound
  rw [Template.at?_fill] at present
  obtain ⟨node, found, rfl⟩ := Option.map_eq_some_iff.mp present
  rcases held.inside found with ⟨mark, rfl⟩ | ⟨wider, kept, held⟩
  · simp [Expr.binds] at binds
  · obtain ⟨mark, body, rfl, rest⟩ := held.lambda_of_binds foreign binds
    exact ⟨wider, mark, body, kept, found, rest⟩

theorem unshadowed (held : Scoped known stems marks template) (few : stems.length ≤ 2 ^ 64)
    {above below : List Nat} {name : String} (foreign : name ∉ known)
    (outer : (template.fill start).BindsAt above name)
    (inner : (template.fill start).BindsAt (above ++ below) name) : below = [] := by
  obtain ⟨wider, mark, body, _, foundOuter, sameOuter, drawn, _, heldBody⟩ :=
    held.lambda_of_bindsAt foreign outer
  obtain ⟨filled, present, bindsInner⟩ := inner
  rw [Template.at?_fill, Expr.at?_append, foundOuter, Option.bind_some] at present
  obtain ⟨node, foundInner, rfl⟩ := Option.map_eq_some_iff.mp present
  match below with
  | [] => rfl
  | 0 :: below =>
      -- The parameter of a lambda binds nothing.
      have parameter : node = Template.hole mark := Expr.eq_of_at?_literal foundInner
      simp [parameter, Expr.binds] at bindsInner
  | 1 :: below =>
      have bindsBody : (body.fill start).BindsAt below name :=
        ⟨node.fill start, by rw [Template.at?_fill]; exact congrArg _ foundInner, bindsInner⟩
      obtain ⟨deeper, other, _, kept, _, sameInner, drawnInner, fresh, _⟩ :=
        heldBody.lambda_of_bindsAt foreign bindsBody
      have same : mark = other :=
        drawn.symbol_injective few drawnInner (sameOuter.symm.trans sameInner)
      exact absurd (congrArg Mark.earlier same) (fresh mark (kept List.mem_cons_self))
  | (index + 2) :: below => simp [Expr.at?] at foundInner

theorem not_hole {mark : Mark} : ¬ Scoped known stems marks (Template.hole mark) := by
  intro held
  generalize same : Template.hole mark = template at held
  cases held <;> cases same

/-- A reference is to a lambda that is already open, or stands in the body of the
lambda of its mark. -/
theorem enclosed (held : Scoped known stems marks template) {place : List Nat} {mark : Mark}
    (found : template.at? place = some (Template.handle mark)) :
    mark ∈ marks ∨ ∃ above below body, place = above ++ 1 :: below ∧
      template.at? above = some (Template.lambda mark body) := by
  induction place generalizing template marks with
  | nil =>
      cases Option.some.inj found
      generalize same : Template.handle mark = template at held
      cases held with
      | handle drawn bound =>
          cases same
          exact .inl bound
      | lambda =>
          simp [Template.handle, Template.lambda, Expr.variableOf, Binary.apply] at same
      | call own first each =>
          cases same
          exact absurd first not_hole
      | literal | array | object => cases same
  | cons index place ih =>
      obtain ⟨child, first, rest⟩ := Expr.at?_cons_eq_some found
      have deeper {above below : List Nat} {body : Template}
          (split : place = above ++ 1 :: below)
          (binder : child.at? above = some (Template.lambda mark body)) :
          ∃ above below body, index :: place = above ++ 1 :: below ∧
            template.at? above = some (Template.lambda mark body) :=
        ⟨index :: above, below, body, by rw [split, List.cons_append], by
          rw [Expr.at?, first, Option.bind_some, binder]⟩
      rcases held.under first with ⟨other, rfl⟩ | same | ⟨other, rfl, rfl, deep⟩
      · cases Expr.eq_of_at?_literal rest
      · rcases ih same rest with bound | ⟨above, below, body, split, binder⟩
        · exact .inl bound
        · exact .inr (deeper split binder)
      · rcases ih deep rest with bound | ⟨above, below, body, split, binder⟩
        · rcases List.mem_cons.mp bound with rfl | bound
          · exact .inr ⟨[], place, child, rfl, rfl⟩
          · exact .inl bound
        · exact .inr (deeper split binder)

/-- Every mark in a scoped template is of a draw. -/
theorem drawn_of_hole (held : Scoped known stems marks template) {place : List Nat} {mark : Mark}
    (found : template.at? place = some (Template.hole mark)) : mark.Drawn stems := by
  induction place generalizing template marks with
  | nil => exact absurd (Option.some.inj found ▸ held) not_hole
  | cons index place ih =>
      obtain ⟨child, first, rest⟩ := Expr.at?_cons_eq_some found
      cases held with
      | literal value => simp [Expr.children] at first
      | handle drawn bound =>
          cases List.mem_singleton.mp (List.mem_of_getElem? first)
          cases Expr.eq_of_at?_literal rest
          exact drawn
      | lambda drawn fresh inside =>
          rcases List.mem_cons.mp (List.mem_of_getElem? first) with rfl | below
          · cases Expr.eq_of_at?_literal rest
            exact drawn
          · cases List.mem_singleton.mp below
            exact ih inside rest
      | call own argument each =>
          rcases List.mem_cons.mp (List.mem_of_getElem? first) with rfl | below
          · exact ih argument rest
          · obtain ⟨field, member, rfl⟩ := List.mem_map.mp below
            exact ih (each field member) rest
      | array each => exact ih (each child (List.mem_of_getElem? first)) rest
      | object each =>
          obtain ⟨member, inside, rfl⟩ := List.mem_map.mp (List.mem_of_getElem? first)
          exact ih (each member inside) rest

theorem drawn_of_lambda {mark : Mark} {body : Template}
    (held : Scoped known stems marks (Template.lambda mark body)) : mark.Drawn stems := by
  have parameter : (Template.lambda mark body).at? [0] = some (Template.hole mark) := rfl
  exact held.drawn_of_hole parameter

/-- What refers to a symbol that the recipe does not supply was made from its mark. -/
theorem handle_of_variableNamed (held : Scoped known stems marks template)
    (few : stems.length ≤ 2 ^ 64) {place : List Nat} {mark : Mark} (drawn : mark.Drawn stems)
    (foreign : mark.symbol start ∉ known)
    (refers : (template.fill start).at? place = some (.variableNamed (mark.symbol start))) :
    template.at? place = some (Template.handle mark) := by
  rw [Template.at?_fill] at refers
  obtain ⟨node, found, same⟩ := Option.map_eq_some_iff.mp refers
  rcases held.inside found with ⟨hole, rfl⟩ | ⟨wider, _, inner⟩
  · cases same
  · rw [found]
    cases inner with
    | literal value => simp [Expr.variableNamed, Expr.variableOf] at same
    | @handle _ other drawnOther bound =>
        have symbols : other.symbol start = mark.symbol start := by
          simpa [Expr.variableNamed, Expr.variableOf] using same
        rw [drawnOther.symbol_injective few drawn symbols]
    | lambda => simp [Expr.variableNamed, Expr.variableOf] at same
    | @call _ name argument others own first each =>
        simp only [Template.fill_call, Expr.variableNamed, Expr.variableOf,
          Expr.call.injEq] at same
        obtain ⟨rfl, text, _⟩ := same
        refine absurd (own (by decide) start (mark.symbol start) ?_) foreign
        simp [text, Expr.names, Value.asString?]
    | array each => simp [Expr.variableNamed, Expr.variableOf] at same
    | object each => simp [Expr.variableNamed, Expr.variableOf] at same

end Scoped

/-- The variables of a template's lambdas are hygienic with the symbols behind `start`. -/
structure Template.Hygienic (start : UInt64) (draws : List Mark) (template : Template) : Prop where
  /-- On no way from the root down is the symbol of a draw bound twice. -/
  unshadowed : ∀ mark ∈ draws, ∀ above below,
    (template.fill start).BindsAt above (mark.symbol start) →
      (template.fill start).BindsAt (above ++ below) (mark.symbol start) → below = []
  /-- A reference stands in the body, which is the field behind the first, of the lambda
  of its own draw, and no node from that body down to it binds the symbol. -/
  enclosed : ∀ mark place, template.at? place = some (Template.handle mark) →
    mark ∈ draws ∧ ∃ above below body, place = above ++ 1 :: below ∧
      template.at? above = some (Template.lambda mark body) ∧
        ∀ between rest, below = between ++ rest →
          ¬ (template.fill start).BindsAt (above ++ 1 :: between) (mark.symbol start)
  /-- Nothing else refers to the symbol of a draw. -/
  genuine : ∀ mark ∈ draws, ∀ place,
    (template.fill start).at? place = some (.variableNamed (mark.symbol start)) →
      template.at? place = some (Template.handle mark)
  /-- Only the lambda of a draw binds its symbol. -/
  generated : ∀ mark ∈ draws, ∀ place,
    (template.fill start).BindsAt place (mark.symbol start) →
      ∃ body, template.at? place = some (Template.lambda mark body)

namespace Recipe

def draws (recipe : Recipe) : List Mark :=
  recipe.sketched.2.mapIdx fun earlier stem => ⟨stem, earlier⟩

theorem mem_draws {recipe : Recipe} {mark : Mark} :
    mark ∈ recipe.draws ↔ mark.Drawn recipe.sketched.2 := by
  rw [draws, List.mem_mapIdx, Mark.Drawn, List.getElem?_eq_some_iff]
  constructor
  · rintro ⟨earlier, bound, rfl⟩
    exact ⟨bound, rfl⟩
  · rintro ⟨bound, same⟩
    exact ⟨mark.earlier, bound, by rw [same]⟩

/-- What a recipe builds is the filling of a template whose variables are hygienic,
unless the recipe supplies a text that is one of the symbols it draws. -/
theorem shorthands_hygienic {recipe : Recipe} {start : UInt64} {expr : Expr}
    {after : SymbolSupply} (few : recipe.draws.length ≤ 2 ^ 64)
    (foreign : ∀ mark ∈ recipe.draws, mark.symbol start ∉ recipe.strings)
    (built : recipe.run (.startingAt start) = (.ok expr, after)) :
    ∃ template, recipe.sketched.1 = .ok template ∧ template.fill start = expr ∧
      after.issued = start + UInt64.ofNat recipe.draws.length ∧
        template.Hygienic start recipe.draws := by
  rw [run_startingAt] at built
  obtain ⟨outcome, supply⟩ := Prod.mk.inj built
  obtain ⟨template, sketched, filled⟩ := map_eq_ok outcome
  have held := scoped_sketched sketched
  have drawnUnder {above : List Nat} {mark : Mark} {body : Template}
      (binder : template.at? above = some (Template.lambda mark body)) : mark ∈ recipe.draws := by
    rcases held.inside binder with ⟨other, same⟩ | ⟨wider, _, inner⟩
    · cases same
    · exact mem_draws.mpr inner.drawn_of_lambda
  have few : recipe.sketched.2.length ≤ 2 ^ 64 := by simpa [draws] using few
  refine ⟨template, sketched, filled, by rw [← supply, draws, List.length_mapIdx]; rfl,
    ?_, ?_, ?_, ?_⟩
  · exact fun mark drawn above below => held.unshadowed few (foreign mark drawn)
  · intro mark place found
    obtain none | ⟨above, below, body, split, binder⟩ := held.enclosed found
    · cases none
    have drawn := drawnUnder binder
    refine ⟨drawn, above, below, body, split, binder, fun between rest _ bound => ?_⟩
    have binds : (template.fill start).BindsAt above (mark.symbol start) :=
      ⟨(Template.lambda mark body).fill start, by rw [Template.at?_fill, binder]; rfl, by
        simp [Expr.binds, Expr.names, Value.asString?]⟩
    cases held.unshadowed few (foreign mark drawn) binds bound
  · exact fun mark drawn place =>
      held.handle_of_variableNamed few (mem_draws.mp drawn) (foreign mark drawn)
  · intro mark drawn place bound
    obtain ⟨_, other, body, _, found, same, drawnOther, _⟩ :=
      held.lambda_of_bindsAt (foreign mark drawn) bound
    exact ⟨body, (mem_draws.mp drawn).symbol_injective few drawnOther same ▸ found⟩

/-- An accumulator under two lambdas whose stem looks like the symbol inside it. -/
def accumulator : Recipe :=
  .repeated 2 "made"
    (.shorthand (.iterate .map) (.variableNamed "rows") "row" (.parameter "row"))
    (.lambda "map_1" "next" (.variadic .add [.parameter "made", .parameter "next"]))

theorem shorthands_hygienic_accumulator :
    accumulator.draws.length ≤ 2 ^ 64 ∧
      (∀ mark ∈ accumulator.draws, mark.symbol 0 ∉ accumulator.strings) ∧
      ∃ expr after, accumulator.run (.startingAt 0) = (.ok expr, after) ∧
        ∃ template, accumulator.sketched.1 = .ok template ∧ template.fill 0 = expr ∧
          after.issued = 0 + UInt64.ofNat accumulator.draws.length ∧
            template.Hygienic 0 accumulator.draws :=
  have few : accumulator.draws.length ≤ 2 ^ 64 := by decide
  have foreign : ∀ mark ∈ accumulator.draws, mark.symbol 0 ∉ accumulator.strings := by decide
  ⟨few, foreign, _, _, rfl, shorthands_hygienic few foreign rfl⟩

end Recipe

end QueryWire
