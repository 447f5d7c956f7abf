import QueryWire.Proofs.Expr.Map
import QueryWire.Proofs.Recipe.Parametric
import QueryWire.Proofs.Symbol

namespace QueryWire

/-! # Templates

A template is an expression whose drawn symbols are left open: in the place of
such a symbol stands a mark that says which draw it comes from.  Filling a
template puts the symbols in, so one template stands for what a recipe builds
with any supply, and it tells a drawn symbol from a text that only looks like one.
-/

/-- The symbol of a draw when the first one gets the number behind `start`. -/
def Mark.symbol (start : UInt64) (mark : Mark) : String :=
  SymbolSupply.symbol mark.stem (start + UInt64.ofNat (mark.earlier + 1))

/-- A leaf that is a value, or left open for the symbol of a draw. -/
inductive Slot where
  | value (value : Value)
  | mark (mark : Mark)

instance : Leaf Slot := ⟨.value⟩

def Slot.fill (start : UInt64) : Slot → Value
  | .value leaf => leaf
  | .mark drawn => .string (drawn.symbol start)

abbrev Template := Expr Slot

namespace Template

def hole (mark : Mark) : Template := .literal (.mark mark)

def handle (mark : Mark) : Template := .variableOf (.mark mark)

def lambda (mark : Mark) (body : Template) : Template :=
  Binary.lambda.apply (.literal (.mark mark)) body

def fill (start : UInt64) (template : Template) : Expr :=
  template.map (Slot.fill start)

variable {start : UInt64}

@[simp] theorem fill_value (value : Value) :
    fill start (.literal (.value value)) = .literal value :=
  Expr.map_literal _

@[simp] theorem fill_hole (mark : Mark) :
    (hole mark).fill start = .literal (.string (mark.symbol start)) :=
  Expr.map_literal _

@[simp] theorem fill_call (name : String) (argument : Template)
    (others : List (String × Template)) :
    fill start (.call name argument others) =
      .call name (argument.fill start) (Members.mapValues (fill start) others) :=
  Expr.map_call ..

@[simp] theorem fill_array (items : List Template) :
    fill start (.array items) = .array (items.map (fill start)) :=
  Expr.map_array _

@[simp] theorem fill_object (members : List (String × Template)) :
    fill start (.object members) = .object (Members.mapValues (fill start) members) :=
  Expr.map_object _

@[simp] theorem fill_handle (mark : Mark) :
    (handle mark).fill start = .call "var" (.literal (.string (mark.symbol start))) [] :=
  Expr.map_variableOf _

@[simp] theorem fill_lambda (mark : Mark) (body : Template) :
    (lambda mark body).fill start =
      .call "lambda" (.literal (.string (mark.symbol start))) [("expr", body.fill start)] :=
  Expr.map_lambda ..

@[simp] theorem children_handle (mark : Mark) : (handle mark).children = [hole mark] := rfl

@[simp] theorem children_lambda (mark : Mark) (body : Template) :
    (lambda mark body).children = [hole mark, body] := rfl

theorem at?_fill (template : Template) (place : List Nat) :
    (template.fill start).at? place = (template.at? place).map (fill start) :=
  Expr.at?_map template place

/-- The source of marks, which only counts the draws. -/
def source : Source (List String) Slot where
  drawing stem stems := (.mark ⟨stem, stems.length⟩, stems ++ [stem])
  start := []

theorem behind_source (stems : List String) : source.behind stems = stems := by
  induction stems using List.reverseRecOn with
  | nil => rfl
  | append_singleton stems stem ih => rw [Source.behind_concat, ih]; rfl

theorem leaf_source (stems : List String) (stem : String) :
    source.leaf stems stem = .mark ⟨stem, stems.length⟩ := by
  rw [Source.leaf, behind_source]
  rfl

end Template

theorem SymbolSupply.behind_source (start : UInt64) (stems : List String) :
    (startingAt start).source.behind stems =
      startingAt (start + UInt64.ofNat stems.length) := by
  induction stems using List.reverseRecOn with
  | nil => exact congrArg startingAt (UInt64.add_zero start).symm
  | append_singleton stems stem ih =>
      rw [Source.behind_concat, ih, List.length_append]
      exact congrArg Prod.snd (draw_startingAt_add start stems.length stem)

theorem SymbolSupply.leaf_source (start : UInt64) (stems : List String) (stem : String) :
    (startingAt start).source.leaf stems stem =
      .string (Mark.symbol start ⟨stem, stems.length⟩) := by
  rw [Source.leaf, behind_source]
  exact congrArg (fun drawn => Value.string drawn.1) (draw_startingAt_add start stems.length stem)

section Filling

variable {σ τ ν μ : Type} [Leaf ν] [Leaf μ] {left : Source σ ν} {right : Source τ μ}
  {free : String → Prop} {known : List String} {f : ν → μ}

/-- The same expressions but for the leaves. -/
theorem Parametric.ofMap (values : ∀ value, f (Leaf.ofValue value) = Leaf.ofValue value)
    (leaves : ∀ stems stem, right.leaf stems stem = f (left.leaf stems stem)) :
    Parametric left right free known fun _ _ expr other => other = expr.map f where
  congruent _ _ := by
    have members {pairs : List (String × Expr ν × Expr μ)}
        (each : ∀ pair ∈ pairs, pair.2.2 = pair.2.1.map f) :
        Members.mapValues Prod.snd pairs =
          Members.mapValues (Expr.map f) (Members.mapValues Prod.fst pairs) := by
      simpa [Members.mapValues] using each
    refine .ofCall ⟨?_, fun each => ?_, fun each => ?_⟩ (fun name _ _ others first each => ?_)
      fun supplied each visible => ?_
    · simp [Expr.value, values]
    · simpa using each
    · rw [Expr.map_ofPairs, members each]
    · rw [Expr.map_call, ← first, members each]
    · simp [visible, members each]
  grow _ holds := holds
  enter _ holds := holds
  handle stem := by rw [Expr.map_variableOf, leaves]
  lambda _ _ inside := by rw [Expr.map_lambda, leaves, inside]

end Filling

namespace Recipe

/-- The template of a recipe that stands in no scope, and the stems of the symbols
that the recipe draws. -/
def sketched (recipe : Recipe) : Except Error Template × List String :=
  (recipe.build Template.source.drawing []).run.run []

/-- Whatever the source of its symbols, building a recipe gives its template filled with them,
and draws for the same stems. -/
theorem build_eq_fill {τ : Type} {source : Source τ Value} {start : UInt64} (recipe : Recipe)
    (leaves : ∀ stems stem, source.leaf stems stem =
      .string (Mark.symbol start ⟨stem, stems.length⟩)) :
    (recipe.build source.drawing []).run.run source.start =
        (recipe.sketched.1.map (Template.fill start), source.behind recipe.sketched.2) ∧
      recipe.sketched.2 <+: recipe.stems ∧
        ∀ template, recipe.sketched.1 = .ok template → recipe.sketched.2 = recipe.stems := by
  have filled (stems : List String) (stem : String) :
      source.leaf stems stem = (Template.source.leaf stems stem).fill start := by
    rw [leaves, Template.leaf_source]
    rfl
  obtain ⟨outcome, drawn, sketched, ran, begun, complete⟩ := parallel_closed
    (Parametric.ofMap (fun _ => rfl) filled) recipe (fun _ _ => trivial) (List.Subset.refl _)
  rw [Template.behind_source, Template.behind_source] at sketched
  have sketched : recipe.sketched = (outcome.map Prod.fst, drawn) := sketched
  rw [sketched]
  refine ⟨ran.trans ?_, begun, fun template ended => ?_⟩
  · cases outcome with
    | error reason => rfl
    | ok both => rw [Except.map, (complete both rfl).2]; rfl
  · obtain ⟨both, rfl, -⟩ := map_eq_ok ended
    exact (complete both rfl).1

/-- What a recipe builds with the symbols behind `start` is its template filled with
them, and the supply has then handed out one symbol more for every draw. -/
theorem run_startingAt (recipe : Recipe) (start : UInt64) :
    recipe.run (.startingAt start) =
      (recipe.sketched.1.map (Template.fill start),
        .startingAt (start + UInt64.ofNat recipe.sketched.2.length)) := by
  rw [← SymbolSupply.behind_source]
  exact (build_eq_fill recipe (SymbolSupply.leaf_source start)).1

end Recipe

end QueryWire
