import QueryWire.Proofs.Recipe.Template

namespace QueryWire

/-! # Scoped templates

A template is scoped if each of its references stands under the lambda of its mark
and no lambda of a draw stands under another one of the same draw.  Building
keeps this: a template that was made earlier has only earlier draws, so it may be
put under the lambda of a new draw, whatever its place.

The texts that a recipe supplies itself are kept apart from the marks.  They are
the only names that come to stand where a call refers to a variable or binds one.
-/

namespace Expr

def text? (expr : Expr) : Option String :=
  expr.asLiteral?.bind Value.asString?

/-- The names that an expression holds as the first argument of a call: it is a
name itself, an array of names, or an object with names for keys. -/
def names : Expr → List String
  | .literal value => value.asString?.toList
  | .call _ _ _ => []
  | .array items => items.filterMap text?
  | .object members => Members.names members

theorem mem_names_of_text? {expr : Expr} {text : String} (found : expr.text? = some text) :
    text ∈ expr.names := by
  cases expr with
  | literal value => simpa [names, text?, asLiteral?] using found
  | call name argument others => cases found
  | array items => cases found
  | object members => cases found

end Expr

/-- A mark is drawn if its stem is the one at its place in the order of drawing. -/
def Mark.Drawn (stems : List String) (mark : Mark) : Prop :=
  stems[mark.earlier]? = some mark.stem

namespace Mark

variable {stems later : List String} {mark : Mark}

theorem Drawn.mono (drawn : mark.Drawn stems) (grown : stems <+: later) : mark.Drawn later := by
  obtain ⟨more, rfl⟩ := grown
  obtain ⟨bound, _⟩ := List.getElem?_eq_some_iff.mp drawn
  rw [Drawn, List.getElem?_append_left bound]
  exact drawn

theorem Drawn.earlier_lt (drawn : mark.Drawn stems) : mark.earlier < stems.length :=
  (List.getElem?_eq_some_iff.mp drawn).1

end Mark

/-- The template may stand inside the lambdas of `marks`. -/
inductive Scoped (known stems : List String) : List Mark → Template → Prop where
  | literal {marks : List Mark} (value : Value) :
      Scoped known stems marks (.literal (.value value))
  | handle {marks : List Mark} {mark : Mark} (drawn : mark.Drawn stems) (bound : mark ∈ marks) :
      Scoped known stems marks (.handle mark)
  | lambda {marks : List Mark} {mark : Mark} {body : Template} (drawn : mark.Drawn stems)
      (fresh : ∀ outer ∈ marks, outer.earlier ≠ mark.earlier)
      (inside : Scoped known stems (mark :: marks) body) :
      Scoped known stems marks (.lambda mark body)
  | call {marks : List Mark} {name : String} {argument : Template}
      {others : List (String × Template)}
      (own : name ≠ "object" → ∀ start, ∀ text ∈ (argument.fill start).names, text ∈ known)
      (first : Scoped known stems marks argument)
      (each : ∀ field ∈ others, Scoped known stems marks field.2) :
      Scoped known stems marks (.call name argument others)
  | array {marks : List Mark} {items : List Template}
      (each : ∀ item ∈ items, Scoped known stems marks item) :
      Scoped known stems marks (.array items)
  | object {marks : List Mark} {members : List (String × Template)}
      (each : ∀ member ∈ members, Scoped known stems marks member.2) :
      Scoped known stems marks (.object members)

namespace Scoped

variable {known stems later : List String} {marks : List Mark} {template : Template}

theorem mono (held : Scoped known stems marks template) (grown : stems <+: later) :
    Scoped known later marks template := by
  induction held with
  | literal value => exact .literal value
  | handle drawn bound => exact .handle (drawn.mono grown) bound
  | lambda drawn fresh _ inside => exact .lambda (drawn.mono grown) fresh inside
  | call own _ _ first each => exact .call own first each
  | array _ each => exact .array each
  | object _ each => exact .object each

/-- A template may be put under lambdas of draws that came after it. -/
theorem weaken (held : Scoped known stems marks template) {wider : List Mark}
    (kept : marks ⊆ wider)
    (fresh : ∀ mark ∈ wider, mark ∈ marks ∨ stems.length ≤ mark.earlier) :
    Scoped known stems wider template := by
  induction held generalizing wider with
  | literal value => exact .literal value
  | handle drawn bound => exact .handle drawn (kept bound)
  | @lambda marks mark body drawn apart _ ih =>
      refine .lambda drawn (fun outer member => ?_) (ih ?_ ?_)
      · rcases fresh outer member with old | new
        · exact apart outer old
        · have := drawn.earlier_lt
          omega
      · exact List.cons_subset_cons mark kept
      · intro outer member
        rcases List.mem_cons.mp member with rfl | member
        · exact .inl List.mem_cons_self
        · exact (fresh outer member).imp_left (List.mem_cons_of_mem mark)
  | call own _ _ first each =>
      exact .call own (first kept fresh) fun field member => each field member kept fresh
  | array _ each => exact .array fun item member => each item member kept fresh
  | object _ each => exact .object fun entry member => each entry member kept fresh

end Scoped

/-- What building keeps of a template: it is scoped, and as an argument it holds
no names but those that the recipe supplies. -/
structure Settled (known stems : List String) (marks : List Mark) (template : Template) :
    Prop where
  held : Scoped known stems marks template
  own : ∀ start, ∀ text ∈ (template.fill start).names, text ∈ known

namespace Settled

open Template

variable {known stems later : List String} {marks : List Mark} {template argument : Template}
  {name : String} {items : List Template} {fields members : List (String × Template)}

theorem mono (settled : Settled known stems marks template) (grown : stems <+: later) :
    Settled known later marks template :=
  ⟨settled.held.mono grown, settled.own⟩

theorem literal {value : Value} (own : ∀ text ∈ value.asString?, text ∈ known) :
    Settled known stems marks (.literal (.value value)) :=
  ⟨.literal value, fun start text member => own text (by
    simpa [fill, Slot.fill, Expr.names] using member)⟩

theorem call (first : Settled known stems marks argument)
    (each : ∀ field ∈ fields, Settled known stems marks field.2) :
    Settled known stems marks (.call name argument fields) :=
  ⟨.call (fun _ => first.own) first.held fun field member => (each field member).held,
    fun start text member => by simp [fill, Expr.names] at member⟩

theorem array (each : ∀ item ∈ items, Settled known stems marks item) :
    Settled known stems marks (.array items) := by
  refine ⟨.array fun item member => (each item member).held, fun start text member => ?_⟩
  simp only [fill, Expr.map_array, Expr.names, List.mem_filterMap, List.mem_map] at member
  obtain ⟨_, ⟨item, inside, rfl⟩, found⟩ := member
  exact (each item inside).own start text (Expr.mem_names_of_text? found)

/-- The keys of an object under its reserved call may be any texts. -/
theorem ofPairs (each : ∀ member ∈ members, Settled known stems marks member.2) :
    Settled known stems marks (.ofPairs members) :=
  ⟨.call (fun other => absurd rfl other)
    (.object fun member inside => (each member (Members.mem_of_mem_ofPairs inside)).held)
    (List.forall_mem_nil _), fun start text member => by
      simp [fill, Expr.ofPairs, Expr.names] at member⟩

theorem letIn (own : ∀ member ∈ members, member.1 ∈ known)
    (each : ∀ member ∈ members, Settled known stems marks member.2)
    (body : Settled known stems marks template) :
    Settled known stems marks (.call "let" (.object members) [("in", template)]) := by
  refine ⟨.call (fun _ start text member => ?_)
    (.object fun member inside => (each member inside).held)
    (List.forall_mem_singleton.mpr body.held), fun start text member => ?_⟩
  · simp only [fill, Expr.map_object, Expr.names, Members.names_mapValues] at member
    obtain ⟨entry, inside, rfl⟩ := List.mem_map.mp member
    exact own entry inside
  · simp [fill, Expr.names] at member

theorem handle {mark : Mark} (drawn : mark.Drawn stems) (bound : mark ∈ marks) :
    Settled known stems marks (.handle mark) :=
  ⟨.handle drawn bound, fun start text member => by
    simp [Expr.names] at member⟩

theorem lambda {mark : Mark} (drawn : mark.Drawn stems)
    (fresh : ∀ outer ∈ marks, outer.earlier ≠ mark.earlier)
    (body : Settled known stems (mark :: marks) template) :
    Settled known stems marks (.lambda mark template) :=
  ⟨.lambda drawn fresh body.held, fun start text member => by
    simp [fill, Template.lambda, Binary.apply, Expr.names] at member⟩

/-- Under the lambda of a new draw everything that was there before may stand. -/
theorem enter (settled : Settled known stems marks template) (stem : String) :
    Settled known stems (⟨stem, stems.length⟩ :: marks) template := by
  refine ⟨settled.held.weaken (List.subset_cons_self _ marks) fun outer member => ?_,
    settled.own⟩
  rcases List.mem_cons.mp member with rfl | old
  · exact .inr (Nat.le_refl _)
  · exact .inl old

theorem parametric (known : List String) :
    Parametric source source (fun _ => True) known
      fun stems marks template (_ : Template) => Settled known stems marks template where
  congruent _ _ :=
    .ofCall
      { value := fun supplied => literal supplied.own
        array := fun each => array (List.forall_mem_map.mpr each)
        ofPairs := fun each => ofPairs (List.forall_mem_map.mpr each) }
      (fun _ _ _ _ first each => call first (List.forall_mem_map.mpr each))
      fun own each body => letIn (List.forall_mem_map.mpr own) (List.forall_mem_map.mpr each) body
  grow grown settled := settled.mono grown
  enter stem settled := settled.enter stem
  handle {stems _} stem := by
    rw [leaf_source]
    exact handle (by simp [Mark.Drawn]) List.mem_cons_self
  lambda {stems _ _ stem _ _} around grown inside := by
    have drawn : Mark.Drawn (stems ++ [stem]) ⟨stem, stems.length⟩ := by simp [Mark.Drawn]
    rw [leaf_source]
    exact lambda (drawn.mono grown) (fun outer member => (around outer member).ne) inside

end Settled

theorem Recipe.scoped_sketched {recipe : Recipe} {template : Template}
    (sketched : recipe.sketched.1 = .ok template) :
    Scoped recipe.strings recipe.sketched.2 [] template := by
  obtain ⟨outcome, drawn, ran, -, -, complete⟩ := parallel_closed
    (Settled.parametric recipe.strings) recipe (fun _ _ => trivial) (List.Subset.refl _)
  rw [Template.behind_source, Template.behind_source] at ran
  have ran : recipe.sketched = (outcome.map Prod.fst, drawn) := ran
  rw [ran] at sketched ⊢
  obtain ⟨both, rfl, rfl⟩ := map_eq_ok sketched
  exact (complete both rfl).2.held

end QueryWire
