import QueryWire.Proofs.Recipe.Occurrences

namespace QueryWire

variable {ν μ : Type}

/-- A relation that holds of what any function makes from related arguments, where calls of
free names may be made too and `known` strings be supplied. -/
structure Congruent [Leaf ν] [Leaf μ] (free : String → Prop) (known : List String)
    (related : Expr ν → Expr μ → Prop) : Prop extends Compositional known related where
  variableNamed {name : String} (supplied : name ∈ known) :
    related (.variableNamed name) (.variableNamed name)
  nullary (function : Nullary) : related function.apply function.apply
  unary (function : Unary) {argument : Expr ν} {argument' : Expr μ}
    (first : related argument argument') :
    related (function.apply argument) (function.apply argument')
  binary (function : Binary) {argument second : Expr ν} {argument' second' : Expr μ}
    (first : related argument argument') (next : related second second') :
    related (function.apply argument second) (function.apply argument' second')
  ternary (function : Ternary) {argument second third : Expr ν}
    {argument' second' third' : Expr μ} (first : related argument argument')
    (next : related second second') (last : related third third') :
    related (function.apply argument second third) (function.apply argument' second' third')
  quaternary (function : Quaternary) {argument second third fourth : Expr ν}
    {argument' second' third' fourth' : Expr μ} (first : related argument argument')
    (next : related second second') (later : related third third')
    (last : related fourth fourth') :
    related (function.apply argument second third fourth)
      (function.apply argument' second' third' fourth')
  variadic (function : Variadic) {arguments : List (Expr ν × Expr μ)}
    (each : ∀ argument ∈ arguments, related argument.1 argument.2) :
    related (function.apply (arguments.map Prod.fst)) (function.apply (arguments.map Prod.snd))
  sequence {steps : List (Expr ν × Expr μ)} (each : ∀ step ∈ steps, related step.1 step.2) :
    related (.sequence (steps.map Prod.fst)) (.sequence (steps.map Prod.snd))
  invoke {function : Expr ν} {function' : Expr μ} {arguments : List (Expr ν × Expr μ)}
    (first : related function function')
    (each : ∀ argument ∈ arguments, related argument.1 argument.2) :
    related (.invoke function (arguments.map Prod.fst))
      (.invoke function' (arguments.map Prod.snd))
  iterate (function : Iteration) {collection lambda : Expr ν} {collection' lambda' : Expr μ}
    (source : related collection collection') (body : related lambda lambda') :
    related (function.apply collection lambda) (function.apply collection' lambda')
  call {name : String} (allowed : free name) {argument : Expr ν} {argument' : Expr μ}
    {others : List (String × Expr ν × Expr μ)} (first : related argument argument')
    (each : ∀ field ∈ others, related field.2.1 field.2.2) :
    related (.call name argument (Members.mapValues Prod.fst others))
      (.call name argument' (Members.mapValues Prod.snd others))
  letIn {pairs : List (String × Expr ν × Expr μ)} {body : Expr ν} {body' : Expr μ}
    (supplied : ∀ pair ∈ pairs, pair.1 ∈ known)
    (each : ∀ pair ∈ pairs, related pair.2.1 pair.2.2) (visible : related body body') :
    AgreeOn related ((Binding.ofPairs (Members.mapValues Prod.fst pairs)).toExpr body)
      ((Binding.ofPairs (Members.mapValues Prod.snd pairs)).toExpr body')
  paginate {resource : Expr ν × Expr μ} {settings : List (Setting (Expr ν × Expr μ))}
    (source : related resource.1 resource.2)
    (each : ∀ setting ∈ settings, ∀ value ∈ setting.value?, related value.1 value.2) :
    related
      ((settings.map (Setting.map Prod.fst)).foldl Pagination.set (.ofResource resource.1)).toExpr
      ((settings.map (Setting.map Prod.snd)).foldl Pagination.set (.ofResource resource.2)).toExpr

namespace Congruent

variable [Leaf ν] [Leaf μ] {free : String → Prop} {known : List String}
  {related : Expr ν → Expr μ → Prop}

/-- Where calls may have any name, every function is a call. -/
theorem ofCall (kept : Compositional known related)
    (call : ∀ (name : String) {argument : Expr ν} {argument' : Expr μ}
      (others : List (String × Expr ν × Expr μ)), related argument argument' →
        (∀ field ∈ others, related field.2.1 field.2.2) →
          related (.call name argument (Members.mapValues Prod.fst others))
            (.call name argument' (Members.mapValues Prod.snd others)))
    (letIn : ∀ {members : List (String × Expr ν × Expr μ)} {body : Expr ν} {body' : Expr μ},
      (∀ member ∈ members, member.1 ∈ known) →
        (∀ member ∈ members, related member.2.1 member.2.2) → related body body' →
          related (.call "let" (.object (Members.mapValues Prod.fst members)) [("in", body)])
            (.call "let" (.object (Members.mapValues Prod.snd members)) [("in", body')])) :
    Congruent free known related where
  toCompositional := kept
  variableNamed supplied :=
    call "var" [] (kept.value (Value.supplied_string supplied)) (List.forall_mem_nil _)
  nullary function :=
    call function.name [] (kept.value ⟨⟨.null, rfl⟩, nofun⟩) (List.forall_mem_nil _)
  unary function _ _ first := call function.name [] first (List.forall_mem_nil _)
  binary function {_ second _ second'} first next :=
    call function.fields.1 [(function.fields.2, second, second')] first
      (List.forall_mem_singleton.mpr next)
  ternary function {_ second third _ second' third'} first next last :=
    call function.fields.1
      [(function.fields.2.1, second, second'), (function.fields.2.2, third, third')] first
      (List.forall_mem_cons.mpr ⟨next, List.forall_mem_singleton.mpr last⟩)
  quaternary function {_ second third fourth _ second' third' fourth'} first next later last :=
    call function.fields.1
      [(function.fields.2.1, second, second'), (function.fields.2.2.1, third, third'),
        (function.fields.2.2.2, fourth, fourth')] first
      (List.forall_mem_cons.mpr ⟨next,
        List.forall_mem_cons.mpr ⟨later, List.forall_mem_singleton.mpr last⟩⟩)
  variadic function _ each := call function.name [] (kept.oneOrMany each) (List.forall_mem_nil _)
  sequence each := call "do" [] (kept.array each) (List.forall_mem_nil _)
  invoke first each :=
    call "call" [("arguments", _, _)] first (List.forall_mem_singleton.mpr (kept.oneOrMany each))
  iterate function {collection _ collection' _} source body :=
    call function.name [("collection", collection, collection')] body
      (List.forall_mem_singleton.mpr source)
  call _ _ _ _ first each := call _ _ first each
  letIn {pairs _ _} supplied each visible := by
    have kept := letIn (fun member inside => supplied member (Members.mem_of_mem_ofPairs inside))
      (fun member inside => each member (Members.mem_of_mem_ofPairs inside)) visible
    rw [← Members.ofPairs_mapValues, ← Members.ofPairs_mapValues] at kept
    exact .ok kept
  paginate {resource settings} source each := by
    have holds : (settings.foldl Pagination.set (.ofResource resource)).Holds
        fun both => related both.1 both.2 := by
      refine Pagination.holds_settings ?_ each
      exact source
    have flags : related (.boolean true) (.boolean true) := kept.value ⟨⟨.boolean true, rfl⟩, nofun⟩
    rw [← Pagination.map_settings, ← Pagination.map_settings, Pagination.toExpr_eq,
      Pagination.toExpr_eq]
    generalize settings.foldl Pagination.set (.ofResource resource) = page at holds
    have entries : ∀ field ∈ page.entries ((.boolean true, .boolean true) : Expr ν × Expr μ),
        related field.2.1 field.2.2 := holds.entries flags
    have kept := call "paginate" _ holds.resource entries
    rwa [← Pagination.entries_map, ← Pagination.entries_map] at kept

theorem ofSegments (kept : Congruent free known related) (path : Path)
    (supplied : path.texts ⊆ known) : related path.toExpr path.toExpr := by
  have each : ∀ item ∈ path.segments.map fun segment =>
      ((segment.toExpr, segment.toExpr) : Expr ν × Expr μ), related item.1 item.2 := by
    refine List.forall_mem_map.mpr fun segment inside => ?_
    cases segment with
    | field name =>
        have member : name ∈ path.texts := List.mem_filterMap.mpr ⟨.field name, inside, rfl⟩
        exact kept.value (Value.supplied_string (supplied member))
    | index n => exact kept.value ⟨⟨.long n, rfl⟩, nofun⟩
  have kept := kept.array each
  rwa [List.map_map, List.map_map] at kept

theorem shorthand (kept : Congruent free known related) (function : Shorthand)
    {source lambda : Expr ν} {source' lambda' : Expr μ} (first : related source source')
    (body : related lambda lambda') :
    related (function.apply source lambda) (function.apply source' lambda') := by
  cases function with
  | iterate function => exact kept.iterate function first body
  | join => exact kept.binary .join first body

end Congruent

end QueryWire
