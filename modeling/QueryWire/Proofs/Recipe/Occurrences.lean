import QueryWire.Proofs.Host.Compositional
import QueryWire.Recipe

namespace QueryWire

def Literal.texts : Literal → List String
  | .string text => [text]
  | _ => []

def Path.texts (path : Path) : List String :=
  path.segments.filterMap fun
    | .field name => some name
    | .index _ => none

namespace Recipe

/-- What to collect of a recipe besides what its parts hold. -/
structure Collector where
  literal : Literal → List String := fun _ => []
  text : String → List String := fun _ => []
  path : Path → List String := fun _ => []
  json : Json Number → List String := fun _ => []
  call : String → List String := fun _ => []
  keys : List String → List String := fun _ => []
  draw : String → List String := fun _ => []

variable (collector : Collector)

mutual

/-- What is collected in the order of building, and of a repeated step as often as it is made. -/
def collect : Recipe → List String
  | .literal source => collector.literal source
  | .variableNamed name => collector.text name
  | .path segments => collector.path segments
  | .parameter _ | .nullary _ => []
  | .array items | .oneOrMany items | .variadic _ items | .sequence items => collectItems items
  | .object pairs => collectPairs pairs
  | .encode host => collectHost host
  | .unary _ argument => argument.collect
  | .binary _ first second => first.collect ++ second.collect
  | .ternary _ first second third => first.collect ++ (second.collect ++ third.collect)
  | .quaternary _ first second third fourth =>
      first.collect ++ (second.collect ++ (third.collect ++ fourth.collect))
  | .invoke function arguments => function.collect ++ collectItems arguments
  | .iterate _ collection body => collection.collect ++ body.collect
  | .call name argument fields =>
      collector.call name ++ (argument.collect ++ collectFields fields)
  | .letIn pairs body =>
      collector.keys (pairs.map Prod.fst) ++ (collectPairs pairs ++ body.collect)
  | .paginate resource settings => resource.collect ++ collectSettings settings
  | .lambda stem _ body => collector.draw stem ++ body.collect
  | .shorthand function source _ body =>
      source.collect ++ (collector.draw function.stem ++ body.collect)
  | .repeated count _ seed step => seed.collect ++ (List.replicate count step.collect).flatten

def collectItems : List Recipe → List String
  | [] => []
  | item :: items => item.collect ++ collectItems items

def collectPairs : List (String × Recipe) → List String
  | [] => []
  | (_, recipe) :: pairs => recipe.collect ++ collectPairs pairs

def collectFields : List (String × Option Recipe) → List String
  | [] => []
  | (_, some recipe) :: fields => recipe.collect ++ collectFields fields
  | (_, none) :: fields => collectFields fields

def collectSetting : Setting Recipe → List String
  | .ts value | .after value | .before value | .size value => value.collect
  | .events _ | .sources _ => []

def collectSettings : List (Setting Recipe) → List String
  | [] => []
  | setting :: settings => collectSetting setting ++ collectSettings settings

def collectHost : Host Literal Recipe → List String
  | .string text => collector.text text
  | .value source => collector.literal source
  | .expr recipe => recipe.collect
  | .present host => collectHost host
  | .sequence items => collectHosts items
  | .map insertions => collectInsertions insertions
  | .json tree => collector.json tree
  | .boolean _ | .int32 _ | .int64 _ | .uint32 _ | .uint64 _ | .double _ | .absent => []

def collectHosts : List (Host Literal Recipe) → List String
  | [] => []
  | host :: hosts => collectHost host ++ collectHosts hosts

def collectInsertions : List (String × Host Literal Recipe) → List String
  | [] => []
  | (_, host) :: insertions => collectHost host ++ collectInsertions insertions

end

namespace Collector

def draws : Collector where
  draw stem := [stem]

def calls : Collector where
  call name := [name]

def strings : Collector where
  literal := Literal.texts
  text content := [content]
  path := Path.texts
  json := Json.texts
  keys names := names

end Collector

/-- The stems of all symbols that building the recipe draws if nothing fails, in the order
of the draws. -/
def stems (recipe : Recipe) : List String :=
  recipe.collect .draws

theorem stems_lambda (stem param : String) (body : Recipe) :
    (lambda stem param body).stems = stem :: body.stems := rfl

theorem stems_shorthand (function : Shorthand) (source : Recipe) (param : String)
    (body : Recipe) :
    (shorthand function source param body).stems =
      source.stems ++ function.stem :: body.stems := rfl

/-- The names of the calls in the recipe that are made with the general call builder. -/
def callNames (recipe : Recipe) : List String :=
  recipe.collect .calls

/-- The strings that a recipe supplies itself: the names of variables, whether it
refers to them or binds them with `let`, string literals, the fields of paths and
the strings of host data. -/
def strings (recipe : Recipe) : List String :=
  recipe.collect .strings

/-- The calls that a recipe makes with the general call builder are of free names, and the strings
that it supplies are known. -/
structure Admitted (free : String → Prop) (known calls strings : List String) : Prop where
  named : ∀ name ∈ calls, free name
  supplied : strings ⊆ known

theorem admitted_append {free : String → Prop}
    {known calls moreCalls strings moreStrings : List String} :
    Admitted free known (calls ++ moreCalls) (strings ++ moreStrings) ↔
      Admitted free known calls strings ∧ Admitted free known moreCalls moreStrings := by
  constructor
  · intro admitted
    have named := List.forall_mem_append.mp admitted.named
    have supplied := List.append_subset.mp admitted.supplied
    exact ⟨⟨named.1, supplied.1⟩, ⟨named.2, supplied.2⟩⟩
  · intro both
    exact ⟨List.forall_mem_append.mpr ⟨both.1.named, both.2.named⟩,
      List.append_subset.mpr ⟨both.1.supplied, both.2.supplied⟩⟩

end Recipe

namespace Value

theorem asString?_of_toValue {source : Literal} {value : Value}
    (made : source.toValue = .ok value) : ∀ text ∈ value.asString?, text ∈ source.texts := by
  intro text found
  cases source with
  | string content =>
      cases made
      cases found
      exact List.mem_singleton_self text
  | null | long | boolean | localTime | date | bytes =>
      cases made
      cases found
  | double | timeText | dateText | bytesText | reference =>
      simp only [Literal.toValue, ofDouble, readTime, readDate, readBytes, ofReference] at made
      split at made <;> cases made
      cases found

end Value

end QueryWire
