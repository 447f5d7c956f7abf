import QueryWire.Proofs.Recipe.Congruent
import QueryWire.Proofs.Recipe.Parallel

namespace QueryWire

/-! # Relations that building keeps

What a recipe builds from two sources is related, whatever the relation, if every step of
building keeps it.  The relation may depend on what was drawn so far and on the lambdas that
are open, so that a variable can be known by its draw.  All that is said of building in general
is said by choosing a relation.
-/

variable {σ τ ν μ : Type}

/-- A draw: the stem of its symbol, and how many symbols were drawn before it. -/
structure Mark where
  stem : String
  earlier : Nat
deriving DecidableEq, Repr

/-- A relation of what is built from two sources, by the stems of all draws so far and the
draws of the open lambdas, innermost first. -/
structure Parametric [Leaf ν] [Leaf μ] (left : Source σ ν) (right : Source τ μ)
    (free : String → Prop) (known : List String)
    (related : List String → List Mark → Expr ν → Expr μ → Prop) : Prop where
  congruent (stems : List String) (marks : List Mark) : Congruent free known (related stems marks)
  grow {stems later : List String} {marks : List Mark} {expr : Expr ν} {other : Expr μ}
    (grown : stems <+: later) (holds : related stems marks expr other) :
    related later marks expr other
  /-- What there was before a draw may be used inside its lambda. -/
  enter {stems : List String} {marks : List Mark} {expr : Expr ν} {other : Expr μ} (stem : String)
    (holds : related stems marks expr other) :
    related stems (⟨stem, stems.length⟩ :: marks) expr other
  handle {stems : List String} {marks : List Mark} (stem : String) :
    related (stems ++ [stem]) (⟨stem, stems.length⟩ :: marks)
      (.variableOf (left.leaf stems stem)) (.variableOf (right.leaf stems stem))
  lambda {stems later : List String} {marks : List Mark} {stem : String} {body : Expr ν}
    {body' : Expr μ} (around : ∀ mark ∈ marks, mark.earlier < stems.length)
    (grown : stems ++ [stem] <+: later)
    (inside : related later (⟨stem, stems.length⟩ :: marks) body body') :
    related later marks (Binary.lambda.apply (.literal (left.leaf stems stem)) body)
      (Binary.lambda.apply (.literal (right.leaf stems stem)) body')

namespace Recipe

variable {left : Source σ ν} {right : Source τ μ} {free : String → Prop}
  {known stems later : List String} {related : List String → List Mark → Expr ν → Expr μ → Prop}
  {marks : List Mark} {scope : List (String × Expr ν × Expr μ)}

theorem parallel_toValue (source : Literal) (supplied : source.texts ⊆ known) :
    Build.Parallel left right stems [] id id (fun _ value => value.Supplied known)
      (liftM source.toValue) (liftM source.toValue) := by
  refine Build.parallel_ofAgree ?_
  cases made : source.toValue with
  | error reason => exact .error reason
  | ok value =>
      exact .ok value ⟨⟨source, made⟩,
        fun text found => supplied (Value.asString?_of_toValue made text found)⟩

/-- The open lambdas are of draws that were made, and every parameter in scope stands for
related expressions. -/
structure InScope (related : List String → List Mark → Expr ν → Expr μ → Prop)
    (stems : List String) (marks : List Mark) (scope : List (String × Expr ν × Expr μ)) :
    Prop where
  around : ∀ mark ∈ marks, mark.earlier < stems.length
  holds : ∀ name both, scope.lookup name = some both → related stems marks both.1 both.2

namespace InScope

theorem push (held : InScope related stems marks scope) {both : Expr ν × Expr μ} (param : String)
    (holds : related stems marks both.1 both.2) :
    InScope related stems marks ((param, both) :: scope) := by
  refine ⟨held.around, fun name other found => ?_⟩
  rw [List.lookup_cons] at found
  split at found
  · cases found
    exact holds
  · exact held.holds name other found

variable [Leaf ν] [Leaf μ]

theorem grow (parametric : Parametric left right free known related)
    (held : InScope related stems marks scope) (grown : stems <+: later) :
    InScope related later marks scope :=
  ⟨fun mark member => (held.around mark member).trans_le grown.length_le,
    fun name both found => parametric.grow grown (held.holds name both found)⟩

/-- Inside the lambda of a draw everything that was in scope still is. -/
theorem enter (parametric : Parametric left right free known related)
    (held : InScope related stems marks scope) (stem param : String) :
    InScope related (stems ++ [stem]) (⟨stem, stems.length⟩ :: marks)
      ((param, .variableOf (left.leaf stems stem), .variableOf (right.leaf stems stem)) ::
        scope) := by
  refine push ⟨List.forall_mem_cons.mpr ⟨?_, fun mark member => ?_⟩, fun name both found => ?_⟩
    param (parametric.handle stem)
  · simp
  · have := held.around mark member
    simp only [List.length_append]
    omega
  · exact parametric.grow (List.prefix_append stems [stem])
      (parametric.enter stem (held.holds name both found))

end InScope

variable [Leaf ν] [Leaf μ]

theorem parallel_lambda (parametric : Parametric left right free known related)
    (held : InScope related stems marks scope) {order : List String} (stem param : String)
    {body : Expr ν → Build σ (Expr ν)} {other : Expr μ → Build τ (Expr μ)}
    (inside : InScope related (stems ++ [stem]) (⟨stem, stems.length⟩ :: marks)
        ((param, .variableOf (left.leaf stems stem), .variableOf (right.leaf stems stem)) ::
          scope) →
      Build.Parallel left right (stems ++ [stem]) order Prod.fst Prod.snd
        (fun later both => related later (⟨stem, stems.length⟩ :: marks) both.1 both.2)
        (body (.variableOf (left.leaf stems stem)))
        (other (.variableOf (right.leaf stems stem)))) :
    Build.Parallel left right stems (stem :: order) Prod.fst Prod.snd
      (fun later both => related later marks both.1 both.2)
      (Build.lambda left.drawing stem body) (Build.lambda right.drawing stem other) :=
  Build.parallel_draw_bind <| (inside (held.enter parametric stem param)).last
    fun _ _ grown holds => Build.parallel_pure (_, _) (parametric.lambda held.around grown holds)

open Build in
mutual

/-- From two sources a recipe is built in parallel, in scopes that are related, and what is built
is related. -/
theorem parallel_build (parametric : Parametric left right free known related) (recipe : Recipe)
    {stems : List String} {marks : List Mark} {scope : List (String × Expr ν × Expr μ)}
    (admitted : Admitted free known recipe.callNames recipe.strings)
    (held : InScope related stems marks scope) :
    Parallel left right stems recipe.stems Prod.fst Prod.snd
      (fun later both => related later marks both.1 both.2)
      (recipe.build left.drawing (Members.mapValues Prod.fst scope))
      (recipe.build right.drawing (Members.mapValues Prod.snd scope)) := by
  have kept (later : List String) : Congruent free known (related later marks) :=
    parametric.congruent later marks
  match recipe with
  | .literal source =>
      exact (parallel_toValue source admitted.supplied).last fun value later _ supplied =>
        parallel_pure (_, _) ((kept later).value supplied)
  | .parameter name =>
      unfold build
      rw [Members.lookup_mapValues, Members.lookup_mapValues]
      cases found : scope.lookup name with
      | none => exact parallel_throw _
      | some both => exact parallel_pure both (held.holds name both found)
  | .variableNamed name =>
      exact parallel_pure (_, _)
        ((kept stems).variableNamed (admitted.supplied (List.mem_singleton_self name)))
  | .array items =>
      exact (parallel_buildItems parametric items admitted held).last
        fun _ later _ each => parallel_pure (_, _) ((kept later).array each)
  | .oneOrMany items =>
      exact (parallel_buildItems parametric items admitted held).last
        fun _ later _ each => parallel_pure (_, _) ((kept later).oneOrMany each)
  | .object pairs =>
      exact (parallel_buildPairs parametric pairs admitted held).last
        fun _ later _ each => parallel_pure (_, _) ((kept later).ofPairs each.2)
  | .path segments =>
      exact parallel_pure (_, _) ((kept stems).ofSegments segments admitted.supplied)
  | .encode host =>
      exact (parallel_buildHost parametric host admitted held).last
        fun made later _ leaves => parallel_ofAgree
          ((kept later).agree_host made leaves)
  | .nullary function => exact parallel_pure (_, _) ((kept stems).nullary function)
  | .unary function argument =>
      exact (parallel_build parametric argument admitted held).last
        fun _ later _ first => parallel_pure (_, _) ((kept later).unary function first)
  | .binary function first second =>
      have admitted := admitted_append.mp admitted
      exact (parallel_build parametric first admitted.1 held).bind fun _ _ grown first =>
        (parallel_build parametric second admitted.2 (held.grow parametric grown)).last
          fun _ later grown next => parallel_pure (_, _)
            ((kept later).binary function (parametric.grow grown first) next)
  | .ternary function first second third =>
      have admitted := admitted_append.mp admitted
      have later := admitted_append.mp admitted.2
      exact (parallel_build parametric first admitted.1 held).bind fun _ _ grown first =>
        have held := held.grow parametric grown
        (parallel_build parametric second later.1 held).bind
          fun _ _ grown next =>
            (parallel_build parametric third later.2
              (held.grow parametric grown)).last fun _ later more last =>
                parallel_pure (_, _) ((kept later).ternary function
                  (parametric.grow (grown.trans more) first) (parametric.grow more next) last)
  | .quaternary function first second third fourth =>
      have admitted := admitted_append.mp admitted
      have later := admitted_append.mp admitted.2
      have last := admitted_append.mp later.2
      exact (parallel_build parametric first admitted.1 held).bind
        fun _ _ grown first =>
          have held := held.grow parametric grown
          (parallel_build parametric second later.1 held).bind
            fun _ _ grown next =>
              have held := held.grow parametric grown
              (parallel_build parametric third last.1 held).bind
                fun _ _ more later =>
                  (parallel_build parametric fourth last.2
                    (held.grow parametric more)).last fun _ current most last =>
                      parallel_pure (_, _) ((kept current).quaternary function
                        (parametric.grow ((grown.trans more).trans most) first)
                        (parametric.grow (more.trans most) next) (parametric.grow most later)
                        last)
  | .variadic function arguments =>
      exact (parallel_buildItems parametric arguments admitted held).last
        fun _ later _ each => parallel_pure (_, _) ((kept later).variadic function each)
  | .sequence steps =>
      exact (parallel_buildItems parametric steps admitted held).last
        fun _ later _ each => parallel_pure (_, _) ((kept later).sequence each)
  | .invoke function arguments =>
      have admitted := admitted_append.mp admitted
      exact (parallel_build parametric function admitted.1 held).bind
        fun _ _ grown first =>
          (parallel_buildItems parametric arguments admitted.2
            (held.grow parametric grown)).last fun _ later grown each =>
              parallel_pure (_, _) ((kept later).invoke (parametric.grow grown first) each)
  | .iterate function collection body =>
      have admitted := admitted_append.mp admitted
      exact (parallel_build parametric collection admitted.1 held).bind
        fun _ _ grown source =>
          (parallel_build parametric body admitted.2 (held.grow parametric grown)).last
            fun _ later grown lambda => parallel_pure (_, _)
              ((kept later).iterate function (parametric.grow grown source) lambda)
  | .call name argument fields =>
      obtain ⟨own, admitted⟩ := admitted_append.mp admitted
      have allowed := own.named name (List.mem_singleton_self name)
      have admitted := admitted_append.mp admitted
      exact (parallel_build parametric argument admitted.1 held).bind
        fun _ _ grown first =>
          (parallel_buildFields parametric fields admitted.2
            (held.grow parametric grown)).last fun _ later grown each =>
              parallel_pure (_, _) ((kept later).call allowed (parametric.grow grown first) each)
  | .letIn pairs body =>
      obtain ⟨own, admitted⟩ := admitted_append.mp admitted
      have admitted := admitted_append.mp admitted
      exact (parallel_buildPairs parametric pairs admitted.1 held).bind
        fun made _ grown each =>
          (parallel_build parametric body admitted.2 (held.grow parametric grown)).last
            fun _ later grown visible => parallel_ofAgree ((kept later).letIn
              (fun pair member => own.supplied (each.1 ▸ List.mem_map_of_mem member))
              (fun pair member => parametric.grow grown (each.2 pair member)) visible)
  | .paginate resource settings =>
      have admitted := admitted_append.mp admitted
      exact (parallel_build parametric resource admitted.1 held).bind
        fun _ _ grown source =>
          (parallel_buildSettings parametric settings admitted.2
            (held.grow parametric grown)).last fun _ later grown each =>
              parallel_pure (_, _) ((kept later).paginate (parametric.grow grown source) each)
  | .lambda stem param body =>
      exact parallel_lambda parametric held stem param fun entered =>
        parallel_build parametric body admitted entered
  | .shorthand function source param body =>
      have admitted := admitted_append.mp admitted
      exact (parallel_build parametric source admitted.1 held).bind
        fun _ _ grown source =>
          have held := held.grow parametric grown
          (parallel_lambda parametric held function.stem param fun entered =>
            parallel_build parametric body admitted.2 entered).last
              fun _ later grown lambda => parallel_pure (_, _)
                ((kept later).shorthand function (parametric.grow grown source) lambda)
  | .repeated 0 param seed step =>
      have admitted := admitted_append.mp admitted
      exact (parallel_build parametric seed admitted.1 held).bind
        fun both _ _ made => parallel_pure both made
  | .repeated (count + 1) param seed step =>
      have admitted := admitted_append.mp admitted
      have admittedStep := admitted_append.mp admitted.2
      exact (parallel_build parametric seed admitted.1 held).bind
        fun _ _ grown made =>
          have held := held.grow parametric grown
          parallel_repeated (fun _ _ grown made => parallel_build parametric step admittedStep.1
              ((held.grow parametric grown).push param made))
            (count + 1) List.prefix_rfl made

theorem parallel_buildItems (parametric : Parametric left right free known related)
    (items : List Recipe) {stems : List String} {marks : List Mark}
    {scope : List (String × Expr ν × Expr μ)}
    (admitted : Admitted free known (collectItems .calls items) (collectItems .strings items))
    (held : InScope related stems marks scope) :
    Parallel left right stems (collectItems .draws items) (List.map Prod.fst) (List.map Prod.snd)
      (fun later made => ∀ item ∈ made, related later marks item.1 item.2)
      (buildItems left.drawing (Members.mapValues Prod.fst scope) items)
      (buildItems right.drawing (Members.mapValues Prod.snd scope) items) := by
  match items with
  | [] => exact parallel_pure [] (List.forall_mem_nil _)
  | item :: items =>
      have admitted := admitted_append.mp admitted
      exact (parallel_build parametric item admitted.1 held).bind
        fun made _ grown holds =>
          (parallel_buildItems parametric items admitted.2
            (held.grow parametric grown)).last fun rest _ grown each =>
              parallel_pure (made :: rest)
                (List.forall_mem_cons.mpr ⟨parametric.grow grown holds, each⟩)

theorem parallel_buildPairs (parametric : Parametric left right free known related)
    (pairs : List (String × Recipe)) {stems : List String} {marks : List Mark}
    {scope : List (String × Expr ν × Expr μ)}
    (admitted : Admitted free known (collectPairs .calls pairs) (collectPairs .strings pairs))
    (held : InScope related stems marks scope) :
    Parallel left right stems (collectPairs .draws pairs) (Members.mapValues Prod.fst)
      (Members.mapValues Prod.snd)
      (fun later made => made.map Prod.fst = pairs.map Prod.fst ∧
        ∀ pair ∈ made, related later marks pair.2.1 pair.2.2)
      (buildPairs left.drawing (Members.mapValues Prod.fst scope) pairs)
      (buildPairs right.drawing (Members.mapValues Prod.snd scope) pairs) := by
  match pairs with
  | [] => exact parallel_pure [] ⟨rfl, List.forall_mem_nil _⟩
  | (name, recipe) :: pairs =>
      have admitted := admitted_append.mp admitted
      exact (parallel_build parametric recipe admitted.1 held).bind
        fun made _ grown holds =>
          (parallel_buildPairs parametric pairs admitted.2
            (held.grow parametric grown)).last fun rest _ grown each =>
              parallel_pure ((name, made) :: rest) ⟨congrArg (name :: ·) each.1,
                List.forall_mem_cons.mpr ⟨parametric.grow grown holds, each.2⟩⟩

theorem parallel_buildFields (parametric : Parametric left right free known related)
    (fields : List (String × Option Recipe)) {stems : List String} {marks : List Mark}
    {scope : List (String × Expr ν × Expr μ)}
    (admitted : Admitted free known (collectFields .calls fields) (collectFields .strings fields))
    (held : InScope related stems marks scope) :
    Parallel left right stems (collectFields .draws fields) (Members.mapValues Prod.fst)
      (Members.mapValues Prod.snd)
      (fun later made => ∀ field ∈ made, related later marks field.2.1 field.2.2)
      (buildFields left.drawing (Members.mapValues Prod.fst scope) fields)
      (buildFields right.drawing (Members.mapValues Prod.snd scope) fields) := by
  match fields with
  | [] => exact parallel_pure [] (List.forall_mem_nil _)
  | (name, some recipe) :: fields =>
      have admitted := admitted_append.mp admitted
      exact (parallel_build parametric recipe admitted.1 held).bind
        fun made _ grown holds =>
          (parallel_buildFields parametric fields admitted.2
            (held.grow parametric grown)).last fun rest _ grown each =>
              parallel_pure ((name, made) :: rest)
                (List.forall_mem_cons.mpr ⟨parametric.grow grown holds, each⟩)
  | (_, none) :: fields => exact parallel_buildFields parametric fields admitted held

theorem parallel_buildSetting (parametric : Parametric left right free known related)
    (setting : Setting Recipe) {stems : List String} {marks : List Mark}
    {scope : List (String × Expr ν × Expr μ)}
    (admitted :
      Admitted free known (collectSetting .calls setting) (collectSetting .strings setting))
    (held : InScope related stems marks scope) :
    Parallel left right stems (collectSetting .draws setting) (Setting.map Prod.fst)
      (Setting.map Prod.snd)
      (fun later made => ∀ value ∈ made.value?, related later marks value.1 value.2)
      (buildSetting left.drawing (Members.mapValues Prod.fst scope) setting)
      (buildSetting right.drawing (Members.mapValues Prod.snd scope) setting) := by
  have single {later : List String} {both : Expr ν × Expr μ}
      (holds : related later marks both.1 both.2) :
      ∀ value ∈ some both, related later marks value.1 value.2 :=
    fun value same => Option.some.inj same ▸ holds
  match setting with
  | .ts value =>
      exact (parallel_build parametric value admitted held).last fun made _ _ holds =>
        parallel_pure (Setting.ts made) (single holds)
  | .after value =>
      exact (parallel_build parametric value admitted held).last fun made _ _ holds =>
        parallel_pure (Setting.after made) (single holds)
  | .before value =>
      exact (parallel_build parametric value admitted held).last fun made _ _ holds =>
        parallel_pure (Setting.before made) (single holds)
  | .size value =>
      exact (parallel_build parametric value admitted held).last fun made _ _ holds =>
        parallel_pure (Setting.size made) (single holds)
  | .events on => exact parallel_pure (Setting.events on) nofun
  | .sources on => exact parallel_pure (Setting.sources on) nofun

theorem parallel_buildSettings (parametric : Parametric left right free known related)
    (settings : List (Setting Recipe)) {stems : List String} {marks : List Mark}
    {scope : List (String × Expr ν × Expr μ)}
    (admitted :
      Admitted free known (collectSettings .calls settings) (collectSettings .strings settings))
    (held : InScope related stems marks scope) :
    Parallel left right stems (collectSettings .draws settings) (List.map (Setting.map Prod.fst))
      (List.map (Setting.map Prod.snd))
      (fun later made => ∀ setting ∈ made, ∀ value ∈ setting.value?,
        related later marks value.1 value.2)
      (buildSettings left.drawing (Members.mapValues Prod.fst scope) settings)
      (buildSettings right.drawing (Members.mapValues Prod.snd scope) settings) := by
  match settings with
  | [] => exact parallel_pure [] (List.forall_mem_nil _)
  | setting :: settings =>
      have admitted := admitted_append.mp admitted
      exact (parallel_buildSetting parametric setting admitted.1 held).bind
        fun made _ grown holds =>
          (parallel_buildSettings parametric settings admitted.2
            (held.grow parametric grown)).last fun rest _ grown each =>
              parallel_pure (made :: rest) (List.forall_mem_cons.mpr
                ⟨fun value found => parametric.grow grown (holds value found), each⟩)

theorem parallel_buildHost (parametric : Parametric left right free known related)
    (host : Host Literal Recipe) {stems : List String} {marks : List Mark}
    {scope : List (String × Expr ν × Expr μ)}
    (admitted : Admitted free known (collectHost .calls host) (collectHost .strings host))
    (held : InScope related stems marks scope) :
    Parallel left right stems (collectHost .draws host) (Host.mapExprs Prod.fst)
      (Host.mapExprs Prod.snd)
      (fun later made => made.Supplied known fun both => related later marks both.1 both.2)
      (buildHost left.drawing (Members.mapValues Prod.fst scope) host)
      (buildHost right.drawing (Members.mapValues Prod.snd scope) host) := by
  have plain {property : Expr ν × Expr μ → Prop} :
      Host.Supplies known property (collectHost .strings host) [] [] :=
    ⟨admitted.supplied, List.forall_mem_nil _, List.forall_mem_nil _⟩
  match host with
  | .string text => exact parallel_pure (Host.string text) plain
  | .boolean on => exact parallel_pure (Host.boolean on) plain
  | .int32 n => exact parallel_pure (Host.int32 n) plain
  | .int64 n => exact parallel_pure (Host.int64 n) plain
  | .uint32 n => exact parallel_pure (Host.uint32 n) plain
  | .uint64 n => exact parallel_pure (Host.uint64 n) plain
  | .double x => exact parallel_pure (Host.double x) plain
  | .absent => exact parallel_pure Host.absent plain
  | .json tree => exact parallel_pure (Host.json tree) plain
  | .value source =>
      exact (parallel_toValue source admitted.supplied).last fun value _ _ supplied =>
        parallel_pure (Host.value value) ⟨fun text found => supplied.own text
          (Option.mem_toList.mp found), List.forall_mem_singleton.mpr supplied.made,
          List.forall_mem_nil _⟩
  | .expr recipe =>
      exact (parallel_build parametric recipe admitted held).last fun made _ _ holds =>
        parallel_pure (Host.expr made) ⟨List.nil_subset known, List.forall_mem_nil _,
          List.forall_mem_singleton.mpr holds⟩
  | .present host =>
      exact (parallel_buildHost parametric host admitted held).last
        fun made _ _ leaves => parallel_pure (Host.present made) leaves
  | .sequence items =>
      exact (parallel_buildHosts parametric items admitted held).last
        fun made _ _ leaves => parallel_pure (Host.sequence made) leaves
  | .map insertions =>
      exact (parallel_buildInsertions parametric insertions admitted held).last
        fun made _ _ leaves => parallel_pure (Host.map made) leaves

theorem parallel_buildHosts (parametric : Parametric left right free known related)
    (hosts : List (Host Literal Recipe)) {stems : List String} {marks : List Mark}
    {scope : List (String × Expr ν × Expr μ)}
    (admitted : Admitted free known (collectHosts .calls hosts) (collectHosts .strings hosts))
    (held : InScope related stems marks scope) :
    Parallel left right stems (collectHosts .draws hosts) (Host.mapExprsOfItems Prod.fst)
      (Host.mapExprsOfItems Prod.snd)
      (fun later made => Host.Supplies known (fun both => related later marks both.1 both.2)
        (Host.collectItems .texts made) (Host.collectItems .values made)
        (Host.collectItems .exprs made))
      (buildHosts left.drawing (Members.mapValues Prod.fst scope) hosts)
      (buildHosts right.drawing (Members.mapValues Prod.snd scope) hosts) := by
  match hosts with
  | [] => exact parallel_pure [] .nil
  | host :: hosts =>
      have admitted := admitted_append.mp admitted
      exact (parallel_buildHost parametric host admitted.1 held).bind
        fun made _ grown first =>
          (parallel_buildHosts parametric hosts admitted.2
            (held.grow parametric grown)).last fun others _ grown rest =>
              parallel_pure (made :: others) (Host.supplies_append.mpr
                ⟨first.imp fun _ => parametric.grow grown, rest⟩)

theorem parallel_buildInsertions (parametric : Parametric left right free known related)
    (insertions : List (String × Host Literal Recipe)) {stems : List String} {marks : List Mark}
    {scope : List (String × Expr ν × Expr μ)}
    (admitted : Admitted free known (collectInsertions .calls insertions)
      (collectInsertions .strings insertions))
    (held : InScope related stems marks scope) :
    Parallel left right stems (collectInsertions .draws insertions)
      (Host.mapExprsOfInsertions Prod.fst) (Host.mapExprsOfInsertions Prod.snd)
      (fun later made => Host.Supplies known (fun both => related later marks both.1 both.2)
        (Host.collectInsertions .texts made) (Host.collectInsertions .values made)
        (Host.collectInsertions .exprs made))
      (buildInsertions left.drawing (Members.mapValues Prod.fst scope) insertions)
      (buildInsertions right.drawing (Members.mapValues Prod.snd scope) insertions) := by
  match insertions with
  | [] => exact parallel_pure [] .nil
  | (key, host) :: insertions =>
      have admitted := admitted_append.mp admitted
      exact (parallel_buildHost parametric host admitted.1 held).bind
        fun made _ grown first =>
          (parallel_buildInsertions parametric insertions admitted.2
            (held.grow parametric grown)).last fun others _ grown rest =>
              parallel_pure ((key, made) :: others) (Host.supplies_append.mpr
                ⟨first.imp fun _ => parametric.grow grown, rest⟩)

end

/-- A recipe that stands in no scope. -/
theorem parallel_closed (parametric : Parametric left right free known related) (recipe : Recipe)
    (named : ∀ name ∈ recipe.callNames, free name) (supplied : recipe.strings ⊆ known) :
    Build.Parallel left right [] recipe.stems Prod.fst Prod.snd
      (fun drawn both => related drawn [] both.1 both.2)
      (recipe.build left.drawing []) (recipe.build right.drawing []) := by
  have nowhere : InScope related [] [] [] := ⟨List.forall_mem_nil _, nofun⟩
  exact parallel_build parametric recipe ⟨named, supplied⟩ nowhere

end Recipe

end QueryWire
