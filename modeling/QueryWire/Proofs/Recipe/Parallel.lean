import QueryWire.Proofs.Host.Compositional
import QueryWire.Recipe.Build

namespace QueryWire

/-! # Building in parallel

Two computations that draw from sources of their own run in parallel if they draw for the same
stems, fail together and for one reason, and otherwise give two things that belong together.
What they draw for is known beforehand, up to where they fail.
-/

variable {α β γ δ ε κ σ τ ν μ : Type}

/-- A drawing with the state that it starts from. -/
structure Source (σ ν : Type) where
  drawing : Drawing σ ν
  start : σ

namespace Source

variable (source : Source σ ν) (stems : List String)

/-- The state behind draws for the given stems. -/
def behind : σ :=
  stems.foldl (fun state stem => (source.drawing stem state).2) source.start

/-- The variable of one more draw behind those for the given stems. -/
def leaf (stem : String) : ν :=
  (source.drawing stem (source.behind stems)).1

theorem behind_concat (stem : String) :
    source.behind (stems ++ [stem]) = (source.drawing stem (source.behind stems)).2 :=
  List.foldl_concat ..

end Source

/-- The symbols that a supply has left. -/
def SymbolSupply.source (supply : SymbolSupply) : Source SymbolSupply Value :=
  ⟨SymbolSupply.variables, supply⟩

namespace Build

theorem run_bind (first : Build σ α) (next : α → Build σ β) (before : σ) :
    (first >>= next).run.run before =
      match first.run.run before with
      | (.ok made, between) => (next made).run.run between
      | (.error reason, between) => (.error reason, between) := by
  change (ExceptT.bindCont next (first.run.run before).1).run (first.run.run before).2 = _
  generalize first.run.run before = result
  obtain ⟨outcome, between⟩ := result
  cases outcome <;> rfl

theorem run_draw (source : Source σ ν) (stems : List String) (stem : String) :
    (draw source.drawing stem).run.run (source.behind stems) =
      (.ok (source.leaf stems stem), source.behind (stems ++ [stem])) := by
  rw [source.behind_concat]
  rfl

/-- Behind the draws for `stems` the computations end as the sides of one outcome, and with it
draw for the stems in `order` as far as they come. -/
def Parallel (left : Source σ ν) (right : Source τ μ) (stems order : List String) (first : γ → α)
    (second : γ → β) (property : List String → γ → Prop) (build : Build σ α)
    (other : Build τ β) : Prop :=
  ∃ (outcome : Except Error γ) (drawn : List String),
    build.run.run (left.behind stems) = (outcome.map first, left.behind (stems ++ drawn)) ∧
      other.run.run (right.behind stems) = (outcome.map second, right.behind (stems ++ drawn)) ∧
      drawn <+: order ∧
        ∀ made, outcome = .ok made → drawn = order ∧ property (stems ++ drawn) made

variable {left : Source σ ν} {right : Source τ μ} {stems order more : List String}
  {first : γ → α} {second : γ → β} {property : List String → γ → Prop}

theorem parallel_pure (made : γ) (holds : property stems made) :
    Parallel left right stems [] first second property (pure (first made))
      (pure (second made)) := by
  refine ⟨.ok made, [], ?_, ?_, List.prefix_rfl, fun other same => ⟨rfl, ?_⟩⟩
  · rw [List.append_nil]
    rfl
  · rw [List.append_nil]
    rfl
  · cases same
    rwa [List.append_nil]

theorem parallel_throw (reason : Error) :
    Parallel left right stems order first second property (throw reason) (throw reason) := by
  refine ⟨.error reason, [], ?_, ?_, List.nil_prefix, nofun⟩ <;>
    rw [List.append_nil] <;> rfl

theorem parallel_ofAgree {result : Except Error α} {other : Except Error β}
    (agree : Agree first second (property stems) result other) :
    Parallel left right stems [] first second property (liftM result) (liftM other) := by
  obtain ⟨outcome, rfl, rfl, holds⟩ := agree
  cases outcome with
  | error reason => exact parallel_throw reason
  | ok made => exact parallel_pure made (holds made rfl)

theorem Parallel.bind {build : Build σ α} {other : Build τ β} {firstNext : δ → ε}
    {secondNext : δ → κ} {goal : List String → δ → Prop} {next : α → Build σ ε}
    {otherNext : β → Build τ κ}
    (run : Parallel left right stems order first second property build other)
    (rest : ∀ made later, stems <+: later → property later made →
      Parallel left right later more firstNext secondNext goal (next (first made))
        (otherNext (second made))) :
    Parallel left right stems (order ++ more) firstNext secondNext goal (build >>= next)
      (other >>= otherNext) := by
  obtain ⟨outcome, drawn, ran, ranOther, begun, complete⟩ := run
  cases outcome with
  | error reason =>
      refine ⟨.error reason, drawn, ?_, ?_, begun.trans (List.prefix_append order more), nofun⟩
      · rw [run_bind, ran]
        rfl
      · rw [run_bind, ranOther]
        rfl
  | ok made =>
      obtain ⟨rfl, holds⟩ := complete made rfl
      obtain ⟨outcome, later, ranNext, ranOtherNext, begun, complete⟩ :=
        rest made (stems ++ drawn) (List.prefix_append stems drawn) holds
      rw [List.append_assoc] at ranNext ranOtherNext complete
      refine ⟨outcome, drawn ++ later, ?_, ?_, ?_, fun made ended => ?_⟩
      · rw [run_bind, ran]
        exact ranNext
      · rw [run_bind, ranOther]
        exact ranOtherNext
      · exact (List.prefix_append_right_inj drawn).mpr begun
      · obtain ⟨rfl, reached⟩ := complete made ended
        exact ⟨rfl, reached⟩

/-- A last step that draws nothing leaves the order as it is. -/
theorem Parallel.last {build : Build σ α} {other : Build τ β} {firstNext : δ → ε}
    {secondNext : δ → κ} {goal : List String → δ → Prop} {next : α → Build σ ε}
    {otherNext : β → Build τ κ}
    (run : Parallel left right stems order first second property build other)
    (rest : ∀ made later, stems <+: later → property later made →
      Parallel left right later [] firstNext secondNext goal (next (first made))
        (otherNext (second made))) :
    Parallel left right stems order firstNext secondNext goal (build >>= next)
      (other >>= otherNext) :=
  List.append_nil order ▸ run.bind rest

/-- A draw on both sides, before the rest. -/
theorem parallel_draw_bind {stem : String} {next : ν → Build σ α} {otherNext : μ → Build τ β}
    (rest : Parallel left right (stems ++ [stem]) order first second property
      (next (left.leaf stems stem)) (otherNext (right.leaf stems stem))) :
    Parallel left right stems (stem :: order) first second property
      (draw left.drawing stem >>= next) (draw right.drawing stem >>= otherNext) := by
  obtain ⟨outcome, drawn, ran, ranOther, begun, complete⟩ := rest
  rw [List.append_assoc] at ran ranOther complete
  refine ⟨outcome, stem :: drawn, ?_, ?_, (List.prefix_cons_inj stem).mpr begun,
    fun made ended => ?_⟩
  · rw [run_bind, run_draw]
    exact ran
  · rw [run_bind, run_draw]
    exact ranOther
  · obtain ⟨rfl, holds⟩ := complete made ended
    exact ⟨rfl, holds⟩

theorem parallel_repeated {step : α → Build σ α} {otherStep : β → Build τ β}
    (each : ∀ made later, stems <+: later → property later made →
      Parallel left right later order first second property (step (first made))
        (otherStep (second made))) (count : Nat) {current : List String} {made : γ}
    (grown : stems <+: current) (holds : property current made) :
    Parallel left right current (List.replicate count order).flatten first second property
      (repeated step count (first made)) (repeated otherStep count (second made)) := by
  induction count generalizing made current with
  | zero => exact parallel_pure made holds
  | succ count ih =>
      rw [List.replicate_succ, List.flatten_cons]
      exact (each made current grown holds).bind fun next later grownMore held =>
        ih (grown.trans grownMore) held

end Build

end QueryWire
