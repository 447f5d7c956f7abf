import QueryWire.Proofs.Recipe.Numbering
import QueryWire.Session

namespace QueryWire

/-! # Sessions never repeat a symbol

A session hands its supply on from recipe to recipe as each one leaves it, with all draws
of a recipe that failed.  So the recipes share the numbers behind the start among them in
consecutive intervals, and each is built as it would be alone from where its interval begins.
-/

namespace SymbolSupply

variable {start : UInt64}

/-- Symbols as variables, with a log of all that were drawn. -/
def logged : Drawing (SymbolSupply × List String) Value := fun stem (supply, log) =>
  let (symbol, next) := supply.draw stem
  (.string symbol, next, log ++ [symbol])

def loggedSource (start : UInt64) : Source (SymbolSupply × List String) Value :=
  ⟨logged, .startingAt start, []⟩

theorem behind_loggedSource (start : UInt64) (stems : List String) :
    (loggedSource start).behind stems = ((startingAt start).drawAll stems).swap := by
  induction stems using List.reverseRecOn with
  | nil => rfl
  | append_singleton stems stem ih => rw [Source.behind_concat, ih, drawAll_append]; rfl

theorem leaf_loggedSource (start : UInt64) (stems : List String) (stem : String) :
    (loggedSource start).leaf stems stem =
      .string (Mark.symbol start ⟨stem, stems.length⟩) := by
  rw [Source.leaf, behind_loggedSource, drawAll_eq]
  exact congrArg (fun drawn => Value.string drawn.1) (draw_startingAt_add start stems.length stem)

end SymbolSupply

namespace Recipe

/-- The symbols that are drawn while the recipe is built behind `start`, whether it fails or not,
in the order of drawing. -/
def symbols (recipe : Recipe) (start : UInt64) : List String :=
  ((recipe.build SymbolSupply.logged []).run.run (.startingAt start, [])).2.2

/-- The log changes nothing of what is built. -/
theorem run_logged (recipe : Recipe) (start : UInt64) :
    (recipe.build SymbolSupply.logged []).run.run (.startingAt start, []) =
      ((recipe.run (.startingAt start)).1, (recipe.run (.startingAt start)).2,
        ((SymbolSupply.startingAt start).drawAll recipe.sketched.2).1) := by
  have ran := (recipe.build_eq_fill (SymbolSupply.leaf_loggedSource start)).1
  rw [SymbolSupply.behind_loggedSource, SymbolSupply.drawAll_eq] at ran
  rw [recipe.run_startingAt, SymbolSupply.drawAll_eq]
  exact ran

theorem symbols_eq_drawAll (recipe : Recipe) (start : UInt64) :
    recipe.symbols start = ((SymbolSupply.startingAt start).drawAll recipe.sketched.2).1 := by
  rw [symbols, run_logged]

end Recipe

namespace Session

/-- What the supply has issued before each recipe of a session, and behind the last one. -/
def readings (recipes : List Recipe) (start : UInt64) : List UInt64 :=
  start :: (run recipes (.startingAt start)).map fun answer => answer.2.issued

/-- The number of evaluations of lambdas with their own symbols, those of recipes that fail
included. -/
def evaluations (recipes : List Recipe) : Nat :=
  (recipes.map fun recipe => recipe.sketched.2.length).sum

theorem evaluations_cons (recipe : Recipe) (recipes : List Recipe) :
    evaluations (recipe :: recipes) = recipe.sketched.2.length + evaluations recipes := rfl

theorem run_cons (recipe : Recipe) (recipes : List Recipe) (start : UInt64) :
    run (recipe :: recipes) (.startingAt start) =
      recipe.run (.startingAt start) ::
        run recipes (.startingAt (start + UInt64.ofNat recipe.sketched.2.length)) := by
  rw [run, recipe.run_startingAt]

theorem readings_cons (recipe : Recipe) (recipes : List Recipe) (start : UInt64) :
    readings (recipe :: recipes) start =
      start :: readings recipes (start + UInt64.ofNat recipe.sketched.2.length) := by
  rw [readings, run_cons, List.map_cons, recipe.run_startingAt, readings]
  rfl

theorem length_run (recipes : List Recipe) (supply : SymbolSupply) :
    (run recipes supply).length = recipes.length := by
  induction recipes generalizing supply with
  | nil => rfl
  | cons recipe recipes ih => exact congrArg (· + 1) (ih _)

/-- The recipe at an index has the numbers behind `before` up to `after`. -/
structure Interval (recipes : List Recipe) (start : UInt64) (index : Nat) (recipe : Recipe)
    (before after : UInt64) : Prop where
  opens : (readings recipes start)[index]? = some before
  closes : (readings recipes start)[index + 1]? = some after
  counted : after.toNat = start.toNat + evaluations (recipes.take (index + 1))
  /-- The session answers as building the recipe alone does. -/
  alone : (run recipes (.startingAt start))[index]? = some (recipe.run (.startingAt before))
  /-- Its evaluations are what it draws for. -/
  builds : recipe.Builds [] (.startingAt before) recipe.sketched.2
    (recipe.run (.startingAt before)).1
  /-- So does building with a log, which has a symbol for every evaluation. -/
  logged : (recipe.build SymbolSupply.logged []).run.run (.startingAt before, []) =
    ((recipe.run (.startingAt before)).1, .startingAt after, recipe.symbols before)
  complete : (recipe.symbols before).length = recipe.sketched.2.length
  numbered : ∀ symbol ∈ recipe.symbols before, ∃ stem number,
    symbol = SymbolSupply.symbol stem number ∧ before < number ∧ number ≤ after

theorem exists_interval {recipes : List Recipe} {index : Nat} {recipe : Recipe} {start : UInt64}
    (few : start.toNat + evaluations recipes < 2 ^ 64) (found : recipes[index]? = some recipe) :
    ∃ before after, Interval recipes start index recipe before after := by
  induction recipes generalizing start index with
  | nil => cases found
  | cons first recipes ih =>
      rw [evaluations_cons] at few
      have next : (start + UInt64.ofNat first.sketched.2.length).toNat =
          start.toNat + first.sketched.2.length := SymbolSupply.toNat_add_ofNat (by omega)
      cases index with
      | zero =>
          cases found
          refine ⟨start, start + UInt64.ofNat recipe.sketched.2.length, rfl, ?_, ?_, ?_, ?_, ?_, ?_,
            ?_⟩
          · rw [readings_cons]
            rfl
          · simpa [evaluations] using next
          · rw [run_cons]
            rfl
          · rw [recipe.run_startingAt]
            exact recipe.builds_sketched start
          · rw [recipe.run_logged, recipe.symbols_eq_drawAll, recipe.run_startingAt]
          · rw [recipe.symbols_eq_drawAll, SymbolSupply.drawAll_eq, List.length_mapIdx]
          · rw [recipe.symbols_eq_drawAll]
            exact fun symbol => SymbolSupply.numbers_drawAll (by omega)
      | succ index =>
          -- The others are a session of their own, behind the draws of the first recipe.
          have fewer : (start + UInt64.ofNat first.sketched.2.length).toNat +
              evaluations recipes < 2 ^ 64 := by omega
          obtain ⟨before, after, interval⟩ := ih fewer found
          refine ⟨before, after, ?_, ?_, ?_, ?_, interval.builds, interval.logged,
            interval.complete, interval.numbered⟩
          · rw [readings_cons]
            exact interval.opens
          · rw [readings_cons]
            exact interval.closes
          · rw [interval.counted, next, List.take_succ_cons, evaluations_cons, Nat.add_assoc]
          · rw [run_cons]
            exact interval.alone

/-- The symbols of a session are those of one long row of draws. -/
theorem flatten_symbols (recipes : List Recipe) (start : UInt64) :
    (List.zipWith Recipe.symbols recipes (readings recipes start)).flatten =
      ((SymbolSupply.startingAt start).drawAll
        (recipes.flatMap fun recipe => recipe.sketched.2)).1 := by
  induction recipes generalizing start with
  | nil => rfl
  | cons recipe recipes ih =>
      have next := SymbolSupply.drawAll_eq (.startingAt start) recipe.sketched.2
      rw [readings_cons, List.zipWith_cons_cons, List.flatten_cons, recipe.symbols_eq_drawAll,
        ih,
        List.flatMap_cons, SymbolSupply.drawAll_append, next]
      rfl

/-- Every recipe of a session has an interval of numbers of its own, as long as the number of
its evaluations whether it fails or not, and no symbol is drawn twice. -/
theorem supply_stays_fresh (recipes : List Recipe) (start : UInt64)
    (few : start.toNat + evaluations recipes < 2 ^ 64) :
    (run recipes (.startingAt start)).length = recipes.length ∧
      (∀ (index : Nat) (recipe : Recipe), recipes[index]? = some recipe →
        ∃ before after, Interval recipes start index recipe before after) ∧
      (List.zipWith Recipe.symbols recipes (readings recipes start)).flatten.Nodup := by
  refine ⟨length_run recipes _, fun index recipe => exists_interval few, ?_⟩
  rw [flatten_symbols]
  refine SymbolSupply.nodup_drawAll _ ?_
  rw [List.length_flatMap]
  change evaluations recipes ≤ 2 ^ 64
  omega

/-- A session in which the second recipe fails behind its draw. -/
def failingBetween : List Recipe :=
  [.shorthand (.iterate .map) (.array []) "x" (.parameter "x"),
    .lambda "f" "x" (.parameter "y"), .lambda "f" "x" (.parameter "x")]

theorem supply_stays_fresh_failing_between :
    (7 : UInt64).toNat + evaluations failingBetween < 2 ^ 64 ∧
      readings failingBetween 7 = [7, 8, 9, 10] ∧
      (List.zipWith Recipe.symbols failingBetween (readings failingBetween 7)).flatten.Nodup :=
  have few : (7 : UInt64).toNat + evaluations failingBetween < 2 ^ 64 := by decide
  ⟨few, by decide, (supply_stays_fresh failingBetween 7 few).2.2⟩

end Session

end QueryWire
