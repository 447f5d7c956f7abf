import QueryWire.Proofs.Members

namespace QueryWire.Binding

/-- One use of a binding. -/
inductive Use where
  | bind (name : String) (value : Expr)
  | close (body : Expr)

namespace Use

def closes : Use → Bool
  | .bind _ _ => false
  | .close _ => true

/-- The pair that the use adds to a binding that collects. -/
def pair? : Use → Option (String × Expr)
  | .bind name value => some (name, value)
  | .close _ => none

end Use

/-- What a use gives: closing makes the `let` expression, binding a name makes none. -/
abbrev Answer := Except Error (Option Expr)

def Answer.made? (answer : Answer) : Option Expr :=
  answer.toOption.join

/-- A use of the binding, with the binding that it leaves.  An error leaves it as it was. -/
def use (binding : Binding) : Use → Answer × Binding
  | .bind name value =>
      match binding.bind name value with
      | .ok next => (.ok none, next)
      | .error reason => (.error reason, binding)
  | .close body =>
      let (result, next) := binding.close body
      (result.map some, next)

/-- The binding that is left by using it again and again. -/
def left (binding : Binding) (uses : List Use) : Binding :=
  uses.foldl (fun binding use => (binding.use use).2) binding

def answers (binding : Binding) : List Use → List Answer
  | [] => []
  | use :: uses => (binding.use use).1 :: answers (binding.use use).2 uses

/-- All pairs that were given for binding: those of the start and those of the uses. -/
def given (pairs : List (String × Expr)) (uses : List Use) : List (String × Expr) :=
  pairs ++ uses.filterMap Use.pair?

/-- The next answer, as the uses so far tell it: every name has its last expression and
stands where it was given first. -/
def expected (pairs : List (String × Expr)) (uses : List Use) : Use → Answer
  | .bind _ _ => if uses.any Use.closes then .error (.misuse .bind) else .ok none
  | .close body =>
      if uses.any Use.closes then .error (.misuse .close)
      else .ok (some (.call "let" (.object (Members.lastOfEach (given pairs uses))) [("in", body)]))

theorem use_bind_ofPairs (pairs : List (String × Expr)) (name : String) (value : Expr) :
    (ofPairs pairs).use (.bind name value) = (.ok none, ofPairs (pairs ++ [(name, value)])) := by
  rw [ofPairs, ofPairs, Members.ofPairs_concat]
  rfl

theorem left_closed (uses : List Use) : closed.left uses = closed := by
  induction uses with
  | nil => rfl
  | cons use uses ih => cases use <;> exact ih

/-- A binding that no use has closed is as if made of all pairs at once. -/
theorem left_ofPairs (pairs : List (String × Expr)) (uses : List Use) :
    (ofPairs pairs).left uses =
      if uses.any Use.closes then closed else ofPairs (given pairs uses) := by
  induction uses generalizing pairs with
  | nil => rw [given, List.filterMap_nil, List.append_nil]; rfl
  | cons use uses ih =>
      cases use with
      | bind name value =>
          have next : (ofPairs pairs).left (.bind name value :: uses) =
              (ofPairs (pairs ++ [(name, value)])).left uses := by
            rw [left, List.foldl_cons, use_bind_ofPairs]
            rfl
          rw [next, ih, given, List.append_assoc]
          rfl
      | close body => exact left_closed uses

theorem answers_eq_mapIdx (binding : Binding) (uses : List Use) :
    binding.answers uses =
      uses.mapIdx fun index use => ((binding.left (uses.take index)).use use).1 := by
  induction uses generalizing binding with
  | nil => rfl
  | cons use uses ih => rw [answers, ih, List.mapIdx_cons]; rfl

theorem use_left (pairs : List (String × Expr)) (uses : List Use) (next : Use) :
    (((ofPairs pairs).left uses).use next).1 = expected pairs uses next := by
  rw [left_ofPairs]
  cases next with
  | bind name value =>
      rw [expected]
      split
      · rfl
      · rw [use_bind_ofPairs]
  | close body =>
      rw [expected]
      split
      · rfl
      · rw [ofPairs, Members.ofPairs_eq_lastOfEach]
        rfl

theorem names_left (pairs : List (String × Expr)) (uses : List Use) :
    ((ofPairs pairs).left uses).names =
      if uses.any Use.closes then [] else (Members.names (given pairs uses)).eraseDups := by
  rw [left_ofPairs]
  split
  · rfl
  · exact Members.names_ofPairs _

theorem made_answers_closed (uses : List Use) :
    (closed.answers uses).filterMap Answer.made? = [] := by
  induction uses with
  | nil => rfl
  | cons use uses ih => cases use <;> exact ih

theorem length_made_answers (pairs : List (String × Expr)) (uses : List Use) :
    (((ofPairs pairs).answers uses).filterMap Answer.made?).length =
      if uses.any Use.closes then 1 else 0 := by
  induction uses generalizing pairs with
  | nil => rfl
  | cons use uses ih =>
      cases use with
      | bind name value =>
          rw [answers, use_bind_ofPairs]
          exact ih _
      | close body => exact congrArg (· + 1) (congrArg List.length (made_answers_closed uses))

/-- However a binding is used, what it answers and the names it has are told from the uses
before.  Names are bound until the first close, which makes the `let` expression and is the
only use to make one; after it everything is refused and no name is left. -/
theorem closes_once (pairs : List (String × Expr)) (uses : List Use) :
    ((ofPairs pairs).left uses).isClosed = uses.any Use.closes ∧
      ((ofPairs pairs).left uses).names =
        (if uses.any Use.closes then [] else (Members.names (given pairs uses)).eraseDups) ∧
      (∀ body, (((ofPairs pairs).left uses).toExpr body).map some =
        expected pairs uses (.close body)) ∧
      (ofPairs pairs).answers uses =
        uses.mapIdx (fun index use => expected pairs (uses.take index) use) ∧
      (((ofPairs pairs).answers uses).filterMap Answer.made?).length ≤ 1 := by
  refine ⟨?_, names_left pairs uses, fun body => use_left pairs uses (.close body), ?_, ?_⟩
  · rw [left_ofPairs]
    cases uses.any Use.closes <;> rfl
  · rw [answers_eq_mapIdx]
    exact congrArg uses.mapIdx (funext₂ fun index use => use_left pairs _ use)
  · rw [length_made_answers]
    split <;> decide

example :
    (ofPairs [("a", .null), ("b", .null)]).answers [.bind "a" (.long 1), .close .null,
      .bind "c" .null] =
    [.ok none, .ok (some (.call "let" (.object [("a", .long 1), ("b", .null)]) [("in", .null)])),
      .error (.misuse .bind)] := rfl

end QueryWire.Binding
