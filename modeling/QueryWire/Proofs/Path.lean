import QueryWire.Path
import QueryWire.Proofs.Expr.Unambiguous

namespace QueryWire

/-- One step of a program that keeps everything it makes: the value with the number `source` is
narrowed. -/
structure Narrowing where
  source : Nat
  added : List Segment

namespace Narrowing

variable {α β : Type}

/-- The values there are, and behind them the one that the step makes.  A source that is not
there makes none. -/
def extend (narrow : α → List Segment → α) (made : List α) (step : Narrowing) : List α :=
  made ++ (made[step.source]?.map fun value => narrow value step.added).toList

/-- All values that the steps make of a root, in the order of their making. -/
def branches (narrow : α → List Segment → α) (root : α) (steps : List Narrowing) : List α :=
  steps.foldl (extend narrow) [root]

theorem branches_concat (narrow : α → List Segment → α) (root : α) (steps : List Narrowing)
    (step : Narrowing) :
    branches narrow root (steps ++ [step]) = extend narrow (branches narrow root steps) step :=
  List.foldl_concat ..

/-- What a narrowing does to a view of the values, a tree of narrowings does to all views. -/
theorem map_branches {narrow : α → List Segment → α} {narrow' : β → List Segment → β} {view : α → β}
    (commutes : ∀ value added, view (narrow value added) = narrow' (view value) added)
    (root : α) (steps : List Narrowing) :
    (branches narrow root steps).map view = branches narrow' (view root) steps := by
  induction steps using List.reverseRecOn with
  | nil => rfl
  | append_singleton steps step ih =>
      rw [branches_concat, branches_concat, ← ih, extend, extend, List.map_append,
        List.getElem?_map]
      cases (branches narrow root steps)[step.source]? with
      | none => rfl
      | some value => simp [commutes]

theorem prefix_extend (narrow : α → List Segment → α) (made : List α) (step : Narrowing) :
    made <+: extend narrow made step :=
  List.prefix_append _ _

/-- Later steps leave every value where it is. -/
theorem prefix_branches (narrow : α → List Segment → α) (root : α) (steps later : List Narrowing) :
    branches narrow root steps <+: branches narrow root (steps ++ later) := by
  induction later using List.reverseRecOn with
  | nil => rw [List.append_nil]
  | append_singleton later step ih =>
      rw [← List.append_assoc, branches_concat]
      exact ih.trans (prefix_extend narrow _ step)

end Narrowing

namespace Segment

theorem toExpr_injective : Function.Injective toExpr := by
  intro segment other same
  cases segment <;> cases other <;> cases same <;> rfl

end Segment

namespace Path

/-- The paths that a program makes by narrowing the empty path and what it has made of it. -/
def branches (steps : List Narrowing) : List Path :=
  Narrowing.branches narrow root steps

theorem map_segments_branches (steps : List Narrowing) :
    (branches steps).map segments = Narrowing.branches (· ++ ·) [] steps :=
  Narrowing.map_branches segments_narrow root steps

theorem size_of_mem_branches {steps : List Narrowing} {path : Path}
    (member : path ∈ branches steps) : path.size = path.segments.length := by
  have sizes : (branches steps).map size =
      Narrowing.branches (fun count added => count + added.length) 0 steps :=
    Narrowing.map_branches size_narrow root steps
  have lengths : (branches steps).map (List.length ∘ segments) =
      Narrowing.branches (fun count added => count + added.length) 0 steps := by
    rw [← List.map_map, map_segments_branches]
    exact Narrowing.map_branches (fun _ _ => List.length_append) [] steps
  exact List.map_inj_left.mp (sizes.trans lengths.symm) path member

theorem narrow_narrow (path : Path) (added more : List Segment) :
    (path.narrow added).narrow more = path.narrow (added ++ more) :=
  List.foldl_append.symm

theorem same_iff_of_counted {path other : Path} (counted : path.size = path.segments.length)
    (counted' : other.size = other.segments.length) :
    path.same other = true ↔ path.segments = other.segments := by
  rw [same, Bool.and_eq_true, beq_iff_eq, beq_iff_eq, counted, counted']
  exact ⟨And.right, fun equal => ⟨congrArg List.length equal, equal⟩⟩

theorem legible_toExpr (path : Path) : path.toExpr.Legible := by
  have timely (segment : Segment) : segment.toExpr.Timely := by
    refine Expr.everywhere_iff.mpr ⟨fun value shape => ?_, ?_⟩
    · cases segment <;> cases shape <;> trivial
    · cases segment <;> exact List.forall_mem_nil _
  refine ⟨Shaped.path path, Expr.everywhere_iff.mpr ⟨fun value shape => ?_, ?_⟩⟩
  · cases shape
  · exact List.forall_mem_map.mpr fun segment _ => timely segment

theorem segments_of_compact_eq {path other : Path}
    (same : path.toExpr.compact = other.toExpr.compact) : path.segments = other.segments := by
  have exprs : path.toExpr = other.toExpr :=
    Expr.wire_injective path.legible_toExpr other.legible_toExpr
      (Expr.wire_eq_of_render_eq same)
  exact List.map_injective_iff.mpr Segment.toExpr_injective (Expr.array.inj exprs)

/-- Narrowing is appending, for every path of every tree of narrowings, and later narrowings leave
all paths as they are.  Paths are equal, and are sent as one text, just if their segments are the
same. -/
theorem narrowing_appends_and_is_sent_faithfully (steps steps' : List Narrowing) :
    (branches steps).map segments = Narrowing.branches (· ++ ·) [] steps ∧
      (∀ later, branches steps <+: branches (steps ++ later)) ∧
      (∀ path ∈ branches steps,
        path.size = path.segments.length ∧ (path.isEmpty = true ↔ path.segments = []) ∧
        ∀ added more, (path.narrow added).segments = path.segments ++ added ∧
          ((path.narrow added).narrow more).same (path.narrow (added ++ more)) = true) ∧
      ∀ path ∈ branches steps, ∀ other ∈ branches steps',
        (path.same other = true ↔ path.segments = other.segments) ∧
        (path.segments = other.segments ↔ path.toExpr.compact = other.toExpr.compact) := by
  refine ⟨map_segments_branches steps, Narrowing.prefix_branches narrow root steps,
    fun path member => ?_, fun path member other member' => ?_⟩
  · have counted := size_of_mem_branches member
    refine ⟨counted, ?_, fun added more => ⟨segments_narrow path added, ?_⟩⟩
    · rw [isEmpty, beq_iff_eq, counted, List.length_eq_zero_iff]
    · rw [narrow_narrow]
      simp [same]
  · refine ⟨same_iff_of_counted (size_of_mem_branches member) (size_of_mem_branches member'),
      fun equal => ?_, segments_of_compact_eq⟩
    rw [toExpr, equal, toExpr]

/-- Two paths narrowed from one, by a name that is written with a digit and by an index. -/
def fork : List Narrowing :=
  [⟨0, [.field "items"]⟩, ⟨1, [.field "0"]⟩, ⟨1, [.index 0]⟩]

theorem narrowing_appends_and_is_sent_faithfully_fork :
    ofSegments [.field "items", .field "0"] ∈ branches fork ∧
      ofSegments [.field "items", .index 0] ∈ branches fork ∧
      (ofSegments [.field "items", .field "0"]).same (ofSegments [.field "items", .index 0]) =
        false ∧
      (ofSegments [.field "items", .field "0"]).toExpr.compact ≠
        (ofSegments [.field "items", .index 0]).toExpr.compact := by
  have named : ofSegments [.field "items", .field "0"] ∈ branches fork :=
    List.mem_of_getElem? (show (branches fork)[2]? = some _ from rfl)
  have indexed : ofSegments [.field "items", .index 0] ∈ branches fork :=
    List.mem_of_getElem? (show (branches fork)[3]? = some _ from rfl)
  have apart : (ofSegments [.field "items", .field "0"]).segments ≠
      (ofSegments [.field "items", .index 0]).segments := by decide
  obtain ⟨-, -, -, tells⟩ := narrowing_appends_and_is_sent_faithfully fork fork
  obtain ⟨equal, sent⟩ := tells _ named _ indexed
  exact ⟨named, indexed, Bool.eq_false_iff.mpr (mt equal.mp apart), mt sent.mpr apart⟩

end Path

end QueryWire
