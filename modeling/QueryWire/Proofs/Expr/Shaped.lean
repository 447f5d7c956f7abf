import QueryWire.Proofs.Calendar.Instant
import QueryWire.Proofs.Host.Compositional

namespace QueryWire

namespace Value

/-- What the wire asks of a value: a double is finite, a reference has a name. -/
def Sendable : Value → Prop
  | .double x => x.isFinite = true
  | .reference id => id ≠ ""
  | _ => True

theorem Made.sendable {value : Value} (made : value.Made) : value.Sendable := by
  obtain ⟨source, found⟩ := made
  cases source with
  | null | string | long | boolean | localTime | date | bytes =>
      cases found
      trivial
  | double x =>
      simp only [Literal.toValue, ofDouble] at found
      split at found
      · cases found
        assumption
      · cases found
  | timeText text =>
      simp only [Literal.toValue, readTime] at found
      split at found <;> cases found
      trivial
  | dateText text =>
      simp only [Literal.toValue, readDate] at found
      split at found <;> cases found
      trivial
  | bytesText text =>
      simp only [Literal.toValue, readBytes] at found
      split at found <;> cases found
      trivial
  | reference id =>
      simp only [Literal.toValue, ofReference] at found
      split at found <;> cases found
      assumption

theorem Sendable.made {value : Value} (sendable : value.Sendable) : value.Made := by
  cases value with
  | null => exact ⟨.null, rfl⟩
  | string text => exact ⟨.string text, rfl⟩
  | long n => exact ⟨.long n, rfl⟩
  | double x => exact ⟨.double x, if_pos sendable⟩
  | boolean on => exact ⟨.boolean on, rfl⟩
  | time time =>
      have bounds : -Calendar.secondsPerDay < (0 : Int) ∧ (0 : Int) < Calendar.secondsPerDay := by
        decide
      have unmoved := time.toUtc?_zero bounds
      refine ⟨.localTime ⟨time, ⟨0, bounds⟩, by rw [unmoved]; rfl⟩, ?_⟩
      exact congrArg (fun moment => Except.ok (Value.time moment)) (Option.get_of_eq_some _ unmoved)
  | date day => exact ⟨.date day, rfl⟩
  | bytes content => exact ⟨.bytes content, rfl⟩
  | reference id => exact ⟨.reference id, if_neg sendable⟩

end Value

inductive Shaped (free : String → Prop) (given : Expr → Prop) : Expr → Prop where
  | given {expr : Expr} (held : given expr) : Shaped free given expr
  | literal {value : Value} (sendable : value.Sendable) : Shaped free given (.literal value)
  | array {items : List Expr} (each : ∀ item ∈ items, Shaped free given item) :
      Shaped free given (.array items)
  | call {name : String} {argument : Expr} {others : List (String × Expr)}
      (allowed : free name) (first : Shaped free given argument)
      (each : ∀ field ∈ others, Shaped free given field.2) :
      Shaped free given (.call name argument others)
  | wrapped {members : List (String × Expr)} (distinct : (Members.names members).Nodup)
      (each : ∀ member ∈ members, Shaped free given member.2) :
      Shaped free given (.call "object" (.object members) [])
  | bound {members : List (String × Expr)} {body : Expr}
      (distinct : (Members.names members).Nodup)
      (each : ∀ member ∈ members, Shaped free given member.2)
      (visible : Shaped free given body) :
      Shaped free given (.call "let" (.object members) [("in", body)])

/-- The names that the query functions themselves write are free. -/
structure AllowsFunctions (free : String → Prop) : Prop where
  nullary : ∀ function : Nullary, free function.name
  unary : ∀ function : Unary, free function.name
  binary : ∀ function : Binary, free function.fields.1
  ternary : ∀ function : Ternary, free function.fields.1
  quaternary : ∀ function : Quaternary, free function.fields.1
  variadic : ∀ function : Variadic, free function.name
  iteration : ∀ function : Iteration, free function.name
  other : ∀ name ∈ ["var", "do", "call", "paginate"], free name

namespace Binding

/-- A binding that still collects is as if made of all pairs at once. -/
theorem bindAll_ofPairs (pairs more : List (String × Expr)) :
    (ofPairs pairs).bindAll more = .ok (ofPairs (pairs ++ more)) := by
  suffices all : ∀ members, (collecting members).bindAll more =
      .ok (.collecting (Members.putAll members more)) by
    rw [ofPairs, all, Members.putAll_ofPairs, ofPairs]
  induction more with
  | nil => exact fun members => rfl
  | cons pair more ih => exact fun members => ih (Members.put pair.1 pair.2 members)

end Binding

namespace Shaped

variable {free : String → Prop} {given : Expr → Prop}

theorem oneOrMany {items : List Expr} (each : ∀ item ∈ items, Shaped free given item) :
    Shaped free given (.oneOrMany items) := by
  match items with
  | [] => exact .array each
  | [single] => exact each single List.mem_cons_self
  | _ :: _ :: _ => exact .array each

theorem ofPairs {pairs : List (String × Expr)} (each : ∀ pair ∈ pairs, Shaped free given pair.2) :
    Shaped free given (.ofPairs pairs) :=
  .wrapped (Members.nodup_names_ofPairs pairs) fun member inside =>
    each member (Members.mem_of_mem_ofPairs inside)

theorem text (text : String) : Shaped free given (.text text) :=
  .literal trivial

theorem path (path : Path) : Shaped free given path.toExpr := by
  refine .array fun item member => ?_
  obtain ⟨segment, -, rfl⟩ := List.mem_map.mp member
  cases segment <;> exact .literal trivial

theorem compositional {known : List String} :
    Compositional known fun expr (_ : Expr) => Shaped free given expr where
  value supplied := .literal supplied.made.sendable
  array each := .array (List.forall_mem_map.mpr each)
  ofPairs each := .ofPairs (List.forall_mem_map.mpr each)

theorem host {host : Host Value Expr} {expr : Expr} (values : ∀ value ∈ host.values, value.Made)
    (exprs : ∀ leaf ∈ host.exprs, Shaped free given leaf) (encoded : host.encode = .ok expr) :
    Shaped free given expr :=
  compositional.holds_encode ⟨List.Subset.refl _, values, exprs⟩ encoded

theorem pagination {resource : Expr} {settings : List (Setting Expr)}
    (allowed : free "paginate") (source : Shaped free given resource)
    (each : ∀ setting ∈ settings, ∀ value ∈ setting.value?, Shaped free given value) :
    Shaped free given (settings.foldl Pagination.set (Pagination.ofResource resource)).toExpr := by
  have holds := Pagination.holds_settings source each
  rw [Pagination.toExpr_eq]
  exact .call allowed holds.resource (holds.entries (.literal trivial))

theorem letIn {pairs more : List (String × Expr)} {binding : Binding} {body expr : Expr}
    (each : ∀ pair ∈ pairs, Shaped free given pair.2)
    (eachLater : ∀ pair ∈ more, Shaped free given pair.2)
    (bound : (Binding.ofPairs pairs).bindAll more = .ok binding)
    (visible : Shaped free given body) (closed : binding.toExpr body = .ok expr) :
    Shaped free given expr := by
  rw [Binding.bindAll_ofPairs] at bound
  cases bound
  cases closed
  refine .bound (Members.nodup_names_ofPairs (pairs ++ more)) (fun member inside => ?_) visible
  rcases List.mem_append.mp (Members.mem_of_mem_ofPairs inside) with earlier | later
  · exact each member earlier
  · exact eachLater member later

/-- Whatever is obtained has one of the shapes, if the parts that a program reads
out of such an expression have them as well. -/
theorem of_obtainable {surface : Surface} (functions : AllowsFunctions surface.free)
    (parts : ∀ {whole part : Expr}, Shaped surface.free given whole → Visible whole part →
      surface.reads part → Shaped surface.free given part)
    {expr : Expr} (obtained : Obtainable surface expr) : Shaped surface.free given expr := by
  induction obtained with
  | literal made => exact .literal made.sendable
  | variableNamed name =>
      exact .call (functions.other "var" (by simp)) (.text name) (by simp)
  | array _ each => exact .array each
  | oneOrMany _ each => exact .oneOrMany each
  | ofPairs _ each => exact .ofPairs each
  | path segments => exact .path segments
  | encode values _ encoded exprs => exact .host values exprs encoded
  | nullary function => exact .call (functions.nullary function) (.literal trivial) (by simp)
  | unary function _ first => exact .call (functions.unary function) first (by simp)
  | binary function _ _ first next =>
      exact .call (functions.binary function) first (by simpa using next)
  | ternary function _ _ _ first next last =>
      exact .call (functions.ternary function) first (by simpa using ⟨next, last⟩)
  | quaternary function _ _ _ _ first next later last =>
      exact .call (functions.quaternary function) first (by simpa using ⟨next, later, last⟩)
  | variadic function _ each =>
      exact .call (functions.variadic function) (.oneOrMany each) (by simp)
  | sequence _ each =>
      exact .call (functions.other "do" (by simp)) (.array each) (by simp)
  | invoke _ _ first each =>
      exact .call (functions.other "call" (by simp)) first (by simpa using oneOrMany each)
  | iterate function _ _ source lambda =>
      exact .call (functions.iteration function) lambda (by simpa using source)
  | call allowed _ _ first each => exact .call allowed first each
  | letIn _ _ bound _ closed each eachLater visible =>
      exact .letIn each eachLater bound visible closed
  | paginate _ _ source each =>
      exact .pagination (functions.other "paginate" (by simp)) source each
  | read _ seen allowed whole => exact parts whole seen allowed

/-- Every expression of these shapes can be constructed from the given ones. -/
theorem obtainable {surface : Surface} (available : ∀ expr, given expr → Obtainable surface expr)
    {expr : Expr} (shaped : Shaped surface.free given expr) : Obtainable surface expr := by
  induction shaped with
  | given held => exact available _ held
  | literal sendable => exact .literal sendable.made
  | array _ each => exact .array each
  | call allowed _ _ first each => exact .call allowed first each
  | wrapped distinct _ each =>
      have constructed := Obtainable.ofPairs each
      rwa [Expr.ofPairs, Members.ofPairs_of_nodup distinct] at constructed
  | bound distinct _ _ each visible =>
      exact .letIn each (List.forall_mem_nil _) rfl visible
        (by rw [Binding.ofPairs, Members.ofPairs_of_nodup distinct]; rfl)

end Shaped

end QueryWire
