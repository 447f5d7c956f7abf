import Mathlib.Data.List.Forall2
import QueryWire.Expr.Equality
import QueryWire.Proofs.Expr.Lossless
import QueryWire.Request

namespace QueryWire

namespace Value

theorem eq_of_same {value other : Value} (equal : value.same other = true)
    (zeros : ∀ x y, value = .double x → other = .double y → x.isZero = true →
      y.isZero = true → x.isNegative = y.isNegative) : value = other := by
  cases value with
  | double x =>
      cases other with
      | double y =>
          simp only [same, Decimal.Binary64.same, Bool.and_eq_true, Bool.or_eq_true] at equal
          obtain ⟨-, alike | ⟨zero, zero'⟩⟩ := equal
          · exact congrArg double (eq_of_beq alike)
          · have magnitudes : x.magnitude = y.magnitude :=
              (of_decide_eq_true zero).trans (of_decide_eq_true zero').symm
            exact congrArg double
              (Decimal.Binary64.eq_of_magnitude (zeros x y rfl rfl zero zero') magnitudes)
      | _ => exact eq_of_beq equal
  | _ => exact eq_of_beq equal

end Value

namespace Expr

theorem sameItems_iff {items others : List Expr} :
    sameItems items others = true ↔
      List.Forall₂ (fun item other => item.same other = true) items others := by
  induction items generalizing others with
  | nil => cases others <;> simp [sameItems]
  | cons item items ih => cases others <;> simp [sameItems, ih]

theorem sameFields_iff {fields others : List (String × Expr)} :
    sameFields fields others = true ↔
      Members.names fields = Members.names others ∧
        List.Forall₂ (fun value other => value.same other = true) (fields.map Prod.snd)
          (others.map Prod.snd) := by
  induction fields generalizing others with
  | nil => cases others <;> simp [sameFields, Members.names]
  | cons field fields ih =>
      cases others with
      | nil => simp [sameFields, Members.names]
      | cons other others =>
          simp only [sameFields, Bool.and_eq_true, beq_iff_eq, ih, Members.names, List.map_cons,
            List.cons.injEq, List.forall₂_cons]
          tauto

theorem fields_ext {fields others : List (String × Expr)}
    (names : Members.names fields = Members.names others)
    (values : fields.map Prod.snd = others.map Prod.snd) : fields = others := by
  have whole : others = (Members.names others).zip (others.map Prod.snd) := List.zip_of_prod rfl rfl
  rw [whole]
  exact List.zip_of_prod names values

/-- Two nodes that differ at most in their children, or are equal literals. -/
inductive SameNode : Expr → Expr → Prop where
  | literal {value other : Value} (equal : value.same other = true) :
      SameNode (.literal value) (.literal other)
  | call {name : String} {argument argument' : Expr} {others others' : List (String × Expr)}
      (names : Members.names others = Members.names others') :
      SameNode (.call name argument others) (.call name argument' others')
  | array (items items' : List Expr) : SameNode (.array items) (.array items')
  | object {members members' : List (String × Expr)}
      (names : Members.names members = Members.names members') :
      SameNode (.object members) (.object members')

theorem same_iff {expr other : Expr} :
    expr.same other = true ↔
      SameNode expr other ∧
        List.Forall₂ (fun child other => child.same other = true) expr.children other.children := by
  constructor
  · intro equal
    cases expr <;> cases other <;> try cases equal
    case literal.literal => exact ⟨.literal equal, .nil⟩
    case call.call =>
      simp only [same, Bool.and_eq_true, beq_iff_eq] at equal
      obtain ⟨⟨rfl, first⟩, later⟩ := equal
      obtain ⟨names, values⟩ := sameFields_iff.mp later
      exact ⟨.call names, .cons first values⟩
    case array.array => exact ⟨.array _ _, sameItems_iff.mp equal⟩
    case object.object =>
      obtain ⟨names, values⟩ := sameFields_iff.mp equal
      exact ⟨.object names, values⟩
  · rintro ⟨node, below⟩
    cases node with
    | literal equal => exact equal
    | call names =>
        obtain ⟨first, values⟩ := List.forall₂_cons.mp below
        simp [same, first, sameFields_iff.mpr ⟨names, values⟩]
    | array => exact sameItems_iff.mpr below
    | object names => exact sameFields_iff.mpr ⟨names, below⟩

theorem SameNode.eq_of_children {expr other : Expr} (node : SameNode expr other)
    (leaves : ∀ value held, expr = .literal value → other = .literal held → value = held)
    (below : expr.children = other.children) : expr = other := by
  cases node with
  | literal => exact congrArg Expr.literal (leaves _ _ rfl rfl)
  | call names =>
      obtain ⟨rfl, values⟩ := List.cons.inj below
      rw [fields_ext names values]
  | array => exact congrArg Expr.array below
  | object names => exact congrArg Expr.object (fields_ext names below)

/-- No place holds a positive zero in one of the expressions and a negative zero in the
other. -/
def ZerosAgree (expr other : Expr) : Prop :=
  ∀ place x y, expr.at? place = some (.literal (.double x)) →
    other.at? place = some (.literal (.double y)) → x.isZero = true → y.isZero = true →
    x.isNegative = y.isNegative

theorem ZerosAgree.child {expr other : Expr} (agree : ZerosAgree expr other) {index : Nat}
    {child child' : Expr} (present : expr.children[index]? = some child)
    (present' : other.children[index]? = some child') : ZerosAgree child child' :=
  fun place x y found found' =>
    agree (index :: place) x y (by simpa [at?, present] using found)
      (by simpa [at?, present'] using found')

theorem eq_of_zerosAgree {expr other : Expr} (equal : expr.same other = true)
    (agree : ZerosAgree expr other) : expr = other := by
  induction expr using induction_children generalizing other with
  | step expr ih =>
  obtain ⟨node, alike⟩ := same_iff.mp equal
  refine node.eq_of_children ?_ ?_
  · rintro value held rfl rfl
    refine Value.eq_of_same equal ?_
    rintro x y rfl rfl
    exact agree [] x y rfl rfl
  · refine List.ext_getElem alike.length_eq fun index bound bound' => ?_
    exact ih _ (List.getElem_mem bound) (alike.get bound bound')
      (agree.child (List.getElem?_eq_getElem bound) (List.getElem?_eq_getElem bound'))

theorem map_snd_wireFields (fields : List (String × Expr)) :
    (wireFields fields).map Prod.snd = (fields.map Prod.snd).map wire := by
  simp [wireFields_eq_map, Function.comp_def]

/-- The wire form of a node holds the wire forms of its children. -/
theorem SameNode.children_wire {expr other : Expr} (node : SameNode expr other)
    (wires : expr.wire = other.wire) : expr.children.map wire = other.children.map wire := by
  cases node with
  | literal => rfl
  | call =>
      have values := congrArg (List.map Prod.snd) (Json.object.inj wires)
      simpa only [children, List.map_cons, map_snd_wireFields] using values
  | array => simpa only [children, wireItems_eq_map] using Json.array.inj wires
  | object =>
      have values := congrArg (List.map Prod.snd) (Json.object.inj wires)
      simpa only [children, map_snd_wireFields] using values

theorem zerosAgree_of_wire_eq {expr other : Expr} (equal : expr.same other = true)
    (wires : expr.wire = other.wire) : ZerosAgree expr other := by
  intro place
  -- What is handed down to the children is both: that they are equal, and that their wire
  -- forms are.
  induction place generalizing expr other with
  | nil =>
      rintro x y ⟨⟩ ⟨⟩ zero zero'
      rw [wire, wire, Value.wire_double (Decimal.Binary64.isFinite_of_isZero zero),
        Value.wire_double (Decimal.Binary64.isFinite_of_isZero zero')] at wires
      cases wires
      rfl
  | cons index place ih =>
      intro x y found found'
      obtain ⟨child, present, deeper⟩ := Option.bind_eq_some_iff.mp found
      obtain ⟨child', present', deeper'⟩ := Option.bind_eq_some_iff.mp found'
      obtain ⟨bound, rfl⟩ := List.getElem?_eq_some_iff.mp present
      obtain ⟨bound', rfl⟩ := List.getElem?_eq_some_iff.mp present'
      obtain ⟨node, alike⟩ := same_iff.mp equal
      have below : (expr.children.map wire)[index]? = (other.children.map wire)[index]? :=
        congrArg (·[index]?) (node.children_wire wires)
      rw [List.getElem?_map, List.getElem?_map, present, present'] at below
      exact ih (alike.get bound bound') (Option.some.inj below) x y deeper deeper'

theorem render_eq_iff_zerosAgree {expr other : Expr} (layout : Layout)
    (equal : expr.same other = true) :
    expr.render layout = other.render layout ↔ ZerosAgree expr other := by
  constructor
  · exact fun texts => zerosAgree_of_wire_eq equal (wire_eq_of_render_eq texts)
  · intro agree
    rw [eq_of_zerosAgree equal agree]

/-- Equal expressions have one text, and their requests one body, unless somewhere a positive
zero is in the place of a negative one. -/
theorem equal_rendered_alike_iff {expr other : Expr} (equal : expr.same other = true) :
    (expr.compact = other.compact ↔ ZerosAgree expr other) ∧
      ∀ layout, (Request.prepare layout expr).body = (Request.prepare layout other).body ↔
        ZerosAgree expr other :=
  ⟨render_eq_iff_zerosAgree .compact equal, fun layout => render_eq_iff_zerosAgree layout equal⟩

/-- A double beside a long, inside an object. -/
def listed (x : Decimal.Binary64) : Expr :=
  .ofPairs [("a", .array [.long 0, .literal (.double x)])]

theorem equal_rendered_alike_iff_listed :
    (listed ⟨0⟩).same (listed ⟨0x8000000000000000⟩) = true ∧
      (listed ⟨0⟩).compact ≠ (listed ⟨0x8000000000000000⟩).compact ∧
      ∀ layout, (Request.prepare layout (listed ⟨0⟩)).body ≠
        (Request.prepare layout (listed ⟨0x8000000000000000⟩)).body := by
  have equal : (listed ⟨0⟩).same (listed ⟨0x8000000000000000⟩) = true := by decide
  obtain ⟨texts, bodies⟩ := equal_rendered_alike_iff equal
  have apart : ¬ ZerosAgree (listed ⟨0⟩) (listed ⟨0x8000000000000000⟩) := fun agree =>
    absurd (agree [0, 0, 1] _ _ rfl rfl rfl rfl) (by decide)
  exact ⟨equal, mt texts.mp apart, fun layout => mt (bodies layout).mp apart⟩

def zero : Expr := .literal (.double ⟨0⟩)

def minusZero : Expr := .literal (.double ⟨0x8000000000000000⟩)

/-- The two zeros are equal literals with different texts. -/
theorem equal_zeros_written_apart :
    Obtainable .constructors zero ∧ Obtainable .constructors minusZero ∧
      zero.same minusZero = true ∧ zero.compact = "0.0" ∧ minusZero.compact = "-0.0" ∧
      zero.compact ≠ minusZero.compact ∧
      (Request.prepare .compact zero).body ≠ (Request.prepare .compact minusZero).body := by
  have made {x : Decimal.Binary64} (finite : x.isFinite = true) :
      Obtainable .constructors (.literal (.double x)) :=
    .literal (Value.Sendable.made finite)
  have text : zero.compact = "0.0" := rfl
  have text' : minusZero.compact = "-0.0" := rfl
  have apart : zero.compact ≠ minusZero.compact := by
    rw [text, text']
    decide
  exact ⟨made (by decide), made (by decide), by decide, text, text', apart, apart⟩

end Expr

end QueryWire
