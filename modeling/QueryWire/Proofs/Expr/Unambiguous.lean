import QueryWire.Proofs.Calendar.Rfc3339
import QueryWire.Proofs.Expr.Lossless
import QueryWire.Proofs.Text.Base64

namespace QueryWire

/-! # Unambiguous wire texts

A text that is sent belongs to one expression only, as long as no call of the
general call builder takes a name that a reserved call or a tagged literal has,
and every leap second stands at the end of a minute.  All other names and keys
may be of any kind.

The first name of a JSON object tells which of the five shapes it was written
for.  With the shape known, the parts of the object are those of the expression.
-/

namespace Value

def tags : List String := ["@ts", "@date", "@bytes", "@ref"]

/-- A time whose text no other time has. -/
def Timely : Value → Prop
  | .time moment => moment.LeapAtMinuteEnd
  | _ => True

theorem tagged_injective {tag tag' : String} {text text' : List Char}
    (same : tagged tag text = tagged tag' text') : tag = tag' ∧ text = text' := by
  have member := (List.cons.inj (Json.object.inj same)).1
  obtain ⟨tags, texts⟩ := Prod.mk.inj member
  exact ⟨tags, String.ofList_injective (Json.string.inj texts)⟩

theorem eq_double_of_wire {value : Value} {x : Decimal.Binary64}
    (same : value.wire = .number (.double x)) : value = .double x := by
  cases value with
  | double y =>
      rw [wire] at same
      split at same <;> cases same
      rfl
  | _ => cases same

theorem wire_injective {value other : Value} (sendable : value.Sendable)
    (sendable' : other.Sendable) (timely : value.Timely) (timely' : other.Timely)
    (same : value.wire = other.wire) : value = other := by
  -- What has the wire form of a finite double is that double, whichever side it stands on.
  by_cases double' : ∃ y, other = .double y
  · obtain ⟨y, rfl⟩ := double'
    exact eq_double_of_wire (same.trans (wire_double sendable'))
  cases value with
  | double x => exact (eq_double_of_wire (same.symm.trans (wire_double sendable))).symm
  | null => cases other with
    | null => rfl
    | double y => exact absurd ⟨y, rfl⟩ double'
    | _ => cases same
  | string text => cases other with
    | string text' => rw [Json.string.inj same]
    | double y => exact absurd ⟨y, rfl⟩ double'
    | _ => cases same
  | boolean on => cases other with
    | boolean on' => rw [Json.boolean.inj same]
    | double y => exact absurd ⟨y, rfl⟩ double'
    | _ => cases same
  | long n => cases other with
    | long m =>
        have integers := Number.integer.inj (Json.number.inj same)
        rw [Int64.toInt_inj.mp (congrArg Integer64.value integers)]
    | double y => exact absurd ⟨y, rfl⟩ double'
    | _ => cases same
  | time moment => cases other with
    | time moment' =>
        rw [Calendar.Timestamp.text_injective timely timely' (tagged_injective same).2]
    | date _ | bytes _ | reference _ => exact absurd (tagged_injective same).1 (by decide)
    | double y => exact absurd ⟨y, rfl⟩ double'
    | _ => cases same
  | date day => cases other with
    | date day' => rw [Calendar.Date.text_injective (tagged_injective same).2]
    | time _ | bytes _ | reference _ => exact absurd (tagged_injective same).1 (by decide)
    | double y => exact absurd ⟨y, rfl⟩ double'
    | _ => cases same
  | bytes content => cases other with
    | bytes content' => rw [Text.Base64.encode_injective (tagged_injective same).2]
    | time _ | date _ | reference _ => exact absurd (tagged_injective same).1 (by decide)
    | double y => exact absurd ⟨y, rfl⟩ double'
    | _ => cases same
  | reference id => cases other with
    | reference id' => rw [String.toList_injective (tagged_injective same).2]
    | time _ | date _ | bytes _ => exact absurd (tagged_injective same).1 (by decide)
    | double y => exact absurd ⟨y, rfl⟩ double'
    | _ => cases same

end Value

namespace Expr

/-- The names that a call of the general call builder may not start with. -/
def reserved : List String := "object" :: "let" :: Value.tags

/-- All constructors, where the general call builder leaves the reserved names alone. -/
def unreserved : Surface := ⟨fun name => name ∉ reserved, fun _ => False⟩

instance : DecidablePred unreserved.free := fun name =>
  inferInstanceAs (Decidable (name ∉ reserved))

/-- Every leap second in the expression stands at the end of a minute. -/
def Timely (expr : Expr) : Prop :=
  expr.Everywhere fun node => ∀ value, node.asLiteral? = some value → value.Timely

structure WireSafe (expr : Expr) : Prop where
  constructed : Obtainable unreserved expr
  timely : expr.Timely

theorem allowsFunctions_unreserved : AllowsFunctions unreserved.free where
  nullary function := by cases function <;> decide
  unary function := by cases function <;> decide
  binary function := by cases function <;> decide
  ternary function := by cases function <;> decide
  quaternary function := by cases function <;> decide
  variadic function := by cases function <;> decide
  iteration function := by cases function <;> decide
  other := by decide

/-- What a JSON tree was written for. -/
inductive WireForm where
  | leaf | list | plain | wrapper | binding

namespace WireForm

def of : Json Number → WireForm
  | .array _ => .list
  | .object ((name, _) :: _) =>
      if name = "object" then .wrapper
      else if name = "let" then .binding
      else if name ∈ Value.tags then .leaf
      else .plain
  | _ => .leaf

theorem of_value (value : Value) : of value.wire = .leaf := by
  cases value with
  | double x =>
      rw [Value.wire]
      split <;> rfl
  | _ => rfl

theorem of_call {name : String} (allowed : unreserved.free name) (argument : Expr)
    (others : List (String × Expr)) : of (wire (.call name argument others)) = .plain := by
  have names : name ≠ "object" ∧ name ≠ "let" ∧ name ∉ Value.tags := by
    simpa [unreserved, reserved] using allowed
  rw [wire, of, if_neg names.1, if_neg names.2.1, if_neg names.2.2]

end WireForm

/-- A part of a wire-safe expression. -/
structure Legible (expr : Expr) : Prop where
  shaped : Shaped unreserved.free (fun _ => False) expr
  timely : expr.Timely

/-- An expression that was written in the given form, with legible parts. -/
def HasForm (expr : Expr) : WireForm → Prop
  | .leaf => ∃ value, expr = .literal value ∧ value.Sendable ∧ value.Timely
  | .list => ∃ items, expr = .array items ∧ ∀ item ∈ items, item.Legible
  | .plain => ∃ name argument others, expr = .call name argument others ∧
      argument.Legible ∧ ∀ field ∈ others, field.2.Legible
  | .wrapper => ∃ members, expr = .call "object" (.object members) [] ∧
      ∀ member ∈ members, member.2.Legible
  | .binding => ∃ members body, expr = .call "let" (.object members) [("in", body)] ∧
      (∀ member ∈ members, member.2.Legible) ∧ body.Legible

theorem Legible.hasForm {expr : Expr} (legible : expr.Legible) :
    expr.HasForm (.of expr.wire) := by
  obtain ⟨shaped, timely⟩ := legible
  have inside {child : Expr} (member : child ∈ expr.children) : child.Timely :=
    timely.child member
  cases shaped with
  | given held => exact held.elim
  | @literal value sendable =>
      rw [wire, WireForm.of_value]
      exact ⟨value, rfl, sendable, timely.root value rfl⟩
  | @array items each => exact ⟨items, rfl, fun item member => ⟨each item member, inside member⟩⟩
  | @call name argument others allowed first each =>
      rw [WireForm.of_call allowed]
      refine ⟨name, argument, others, rfl, ⟨first, inside List.mem_cons_self⟩,
        fun field member => ⟨each field member, inside ?_⟩⟩
      exact List.mem_cons_of_mem _ (List.mem_map_of_mem member)
  | @wrapped members _ each =>
      exact ⟨members, rfl, fun member present =>
        ⟨each member present, (inside List.mem_cons_self).child (List.mem_map_of_mem present)⟩⟩
  | @bound members body _ each visible =>
      exact ⟨members, body, rfl, fun member present =>
        ⟨each member present, (inside List.mem_cons_self).child (List.mem_map_of_mem present)⟩,
        visible, inside (List.mem_cons_of_mem _ List.mem_cons_self)⟩

theorem fields_injective {fields others : List (String × Expr)}
    (injective : ∀ field ∈ fields, ∀ other ∈ others,
      field.2.wire = other.2.wire → field.2 = other.2)
    (same : wireFields fields = wireFields others) : fields = others := by
  rw [wireFields_eq_map, wireFields_eq_map] at same
  refine Json.eq_of_map_eq (fun field member other inside alike => ?_) same
  exact Prod.ext (Prod.mk.inj alike).1 (injective field member other inside (Prod.mk.inj alike).2)

theorem wire_injective {expr other : Expr} (legible : expr.Legible) (legible' : other.Legible)
    (same : expr.wire = other.wire) : expr = other := by
  obtain ⟨shaped, timely⟩ := legible
  induction shaped generalizing other with
  | given held => exact held.elim
  | @literal value sendable =>
      have form := legible'.hasForm
      rw [← same, wire, WireForm.of_value] at form
      obtain ⟨value', rfl, sendable', timely'⟩ := form
      rw [Value.wire_injective sendable sendable' (timely.root value rfl) timely' same]
  | @array items _ ih =>
      have form := legible'.hasForm
      rw [← same] at form
      obtain ⟨items', rfl, each'⟩ := form
      have texts := Json.array.inj same
      rw [wireItems_eq_map, wireItems_eq_map] at texts
      rw [Json.eq_of_map_eq (fun item member item' member' alike => ?_) texts]
      exact ih item member (each' item' member') alike (timely.child member)
  | @call name argument others allowed _ _ first ih =>
      have form := legible'.hasForm
      rw [← same, WireForm.of_call allowed] at form
      obtain ⟨name', argument', others', rfl, first', each'⟩ := form
      obtain ⟨head, rest⟩ := List.cons.inj (Json.object.inj same)
      obtain ⟨rfl, arguments⟩ := Prod.mk.inj head
      rw [first first' arguments (timely.child List.mem_cons_self),
        fields_injective (fun field member field' member' alike => ?_) rest]
      refine ih field member (each' field' member') alike (timely.child ?_)
      exact List.mem_cons_of_mem _ (List.mem_map_of_mem member)
  | @wrapped members _ _ ih =>
      have form := legible'.hasForm
      rw [← same] at form
      obtain ⟨members', rfl, each'⟩ := form
      have fields := (Prod.mk.inj (List.cons.inj (Json.object.inj same)).1).2
      rw [fields_injective (fun member present member' present' alike => ?_)
        (Json.object.inj fields)]
      exact ih member present (each' member' present') alike
        ((timely.child List.mem_cons_self).child (List.mem_map_of_mem present))
  | @bound members body _ _ _ ih visible =>
      have form := legible'.hasForm
      rw [← same] at form
      obtain ⟨members', body', rfl, each', visible'⟩ := form
      obtain ⟨head, rest⟩ := List.cons.inj (Json.object.inj same)
      have bodies := (Prod.mk.inj (List.cons.inj rest).1).2
      rw [visible visible' bodies (timely.child (List.mem_cons_of_mem _ List.mem_cons_self)),
        fields_injective (fun member present member' present' alike => ?_)
          (Json.object.inj (Prod.mk.inj head).2)]
      exact ih member present (each' member' present') alike
        ((timely.child List.mem_cons_self).child (List.mem_map_of_mem present))

theorem WireSafe.legible {expr : Expr} (safe : expr.WireSafe) : expr.Legible :=
  ⟨Shaped.of_obtainable allowsFunctions_unreserved (fun _ _ => False.elim) safe.constructed,
    safe.timely⟩

/-- Two wire-safe expressions with one text are one expression. -/
theorem compact_injective {expr other : Expr} (safe : expr.WireSafe) (safe' : other.WireSafe)
    (same : expr.compact = other.compact) : expr = other :=
  wire_injective safe.legible safe'.legible (wire_eq_of_render_eq same)

/-- A call that repeats a reserved name behind its first field. -/
def repeatingReserved : Expr := .call "add" (.long 1) [("object", .null), ("object", .boolean true)]

/-- The last nanosecond of a leap second at the end of a minute. -/
def leapSecond : Calendar.Timestamp :=
  ⟨⟨2016, 12, 31, by decide, by decide, by decide⟩, 86399, 1999999999, by decide, by decide⟩

/-- An object whose keys are the names of control forms and tags. -/
def controlNamedObject : Expr :=
  .ofPairs [("@ts", .text "2016-12-31"), ("let", repeatingReserved),
    ("object", .literal (.time leapSecond))]

/-- A map that is encoded as that object, with one of its keys inserted twice. -/
def controlNamedMap : Host Value Expr :=
  .map [("object", .value (.long 0)), ("let", .expr repeatingReserved),
    ("@ts", .string "2016-12-31"), ("object", .value (.time leapSecond))]

theorem compact_injective_control_named_object :
    ∃ expr, controlNamedMap.encode = .ok expr ∧ expr.WireSafe ∧ controlNamedObject.WireSafe ∧
      expr.compact = controlNamedObject.compact ∧ expr = controlNamedObject := by
  have leaf {value : Value} (sendable : value.Sendable) : Obtainable unreserved (.literal value) :=
    .literal sendable.made
  have call : Obtainable unreserved repeatingReserved := by
    refine .call (by decide) (leaf trivial) ?_
    simp only [List.forall_mem_cons]
    exact ⟨leaf trivial, leaf trivial, by simp⟩
  have paired : Obtainable unreserved controlNamedObject := by
    refine .ofPairs ?_
    simp only [List.forall_mem_cons]
    exact ⟨leaf trivial, call, leaf trivial, by simp⟩
  have encoded : Obtainable unreserved controlNamedObject := by
    refine @Obtainable.encode _ controlNamedMap _ (fun value member => ?_)
      (fun expr member => ?_) rfl
    · have leaves : value = .long 0 ∨ value = .time leapSecond := List.mem_pair.mp member
      rcases leaves with rfl | rfl <;> exact Value.Sendable.made trivial
    · rw [List.mem_singleton.mp (show expr ∈ [repeatingReserved] from member)]
      exact call
  have node {expr : Expr} (root : ∀ value, expr.asLiteral? = some value → value.Timely)
      (below : ∀ child ∈ expr.children, child.Timely) : expr.Timely :=
    everywhere_iff.mpr ⟨root, below⟩
  have punctual {value : Value} (timely : value.Timely) : (literal value).Timely :=
    node (by rintro _ ⟨⟩; exact timely) (by simp [children])
  have repeating : repeatingReserved.Timely := by
    refine node (by rintro _ ⟨⟩) ?_
    simp only [repeatingReserved, children, List.map_cons, List.map_nil, List.forall_mem_cons]
    exact ⟨punctual trivial, punctual trivial, punctual trivial, by simp⟩
  have timely : controlNamedObject.Timely := by
    have leap : leapSecond.LeapAtMinuteEnd := fun _ => rfl
    refine node (by rintro _ ⟨⟩) (List.forall_mem_singleton.mpr (node (by rintro _ ⟨⟩) ?_))
    change ∀ child ∈ [text "2016-12-31", repeatingReserved, literal (.time leapSecond)],
      child.Timely
    simp only [List.forall_mem_cons]
    exact ⟨punctual trivial, repeating, punctual leap, by simp⟩
  exact ⟨controlNamedObject, rfl, ⟨encoded, timely⟩, ⟨paired, timely⟩, rfl,
    compact_injective ⟨encoded, timely⟩ ⟨paired, timely⟩ rfl⟩

end Expr

end QueryWire
