import QueryWire.Expr.Wire
import QueryWire.Proofs.Expr.WellFormed
import QueryWire.Proofs.Json.RoundTrip

namespace QueryWire

theorem Value.wire_double {x : Decimal.Binary64} (finite : x.isFinite = true) :
    (double x).wire = .number (.double x) :=
  if_pos finite

theorem Value.finite_wire (value : Value) : value.wire.Each Number.Finite := by
  have tagged (tag : String) (text : List Char) : (tagged tag text).Each Number.Finite := by
    refine .object fun member inside => ?_
    rw [List.mem_singleton.mp inside]
    exact .string _
  cases value with
  | null => exact .null
  | string text => exact .string text
  | long n => exact .number trivial
  | double x =>
      rw [wire]
      split
      · rename_i finite
        exact .number finite
      · exact .null
  | boolean on => exact .boolean on
  | time moment => exact tagged _ _
  | date day => exact tagged _ _
  | bytes content => exact tagged _ _
  | reference id => exact tagged _ _

namespace Expr

def FiniteNode (node : Expr) : Prop :=
  ∀ x, node.asLiteral? = some (.double x) → x.isFinite = true

/-- Every double in the expression is finite. -/
def Finite (expr : Expr) : Prop := expr.Everywhere FiniteNode

/-- A double that is not finite is written, but not as a number. -/
theorem finite_wire (expr : Expr) : expr.wire.Each Number.Finite := by
  induction expr using induction_children with
  | step expr below =>
  have field (fields : List (String × Expr))
      (inside : ∀ field ∈ fields, field.2 ∈ expr.children) :
      ∀ member ∈ wireFields fields, member.2.Each Number.Finite := by
    intro member present
    rw [wireFields_eq_map] at present
    obtain ⟨field, source, rfl⟩ := List.mem_map.mp present
    exact below field.2 (inside field source)
  cases expr with
  | literal value => exact value.finite_wire
  | array items =>
      rw [wire, wireItems_eq_map]
      refine .array fun item member => ?_
      obtain ⟨source, inside, rfl⟩ := List.mem_map.mp member
      exact below source inside
  | call name argument others =>
      refine .object fun member present => ?_
      rcases List.mem_cons.mp present with rfl | later
      · exact below argument List.mem_cons_self
      · exact field others (fun field source =>
          List.mem_cons_of_mem argument (List.mem_map_of_mem source)) member later
  | object members => exact .object (field members fun member => List.mem_map_of_mem)

/-- Two texts of one layout are of one wire form. -/
theorem wire_eq_of_render_eq {layout : Layout} {expr other : Expr}
    (same : expr.render layout = other.render layout) : expr.wire = other.wire :=
  Json.write_injective expr.finite_wire other.finite_wire same

mutual

/-- The tree that an expression of finite doubles is written as, with its numbers as tokens. -/
inductive WrittenAs : Expr → Json (List Char) → Prop where
  | null : WrittenAs (.literal .null) .null
  | string (text : String) : WrittenAs (.literal (.string text)) (.string text)
  | long (n : Int64) : WrittenAs (.literal (.long n)) (.number (Text.signedDecimal n.toInt))
  | double {x : Decimal.Binary64} (finite : x.isFinite = true) :
      WrittenAs (.literal (.double x)) (.number x.text)
  | boolean (value : Bool) : WrittenAs (.literal (.boolean value)) (.boolean value)
  | time (moment : Calendar.Timestamp) :
      WrittenAs (.literal (.time moment)) (.object [("@ts", .string (String.ofList moment.text))])
  | date (day : Calendar.Date) :
      WrittenAs (.literal (.date day)) (.object [("@date", .string (String.ofList day.text))])
  | bytes (content : List UInt8) :
      WrittenAs (.literal (.bytes content))
        (.object [("@bytes", .string (String.ofList (Text.Base64.encode content)))])
  | reference (id : String) :
      WrittenAs (.literal (.reference id)) (.object [("@ref", .string id)])
  | array {items : List Expr} {trees : List (Json (List Char))}
      (each : ItemsWrittenAs items trees) : WrittenAs (.array items) (.array trees)
  | call {name : String} {argument : Expr} {others : List (String × Expr)}
      {members : List (String × Json (List Char))}
      (each : FieldsWrittenAs ((name, argument) :: others) members) :
      WrittenAs (.call name argument others) (.object members)
  | object {fields : List (String × Expr)} {members : List (String × Json (List Char))}
      (each : FieldsWrittenAs fields members) : WrittenAs (.object fields) (.object members)

inductive ItemsWrittenAs : List Expr → List (Json (List Char)) → Prop where
  | nil : ItemsWrittenAs [] []
  | cons {item : Expr} {items : List Expr} {tree : Json (List Char)}
      {trees : List (Json (List Char))} (first : WrittenAs item tree)
      (later : ItemsWrittenAs items trees) : ItemsWrittenAs (item :: items) (tree :: trees)

inductive FieldsWrittenAs : List (String × Expr) → List (String × Json (List Char)) → Prop where
  | nil : FieldsWrittenAs [] []
  | cons {name : String} {value : Expr} {fields : List (String × Expr)} {tree : Json (List Char)}
      {members : List (String × Json (List Char))} (first : WrittenAs value tree)
      (later : FieldsWrittenAs fields members) :
      FieldsWrittenAs ((name, value) :: fields) ((name, tree) :: members)

end

def tokens (expr : Expr) : Json (List Char) := expr.wire.mapNumbers Number.token

mutual

theorem writtenAs_tokens (expr : Expr) (finite : expr.Finite) : expr.WrittenAs expr.tokens := by
  match expr with
  | .literal .null => exact .null
  | .literal (.string text) => exact .string text
  | .literal (.long n) => exact .long n
  | .literal (.double x) =>
      have isFinite : x.isFinite = true := finite.root x rfl
      have shape : tokens (.literal (.double x)) = .number x.text := by
        rw [tokens, wire, Value.wire_double isFinite, Json.mapNumbers,
          Number.token_double isFinite]
      exact shape ▸ .double isFinite
  | .literal (.boolean value) => exact .boolean value
  | .literal (.time moment) => exact .time moment
  | .literal (.date day) => exact .date day
  | .literal (.bytes content) => exact .bytes content
  | .literal (.reference id) =>
      -- The name of a reference is written from its characters.
      have shape : tokens (.literal (.reference id)) = .object [("@ref", .string id)] := by
        simp [tokens, wire, Value.wire, Value.tagged, Json.mapNumbers, Json.mapMembers]
      exact shape ▸ .reference id
  | .array items =>
      exact .array (itemsWrittenAs_tokens items fun _ inside => finite.child inside)
  | .call _ argument others =>
      refine .call (.cons (writtenAs_tokens argument (finite.child List.mem_cons_self))
        (fieldsWrittenAs_tokens others fun field inside => finite.child ?_))
      exact List.mem_cons_of_mem argument (List.mem_map_of_mem inside)
  | .object members =>
      exact .object (fieldsWrittenAs_tokens members fun member inside =>
        finite.child (List.mem_map_of_mem inside))

theorem itemsWrittenAs_tokens (items : List Expr) (finite : ∀ item ∈ items, item.Finite) :
    ItemsWrittenAs items (Json.mapItems Number.token (wireItems items)) := by
  match items with
  | [] => exact .nil
  | item :: items =>
      obtain ⟨first, later⟩ := List.forall_mem_cons.mp finite
      exact .cons (writtenAs_tokens item first) (itemsWrittenAs_tokens items later)

theorem fieldsWrittenAs_tokens (fields : List (String × Expr))
    (finite : ∀ field ∈ fields, field.2.Finite) :
    FieldsWrittenAs fields (Json.mapMembers Number.token (wireFields fields)) := by
  match fields with
  | [] => exact .nil
  | (_, value) :: fields =>
      obtain ⟨first, later⟩ := List.forall_mem_cons.mp finite
      exact .cons (writtenAs_tokens value first) (fieldsWrittenAs_tokens fields later)

end

mutual

theorem WrittenAs.unique {expr : Expr} {tree other : Json (List Char)} :
    expr.WrittenAs tree → expr.WrittenAs other → tree = other
  | .null, .null => rfl
  | .string _, .string _ => rfl
  | .long _, .long _ => rfl
  | .double _, .double _ => rfl
  | .boolean _, .boolean _ => rfl
  | .time _, .time _ => rfl
  | .date _, .date _ => rfl
  | .bytes _, .bytes _ => rfl
  | .reference _, .reference _ => rfl
  | .array each, .array each' => congrArg Json.array (each.unique each')
  | .call each, .call each' => congrArg Json.object (each.unique each')
  | .object each, .object each' => congrArg Json.object (each.unique each')

theorem ItemsWrittenAs.unique {items : List Expr} {trees others : List (Json (List Char))} :
    ItemsWrittenAs items trees → ItemsWrittenAs items others → trees = others
  | .nil, .nil => rfl
  | .cons first later, .cons first' later' =>
      congrArg₂ List.cons (first.unique first') (later.unique later')

theorem FieldsWrittenAs.unique {fields : List (String × Expr)}
    {members others : List (String × Json (List Char))} :
    FieldsWrittenAs fields members → FieldsWrittenAs fields others → members = others
  | .nil, .nil => rfl
  | .cons first later, .cons first' later' => by
      rw [first.unique first', later.unique later']

end

theorem isText_render (layout : Layout) (expr : Expr) :
    Json.IsText (expr.render layout) expr.tokens :=
  Json.isText_render layout (expr.finite_wire.mapNumbers fun _ => Number.isNumber_token)

/-- The compact text is a JSON text that stands for one tree, which is read from the
whole of it and is the one tree that the expression is written as. -/
theorem compact_lossless {expr : Expr} (finite : expr.Finite) :
    ∃ tree, Json.Reader.read expr.compact = some tree ∧
      (∀ other, Json.IsText expr.compact other ↔ other = tree) ∧
      ∀ other, expr.WrittenAs other ↔ other = tree := by
  have stands := isText_render .compact expr
  have written := writtenAs_tokens expr finite
  refine ⟨expr.tokens, Json.Reader.read_eq_some_iff.mpr stands, fun other => ⟨?_, ?_⟩,
    fun other => ⟨?_, ?_⟩⟩
  · exact fun stands' => stands'.unique stands
  · rintro rfl
    exact stands
  · exact fun written' => written'.unique written
  · rintro rfl
    exact written

/-- Names and strings that have to be escaped, in a call and an object with repeats. -/
def escapedNames : Expr :=
  .call "say \"\\\"" (.array [])
    [("x", .object [("\x01\n", .literal (.double ⟨0x8000000000000000⟩)), ("\x01\n", .null)]),
      ("x", .literal (.bytes [255])), ("x", .text "é😀\t/")]

theorem compact_lossless_escaped_names :
    escapedNames.Finite ∧
      ∃ tree, Json.Reader.read escapedNames.compact = some tree ∧
        (∀ other, Json.IsText escapedNames.compact other ↔ other = tree) ∧
        ∀ other, escapedNames.WrittenAs other ↔ other = tree := by
  have node {expr : Expr} (root : FiniteNode expr) (below : ∀ child ∈ expr.children, child.Finite) :
      expr.Finite := everywhere_iff.mpr ⟨root, below⟩
  have leaf {value : Value} (root : FiniteNode (.literal value)) : (literal value).Finite :=
    node root (by simp [children])
  have finite : escapedNames.Finite := by
    refine node (by rintro _ ⟨⟩) ?_
    simp only [escapedNames, children, List.map_cons, List.map_nil, List.forall_mem_cons]
    refine ⟨node (by rintro _ ⟨⟩) (by simp [children]), node (by rintro _ ⟨⟩) ?_,
      leaf (by rintro _ ⟨⟩), leaf (by rintro _ ⟨⟩), by simp⟩
    simp only [children, List.map_cons, List.map_nil, List.forall_mem_cons]
    exact ⟨leaf (by rintro _ ⟨⟩; decide), leaf (by rintro _ ⟨⟩), by simp⟩
  exact ⟨finite, compact_lossless finite⟩

end Expr

end QueryWire
