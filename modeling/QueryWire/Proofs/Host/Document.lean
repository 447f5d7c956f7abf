import QueryWire.Proofs.Request

namespace QueryWire

namespace Json

variable {ν μ : Type}

/-- No object in the tree repeats a name. -/
inductive IsDocument : Json ν → Prop where
  | null : IsDocument .null
  | boolean (value : Bool) : IsDocument (.boolean value)
  | number (value : ν) : IsDocument (.number value)
  | string (text : String) : IsDocument (.string text)
  | array {items : List (Json ν)} (each : ∀ item ∈ items, IsDocument item) :
      IsDocument (.array items)
  | object {members : List (String × Json ν)} (distinct : (Members.names members).Nodup)
      (each : ∀ member ∈ members, IsDocument member.2) : IsDocument (.object members)

/-- Documents are the trees that making a document leaves alone. -/
theorem isDocument_iff_collapse {tree : Json ν} : tree.IsDocument ↔ tree.collapse = tree := by
  have everywhere : tree.Each fun _ => True := .of_forall (fun _ => trivial) tree
  induction everywhere with
  | null => exact iff_of_true .null rfl
  | boolean value => exact iff_of_true (.boolean value) rfl
  | string text => exact iff_of_true (.string text) rfl
  | number => exact iff_of_true (.number _) rfl
  | array _ ih =>
      rw [collapse_array_eq_self_iff, ← forall₂_congr ih]
      exact ⟨fun | .array each => each, .array⟩
  | object _ ih =>
      rw [collapse_object_eq_self_iff, ← forall₂_congr ih]
      exact ⟨fun | .object distinct each => ⟨distinct, each⟩, fun ⟨distinct, each⟩ =>
        .object distinct each⟩

mutual

/-- The document that an encoded one was made of.  An object without the wrapper is of no
encoded document. -/
def unwrap? : Json ν → Option (Json ν)
  | .null => some .null
  | .boolean value => some (.boolean value)
  | .number value => some (.number value)
  | .string text => some (.string text)
  | .array items => (unwrapItems? items).map .array
  | .object [("object", .object members)] => (unwrapMembers? members).map .object
  | .object _ => none

def unwrapItems? : List (Json ν) → Option (List (Json ν))
  | [] => some []
  | item :: items => return (← item.unwrap?) :: (← unwrapItems? items)

def unwrapMembers? : List (String × Json ν) → Option (List (String × Json ν))
  | [] => some []
  | (name, value) :: members => return (name, ← value.unwrap?) :: (← unwrapMembers? members)

end

theorem unwrap?_wrapped (members : List (String × Json ν)) :
    (object [("object", .object members)]).unwrap? = (unwrapMembers? members).map .object := by
  rw [unwrap?]

/-- What is unwrapped as an object was wrapped as one. -/
theorem wrapped_of_unwrap? {members : List (String × Json ν)} {tree : Json ν}
    (found : (object members).unwrap? = some tree) :
    ∃ inside made, members = [("object", .object inside)] ∧
      unwrapMembers? inside = some made ∧ tree = .object made := by
  unfold unwrap? at found
  split at found <;> try contradiction
  next inside same =>
  obtain ⟨made, run, rfl⟩ := Option.map_eq_some_iff.mp found
  exact ⟨inside, made, Json.object.inj same, run, rfl⟩

theorem unwrapItems?_cons {item : Json ν} {items made : List (Json ν)}
    (found : unwrapItems? (item :: items) = some made) :
    ∃ first others, item.unwrap? = some first ∧ unwrapItems? items = some others ∧
      made = first :: others := by
  obtain ⟨first, run, found⟩ := Option.bind_eq_some_iff.mp found
  obtain ⟨others, runOthers, same⟩ := Option.bind_eq_some_iff.mp found
  exact ⟨first, others, run, runOthers, (Option.some.inj same).symm⟩

theorem unwrapMembers?_cons {name : String} {value : Json ν}
    {members made : List (String × Json ν)}
    (found : unwrapMembers? ((name, value) :: members) = some made) :
    ∃ first others, value.unwrap? = some first ∧ unwrapMembers? members = some others ∧
      made = (name, first) :: others := by
  obtain ⟨first, run, found⟩ := Option.bind_eq_some_iff.mp found
  obtain ⟨others, runOthers, same⟩ := Option.bind_eq_some_iff.mp found
  exact ⟨first, others, run, runOthers, (Option.some.inj same).symm⟩

mutual

/-- Unwrapping does not look at numbers, so it may as well be done to a tree of tokens. -/
theorem unwrap?_mapNumbers (f : ν → μ) : {tree inner : Json ν} → tree.unwrap? = some inner →
    (tree.mapNumbers f).unwrap? = some (inner.mapNumbers f)
  | .null, _, found | .boolean _, _, found | .number _, _, found | .string _, _, found => by
      cases found
      rfl
  | .array items, _, found => by
      obtain ⟨made, run, rfl⟩ := Option.map_eq_some_iff.mp found
      exact congrArg (Option.map Json.array) (unwrapItems?_mapItems f run)
  | .object _, _, found => by
      obtain ⟨inside, made, rfl, run, rfl⟩ := wrapped_of_unwrap? found
      refine (unwrap?_wrapped _).trans ?_
      exact congrArg (Option.map Json.object) (unwrapMembers?_mapMembers f run)

theorem unwrapItems?_mapItems (f : ν → μ) : {items made : List (Json ν)} →
    unwrapItems? items = some made → unwrapItems? (mapItems f items) = some (mapItems f made)
  | [], _, found => by
      cases found
      rfl
  | item :: items, _, found => by
      obtain ⟨first, others, run, runOthers, rfl⟩ := unwrapItems?_cons found
      rw [mapItems, unwrapItems?, unwrap?_mapNumbers f run, unwrapItems?_mapItems f runOthers]
      rfl

theorem unwrapMembers?_mapMembers (f : ν → μ) : {members made : List (String × Json ν)} →
    unwrapMembers? members = some made →
      unwrapMembers? (mapMembers f members) = some (mapMembers f made)
  | [], _, found => by
      cases found
      rfl
  | (name, value) :: members, _, found => by
      obtain ⟨first, others, run, runOthers, rfl⟩ := unwrapMembers?_cons found
      rw [mapMembers, unwrapMembers?, unwrap?_mapNumbers f run,
        unwrapMembers?_mapMembers f runOthers]
      rfl

end

theorem names_of_unwrapMembers? {members made : List (String × Json ν)}
    (found : unwrapMembers? members = some made) : Members.names members = Members.names made := by
  induction members generalizing made with
  | nil =>
      cases found
      rfl
  | cons member members ih =>
      obtain ⟨first, others, -, runOthers, rfl⟩ := unwrapMembers?_cons found
      exact congrArg (member.1 :: ·) (ih runOthers)

mutual

/-- Wrappers repeat no name, so all that repeats in a tree repeats in what it unwraps to. -/
theorem isDocument_of_unwrap? : {tree inner : Json ν} → tree.unwrap? = some inner →
    inner.IsDocument → tree.IsDocument
  | .null, _, _, _ => .null
  | .boolean value, _, _, _ => .boolean value
  | .number value, _, _, _ => .number value
  | .string text, _, _, _ => .string text
  | .array items, _, found, document => by
      obtain ⟨made, run, rfl⟩ := Option.map_eq_some_iff.mp found
      cases document with
      | array each => exact .array (items_areDocuments run each)
  | .object _, _, found, document => by
      obtain ⟨inside, made, rfl, run, rfl⟩ := wrapped_of_unwrap? found
      cases document with
      | object distinct each =>
          have wrapped : (object inside).IsDocument :=
            .object (names_of_unwrapMembers? run ▸ distinct) (members_areDocuments run each)
          exact .object (List.nodup_singleton _) (List.forall_mem_singleton.mpr wrapped)

theorem items_areDocuments : {items made : List (Json ν)} → unwrapItems? items = some made →
    (∀ item ∈ made, item.IsDocument) → ∀ item ∈ items, item.IsDocument
  | [], _, _, _ => List.forall_mem_nil _
  | item :: items, _, found, each => by
      obtain ⟨first, others, run, runOthers, rfl⟩ := unwrapItems?_cons found
      obtain ⟨document, documents⟩ := List.forall_mem_cons.mp each
      exact List.forall_mem_cons.mpr
        ⟨isDocument_of_unwrap? run document, items_areDocuments runOthers documents⟩

theorem members_areDocuments : {members made : List (String × Json ν)} →
    unwrapMembers? members = some made → (∀ member ∈ made, member.2.IsDocument) →
      ∀ member ∈ members, member.2.IsDocument
  | [], _, _, _ => List.forall_mem_nil _
  | (name, value) :: members, _, found, each => by
      obtain ⟨first, others, run, runOthers, rfl⟩ := unwrapMembers?_cons found
      obtain ⟨document, documents⟩ := List.forall_mem_cons.mp each
      exact List.forall_mem_cons.mpr
        ⟨isDocument_of_unwrap? run document, members_areDocuments runOthers documents⟩

end

end Json

namespace Number

/-- The number is a double, or an integer that a long holds. -/
def FitsLong : Number → Prop
  | .integer n => n.value ≤ Int64.maxValue.toInt
  | .double _ => True

end Number

theorem Integer64.ofSigned_ofInt {n : Integer64} (fits : n.value ≤ Int64.maxValue.toInt) :
    ofSigned (Int64.ofInt n.value) = n := by
  have lower := n.lower
  rw [Int64.toInt_minValue] at lower
  rw [Int64.toInt_maxValue] at fits
  have same : (Int64.ofInt n.value).toInt = n.value := Int64.toInt_ofInt_of_le lower (by omega)
  cases n
  simpa only [ofSigned, mk.injEq] using same

namespace Json

/-- Encoding the tree succeeds, and what it gives unwraps to the tree. -/
def Recovers (tree : Json Number) : Prop :=
  ∃ expr, tree.encode = .ok expr ∧ expr.wire.unwrap? = some tree

theorem recovers_number {number : Number} (finite : number.Finite) (fits : number.FitsLong) :
    (Json.number number).Recovers := by
  cases number with
  | integer n =>
      have signed : n.toSigned? = some (Int64.ofInt n.value) := if_pos fits
      refine ⟨.long (Int64.ofInt n.value), ?_, ?_⟩
      · rw [encode, Number.encode, signed]
      · rw [Expr.long, Expr.value_eq_literal, Expr.wire, Value.wire,
          Integer64.ofSigned_ofInt fits]
        rfl
  | double x =>
      have made : Value.ofDouble x = .ok (.double x) := if_pos finite
      refine ⟨.literal (.double x), ?_, ?_⟩
      · rw [encode, Number.encode, made]
        rfl
      · rw [Expr.wire, Value.wire_double finite]
        rfl

theorem encodeItems_recovers {items : List (Json Number)}
    (each : ∀ item ∈ items, item.Recovers) :
    ∃ made, encodeItems items = .ok made ∧ unwrapItems? (Expr.wireItems made) = some items := by
  induction items with
  | nil => exact ⟨[], rfl, rfl⟩
  | cons item items ih =>
      obtain ⟨⟨expr, encoded, unwrapped⟩, later⟩ := List.forall_mem_cons.mp each
      obtain ⟨made, encodedLater, unwrappedLater⟩ := ih later
      refine ⟨expr :: made, ?_, ?_⟩
      · rw [encodeItems, encoded, encodedLater]
        rfl
      · rw [Expr.wireItems, unwrapItems?, unwrapped, unwrappedLater]
        rfl

theorem encodeMembers_recovers {members : List (String × Json Number)}
    (each : ∀ member ∈ members, member.2.Recovers) :
    ∃ made, Members.allOk (encodeMembers members) = .ok made ∧
      unwrapMembers? (Expr.wireFields made) = some members := by
  induction members with
  | nil => exact ⟨[], rfl, rfl⟩
  | cons member members ih =>
      obtain ⟨name, value⟩ := member
      obtain ⟨⟨expr, encoded, unwrapped⟩, later⟩ := List.forall_mem_cons.mp each
      obtain ⟨made, encodedLater, unwrappedLater⟩ := ih later
      refine ⟨(name, expr) :: made, ?_, ?_⟩
      · rw [encodeMembers, encoded, Members.allOk, encodedLater]
        rfl
      · rw [Expr.wireFields, unwrapMembers?, unwrapped, unwrappedLater]
        rfl

theorem names_encodeMembers (members : List (String × Json Number)) :
    Members.names (encodeMembers members) = Members.names members := by
  induction members with
  | nil => rfl
  | cons member members ih => exact congrArg (member.1 :: ·) ih

theorem IsDocument.recovers {tree : Json Number} (document : tree.IsDocument)
    (finite : tree.Each Number.Finite) (fits : tree.Each Number.FitsLong) : tree.Recovers := by
  induction document with
  | null => exact ⟨_, rfl, rfl⟩
  | boolean value => exact ⟨_, rfl, rfl⟩
  | string text => exact ⟨_, rfl, rfl⟩
  | number value =>
      obtain ⟨_⟩ := finite
      obtain ⟨_⟩ := fits
      exact recovers_number ‹_› ‹_›
  | array _ ih =>
      cases finite with | array finite =>
      cases fits with | array fits =>
      obtain ⟨made, encoded, unwrapped⟩ := encodeItems_recovers fun item member =>
        ih item member (finite item member) (fits item member)
      refine ⟨.array made, ?_, ?_⟩
      · rw [encode, encoded]
        rfl
      · rw [Expr.wire, unwrap?, unwrapped]
        rfl
  | @object members distinct _ ih =>
      cases finite with | object finite =>
      cases fits with | object fits =>
      obtain ⟨made, encoded, unwrapped⟩ := encodeMembers_recovers fun member inside =>
        ih member inside (finite member inside) (fits member inside)
      -- Distinct names are the names of what is encoded, so no entry replaces another.
      have results : Members.ofPairs (encodeMembers members) = encodeMembers members :=
        Members.ofPairs_of_nodup (by rwa [names_encodeMembers])
      have entries : Members.ofPairs made = made := by
        refine Members.ofPairs_of_nodup ?_
        rwa [(Members.allOk_ok encoded).1, names_encodeMembers]
      refine ⟨.ofPairs made, ?_, ?_⟩
      · rw [encode, results, encoded]
        rfl
      · rw [Expr.ofPairs, entries, Expr.wire, Expr.wire, Expr.wireFields, unwrap?_wrapped,
          unwrapped]
        rfl

/-- A document of finite doubles and of integers that longs hold is encoded, and the
encoded one unwraps to it: as it is in memory, as the document a request is made of, and
as either layout is read, with tokens for the numbers. -/
theorem encode_unwraps {tree : Json Number} (document : tree.IsDocument)
    (finite : tree.Each Number.Finite) (fits : tree.Each Number.FitsLong) :
    ∃ expr, tree.encode = .ok expr ∧ expr.wire.unwrap? = some tree ∧
      expr.document.unwrap? = some tree ∧
      ∀ layout, ∃ written, Reader.read (expr.render layout) = some written ∧
        written.unwrap? = some (tree.mapNumbers Number.token) := by
  obtain ⟨expr, encoded, unwrapped⟩ := document.recovers finite fits
  have unrepeated := isDocument_iff_collapse.mp (isDocument_of_unwrap? unwrapped document)
  refine ⟨expr, encoded, unwrapped, ?_, fun layout => ⟨expr.tokens, ?_, ?_⟩⟩
  · rwa [Expr.document, unrepeated]
  · exact Request.read_body layout expr
  · exact unwrap?_mapNumbers Number.token unwrapped

/-- A document whose objects look like a wrapper, a control form and a tagged leaf. -/
def controlNamedDocument : Json Number :=
  .object [("object", .object [("let", .array [.number (.integer (.ofSigned (-1)))]),
    ("in", .number (.double ⟨0x8000000000000000⟩))]), ("@ts", .string "var")]

theorem encode_unwraps_control_named_document :
    controlNamedDocument.IsDocument ∧ controlNamedDocument.Each Number.Finite ∧
      controlNamedDocument.Each Number.FitsLong ∧
      ∃ expr, controlNamedDocument.encode = .ok expr ∧
        expr.wire.unwrap? = some controlNamedDocument := by
  have document : controlNamedDocument.IsDocument := isDocument_iff_collapse.mpr rfl
  have numbers {property : Number → Prop} (whole : property (.integer (.ofSigned (-1))))
      (zero : property (.double ⟨0x8000000000000000⟩)) : controlNamedDocument.Each property := by
    refine .object (List.forall_mem_cons.mpr ⟨.object ?_, ?_⟩)
    · refine List.forall_mem_cons.mpr ⟨.array ?_, List.forall_mem_singleton.mpr (.number zero)⟩
      exact List.forall_mem_singleton.mpr (.number whole)
    · exact List.forall_mem_singleton.mpr (.string _)
  have finite : controlNamedDocument.Each Number.Finite := numbers trivial rfl
  have fits : controlNamedDocument.Each Number.FitsLong :=
    numbers (by rw [Number.FitsLong]; decide) trivial
  obtain ⟨expr, encoded, unwrapped, -⟩ := encode_unwraps document finite fits
  exact ⟨document, finite, fits, expr, encoded, unwrapped⟩

end Json

end QueryWire
