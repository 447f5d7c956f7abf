import QueryWire.Proofs.Host.Leaves

namespace QueryWire

namespace Members

variable {α β : Type}

/-- The members if every one of them is there. -/
def allSome : List (String × Option α) → Option (List (String × α))
  | [] => some []
  | (name, found) :: members => return (name, ← found) :: (← allSome members)

end Members

namespace Host

variable {ν ε : Type}

mutual

/-- The JSON document of the same content, if all the host value holds has a place in one. -/
def toJson? : Host ν ε → Option (Json Number)
  | .string text => some (.string text)
  | .boolean on => some (.boolean on)
  | .int32 n => some (.number (.integer (.ofSigned n.toInt64)))
  | .int64 n => some (.number (.integer (.ofSigned n)))
  | .uint32 n => some (.number (.integer (.ofUnsigned n.toUInt64)))
  | .uint64 n => some (.number (.integer (.ofUnsigned n)))
  | .double x => if x.isFinite then some (.number (.double x)) else none
  | .value _ | .expr _ => none
  | .absent => some .null
  | .present host => host.toJson?
  | .sequence items => (itemsToJson? items).map .array
  | .map insertions =>
      (Members.allSome (Members.lastInByteOrder (insertionsToJson? insertions))).map .object
  | .json tree => some tree

def itemsToJson? : List (Host ν ε) → Option (List (Json Number))
  | [] => some []
  | item :: items => return (← item.toJson?) :: (← itemsToJson? items)

def insertionsToJson? : List (String × Host ν ε) → List (String × Option (Json Number))
  | [] => []
  | (key, host) :: insertions => (key, host.toJson?) :: insertionsToJson? insertions

end

/-- The leaf can stand in a JSON document. -/
def Leaf.InJson : Leaf ν ε → Prop
  | .number held => held.Finite
  | .value _ | .expr _ => False
  | _ => True

theorem insertionsToJson?_eq_mapValues (insertions : List (String × Host ν ε)) :
    insertionsToJson? insertions = Members.mapValues toJson? insertions := by
  induction insertions with
  | nil => rfl
  | cons insertion insertions ih => exact congrArg (_ :: ·) ih

/-- The document has the leaves of the host value and encodes as it does. -/
structure HasContent (host : Host Value Expr) (tree : Json Number) : Prop where
  made : host.toJson? = some tree
  leaves : tree.leaves = host.leaves
  encode : host.encode = tree.encode

theorem hasContent_sequence {items : List (Host Value Expr)}
    (each : ∀ item ∈ items, ∃ tree, HasContent item tree) :
    ∃ tree, HasContent (.sequence items) tree := by
  obtain ⟨trees, made, held, encoded⟩ : ∃ trees, itemsToJson? items = some trees ∧
      Json.leavesOfItems trees = leavesOfItems items ∧
      encodeItems items = Json.encodeItems trees := by
    induction items with
    | nil => exact ⟨[], rfl, rfl, rfl⟩
    | cons item items ih =>
        obtain ⟨⟨tree, first⟩, later⟩ := List.forall_mem_cons.mp each
        obtain ⟨trees, made, held, encoded⟩ := ih later
        refine ⟨tree :: trees, ?_, ?_, ?_⟩
        · rw [itemsToJson?, first.made, made]
          rfl
        · rw [Json.leavesOfItems, first.leaves, held, leavesOfItems]
        · rw [encodeItems, first.encode, encoded, Json.encodeItems]
  refine ⟨.array trees, ?_, ?_, ?_⟩
  · rw [toJson?, made]
    rfl
  · rw [Json.leaves, held, Host.leaves]
  · rw [Host.encode, encoded, Json.encode]

theorem hasContent_members {members : List (String × Host Value Expr)}
    (each : ∀ member ∈ members, ∃ tree, HasContent member.2 tree) :
    ∃ trees, Members.allSome (Members.mapValues toJson? members) = some trees ∧
      Members.mapValues Json.leaves trees = Members.mapValues leaves members ∧
      Members.mapValues Host.encode members = Members.mapValues Json.encode trees := by
  induction members with
  | nil => exact ⟨[], rfl, rfl, rfl⟩
  | cons member members ih =>
      obtain ⟨⟨tree, first⟩, later⟩ := List.forall_mem_cons.mp each
      obtain ⟨trees, made, held, encoded⟩ := ih later
      refine ⟨(member.1, tree) :: trees, ?_, ?_, ?_⟩
      · rw [Members.mapValues_cons, Members.allSome, first.made, made]
        rfl
      · rw [Members.mapValues_cons, first.leaves, held, Members.mapValues_cons]
      · rw [Members.mapValues_cons, first.encode, encoded, Members.mapValues_cons]

/-- The entries that count have distinct keys already, so the object of them loses none. -/
theorem hasContent_map {insertions : List (String × Host Value Expr)}
    (each : ∀ entry ∈ Members.sortedOfPairs insertions, ∃ tree, HasContent entry.2 tree) :
    ∃ tree, HasContent (.map insertions) tree := by
  obtain ⟨trees, made, held, encoded⟩ := hasContent_members each
  have keys : Members.names trees = Members.names (Members.sortedOfPairs insertions) := by
    simpa only [Members.names_mapValues] using congrArg Members.names held
  have distinct : (Members.names trees).Nodup :=
    keys ▸ (Members.sorted_sortedOfPairs insertions).nodup
  refine ⟨.object trees, ?_, ?_, ?_⟩
  · rw [toJson?, insertionsToJson?_eq_mapValues, Members.lastInByteOrder_mapValues,
      ← Members.sortedOfPairs_eq_lastInByteOrder, made]
    rfl
  · rw [Json.leaves, Json.leavesOfMembers_eq_mapValues, Members.lastOfEach_mapValues,
      ← Members.ofPairs_eq_lastOfEach, Members.ofPairs_of_nodup distinct, held, Host.leaves,
      leavesOfInsertions_eq_mapValues, Members.lastInByteOrder_mapValues,
      Members.sortedOfPairs_eq_lastInByteOrder]
  · rw [Host.encode, encodeInsertions_eq_mapValues, Members.sortedOfPairs_mapValues, encoded,
      Json.encode, Json.encodeMembers_eq_mapValues, Members.ofPairs_mapValues,
      Members.ofPairs_of_nodup distinct]

theorem HasContent.integer {host : Host Value Expr} {integer : Integer64} {n : Int64}
    (made : host.toJson? = some (.number (.integer integer)))
    (held : host.leaves = [.number (.integer integer)]) (encoded : host.encode = .ok (.long n))
    (signed : integer.toSigned? = some n) : HasContent host (.number (.integer integer)) := by
  refine ⟨made, held.symm, ?_⟩
  rw [encoded, Json.encode, Number.encode, signed]

theorem toSigned?_ofSigned (n : Int64) : (Integer64.ofSigned n).toSigned? = some n := by
  have signed : (Integer64.ofSigned n).toSigned? = some (Int64.ofInt n.toInt) :=
    if_pos (not_lt.mp (Integer64.ofSigned_not_refused n))
  rw [signed, Int64.ofInt_toInt]

theorem toSigned?_ofUnsigned (n : UInt32) :
    (Integer64.ofUnsigned n.toUInt64).toSigned? = some (Int64.ofNat n.toNat) := by
  have signed : (Integer64.ofUnsigned n.toUInt64).toSigned? =
      some (Int64.ofInt n.toUInt64.toNat) :=
    if_pos (not_lt.mp (Integer64.ofUnsigned_not_refused n))
  rw [signed, UInt32.toNat_toUInt64]
  rfl

theorem exists_hasContent (host : Host Value Expr) (plain : ∀ leaf ∈ host.leaves, leaf.InJson) :
    ∃ tree, HasContent host tree := by
  induction host using induction_parts with
  | step host ih =>
  cases host with
  | string | boolean | absent => exact ⟨_, rfl, rfl, rfl⟩
  | int32 n => exact ⟨_, .integer rfl rfl rfl (toSigned?_ofSigned n.toInt64)⟩
  | int64 n => exact ⟨_, .integer rfl rfl rfl (toSigned?_ofSigned n)⟩
  | uint32 n => exact ⟨_, .integer rfl rfl rfl (toSigned?_ofUnsigned n)⟩
  | uint64 n => exact ⟨_, rfl, rfl, rfl⟩
  | double x =>
      have finite : x.isFinite = true := plain (.number (.double x)) List.mem_cons_self
      exact ⟨.number (.double x), if_pos finite, rfl, rfl⟩
  | value leaf => exact (plain (.value leaf) List.mem_cons_self).elim
  | expr leaf => exact (plain (.expr leaf) List.mem_cons_self).elim
  | present host =>
      obtain ⟨tree, content⟩ := ih host List.mem_cons_self plain
      exact ⟨tree, content.made, content.leaves, content.encode⟩
  | sequence items =>
      rw [leaves, leavesOfItems_eq_flatMap] at plain
      exact hasContent_sequence fun item member => ih item member fun leaf held =>
        plain leaf (List.mem_flatMap.mpr ⟨item, member, held⟩)
  | map insertions =>
      rw [leaves, leavesOfInsertions_eq_mapValues, Members.lastInByteOrder_mapValues,
        ← Members.sortedOfPairs_eq_lastInByteOrder] at plain
      refine hasContent_map fun entry member => ih entry.2 ?_ fun leaf held => plain leaf ?_
      · exact List.mem_map_of_mem (Members.mem_of_mem_sortedOfPairs member)
      · exact List.mem_flatMap.mpr ⟨_, List.mem_map_of_mem member, held⟩
  | json tree => exact ⟨tree, rfl, rfl, rfl⟩

/-- A host value that holds no value, no expression and none but finite doubles encodes as the
JSON document of its content does, to the same expression or to the same error. -/
theorem encode_eq_encode_json (host : Host Value Expr)
    (plain : ∀ leaf ∈ host.leaves, leaf.InJson) :
    ∃ tree : Json Number, host.toJson? = some tree ∧ tree.leaves = host.leaves ∧
      host.encode = tree.encode := by
  obtain ⟨tree, content⟩ := exists_hasContent host plain
  exact ⟨tree, content.made, content.leaves, content.encode⟩

/-- The reference is replaced, and no long holds the last number. -/
def replacedReference : Host Value Expr :=
  .map [("rows", .sequence [.present (.int32 (-1)), .absent, .double ⟨0x3FF0000000000000⟩,
      .uint64 9223372036854775808]),
    ("id", .value (.reference "r")), ("id", .json (.object [("object", .boolean true)]))]

theorem encode_eq_encode_json_replaced_reference :
    (∀ leaf ∈ replacedReference.leaves, leaf.InJson) ∧
      ∃ tree : Json Number, replacedReference.toJson? = some tree ∧
        replacedReference.encode = tree.encode ∧
        tree.encode = .error (.literal (.exceedsLong 9223372036854775808)) := by
  have held : replacedReference.leaves = [.boolean true, .number (.integer (.ofSigned (-1))), .null,
      .number (.double ⟨0x3FF0000000000000⟩),
      .number (.integer (.ofUnsigned 9223372036854775808))] := by
    rw [replacedReference, leaves, ← Members.sortedOfPairs_eq_lastInByteOrder]
    rfl
  have finite : (⟨0x3FF0000000000000⟩ : Decimal.Binary64).isFinite = true := by decide
  have plain : ∀ leaf ∈ replacedReference.leaves, leaf.InJson := by
    rw [held]
    simp [Leaf.InJson, Number.Finite, finite]
  obtain ⟨tree, made, -, encoded⟩ := encode_eq_encode_json replacedReference plain
  exact ⟨plain, tree, made, encoded, encoded ▸ rfl⟩

end Host

end QueryWire
