import QueryWire.Proofs.Host.Leaves
import QueryWire.Proofs.Json.Collapse
import QueryWire.Proofs.Result

namespace QueryWire

namespace Json

mutual

/-- Encoding a tree encodes the document of it. -/
theorem encode_collapse : (tree : Json Number) → tree.collapse.encode = tree.encode
  | .null | .boolean _ | .number _ | .string _ => rfl
  | .array items => by rw [collapse, encode, encodeItems_collapse items, encode]
  | .object members => by
      rw [collapse, encode, encodeMembers_eq_mapValues, Members.ofPairs_mapValues,
        Members.ofPairs_ofPairs, ← Members.ofPairs_mapValues, ← encodeMembers_eq_mapValues,
        encodeMembers_collapse members, encode]

theorem encodeItems_collapse : (items : List (Json Number)) →
    encodeItems (collapseItems items) = encodeItems items
  | [] => rfl
  | item :: items => by
      rw [collapseItems, encodeItems, encode_collapse item, encodeItems_collapse items, encodeItems]

theorem encodeMembers_collapse : (members : List (String × Json Number)) →
    encodeMembers (collapseMembers members) = encodeMembers members
  | [] => rfl
  | (name, value) :: members => by
      rw [collapseMembers, encodeMembers, encode_collapse value, encodeMembers_collapse members,
        encodeMembers]

end

end Json

namespace Host

/-- Host values that hold the same data: their maps, at any depth, may have come about by
different insertions, and their JSON trees may repeat different members. -/
inductive Alike {ν ε : Type} : Host ν ε → Host ν ε → Prop where
  | refl (host : Host ν ε) : Alike host host
  | present {host other : Host ν ε} (inside : Alike host other) :
      Alike (.present host) (.present other)
  | sequence {items others : List (Host ν ε)} (sizes : items.length = others.length)
      (each : ∀ (index : Nat) (item other : Host ν ε), items[index]? = some item →
        others[index]? = some other → Alike item other) :
      Alike (.sequence items) (.sequence others)
  | map {insertions others : List (String × Host ν ε)}
      (keys : ∀ key, key ∈ Members.names insertions ↔ key ∈ Members.names others)
      (values : ∀ key host other, Members.last? insertions key = some host →
        Members.last? others key = some other → Alike host other) :
      Alike (.map insertions) (.map others)
  | json {tree other : Json Number} (documents : tree.collapse = other.collapse) :
      Alike (.json tree) (.json other)

theorem Alike.encode {host other : Host Value Expr} (alike : Alike host other) :
    host.encode = other.encode := by
  induction alike with
  | refl => rfl
  | present _ ih => exact ih
  | @sequence items others sizes _ ih =>
      have results : items.map Host.encode = others.map Host.encode := by
        refine List.ext_getElem (by simpa using sizes) fun index bound bound' => ?_
        rw [List.length_map] at bound bound'
        rw [List.getElem_map, List.getElem_map]
        exact ih index _ _ (List.getElem?_eq_getElem bound) (List.getElem?_eq_getElem bound')
      have encodeItems_eq (items : List (Host Value Expr)) :
          encodeItems items = (items.map Host.encode).mapM id := by
        rw [encodeItems_eq_mapM, List.mapM_map, Function.id_comp]
      rw [Host.encode, encodeItems_eq, results, ← encodeItems_eq, Host.encode]
  | @map insertions others keys _ ih =>
      -- Values of one key may differ in their histories, but their encodings do not.
      have results (key : String) :
          Members.last? (Members.mapValues Host.encode insertions) key =
            Members.last? (Members.mapValues Host.encode others) key := by
        rw [Members.last?_mapValues, Members.last?_mapValues]
        exact Members.map_last?_congr (keys key) (ih key)
      rw [Host.encode, encodeInsertions_eq_mapValues, Members.sortedOfPairs_eq_of_last? results,
        ← encodeInsertions_eq_mapValues, Host.encode]
  | @json tree other documents =>
      rw [Host.encode, ← Json.encode_collapse, documents, Json.encode_collapse, Host.encode]

/-- Both rows of insertions leave a map with the same keys, and the values that were inserted
last for a key hold the same data. -/
def SameMapping {ν ε : Type} (insertions others : List (String × Host ν ε)) : Prop :=
  (∀ key, key ∈ Members.names insertions ↔ key ∈ Members.names others) ∧
    ∀ key host other, Members.last? insertions key = some host →
      Members.last? others key = some other → Alike host other

theorem entries_of_encode_map {insertions : List (String × Host Value Expr)} {expr : Expr}
    (encoded : (Host.map insertions).encode = .ok expr) :
    ∃ members, expr = .call "object" (.object members) [] ∧ Members.Sorted members ∧
      (∀ key, key ∈ Members.names members ↔ key ∈ Members.names insertions) ∧
      ∀ key host, Members.last? insertions key = some host →
        ∃ value, host.encode = .ok value ∧ members.lookup key = some value := by
  obtain ⟨members, all, made⟩ := bind_eq_ok encoded
  have results := Members.eq_mapValues_of_allOk all
  rw [encodeInsertions_eq_mapValues] at results
  have names : Members.names members =
      Members.names (Members.sortedOfPairs (Members.mapValues Host.encode insertions)) := by
    rw [results, Members.names_mapValues]
  have sorted : Members.Sorted members := by
    rw [Members.Sorted, names]
    exact Members.sorted_sortedOfPairs _
  refine ⟨members, ?_, sorted, fun key => ?_, fun key host last => ?_⟩
  · rw [← Except.ok.inj made, Expr.ofPairs, Members.ofPairs_of_nodup sorted.nodup]
  · rw [names, Members.mem_names_sortedOfPairs, Members.names_mapValues]
  · have held : some host.encode = (members.lookup key).map .ok := by
      rw [← Members.lookup_mapValues, ← results, Members.lookup_sortedOfPairs, ← Members.last?,
        Members.last?_mapValues, last, Option.map_some]
    obtain ⟨value, found, ok⟩ := Option.map_eq_some_iff.mp held.symm
    exact ⟨value, ok.symm, found⟩

/-- Rows of insertions that leave the same mapping encode alike.  What they encode as has each
key once, in the order of the bytes of the keys, with the encoding of its last value. -/
theorem map_encoding_ignores_history {insertions others : List (String × Host Value Expr)}
    (same : SameMapping insertions others) :
    (Host.map insertions).encode = (Host.map others).encode ∧
      ∀ expr, (Host.map insertions).encode = .ok expr →
        ∃ members, expr = .call "object" (.object members) [] ∧
          (Members.names members).Pairwise
            (fun key later => Text.utf8 key.toList < Text.utf8 later.toList) ∧
          (∀ key, (Members.names members).count key =
            if key ∈ Members.names insertions then 1 else 0) ∧
          ∀ key host, Members.last? insertions key = some host →
            ∃ value, host.encode = .ok value ∧ members.lookup key = some value := by
  refine ⟨(Alike.map same.1 same.2).encode, fun expr encoded => ?_⟩
  obtain ⟨members, made, sorted, keys, values⟩ := entries_of_encode_map encoded
  refine ⟨members, made, sorted.imp Members.bytes_lt_iff.mpr, fun key => ?_, values⟩
  rw [sorted.nodup.count]
  simp only [keys]

/-- Only the keys that occur have to be looked at. -/
theorem sameMapping_of_keys {ν ε : Type} {insertions others : List (String × Host ν ε)}
    (keys : ∀ key, key ∈ Members.names insertions ↔ key ∈ Members.names others)
    (values : ∀ key ∈ Members.names insertions, ∀ host other,
      Members.last? insertions key = some host → Members.last? others key = some other →
        Alike host other) : SameMapping insertions others :=
  ⟨keys, fun key host other last =>
    values key (Members.mem_names_iff_last?.mpr ⟨host, last⟩) host other last⟩

/-- A map in which a key was inserted again, and again one in the map under another key.  The
value that is no number is replaced. -/
def insertedAgain : List (String × Host Value Expr) :=
  [("\u00e9", .double ⟨0x7FF8000000000000⟩),
    ("let", .map [("b", .absent), ("a", .boolean true), ("b", .int32 7)]),
    ("object", .uint64 1), ("\u00e9", .present (.string "new"))]

/-- The same map, with every key inserted once. -/
def insertedOnce : List (String × Host Value Expr) :=
  [("object", .uint64 1), ("\u00e9", .present (.string "new")),
    ("let", .map [("a", .boolean true), ("b", .int32 7)])]

theorem sameMapping_inner :
    SameMapping [("b", .absent), ("a", .boolean true), ("b", .int32 7)]
      [("a", .boolean true), ("b", (.int32 7 : Host Value Expr))] := by
  refine sameMapping_of_keys (fun key => ?_) ?_
  · simp only [Members.names, List.map_cons, List.map_nil, List.mem_cons]
    tauto
  · simp only [Members.names, List.map_cons, List.map_nil, List.forall_mem_cons]
    refine ⟨?_, ?_, ?_, List.forall_mem_nil _⟩ <;> rintro _ _ ⟨⟩ ⟨⟩ <;> exact .refl _

theorem map_encoding_ignores_history_inserted_again :
    SameMapping insertedAgain insertedOnce ∧
      (Host.map insertedAgain).encode = (Host.map insertedOnce).encode ∧
      ∃ members, (Host.map insertedAgain).encode = .ok (.call "object" (.object members) []) ∧
        (Members.names members).count "\u00e9" = 1 ∧
        members.lookup "let" = some (.ofPairs [("a", .boolean true), ("b", .long 7)]) := by
  have same : SameMapping insertedAgain insertedOnce := by
    refine sameMapping_of_keys (fun key => ?_) ?_
    · simp only [Members.names, insertedAgain, insertedOnce, List.map_cons, List.map_nil,
        List.mem_cons]
      tauto
    · simp only [Members.names, insertedAgain, List.map_cons, List.map_nil, List.forall_mem_cons]
      refine ⟨?_, ?_, ?_, ?_, List.forall_mem_nil _⟩ <;> rintro _ _ ⟨⟩ ⟨⟩
      · exact .refl _
      · obtain ⟨keys, values⟩ := sameMapping_inner
        exact .map keys values
      · exact .refl _
      · exact .refl _
  obtain ⟨equal, content⟩ := map_encoding_ignores_history same
  obtain ⟨expr, encoded⟩ : ∃ expr, (Host.map insertedAgain).encode = .ok expr := ⟨_, rfl⟩
  obtain ⟨members, rfl, -, keys, values⟩ := content expr encoded
  obtain ⟨value, inner, held⟩ := values "let" _ rfl
  cases inner
  exact ⟨same, equal, members, encoded, (keys "\u00e9").trans (if_pos (by decide)), held⟩

end Host

end QueryWire
