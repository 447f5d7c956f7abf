import Mathlib.Data.List.Induction
import Mathlib.Data.String.Basic
import QueryWire.Binding
import QueryWire.Proofs.Result

namespace QueryWire.Members

variable {α ε : Type}

theorem mem_put {entry : String × α} {name : String} {value : α}
    {members : List (String × α)} (member : entry ∈ put name value members) :
    entry = (name, value) ∨ entry ∈ members := by
  induction members with
  | nil => exact .inl (by simpa [put] using member)
  | cons head rest ih =>
      obtain ⟨other, held⟩ := head
      by_cases equal : other = name
      · simp only [put, equal, ↓reduceIte, List.mem_cons] at member ⊢
        exact member.imp_right .inr
      · simp only [put, equal, ↓reduceIte, List.mem_cons] at member ⊢
        rcases member with rfl | deeper
        · exact .inr (.inl rfl)
        · exact (ih deeper).imp_right .inr

theorem nodup_names_put {name : String} {value : α} {members : List (String × α)}
    (distinct : (names members).Nodup) : (names (put name value members)).Nodup := by
  rw [names_put]
  split
  · exact distinct
  · rename_i absent
    rw [List.nodup_append]
    exact ⟨distinct, by simp, by
      rintro held present other single rfl
      exact absent (List.mem_singleton.mp single ▸ present)⟩

theorem put_of_notMem {name : String} {value : α} {members : List (String × α)}
    (absent : name ∉ names members) :
    put name value members = members ++ [(name, value)] := by
  induction members with
  | nil => rfl
  | cons head rest ih =>
      obtain ⟨other, held⟩ := head
      simp only [names, List.map_cons, List.mem_cons, not_or] at absent
      simp only [put, Ne.symm absent.1, ↓reduceIte, List.cons_append, ih absent.2]

/-- Members that are made pair by pair have only entries that are among the pairs. -/
theorem mem_of_mem_foldl {step : List (String × α) → String × α → List (String × α)}
    (stepped : ∀ members pair entry, entry ∈ step members pair → entry = pair ∨ entry ∈ members)
    {entry : String × α} {pairs : List (String × α)} (member : entry ∈ pairs.foldl step []) :
    entry ∈ pairs := by
  induction pairs using List.reverseRecOn with
  | nil => exact member
  | append_singleton pairs pair ih =>
      rw [List.foldl_concat] at member
      rcases stepped _ _ _ member with rfl | earlier
      · exact List.mem_append_right pairs List.mem_cons_self
      · exact List.mem_append_left [pair] (ih earlier)

theorem ofPairs_concat (pairs : List (String × α)) (pair : String × α) :
    ofPairs (pairs ++ [pair]) = put pair.1 pair.2 (ofPairs pairs) :=
  List.foldl_concat ..

theorem mem_of_mem_ofPairs {entry : String × α} {pairs : List (String × α)}
    (member : entry ∈ ofPairs pairs) : entry ∈ pairs :=
  mem_of_mem_foldl (fun _ _ _ => mem_put) member

theorem nodup_names_ofPairs (pairs : List (String × α)) : (names (ofPairs pairs)).Nodup := by
  induction pairs using List.reverseRecOn with
  | nil => exact List.nodup_nil
  | append_singleton pairs pair ih =>
      rw [ofPairs_concat]
      exact nodup_names_put ih

theorem names_concat (pairs : List (String × α)) (pair : String × α) :
    names (pairs ++ [pair]) = names pairs ++ [pair.1] :=
  List.map_append

theorem ofPairs_of_nodup {pairs : List (String × α)} (distinct : (names pairs).Nodup) :
    ofPairs pairs = pairs := by
  induction pairs using List.reverseRecOn with
  | nil => rfl
  | append_singleton pairs pair ih =>
      rw [names_concat, List.nodup_append] at distinct
      have absent : pair.1 ∉ names pairs := fun present =>
        distinct.2.2 pair.1 present pair.1 List.mem_cons_self rfl
      rw [ofPairs_concat, ih distinct.1, put_of_notMem absent]

theorem ofPairs_ofPairs (pairs : List (String × α)) : ofPairs (ofPairs pairs) = ofPairs pairs :=
  ofPairs_of_nodup (nodup_names_ofPairs pairs)

/-- The members that are left when the pairs are put one after the other. -/
def putAll (members pairs : List (String × α)) : List (String × α) :=
  pairs.foldl (fun members pair => put pair.1 pair.2 members) members

theorem putAll_ofPairs (pairs later : List (String × α)) :
    putAll (ofPairs pairs) later = ofPairs (pairs ++ later) :=
  List.foldl_append.symm

theorem mem_putSorted {entry : String × α} {name : String} {value : α}
    {members : List (String × α)} (member : entry ∈ putSorted name value members) :
    entry = (name, value) ∨ entry ∈ members := by
  induction members with
  | nil => exact .inl (by simpa [putSorted] using member)
  | cons head rest ih =>
      obtain ⟨other, held⟩ := head
      simp only [putSorted] at member
      split at member
      · exact (List.mem_cons.mp member).imp_right (List.mem_cons_of_mem _)
      · split at member
        · exact List.mem_cons.mp member
        · rcases List.mem_cons.mp member with rfl | deeper
          · exact .inr List.mem_cons_self
          · exact (ih deeper).imp_right (List.mem_cons_of_mem _)

theorem mem_names_putSorted {wanted name : String} {value : α} {members : List (String × α)}
    (member : wanted ∈ names (putSorted name value members)) :
    wanted = name ∨ wanted ∈ names members := by
  obtain ⟨entry, held, rfl⟩ := List.mem_map.mp member
  exact (mem_putSorted held).imp (congrArg Prod.fst) fun old => List.mem_map_of_mem old

def Sorted (members : List (String × α)) : Prop :=
  (names members).Pairwise (· < ·)

theorem sorted_putSorted {name : String} {value : α} {members : List (String × α)}
    (sorted : Sorted members) : Sorted (putSorted name value members) := by
  induction members with
  | nil => simp [putSorted, Sorted, names]
  | cons head rest ih =>
      obtain ⟨other, held⟩ := head
      obtain ⟨least, restSorted⟩ := List.pairwise_cons.mp sorted
      simp only [putSorted]
      split
      · rename_i equal
        exact List.pairwise_cons.mpr ⟨equal ▸ least, restSorted⟩
      · rename_i unequal
        split
        · rename_i below
          refine List.pairwise_cons.mpr ⟨fun later inside => ?_, sorted⟩
          rcases List.mem_cons.mp inside with rfl | deeper
          · exact below
          · exact String.lt_trans below (least later deeper)
        · rename_i notBelow
          refine List.pairwise_cons.mpr ⟨fun later inside => ?_, ih restSorted⟩
          rcases mem_names_putSorted inside with rfl | deeper
          · exact lt_of_le_of_ne (not_lt.mp notBelow) unequal
          · exact least later deeper

theorem sortedOfPairs_concat (pairs : List (String × α)) (pair : String × α) :
    sortedOfPairs (pairs ++ [pair]) = putSorted pair.1 pair.2 (sortedOfPairs pairs) :=
  List.foldl_concat ..

theorem sorted_sortedOfPairs (pairs : List (String × α)) : Sorted (sortedOfPairs pairs) := by
  -- The last pair is put last, so the induction takes pairs off the end.
  induction pairs using List.reverseRecOn with
  | nil => exact List.Pairwise.nil
  | append_singleton pairs pair ih =>
      rw [sortedOfPairs_concat]
      exact sorted_putSorted ih

theorem mem_of_mem_sortedOfPairs {entry : String × α} {pairs : List (String × α)}
    (member : entry ∈ sortedOfPairs pairs) : entry ∈ pairs :=
  mem_of_mem_foldl (fun _ _ _ => mem_putSorted) member

/-! ## Values under a function -/

variable {β : Type}

def mapValues (f : α → β) (members : List (String × α)) : List (String × β) :=
  members.map fun member => (member.1, f member.2)

@[simp] theorem mapValues_nil (f : α → β) : mapValues f [] = [] := rfl

@[simp] theorem mapValues_cons (f : α → β) (member : String × α)
    (members : List (String × α)) :
    mapValues f (member :: members) = (member.1, f member.2) :: mapValues f members := rfl

theorem mapValues_concat (f : α → β) (members : List (String × α)) (member : String × α) :
    mapValues f (members ++ [member]) = mapValues f members ++ [(member.1, f member.2)] :=
  List.map_append

theorem names_mapValues (f : α → β) (members : List (String × α)) :
    names (mapValues f members) = names members := by
  simp [names, mapValues, Function.comp_def]

theorem mapValues_mapValues_cancel {f : α → β} {g : β → α} {members : List (String × α)}
    (cancel : ∀ member ∈ members, g (f member.2) = member.2) :
    mapValues g (mapValues f members) = members := by
  have same : members.map (fun member => (member.1, g (f member.2))) = members.map id :=
    List.map_congr_left fun member inside => by rw [cancel member inside, id]
  simpa [mapValues, Function.comp_def] using same

theorem put_mapValues (f : α → β) (name : String) (value : α) (members : List (String × α)) :
    put name (f value) (mapValues f members) = mapValues f (put name value members) := by
  induction members with
  | nil => rfl
  | cons head rest ih =>
      obtain ⟨other, held⟩ := head
      simp only [mapValues, List.map_cons, put] at ih ⊢
      split
      · rfl
      · rw [ih, List.map_cons]

theorem ofPairs_mapValues (f : α → β) (pairs : List (String × α)) :
    ofPairs (mapValues f pairs) = mapValues f (ofPairs pairs) := by
  induction pairs using List.reverseRecOn with
  | nil => rfl
  | append_singleton pairs pair ih =>
      rw [mapValues_concat, ofPairs_concat, ofPairs_concat, ih]
      exact put_mapValues f pair.1 pair.2 (ofPairs pairs)

theorem putSorted_mapValues (f : α → β) (name : String) (value : α)
    (members : List (String × α)) :
    putSorted name (f value) (mapValues f members) =
      mapValues f (putSorted name value members) := by
  induction members with
  | nil => rfl
  | cons head rest ih =>
      obtain ⟨other, held⟩ := head
      simp only [mapValues, List.map_cons, putSorted] at ih ⊢
      split
      · rfl
      · split
        · rfl
        · rw [ih, List.map_cons]

theorem sortedOfPairs_mapValues (f : α → β) (pairs : List (String × α)) :
    sortedOfPairs (mapValues f pairs) = mapValues f (sortedOfPairs pairs) := by
  induction pairs using List.reverseRecOn with
  | nil => rfl
  | append_singleton pairs pair ih =>
      rw [mapValues_concat, sortedOfPairs_concat, sortedOfPairs_concat, ih]
      exact putSorted_mapValues f pair.1 pair.2 (sortedOfPairs pairs)

theorem allOk_mapValues (f : α → β) (results : List (String × Except ε α)) :
    allOk (mapValues (Except.map f) results) = (allOk results).map (mapValues f) := by
  induction results with
  | nil => rfl
  | cons result results ih =>
      obtain ⟨name, outcome⟩ := result
      cases outcome with
      | error reason => rfl
      | ok value =>
          simp only [mapValues, List.map_cons, allOk, Except.map] at ih ⊢
          rw [ih]
          cases allOk results <;> rfl

theorem eq_mapValues_of_allOk {results : List (String × Except ε α)} {members : List (String × α)}
    (all : allOk results = .ok members) : results = mapValues .ok members := by
  induction results generalizing members with
  | nil =>
      cases all
      rfl
  | cons result results ih =>
      obtain ⟨name, outcome⟩ := result
      obtain ⟨value, rfl, rest⟩ := bind_eq_ok all
      obtain ⟨others, later, made⟩ := bind_eq_ok rest
      cases made
      rw [mapValues_cons, ← ih later]

/-- Results that are all there keep their names, and every member is one of
them. -/
theorem allOk_ok {results : List (String × Except ε α)} {members : List (String × α)}
    (all : allOk results = .ok members) :
    names members = names results ∧
      ∀ member ∈ members, (member.1, .ok member.2) ∈ results := by
  rw [eq_mapValues_of_allOk all]
  exact ⟨(names_mapValues _ members).symm, fun member inside => List.mem_map_of_mem inside⟩

theorem lookup_mapValues (f : α → β) (name : String) (members : List (String × α)) :
    (mapValues f members).lookup name = (members.lookup name).map f := by
  induction members with
  | nil => rfl
  | cons member members ih =>
      obtain ⟨other, held⟩ := member
      simp only [mapValues, List.map_cons, List.lookup_cons] at ih ⊢
      split
      · rfl
      · exact ih

/-! ## The last entry of each name -/

/-- The names keep the order of their first occurrence. -/
theorem names_ofPairs (pairs : List (String × α)) :
    names (ofPairs pairs) = (names pairs).eraseDups := by
  induction pairs using List.reverseRecOn with
  | nil => rfl
  | append_singleton pairs pair ih =>
      rw [ofPairs_concat, names_put, names_concat, List.eraseDups_append, ih]
      by_cases known : pair.1 ∈ names pairs <;>
        simp [known, List.removeAll, List.eraseDups_cons]

theorem lookup_cons_of_ne {name : String} {entry : String × α} (unequal : name ≠ entry.1)
    (members : List (String × α)) : (entry :: members).lookup name = members.lookup name := by
  rw [List.lookup_cons, beq_false_of_ne unequal]

/-- However entries are put, a name has the value that was put last. -/
theorem lookup_foldl {step : List (String × α) → String × α → List (String × α)}
    (self : ∀ members pair, (step members pair).lookup pair.1 = some pair.2)
    (others : ∀ members pair name, name ≠ pair.1 →
      (step members pair).lookup name = members.lookup name)
    (name : String) (pairs : List (String × α)) :
    (pairs.foldl step []).lookup name = pairs.reverse.lookup name := by
  induction pairs using List.reverseRecOn with
  | nil => rfl
  | append_singleton pairs pair ih =>
      rw [List.foldl_concat, List.reverse_concat]
      by_cases same : name = pair.1
      · rw [same, self]
        exact List.lookup_cons_self.symm
      · rw [others _ _ _ same, ih, lookup_cons_of_ne same]

theorem lookup_ofPairs (name : String) (pairs : List (String × α)) :
    (ofPairs pairs).lookup name = pairs.reverse.lookup name :=
  lookup_foldl (fun members pair => lookup_put_self pair.1 pair.2 members)
    (fun members pair _ unequal => lookup_put_of_ne unequal pair.2 members) name pairs

/-- The value of the last entry of a name. -/
def last? (members : List (String × α)) (name : String) : Option α :=
  members.reverse.lookup name

theorem last?_mapValues (f : α → β) (members : List (String × α)) (name : String) :
    last? (mapValues f members) name = (last? members name).map f := by
  rw [last?, mapValues, ← List.map_reverse]
  exact lookup_mapValues f name members.reverse

theorem mem_names_iff_lookup {members : List (String × α)} {name : String} :
    name ∈ names members ↔ ∃ value, members.lookup name = some value := by
  rw [← Option.isSome_iff_exists, List.lookup_isSome_iff, names, List.mem_map]
  simp only [beq_iff_eq, @eq_comm _ name]

theorem mem_iff_lookup {members : List (String × α)} (distinct : (names members).Nodup)
    {entry : String × α} : entry ∈ members ↔ members.lookup entry.1 = some entry.2 := by
  induction members with
  | nil => exact iff_of_false List.not_mem_nil nofun
  | cons first members ih =>
      obtain ⟨absent, later⟩ := List.nodup_cons.mp distinct
      rw [List.mem_cons]
      by_cases same : entry.1 = first.1
      · have apart : entry ∉ members := fun member => absent (same ▸ List.mem_map_of_mem member)
        rw [same, show (first :: members).lookup first.1 = some first.2 from List.lookup_cons_self]
        simp only [apart, or_false, Option.some.injEq]
        exact ⟨fun equal => equal ▸ rfl, fun value => Prod.ext same value.symm⟩
      · rw [lookup_cons_of_ne same, ← ih later, or_iff_right]
        exact fun equal => same (equal ▸ rfl)

theorem names_reverse (members : List (String × α)) :
    names members.reverse = (names members).reverse :=
  List.map_reverse

theorem mem_names_iff_last? {members : List (String × α)} {name : String} :
    name ∈ names members ↔ ∃ value, last? members name = some value := by
  simp only [last?, ← mem_names_iff_lookup, names_reverse, List.mem_reverse]

theorem last?_eq_none_iff {members : List (String × α)} {name : String} :
    last? members name = none ↔ name ∉ names members := by
  rw [mem_names_iff_last?, ← Option.isSome_iff_exists, Option.not_isSome_iff_eq_none]

theorem map_last?_congr {f : α → β} {members others : List (String × α)} {name : String}
    (present : name ∈ names members ↔ name ∈ names others)
    (values : ∀ value other, last? members name = some value → last? others name = some other →
      f value = f other) :
    (last? members name).map f = (last? others name).map f := by
  by_cases member : name ∈ names members
  · obtain ⟨value, last⟩ := mem_names_iff_last?.mp member
    obtain ⟨other, last'⟩ := mem_names_iff_last?.mp (present.mp member)
    rw [last, last']
    exact congrArg some (values value other last last')
  · rw [last?_eq_none_iff.mpr member, last?_eq_none_iff.mpr (mt present.mpr member)]

/-- Every name in the order of the first occurrences, with its last value. -/
def lastOfEach (members : List (String × α)) : List (String × α) :=
  (names members).eraseDups.filterMap fun name =>
    (members.reverse.lookup name).map fun value => (name, value)

theorem eq_filterMap_lookup {members : List (String × α)} (distinct : (names members).Nodup) :
    (names members).filterMap (fun name => (members.lookup name).map fun value => (name, value)) =
      members := by
  induction members with
  | nil => rfl
  | cons entry members ih =>
      obtain ⟨absent, later⟩ := List.nodup_cons.mp distinct
      have others : (names members).filterMap (fun name =>
            ((entry :: members).lookup name).map fun value => (name, value)) =
          (names members).filterMap fun name =>
            (members.lookup name).map fun value => (name, value) := by
        refine List.filterMap_congr fun name member => ?_
        rw [lookup_cons_of_ne (fun same => absent (same ▸ member))]
      have first : (entry :: members).lookup entry.1 = some entry.2 := List.lookup_cons_self
      rw [names, List.map_cons, List.filterMap_cons, first]
      exact congrArg (entry :: ·) (others.trans (ih later))

theorem ofPairs_eq_lastOfEach (pairs : List (String × α)) : ofPairs pairs = lastOfEach pairs := by
  rw [lastOfEach, ← names_ofPairs]
  simp only [← lookup_ofPairs]
  exact (eq_filterMap_lookup (nodup_names_ofPairs pairs)).symm

end QueryWire.Members
