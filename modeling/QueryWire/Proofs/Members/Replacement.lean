import QueryWire.Proofs.Members

namespace QueryWire.Members

variable {α : Type}

/-- The pairs give the one name for the first time before they give the other. -/
def GivenBefore (pairs : List (String × α)) (name other : String) : Prop :=
  (names pairs).idxOf name < (names pairs).idxOf other

/-- The value is what the pairs give the name last. -/
def GivenLast (pairs : List (String × α)) (name : String) (value : α) : Prop :=
  ∃ earlier later, pairs = earlier ++ (name, value) :: later ∧ name ∉ names later

theorem idxOf_concat_of_mem {pairs : List (String × α)} {name : String}
    (given : name ∈ names pairs) (pair : String × α) :
    (names (pairs ++ [pair])).idxOf name = (names pairs).idxOf name := by
  rw [names_concat, List.idxOf_append_of_mem given]

theorem givenBefore_concat {pairs : List (String × α)} {name other : String}
    (given : name ∈ names pairs) (given' : other ∈ names pairs) (pair : String × α) :
    GivenBefore (pairs ++ [pair]) name other ↔ GivenBefore pairs name other := by
  rw [GivenBefore, idxOf_concat_of_mem given, idxOf_concat_of_mem given', GivenBefore]

/-- A name that is new comes after all that were given. -/
theorem givenBefore_new {pairs : List (String × α)} {name : String} {pair : String × α}
    (given : name ∈ names pairs) (new : pair.1 ∉ names pairs) :
    GivenBefore (pairs ++ [pair]) name pair.1 := by
  rw [GivenBefore, idxOf_concat_of_mem given, names_concat, List.idxOf_append_of_notMem new]
  exact Nat.lt_add_right _ (List.idxOf_lt_length_of_mem given)

theorem mem_names_ofPairs {pairs : List (String × α)} {name : String} :
    name ∈ names (ofPairs pairs) ↔ name ∈ names pairs := by
  rw [names_ofPairs, List.mem_eraseDups]

/-- Putting one more pair keeps the names in the order in which they were given first. -/
theorem ordered_put {pairs members : List (String × α)}
    (same : ∀ name, name ∈ names members ↔ name ∈ names pairs)
    (ordered : (names members).Pairwise (GivenBefore pairs)) (pair : String × α) :
    (names (put pair.1 pair.2 members)).Pairwise (GivenBefore (pairs ++ [pair])) := by
  have kept : (names members).Pairwise (GivenBefore (pairs ++ [pair])) :=
    ordered.imp_of_mem fun {name other} member member' before =>
      (givenBefore_concat ((same name).mp member) ((same other).mp member') pair).mpr before
  rw [names_put]
  split
  · exact kept
  · rename_i absent
    refine List.pairwise_append.mpr ⟨kept, List.pairwise_singleton _ _, fun name member last => ?_⟩
    rw [List.mem_singleton]
    rintro rfl
    exact givenBefore_new ((same name).mp member) (mt (same pair.1).mpr absent)

theorem ordered_ofPairs (pairs : List (String × α)) :
    (names (ofPairs pairs)).Pairwise (GivenBefore pairs) := by
  induction pairs using List.reverseRecOn with
  | nil => exact List.Pairwise.nil
  | append_singleton pairs pair ih =>
      rw [ofPairs_concat]
      exact ordered_put (fun name => mem_names_ofPairs) ih pair

theorem notMem_names_iff {members : List (String × α)} {name : String} :
    name ∉ names members ↔ ∀ member ∈ members, (name != member.1) = true := by
  simp only [names, List.mem_map, not_exists, not_and, bne_iff_ne, ne_comm (a := name)]

theorem last?_eq_some_iff {pairs : List (String × α)} {name : String} {value : α} :
    last? pairs name = some value ↔ GivenLast pairs name value := by
  rw [last?, List.lookup_eq_some_iff]
  constructor
  · rintro ⟨later, earlier, split, absent⟩
    refine ⟨earlier.reverse, later.reverse, ?_, ?_⟩
    · simpa using List.reverse_eq_append_iff.mp split
    · rw [names_reverse, List.mem_reverse]
      exact notMem_names_iff.mpr absent
  · rintro ⟨earlier, later, rfl, absent⟩
    refine ⟨later.reverse, earlier.reverse, by simp, ?_⟩
    rw [← notMem_names_iff, names_reverse, List.mem_reverse]
    exact absent

/-- An object made of pairs has each name once, where it is given first, with the value that it
is given last.  Further pairs are put as if they had been among the first ones, and the entries
of the object make it again. -/
theorem first_places_hold_last_values (pairs later : List (String × Expr)) :
    (names (ofPairs pairs)).Nodup ∧
      (∀ name, name ∈ names (ofPairs pairs) ↔ name ∈ names pairs) ∧
      (names (ofPairs pairs)).Pairwise (GivenBefore pairs) ∧
      (∀ name value, (name, value) ∈ ofPairs pairs ↔ GivenLast pairs name value) ∧
      (∀ name value,
        (Expr.object (ofPairs pairs)).get? name = some value ↔ GivenLast pairs name value) ∧
      (∀ name, (Expr.object (ofPairs pairs)).get? name = none ↔ name ∉ names pairs) ∧
      putAll (ofPairs pairs) later = ofPairs (pairs ++ later) ∧
      ofPairs (ofPairs pairs) = ofPairs pairs := by
  have distinct := nodup_names_ofPairs pairs
  have found (name : String) : (Expr.object (ofPairs pairs)).get? name = last? pairs name :=
    lookup_ofPairs name pairs
  refine ⟨distinct, fun name => mem_names_ofPairs, ordered_ofPairs pairs, fun name value => ?_,
    fun name value => ?_, fun name => ?_, putAll_ofPairs pairs later, ofPairs_ofPairs pairs⟩
  · rw [mem_iff_lookup distinct, lookup_ofPairs]
    exact last?_eq_some_iff
  · rw [found, last?_eq_some_iff]
  · rw [found, last?_eq_none_iff]

end QueryWire.Members
