import Mathlib.Data.List.Nodup
import QueryWire.Proofs.Members
import QueryWire.Proofs.Text.Utf8

namespace QueryWire.Members

variable {α β : Type}

/-- Every name with its last value, in the order of the bytes of the names. -/
def lastInByteOrder (members : List (String × α)) : List (String × α) :=
  (lastOfEach members).mergeSort fun entry other =>
    Text.utf8 entry.1.toList ≤ Text.utf8 other.1.toList

theorem lookup_putSorted_self (name : String) (value : α) (members : List (String × α)) :
    (putSorted name value members).lookup name = some value := by
  induction members with
  | nil => exact List.lookup_cons_self
  | cons entry rest ih =>
      obtain ⟨other, held⟩ := entry
      simp only [putSorted]
      split
      · exact List.lookup_cons_self
      · rename_i unequal
        split
        · exact List.lookup_cons_self
        · rw [lookup_cons_of_ne (Ne.symm unequal), ih]

theorem lookup_putSorted_of_ne {name wanted : String} (unequal : wanted ≠ name) (value : α)
    (members : List (String × α)) :
    (putSorted name value members).lookup wanted = members.lookup wanted := by
  induction members with
  | nil => exact lookup_cons_of_ne unequal []
  | cons entry rest ih =>
      obtain ⟨other, held⟩ := entry
      simp only [putSorted]
      split
      · rename_i equal
        rw [lookup_cons_of_ne unequal, lookup_cons_of_ne (equal ▸ unequal)]
      · split
        · exact lookup_cons_of_ne unequal _
        · rw [List.lookup_cons, List.lookup_cons, ih]

theorem lookup_sortedOfPairs (name : String) (pairs : List (String × α)) :
    (sortedOfPairs pairs).lookup name = pairs.reverse.lookup name :=
  lookup_foldl (fun members pair => lookup_putSorted_self pair.1 pair.2 members)
    (fun members pair _ unequal => lookup_putSorted_of_ne unequal pair.2 members) name pairs

theorem Sorted.nodup {members : List (String × α)} (sorted : Sorted members) :
    (names members).Nodup :=
  List.Pairwise.imp (fun below => ne_of_lt below) sorted

theorem nodup_of_names {members : List (String × α)} (distinct : (names members).Nodup) :
    members.Nodup :=
  List.Nodup.of_map Prod.fst distinct

theorem perm_of_lookup {members others : List (String × α)} (distinct : (names members).Nodup)
    (distinct' : (names others).Nodup)
    (same : ∀ name, members.lookup name = others.lookup name) : members.Perm others := by
  refine (List.perm_ext_iff_of_nodup (nodup_of_names distinct) (nodup_of_names distinct')).mpr ?_
  intro entry
  rw [mem_iff_lookup distinct, mem_iff_lookup distinct', same]

theorem sortedOfPairs_perm (pairs : List (String × α)) :
    (sortedOfPairs pairs).Perm (lastOfEach pairs) := by
  rw [← ofPairs_eq_lastOfEach]
  refine perm_of_lookup (sorted_sortedOfPairs pairs).nodup (nodup_names_ofPairs pairs) ?_
  intro name
  rw [lookup_sortedOfPairs, lookup_ofPairs]

theorem bytes_lt_iff {name other : String} :
    Text.utf8 name.toList < Text.utf8 other.toList ↔ name < other :=
  Text.utf8_lt_iff.trans String.lt_iff_toList_lt.symm

theorem bytes_le_iff {name other : String} :
    Text.utf8 name.toList ≤ Text.utf8 other.toList ↔ name ≤ other := by
  rw [← List.not_lt, bytes_lt_iff, not_lt]

/-- Distinct names have only one order. -/
theorem eq_of_perm_of_ordered {members others : List (String × α)}
    (distinct : (names members).Nodup) (perm : members.Perm others)
    (ordered : members.Pairwise fun entry other => entry.1 ≤ other.1)
    (ordered' : others.Pairwise fun entry other => entry.1 ≤ other.1) : members = others := by
  refine perm.eq_of_pairwise (fun entry other member member' below above => ?_) ordered ordered'
  have name : entry.1 = other.1 := le_antisymm below above
  have held := (mem_iff_lookup distinct).mp member
  have held' := (mem_iff_lookup distinct).mp (perm.mem_iff.mpr member')
  rw [name, held'] at held
  exact Prod.ext name (Option.some.inj held).symm

theorem Sorted.ordered {members : List (String × α)} (sorted : Sorted members) :
    members.Pairwise fun entry other => entry.1 ≤ other.1 :=
  (List.pairwise_map.mp sorted).imp fun below => le_of_lt below

theorem Sorted.ext {members others : List (String × α)} (sorted : Sorted members)
    (sorted' : Sorted others) (same : ∀ name, members.lookup name = others.lookup name) :
    members = others := by
  have perm := perm_of_lookup sorted.nodup sorted'.nodup same
  exact eq_of_perm_of_ordered sorted.nodup perm sorted.ordered sorted'.ordered

theorem mem_names_sortedOfPairs {name : String} {pairs : List (String × α)} :
    name ∈ names (sortedOfPairs pairs) ↔ name ∈ names pairs := by
  rw [mem_names_iff_lookup, lookup_sortedOfPairs]
  exact mem_names_iff_last?.symm

/-- What is kept in the order of the names depends on the last value of each name alone. -/
theorem sortedOfPairs_eq_of_last? {pairs others : List (String × α)}
    (same : ∀ name, last? pairs name = last? others name) :
    sortedOfPairs pairs = sortedOfPairs others := by
  refine Sorted.ext (sorted_sortedOfPairs pairs) (sorted_sortedOfPairs others) fun name => ?_
  rw [lookup_sortedOfPairs, lookup_sortedOfPairs]
  exact same name

/-- What is kept sorted while entries are put is what sorting the last ones gives. -/
theorem sortedOfPairs_eq_lastInByteOrder (pairs : List (String × α)) :
    sortedOfPairs pairs = lastInByteOrder pairs := by
  have sorted := sorted_sortedOfPairs pairs
  have bytewise : (lastInByteOrder pairs).Pairwise fun entry other => entry.1 ≤ other.1 := by
    refine (List.pairwise_mergeSort ?_ ?_ (lastOfEach pairs)).imp fun below => ?_
    · simpa only [decide_eq_true_eq, bytes_le_iff] using fun first second third => le_trans
    · simpa only [Bool.or_eq_true, decide_eq_true_eq, bytes_le_iff] using
        fun first second => le_total _ _
    · exact bytes_le_iff.mp (of_decide_eq_true below)
  have perm : (sortedOfPairs pairs).Perm (lastInByteOrder pairs) :=
    (sortedOfPairs_perm pairs).trans (List.mergeSort_perm _ _).symm
  exact eq_of_perm_of_ordered sorted.nodup perm sorted.ordered bytewise

theorem lastOfEach_mapValues (f : α → β) (pairs : List (String × α)) :
    lastOfEach (mapValues f pairs) = mapValues f (lastOfEach pairs) := by
  rw [← ofPairs_eq_lastOfEach, ofPairs_mapValues, ofPairs_eq_lastOfEach]

theorem lastInByteOrder_mapValues (f : α → β) (pairs : List (String × α)) :
    lastInByteOrder (mapValues f pairs) = mapValues f (lastInByteOrder pairs) := by
  rw [← sortedOfPairs_eq_lastInByteOrder, sortedOfPairs_mapValues, sortedOfPairs_eq_lastInByteOrder]

end QueryWire.Members
