import QueryWire.Host
import QueryWire.Proofs.Json.RoundTrip
import QueryWire.Proofs.Members.ByteOrder

namespace QueryWire

namespace Host

/-- What stands at a leaf of a host value. -/
inductive Leaf (ν ε : Type) where
  | null
  | boolean (value : Bool)
  | string (text : String)
  | number (number : Number)
  | value (value : ν)
  | expr (expr : ε)

end Host

variable {ν ε : Type}

namespace Json

mutual

/-- The leaves of the tree, in the order of iteration.  A member that a later one replaces is
not held. -/
def leaves : Json Number → List (Host.Leaf ν ε)
  | .null => [.null]
  | .boolean value => [.boolean value]
  | .number value => [.number value]
  | .string text => [.string text]
  | .array items => leavesOfItems items
  | .object members => (Members.lastOfEach (leavesOfMembers members)).flatMap Prod.snd

def leavesOfItems : List (Json Number) → List (Host.Leaf ν ε)
  | [] => []
  | item :: items => item.leaves ++ leavesOfItems items

def leavesOfMembers : List (String × Json Number) → List (String × List (Host.Leaf ν ε))
  | [] => []
  | (name, value) :: members => (name, value.leaves) :: leavesOfMembers members

end

end Json

namespace Host

mutual

/-- The leaves that the host value holds, in the order of iteration.  An entry that a later
one replaces is not held. -/
def leaves : Host ν ε → List (Leaf ν ε)
  | .string text => [.string text]
  | .boolean on => [.boolean on]
  | .int32 n => [.number (.integer (.ofSigned n.toInt64))]
  | .int64 n => [.number (.integer (.ofSigned n))]
  | .uint32 n => [.number (.integer (.ofUnsigned n.toUInt64))]
  | .uint64 n => [.number (.integer (.ofUnsigned n))]
  | .double x => [.number (.double x)]
  | .value leaf => [.value leaf]
  | .expr leaf => [.expr leaf]
  | .absent => [.null]
  | .present host => host.leaves
  | .sequence items => leavesOfItems items
  | .map insertions => (Members.lastInByteOrder (leavesOfInsertions insertions)).flatMap Prod.snd
  | .json tree => tree.leaves

def leavesOfItems : List (Host ν ε) → List (Leaf ν ε)
  | [] => []
  | item :: items => item.leaves ++ leavesOfItems items

def leavesOfInsertions : List (String × Host ν ε) → List (String × List (Leaf ν ε))
  | [] => []
  | (key, host) :: insertions => (key, host.leaves) :: leavesOfInsertions insertions

end

/-- The host values directly inside a host value. -/
def parts : Host ν ε → List (Host ν ε)
  | .present host => [host]
  | .sequence items => items
  | .map insertions => insertions.map Prod.snd
  | _ => []

theorem sizeOf_part_lt {host part : Host ν ε} (member : part ∈ host.parts) :
    sizeOf part < sizeOf host := by
  cases host with
  | present host =>
      cases List.mem_singleton.mp member
      simp only [present.sizeOf_spec]
      omega
  | sequence items =>
      have := List.sizeOf_lt_of_mem (show part ∈ items from member)
      simp only [sequence.sizeOf_spec]
      omega
  | map insertions =>
      obtain ⟨⟨key, value⟩, inside, rfl⟩ := List.mem_map.mp member
      have := List.sizeOf_lt_of_mem inside
      simp only [map.sizeOf_spec, Prod.mk.sizeOf_spec] at this ⊢
      omega
  | _ => cases member

/-- What follows for every host value from its parts holds of all host values. -/
theorem induction_parts {motive : Host ν ε → Prop}
    (step : ∀ host, (∀ part ∈ host.parts, motive part) → motive host) (host : Host ν ε) :
    motive host :=
  step host fun part member =>
    have := sizeOf_part_lt member
    induction_parts step part
termination_by sizeOf host

theorem encodeItems_eq_mapM (items : List (Host Value Expr)) :
    encodeItems items = items.mapM encode := by
  induction items with
  | nil => rfl
  | cons item items ih => rw [encodeItems, List.mapM_cons, ih]

theorem encodeInsertions_eq_mapValues (insertions : List (String × Host Value Expr)) :
    encodeInsertions insertions = Members.mapValues encode insertions := by
  induction insertions with
  | nil => rfl
  | cons insertion insertions ih => exact congrArg (_ :: ·) ih

theorem leavesOfItems_eq_flatMap (items : List (Host ν ε)) :
    leavesOfItems items = items.flatMap leaves := by
  induction items with
  | nil => rfl
  | cons item items ih => rw [leavesOfItems, List.flatMap_cons, ih]

theorem leavesOfInsertions_eq_mapValues (insertions : List (String × Host ν ε)) :
    leavesOfInsertions insertions = Members.mapValues leaves insertions := by
  induction insertions with
  | nil => rfl
  | cons insertion insertions ih => exact congrArg (_ :: ·) ih

end Host

namespace Json

theorem encodeItems_eq_mapM (items : List (Json Number)) :
    encodeItems items = items.mapM encode := by
  induction items with
  | nil => rfl
  | cons item items ih => rw [encodeItems, List.mapM_cons, ih]

theorem encodeMembers_eq_mapValues (members : List (String × Json Number)) :
    encodeMembers members = Members.mapValues encode members := by
  induction members with
  | nil => rfl
  | cons member members ih => exact congrArg (_ :: ·) ih

theorem leavesOfItems_eq_flatMap (items : List (Json Number)) :
    (leavesOfItems items : List (Host.Leaf ν ε)) = items.flatMap leaves := by
  induction items with
  | nil => rfl
  | cons item items ih => rw [leavesOfItems, List.flatMap_cons, ih]

theorem leavesOfMembers_eq_mapValues (members : List (String × Json Number)) :
    (leavesOfMembers members : List (String × List (Host.Leaf ν ε))) =
      Members.mapValues leaves members := by
  induction members with
  | nil => rfl
  | cons member members ih => exact congrArg (_ :: ·) ih

end Json

namespace Number

/-- The number has no form on the wire: no long holds it, or it is not finite. -/
def Refused : Number → Prop
  | .integer n => Int64.maxValue.toInt < n.value
  | .double x => x.isFinite = false

/-- What is wrong with the number if it is refused. -/
def fault : Number → LiteralFault
  | .integer n => .exceedsLong n.value.toNat
  | .double x => .notFinite x

theorem encode_of_refused {number : Number} (refused : number.Refused) :
    number.encode = .error (.literal number.fault) := by
  cases number with
  | integer n =>
      have none : n.toSigned? = none := if_neg (not_le.mpr refused)
      rw [encode, none]
      rfl
  | double x =>
      have infinite : Value.ofDouble x = .error (.literal (.notFinite x)) :=
        if_neg (by simpa [Refused] using refused)
      rw [encode, infinite]
      rfl

theorem encode_of_not_refused {number : Number} (wanted : ¬ number.Refused) :
    ∃ expr, number.encode = .ok expr := by
  cases number with
  | integer n =>
      have signed : n.toSigned? = some (Int64.ofInt n.value) := if_pos (not_lt.mp wanted)
      exact ⟨_, by rw [encode, signed]⟩
  | double x =>
      have finite : Value.ofDouble x = .ok (.double x) := if_pos (by simpa [Refused] using wanted)
      exact ⟨_, by rw [encode, finite]; rfl⟩

/-- The kind of literal that a refused number is not, and the reason, which begins with the
number. -/
def complaint : Number → Kind × String
  | .integer n => (.long, String.ofList (Text.signedDecimal n.value) ++ " exceeds i64::MAX")
  | .double x => (.double, String.ofList x.text ++ " is not a finite number")

theorem complaint_of_fault {number : Number} (refused : number.Refused) :
    (number.fault.kind, number.fault.reason) = number.complaint := by
  cases number with
  | integer n =>
      rw [Refused, Int64.toInt_maxValue] at refused
      have digits : Text.signedDecimal n.value = Text.decimal n.value.toNat := by
        rw [Text.signedDecimal, if_neg (by omega), show n.value.natAbs = n.value.toNat by omega]
      rw [complaint, digits]
      rfl
  | double x => rfl

end Number

theorem Integer64.ofSigned_not_refused (n : Int64) : ¬ (Number.integer (.ofSigned n)).Refused :=
  not_lt.mpr n.toInt_le

theorem Integer64.ofUnsigned_not_refused (n : UInt32) :
    ¬ (Number.integer (.ofUnsigned n.toUInt64)).Refused := by
  have bound := n.toNat_lt
  have value : (ofUnsigned n.toUInt64).value = n.toNat :=
    congrArg Nat.cast (UInt32.toNat_toUInt64 n)
  rw [Number.Refused, value, Int64.toInt_maxValue]
  omega

namespace Host

def Leaf.Refused : Leaf ν ε → Prop
  | .number held => held.Refused
  | _ => False

/-- A result as the leaves lead to expect it: it is there if none of them is refused, and
else it is the error of the first that is. -/
inductive Reports {α : Type} (result : Except Error α) : List (Leaf ν ε) → Prop where
  | made {leaves : List (Leaf ν ε)} {value : α} (each : ∀ leaf ∈ leaves, ¬ leaf.Refused)
      (ok : result = .ok value) : Reports result leaves
  | refused {before later : List (Leaf ν ε)} {number : Number}
      (each : ∀ leaf ∈ before, ¬ leaf.Refused) (first : number.Refused)
      (error : result = .error (.literal number.fault)) :
      Reports result (before ++ .number number :: later)

namespace Reports

variable {α β : Type} {leaves more : List (Leaf ν ε)}

theorem bind {first : Except Error α} {next : α → Except Error β}
    (reports : Reports first leaves) (rest : ∀ made, Reports (next made) more) :
    Reports (first >>= next) (leaves ++ more) := by
  cases reports with
  | @made _ value each ok =>
      subst ok
      cases rest value with
      | made each' ok => exact .made (List.forall_mem_append.mpr ⟨each, each'⟩) ok
      | refused each' refused error =>
          rw [← List.append_assoc]
          exact .refused (List.forall_mem_append.mpr ⟨each, each'⟩) refused error
  | refused each refused error =>
      subst error
      rw [List.append_assoc, List.cons_append]
      exact .refused each refused rfl

theorem done (value : α) : Reports (.ok value) ([] : List (Leaf ν ε)) :=
  .made (List.forall_mem_nil _) rfl

/-- A last step that encodes no leaf. -/
theorem last {first : Except Error α} {next : α → β} (reports : Reports first leaves) :
    Reports (first >>= fun made => .ok (next made)) leaves :=
  List.append_nil leaves ▸ reports.bind fun made => done (next made)

theorem mapM {f : α → Except Error β} {g : α → List (Leaf ν ε)} {items : List α}
    (each : ∀ item ∈ items, Reports (f item) (g item)) :
    Reports (items.mapM f) (items.flatMap g) := by
  induction items with
  | nil => exact done []
  | cons item items ih =>
      obtain ⟨head, tail⟩ := List.forall_mem_cons.mp each
      rw [List.mapM_cons, List.flatMap_cons]
      exact head.bind fun made => (ih tail).last

theorem allOk {f : α → Except Error β} {g : α → List (Leaf ν ε)} {members : List (String × α)}
    (each : ∀ member ∈ members, Reports (f member.2) (g member.2)) :
    Reports (Members.allOk (Members.mapValues f members))
      ((Members.mapValues g members).flatMap Prod.snd) := by
  induction members with
  | nil => exact done []
  | cons member members ih =>
      obtain ⟨head, tail⟩ := List.forall_mem_cons.mp each
      exact head.bind fun made => (ih tail).last

end Reports

theorem reports_number (number : Number) :
    Reports number.encode ([.number number] : List (Leaf ν ε)) := by
  by_cases refused : number.Refused
  · have error := Number.encode_of_refused refused
    exact @Reports.refused _ _ _ _ [] [] number (List.forall_mem_nil _) refused error
  · obtain ⟨expr, ok⟩ := Number.encode_of_not_refused refused
    exact .made (List.forall_mem_singleton.mpr refused) ok

end Host

theorem Json.reports_encode (tree : Json Number) :
    Host.Reports tree.encode (tree.leaves : List (Host.Leaf ν ε)) := by
  have everywhere : tree.Each fun _ => True := .of_forall (fun _ => trivial) tree
  have scalar {value : Expr} {leaf : Host.Leaf ν ε} (wanted : ¬ leaf.Refused) :
      Host.Reports (.ok value) [leaf] := .made (List.forall_mem_singleton.mpr wanted) rfl
  induction everywhere with
  | null | boolean | string => exact scalar id
  | @number number => exact Host.reports_number number
  | @array items _ ih =>
      rw [encode, encodeItems_eq_mapM, leaves, leavesOfItems_eq_flatMap]
      exact (Host.Reports.mapM ih).last
  | @object members _ ih =>
      rw [encode, encodeMembers_eq_mapValues, leaves, leavesOfMembers_eq_mapValues,
        Members.ofPairs_mapValues, Members.lastOfEach_mapValues, ← Members.ofPairs_eq_lastOfEach]
      exact (Host.Reports.allOk fun member inside =>
        ih member (Members.mem_of_mem_ofPairs inside)).last

namespace Host

theorem reports_encode (host : Host Value Expr) : Reports host.encode host.leaves := by
  have scalar {value : Expr} {leaf : Leaf Value Expr} (wanted : ¬ leaf.Refused) :
      Reports (.ok value) [leaf] := .made (List.forall_mem_singleton.mpr wanted) rfl
  induction host using induction_parts with
  | step host ih =>
  cases host with
  | string | boolean | value | expr | absent => exact scalar id
  | int32 n => exact scalar (Integer64.ofSigned_not_refused n.toInt64)
  | int64 n => exact scalar (Integer64.ofSigned_not_refused n)
  | uint32 n => exact scalar (Integer64.ofUnsigned_not_refused n)
  | uint64 n => exact reports_number (.integer (.ofUnsigned n))
  | double x => exact reports_number (.double x)
  | present host => exact ih host List.mem_cons_self
  | sequence items =>
      rw [encode, encodeItems_eq_mapM, leaves, leavesOfItems_eq_flatMap]
      exact (Reports.mapM ih).last
  | map insertions =>
      rw [encode, encodeInsertions_eq_mapValues, leaves, leavesOfInsertions_eq_mapValues,
        Members.sortedOfPairs_mapValues, Members.lastInByteOrder_mapValues,
        ← Members.sortedOfPairs_eq_lastInByteOrder]
      refine (Reports.allOk fun entry inside => ih entry.2 ?_).last
      exact List.mem_map_of_mem (Members.mem_of_mem_sortedOfPairs inside)
  | json tree => exact tree.reports_encode

/-- Encoding fails just if a leaf that the host value still holds is refused.  The error is of
the first of these leaves in the order of iteration: it tells its kind and names its value. -/
theorem encode_fails_at_first_refused (host : Host Value Expr) :
    ((∃ reason, host.encode = .error reason) ↔ ∃ leaf ∈ host.leaves, leaf.Refused) ∧
      ∀ reason, host.encode = .error reason →
        ∃ before number later, host.leaves = before ++ .number number :: later ∧
          (∀ leaf ∈ before, ¬ leaf.Refused) ∧ number.Refused ∧
          ∃ fault, reason = .literal fault ∧ (fault.kind, fault.reason) = number.complaint := by
  have reports := host.reports_encode
  generalize host.encode = result at reports
  generalize host.leaves = leaves at reports
  cases reports with
  | made each ok =>
      subst ok
      refine ⟨iff_of_false nofun ?_, nofun⟩
      rintro ⟨leaf, member, refused⟩
      exact each leaf member refused
  | @refused before later number each first error =>
      subst error
      refine ⟨iff_of_true ⟨_, rfl⟩ ⟨.number number, by simp, first⟩, ?_⟩
      rintro reason ⟨⟩
      exact ⟨before, number, later, rfl, each, first, number.fault, rfl,
        Number.complaint_of_fault first⟩

/-- The first insertion has the last key, and the value that is no number is replaced. -/
def mapWithRefused : Host Value Expr :=
  .map [("\u00e9", .sequence [.double ⟨0x7FF0000000000000⟩]),
    ("z", .present (.uint64 18446744073709551615)), ("a", .double ⟨0x7FF8000000000000⟩),
    ("a", .absent)]

theorem encode_fails_at_first_refused_in_map :
    mapWithRefused.encode = .error (.literal (.exceedsLong 18446744073709551615)) ∧
      ∃ before number later, mapWithRefused.leaves = before ++ .number number :: later ∧
        (∀ leaf ∈ before, ¬ leaf.Refused) ∧ number.Refused := by
  have failed : mapWithRefused.encode = .error (.literal (.exceedsLong 18446744073709551615)) := rfl
  obtain ⟨before, number, later, held, each, refused, -⟩ :=
    (encode_fails_at_first_refused mapWithRefused).2 _ failed
  exact ⟨failed, before, number, later, held, each, refused⟩

end Host

end QueryWire
