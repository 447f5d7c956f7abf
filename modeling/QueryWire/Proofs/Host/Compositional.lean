import QueryWire.Proofs.Expr.Obtainable
import QueryWire.Proofs.Members

namespace QueryWire

namespace Value

/-- The value has a form on the wire, and if it is a string then a known one. -/
structure Supplied (known : List String) (value : Value) : Prop where
  made : value.Made
  own : ∀ text ∈ value.asString?, text ∈ known

variable {known : List String}

theorem supplied_string {text : String} (member : text ∈ known) :
    (Value.string text).Supplied known :=
  ⟨⟨.string text, rfl⟩, fun _ same => Option.some.inj same ▸ member⟩

theorem supplied_ofDouble {x : Decimal.Binary64} {value : Value}
    (made : ofDouble x = .ok value) : value.Supplied known := by
  refine ⟨⟨.double x, made⟩, ?_⟩
  simp only [ofDouble] at made
  split at made <;> cases made
  exact nofun

end Value

namespace Json

mutual

/-- The strings at the leaves of a JSON document. -/
def texts : Json Number → List String
  | .string text => [text]
  | .array items => textsOfItems items
  | .object members => textsOfMembers members
  | .null | .boolean _ | .number _ => []

def textsOfItems : List (Json Number) → List String
  | [] => []
  | item :: items => item.texts ++ textsOfItems items

def textsOfMembers : List (String × Json Number) → List String
  | [] => []
  | (_, value) :: members => value.texts ++ textsOfMembers members

end

end Json

namespace Host

variable {ν ε κ : Type}

def Collector.texts : Collector Value ε String where
  text content := [content]
  value leaf := leaf.asString?.toList
  json := Json.texts

/-- The strings in a host value, those of its expressions apart. -/
def texts (host : Host Value ε) : List String :=
  host.collect .texts

mutual

/-- The host value with other expressions at its leaves. -/
def mapExprs (f : ε → κ) : Host ν ε → Host ν κ
  | .string text => .string text
  | .boolean on => .boolean on
  | .int32 n => .int32 n
  | .int64 n => .int64 n
  | .uint32 n => .uint32 n
  | .uint64 n => .uint64 n
  | .double x => .double x
  | .value leaf => .value leaf
  | .expr leaf => .expr (f leaf)
  | .absent => .absent
  | .present host => .present (host.mapExprs f)
  | .sequence items => .sequence (mapExprsOfItems f items)
  | .map insertions => .map (mapExprsOfInsertions f insertions)
  | .json tree => .json tree

def mapExprsOfItems (f : ε → κ) : List (Host ν ε) → List (Host ν κ)
  | [] => []
  | item :: items => item.mapExprs f :: mapExprsOfItems f items

def mapExprsOfInsertions (f : ε → κ) : List (String × Host ν ε) → List (String × Host ν κ)
  | [] => []
  | (key, host) :: insertions => (key, host.mapExprs f) :: mapExprsOfInsertions f insertions

end

mutual

theorem mapExprs_id (host : Host ν ε) : host.mapExprs id = host := by
  match host with
  | .string _ | .boolean _ | .int32 _ | .int64 _ | .uint32 _ | .uint64 _ | .double _ | .value _
  | .expr _ | .absent | .json _ => rfl
  | .present host => exact congrArg Host.present (mapExprs_id host)
  | .sequence items => exact congrArg Host.sequence (mapExprsOfItems_id items)
  | .map insertions => exact congrArg Host.map (mapExprsOfInsertions_id insertions)

theorem mapExprsOfItems_id (items : List (Host ν ε)) : mapExprsOfItems id items = items := by
  match items with
  | [] => rfl
  | item :: items => rw [mapExprsOfItems, mapExprs_id item, mapExprsOfItems_id items]

theorem mapExprsOfInsertions_id (insertions : List (String × Host ν ε)) :
    mapExprsOfInsertions id insertions = insertions := by
  match insertions with
  | [] => rfl
  | (key, host) :: insertions =>
      rw [mapExprsOfInsertions, mapExprs_id host, mapExprsOfInsertions_id insertions]

end

/-- Host data with these strings, values and expressions supplies no strings but known ones, no
values but such as have a form on the wire, and expressions with a property. -/
structure Supplies (known : List String) (property : κ → Prop) (texts : List String)
    (values : List Value) (exprs : List κ) : Prop where
  texts : texts ⊆ known
  values : ∀ value ∈ values, value.Made
  exprs : ∀ leaf ∈ exprs, property leaf

theorem Supplies.nil {known : List String} {property : κ → Prop} :
    Supplies known property [] [] [] :=
  ⟨List.nil_subset known, List.forall_mem_nil _, List.forall_mem_nil _⟩

theorem supplies_append {known : List String} {property : κ → Prop} {texts more : List String}
    {values others : List Value} {exprs rest : List κ} :
    Supplies known property (texts ++ more) (values ++ others) (exprs ++ rest) ↔
      Supplies known property texts values exprs ∧ Supplies known property more others rest := by
  constructor
  · intro supplies
    have texts := List.append_subset.mp supplies.texts
    have values := List.forall_mem_append.mp supplies.values
    have exprs := List.forall_mem_append.mp supplies.exprs
    exact ⟨⟨texts.1, values.1, exprs.1⟩, ⟨texts.2, values.2, exprs.2⟩⟩
  · intro both
    exact ⟨List.append_subset.mpr ⟨both.1.texts, both.2.texts⟩,
      List.forall_mem_append.mpr ⟨both.1.values, both.2.values⟩,
      List.forall_mem_append.mpr ⟨both.1.exprs, both.2.exprs⟩⟩

theorem Supplies.imp {known : List String} {property goal : κ → Prop} {texts : List String}
    {values : List Value} {exprs : List κ} (leaves : Supplies known property texts values exprs)
    (gives : ∀ leaf, property leaf → goal leaf) : Supplies known goal texts values exprs :=
  ⟨leaves.texts, leaves.values, fun leaf member => gives leaf (leaves.exprs leaf member)⟩

def Supplied (known : List String) (property : κ → Prop) (host : Host Value κ) : Prop :=
  Supplies known property host.texts host.values host.exprs

end Host

section Agreement

variable {α β γ δ ε κ : Type}

/-- The results are the two sides of one result: both are the same error, or they are made
from one thing that has the property. -/
def Agree (left : γ → α) (right : γ → β) (property : γ → Prop) (first : Except Error α)
    (second : Except Error β) : Prop :=
  ∃ outcome : Except Error γ, first = outcome.map left ∧ second = outcome.map right ∧
    ∀ made, outcome = .ok made → property made

variable {left : γ → α} {right : γ → β} {property : γ → Prop}

theorem Agree.ok (made : γ) (holds : property made) :
    Agree left right property (.ok (left made)) (.ok (right made)) :=
  ⟨.ok made, rfl, rfl, fun _ same => Except.ok.inj same ▸ holds⟩

theorem Agree.error (reason : Error) :
    Agree left right property (.error reason) (.error reason) :=
  ⟨.error reason, rfl, rfl, nofun⟩

theorem Agree.bind {first : Except Error α} {second : Except Error β}
    {leftNext : δ → ε} {rightNext : δ → κ} {goal : δ → Prop} {next : α → Except Error ε}
    {nextSecond : β → Except Error κ} (agree : Agree left right property first second)
    (rest : ∀ made, property made →
      Agree leftNext rightNext goal (next (left made)) (nextSecond (right made))) :
    Agree leftNext rightNext goal (first >>= next) (second >>= nextSecond) := by
  obtain ⟨outcome, rfl, rfl, holds⟩ := agree
  cases outcome with
  | error reason => exact .error reason
  | ok made => exact rest made (holds made rfl)

end Agreement

section Results

variable {ν μ : Type} {related : Expr ν → Expr μ → Prop}

/-- Agreement on two related expressions. -/
abbrev AgreeOn (related : Expr ν → Expr μ → Prop) :
    Except Error (Expr ν) → Except Error (Expr μ) → Prop :=
  Agree Prod.fst Prod.snd fun both => related both.1 both.2

theorem AgreeOn.ok {expr : Expr ν} {other : Expr μ} (holds : related expr other) :
    AgreeOn related (.ok expr) (.ok other) :=
  Agree.ok (expr, other) holds

/-- Agreement of the results under each name. -/
def AgreeOnEach (related : Expr ν → Expr μ → Prop) (first : List (String × Except Error (Expr ν)))
    (second : List (String × Except Error (Expr μ))) : Prop :=
  ∃ results : List (String × Except Error (Expr ν × Expr μ)),
    first = Members.mapValues (Except.map Prod.fst) results ∧
      second = Members.mapValues (Except.map Prod.snd) results ∧
        ∀ result ∈ results, ∀ both, result.2 = .ok both → related both.1 both.2

namespace AgreeOnEach

variable {first : List (String × Except Error (Expr ν))}
  {second : List (String × Except Error (Expr μ))}

theorem nil : AgreeOnEach related [] [] :=
  ⟨[], rfl, rfl, List.forall_mem_nil _⟩

theorem cons {head : Except Error (Expr ν)} {headSecond : Except Error (Expr μ)} (name : String)
    (agree : AgreeOn related head headSecond) (rest : AgreeOnEach related first second) :
    AgreeOnEach related ((name, head) :: first) ((name, headSecond) :: second) := by
  obtain ⟨outcome, rfl, rfl, holds⟩ := agree
  obtain ⟨results, rfl, rfl, each⟩ := rest
  exact ⟨(name, outcome) :: results, rfl, rfl, List.forall_mem_cons.mpr ⟨holds, each⟩⟩

theorem ofPairs (agree : AgreeOnEach related first second) :
    AgreeOnEach related (Members.ofPairs first) (Members.ofPairs second) := by
  obtain ⟨results, rfl, rfl, each⟩ := agree
  exact ⟨Members.ofPairs results, Members.ofPairs_mapValues .., Members.ofPairs_mapValues ..,
    fun result inside => each result (Members.mem_of_mem_ofPairs inside)⟩

theorem sortedOfPairs (agree : AgreeOnEach related first second) :
    AgreeOnEach related (Members.sortedOfPairs first) (Members.sortedOfPairs second) := by
  obtain ⟨results, rfl, rfl, each⟩ := agree
  exact ⟨Members.sortedOfPairs results, Members.sortedOfPairs_mapValues ..,
    Members.sortedOfPairs_mapValues ..,
    fun result inside => each result (Members.mem_of_mem_sortedOfPairs inside)⟩

theorem allOk (agree : AgreeOnEach related first second) :
    Agree (Members.mapValues Prod.fst) (Members.mapValues Prod.snd)
      (fun members => ∀ member ∈ members, related member.2.1 member.2.2)
      (Members.allOk first) (Members.allOk second) := by
  obtain ⟨results, rfl, rfl, each⟩ := agree
  refine ⟨Members.allOk results, Members.allOk_mapValues .., Members.allOk_mapValues ..,
    fun members all member inside => ?_⟩
  exact each _ ((Members.allOk_ok all).2 member inside) member.2 rfl

end AgreeOnEach

end Results

section Composing

variable {ν μ : Type} [Leaf ν] [Leaf μ] {known : List String}
  {related : Expr ν → Expr μ → Prop}

/-- A relation of expressions that holds of what is put together from related ones. -/
structure Compositional (known : List String) (related : Expr ν → Expr μ → Prop) : Prop where
  value {value : Value} (supplied : value.Supplied known) : related (.value value) (.value value)
  array {items : List (Expr ν × Expr μ)} (each : ∀ item ∈ items, related item.1 item.2) :
    related (.array (items.map Prod.fst)) (.array (items.map Prod.snd))
  ofPairs {pairs : List (String × Expr ν × Expr μ)}
    (each : ∀ pair ∈ pairs, related pair.2.1 pair.2.2) :
    related (.ofPairs (Members.mapValues Prod.fst pairs))
      (.ofPairs (Members.mapValues Prod.snd pairs))

namespace Compositional

theorem oneOrMany (kept : Compositional known related) {items : List (Expr ν × Expr μ)}
    (each : ∀ item ∈ items, related item.1 item.2) :
    related (.oneOrMany (items.map Prod.fst)) (.oneOrMany (items.map Prod.snd)) := by
  match items with
  | [] => exact kept.array each
  | [single] => exact each single List.mem_cons_self
  | _ :: _ :: _ => exact kept.array each

theorem agree_value (kept : Compositional known related) {value : Value}
    (supplied : value.Supplied known) :
    AgreeOn related (.ok (.value value)) (.ok (.value value)) :=
  .ok (kept.value supplied)

theorem agree_plain (kept : Compositional known related) {value : Value} (made : value.Made)
    (none : value.asString? = none) : AgreeOn related (.ok (.value value)) (.ok (.value value)) :=
  kept.agree_value ⟨made, by simp [none]⟩

theorem agree_number (kept : Compositional known related) (number : Number) :
    AgreeOn related number.encode number.encode := by
  cases number with
  | integer n =>
      simp only [Number.encode]
      cases n.toSigned? with
      | none => exact .error _
      | some n => exact kept.agree_plain ⟨.long n, rfl⟩ rfl
  | double x =>
      simp only [Number.encode]
      cases made : Value.ofDouble x with
      | error reason => exact .error reason
      | ok value => exact kept.agree_value (Value.supplied_ofDouble made)

theorem agree_array (kept : Compositional known related) {first : Except Error (List (Expr ν))}
    {second : Except Error (List (Expr μ))}
    (agree : Agree (List.map Prod.fst) (List.map Prod.snd)
      (fun items => ∀ item ∈ items, related item.1 item.2) first second) :
    AgreeOn related (return .array (← first)) (return .array (← second)) :=
  agree.bind fun _ each => AgreeOn.ok (kept.array each)

theorem agree_ofPairs (kept : Compositional known related)
    {first : List (String × Except Error (Expr ν))}
    {second : List (String × Except Error (Expr μ))} (agree : AgreeOnEach related first second) :
    AgreeOn related (return .ofPairs (← Members.allOk first))
      (return .ofPairs (← Members.allOk second)) :=
  agree.allOk.bind fun _ each => AgreeOn.ok (kept.ofPairs each)

mutual

theorem agree_json (kept : Compositional known related) (tree : Json Number)
    (supplied : tree.texts ⊆ known) : AgreeOn related tree.encode tree.encode := by
  match tree with
  | .null => exact kept.agree_plain ⟨.null, rfl⟩ rfl
  | .boolean on => exact kept.agree_plain ⟨.boolean on, rfl⟩ rfl
  | .number number => exact kept.agree_number number
  | .string text =>
      exact kept.agree_value (Value.supplied_string (supplied (List.mem_singleton_self text)))
  | .array items => exact kept.agree_array (agree_jsonItems kept items supplied)
  | .object members => exact kept.agree_ofPairs (agree_jsonMembers kept members supplied).ofPairs

theorem agree_jsonItems (kept : Compositional known related) (items : List (Json Number))
    (supplied : Json.textsOfItems items ⊆ known) :
    Agree (List.map Prod.fst) (List.map Prod.snd)
      (fun items => ∀ item ∈ items, related item.1 item.2) (Json.encodeItems items)
      (Json.encodeItems items) := by
  match items with
  | [] => exact .ok [] (List.forall_mem_nil _)
  | item :: items =>
      have supplied := List.append_subset.mp supplied
      exact (agree_json kept item supplied.1).bind fun first holds =>
        (agree_jsonItems kept items supplied.2).bind fun rest each =>
          .ok (first :: rest) (List.forall_mem_cons.mpr ⟨holds, each⟩)

theorem agree_jsonMembers (kept : Compositional known related)
    (members : List (String × Json Number)) (supplied : Json.textsOfMembers members ⊆ known) :
    AgreeOnEach related (Json.encodeMembers members) (Json.encodeMembers members) := by
  match members with
  | [] => exact .nil
  | (name, value) :: members =>
      have supplied := List.append_subset.mp supplied
      exact .cons name (agree_json kept value supplied.1)
        (agree_jsonMembers kept members supplied.2)

end

variable {κ : Type} {left : κ → Expr ν} {right : κ → Expr μ}

mutual

/-- A host value with related expressions at its leaves is encoded as related expressions, or
fails for one reason. -/
theorem agree_host (kept : Compositional known related) (host : Host Value κ)
    (leaves : host.Supplied known fun leaf => related (left leaf) (right leaf)) :
    AgreeOn related (host.mapExprs left).encode (host.mapExprs right).encode := by
  match host with
  | .string text =>
      exact kept.agree_value (Value.supplied_string (leaves.texts (List.mem_singleton_self text)))
  | .boolean on => exact kept.agree_plain ⟨.boolean on, rfl⟩ rfl
  | .int32 n => exact kept.agree_plain ⟨.long n.toInt64, rfl⟩ rfl
  | .int64 n => exact kept.agree_plain ⟨.long n, rfl⟩ rfl
  | .uint32 n => exact kept.agree_plain ⟨.long (Int64.ofNat n.toNat), rfl⟩ rfl
  | .uint64 n => exact kept.agree_number (.integer (.ofUnsigned n))
  | .double x => exact kept.agree_number (.double x)
  | .value leaf =>
      exact kept.agree_value ⟨leaves.values leaf (List.mem_singleton_self leaf),
        fun text found => leaves.texts (Option.mem_toList.mpr found)⟩
  | .expr leaf => exact .ok (leaves.exprs leaf (List.mem_singleton_self leaf))
  | .absent => exact kept.agree_plain ⟨.null, rfl⟩ rfl
  | .present host => exact agree_host kept host leaves
  | .sequence items => exact kept.agree_array (agree_hosts kept items leaves)
  | .map insertions =>
      exact kept.agree_ofPairs (agree_insertions kept insertions leaves).sortedOfPairs
  | .json tree => exact kept.agree_json tree leaves.texts

theorem agree_hosts (kept : Compositional known related) (hosts : List (Host Value κ))
    (leaves : Host.Supplies known (fun leaf => related (left leaf) (right leaf))
      (Host.collectItems .texts hosts) (Host.collectItems .values hosts)
      (Host.collectItems .exprs hosts)) :
    Agree (List.map Prod.fst) (List.map Prod.snd)
      (fun items => ∀ item ∈ items, related item.1 item.2)
      (Host.encodeItems (Host.mapExprsOfItems left hosts))
      (Host.encodeItems (Host.mapExprsOfItems right hosts)) := by
  match hosts with
  | [] => exact .ok [] (List.forall_mem_nil _)
  | host :: hosts =>
      have leaves := Host.supplies_append.mp leaves
      exact (agree_host kept host leaves.1).bind fun first holds =>
        (agree_hosts kept hosts leaves.2).bind fun rest each =>
          .ok (first :: rest) (List.forall_mem_cons.mpr ⟨holds, each⟩)

theorem agree_insertions (kept : Compositional known related)
    (insertions : List (String × Host Value κ))
    (leaves : Host.Supplies known (fun leaf => related (left leaf) (right leaf))
      (Host.collectInsertions .texts insertions) (Host.collectInsertions .values insertions)
      (Host.collectInsertions .exprs insertions)) :
    AgreeOnEach related (Host.encodeInsertions (Host.mapExprsOfInsertions left insertions))
      (Host.encodeInsertions (Host.mapExprsOfInsertions right insertions)) := by
  match insertions with
  | [] => exact .nil
  | (key, host) :: insertions =>
      have leaves := Host.supplies_append.mp leaves
      exact .cons key (agree_host kept host leaves.1) (agree_insertions kept insertions leaves.2)

end

/-- A property of expressions is such a relation of an expression with itself. -/
theorem holds_encode {property : Expr ν → Prop}
    (kept : Compositional known fun expr (_ : Expr ν) => property expr)
    {host : Host Value (Expr ν)} {expr : Expr ν} (leaves : host.Supplied known property)
    (encoded : host.encode = .ok expr) : property expr := by
  have agree : AgreeOn (fun expr _ => property expr) (host.mapExprs id).encode
      (host.mapExprs id).encode := kept.agree_host host leaves
  obtain ⟨outcome, same, -, holds⟩ := agree
  rw [Host.mapExprs_id, encoded] at same
  obtain ⟨made, ended, rfl⟩ := map_eq_ok same.symm
  exact holds made ended

end Compositional

end Composing

end QueryWire
