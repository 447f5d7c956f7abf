import QueryWire.Json.Document
import QueryWire.Proofs.Json.Completeness
import QueryWire.Proofs.Json.Lexical

namespace QueryWire.Json

inductive Each {ν : Type} (property : ν → Prop) : Json ν → Prop where
  | null : Each property .null
  | boolean (value : Bool) : Each property (.boolean value)
  | number {value : ν} (held : property value) : Each property (.number value)
  | string (text : String) : Each property (.string text)
  | array {items : List (Json ν)} (each : ∀ item ∈ items, Each property item) :
      Each property (.array items)
  | object {members : List (String × Json ν)}
      (each : ∀ member ∈ members, Each property member.2) : Each property (.object members)

mutual

theorem Each.of_forall {ν : Type} {property : ν → Prop} (holds : ∀ value, property value) :
    (tree : Json ν) → tree.Each property
  | .null => .null
  | .boolean value => .boolean value
  | .number value => .number (holds value)
  | .string text => .string text
  | .array items => .array (each_items_of_forall holds items)
  | .object members => .object (each_members_of_forall holds members)

theorem each_items_of_forall {ν : Type} {property : ν → Prop} (holds : ∀ value, property value) :
    (items : List (Json ν)) → ∀ item ∈ items, item.Each property
  | [] => List.forall_mem_nil _
  | item :: items =>
      List.forall_mem_cons.mpr ⟨Each.of_forall holds item, each_items_of_forall holds items⟩

theorem each_members_of_forall {ν : Type} {property : ν → Prop} (holds : ∀ value, property value) :
    (members : List (String × Json ν)) → ∀ member ∈ members, member.2.Each property
  | [] => List.forall_mem_nil _
  | (_, value) :: members =>
      List.forall_mem_cons.mpr ⟨Each.of_forall holds value, each_members_of_forall holds members⟩

end

theorem Each.mapNumbers {ν μ : Type} {property : ν → Prop} {wanted : μ → Prop} {f : ν → μ}
    (gives : ∀ value, property value → wanted (f value)) {tree : Json ν}
    (each : tree.Each property) : (tree.mapNumbers f).Each wanted := by
  induction each with
  | null => exact .null
  | boolean value => exact .boolean value
  | number held => exact .number (gives _ held)
  | string text => exact .string text
  | array _ ih =>
      rw [Json.mapNumbers, mapItems_eq_map]
      refine .array fun item member => ?_
      obtain ⟨source, inside, rfl⟩ := List.mem_map.mp member
      exact ih source inside
  | object _ ih =>
      rw [Json.mapNumbers, mapMembers_eq_map]
      refine .object fun member inside => ?_
      obtain ⟨source, present, rfl⟩ := List.mem_map.mp inside
      exact ih source present

theorem eq_of_map_eq {α β : Type} {f : α → β} {items others : List α}
    (injective : ∀ item ∈ items, ∀ other ∈ others, f item = f other → item = other)
    (same : items.map f = others.map f) : items = others := by
  induction items generalizing others with
  | nil => exact (List.map_eq_nil_iff.mp same.symm).symm
  | cons item items ih =>
      obtain ⟨other, more, rfl, first, later⟩ := List.map_eq_cons_iff.mp same.symm
      rw [injective item List.mem_cons_self other List.mem_cons_self first.symm,
        ih (fun item member other inside => injective item (List.mem_cons_of_mem _ member) other
          (List.mem_cons_of_mem _ inside)) later.symm]

theorem mapNumbers_injective {ν μ : Type} {property : ν → Prop} {f : ν → μ}
    (injective : ∀ value other, property value → property other → f value = f other →
      value = other)
    {tree other : Json ν} (each : tree.Each property) (each' : other.Each property)
    (same : tree.mapNumbers f = other.mapNumbers f) : tree = other := by
  induction each generalizing other with
  | null => cases each' <;> cases same; rfl
  | boolean value => cases each' <;> cases same; rfl
  | number held =>
      cases each' with
      | number held' => rw [injective _ _ held held' (Json.number.inj same)]
      | _ => cases same
  | string text => cases each' <;> cases same; rfl
  | array each ih =>
      cases each' with
      | array each' =>
          have items := Json.array.inj same
          rw [mapItems_eq_map, mapItems_eq_map] at items
          rw [eq_of_map_eq (fun item member other inside => ih item member (each' other inside))
            items]
      | _ => cases same
  | object each ih =>
      cases each' with
      | object each' =>
          have members := Json.object.inj same
          rw [mapMembers_eq_map, mapMembers_eq_map] at members
          rw [eq_of_map_eq (fun member inside other present alike => ?_) members]
          exact Prod.ext (Prod.mk.inj alike).1
            (ih member inside (each' other present) (Prod.mk.inj alike).2)
      | _ => cases same

open Grammar

theorem moreMembers_cons (layout : Layout) (depth : Nat) (name : String) (tree : Json (List Char))
    (members : List (String × Json (List Char))) (rest : List Char) :
    moreMembers layout depth ((name, tree) :: members) rest =
      ',' :: (layout.lineBreak depth ++ (quoted name ++ (layout.colon ++
        tree.text layout depth (moreMembers layout depth members rest)))) := by
  simp [moreMembers]

theorem text_object_cons (layout : Layout) (depth : Nat) (name : String) (tree : Json (List Char))
    (members : List (String × Json (List Char))) (rest : List Char) :
    (Json.object ((name, tree) :: members)).text layout depth rest =
      '\x7b' :: (layout.lineBreak (depth + 1) ++ (quoted name ++ (layout.colon ++
        tree.text layout (depth + 1) (moreMembers layout (depth + 1) members
          (layout.lineBreak depth ++ '\x7d' :: rest))))) := by
  simp [text]

theorem blanks_lineBreak (layout : Layout) (depth : Nat) (rest : List Char) :
    Blanks (layout.lineBreak depth ++ rest) rest := by
  have spaces (count : Nat) : Blanks (List.replicate count ' ' ++ rest) rest := by
    induction count with
    | zero => exact .none rest
    | succ count ih => exact .more (by decide) ih
  cases layout with
  | compact => exact .none rest
  | pretty => exact .more (by decide) (spaces (2 * depth))

/-- The text of a tree, wherever it stands, is a value that stands for the tree. -/
def Stands (layout : Layout) (tree : Json (List Char)) : Prop :=
  ∀ depth rest, Value (tree.text layout depth rest) tree rest

theorem items_text {layout : Layout} {item : Json (List Char)} {more : List (Json (List Char))}
    (each : ∀ other ∈ item :: more, Stands layout other) (depth : Nat) {tail rest : List Char}
    (close : Blanks tail (']' :: rest)) :
    Items (layout.lineBreak depth ++ item.text layout depth (moreItems layout depth more tail))
      (item :: more) rest := by
  obtain ⟨first, later⟩ := List.forall_mem_cons.mp each
  have before := blanks_lineBreak layout depth
    (item.text layout depth (moreItems layout depth more tail))
  -- The printer goes through the items behind the first one, and so does the induction.
  induction more generalizing item with
  | nil => exact .last before (first depth tail) close
  | cons next more ih =>
      obtain ⟨second, others⟩ := List.forall_mem_cons.mp later
      exact .more before (first depth _) (.none _) (ih later second others (blanks_lineBreak _ _ _))

theorem member_text {layout : Layout} {tree : Json (List Char)} (stands : Stands layout tree)
    (name : String) (depth : Nat) (rest : List Char) :
    Member (layout.lineBreak depth ++ (quoted name ++ (layout.colon ++
      tree.text layout depth rest))) (name, tree) rest := by
  have between : ∃ gap, layout.colon = ':' :: gap ∧
      Blanks (gap ++ tree.text layout depth rest) (tree.text layout depth rest) := by
    cases layout with
    | compact => exact ⟨[], rfl, .none _⟩
    | pretty => exact ⟨[' '], rfl, .more (by decide) (.none _)⟩
  obtain ⟨gap, colon, between⟩ := between
  rw [colon]
  exact .named (blanks_lineBreak layout depth _) (quoted_text name _) (.none _) between
    (stands depth rest)

theorem members_text {layout : Layout} {name : String} {tree : Json (List Char)}
    {more : List (String × Json (List Char))}
    (each : ∀ other ∈ (name, tree) :: more, Stands layout other.2) (depth : Nat)
    {tail rest : List Char} (close : Blanks tail ('\x7d' :: rest)) :
    Members (layout.lineBreak depth ++ (quoted name ++ (layout.colon ++
        tree.text layout depth (moreMembers layout depth more tail))))
      ((name, tree) :: more) rest := by
  obtain ⟨first, later⟩ := List.forall_mem_cons.mp each
  have member := member_text first name depth (moreMembers layout depth more tail)
  induction more generalizing name tree with
  | nil => exact .last member close
  | cons next more ih =>
      obtain ⟨name', tree'⟩ := next
      obtain ⟨second, others⟩ := List.forall_mem_cons.mp later
      have comma := moreMembers_cons layout depth name' tree' more tail
      exact .more member (comma ▸ .none _) (ih later second others (member_text second name' _ _))

theorem stands_of_tokens (layout : Layout) {tree : Json (List Char)}
    (tokens : tree.Each NumberToken) : Stands layout tree := by
  induction tokens with
  | null => exact fun _ rest => .null rest
  | boolean value => cases value with
    | false => exact fun _ rest => .false rest
    | true => exact fun _ rest => .true rest
  | number isNumber => exact fun _ rest => .number isNumber rest
  | string text => exact fun _ rest => .string (quoted_text text rest)
  | @array items _ ih =>
      intro depth rest
      cases items with
      | nil => exact .noItems (.none _)
      | cons item items =>
          exact .array (items_text ih (depth + 1) (blanks_lineBreak layout depth _))
  | @object members _ ih =>
      intro depth rest
      cases members with
      | nil => exact .noMembers (.none _)
      | cons member members =>
          obtain ⟨name, tree⟩ := member
          rw [text_object_cons]
          exact .object (members_text ih (depth + 1) (blanks_lineBreak layout depth _))

/-- In either layout, the text of a tree stands for that tree. -/
theorem isText_render (layout : Layout) {tree : Json (List Char)}
    (tokens : tree.Each NumberToken) : IsText (tree.render layout) tree := by
  have content : (tree.render layout).toList = tree.text layout 0 [] := String.toList_ofList
  exact ⟨_, [], content ▸ .none _, stands_of_tokens layout tokens 0 [], .none []⟩

theorem write_injective {layout : Layout} {tree other : Json Number}
    (finite : tree.Each Number.Finite) (finite' : other.Each Number.Finite)
    (same : tree.write layout = other.write layout) : tree = other := by
  have stands := isText_render layout (finite.mapNumbers fun _ => Number.isNumber_token)
  have stands' := isText_render layout (finite'.mapNumbers fun _ => Number.isNumber_token)
  rw [← write, same, write] at stands
  exact mapNumbers_injective (fun _ _ => Number.token_injective) finite finite'
    (stands.unique stands')

end QueryWire.Json
