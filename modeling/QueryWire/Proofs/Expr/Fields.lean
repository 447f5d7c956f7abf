import QueryWire.Pagination
import QueryWire.Proofs.Members

namespace QueryWire

variable {ν ε κ : Type}

namespace Call

theorem others_field? (call : Call ν) (name : String) (value? : Option (Expr ν)) :
    (call.field? name value?).others =
      call.others ++ (value?.map fun value => (name, value)).toList := by
  cases value? with
  | none => exact (List.append_nil call.others).symm
  | some value => rfl

@[simp] theorem name_field? (call : Call ν) (name : String) (value? : Option (Expr ν)) :
    (call.field? name value?).name = call.name := by
  cases value? <;> rfl

@[simp] theorem argument_field? (call : Call ν) (name : String) (value? : Option (Expr ν)) :
    (call.field? name value?).argument = call.argument := by
  cases value? <;> rfl

end Call

namespace Setting

/-- The expression of a setting; a flag has none. -/
def value? : Setting ε → Option ε
  | .ts value | .after value | .before value | .size value => some value
  | .events _ | .sources _ => none

def map (f : ε → κ) : Setting ε → Setting κ
  | .ts time => .ts (f time)
  | .after cursor => .after (f cursor)
  | .before cursor => .before (f cursor)
  | .size count => .size (f count)
  | .events on => .events on
  | .sources on => .sources on

theorem value?_map (f : ε → κ) (setting : Setting ε) :
    (setting.map f).value? = setting.value?.map f := by
  cases setting <;> rfl

theorem forall_value_map {property : κ → Prop} {f : ε → κ} {settings : List (Setting ε)}
    (each : ∀ setting ∈ settings, ∀ value ∈ setting.value?, property (f value)) :
    ∀ setting ∈ settings.map (map f), ∀ value ∈ setting.value?, property value := by
  refine List.forall_mem_map.mpr fun setting inside value found => ?_
  rw [value?_map] at found
  obtain ⟨given, held, rfl⟩ := Option.map_eq_some_iff.mp found
  exact each setting inside given held

end Setting

namespace Pagination

/-- What the page has for each of its fields, in the order of writing, where `on` stands for a
flag that is set. -/
def slots (on : ε) (page : Pagination ε) : List (String × Option ε) :=
  [("ts", page.ts), ("after", page.after), ("before", page.before), ("size", page.size),
    ("events", if page.events then some on else none),
    ("sources", if page.sources then some on else none)]

/-- The fields that the page has. -/
def entries (on : ε) (page : Pagination ε) : List (String × ε) :=
  (page.slots on).filterMap fun slot => slot.2.map fun value => (slot.1, value)

theorem toExpr_eq [Leaf ν] (page : Pagination (Expr ν)) :
    page.toExpr = .call "paginate" page.resource (page.entries (.boolean true)) := by
  rw [entries, List.filterMap_eq_flatMap_toList]
  simp only [toExpr, Call.toExpr, toCall, Call.name_field?, Call.argument_field?,
    Call.others_field?, slots, flag, List.flatMap_cons, List.flatMap_nil, List.append_assoc,
    List.nil_append, List.append_nil]

def map (f : ε → κ) (page : Pagination ε) : Pagination κ where
  resource := f page.resource
  ts := page.ts.map f
  after := page.after.map f
  before := page.before.map f
  size := page.size.map f
  events := page.events
  sources := page.sources

theorem map_settings (f : ε → κ) (resource : ε) (settings : List (Setting ε)) :
    (settings.foldl set (ofResource resource)).map f =
      (settings.map (Setting.map f)).foldl set (ofResource (f resource)) := by
  suffices every : ∀ page : Pagination ε, (settings.foldl set page).map f =
      (settings.map (Setting.map f)).foldl set (page.map f) from every (ofResource resource)
  induction settings with
  | nil => exact fun page => rfl
  | cons setting settings ih =>
      intro page
      have same : (page.set setting).map f = (page.map f).set (setting.map f) := by
        cases setting <;> rfl
      rw [List.foldl_cons, ih, same, List.map_cons, List.foldl_cons]

theorem entries_map (f : ε → κ) (on : ε) (page : Pagination ε) :
    (page.map f).entries (f on) = Members.mapValues f (page.entries on) := by
  have slots : (page.map f).slots (f on) =
      (page.slots on).map fun slot => (slot.1, slot.2.map f) := by
    obtain ⟨resource, ts, after, before, size, events, sources⟩ := page
    cases events <;> cases sources <;> rfl
  rw [entries, slots, List.filterMap_map, Members.mapValues, entries, List.map_filterMap]
  simp [Function.comp_def]

/-- Which settings are written and which are not, they stand in one order under names of
their own. -/
theorem names_entries_sublist (on : ε) (page : Pagination ε) :
    (Members.names (page.entries on)).Sublist
      ["ts", "after", "before", "size", "events", "sources"] := by
  have kept (slots : List (String × Option ε)) :
      (Members.names (slots.filterMap fun slot => slot.2.map fun value => (slot.1, value))).Sublist
        (slots.map Prod.fst) := by
    induction slots with
    | nil => exact .slnil
    | cons slot slots ih =>
        obtain ⟨name, held⟩ := slot
        cases held with
        | none => exact ih.cons name
        | some value => exact ih.cons_cons name
  exact kept (page.slots on)

/-- A property of all expressions of a page. -/
structure Holds (property : ε → Prop) (page : Pagination ε) : Prop where
  resource : property page.resource
  ts : ∀ value ∈ page.ts, property value
  after : ∀ value ∈ page.after, property value
  before : ∀ value ∈ page.before, property value
  size : ∀ value ∈ page.size, property value

variable {property : ε → Prop}

theorem Holds.set {page : Pagination ε} (holds : page.Holds property) {setting : Setting ε}
    (held : ∀ value ∈ setting.value?, property value) : (page.set setting).Holds property := by
  cases setting with
  | ts value => exact { holds with ts := held }
  | after value => exact { holds with after := held }
  | before value => exact { holds with before := held }
  | size value => exact { holds with size := held }
  | events on => exact { holds with }
  | sources on => exact { holds with }

theorem holds_settings {resource : ε} (source : property resource) {settings : List (Setting ε)}
    (each : ∀ setting ∈ settings, ∀ value ∈ setting.value?, property value) :
    (settings.foldl Pagination.set (ofResource resource)).Holds property :=
  List.foldlRecOn settings _
    (by constructor <;> simp [ofResource, source])
    fun _ kept setting member => kept.set (each setting member)

theorem Holds.entries {page : Pagination ε} (holds : page.Holds property) {on : ε}
    (flags : property on) : ∀ field ∈ page.entries on, property field.2 := by
  have flag (set : Bool) : ∀ value ∈ (if set then some on else none), property value := by
    cases set <;> simp [flags]
  have slots : ∀ slot ∈ page.slots on, ∀ value ∈ slot.2, property value := by
    simp only [Pagination.slots, List.forall_mem_cons]
    exact ⟨holds.ts, holds.after, holds.before, holds.size, flag _, flag _,
      List.forall_mem_nil _⟩
  intro field member
  obtain ⟨slot, inside, found⟩ := List.mem_filterMap.mp member
  obtain ⟨value, held, rfl⟩ := Option.map_eq_some_iff.mp found
  exact slots slot inside value held

end Pagination

end QueryWire
