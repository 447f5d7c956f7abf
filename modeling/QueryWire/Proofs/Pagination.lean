import QueryWire.Proofs.Expr.Shaped

namespace QueryWire

namespace Setting

variable {ε : Type}

/-- The field that a setting is for. -/
def field : Setting ε → String
  | .ts _ => "ts"
  | .after _ => "after"
  | .before _ => "before"
  | .size _ => "size"
  | .events _ => "events"
  | .sources _ => "sources"

/-- What a setting puts into its field.  A flag that is off takes its field away. -/
def held? : Setting Expr → Option Expr
  | .ts value | .after value | .before value | .size value => some value
  | .events on | .sources on => if on then some (.boolean true) else none

/-- The settings of one field, in the order in which they were made. -/
def ofField (name : String) (settings : List (Setting ε)) : List (Setting ε) :=
  settings.filter fun setting => setting.field == name

/-- What the last setting of a field puts there, if the field was ever set. -/
def lastHeld? (settings : List (Setting Expr)) (name : String) : Option Expr :=
  (ofField name settings).getLast?.bind held?

theorem lastHeld?_concat (settings : List (Setting Expr)) (setting : Setting Expr)
    (name : String) :
    lastHeld? (settings ++ [setting]) name =
      if setting.field = name then setting.held? else lastHeld? settings name := by
  by_cases same : setting.field = name <;>
    simp [lastHeld?, ofField, List.filter_append, same]

end Setting

namespace Pagination

/-- The page of a resource after settings were made one after the other. -/
def ofSettings (resource : Expr) (settings : List (Setting Expr)) : Pagination :=
  settings.foldl set (ofResource resource)

/-- The fields that can follow the resource, in the order of writing. -/
def fieldNames : List String := ["ts", "after", "before", "size", "events", "sources"]

theorem ofSettings_concat (resource : Expr) (settings : List (Setting Expr))
    (setting : Setting Expr) :
    ofSettings resource (settings ++ [setting]) = (ofSettings resource settings).set setting :=
  List.foldl_concat ..

/-- A setting changes the slot of its own field and no other. -/
theorem slots_set (page : Pagination) (setting : Setting Expr) :
    (page.set setting).slots (.boolean true) = (page.slots (.boolean true)).map fun slot =>
      (slot.1, if setting.field = slot.1 then setting.held? else slot.2) := by
  cases setting <;> rfl

@[simp] theorem resource_set (page : Pagination) (setting : Setting Expr) :
    (page.set setting).resource = page.resource := by
  cases setting <;> rfl

theorem slots_ofSettings (resource : Expr) (settings : List (Setting Expr)) :
    (ofSettings resource settings).slots (.boolean true) =
      fieldNames.map fun name => (name, Setting.lastHeld? settings name) := by
  -- The setting that counts is the last one, so the induction takes settings off the end.
  induction settings using List.reverseRecOn with
  | nil => rfl
  | append_singleton settings setting ih =>
      rw [ofSettings_concat, slots_set, ih, List.map_map]
      refine List.map_congr_left fun name _ => ?_
      rw [Setting.lastHeld?_concat]
      rfl

theorem resource_ofSettings (resource : Expr) (settings : List (Setting Expr)) :
    (ofSettings resource settings).resource = resource := by
  induction settings using List.reverseRecOn with
  | nil => rfl
  | append_singleton settings setting ih => rw [ofSettings_concat, resource_set, ih]

theorem toExpr_ofSettings (resource : Expr) (settings : List (Setting Expr)) :
    (ofSettings resource settings).toExpr = .call "paginate" resource
      (fieldNames.filterMap fun name =>
        (Setting.lastHeld? settings name).map fun value => (name, value)) := by
  rw [toExpr_eq, resource_ofSettings, entries, slots_ofSettings, List.filterMap_map]
  rfl

/-- A page is written as its resource and, in the fixed order of the fields, what the last
setting of each field puts there.  So settings can be interleaved in any way that keeps the
order of those of one field. -/
theorem written_from_last_settings (resource : Expr) (settings : List (Setting Expr)) :
    (ofSettings resource settings).toExpr = .call "paginate" resource
        (fieldNames.filterMap fun name =>
          (Setting.lastHeld? settings name).map fun value => (name, value)) ∧
      ∀ others : List (Setting Expr),
        (∀ name ∈ fieldNames, Setting.ofField name settings = Setting.ofField name others) →
          (ofSettings resource settings).toExpr = (ofSettings resource others).toExpr := by
  refine ⟨toExpr_ofSettings resource settings, fun others alike => ?_⟩
  rw [toExpr_ofSettings, toExpr_ofSettings]
  refine congrArg (Expr.call "paginate" resource) (List.filterMap_congr fun name member => ?_)
  rw [Setting.lastHeld?, alike name member, ← Setting.lastHeld?]

/-- Settings with a size that is set again and a flag that is cleared. -/
def interleaved : List (Setting Expr) :=
  [.size (.long 1), .events true, .after (.text "a"), .sources true, .size (.long 20),
    .events false]

/-- The same settings, those of each field together. -/
def grouped : List (Setting Expr) :=
  [.sources true, .events true, .events false, .size (.long 1), .size (.long 20),
    .after (.text "a")]

theorem written_from_last_settings_grouped (resource : Expr) :
    (∀ name ∈ fieldNames, Setting.ofField name interleaved = Setting.ofField name grouped) ∧
      (ofSettings resource interleaved).toExpr = .call "paginate" resource
        [("after", .text "a"), ("size", .long 20), ("sources", .boolean true)] ∧
      (ofSettings resource interleaved).toExpr = (ofSettings resource grouped).toExpr := by
  have alike : ∀ name ∈ fieldNames,
      Setting.ofField name interleaved = Setting.ofField name grouped := by
    simp only [fieldNames, List.forall_mem_cons]
    exact ⟨rfl, rfl, rfl, rfl, rfl, rfl, List.forall_mem_nil _⟩
  obtain ⟨written, regrouped⟩ := written_from_last_settings resource interleaved
  exact ⟨alike, written, regrouped grouped alike⟩

end Pagination

end QueryWire
