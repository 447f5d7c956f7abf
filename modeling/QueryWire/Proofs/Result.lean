namespace QueryWire

variable {α β ε : Type}

theorem bind_eq_ok {first : Except ε α} {next : α → Except ε β} {made : β}
    (run : (first >>= next) = .ok made) :
    ∃ middle, first = .ok middle ∧ next middle = .ok made := by
  cases first with
  | error reason => cases run
  | ok middle => exact ⟨middle, rfl, run⟩

theorem map_eq_ok {result : Except ε α} {f : α → β} {made : β}
    (mapped : result.map f = .ok made) : ∃ value, result = .ok value ∧ f value = made := by
  cases result with
  | error reason => cases mapped
  | ok value => exact ⟨value, rfl, Except.ok.inj mapped⟩

end QueryWire
