namespace QueryWire.Members

variable {α : Type}

def names (members : List (String × α)) : List String :=
  members.map Prod.fst

/-- Sets the entry of a name: in its place if the name has one, else at the end. -/
def put (name : String) (value : α) : List (String × α) → List (String × α)
  | [] => [(name, value)]
  | (other, held) :: rest =>
      if other = name then (name, value) :: rest
      else (other, held) :: put name value rest

/-- The members left by putting the pairs one after the other. -/
def ofPairs (pairs : List (String × α)) : List (String × α) :=
  pairs.foldl (fun members (name, value) => put name value members) []

/-- Sets the entry of a name among entries in the order of their names. -/
def putSorted (name : String) (value : α) : List (String × α) → List (String × α)
  | [] => [(name, value)]
  | (other, held) :: rest =>
      if other = name then (name, value) :: rest
      else if name < other then (name, value) :: (other, held) :: rest
      else (other, held) :: putSorted name value rest

/-- The sorted members left by putting the pairs one after the other. -/
def sortedOfPairs (pairs : List (String × α)) : List (String × α) :=
  pairs.foldl (fun members (name, value) => putSorted name value members) []

/-- The members if none of them failed, else the first failure. -/
def allOk {ε : Type} : List (String × Except ε α) → Except ε (List (String × α))
  | [] => .ok []
  | (name, result) :: members => do
      let value ← result
      return (name, value) :: (← allOk members)

theorem lookup_put_self (name : String) (value : α) (members : List (String × α)) :
    (put name value members).lookup name = some value := by
  induction members with
  | nil => simp [put]
  | cons entry rest ih =>
      obtain ⟨other, held⟩ := entry
      by_cases equal : other = name
      · simp [put, equal]
      · have unequal : (name == other) = false := by simpa using Ne.symm equal
        simp [put, equal, List.lookup_cons, unequal, ih]

theorem lookup_put_of_ne {name wanted : String} (unequal : wanted ≠ name) (value : α)
    (members : List (String × α)) :
    (put name value members).lookup wanted = members.lookup wanted := by
  have unequal : (wanted == name) = false := by simpa using unequal
  induction members with
  | nil => simp [put, List.lookup_cons, unequal]
  | cons entry rest ih =>
      obtain ⟨other, held⟩ := entry
      by_cases equal : other = name
      · simp [put, equal, List.lookup_cons, unequal]
      · simp [put, equal, List.lookup_cons, ih]

theorem names_put (name : String) (value : α) (members : List (String × α)) :
    names (put name value members) =
      if name ∈ names members then names members else names members ++ [name] := by
  induction members with
  | nil => rfl
  | cons entry rest ih =>
      obtain ⟨other, held⟩ := entry
      by_cases equal : other = name
      · simp [put, names, equal]
      · simp only [put, equal, ↓reduceIte, names, List.map_cons, List.mem_cons,
          Ne.symm equal, false_or, List.cons_append] at ih ⊢
        rw [ih]
        split <;> simp_all

example : ofPairs [("a", 1), ("b", 2), ("a", 3)] = [("a", 3), ("b", 2)] := by decide
example : sortedOfPairs [("b", 1), ("a", 2), ("b", 3)] = [("a", 2), ("b", 3)] := by decide

end QueryWire.Members
