import Mathlib.Data.List.Nodup
import QueryWire.Proofs.Text.Digits
import QueryWire.Symbol

namespace QueryWire.SymbolSupply

/-- A text cut at its last underscore, into what stands before it and behind it. -/
def cutLast? : List Char → Option (List Char × List Char)
  | [] => none
  | c :: rest =>
      match cutLast? rest with
      | some (front, back) => some (c :: front, back)
      | none => if c = '_' then some ([], rest) else none

theorem cutLast?_eq_none_iff {text : List Char} : cutLast? text = none ↔ '_' ∉ text := by
  induction text with
  | nil => simp [cutLast?]
  | cons c rest ih =>
      rw [cutLast?, List.mem_cons, not_or, ← ih]
      cases cutLast? rest with
      | none => simp [eq_comm]
      | some cut => simp

theorem cutLast?_eq_some_iff {text front back : List Char} :
    cutLast? text = some (front, back) ↔ text = front ++ '_' :: back ∧ '_' ∉ back := by
  constructor
  · intro found
    induction text generalizing front with
    | nil => cases found
    | cons c rest ih =>
        rw [cutLast?] at found
        cases deeper : cutLast? rest with
        | some cut =>
            simp only [deeper, Option.some.injEq, Prod.mk.injEq] at found
            obtain ⟨rfl, rfl⟩ := found
            obtain ⟨rfl, absent⟩ := ih deeper
            exact ⟨rfl, absent⟩
        | none =>
            simp only [deeper, Option.ite_none_right_eq_some, Option.some.injEq,
              Prod.mk.injEq] at found
            obtain ⟨rfl, rfl, rfl⟩ := found
            exact ⟨rfl, cutLast?_eq_none_iff.mp deeper⟩
  · rintro ⟨rfl, absent⟩
    induction front with
    | nil => simp [cutLast?, cutLast?_eq_none_iff.mpr absent]
    | cons c front ih => simp [cutLast?, ih]

/-- The stem and the number of a symbol, as they are written. -/
def divide? (symbol : String) : Option (String × String) :=
  (cutLast? symbol.toList).map (Prod.map String.ofList String.ofList)

theorem divide?_symbol (stem : String) (number : UInt64) :
    divide? (symbol stem number) = some (stem, toString number.toNat) := by
  have absent : '_' ∉ Text.decimal number.toNat := Text.notMem_decimal rfl number.toNat
  have cut : cutLast? (symbol stem number).toList =
      some (stem.toList, Text.decimal number.toNat) :=
    cutLast?_eq_some_iff.mpr ⟨by simp [symbol], absent⟩
  rw [divide?, cut, Option.map_some, Prod.map, String.ofList_toList]
  rfl

theorem symbol_injective {stem stem' : String} {number number' : UInt64}
    (same : symbol stem number = symbol stem' number') :
    stem = stem' ∧ number = number' := by
  have divided := congrArg divide? same
  rw [divide?_symbol, divide?_symbol] at divided
  obtain ⟨stems, numbers⟩ := Prod.mk.inj (Option.some.inj divided)
  exact ⟨stems, UInt64.toNat_inj.mp (Text.decimal_injective (String.ofList_injective numbers))⟩

section Numbers

variable {start : UInt64} {count other : Nat}

theorem add_ofNat_add (start : UInt64) (count more : Nat) :
    start + UInt64.ofNat (count + more) = start + UInt64.ofNat count + UInt64.ofNat more := by
  rw [UInt64.ofNat_add, UInt64.add_assoc]

/-- Numbers count on from the start as long as they do not reach the end of the range. -/
theorem toNat_add_ofNat (few : start.toNat + count < 2 ^ 64) :
    (start + UInt64.ofNat count).toNat = start.toNat + count := by
  rw [UInt64.toNat_add, UInt64.toNat_ofNat', Nat.add_mod_mod, Nat.mod_eq_of_lt few]

/-- Wherever they start, and also if they start again at zero, no more than `2 ^ 64`
consecutive numbers are distinct. -/
theorem add_ofNat_succ_inj (few : count < 2 ^ 64) (fewOther : other < 2 ^ 64)
    (same : start + UInt64.ofNat (count + 1) = start + UInt64.ofNat (other + 1)) :
    count = other := by
  have numbers := congrArg UInt64.toNat same
  simp only [UInt64.toNat_add, UInt64.toNat_ofNat'] at numbers
  omega

end Numbers

theorem draw_startingAt_add (start : UInt64) (count : Nat) (stem : String) :
    (startingAt (start + UInt64.ofNat count)).draw stem =
      (symbol stem (start + UInt64.ofNat (count + 1)),
        startingAt (start + UInt64.ofNat (count + 1))) := by
  rw [add_ofNat_add]
  rfl

/-- The symbols of draws for the given stems, one draw after the other, and the supply
behind them. -/
def drawAll (supply : SymbolSupply) : List String → List String × SymbolSupply
  | [] => ([], supply)
  | stem :: stems =>
      let (symbol, next) := supply.draw stem
      let (symbols, last) := next.drawAll stems
      (symbol :: symbols, last)

theorem drawAll_cons (supply : SymbolSupply) (stem : String) (stems : List String) :
    supply.drawAll (stem :: stems) =
      ((supply.draw stem).1 :: ((supply.draw stem).2.drawAll stems).1,
        ((supply.draw stem).2.drawAll stems).2) := rfl

theorem drawAll_append (supply : SymbolSupply) (stems more : List String) :
    supply.drawAll (stems ++ more) =
      ((supply.drawAll stems).1 ++ ((supply.drawAll stems).2.drawAll more).1,
        ((supply.drawAll stems).2.drawAll more).2) := by
  induction stems generalizing supply with
  | nil => rfl
  | cons stem stems ih => simp only [List.cons_append, drawAll_cons, ih]

theorem drawAll_eq (supply : SymbolSupply) (stems : List String) :
    supply.drawAll stems =
      (stems.mapIdx fun index stem => symbol stem (supply.issued + UInt64.ofNat (index + 1)),
        startingAt (supply.issued + UInt64.ofNat stems.length)) := by
  induction stems generalizing supply with
  | nil => simp [drawAll, startingAt]
  | cons stem stems ih =>
      have next (count : Nat) : supply.issued + 1 + UInt64.ofNat count =
          supply.issued + UInt64.ofNat (count + 1) := by
        rw [Nat.add_comm, add_ofNat_add]
        rfl
      rw [drawAll_cons, ih, List.mapIdx_cons, List.length_cons]
      simp only [draw, next]
      rfl

theorem nodup_drawAll (supply : SymbolSupply) {stems : List String}
    (few : stems.length ≤ 2 ^ 64) : (supply.drawAll stems).1.Nodup := by
  rw [drawAll_eq, List.Nodup, List.pairwise_iff_getElem]
  intro i j boundI boundJ before same
  simp only [List.getElem_mapIdx] at same
  rw [List.length_mapIdx] at boundI boundJ
  exact before.ne (add_ofNat_succ_inj (by omega) (by omega) (symbol_injective same).2)

theorem numbers_drawAll {start : UInt64} {stems : List String} {drawn : String}
    (few : start.toNat + stems.length < 2 ^ 64)
    (member : drawn ∈ ((startingAt start).drawAll stems).1) :
    ∃ stem number, drawn = symbol stem number ∧
      start < number ∧ number ≤ start + UInt64.ofNat stems.length := by
  rw [drawAll_eq, List.mem_mapIdx] at member
  obtain ⟨index, bound, rfl⟩ := member
  have own : (start + UInt64.ofNat (index + 1)).toNat = start.toNat + (index + 1) :=
    toNat_add_ofNat (by omega)
  refine ⟨stems[index], start + UInt64.ofNat (index + 1), rfl, ?_, ?_⟩
  · rw [UInt64.lt_iff_toNat_lt, own]
    omega
  · rw [UInt64.le_iff_toNat_le, own, toNat_add_ofNat few]
    omega

/-- The symbols of consecutive draws are distinct, whatever the stems; each divides into
its stem and its number, and as many are issued as there were stems. -/
theorem draws_distinct_and_divide (start : UInt64) (stems : List String)
    (few : start.toNat + stems.length < 2 ^ 64) :
    ∃ symbols after, (startingAt start).drawAll stems = (symbols, after) ∧
      after.issued.toNat = start.toNat + stems.length ∧
      symbols.Nodup ∧ symbols.length = stems.length ∧
      ∀ index stem, stems[index]? = some stem →
        ∃ symbol, symbols[index]? = some symbol ∧
          divide? symbol = some (stem, toString (start.toNat + (index + 1))) := by
  have distinct : ((startingAt start).drawAll stems).1.Nodup := nodup_drawAll _ (by omega)
  rw [drawAll_eq] at distinct ⊢
  refine ⟨_, _, rfl, toNat_add_ofNat few, distinct, List.length_mapIdx, fun index stem found => ?_⟩
  obtain ⟨bound, -⟩ := List.getElem?_eq_some_iff.mp found
  have number : (start + UInt64.ofNat (index + 1)).toNat = start.toNat + (index + 1) :=
    toNat_add_ofNat (by omega)
  exact ⟨_, by rw [List.getElem?_mapIdx, found]; rfl, by rw [divide?_symbol]; exact number ▸ rfl⟩

/-- Up to the greatest number, with stems that look like symbols themselves. -/
theorem draws_distinct_and_divide_last_numbers :
    (18446744073709551612 : UInt64).toNat + ["x_41", "x", ""].length < 2 ^ 64 ∧
      ∃ symbols after, (startingAt 18446744073709551612).drawAll ["x_41", "x", ""] =
          (symbols, after) ∧ symbols.Nodup ∧ after.issued.toNat = 18446744073709551615 := by
  have few : (18446744073709551612 : UInt64).toNat + ["x_41", "x", ""].length < 2 ^ 64 := by decide
  obtain ⟨symbols, after, drawn, issued, distinct, -⟩ :=
    draws_distinct_and_divide 18446744073709551612 ["x_41", "x", ""] few
  exact ⟨few, symbols, after, drawn, distinct, issued⟩

example : ((startingAt 40).drawAll ["x_41", "x", ""]).1 = ["x_41_41", "x_42", "_43"] := by decide

end QueryWire.SymbolSupply
