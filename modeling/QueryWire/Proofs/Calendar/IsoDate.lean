import QueryWire.Calendar.IsoDate
import QueryWire.Proofs.Calendar.Reader

namespace QueryWire.Calendar

/-! # Dates as ISO 8601 has them and as they are read

ISO 8601 has one text for a date, the one in `IsoForm`, and that is what is
written.  The reader takes the texts in `Spells`.  These are more: blanks may
stand in front of each number, a number may have fewer digits than its place is
wide, and any year may have a sign and zeros in front.  What is written is read
back, so the texts of two dates are different.
-/

/-- The text of a date of a year, a month and a day in the given forms. -/
inductive Date.HasForm (yearForm : Int → List Char → Prop) (fieldForm : Nat → List Char → Prop)
    (date : Date) : List Char → Prop where
  | intro {year month day : List Char} (inYear : yearForm date.year year)
      (inMonth : fieldForm date.month month) (onDay : fieldForm date.day day) :
      HasForm yearForm fieldForm date (year ++ '-' :: (month ++ '-' :: day))

/-- A year of four digits, or with a sign where it is negative or takes more. -/
inductive IsoYear : Int → List Char → Prop where
  | plain {value : Nat} {run : List Char} (number : Text.Denotes run value)
      (four : run.length = 4) : IsoYear value run
  | negative {value : Nat} {run : List Char} (number : Text.DenotesPadded 4 run value)
      (nonzero : value ≠ 0) : IsoYear (-value) ('-' :: run)
  | large {value : Nat} {run : List Char} (number : Text.DenotesPadded 4 run value)
      (more : 4 < run.length) : IsoYear value ('+' :: run)

def Date.IsoForm (date : Date) : List Char → Prop :=
  date.HasForm IsoYear fun value run => Text.Denotes run value ∧ run.length = 2

/-- A text behind any number of blanks. -/
inductive BehindBlanks (form : List Char → Prop) : List Char → Prop where
  | intro {blanks text : List Char} (blank : ∀ c ∈ blanks, Text.isBlank c = true)
      (formed : form text) : BehindBlanks form (blanks ++ text)

/-- A year of up to four digits, or of a sign and any number of digits. -/
inductive SpellsYear : Int → List Char → Prop where
  | unsigned {value : Nat} {run : List Char} (number : Text.Denotes run value)
      (short : run.length ≤ 4) : SpellsYear value run
  | plus {value : Nat} {run : List Char} (number : Text.Denotes run value) :
      SpellsYear value ('+' :: run)
  | minus {value : Nat} {run : List Char} (number : Text.Denotes run value) :
      SpellsYear (-value) ('-' :: run)

/-- A month or a day of one or two digits. -/
def SpellsField (value : Nat) (run : List Char) : Prop :=
  Text.Denotes run value ∧ run.length ≤ 2

def Date.Spells (date : Date) : List Char → Prop :=
  date.HasForm (fun year => BehindBlanks (SpellsYear year))
    fun value => BehindBlanks (SpellsField value)

theorem Date.HasForm.imp {yearForm yearForm' : Int → List Char → Prop}
    {fieldForm fieldForm' : Nat → List Char → Prop} {date : Date} {text : List Char}
    (formed : date.HasForm yearForm fieldForm text)
    (years : ∀ year run, yearForm year run → yearForm' year run)
    (fields : ∀ value run, fieldForm value run → fieldForm' value run) :
    date.HasForm yearForm' fieldForm' text := by
  cases formed with
  | intro inYear inMonth onDay => exact .intro (years _ _ inYear) (fields _ _ inMonth) (fields _ _ onDay)

theorem BehindBlanks.none {form : List Char → Prop} {text : List Char} (formed : form text) :
    BehindBlanks form text :=
  @intro form [] text (List.forall_mem_nil _) formed

theorem IsoYear.spellsYear {year : Int} {run : List Char} (iso : IsoYear year run) :
    SpellsYear year run := by
  cases iso with
  | plain number four => exact .unsigned number (Nat.le_of_eq four)
  | negative number nonzero => exact .minus number.toDenotes
  | large number more => exact .plus number.toDenotes

theorem Date.IsoForm.spells {date : Date} {text : List Char} (iso : date.IsoForm text) :
    date.Spells text :=
  HasForm.imp iso (fun _ _ inYear => .none inYear.spellsYear)
    fun _ _ ⟨number, two⟩ => .none ⟨number, Nat.le_of_eq two⟩

/-! ## What is written -/

theorem yearText_eq_iff {year : Int} {run : List Char} :
    yearText year = run ↔ IsoYear year run := by
  have four (value : Nat) : Text.DenotesPadded 4 (Text.padded 4 value) value :=
    Text.denotesPadded_padded (by decide) value
  constructor
  · rintro rfl
    unfold yearText
    split
    · obtain ⟨value, rfl⟩ : ∃ value : Nat, year = -(value : Int) := ⟨year.natAbs, by omega⟩
      rw [Int.natAbs_neg, Int.natAbs_natCast]
      exact .negative (four value) (by omega)
    · obtain ⟨value, rfl⟩ : ∃ value : Nat, year = value := ⟨year.natAbs, by omega⟩
      rw [Int.natAbs_natCast]
      split
      · have length : (Text.padded 4 value).length = 4 :=
          Text.length_padded (by decide) (by omega)
        exact .plain (four value).toDenotes length
      · have more : 4 < (Text.padded 4 value).length := by
          by_contra short
          have bound := (four value).lt
          have power := Nat.pow_le_pow_right (n := 10) (by decide) (Nat.le_of_not_lt short)
          omega
        exact .large (four value) more
  · intro iso
    cases iso with
    | @plain value run number length =>
        have bound := number.lt
        rw [length] at bound
        rw [yearText, if_neg (by omega), if_pos (by omega), Int.natAbs_natCast]
        refine (Text.padded_eq_iff (by decide)).mpr { number with wide := by omega, lean := ?_ }
        exact fun longer => absurd longer (by omega)
    | @negative value run number nonzero =>
        rw [yearText, if_pos (by omega), Int.natAbs_neg, Int.natAbs_natCast,
          (Text.padded_eq_iff (by decide)).mpr number]
    | @large value run number more =>
        have bound := number.pow_le more
        rw [yearText, if_neg (by omega), if_neg (by omega), Int.natAbs_natCast,
          (Text.padded_eq_iff (by decide)).mpr number]

/-- A number below one hundred is written with two digits. -/
theorem padded_two_iff {value : Nat} (bound : value < 100) {run : List Char} :
    Text.padded 2 value = run ↔ Text.Denotes run value ∧ run.length = 2 := by
  rw [Text.padded_eq_iff (by decide)]
  constructor
  · intro number
    have length := Text.length_padded (by decide : 0 < 2) bound
    rw [(Text.padded_eq_iff (by decide)).mpr number] at length
    exact ⟨number.toDenotes, length⟩
  · rintro ⟨number, length⟩
    exact { number with
      wide := Nat.le_of_eq length.symm
      lean := fun longer => absurd longer (by omega) }

namespace Date

theorem monthLength_le (year : Int) (month : Nat) : monthLength year month ≤ 31 := by
  unfold monthLength
  split
  · split <;> decide
  · split <;> decide

theorem month_and_day_lt (date : Date) : date.month < 100 ∧ date.day < 100 := by
  have days := monthLength_le date.year date.month
  have months := date.month_bounds
  have inside := date.day_bounds
  omega

theorem isoForm_text (date : Date) : date.IsoForm date.text := by
  obtain ⟨month, day⟩ := date.month_and_day_lt
  rw [text, List.append_assoc, List.cons_append]
  exact .intro (yearText_eq_iff.mp rfl) ((padded_two_iff month).mp rfl)
    ((padded_two_iff day).mp rfl)

/-- ISO 8601 has no other text for the date than the one that is written. -/
theorem text_eq_iff {date : Date} {text : List Char} : date.text = text ↔ date.IsoForm text := by
  constructor
  · rintro rfl
    exact date.isoForm_text
  · intro iso
    obtain ⟨month, day⟩ := date.month_and_day_lt
    cases iso with
    | intro inYear inMonth onDay =>
        rw [Date.text, yearText_eq_iff.mpr inYear, (padded_two_iff month).mpr inMonth,
          (padded_two_iff day).mpr onDay, List.append_assoc, List.cons_append]

theorem IsoForm.head_minus_iff {date : Date} {text : List Char} (iso : date.IsoForm text) :
    text.head? = some '-' ↔ date.year < 0 := by
  cases iso with
  | intro inYear inMonth onDay =>
      generalize date.year = year at inYear
      cases inYear with
      | plain number four =>
          refine iff_of_false (fun minus => ?_) (by omega)
          exact absurd (number.head_isDigit _ '-' minus) (by decide)
      | negative number nonzero => exact iff_of_true rfl (by omega)
      | large number more => exact iff_of_false nofun (by omega)

theorem IsoForm.head_plus_iff {date : Date} {text : List Char} (iso : date.IsoForm text) :
    text.head? = some '+' ↔ 9999 < date.year := by
  cases iso with
  | intro inYear inMonth onDay =>
      generalize date.year = year at inYear
      cases inYear with
      | plain number four =>
          have bound := number.lt
          rw [four] at bound
          refine iff_of_false (fun plus => ?_) (by omega)
          exact absurd (number.head_isDigit _ '+' plus) (by decide)
      | negative number nonzero => exact iff_of_false nofun (by omega)
      | large number more =>
          have bound := number.pow_le more
          exact iff_of_true rfl (by omega)

end Date

/-! ## What is read -/

namespace IsoDate

variable {text rest : List Char}

theorem isBlank_of_isDigit {c : Char} (isDigit : c.isDigit = true) : Text.isBlank c = false := by
  have bounds : 48 ≤ c.toNat ∧ c.toNat ≤ 57 := Char.isDigit_iff_toNat.mp isDigit
  simp [Text.isBlank, Text.blankRanges]
  omega

theorem skipBlanks_append {blanks : List Char} (blank : ∀ c ∈ blanks, Text.isBlank c = true)
    (solid : ∀ c ∈ rest.head?, Text.isBlank c = false) :
    skipBlanks (blanks ++ rest) = .ok ((), rest) := by
  rw [skipBlanks, List.dropWhile_append_of_pos blank]
  cases rest with
  | nil => rfl
  | cons c more => rw [List.dropWhile_cons_of_neg (by simp [solid c rfl])]

theorem skipBlanks_eq_ok (read : skipBlanks text = .ok ((), rest)) :
    ∃ blanks, (∀ c ∈ blanks, Text.isBlank c = true) ∧ text = blanks ++ rest := by
  cases read
  exact ⟨_, fun c member => List.mem_takeWhile_imp member, List.takeWhile_append_dropWhile.symm⟩

theorem solid_of_denotes {run : List Char} {value : Nat} (number : Text.Denotes run value)
    (rest : List Char) : ∀ c ∈ (run ++ rest).head?, Text.isBlank c = false :=
  fun c first => isBlank_of_isDigit (number.head_isDigit rest c first)

theorem solid_of_spellsYear {year : Int} (spelled : SpellsYear year text) (rest : List Char) :
    ∀ c ∈ (text ++ rest).head?, Text.isBlank c = false := by
  cases spelled with
  | unsigned number short => exact solid_of_denotes number rest
  | plus number | minus number =>
      rintro _ ⟨⟩
      decide

/-- A year that starts with a digit has no sign. -/
theorem signedYear_digit {c : Char} {more rest : List Char} {value : Nat}
    (isDigit : c.isDigit = true)
    (read : Reader.digitsUpTo 4 (c :: more) = .ok (value, rest)) :
    signedYear (c :: more) = .ok ((value : Int), rest) := by
  rw [signedYear, read]
  · rfl
  · rintro _ ⟨⟩
    cases isDigit
  · rintro _ ⟨⟩
    cases isDigit

/-- Behind a year stands a hyphen, which ends the digits however many they are. -/
theorem signedYear_spelled {year : Int} (spelled : SpellsYear year text) (rest : List Char) :
    signedYear (text ++ '-' :: rest) = .ok (year, '-' :: rest) := by
  have ends : ∀ c ∈ ('-' :: rest).head?, c.isDigit = false := by simp
  have whole {run : List Char} {value : Nat} (number : Text.Denotes run value) :
      Reader.digitsUpTo (run ++ '-' :: rest).length (run ++ '-' :: rest) =
        .ok (value, '-' :: rest) :=
    Reader.digitsUpTo_run number (by simp) (.inr ends)
  cases spelled with
  | unsigned number short =>
      have read := Reader.digitsUpTo_run number short (.inr ends)
      obtain ⟨c, more, rfl⟩ := List.exists_cons_of_ne_nil number.notEmpty
      exact signedYear_digit (number.isDigit c List.mem_cons_self) read
  | plus number | minus number =>
      rw [List.cons_append, signedYear, whole number]
      rfl

theorem signedYear_eq_ok {year : Int} (read : signedYear text = .ok (year, rest)) :
    ∃ taken, text = taken ++ rest ∧ SpellsYear year taken := by
  unfold signedYear at read
  split at read
  · obtain ⟨_, digits, result⟩ := QueryWire.bind_eq_ok read
    cases result
    obtain ⟨run, rfl, number, -⟩ := Reader.digitsUpTo_eq_ok List.length_pos_iff.mpr digits
    exact ⟨'-' :: run, rfl, .minus number⟩
  · obtain ⟨_, digits, result⟩ := QueryWire.bind_eq_ok read
    cases result
    obtain ⟨run, rfl, number, -⟩ := Reader.digitsUpTo_eq_ok List.length_pos_iff.mpr digits
    exact ⟨'+' :: run, rfl, .plus number⟩
  · obtain ⟨_, digits, result⟩ := QueryWire.bind_eq_ok read
    cases result
    obtain ⟨run, split, number, short⟩ := Reader.digitsUpTo_eq_ok (fun _ => by decide) digits
    exact ⟨run, split, .unsigned number short⟩

/-- A number behind blanks is taken if it is in its range. -/
theorem inRange_spelled {α : Type} {number : Reader α} {inRange : α → Prop}
    [DecidablePred inRange] {value : α} {blanks : List Char}
    (blank : ∀ c ∈ blanks, Text.isBlank c = true)
    (solid : ∀ c ∈ text.head?, Text.isBlank c = false)
    (numbered : number text = .ok (value, rest)) (holds : inRange value) :
    (do skipBlanks; let value ← number; Reader.ensure (inRange value); return value : Reader α)
      (blanks ++ text) = .ok (value, rest) := by
  rw [Reader.bind_ok (skipBlanks_append blank solid), Reader.bind_ok numbered,
    Reader.bind_ok (Reader.ensure_true holds rest)]
  rfl

theorem inRange_eq_ok {α : Type} {number : Reader α} {inRange : α → Prop}
    [DecidablePred inRange] {value : α}
    (read : (do
      skipBlanks; let value ← number; Reader.ensure (inRange value); return value : Reader α)
        text = .ok (value, rest)) :
    ∃ blanks left, (∀ c ∈ blanks, Text.isBlank c = true) ∧ text = blanks ++ left ∧
      number left = .ok (value, rest) := by
  obtain ⟨_, _, skipped, later⟩ := Reader.bind_eq_ok.mp read
  obtain ⟨_, _, numbered, later⟩ := Reader.bind_eq_ok.mp later
  obtain ⟨_, _, bounded, later⟩ := Reader.bind_eq_ok.mp later
  cases later
  obtain ⟨blanks, blank, rfl⟩ := skipBlanks_eq_ok skipped
  obtain ⟨-, rfl⟩ := Reader.of_ensure bounded
  exact ⟨blanks, _, blank, rfl, numbered⟩

theorem year_spelled {year : Int} (bounds : firstYear ≤ year ∧ year ≤ lastYear)
    (spelled : BehindBlanks (SpellsYear year) text) (rest : List Char) :
    IsoDate.year (text ++ '-' :: rest) = .ok (year, '-' :: rest) := by
  have word : Int32.minValue.toInt ≤ year ∧ year ≤ Int32.maxValue.toInt := by
    rw [Int32.toInt_minValue, Int32.toInt_maxValue]
    simp only [firstYear, lastYear] at bounds
    omega
  cases spelled with
  | intro blank spelled =>
      rw [List.append_assoc]
      exact inRange_spelled blank (solid_of_spellsYear spelled _)
        (signedYear_spelled spelled rest) word

theorem year_eq_ok {year : Int} (read : IsoDate.year text = .ok (year, rest)) :
    ∃ taken, text = taken ++ rest ∧ BehindBlanks (SpellsYear year) taken := by
  obtain ⟨blanks, _, blank, rfl, numbered⟩ := inRange_eq_ok read
  obtain ⟨taken, rfl, spelled⟩ := signedYear_eq_ok numbered
  exact ⟨blanks ++ taken, (List.append_assoc _ _ _).symm, .intro blank spelled⟩

theorem field_spelled {last value : Nat} (inside : 1 ≤ value ∧ value ≤ last)
    (spelled : BehindBlanks (SpellsField value) text)
    (ends : ∀ c ∈ rest.head?, c.isDigit = false) :
    field last (text ++ rest) = .ok (value, rest) := by
  cases spelled with
  | intro blank spelled =>
      obtain ⟨number, short⟩ := spelled
      rw [List.append_assoc]
      exact inRange_spelled blank (solid_of_denotes number rest)
        (Reader.digitsUpTo_run number short (.inr ends)) inside

theorem field_eq_ok {last value : Nat} (read : field last text = .ok (value, rest)) :
    ∃ taken, text = taken ++ rest ∧ BehindBlanks (SpellsField value) taken := by
  obtain ⟨blanks, _, blank, rfl, numbered⟩ := inRange_eq_ok read
  obtain ⟨run, rfl, number, short⟩ := Reader.digitsUpTo_eq_ok (fun _ => by decide) numbered
  exact ⟨blanks ++ run, (List.append_assoc _ _ _).symm, .intro blank ⟨number, short⟩⟩

end IsoDate

namespace Date

theorem Spells.read {date : Date} {text : List Char} (spelled : date.Spells text) :
    Date.read text = .ok date := by
  have days := monthLength_le date.year date.month
  have inside := date.day_bounds
  refine Reader.readAll_eq_ok.mpr ⟨[], ?_⟩
  cases spelled with
  | intro inYear inMonth onDay =>
      have onDay := IsoDate.field_spelled (show 1 ≤ date.day ∧ date.day ≤ 31 by omega) onDay
        (show ∀ c ∈ ([] : List Char).head?, c.isDigit = false by simp)
      rw [List.append_nil] at onDay
      rw [IsoDate.date, Reader.bind_ok (IsoDate.year_spelled date.year_bounds inYear _),
        Reader.bind_ok (Reader.expect_cons '-' _),
        Reader.bind_ok (IsoDate.field_spelled date.month_bounds inMonth (by simp)),
        Reader.bind_ok (Reader.expect_cons '-' _), Reader.bind_ok onDay,
        Reader.bind_ok Reader.atEnd_nil, of?_fields]
      rfl

theorem spells_of_read {date : Date} {text : List Char} (read : Date.read text = .ok date) :
    date.Spells text := by
  obtain ⟨_, taken⟩ := Reader.readAll_eq_ok.mp read
  obtain ⟨year, _, yearRead, later⟩ := Reader.bind_eq_ok.mp taken
  obtain ⟨_, _, hyphen, later⟩ := Reader.bind_eq_ok.mp later
  obtain ⟨month, _, monthRead, later⟩ := Reader.bind_eq_ok.mp later
  obtain ⟨_, _, hyphen', later⟩ := Reader.bind_eq_ok.mp later
  obtain ⟨day, _, dayRead, later⟩ := Reader.bind_eq_ok.mp later
  obtain ⟨_, _, ended, later⟩ := Reader.bind_eq_ok.mp later
  obtain ⟨years, rfl, inYear⟩ := IsoDate.year_eq_ok yearRead
  obtain rfl := Reader.expect_eq_ok hyphen
  obtain ⟨months, rfl, inMonth⟩ := IsoDate.field_eq_ok monthRead
  obtain rfl := Reader.expect_eq_ok hyphen'
  obtain ⟨days, rfl, onDay⟩ := IsoDate.field_eq_ok dayRead
  obtain ⟨rfl, rfl⟩ := Reader.atEnd_eq_ok ended
  obtain ⟨rfl, rfl, rfl⟩ := of?_eq_some_iff.mp (Reader.of_existing later)
  rw [List.append_nil]
  exact .intro inYear inMonth onDay

theorem read_eq_ok_iff {date : Date} {text : List Char} :
    Date.read text = .ok date ↔ date.Spells text :=
  ⟨spells_of_read, Spells.read⟩

theorem read_text (date : Date) : Date.read date.text = .ok date :=
  date.isoForm_text.spells.read

theorem text_injective {date date' : Date} (same : date.text = date'.text) : date = date' := by
  have read := date.read_text
  rw [same, date'.read_text] at read
  exact (Except.ok.inj read).symm

end Date

end QueryWire.Calendar
