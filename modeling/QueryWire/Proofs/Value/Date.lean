import QueryWire.Proofs.Value.Tagged

namespace QueryWire.Value

open Calendar

theorem readDate_eq_ok_iff {text : String} {value : Value} :
    readDate text = .ok value ↔
      ∃ day, value = .date day ∧ Date.read text.toList = .ok day := by
  rw [readDate]
  cases Date.read text.toList with
  | error fault => simp
  | ok found => simp [eq_comm]

theorem sentAs_date_iff {day : Date} {text : String} :
    (date day).SentAs "@date" text ↔ day.IsoForm text.toList := by
  rw [← Date.text_eq_iff]
  constructor
  · intro sent
    rw [sent.unique (sentAs_date day), String.toList_ofList]
  · intro same
    rw [← String.ofList_toList (s := text), ← same]
    exact sentAs_date day

/-- Whatever the year, a date that the calendar has is sent in the form of ISO 8601, with a
minus sign in front just if its year is negative and a plus sign just if its year has more
than four digits, and is read back from there. -/
theorem dates_read_back {year : Int} {month day : Nat}
    (years : -262143 ≤ year ∧ year ≤ 262142) (months : 1 ≤ month ∧ month ≤ 12)
    (days : 1 ≤ day ∧ day ≤ monthLength year month) :
    ∃ (held : Date) (text : String),
      held.year = year ∧ held.month = month ∧ held.day = day ∧
      (date held).SentAs "@date" text ∧ held.IsoForm text.toList ∧
      (text.toList.head? = some '-' ↔ year < 0) ∧
      (text.toList.head? = some '+' ↔ 9999 < year) ∧
      readDate text = .ok (.date held) := by
  obtain ⟨held, found⟩ := Option.isSome_iff_exists.mp (Date.isSome_of? years months days)
  obtain ⟨rfl, rfl, rfl⟩ := Date.of?_eq_some_iff.mp found
  have iso : held.IsoForm (String.ofList held.text).toList := by
    rw [String.toList_ofList]
    exact held.isoForm_text
  exact ⟨held, String.ofList held.text, rfl, rfl, rfl, sentAs_date held, iso,
    iso.head_minus_iff, iso.head_plus_iff, readDate_eq_ok_iff.mpr ⟨held, rfl, iso.spells.read⟩⟩

/-- The leap day of a year before year 0. -/
theorem dates_read_back_leapDay :
    (-262143 ≤ (-4 : Int) ∧ (-4 : Int) ≤ 262142) ∧ 29 ≤ monthLength (-4) 2 ∧
      ∃ held : Date, held.year = -4 ∧ held.month = 2 ∧ held.day = 29 ∧
        (date held).SentAs "@date" "-0004-02-29" ∧ readDate "-0004-02-29" = .ok (.date held) := by
  let leapDay : Date := ⟨-4, 2, 29, by decide, by decide, by decide⟩
  obtain ⟨held, text, inYear, inMonth, onDay, sent, iso, -, -, read⟩ :=
    @dates_read_back (-4) 2 29 (by decide) (by decide) (by decide)
  have found := Date.of?_eq_some_iff.mpr ⟨inYear, inMonth, onDay⟩
  obtain rfl : leapDay = held := Option.some.inj (leapDay.of?_fields.symm.trans found)
  have written : text = "-0004-02-29" := by
    rw [← String.ofList_toList (s := text), ← Date.text_eq_iff.mpr iso]
    decide +kernel
  subst written
  exact ⟨by decide, by decide, leapDay, rfl, rfl, rfl, sent, read⟩

/-- A text is read just if it spells a date, and as that date; of the texts that are read,
those in the form of ISO 8601 are what is sent for the date.  Every other text is refused by
an error that names it. -/
theorem date_text_accepted_iff (text : String) :
    (∀ value, readDate text = .ok value ↔
      ∃ day, value = .date day ∧ day.Spells text.toList) ∧
    (∀ value, readDate text = .ok value →
      (value.SentAs "@date" text ↔ ∃ day, value = .date day ∧ day.IsoForm text.toList)) ∧
    (∀ day : Date, day.IsoForm text.toList → readDate text = .ok (.date day)) ∧
    ((∀ day : Date, ¬ day.Spells text.toList) →
      ∃ fault, readDate text = .error (.literal (.unreadableDate text fault))) := by
  refine ⟨fun value => ?_, fun value accepted => ?_, fun day iso => ?_, fun foreign => ?_⟩
  · simp only [readDate_eq_ok_iff, Date.read_eq_ok_iff]
  · obtain ⟨day, rfl, -⟩ := readDate_eq_ok_iff.mp accepted
    rw [sentAs_date_iff]
    exact ⟨fun iso => ⟨day, rfl, iso⟩, fun ⟨_, same, iso⟩ => Value.date.inj same ▸ iso⟩
  · exact readDate_eq_ok_iff.mpr ⟨day, rfl, iso.spells.read⟩
  · rw [readDate]
    cases read : Date.read text.toList with
    | error fault => exact ⟨fault, rfl⟩
    | ok day => exact absurd (Date.spells_of_read read) (foreign day)

/-- A month and a day of one digit are read, though ISO 8601 has two in their places. -/
theorem short_date_is_accepted :
    ∃ day, readDate "2024-1-5" = .ok (.date day) ∧
      (date day).SentAs "@date" "2024-01-05" ∧ ¬ (date day).SentAs "@date" "2024-1-5" := by
  let day : Date := ⟨2024, 1, 5, by decide, by decide, by decide⟩
  have written : String.ofList day.text = "2024-01-05" := by decide +kernel
  have sent : (date day).SentAs "@date" "2024-01-05" := written ▸ sentAs_date day
  exact ⟨day, by rfl, sent, fun short => absurd (sent.unique short) (by decide)⟩

end QueryWire.Value
