import QueryWire.Proofs.Calendar.Spelling

namespace QueryWire.Calendar

namespace Rfc3339

variable {text rest : List Char}

theorem year_of_date {day : Date} (accepted : date text = .ok (day, rest)) :
    0 ≤ day.year ∧ day.year ≤ 9999 := by
  obtain ⟨year, _, read, later⟩ := Reader.bind_eq_ok.mp accepted
  obtain ⟨_, _, -, later⟩ := Reader.bind_eq_ok.mp later
  obtain ⟨_, _, -, later⟩ := Reader.bind_eq_ok.mp later
  obtain ⟨_, _, -, later⟩ := Reader.bind_eq_ok.mp later
  obtain ⟨_, _, -, later⟩ := Reader.bind_eq_ok.mp later
  have bound := Reader.digits_lt read
  have same := (Date.of?_eq_some_iff.mp (Reader.of_existing later)).1
  omega

/-- Only second 60 is read as a leap second, and it is kept at second 59. -/
theorem leap_of_timeOn {day : Date} {wall : Timestamp}
    (accepted : timeOn day text = .ok (wall, rest)) :
    wall.date = day ∧ wall.LeapAtMinuteEnd := by
  obtain ⟨hour, _, -, later⟩ := Reader.bind_eq_ok.mp accepted
  obtain ⟨_, _, -, later⟩ := Reader.bind_eq_ok.mp later
  obtain ⟨minute, _, -, later⟩ := Reader.bind_eq_ok.mp later
  obtain ⟨_, _, -, later⟩ := Reader.bind_eq_ok.mp later
  obtain ⟨_, _, -, later⟩ := Reader.bind_eq_ok.mp later
  obtain ⟨_, _, -, later⟩ := Reader.bind_eq_ok.mp later
  -- Both ways go through the same bounds, which leave a leap second only second 59.
  obtain ⟨second, nano, found⟩ : ∃ second nano,
      Timestamp.of? day hour minute second nano = some wall := by
    have found := Reader.of_existing later
    split at found
    · exact ⟨_, _, found⟩
    · exact ⟨_, _, found⟩
  obtain ⟨sameDate, sameSecond, sameNano, bound, leap⟩ := Timestamp.of?_eq_some found
  refine ⟨sameDate, fun counted => ?_⟩
  rw [Timestamp.secondOfMinute, sameSecond]
  omega

theorem whole_of_unsignedOffset {seconds : Nat}
    (accepted : unsignedOffset text = .ok (seconds, rest)) : 60 ∣ seconds := by
  obtain ⟨hours, _, -, later⟩ := Reader.bind_eq_ok.mp accepted
  obtain ⟨_, _, -, later⟩ := Reader.bind_eq_ok.mp later
  obtain ⟨minutes, _, -, later⟩ := Reader.bind_eq_ok.mp later
  obtain ⟨_, _, -, later⟩ := Reader.bind_eq_ok.mp later
  cases later
  omega

theorem whole_of_offset {seconds : Int} (accepted : offset text = .ok (seconds, rest)) :
    60 ∣ seconds := by
  cases text with
  | nil => cases accepted
  | cons c more =>
      rw [offset] at accepted
      split at accepted
      · cases accepted
        exact Int.dvd_zero 60
      split at accepted
      · obtain ⟨_, read, result⟩ := bind_eq_ok accepted
        cases result
        exact Int.natCast_dvd_natCast.mpr (whole_of_unsignedOffset read)
      split at accepted
      · obtain ⟨_, read, result⟩ := bind_eq_ok accepted
        cases result
        exact Int.dvd_neg.mpr (Int.natCast_dvd_natCast.mpr (whole_of_unsignedOffset read))
      · cases accepted

end Rfc3339

namespace Timestamp

theorem wall_of_read {text : List Char} {moment : Timestamp} (accepted : read text = .ok moment) :
    ∃ (wall : Timestamp) (offset : Offset),
      wall.Spellable ∧ 60 ∣ offset.seconds ∧ wall.toUtc? offset = some moment := by
  obtain ⟨rest, taken⟩ := Reader.readAll_eq_ok.mp accepted
  obtain ⟨_, _, -, later⟩ := Reader.bind_eq_ok.mp taken
  obtain ⟨day, _, dated, later⟩ := Reader.bind_eq_ok.mp later
  obtain ⟨_, _, -, later⟩ := Reader.bind_eq_ok.mp later
  obtain ⟨wall, _, timed, later⟩ := Reader.bind_eq_ok.mp later
  obtain ⟨seconds, _, shifted, later⟩ := Reader.bind_eq_ok.mp later
  obtain ⟨_, _, -, later⟩ := Reader.bind_eq_ok.mp later
  obtain ⟨offset, _, bounded, later⟩ := Reader.bind_eq_ok.mp later
  obtain ⟨sameDate, leap⟩ := Rfc3339.leap_of_timeOn timed
  have year := Rfc3339.year_of_date dated
  have same : offset.seconds = seconds := by
    have found := Reader.of_existing bounded
    simp only [Offset.of?] at found
    split at found <;> cases found
    rfl
  rw [← sameDate] at year
  exact ⟨wall, offset, ⟨year, leap⟩, same ▸ Rfc3339.whole_of_offset shifted,
    Reader.of_existing later⟩

theorem LeapAtMinuteEnd.toUtc? {wall moment : Timestamp} {offset : Offset}
    (leap : wall.LeapAtMinuteEnd) (whole : 60 ∣ offset.seconds)
    (moved : wall.toUtc? offset = some moment) : moment.LeapAtMinuteEnd := by
  obtain ⟨-, sameNano, -⟩ := toUtc?_eq_some moved
  intro counted
  rw [(secondOfMinute_toUtc? moved).mpr whole]
  exact leap (sameNano ▸ counted)

theorem leapAtMinuteEnd_of_read {text : List Char} {moment : Timestamp}
    (accepted : read text = .ok moment) : moment.LeapAtMinuteEnd := by
  obtain ⟨wall, offset, spellable, whole, moved⟩ := wall_of_read accepted
  exact spellable.leap.toUtc? whole moved

theorem year_of_read {text : List Char} {moment : Timestamp} (accepted : read text = .ok moment) :
    -1 ≤ moment.date.year ∧ moment.date.year ≤ 10000 := by
  obtain ⟨wall, offset, spellable, -, moved⟩ := wall_of_read accepted
  have near := (toUtc?_eq_some moved).2.2
  have year := spellable.year
  omega

/-- A year outside four digits is written with a sign, which no digit is. -/
theorem read_text_of_outside {time : Timestamp}
    (outside : ¬ (0 ≤ time.date.year ∧ time.date.year ≤ 9999)) :
    read time.text = .error .invalid := by
  obtain ⟨sign, digits, signed, foreign⟩ : ∃ sign digits, yearText time.date.year =
      sign :: Text.padded 4 digits ∧ sign.isDigit = false := by
    unfold yearText
    split
    · exact ⟨'-', _, rfl, rfl⟩
    · rw [if_neg (by omega)]
      exact ⟨'+', _, rfl, rfl⟩
  have enough : Rfc3339.leastBytes ≤ Text.byteCount time.text := by
    have year := Text.le_length_padded 4 digits
    have two := Text.le_length_padded 2
    have month := two time.date.month
    have day := two time.date.day
    have hour := two time.hour
    have minute := two time.minute
    have second := two time.writtenSecond
    refine Nat.le_trans ?_ (Text.length_le_byteCount _)
    rw [text_eq, Date.text, signed]
    simp only [List.length_append, List.length_cons, Rfc3339.leastBytes]
    omega
  have refused (rest : List Char) : Rfc3339.date (sign :: rest) = .error .invalid := by
    have first : Reader.digit (sign :: rest) = .error .invalid := if_neg (by simp [foreign])
    exact Reader.bind_error (Reader.digits_error (by decide) first)
  have taken : Rfc3339.timestamp time.text = .error .invalid := by
    rw [Rfc3339.timestamp, Reader.bind_ok (Reader.require_of_le enough), text_eq, Date.text, signed]
    exact Reader.bind_error (refused _)
  exact congrArg (Except.map Prod.fst) taken

/-- The written text is read back just if RFC 3339 has a text for the time. -/
theorem read_text_iff {time : Timestamp} : read time.text = .ok time ↔ time.Spellable := by
  constructor
  · intro back
    refine ⟨?_, leapAtMinuteEnd_of_read back⟩
    by_contra outside
    rw [read_text_of_outside outside] at back
    cases back
  · intro spellable
    have bounds : -secondsPerDay < (0 : Int) ∧ (0 : Int) < secondsPerDay := by decide
    exact read_of_spells (spells_text spellable ⟨0, bounds⟩ rfl)
      (toUtc?_zero time bounds)

end Timestamp

end QueryWire.Calendar
