import QueryWire.Calendar.Rfc3339
import QueryWire.Proofs.Calendar.IsoDate

namespace QueryWire.Calendar

theorem padded_append_injective {width n m : Nat} {rest rest' : List Char}
    (positive : 0 < width) (bound : n < 10 ^ width) (bound' : m < 10 ^ width)
    (same : Text.padded width n ++ rest = Text.padded width m ++ rest') :
    n = m ∧ rest = rest' := by
  have widths : (Text.padded width n).length = (Text.padded width m).length := by
    rw [Text.length_padded positive bound, Text.length_padded positive bound']
  obtain ⟨texts, behind⟩ := List.append_inj same widths
  exact ⟨Text.padded_injective texts, behind⟩

/-- A date holds digits, hyphens and perhaps a plus sign. -/
theorem Date.mem_text {date : Date} {c : Char} (member : c ∈ date.text) :
    c.isDigit = true ∨ c ∈ ['-', '+'] := by
  have digits {width n : Nat} (inside : c ∈ Text.padded width n) : c.isDigit = true :=
    Text.isDigit_of_mem_padded inside
  have year (inside : c ∈ yearText date.year) : c.isDigit = true ∨ c ∈ ['-', '+'] := by
    unfold yearText at inside
    split at inside
    · rcases List.mem_cons.mp inside with rfl | digit
      · exact .inr (by decide)
      · exact .inl (digits digit)
    · split at inside
      · exact .inl (digits inside)
      · rcases List.mem_cons.mp inside with rfl | digit
        · exact .inr (by decide)
        · exact .inl (digits digit)
  simp only [text, List.mem_append, List.mem_cons] at member
  rcases member with (years | rfl | month) | rfl | day
  · exact year years
  · exact .inr (by decide)
  · exact .inl (digits month)
  · exact .inr (by decide)
  · exact .inl (digits day)

theorem Date.notMem_text (date : Date) : 'T' ∉ date.text :=
  fun member => absurd (Date.mem_text member) (by decide)

/-- The digits behind the point count units of their last place. -/
theorem numeral_fraction {places value : Nat} (positive : 0 < places)
    (bound : value < 10 ^ places) :
    Text.numeral (('.' :: Text.padded places value).drop 1) *
        10 ^ (10 - ('.' :: Text.padded places value).length) = value * 10 ^ (9 - places) := by
  have unit : 10 - (places + 1) = 9 - places := Nat.add_sub_add_right 9 1 places
  rw [List.length_cons, Text.length_padded positive bound, List.drop_one, List.tail_cons,
    Text.numeral_padded, unit]

/-- A fraction is as long as it is exact, so its length tells its unit. -/
theorem fractionText_injective {nano nano' : Nat} (bound : nano < nanosPerSecond)
    (bound' : nano' < nanosPerSecond) (same : fractionText nano = fractionText nano') :
    nano = nano' := by
  have read (nano : Nat) (bound : nano < nanosPerSecond) :
      Text.numeral ((fractionText nano).drop 1) * 10 ^ (10 - (fractionText nano).length) = nano := by
    unfold nanosPerSecond at bound
    unfold fractionText
    split
    · next zero => rw [zero]; rfl
    split
    · rw [numeral_fraction (by decide) (by omega)]
      omega
    split
    · rw [numeral_fraction (by decide) (by omega)]
      omega
    · rw [numeral_fraction (by decide) (by omega)]
      omega
  rw [← read nano bound, same, read nano' bound']

namespace Timestamp

/-- A leap second, if the time is one, stands at the end of its minute. -/
def LeapAtMinuteEnd (time : Timestamp) : Prop :=
  nanosPerSecond ≤ time.nano → time.secondOfMinute = 59

/-- The second that is written, with a leap second counted on. -/
def writtenSecond (time : Timestamp) : Nat :=
  time.secondOfMinute + time.nano / nanosPerSecond

theorem of?_eq_some {date : Date} {hour minute second nano : Nat} {time : Timestamp}
    (found : of? date hour minute second nano = some time) :
    time.date = date ∧ time.second = (hour * 60 + minute) * 60 + second ∧ time.nano = nano ∧
      second < 60 ∧ (nano < nanosPerSecond ∨ second = 59) := by
  simp only [of?] at found
  split at found
  · next fields =>
    cases found
    exact ⟨rfl, rfl, rfl, fields.2.2.1, fields.2.2.2.2⟩
  · cases found

theorem of?_fields {time : Timestamp} (leap : time.LeapAtMinuteEnd) :
    of? time.date time.hour time.minute time.secondOfMinute time.nano = some time := by
  obtain ⟨date, second, nano, second_lt, nano_lt⟩ := time
  simp only [LeapAtMinuteEnd, hour, minute, secondOfMinute] at leap ⊢
  have within : second < 86400 := second_lt
  have sum : (second / 3600 * 60 + second / 60 % 60) * 60 + second % 60 = second := by omega
  rw [of?, dif_pos (by omega)]
  simp only [sum]

theorem fields_lt (time : Timestamp) :
    time.hour < 10 ^ 2 ∧ time.minute < 10 ^ 2 ∧ time.writtenSecond < 10 ^ 2 := by
  have within := time.second_lt
  have nanos := time.nano_lt
  simp only [hour, minute, writtenSecond, secondOfMinute, secondsPerDay, nanosPerSecond]
    at within nanos ⊢
  omega

theorem text_eq (time : Timestamp) : time.text = time.date.text ++ 'T' ::
    (Text.padded 2 time.hour ++ ':' :: (Text.padded 2 time.minute ++
      ':' :: (Text.padded 2 time.writtenSecond ++
        (fractionText (time.nano % nanosPerSecond) ++ ['Z'])))) := by
  simp [text, writtenSecond]

/-- A time holds digits and few marks. -/
theorem mem_text {time : Timestamp} {c : Char} (member : c ∈ time.text) :
    c.isDigit = true ∨ c ∈ ['-', '+', 'T', ':', '.', 'Z'] := by
  have digits {width n : Nat} (inside : c ∈ Text.padded width n) : c.isDigit = true :=
    Text.isDigit_of_mem_padded inside
  have fraction (nano : Nat) (inside : c ∈ fractionText nano) : c.isDigit = true ∨ c = '.' := by
    unfold fractionText at inside
    split at inside
    · cases inside
    split at inside
    · exact (List.mem_cons.mp inside).symm.imp_left digits
    split at inside
    · exact (List.mem_cons.mp inside).symm.imp_left digits
    · exact (List.mem_cons.mp inside).symm.imp_left digits
  rw [text_eq] at member
  simp only [List.mem_append, List.mem_cons] at member
  rcases member with date | rfl | hour | rfl | minute | rfl | second | nanos | rfl | none
  · exact (Date.mem_text date).imp_right (List.mem_append_left ['T', ':', '.', 'Z'])
  · exact .inr (by decide)
  · exact .inl (digits hour)
  · exact .inr (by decide)
  · exact .inl (digits minute)
  · exact .inr (by decide)
  · exact .inl (digits second)
  · exact (fraction _ nanos).imp_right fun same => by simp [same]
  · exact .inr (by decide)
  · cases none

theorem fields_of_text {time time' : Timestamp} (same : time.text = time'.text) :
    time.date = time'.date ∧ time.hour = time'.hour ∧ time.minute = time'.minute ∧
      time.writtenSecond = time'.writtenSecond ∧
      time.nano % nanosPerSecond = time'.nano % nanosPerSecond := by
  obtain ⟨hours, minutes, seconds⟩ := time.fields_lt
  obtain ⟨hours', minutes', seconds'⟩ := time'.fields_lt
  have nanos (time : Timestamp) : time.nano % nanosPerSecond < nanosPerSecond :=
    Nat.mod_lt _ (by decide)
  rw [text_eq, text_eq] at same
  obtain ⟨dates, clocks⟩ :=
    Text.cons_injective_of_notMem time.date.notMem_text time'.date.notMem_text same
  obtain ⟨sameHour, clocks⟩ :=
    padded_append_injective (by decide) hours hours' clocks
  obtain ⟨sameMinute, clocks⟩ :=
    padded_append_injective (by decide) minutes minutes' (List.cons.inj clocks).2
  obtain ⟨sameSecond, clocks⟩ :=
    padded_append_injective (by decide) seconds seconds' (List.cons.inj clocks).2
  have sameNano := fractionText_injective (nanos time) (nanos time')
    (List.append_cancel_right clocks)
  exact ⟨Date.text_injective dates, sameHour, sameMinute, sameSecond, sameNano⟩

theorem text_injective {time time' : Timestamp} (leap : time.LeapAtMinuteEnd)
    (leap' : time'.LeapAtMinuteEnd) (same : time.text = time'.text) : time = time' := by
  obtain ⟨dates, hours, minutes, seconds, nanos⟩ := fields_of_text same
  obtain ⟨date, second, nano, second_lt, nano_lt⟩ := time
  obtain ⟨date', second', nano', second_lt', nano_lt'⟩ := time'
  simp only [LeapAtMinuteEnd, writtenSecond, hour, minute, secondOfMinute, nanosPerSecond]
    at leap leap' dates hours minutes seconds nanos nano_lt nano_lt'
  have sameSecond : second = second' := by omega
  have sameNano : nano = nano' := by omega
  subst dates sameSecond sameNano
  rfl

/-- In the middle of a minute, a leap second is not told from the second behind it. -/
example (date : Date) :
    (⟨date, 30, nanosPerSecond, by decide, by decide⟩ : Timestamp).text =
      (⟨date, 31, 0, by decide, by decide⟩ : Timestamp).text := by
  simp [text, hour, minute, secondOfMinute, nanosPerSecond]

end Timestamp

end QueryWire.Calendar
