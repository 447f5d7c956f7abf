import QueryWire.Proofs.Calendar.Acceptance
import QueryWire.Proofs.Value.Tagged

namespace QueryWire.Value

open Calendar

theorem readTime_eq_ok_iff {text : String} {value : Value} :
    readTime text = .ok value ↔
      ∃ moment, value = .time moment ∧ Timestamp.read text.toList = .ok moment := by
  simp only [readTime]
  cases Timestamp.read text.toList with
  | error fault => simp
  | ok found =>
      constructor
      · rintro ⟨⟩
        exact ⟨found, rfl, rfl⟩
      · rintro ⟨_, rfl, ⟨⟩⟩
        rfl

theorem readTime_ofList_eq_ok_iff {text : List Char} {moment : Timestamp} :
    readTime (String.ofList text) = .ok (.time moment) ↔ Timestamp.read text = .ok moment := by
  rw [readTime_eq_ok_iff, String.toList_ofList]
  constructor
  · rintro ⟨_, ⟨⟩, read⟩
    exact read
  · exact fun read => ⟨moment, rfl, read⟩

/-- What is sent for a time is read back just if the year of the time in UTC has four
digits and the time is no leap second in the middle of a minute. -/
theorem exists_sentAs_reads_back_iff (moment : Timestamp) :
    ∃ text, (time moment).SentAs "@ts" text ∧
      (readTime text = .ok (.time moment) ↔
        (0 ≤ moment.date.year ∧ moment.date.year ≤ 9999) ∧
          ¬ (nanosPerSecond ≤ moment.nano ∧ moment.secondOfMinute ≠ 59)) := by
  refine ⟨_, sentAs_time moment, ?_⟩
  rw [readTime_ofList_eq_ok_iff, Timestamp.read_text_iff]
  constructor
  · exact fun spellable => ⟨spellable.year, fun ⟨leap, early⟩ => early (spellable.leap leap)⟩
  · exact fun ⟨year, noEarlyLeap⟩ =>
      ⟨year, fun leap => not_not.mp fun early => noEarlyLeap ⟨leap, early⟩⟩

/-- A value made from a local time at any offset, and one made from a time in UTC, reads
back from what is sent for it under the same condition on its time in UTC.  Offsets of whole
minutes are those that leave a leap second where it is in its minute. -/
theorem times_read_back_iff :
    (∀ clock : LocalTime,
      (∃ text, (ofLocalTime clock).SentAs "@ts" text ∧
        (readTime text = .ok (ofLocalTime clock) ↔
          (0 ≤ clock.utc.date.year ∧ clock.utc.date.year ≤ 9999) ∧
            ¬ (nanosPerSecond ≤ clock.utc.nano ∧ clock.utc.secondOfMinute ≠ 59))) ∧
      clock.utc.nano = clock.wall.nano ∧
      (clock.utc.secondOfMinute = clock.wall.secondOfMinute ↔ 60 ∣ clock.offset.seconds)) ∧
    ∀ moment : Timestamp, ∃ text, (time moment).SentAs "@ts" text ∧
      (readTime text = .ok (.time moment) ↔
        (0 ≤ moment.date.year ∧ moment.date.year ≤ 9999) ∧
          ¬ (nanosPerSecond ≤ moment.nano ∧ moment.secondOfMinute ≠ 59)) := by
  refine ⟨fun clock => ?_, exists_sentAs_reads_back_iff⟩
  have moved := clock.toUtc?_wall
  exact ⟨exists_sentAs_reads_back_iff clock.utc, (Timestamp.toUtc?_eq_some moved).2.1,
    Timestamp.secondOfMinute_toUtc? moved⟩

/-- Whatever way a clock time and its offset of whole minutes are spelled, the text is read
as the time in UTC of that local time, which is the one time whose day number and second of
day name the same instant, nanoseconds included. -/
theorem spelled_time_keeps_instant (wall : Timestamp) (offset : Offset)
    (year : 0 ≤ wall.date.year ∧ wall.date.year ≤ 9999) (leap : wall.LeapAtMinuteEnd)
    (whole : 60 ∣ offset.seconds) :
    ∃ clock : LocalTime, clock.wall = wall ∧ clock.offset = offset ∧
      (∃ text, wall.Spells offset text) ∧
      (∀ text, wall.Spells offset text →
        readTime (String.ofList text) = .ok (ofLocalTime clock)) ∧
      clock.utc.date.dayNumber * 86400 + clock.utc.second =
        wall.date.dayNumber * 86400 + wall.second - offset.seconds ∧
      clock.utc.nano = wall.nano ∧
      ∀ other : Timestamp, other.nano = wall.nano →
        other.date.dayNumber * 86400 + other.second =
          wall.date.dayNumber * 86400 + wall.second - offset.seconds → other = clock.utc := by
  have inCalendar : (wall.toUtc? offset).isSome := by
    refine Timestamp.isSome_toUtc? offset ?_
    simp only [firstYear, lastYear]
    omega
  let clock : LocalTime := ⟨wall, offset, inCalendar⟩
  have moved : wall.toUtc? offset = some clock.utc := clock.toUtc?_wall
  obtain ⟨instant, nano, -⟩ := Timestamp.toUtc?_eq_some moved
  refine ⟨clock, rfl, rfl, Timestamp.exists_spells offset ⟨year, leap⟩ whole, ?_, instant, nano, ?_⟩
  · intro text spelled
    exact readTime_ofList_eq_ok_iff.mpr (Timestamp.read_of_spells spelled moved)
  · intro other sameNano sameInstant
    exact Timestamp.eq_of_instant (sameInstant.trans instant.symm) (sameNano.trans nano.symm)

/-- Half a leap second, in March where the clock hangs. -/
def leapOfMarch : Timestamp :=
  ⟨⟨2000, 3, 1, by decide, by decide, by decide⟩, 19799, 1500000000, by decide, by decide⟩

/-- The same in UTC, where February still has its leap day. -/
def leapOfFebruary : Timestamp :=
  ⟨⟨2000, 2, 29, by decide, by decide, by decide⟩, 82799, 1500000000, by decide, by decide⟩

theorem spelled_time_keeps_instant_leapOfMarch :
    (0 ≤ leapOfMarch.date.year ∧ leapOfMarch.date.year ≤ 9999) ∧ leapOfMarch.LeapAtMinuteEnd ∧
      (60 : Int) ∣ 23400 ∧
      readTime "2000-03-01T05:29:60.50+06:30" = .ok (.time leapOfFebruary) := by
  have year : 0 ≤ leapOfMarch.date.year ∧ leapOfMarch.date.year ≤ 9999 := by decide
  have leap : leapOfMarch.LeapAtMinuteEnd := fun _ => rfl
  have whole : (60 : Int) ∣ 23400 := by decide
  have fraction : SpellsFraction 500000000 ['.', '5', '0'] :=
    .digits (by decide) (by simp) (by decide)
  have zone : SpellsOffset 23400 "+06:30".toList :=
    @SpellsOffset.east 6 30 (by decide) (by decide)
  obtain ⟨clock, -, -, -, reads, -, -, only⟩ :=
    spelled_time_keeps_instant leapOfMarch ⟨23400, by decide⟩ year leap whole
  have read := reads _ (.intro ⟨year, leap⟩ (.inl rfl) fraction zone)
  rw [ofLocalTime, ← only leapOfFebruary rfl (by decide +kernel)] at read
  exact ⟨year, leap, whole, read⟩

/-- A text that is read is sent as a time in one of the years from -1 to 10000.  What is sent
is read as the same value in the years of four digits, and refused in the two others. -/
theorem accepted_time_reads_back_iff {text : String} {value : Value}
    (accepted : readTime text = .ok value) :
    ∃ moment sent, value = .time moment ∧ value.SentAs "@ts" sent ∧
      -1 ≤ moment.date.year ∧ moment.date.year ≤ 10000 ∧
      readTime sent =
        if 0 ≤ moment.date.year ∧ moment.date.year ≤ 9999 then .ok value
        else .error (.literal (.unreadableTime sent .invalid)) := by
  obtain ⟨moment, rfl, read⟩ := readTime_eq_ok_iff.mp accepted
  obtain ⟨below, above⟩ := Timestamp.year_of_read read
  refine ⟨moment, _, rfl, sentAs_time moment, below, above, ?_⟩
  split
  · next year =>
    exact readTime_ofList_eq_ok_iff.mpr
      (Timestamp.read_text_iff.mpr ⟨year, Timestamp.leapAtMinuteEnd_of_read read⟩)
  · next outside =>
    rw [readTime, String.toList_ofList, Timestamp.read_text_of_outside outside]

/-- The last leap second so far, read from a clock five hours to the west; digits behind the
nanoseconds are lost before it is sent. -/
theorem accepted_time_reads_back_iff_leap :
    ∃ moment sent, readTime "2016-12-31t18:59:60.1234567899-05:00" = .ok (.time moment) ∧
      (time moment).SentAs "@ts" sent ∧ readTime sent = .ok (.time moment) := by
  let moment : Timestamp :=
    ⟨⟨2016, 12, 31, by decide, by decide, by decide⟩, 86399, 1123456789, by decide, by decide⟩
  have accepted : readTime "2016-12-31t18:59:60.1234567899-05:00" = .ok (.time moment) := by
    decide +kernel
  obtain ⟨_, sent, ⟨⟩, sends, -, -, back⟩ := accepted_time_reads_back_iff accepted
  exact ⟨moment, sent, accepted, sends, back⟩

/-- Year 0 starts for a clock one hour to the east in the last hour of year -1. -/
theorem accepted_time_is_sent_unreadable :
    ∃ moment, readTime "0000-01-01T00:00:00+01:00" = .ok (.time moment) ∧
      (time moment).SentAs "@ts" "-0001-12-31T23:00:00Z" ∧
      readTime "-0001-12-31T23:00:00Z" =
        .error (.literal (.unreadableTime "-0001-12-31T23:00:00Z" .invalid)) := by
  let moment : Timestamp :=
    ⟨⟨-1, 12, 31, by decide, by decide, by decide⟩, 82800, 0, by decide, by decide⟩
  have written : String.ofList moment.text = "-0001-12-31T23:00:00Z" := by decide +kernel
  exact ⟨moment, by decide +kernel, written ▸ sentAs_time moment, by decide +kernel⟩

end QueryWire.Value
