import QueryWire.Proofs.Calendar.Instant
import QueryWire.Proofs.Calendar.Rfc3339

namespace QueryWire.Calendar

/-- The part of a text for the nanoseconds of a second: none, or digits whose
fraction is exactly so many. -/
inductive SpellsFraction : Nat → List Char → Prop where
  | none : SpellsFraction 0 []
  | digits {nano : Nat} {run : List Char} (some : run ≠ [])
      (isDigit : ∀ c ∈ run, c.isDigit = true)
      (exact : Text.numeral run * nanosPerSecond = nano * 10 ^ run.length) :
      SpellsFraction nano ('.' :: run)

/-- The part of a text for an offset in seconds. -/
inductive SpellsOffset : Int → List Char → Prop where
  | utc {c : Char} (letter : c = 'Z' ∨ c = 'z') : SpellsOffset 0 [c]
  | east {hours minutes : Nat} (hour : hours < 24) (minute : minutes < 60) :
      SpellsOffset (hours * 3600 + minutes * 60)
        ('+' :: (Text.padded 2 hours ++ ':' :: Text.padded 2 minutes))
  | west {hours minutes : Nat} (hour : hours < 24) (minute : minutes < 60) :
      SpellsOffset (-(hours * 3600 + minutes * 60))
        ('-' :: (Text.padded 2 hours ++ ':' :: Text.padded 2 minutes))

namespace Timestamp

/-- The times that RFC 3339 has a text for: the year has four digits, and a leap
second stands at the end of its minute, where it is second 60. -/
structure Spellable (time : Timestamp) : Prop where
  year : 0 ≤ time.date.year ∧ time.date.year ≤ 9999
  leap : time.LeapAtMinuteEnd

/-- The texts of a clock time at an offset. -/
inductive Spells (wall : Timestamp) (offset : Offset) : List Char → Prop where
  | intro {separator : Char} {fraction zone : List Char} (spellable : wall.Spellable)
      (separates : separator = 'T' ∨ separator = 't' ∨ separator = ' ')
      (nanos : SpellsFraction (wall.nano % nanosPerSecond) fraction)
      (ends : SpellsOffset offset.seconds zone) :
      Spells wall offset
        (Text.padded 4 wall.date.year.natAbs ++ '-' :: (Text.padded 2 wall.date.month ++
          '-' :: (Text.padded 2 wall.date.day ++ separator :: (Text.padded 2 wall.hour ++
            ':' :: (Text.padded 2 wall.minute ++ ':' :: (Text.padded 2 wall.writtenSecond ++
              (fraction ++ zone)))))))

end Timestamp

namespace Rfc3339

variable {rest : List Char}

theorem date_spelled {day : Date} (year : 0 ≤ day.year ∧ day.year ≤ 9999) :
    date (Text.padded 4 day.year.natAbs ++ '-' :: (Text.padded 2 day.month ++
      '-' :: (Text.padded 2 day.day ++ rest))) = .ok (day, rest) := by
  have months := day.month_bounds
  have days := day.day_bounds
  have length := Date.monthLength_le day.year day.month
  have sameYear : ((day.year.natAbs : Nat) : Int) = day.year := by omega
  rw [date, Reader.bind_ok (Reader.digits_padded (by decide) (by omega) _),
    Reader.bind_ok (Reader.expect_cons '-' _),
    Reader.bind_ok (Reader.digits_padded (by decide) (by omega) _),
    Reader.bind_ok (Reader.expect_cons '-' _),
    Reader.bind_ok (Reader.digits_padded (by decide) (by omega) _), sameYear, Date.of?_fields]
  rfl

/-- Digits behind the ninth do not count, and in an exact fraction they are zeros. -/
theorem nanosOf_exact {nano : Nat} {run : List Char} (isDigit : ∀ c ∈ run, c.isDigit = true)
    (exact : Text.numeral run * nanosPerSecond = nano * 10 ^ run.length) :
    nanosOf run = nano := by
  have billion : nanosPerSecond = 10 ^ 9 := rfl
  rw [billion] at exact
  -- A short run is filled up to nine digits; of a long one the front is what counts.
  rcases Nat.le_total run.length 9 with short | long
  · have power : 10 ^ 9 = 10 ^ (9 - run.length) * 10 ^ run.length := by
      rw [← Nat.pow_add, Nat.sub_add_cancel short]
    rw [power, ← Nat.mul_assoc] at exact
    rw [nanosOf, List.take_of_length_le short]
    exact Nat.eq_of_mul_eq_mul_right (Nat.pow_pos (by decide)) exact
  · have power : 10 ^ run.length = 10 ^ (run.length - 9) * 10 ^ 9 := by
      rw [← Nat.pow_add, Nat.sub_add_cancel long]
    rw [power, ← Nat.mul_assoc] at exact
    have whole : Text.numeral run = nano * 10 ^ (run.length - 9) :=
      Nat.eq_of_mul_eq_mul_right (Nat.pow_pos (by decide)) exact
    have behind : Text.numeral (run.drop 9) < 10 ^ (run.length - 9) := by
      rw [← List.length_drop]
      exact Text.numeral_lt fun c member => isDigit c (List.mem_of_mem_drop member)
    have front : 10 ^ (run.length - 9) * Text.numeral (run.take 9) + Text.numeral (run.drop 9) =
        nano * 10 ^ (run.length - 9) := by
      rw [← whole, ← List.length_drop, ← Text.numeral_append, List.take_append_drop]
    have positive : 0 < 10 ^ (run.length - 9) := Nat.pow_pos (by decide)
    have same : Text.numeral (run.take 9) = nano := by
      have quotient := congrArg (· / 10 ^ (run.length - 9)) front
      simpa only [Nat.mul_add_div positive, Nat.div_eq_of_lt behind, Nat.add_zero,
        Nat.mul_div_cancel _ positive] using quotient
    rw [nanosOf, same, Nat.sub_eq_zero_of_le long]
    exact Nat.mul_one nano

theorem fraction_spelled {nano : Nat} {text : List Char} (spelled : SpellsFraction nano text)
    (ends : ∀ c ∈ rest.head?, c.isDigit = false ∧ c ≠ '.') :
    fraction (text ++ rest) = .ok (nano, rest) := by
  cases spelled with
  | none =>
      cases rest with
      | nil => rfl
      | cons c more =>
          obtain ⟨-, notPoint⟩ := ends c rfl
          simp [fraction, notPoint]
  | @digits _ run some isDigit exact =>
      obtain ⟨c, more, rfl⟩ := List.exists_cons_of_ne_nil some
      have stops : ∀ c ∈ rest.head?, c.isDigit = false := fun c member => (ends c member).1
      have taken := Text.takeWhile_digits isDigit stops
      have left := Text.dropWhile_digits isDigit stops
      rw [List.cons_append] at taken left
      rw [List.cons_append, List.cons_append, fraction, if_pos (isDigit c List.mem_cons_self),
        taken, left, nanosOf_exact isDigit exact]

/-- A zone starts with neither a digit nor a point, so the fraction ends in front of it. -/
theorem head_of_spellsOffset {seconds : Int} {zone : List Char}
    (spelled : SpellsOffset seconds zone) :
    ∀ c ∈ zone.head?, c.isDigit = false ∧ c ≠ '.' := by
  cases spelled with
  | utc letter => rcases letter with rfl | rfl <;> simp
  | east hour minute => simp
  | west hour minute => simp

theorem timeOn_spelled {wall : Timestamp} {text : List Char} (leap : wall.LeapAtMinuteEnd)
    (spelled : SpellsFraction (wall.nano % nanosPerSecond) text)
    (ends : ∀ c ∈ rest.head?, c.isDigit = false ∧ c ≠ '.') :
    timeOn wall.date (Text.padded 2 wall.hour ++ ':' :: (Text.padded 2 wall.minute ++
      ':' :: (Text.padded 2 wall.writtenSecond ++ (text ++ rest)))) = .ok (wall, rest) := by
  obtain ⟨hours, minutes, seconds⟩ := wall.fields_lt
  rw [timeOn, Reader.bind_ok (Reader.digits_padded (by decide) hours _),
    Reader.bind_ok (Reader.expect_cons ':' _),
    Reader.bind_ok (Reader.digits_padded (by decide) minutes _),
    Reader.bind_ok (Reader.expect_cons ':' _),
    Reader.bind_ok (Reader.digits_padded (by decide) seconds _),
    Reader.bind_ok (fraction_spelled spelled ends)]
  have nanos := wall.nano_lt
  have fields := Timestamp.of?_fields leap
  simp only [nanosPerSecond] at nanos
  -- A leap second is written one second later than it is kept, and read back from there.
  rcases Nat.lt_or_ge wall.nano nanosPerSecond with plain | counted
  · have written : wall.writtenSecond = wall.secondOfMinute := by
      rw [Timestamp.writtenSecond, Nat.div_eq_of_lt plain, Nat.add_zero]
    have notLeap : wall.secondOfMinute ≠ 60 := Nat.ne_of_lt (Nat.mod_lt _ (by decide))
    rw [written, if_neg notLeap, Nat.mod_eq_of_lt plain, fields, Reader.existing_some]
  · have last := leap counted
    have written : wall.writtenSecond = 60 := by
      simp only [nanosPerSecond] at counted
      simp only [Timestamp.writtenSecond, last, nanosPerSecond]
      omega
    have whole : wall.nano % nanosPerSecond + nanosPerSecond = wall.nano := by
      simp only [nanosPerSecond] at counted ⊢
      omega
    rw [last] at fields
    rw [written, if_pos rfl, whole, fields, Reader.existing_some]

theorem unsignedOffset_padded {hours minutes : Nat} (hour : hours < 24) (minute : minutes < 60) :
    unsignedOffset (Text.padded 2 hours ++ ':' :: (Text.padded 2 minutes ++ rest)) =
      .ok (hours * 3600 + minutes * 60, rest) := by
  have two {n : Nat} (bound : n < 10 ^ 2) (rest : List Char) :
      offsetDigits (Text.padded 2 n ++ rest) = .ok (n, rest) := by
    have enough : 2 ≤ Text.byteCount (Text.padded 2 n ++ rest) := by
      refine Nat.le_trans ?_ (Text.length_le_byteCount _)
      rw [List.length_append, Text.length_padded (by decide) bound]
      exact Nat.le_add_right 2 _
    rw [offsetDigits, Reader.bind_ok (Reader.require_of_le enough),
      Reader.digits_padded (by decide) bound]
  rw [unsignedOffset, Reader.bind_ok (two (by omega) _), Reader.bind_ok (Reader.expect_cons ':' _),
    Reader.bind_ok (two (by omega) _), Reader.bind_ok (Reader.ensure_true minute _)]
  rfl

theorem offset_spelled {seconds : Int} {zone : List Char} (spelled : SpellsOffset seconds zone) :
    offset (zone ++ rest) = .ok (seconds, rest) := by
  cases spelled with
  | utc letter =>
      rw [List.singleton_append, offset, if_pos letter]
  | east hour minute =>
      rw [List.cons_append, List.append_assoc, List.cons_append, offset, if_neg (by decide),
        if_pos rfl, unsignedOffset_padded hour minute]
      rfl
  | west hour minute =>
      rw [List.cons_append, List.append_assoc, List.cons_append, offset, if_neg (by decide),
        if_neg (by decide), if_pos (.inl rfl), unsignedOffset_padded hour minute]
      rfl

end Rfc3339

theorem Offset.of?_seconds (offset : Offset) : Offset.of? offset.seconds = some offset :=
  dif_pos offset.bounds

namespace Timestamp

theorem Spells.leastBytes_le {wall : Timestamp} {offset : Offset} {text : List Char}
    (spelled : wall.Spells offset text) : Rfc3339.leastBytes ≤ Text.byteCount text := by
  refine Nat.le_trans ?_ (Text.length_le_byteCount text)
  obtain ⟨hours, minutes, seconds⟩ := wall.fields_lt
  have months := wall.date.month_bounds
  have days := wall.date.day_bounds
  have length := Date.monthLength_le wall.date.year wall.date.month
  cases spelled with
  | intro spellable _ _ _ =>
      have year : wall.date.year.natAbs < 10 ^ 4 := by
        have := spellable.year
        omega
      have month : wall.date.month < 10 ^ 2 := by omega
      have day : wall.date.day < 10 ^ 2 := by omega
      simp only [List.length_append, List.length_cons, Text.length_padded (by decide : 0 < 4) year,
        Text.length_padded (by decide : 0 < 2) month, Text.length_padded (by decide : 0 < 2) day,
        Text.length_padded (by decide : 0 < 2) hours, Text.length_padded (by decide : 0 < 2) minutes,
        Text.length_padded (by decide : 0 < 2) seconds, Rfc3339.leastBytes]
      omega

theorem read_of_spells {wall moment : Timestamp} {offset : Offset} {text : List Char}
    (spelled : wall.Spells offset text) (moved : wall.toUtc? offset = some moment) :
    read text = .ok moment := by
  have enough := spelled.leastBytes_le
  refine Reader.readAll_eq_ok.mpr ⟨[], ?_⟩
  rw [Rfc3339.timestamp, Reader.bind_ok (Reader.require_of_le enough)]
  cases spelled with
  | @intro separator fraction zone spellable separates nanos ends =>
      have separated (rest : List Char) :
          Rfc3339.separator (separator :: rest) = .ok ((), rest) := if_pos separates
      have clock := Rfc3339.timeOn_spelled spellable.leap nanos (Rfc3339.head_of_spellsOffset ends)
      have shift : Rfc3339.offset (zone ++ []) = .ok (offset.seconds, []) :=
        Rfc3339.offset_spelled ends
      rw [List.append_nil] at shift
      rw [Reader.bind_ok (Rfc3339.date_spelled spellable.year), Reader.bind_ok (separated _),
        Reader.bind_ok clock, Reader.bind_ok shift, Reader.bind_ok Reader.atEnd_nil,
        Offset.of?_seconds, Reader.bind_ok (Reader.existing_some offset []), moved,
        Reader.existing_some]

end Timestamp

/-- The written fraction is exact, whichever of its widths it has. -/
theorem spellsFraction_fractionText {nano : Nat} (bound : nano < nanosPerSecond) :
    SpellsFraction nano (fractionText nano) := by
  have padded {width n : Nat} (positive : 0 < width) (fits : n < 10 ^ width)
      (exact : n * nanosPerSecond = nano * 10 ^ width) :
      SpellsFraction nano ('.' :: Text.padded width n) := by
    have length := Text.length_padded positive fits
    refine .digits ?_ (fun _ => Text.isDigit_of_mem_padded) ?_
    · exact List.ne_nil_of_length_pos (by rw [length]; exact positive)
    · rw [length, Text.numeral_padded, exact]
  unfold nanosPerSecond at bound padded
  unfold fractionText
  split
  · next zero => rw [zero]; exact .none
  split
  · exact padded (by decide) (by omega) (by omega)
  split
  · exact padded (by decide) (by omega) (by omega)
  · exact padded (by decide) (by omega) (by omega)

theorem exists_spellsOffset {seconds : Int} (bounds : -secondsPerDay < seconds ∧ seconds < secondsPerDay)
    (whole : 60 ∣ seconds) : ∃ zone, SpellsOffset seconds zone := by
  simp only [secondsPerDay] at bounds
  obtain ⟨minutes, rfl⟩ := whole
  have hour : minutes.natAbs / 60 < 24 := by omega
  have minute : minutes.natAbs % 60 < 60 := Nat.mod_lt _ (by decide)
  rcases Int.lt_or_le minutes 0 with west | east
  · have sum : 60 * minutes = -(((minutes.natAbs / 60 : Nat) : Int) * 3600 +
        ((minutes.natAbs % 60 : Nat) : Int) * 60) := by omega
    rw [sum]
    exact ⟨_, .west hour minute⟩
  · have sum : 60 * minutes = ((minutes.natAbs / 60 : Nat) : Int) * 3600 +
        ((minutes.natAbs % 60 : Nat) : Int) * 60 := by omega
    rw [sum]
    exact ⟨_, .east hour minute⟩

namespace Timestamp

theorem exists_spells {wall : Timestamp} (offset : Offset) (spellable : wall.Spellable)
    (whole : 60 ∣ offset.seconds) : ∃ text, wall.Spells offset text := by
  obtain ⟨zone, ends⟩ := exists_spellsOffset offset.bounds whole
  exact ⟨_, .intro spellable (.inl rfl)
    (spellsFraction_fractionText (Nat.mod_lt _ (by decide))) ends⟩

theorem spells_text {time : Timestamp} (spellable : time.Spellable) (offset : Offset)
    (utc : offset.seconds = 0) : time.Spells offset time.text := by
  have year : yearText time.date.year = Text.padded 4 time.date.year.natAbs := by
    have bounds := spellable.year
    rw [yearText, if_neg (by omega), if_pos bounds.2]
  have zone : SpellsOffset offset.seconds ['Z'] := by
    rw [utc]
    exact .utc (.inl rfl)
  rw [text_eq, Date.text, year]
  simp only [List.append_assoc, List.cons_append]
  exact .intro spellable (.inl rfl)
    (spellsFraction_fractionText (Nat.mod_lt time.nano (by decide))) zone

end Timestamp

end QueryWire.Calendar
