import Mathlib.Data.List.TakeWhile
import QueryWire.Decimal.Notation
import QueryWire.Proofs.Decimal.Shortest
import QueryWire.Proofs.Text.Digits

namespace QueryWire.Decimal

/-- The parts of a written decimal.  Without a fraction it has no point. -/
structure Written where
  whole : List Char
  fraction : List Char
  power? : Option Int

namespace Written

def fractionText : List Char → List Char
  | [] => []
  | fraction => '.' :: fraction

def powerText : Option Int → List Char
  | none => []
  | some power => 'e' :: (if power < 0 then '-' else '+') :: Text.decimal power.natAbs

def text (written : Written) : List Char :=
  written.whole ++ (fractionText written.fraction ++ powerText written.power?)

def value (written : Written) : Rat :=
  (Text.numeral (written.whole ++ written.fraction) : Rat) *
    (10 : Rat) ^ (written.power?.getD 0 - (written.fraction.length : Int))

/-- The parts are digits, and no zero stands in front of the whole ones needlessly. -/
structure Grammatical (written : Written) : Prop where
  wholeDigits : ∀ c ∈ written.whole, c.isDigit = true
  fractionDigits : ∀ c ∈ written.fraction, c.isDigit = true
  leads : written.whole = ['0'] ∨ ∃ first rest, written.whole = first :: rest ∧ first ≠ '0'

/-- The text has a point or an `e`, as that of no integer has. -/
structure Proper (written : Written) : Prop extends Grammatical written where
  marked : written.fraction ≠ [] ∨ written.power?.isSome = true

theorem fractionText_of_ne_nil {fraction : List Char} (some : fraction ≠ []) :
    fractionText fraction = '.' :: fraction := by
  obtain ⟨c, rest, rfl⟩ := List.exists_cons_of_ne_nil some
  rfl

theorem Grammatical.starts {written : Written} (grammatical : written.Grammatical) :
    ∃ c rest, written.text = c :: rest ∧ c.isDigit = true := by
  obtain ⟨c, rest, whole⟩ : ∃ c rest, written.whole = c :: rest := by
    rcases grammatical.leads with zero | ⟨first, rest, shape, -⟩
    · exact ⟨'0', [], zero⟩
    · exact ⟨first, rest, shape⟩
  refine ⟨c, _, by rw [text, whole, List.cons_append], grammatical.wholeDigits c ?_⟩
  rw [whole]
  exact List.mem_cons_self

theorem Proper.mem_text {written : Written} (proper : written.Proper) :
    '.' ∈ written.text ∨ 'e' ∈ written.text := by
  rw [text]
  rcases proper.marked with fraction | power
  · rw [fractionText_of_ne_nil fraction]
    simp
  · obtain ⟨power, some⟩ := Option.isSome_iff_exists.mp power
    rw [some]
    simp [powerText]

theorem powerText_ends (power? : Option Int) :
    ∀ c ∈ (powerText power?).head?, c.isDigit = false := by
  intro c head
  cases power? with
  | none => cases head
  | some power =>
      cases head
      rfl

theorem fractionText_ends (fraction : List Char) (power? : Option Int) :
    ∀ c ∈ (fractionText fraction ++ powerText power?).head?, c.isDigit = false := by
  cases fraction with
  | nil => exact powerText_ends power?
  | cons digit rest =>
      intro c head
      cases head
      rfl

theorem powerText_injective {power? other? : Option Int}
    (same : powerText power? = powerText other?) : power? = other? := by
  cases power? with
  | none => cases other? with
    | none => rfl
    | some other => cases same
  | some power => cases other? with
    | none => cases same
    | some other =>
        obtain ⟨signs, digits⟩ := List.cons.inj (List.cons.inj same).2
        have sizes := Text.decimal_injective digits
        refine congrArg some ?_
        split at signs <;> split at signs
        · omega
        · cases signs
        · cases signs
        · omega

theorem text_injective {written other : Written} (proper : written.Grammatical)
    (proper' : other.Grammatical) (same : written.text = other.text) : written = other := by
  obtain ⟨whole, fraction, power?⟩ := written
  obtain ⟨whole', fraction', power?'⟩ := other
  obtain ⟨rfl, behind⟩ := Text.digits_append_injective proper.wholeDigits proper'.wholeDigits
    (fractionText_ends _ _) (fractionText_ends _ _) same
  have parts : fraction = fraction' ∧ powerText power? = powerText power?' := by
    cases fraction with
    | nil => cases fraction' with
      | nil => exact ⟨rfl, behind⟩
      | cons _ _ => cases power? <;> cases behind
    | cons digit rest => cases fraction' with
      | nil => cases power?' <;> cases behind
      | cons digit' rest' =>
          exact Text.digits_append_injective proper.fractionDigits proper'.fractionDigits
            (powerText_ends _) (powerText_ends _) (List.cons.inj behind).2
  rw [parts.1, powerText_injective parts.2]

end Written

/-- The text is that of a proper written decimal of the given value. -/
def Shows (text : List Char) (number : Rat) : Prop :=
  ∃ written : Written, written.Proper ∧ text = written.text ∧ written.value = number

theorem mem_withoutTrailingZeros {digits : List Char} {c : Char}
    (member : c ∈ withoutTrailingZeros digits) : c ∈ digits :=
  List.mem_reverse.mp (List.dropWhile_subset _ (List.mem_reverse.mp member))

theorem withoutTrailingZeros_append (digits : List Char) :
    ∃ count, digits = withoutTrailingZeros digits ++ List.replicate count '0' := by
  have zeros : digits.reverse.takeWhile (· = '0') =
      List.replicate (digits.reverse.takeWhile (· = '0')).length '0' :=
    List.eq_replicate_of_mem fun c member => by
      have held := List.mem_takeWhile_imp member
      simpa using held
  refine ⟨(digits.reverse.takeWhile (· = '0')).length, ?_⟩
  calc digits = (digits.reverse.takeWhile (· = '0') ++ digits.reverse.dropWhile (· = '0')).reverse := by
        rw [List.takeWhile_append_dropWhile, List.reverse_reverse]
    _ = withoutTrailingZeros digits ++ (digits.reverse.takeWhile (· = '0')).reverse := by
        rw [List.reverse_append, withoutTrailingZeros]
    _ = withoutTrailingZeros digits ++
          List.replicate (digits.reverse.takeWhile (· = '0')).length '0' := by
        rw [zeros, List.reverse_replicate, List.length_replicate]

theorem isDigit_of_mem_zeros {count : Nat} {c : Char} (member : c ∈ List.replicate count '0') :
    c.isDigit = true := by
  rw [(List.mem_replicate.mp member).2]
  rfl

section Notations

variable {first : Char} {rest : List Char} (isDigit : ∀ c ∈ first :: rest, c.isDigit = true)
  (nonzero : first ≠ '0') {leading : Int}

include isDigit

theorem shows_positional_fraction (small : leading < 0) :
    Shows (positional (first :: rest) leading) ((Text.numeral (first :: rest) : Rat) *
      (10 : Rat) ^ (leading + 1 - ((first :: rest).length : Int))) := by
  refine ⟨⟨['0'], List.replicate (leading.natAbs - 1) '0' ++ first :: rest, none⟩,
    ⟨⟨by simp, ?_, .inl rfl⟩, .inl (by simp)⟩, ?_, ?_⟩
  · intro c member
    exact (List.mem_append.mp member).elim isDigit_of_mem_zeros (isDigit c)
  · rw [positional, if_pos small, Written.text, Written.fractionText_of_ne_nil (by simp)]
    simp [Written.powerText]
  · have digits : Text.numeral (['0'] ++ (List.replicate (leading.natAbs - 1) '0' ++ first :: rest)) =
        Text.numeral (first :: rest) := by
      rw [← List.append_assoc, List.singleton_append, ← List.replicate_succ,
        Text.numeral_zeros_append]
    rw [Written.value, digits]
    congr 2
    simp only [Option.getD_none, List.length_append, List.length_replicate, List.length_cons]
    omega

include nonzero

theorem shows_positional_whole (large : 0 ≤ leading)
    (short : (first :: rest).length ≤ leading.toNat + 1) :
    Shows (positional (first :: rest) leading) ((Text.numeral (first :: rest) : Rat) *
      (10 : Rat) ^ (leading + 1 - ((first :: rest).length : Int))) := by
  generalize fill : leading.toNat + 1 - (first :: rest).length = count
  refine ⟨⟨first :: rest ++ List.replicate count '0', ['0'], none⟩,
    ⟨⟨?_, by simp, .inr ⟨first, _, rfl, nonzero⟩⟩, .inl (by simp)⟩, ?_, ?_⟩
  · intro c member
    exact (List.mem_append.mp member).elim (isDigit c) isDigit_of_mem_zeros
  · rw [positional, if_neg (by omega)]
    simp only
    rw [if_pos short, fill]
    simp [Written.text, Written.fractionText, Written.powerText]
  · have digits : Text.numeral ((first :: rest ++ List.replicate count '0') ++ ['0']) =
        Text.numeral (first :: rest) * 10 ^ (count + 1) := by
      rw [List.append_assoc, ← List.replicate_succ', Text.numeral_append_zeros]
    rw [Written.value, digits]
    push_cast
    rw [mul_assoc, ← zpow_natCast, ← zpow_add₀ (by norm_num)]
    congr 2
    simp only [Option.getD_none, List.length_singleton]
    omega

theorem shows_positional_mixed (large : 0 ≤ leading)
    (long : leading.toNat + 1 < (first :: rest).length) :
    Shows (positional (first :: rest) leading) ((Text.numeral (first :: rest) : Rat) *
      (10 : Rat) ^ (leading + 1 - ((first :: rest).length : Int))) := by
  refine ⟨⟨(first :: rest).take (leading.toNat + 1), (first :: rest).drop (leading.toNat + 1), none⟩,
    ⟨⟨?_, ?_, .inr ⟨first, _, List.take_succ_cons, nonzero⟩⟩, .inl ?_⟩, ?_, ?_⟩
  · exact fun c member => isDigit c (List.mem_of_mem_take member)
  · exact fun c member => isDigit c (List.mem_of_mem_drop member)
  · exact List.drop_eq_nil_iff.not.mpr (by omega)
  · rw [positional, if_neg (by omega)]
    simp only
    rw [if_neg (by omega), Written.text,
      Written.fractionText_of_ne_nil (List.drop_eq_nil_iff.not.mpr (by omega))]
    simp [Written.powerText]
  · rw [Written.value, List.take_append_drop]
    congr 2
    simp only [Option.getD_none, List.length_drop]
    omega

theorem shows_scientific :
    Shows (scientific (first :: rest) leading) ((Text.numeral (first :: rest) : Rat) *
      (10 : Rat) ^ (leading + 1 - ((first :: rest).length : Int))) := by
  refine ⟨⟨[first], rest, some leading⟩, ⟨⟨?_, ?_, .inr ⟨first, [], rfl, nonzero⟩⟩, .inr rfl⟩, ?_, ?_⟩
  · intro c member
    exact isDigit c (List.mem_cons.mpr (.inl (List.mem_singleton.mp member)))
  · intro c member
    exact isDigit c (List.mem_cons_of_mem first member)
  · cases rest <;> rfl
  · rw [Written.value, List.singleton_append]
    congr 2
    simp only [Option.getD_some, List.length_cons]
    omega

end Notations

/-- The text of a decimal shows its value, without the zeros at the end of its digits. -/
theorem shows_text {decimal : Scaled} (positive : 0 < decimal.digits) :
    Shows decimal.text decimal.value := by
  obtain ⟨first, rest, digits, nonzero⟩ := Text.head_decimal positive
  obtain ⟨count, stripped⟩ := withoutTrailingZeros_append (Text.decimal decimal.digits)
  have isDigit : ∀ c ∈ withoutTrailingZeros (Text.decimal decimal.digits), c.isDigit = true :=
    fun c member => Text.isDigit_of_mem_decimal (mem_withoutTrailingZeros member)
  generalize kept : withoutTrailingZeros (Text.decimal decimal.digits) = shown at stripped isDigit
  obtain ⟨more, rfl⟩ : ∃ more, shown = first :: more := by
    cases shown with
    | nil =>
        have : first ∈ List.replicate count '0' := by
          rw [← List.nil_append (List.replicate count '0'), ← stripped, digits]
          exact List.mem_cons_self
        exact absurd (List.mem_replicate.mp this).2 nonzero
    | cons head more =>
        rw [digits] at stripped
        exact ⟨more, by rw [(List.cons.inj stripped).1]⟩
  have value : decimal.value = (Text.numeral (first :: more) : Rat) *
      (10 : Rat) ^ (decimal.exponent + ((Text.decimal decimal.digits).length : Int) - 1 + 1 -
        ((first :: more).length : Int)) := by
    have number : decimal.digits = Text.numeral (first :: more) * 10 ^ count := by
      rw [← Text.numeral_append_zeros, ← stripped, Text.numeral_decimal]
    have size : (Text.decimal decimal.digits).length = (first :: more).length + count := by
      rw [stripped, List.length_append, List.length_replicate]
    rw [Scaled.value, size, number]
    push_cast
    rw [mul_assoc, ← zpow_natCast, ← zpow_add₀ (by norm_num)]
    congr 2
    omega
  rw [value, Scaled.text]
  simp only [kept]
  generalize decimal.exponent + ((Text.decimal decimal.digits).length : Int) - 1 = leading
  split
  · by_cases small : leading < 0
    · exact shows_positional_fraction isDigit small
    · by_cases short : (first :: more).length ≤ leading.toNat + 1
      · exact shows_positional_whole isDigit nonzero (by omega) short
      · exact shows_positional_mixed isDigit nonzero (by omega) (by omega)
  · exact shows_scientific isDigit nonzero

namespace Binary64

/-- The text of a magnitude reads back as it, and that of zero as zero. -/
theorem shows_magnitudeText {magnitude : Nat} (finite : magnitude < infinite) :
    ∃ number, Shows (magnitudeText magnitude) number ∧
      if magnitude = 0 then number = 0 else ReadsBack magnitude number := by
  by_cases zero : magnitude = 0
  · have proper : (⟨['0'], ['0'], none⟩ : Written).Proper :=
      ⟨⟨by simp, by simp, .inl rfl⟩, .inl (by simp)⟩
    refine ⟨0, ⟨_, proper, ?_, ?_⟩, by rw [if_pos zero]⟩
    · rw [magnitudeText, if_pos zero]
      rfl
    · have nothing : Text.numeral ['0', '0'] = 0 := rfl
      simp [Written.value, nothing]
  · have reads := readsBack_shortest (Nat.pos_of_ne_zero zero)
    have positive : 0 < (shortest magnitude).digits := by
      refine Nat.pos_of_ne_zero fun none => ?_
      have := reads.positive
      simp [Scaled.value, none] at this
    refine ⟨_, ?_, by rw [if_neg zero]; exact reads⟩
    rw [magnitudeText, if_neg zero, if_pos finite]
    exact shows_text positive

theorem magnitudeText_injective {magnitude other : Nat} (finite : magnitude < infinite)
    (finite' : other < infinite) (same : magnitudeText magnitude = magnitudeText other) :
    magnitude = other := by
  obtain ⟨_, ⟨written, proper, text, rfl⟩, reads⟩ := shows_magnitudeText finite
  obtain ⟨_, ⟨written', proper', text', rfl⟩, reads'⟩ := shows_magnitudeText finite'
  obtain rfl : written = written' :=
    Written.text_injective proper.toGrammatical proper'.toGrammatical (text.symm.trans (same.trans text'))
  split at reads <;> split at reads'
  · omega
  · have := reads'.positive
    rw [reads] at this
    exact absurd this (lt_irrefl 0)
  · have := reads.positive
    rw [reads'] at this
    exact absurd this (lt_irrefl 0)
  · exact reads.unique reads'

theorem isFinite_of_isZero {x : Binary64} (zero : x.isZero = true) : x.isFinite = true := by
  rw [isFinite, of_decide_eq_true zero]
  decide

theorem isNaN_of_isFinite {x : Binary64} (finite : x.isFinite = true) : x.isNaN = false := by
  simp only [isFinite, isNaN, decide_eq_true_eq, decide_eq_false_iff_not] at finite ⊢
  omega

theorem eq_of_magnitude {x y : Binary64} (signs : x.isNegative = y.isNegative)
    (magnitudes : x.magnitude = y.magnitude) : x = y := by
  have := x.bits.toNat_lt
  have := y.bits.toNat_lt
  have sides : signBit ≤ x.bits.toNat ↔ signBit ≤ y.bits.toNat := decide_eq_decide.mp signs
  simp only [magnitude, signBit, Nat.reduceShiftLeft] at sides magnitudes
  have bits : x.bits = y.bits := UInt64.toNat_inj.mp (by omega)
  cases x
  cases y
  exact congrArg _ bits

theorem text_of_isFinite {x : Binary64} (finite : x.isFinite = true) :
    x.text = if x.isNegative then '-' :: magnitudeText x.magnitude
      else magnitudeText x.magnitude := by
  rw [text, isNaN_of_isFinite finite, Bool.not_false, Bool.and_true]

theorem ne_minus_cons {magnitude : Nat} (finite : magnitude < infinite) (rest : List Char) :
    magnitudeText magnitude ≠ '-' :: rest := by
  intro same
  obtain ⟨_, ⟨written, proper, text, -⟩, -⟩ := shows_magnitudeText finite
  obtain ⟨c, more, starts, digit⟩ := proper.toGrammatical.starts
  rw [same, starts] at text
  rw [← (List.cons.inj text).1] at digit
  cases digit

theorem text_injective {x y : Binary64} (finite : x.isFinite = true)
    (finite' : y.isFinite = true) (same : x.text = y.text) : x = y := by
  have bound : x.magnitude < infinite := of_decide_eq_true finite
  have bound' : y.magnitude < infinite := of_decide_eq_true finite'
  rw [text_of_isFinite finite, text_of_isFinite finite'] at same
  cases sign : x.isNegative <;> cases sign' : y.isNegative <;>
    simp only [sign, sign', Bool.false_eq_true, if_true, if_false] at same
  · exact eq_of_magnitude (sign.trans sign'.symm) (magnitudeText_injective bound bound' same)
  · exact absurd same (ne_minus_cons bound _)
  · exact absurd same.symm (ne_minus_cons bound' _)
  · exact eq_of_magnitude (sign.trans sign'.symm)
      (magnitudeText_injective bound bound' (List.cons.inj same).2)

end Binary64

end QueryWire.Decimal
