import QueryWire.Json.Number
import QueryWire.Json.Quoted
import QueryWire.Proofs.Decimal.Notation
import QueryWire.Proofs.Json.Grammar

namespace QueryWire

open Json.Grammar

namespace Decimal.Written

theorem Grammatical.isNumber {written : Written} (grammatical : written.Grammatical)
    (sign : List Char) (signs : sign ∈ [[], ['-']]) : NumberToken (sign ++ written.text) := by
  have wholes : Whole written.whole := by
    rcases grammatical.leads with zero | ⟨first, rest, shape, nonzero⟩
    · exact zero ▸ .zero
    · exact .digits ⟨by simp [shape], grammatical.wholeDigits⟩ (by simp [shape, nonzero])
  have fractions : Fraction (fractionText written.fraction) := by
    cases shape : written.fraction with
    | nil => exact .none
    | cons digit more => exact .digits ⟨List.cons_ne_nil _ _, shape ▸ grammatical.fractionDigits⟩
  have powers : Power (powerText written.power?) := by
    cases written.power? with
    | none => exact .none
    | some power =>
        have run : IsRun (Text.decimal power.natAbs) :=
          ⟨Text.decimal_ne_nil _, fun _ => Text.isDigit_of_mem_decimal⟩
        exact @Power.digits 'e' [if power < 0 then '-' else '+'] _ (.inl rfl)
          (by split <;> decide) run
  exact .parts signs wholes fractions powers

end Decimal.Written

namespace Number

def Finite : Number → Prop
  | .integer _ => True
  | .double x => x.isFinite = true

theorem isNumber_signedDecimal (n : Int) : NumberToken (Text.signedDecimal n) := by
  have grammatical : (⟨Text.decimal n.natAbs, [], none⟩ : Decimal.Written).Grammatical := by
    refine ⟨fun c => Text.isDigit_of_mem_decimal, by simp, ?_⟩
    rcases Nat.eq_zero_or_pos n.natAbs with zero | positive
    · exact .inl (by rw [zero]; rfl)
    · exact .inr (Text.head_decimal positive)
  have text : (⟨Text.decimal n.natAbs, [], none⟩ : Decimal.Written).text =
      Text.decimal n.natAbs := List.append_nil _
  rw [Text.signedDecimal, ← text]
  split
  · exact grammatical.isNumber ['-'] (by decide)
  · exact grammatical.isNumber [] (by decide)

theorem isNumber_text {x : Decimal.Binary64} (finite : x.isFinite = true) :
    NumberToken x.text := by
  obtain ⟨_, ⟨written, proper, text, -⟩, -⟩ :=
    Decimal.Binary64.shows_magnitudeText (of_decide_eq_true finite)
  rw [Decimal.Binary64.text_of_isFinite finite, text]
  split
  · exact proper.isNumber ['-'] (by decide)
  · exact proper.isNumber [] (by decide)

theorem token_double {x : Decimal.Binary64} (finite : x.isFinite = true) :
    (double x).token = x.text :=
  if_pos finite

theorem isNumber_token {number : Number} (finite : number.Finite) : NumberToken number.token := by
  cases number with
  | integer n => exact isNumber_signedDecimal n.value
  | double x => exact token_double finite ▸ isNumber_text finite

/-- The point or the `e` of a double is in no integer. -/
theorem signedDecimal_ne_text {x : Decimal.Binary64} (finite : x.isFinite = true) (n : Int) :
    Text.signedDecimal n ≠ x.text := by
  obtain ⟨_, ⟨written, proper, text, -⟩, -⟩ :=
    Decimal.Binary64.shows_magnitudeText (of_decide_eq_true finite)
  have absent {c : Char} (notDigit : c.isDigit = false) (notMinus : c ≠ '-') :
      c ∉ Text.signedDecimal n := by
    unfold Text.signedDecimal
    split <;> simp [notMinus, Text.notMem_decimal notDigit]
  have present {c : Char} (member : c ∈ written.text) : c ∈ x.text := by
    rw [Decimal.Binary64.text_of_isFinite finite, text]
    split
    · exact List.mem_cons_of_mem _ member
    · exact member
  intro same
  rcases proper.mem_text with point | power
  · exact absent rfl (by decide) (same ▸ present point)
  · exact absent rfl (by decide) (same ▸ present power)

theorem token_injective {number other : Number} (finite : number.Finite)
    (finite' : other.Finite) (same : number.token = other.token) : number = other := by
  cases number with
  | integer n => cases other with
    | integer m =>
        obtain ⟨value, _, _⟩ := n
        obtain ⟨value', _, _⟩ := m
        obtain rfl : value = value' := Text.signedDecimal_injective same
        rfl
    | double y =>
        rw [token_double finite'] at same
        exact absurd same (signedDecimal_ne_text finite' n.value)
  | double x =>
      rw [token_double finite] at same
      cases other with
      | integer m => exact absurd same.symm (signedDecimal_ne_text finite m.value)
      | double y =>
          rw [token_double finite'] at same
          rw [Decimal.Binary64.text_injective finite finite' same]

end Number

namespace Json

theorem hexDigit_hexDigit (n : Nat) : HexDigit (Text.hexDigit n) (n % 16) :=
  ⟨Nat.mod_lt n (by decide), .inl rfl⟩

theorem character_escaped (c : Char) (rest : List Char) : Character (escaped c ++ rest) c rest := by
  unfold escaped
  iterate 7
    split
    · next same =>
        subst same
        exact .letter (by decide)
  next notQuote notBackslash _ _ _ _ _ =>
  split
  · next control =>
      have zero : HexDigit '0' 0 := by decide
      have code : ((0 * 16 + 0) * 16 + c.toNat / 16 % 16) * 16 + c.toNat % 16 = c.toNat := by
        omega
      have digits : CodeUnit _ _ rest :=
        .digits zero zero (hexDigit_hexDigit (c.toNat / 16)) (hexDigit_hexDigit c.toNat)
      rw [code] at digits
      exact .unit digits
  · next solid => exact .plain ⟨Nat.le_of_not_lt solid, notQuote, notBackslash⟩

theorem characters_escaped (content rest : List Char) :
    Characters (content.flatMap escaped ++ rest) content rest := by
  induction content with
  | nil => exact .none rest
  | cons c content ih =>
      rw [List.flatMap_cons, List.append_assoc]
      exact .more (character_escaped c _) ih

theorem quoted_text (text : String) (rest : List Char) :
    Quoted (quoted text ++ rest) text rest := by
  have inside := characters_escaped text.toList ('"' :: rest)
  have whole := Quoted.characters inside
  rw [String.ofList_toList] at whole
  simpa [quoted] using whole

end Json

end QueryWire
