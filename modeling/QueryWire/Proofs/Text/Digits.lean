import Mathlib.Algebra.Order.Ring.Nat
import QueryWire.Text.Digits

namespace QueryWire.Text

theorem digitValue_le {c : Char} (isDigit : c.isDigit = true) : digitValue c ≤ 9 :=
  Nat.sub_le_sub_right (Char.isDigit_iff_toNat.mp isDigit).2 _

/-- A run of digits ends where the text ends or goes on with another character. -/
theorem takeWhile_digits {run rest : List Char} (isDigit : ∀ c ∈ run, c.isDigit = true)
    (ends : ∀ c ∈ rest.head?, c.isDigit = false) :
    (run ++ rest).takeWhile Char.isDigit = run := by
  rw [List.takeWhile_append_of_pos isDigit]
  cases rest with
  | nil => rw [List.takeWhile_nil, List.append_nil]
  | cons next more =>
      rw [List.takeWhile_cons_of_neg (by simp [ends next rfl]), List.append_nil]

theorem dropWhile_digits {run rest : List Char} (isDigit : ∀ c ∈ run, c.isDigit = true)
    (ends : ∀ c ∈ rest.head?, c.isDigit = false) :
    (run ++ rest).dropWhile Char.isDigit = rest := by
  rw [List.dropWhile_append_of_pos isDigit]
  cases rest with
  | nil => rfl
  | cons next more => exact List.dropWhile_cons_of_neg (by simp [ends next rfl])

theorem digits_append_injective {run run' rest rest' : List Char}
    (isDigit : ∀ c ∈ run, c.isDigit = true) (isDigit' : ∀ c ∈ run', c.isDigit = true)
    (ends : ∀ c ∈ rest.head?, c.isDigit = false) (ends' : ∀ c ∈ rest'.head?, c.isDigit = false)
    (same : run ++ rest = run' ++ rest') : run = run' ∧ rest = rest' := by
  constructor
  · rw [← takeWhile_digits isDigit ends, same, takeWhile_digits isDigit' ends']
  · rw [← dropWhile_digits isDigit ends, same, dropWhile_digits isDigit' ends']

theorem numeral_eq_ofDigitChars (digits : List Char) :
    numeral digits = Nat.ofDigitChars 10 digits 0 := rfl

theorem numeral_append (front back : List Char) :
    numeral (front ++ back) = 10 ^ back.length * numeral front + numeral back := by
  simp only [numeral_eq_ofDigitChars]
  rw [Nat.ofDigitChars_append, Nat.ofDigitChars_eq_ofDigitChars_zero]

theorem numeral_zeros (count : Nat) : numeral (List.replicate count '0') = 0 := by
  rw [numeral_eq_ofDigitChars, Nat.ofDigitChars_replicate_zero, Nat.mul_zero]

theorem numeral_zeros_append (count : Nat) (digits : List Char) :
    numeral (List.replicate count '0' ++ digits) = numeral digits := by
  rw [numeral_append, numeral_zeros, Nat.mul_zero, Nat.zero_add]

theorem numeral_append_zeros (digits : List Char) (count : Nat) :
    numeral (digits ++ List.replicate count '0') = numeral digits * 10 ^ count := by
  rw [numeral_append, numeral_zeros, List.length_replicate, Nat.add_zero, Nat.mul_comm]

theorem numeral_cons (c : Char) (run : List Char) :
    numeral (c :: run) = 10 ^ run.length * digitValue c + numeral run := by
  have single : numeral [c] = digitValue c := Nat.zero_add _
  rw [← List.singleton_append, numeral_append, single]

theorem numeral_lt {run : List Char} (isDigit : ∀ c ∈ run, c.isDigit = true) :
    numeral run < 10 ^ run.length := by
  induction run with
  | nil => exact Nat.one_pos
  | cons c run ih =>
      have first : digitValue c ≤ 9 := digitValue_le (isDigit c List.mem_cons_self)
      have rest := ih fun c member => isDigit c (List.mem_cons_of_mem _ member)
      calc numeral (c :: run)
          = 10 ^ run.length * digitValue c + numeral run := numeral_cons c run
        _ < 10 ^ run.length * digitValue c + 10 ^ run.length := Nat.add_lt_add_left rest _
        _ = 10 ^ run.length * (digitValue c + 1) := (Nat.mul_succ _ _).symm
        _ ≤ 10 ^ run.length * 10 := Nat.mul_le_mul_left _ (by omega)
        _ = 10 ^ (c :: run).length := by rw [List.length_cons, Nat.pow_succ]

theorem numeral_decimal (n : Nat) : numeral (decimal n) = n :=
  Nat.ofDigitChars_ten_toDigits

theorem decimal_injective {n m : Nat} (same : decimal n = decimal m) : n = m := by
  rw [← numeral_decimal n, same, numeral_decimal]

theorem decimal_ne_nil (n : Nat) : decimal n ≠ [] :=
  Nat.toDigits_ne_nil

theorem notMem_decimal {c : Char} (notDigit : c.isDigit = false) (n : Nat) : c ∉ decimal n :=
  fun member => by simp [isDigit_of_mem_decimal member] at notDigit

theorem length_decimal_le {width n : Nat} (positive : 0 < width) (bound : n < 10 ^ width) :
    (decimal n).length ≤ width :=
  (Nat.length_toDigits_le_iff (by decide) positive).mpr bound

/-- Only zero is written with a zero in front. -/
theorem head_decimal {n : Nat} (positive : 0 < n) :
    ∃ first rest, decimal n = first :: rest ∧ first ≠ '0' := by
  induction n using Nat.strongRecOn with
  | ind n ih =>
  by_cases small : n < 10
  · refine ⟨Nat.digitChar n, [], Nat.toDigits_of_lt_base small, ?_⟩
    have cases : n = 1 ∨ n = 2 ∨ n = 3 ∨ n = 4 ∨ n = 5 ∨ n = 6 ∨ n = 7 ∨ n = 8 ∨ n = 9 := by omega
    rcases cases with rfl | rfl | rfl | rfl | rfl | rfl | rfl | rfl | rfl <;> decide
  · obtain ⟨first, rest, shape, nonzero⟩ := ih (n / 10) (by omega) (by omega)
    refine ⟨first, rest ++ [Nat.digitChar (n % 10)], ?_, nonzero⟩
    rw [decimal, Nat.toDigits_of_base_le (by decide) (by omega), ← decimal, shape,
      List.cons_append]

theorem signedDecimal_of_neg {n : Int} (negative : n < 0) :
    signedDecimal n = '-' :: decimal n.natAbs :=
  if_pos negative

theorem signedDecimal_of_nonneg {n : Int} (nonnegative : 0 ≤ n) :
    signedDecimal n = decimal n.natAbs :=
  if_neg (by omega)

theorem signedDecimal_injective {n m : Int} (same : signedDecimal n = signedDecimal m) :
    n = m := by
  have sign (k : Int) : '-' ∉ decimal k.natAbs := notMem_decimal rfl _
  rcases Int.lt_or_le n 0 with below | above <;>
    rcases Int.lt_or_le m 0 with below' | above'
  · rw [signedDecimal_of_neg below, signedDecimal_of_neg below'] at same
    have := decimal_injective (List.cons.inj same).2
    omega
  · rw [signedDecimal_of_neg below, signedDecimal_of_nonneg above'] at same
    exact absurd (same ▸ List.mem_cons_self) (sign m)
  · rw [signedDecimal_of_nonneg above, signedDecimal_of_neg below'] at same
    exact absurd (same ▸ List.mem_cons_self) (sign n)
  · rw [signedDecimal_of_nonneg above, signedDecimal_of_nonneg above'] at same
    have := decimal_injective same
    omega

theorem numeral_padded (width n : Nat) : numeral (padded width n) = n := by
  rw [padded, numeral_zeros_append, numeral_decimal]

theorem padded_injective {width width' n m : Nat} (same : padded width n = padded width' m) :
    n = m := by
  rw [← numeral_padded width n, same, numeral_padded]

theorem isDigit_of_mem_padded {width n : Nat} {c : Char} (member : c ∈ padded width n) :
    c.isDigit = true := by
  rcases List.mem_append.mp member with zero | digit
  · rw [(List.mem_replicate.mp zero).2]
    rfl
  · exact isDigit_of_mem_decimal digit

theorem le_length_padded (width n : Nat) : width ≤ (padded width n).length := by
  rw [padded, List.length_append, List.length_replicate]
  omega

theorem length_padded {width n : Nat} (positive : 0 < width) (bound : n < 10 ^ width) :
    (padded width n).length = width := by
  have := length_decimal_le positive bound
  rw [padded, List.length_append, List.length_replicate]
  omega

/-- A character that two texts do not hold divides them from what follows it. -/
theorem cons_injective_of_notMem {c : Char} {front front' rest rest' : List Char}
    (absent : c ∉ front) (absent' : c ∉ front')
    (same : front ++ c :: rest = front' ++ c :: rest') : front = front' ∧ rest = rest' := by
  induction front generalizing front' with
  | nil =>
      cases front' with
      | nil => exact ⟨rfl, (List.cons.inj same).2⟩
      | cons head tail => exact absurd (List.cons.inj same).1 (List.ne_of_not_mem_cons absent')
  | cons head tail ih =>
      cases front' with
      | nil => exact absurd (List.cons.inj same).1.symm (List.ne_of_not_mem_cons absent)
      | cons head' tail' =>
          obtain ⟨rfl, more⟩ := List.cons.inj same
          obtain ⟨rfl, behind⟩ := ih (List.not_mem_of_not_mem_cons absent)
            (List.not_mem_of_not_mem_cons absent') more
          exact ⟨rfl, behind⟩

/-! ## Runs of digits that denote numbers -/

/-- The run has digits and nothing else, and the number is their value. -/
structure Denotes (run : List Char) (value : Nat) : Prop where
  notEmpty : run ≠ []
  isDigit : ∀ c ∈ run, c.isDigit = true
  value : numeral run = value

/-- A number in at least so many digits, with no zero in front that is not needed. -/
structure DenotesPadded (width : Nat) (run : List Char) (value : Nat) : Prop
    extends Denotes run value where
  wide : width ≤ run.length
  lean : width < run.length → run.head? ≠ some '0'

theorem digitValue_injective {c d : Char} (isDigit : c.isDigit = true) (isDigit' : d.isDigit = true)
    (same : digitValue c = digitValue d) : c = d := by
  have bounds := (Char.isDigit_iff_toNat.mp isDigit).1
  have bounds' := (Char.isDigit_iff_toNat.mp isDigit').1
  simp only [digitValue, Char.reduceToNat] at same bounds bounds'
  exact Char.toNat_inj.mp (by omega)

/-- Among the runs of one length, the value tells the digits. -/
theorem numeral_injective {run run' : List Char} (isDigit : ∀ c ∈ run, c.isDigit = true)
    (isDigit' : ∀ c ∈ run', c.isDigit = true) (lengths : run.length = run'.length)
    (same : numeral run = numeral run') : run = run' := by
  induction run generalizing run' with
  | nil => exact (List.eq_nil_of_length_eq_zero lengths.symm).symm
  | cons c run ih =>
      obtain ⟨d, run', rfl⟩ := List.exists_cons_of_length_eq_add_one lengths.symm
      obtain ⟨first, later⟩ := List.forall_mem_cons.mp isDigit
      obtain ⟨first', later'⟩ := List.forall_mem_cons.mp isDigit'
      have lengths : run.length = run'.length := Nat.succ.inj lengths
      -- Dividing by the power of ten takes the first digit off.
      have below := numeral_lt later
      have below' := numeral_lt later'
      rw [numeral_cons, numeral_cons, lengths] at same
      rw [lengths] at below
      have digits : digitValue c = digitValue d := by
        have quotient := congrArg (· / 10 ^ run'.length) same
        simpa [Nat.mul_add_div, Nat.div_eq_of_lt, below, below'] using quotient
      rw [digits] at same
      rw [digitValue_injective first first' digits,
        ih later later' lengths (Nat.add_left_cancel same)]

/-- A run that does not start with a zero has as large a value as its length allows. -/
theorem pow_le_numeral {c : Char} {run : List Char} (isDigit : c.isDigit = true)
    (nonzero : c ≠ '0') : 10 ^ run.length ≤ numeral (c :: run) := by
  have positive : digitValue c ≠ 0 := fun zero =>
    nonzero (digitValue_injective isDigit (by decide) zero)
  calc 10 ^ run.length ≤ 10 ^ run.length * digitValue c :=
        Nat.le_mul_of_pos_right _ (Nat.pos_of_ne_zero positive)
    _ ≤ numeral (c :: run) := numeral_cons c run ▸ Nat.le_add_right _ _

theorem Denotes.head_isDigit {run : List Char} {value : Nat} (number : Denotes run value)
    (rest : List Char) : ∀ c ∈ (run ++ rest).head?, c.isDigit = true := by
  obtain ⟨c, more, rfl⟩ := List.exists_cons_of_ne_nil number.notEmpty
  rintro _ ⟨⟩
  exact number.isDigit c List.mem_cons_self

theorem Denotes.lt {run : List Char} {value : Nat} (number : Denotes run value) :
    value < 10 ^ run.length :=
  number.value ▸ numeral_lt number.isDigit

theorem DenotesPadded.pow_le {width value : Nat} {run : List Char}
    (number : DenotesPadded width run value) (longer : width < run.length) :
    10 ^ width ≤ value := by
  obtain ⟨c, rest, rfl⟩ := List.exists_cons_of_ne_nil number.notEmpty
  have nonzero : c ≠ '0' := fun zero => number.lean longer (zero ▸ rfl)
  calc 10 ^ width ≤ 10 ^ rest.length := Nat.pow_le_pow_right (by decide) (Nat.le_of_lt_succ longer)
    _ ≤ numeral (c :: rest) := pow_le_numeral (number.isDigit c List.mem_cons_self) nonzero
    _ = value := number.value

theorem DenotesPadded.length_le {width value : Nat} {run run' : List Char}
    (number : DenotesPadded width run value) (number' : DenotesPadded width run' value) :
    run.length ≤ run'.length := by
  by_contra longer
  have enough : 10 ^ run'.length ≤ value := by
    have wide := number'.wide
    have wider : DenotesPadded run'.length run value :=
      { number with
        wide := by omega
        lean := fun _ => number.lean (by omega) }
    exact wider.pow_le (by omega)
  exact absurd number'.lt (by omega)

theorem DenotesPadded.unique {width value : Nat} {run run' : List Char}
    (number : DenotesPadded width run value) (number' : DenotesPadded width run' value) :
    run = run' :=
  numeral_injective number.isDigit number'.isDigit
    (Nat.le_antisymm (number.length_le number') (number'.length_le number))
    (number.value.trans number'.value.symm)

theorem denotesPadded_padded {width : Nat} (positive : 0 < width) (n : Nat) :
    DenotesPadded width (padded width n) n where
  notEmpty := List.ne_nil_of_length_pos (Nat.lt_of_lt_of_le positive (le_length_padded width n))
  isDigit _ := isDigit_of_mem_padded
  value := numeral_padded width n
  wide := le_length_padded width n
  lean := by
    intro longer
    have large : ¬ n < 10 ^ width := fun small => by
      rw [length_padded positive small] at longer
      exact Nat.lt_irrefl _ longer
    have power : 0 < 10 ^ width := Nat.pow_pos (by decide)
    obtain ⟨first, rest, shape, nonzero⟩ := head_decimal (n := n) (by omega)
    have whole : padded width n = decimal n := by
      have length : width - (decimal n).length = 0 := by
        rw [padded, List.length_append, List.length_replicate] at longer
        omega
      rw [padded, length, List.replicate_zero, List.nil_append]
    simpa [whole, shape] using nonzero

theorem padded_eq_iff {width n : Nat} (positive : 0 < width) {run : List Char} :
    padded width n = run ↔ DenotesPadded width run n :=
  ⟨fun same => same ▸ denotesPadded_padded positive n,
    fun number => (denotesPadded_padded positive n).unique number⟩

end QueryWire.Text
