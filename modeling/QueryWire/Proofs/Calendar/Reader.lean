import Mathlib.Algebra.Order.Ring.Nat
import Mathlib.Data.List.Induction
import Mathlib.Data.List.TakeWhile
import QueryWire.Calendar.Reader
import QueryWire.Proofs.Result
import QueryWire.Proofs.Text.Digits

namespace QueryWire.Calendar.Reader

variable {α β : Type}

/-- A reader that has read is followed by the next one on what it left. -/
theorem bind_ok {reader : Reader α} {next : α → Reader β} {text rest : List Char} {value : α}
    (read : reader text = .ok (value, rest)) : (reader >>= next) text = next value rest := by
  change reader text >>= (fun result => next result.1 result.2) = _
  rw [read]
  rfl

theorem bind_error {reader : Reader α} {next : α → Reader β} {text : List Char} {fault : ReadFault}
    (read : reader text = .error fault) : (reader >>= next) text = .error fault := by
  change reader text >>= (fun result => next result.1 result.2) = _
  rw [read]
  rfl

theorem expect_cons (c : Char) (rest : List Char) : expect c (c :: rest) = .ok ((), rest) :=
  if_pos rfl

theorem ensure_true {condition : Prop} [Decidable condition] (holds : condition)
    (text : List Char) : ensure condition text = .ok ((), text) := by
  rw [ensure, if_pos holds]
  rfl

theorem atEnd_nil : atEnd [] = .ok ((), []) := rfl

theorem digitsUpTo_run {limit value : Nat} {run rest : List Char} (number : Text.Denotes run value)
    (fits : run.length ≤ limit)
    (stops : run.length = limit ∨ ∀ c ∈ rest.head?, c.isDigit = false) :
    digitsUpTo limit (run ++ rest) = .ok (value, rest) := by
  have ends : (rest.take (limit - run.length)).takeWhile Char.isDigit = [] := by
    rcases stops with full | foreign
    · rw [full, Nat.sub_self, List.take_zero, List.takeWhile_nil]
    · cases rest with
      | nil => rw [List.take_nil, List.takeWhile_nil]
      | cons next more =>
          cases limit - run.length with
          | zero => rw [List.take_zero, List.takeWhile_nil]
          | succ count =>
              rw [List.take_succ_cons]
              exact List.takeWhile_cons_of_neg (by simp [foreign next rfl])
  have taken : ((run ++ rest).take limit).takeWhile Char.isDigit = run := by
    rw [List.take_append, List.take_of_length_le fits,
      List.takeWhile_append_of_pos number.isDigit, ends, List.append_nil]
  obtain ⟨c, more, rfl⟩ := List.exists_cons_of_ne_nil number.notEmpty
  rw [List.cons_append] at taken ⊢
  rw [digitsUpTo, if_pos (number.isDigit c List.mem_cons_self), taken]
  exact congrArg₂ (fun value left => Except.ok (value, left)) number.value List.drop_left

theorem digit_cons {c : Char} (isDigit : c.isDigit = true) (rest : List Char) :
    digit (c :: rest) = .ok (Text.digitValue c, rest) :=
  if_pos isDigit

theorem digits_run {run : List Char} (isDigit : ∀ c ∈ run, c.isDigit = true) (rest : List Char) :
    digits run.length (run ++ rest) = .ok (Text.numeral run, rest) := by
  induction run using List.reverseRecOn generalizing rest with
  | nil => rfl
  | append_singleton run last ih =>
      have front := ih (fun c member => isDigit c (List.mem_append_left _ member)) (last :: rest)
      have back := digit_cons (isDigit last List.mem_concat_self) rest
      have single : Text.numeral [last] = Text.digitValue last := Nat.zero_add _
      rw [List.length_append, List.length_singleton, List.append_assoc, List.singleton_append,
        digits, bind_ok front, bind_ok back, Text.numeral_append, single]
      rfl

theorem digits_padded {width n : Nat} (positive : 0 < width) (bound : n < 10 ^ width)
    (rest : List Char) : digits width (Text.padded width n ++ rest) = .ok (n, rest) := by
  have isDigit : ∀ c ∈ Text.padded width n, c.isDigit = true := fun _ => Text.isDigit_of_mem_padded
  have read := digits_run isDigit rest
  rwa [Text.length_padded positive bound, Text.numeral_padded] at read

theorem digits_error {count : Nat} {text : List Char} {fault : ReadFault} (some : count ≠ 0)
    (read : digit text = .error fault) : digits count text = .error fault := by
  induction count with
  | zero => exact absurd rfl some
  | succ count ih =>
      rw [digits]
      cases count with
      | zero => exact (bind_ok rfl).trans (bind_error read)
      | succ count => exact bind_error (ih (Nat.succ_ne_zero count))

theorem require_of_le {count : Nat} {text : List Char} (enough : count ≤ Text.byteCount text) :
    require count text = .ok ((), text) :=
  if_neg (by omega)

theorem existing_some (value : α) (text : List Char) :
    existing (some value) text = .ok (value, text) := rfl

section Inversion

variable {text rest : List Char}

theorem bind_eq_ok {reader : Reader α} {next : α → Reader β} {value : β} :
    (reader >>= next) text = .ok (value, rest) ↔
      ∃ first left, reader text = .ok (first, left) ∧ next first left = .ok (value, rest) := by
  constructor
  · intro read
    obtain ⟨result, first, later⟩ := QueryWire.bind_eq_ok read
    exact ⟨result.1, result.2, first, later⟩
  · rintro ⟨first, left, read, later⟩
    rw [bind_ok read, later]

theorem readAll_eq_ok {reader : Reader α} {value : α} :
    readAll reader text = .ok value ↔ ∃ rest, reader text = .ok (value, rest) := by
  constructor
  · intro read
    cases taken : reader text with
    | error fault => cases read.symm.trans (congrArg (Except.map Prod.fst) taken)
    | ok result =>
        cases read.symm.trans (congrArg (Except.map Prod.fst) taken)
        exact ⟨result.2, rfl⟩
  · rintro ⟨rest, taken⟩
    exact congrArg (Except.map Prod.fst) taken

theorem of_existing {option : Option α} {value : α}
    (read : existing option text = .ok (value, rest)) : option = some value := by
  cases option with
  | none => cases read
  | some found => cases read; rfl

theorem expect_eq_ok {wanted : Char}
    (read : expect wanted text = .ok ((), rest)) : text = wanted :: rest := by
  cases text with
  | nil => cases read
  | cons c more =>
      simp only [expect] at read
      split at read <;> cases read
      rename_i same
      rw [same]

theorem of_ensure {condition : Prop} [Decidable condition]
    (read : ensure condition text = .ok ((), rest)) : condition ∧ rest = text := by
  by_cases holds : condition
  · rw [ensure_true holds] at read
    cases read
    exact ⟨holds, rfl⟩
  · rw [ensure, if_neg holds] at read
    cases read

theorem atEnd_eq_ok (read : atEnd text = .ok ((), rest)) :
    text = [] ∧ rest = [] := by
  cases text <;> cases read
  exact ⟨rfl, rfl⟩

/-- What was read as a number of limited length is a run of digits of at most that length. -/
theorem digitsUpTo_eq_ok {limit value : Nat} (room : text ≠ [] → 0 < limit)
    (read : digitsUpTo limit text = .ok (value, rest)) :
    ∃ run, text = run ++ rest ∧ Text.Denotes run value ∧ run.length ≤ limit := by
  cases text with
  | nil => cases read
  | cons c more =>
      simp only [digitsUpTo] at read
      split at read <;> cases read
      rename_i digit
      let run := ((c :: more).take limit).takeWhile Char.isDigit
      have front : run <+: (c :: more).take limit := List.takeWhile_prefix _
      obtain ⟨count, size⟩ := Nat.exists_eq_add_one.mpr (room (List.cons_ne_nil c more))
      have notEmpty : run ≠ [] := by
        simp only [run, size, List.take_succ_cons, List.takeWhile_cons_of_pos digit]
        exact List.cons_ne_nil _ _
      refine ⟨run, ?_, ⟨notEmpty, fun d member => ?_, rfl⟩, ?_⟩
      · have whole : run = (c :: more).take run.length :=
          List.prefix_iff_eq_take.mp (front.trans (List.take_prefix limit _))
        exact (List.take_append_drop run.length (c :: more)).symm.trans (congrArg (· ++ _) whole.symm)
      · exact List.mem_takeWhile_imp member
      · exact front.length_le.trans (List.length_take_le limit _)

theorem digits_lt {count value : Nat} (read : digits count text = .ok (value, rest)) :
    value < 10 ^ count := by
  induction count generalizing text value rest with
  | zero => cases read; decide
  | succ count ih =>
      obtain ⟨front, left, first, later⟩ := bind_eq_ok.mp read
      obtain ⟨last, behind, second, sum⟩ := bind_eq_ok.mp later
      cases sum
      have bound := ih first
      have digit : last ≤ 9 := by
        cases left with
        | nil => cases second
        | cons c more =>
            simp only [Reader.digit] at second
            split at second <;> cases second
            exact Text.digitValue_le ‹_›
      omega

end Inversion

end QueryWire.Calendar.Reader
