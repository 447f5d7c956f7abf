import Mathlib.Data.List.DropRight
import QueryWire.Proofs.Json.Soundness
import QueryWire.Proofs.Text.Digits

namespace QueryWire.Json

/-! # What fits the grammar is read

A rule may end a number early and leave digits of it to the rest, where the reader takes all
of them.  So each part of the reader is shown to read what the rule of the same name derives
in front of a rest that cannot go on with the part.  Behind a whole text and inside
containers no rest can.
-/

/-- A text that goes on with nothing that could belong to a number. -/
def Delimited (rest : List Char) : Prop :=
  ∀ c ∈ rest.head?, c.isDigit = false ∧ c ≠ '.' ∧ c ≠ 'e' ∧ c ≠ 'E'

theorem Delimited.nil : Delimited [] := by
  intro c head
  cases head

theorem delimited_cons {c : Char} {rest : List Char} :
    Delimited (c :: rest) ↔ c.isDigit = false ∧ c ≠ '.' ∧ c ≠ 'e' ∧ c ≠ 'E' := by
  simp [Delimited]

namespace Grammar

theorem Blanks.delimited {text rest : List Char} (blanks : Blanks text rest)
    (ends : Delimited rest) : Delimited text := by
  cases blanks with
  | none => exact ends
  | more blank _ =>
      simp only [List.mem_cons, List.not_mem_nil, or_false] at blank
      rcases blank with rfl | rfl | rfl | rfl <;> exact delimited_cons.mpr (by decide)

theorem Blanks.delimited_mark {c : Char} {text rest : List Char} (blanks : Blanks text (c :: rest))
    (mark : c.isDigit = false ∧ c ≠ '.' ∧ c ≠ 'e' ∧ c ≠ 'E') : Delimited text :=
  blanks.delimited (delimited_cons.mpr mark)

theorem IsRun.starts {run : List Char} (isRun : IsRun run) (rest : List Char) :
    ∃ c more, run ++ rest = c :: more ∧ c.isDigit = true := by
  obtain ⟨c, more, rfl⟩ := List.exists_cons_of_ne_nil isRun.1
  exact ⟨c, more ++ rest, rfl, isRun.2 c List.mem_cons_self⟩

theorem Whole.starts {token : List Char} (wholes : Whole token) (rest : List Char) :
    ∃ c more, token ++ rest = c :: more ∧ c.isDigit = true := by
  cases wholes with
  | zero => exact ⟨'0', rest, rfl, rfl⟩
  | digits isRun _ => exact isRun.starts rest

theorem NumberToken.starts {token : List Char} (isNumber : NumberToken token) :
    ∃ c more, token = c :: more ∧ (c = '-' ∨ c.isDigit = true) := by
  obtain ⟨signs, wholes, _, _⟩ := isNumber
  obtain ⟨c, more, shape, isDigit⟩ := wholes.starts _
  simp only [List.mem_cons, List.not_mem_nil, or_false] at signs
  rcases signs with rfl | rfl
  · exact ⟨c, more, shape, .inr isDigit⟩
  · exact ⟨'-', _, rfl, .inl rfl⟩

/-! ## Progress

What stands behind a value or behind the inside of a container is shorter than the text
that starts with it.
-/

theorem length_lt_append {front : List Char} (some : front ≠ []) (rest : List Char) :
    rest.length < (front ++ rest).length := by
  have := List.length_pos_of_ne_nil some
  rw [List.length_append]
  omega

theorem Blanks.length_le {text rest : List Char} (blanks : Blanks text rest) :
    rest.length ≤ text.length := by
  induction blanks with
  | none => exact Nat.le_refl _
  | more _ _ ih => exact Nat.le_succ_of_le ih

theorem Blanks.length_lt {c : Char} {text rest : List Char} (blanks : Blanks text (c :: rest)) :
    rest.length < text.length :=
  blanks.length_le

theorem CodeUnit.length_lt {text rest : List Char} {code : Nat} (unit : CodeUnit text code rest) :
    rest.length < text.length := by
  cases unit
  simp only [List.length_cons]
  omega

theorem Character.length_lt {text rest : List Char} {c : Char}
    (character : Character text c rest) : rest.length < text.length := by
  cases character with
  | plain => exact Nat.lt_succ_self _
  | letter => exact Nat.lt_succ_of_lt (Nat.lt_succ_self _)
  | unit code =>
      have := code.length_lt
      simp only [List.length_cons]
      omega
  | pair first second =>
      have := first.length_lt
      have := second.length_lt
      simp only [List.length_cons] at *
      omega

theorem Characters.length_le {text content rest : List Char}
    (characters : Characters text content rest) : content.length + rest.length ≤ text.length := by
  induction characters with
  | none => simp
  | more first _ ih =>
      have := first.length_lt
      rw [List.length_cons]
      omega

theorem Quoted.length_lt {text rest : List Char} {content : String}
    (quoted : Quoted text content rest) : rest.length < text.length := by
  obtain ⟨inside⟩ := quoted
  have := inside.length_le
  simp only [List.length_cons] at *
  omega

mutual

theorem Value.length_lt {text rest : List Char} {tree : Json (List Char)} :
    Value text tree rest → rest.length < text.length
  | .null rest | .true rest | .false rest => length_lt_append (by decide) rest
  | .number isNumber rest => by
      obtain ⟨c, more, rfl, -⟩ := isNumber.starts
      exact length_lt_append (List.cons_ne_nil c more) rest
  | .string quoted => quoted.length_lt
  | .noItems inside => Nat.lt_succ_of_lt inside.length_lt
  | .array inside => Nat.lt_succ_of_lt inside.length_lt
  | .noMembers inside => Nat.lt_succ_of_lt inside.length_lt
  | .object inside => Nat.lt_succ_of_lt inside.length_lt

theorem Items.length_lt {text rest : List Char} {items : List (Json (List Char))} :
    Items text items rest → rest.length < text.length
  | .last before value close => by
      have := before.length_le
      have := value.length_lt
      have := close.length_lt
      omega
  | .more before value comma later => by
      have := before.length_le
      have := value.length_lt
      have := comma.length_lt
      have := later.length_lt
      omega

theorem Member.length_lt {text rest : List Char} {member : String × Json (List Char)} :
    Member text member rest → rest.length < text.length
  | .named before label colon between value => by
      have := before.length_le
      have := label.length_lt
      have := colon.length_lt
      have := between.length_le
      have := value.length_lt
      omega

theorem Members.length_lt {text rest : List Char} {members : List (String × Json (List Char))} :
    Members text members rest → rest.length < text.length
  | .last first close => Nat.lt_trans close.length_lt first.length_lt
  | .more first comma later =>
      Nat.lt_trans later.length_lt (Nat.lt_trans comma.length_lt first.length_lt)

end

end Grammar

namespace Reader

open Grammar

theorem skip_cons {c : Char} (solid : isBlank c = false) (rest : List Char) :
    skip (c :: rest) = c :: rest :=
  List.dropWhile_cons_of_neg (by simp [solid])

theorem skip_skip (text : List Char) : skip (skip text) = skip text :=
  List.dropWhile_idempotent _ _

theorem skip_of_blanks {text rest : List Char} (blanks : Blanks text rest) :
    skip text = skip rest := by
  induction blanks with
  | none => rfl
  | more blank _ ih =>
      rw [skip, List.dropWhile_cons_of_pos (by simpa [isBlank, or_assoc] using blank)]
      exact ih

/-- Blanks in front of a character that is none are skipped up to it. -/
theorem skip_to {c : Char} {text rest : List Char} (blanks : Blanks text (c :: rest))
    (solid : isBlank c = false) : skip text = c :: rest :=
  (skip_of_blanks blanks).trans (skip_cons solid rest)

theorem digits_complete {run rest : List Char} (isDigit : ∀ c ∈ run, c.isDigit = true)
    (ends : ∀ c ∈ rest.head?, c.isDigit = false) : digits (run ++ rest) = (run, rest) := by
  rw [digits, Text.takeWhile_digits isDigit ends, Text.dropWhile_digits isDigit ends]

theorem whole_complete {token rest : List Char} (wholes : Whole token)
    (ends : ∀ c ∈ rest.head?, c.isDigit = false) : whole (token ++ rest) = some (token, rest) := by
  cases wholes with
  | zero =>
      have isDigit : ∀ c ∈ ['0'], c.isDigit = true := List.forall_mem_singleton.mpr rfl
      simp only [whole, digits_complete isDigit ends, true_or, if_true]
  | digits isRun leads =>
      simp only [whole, digits_complete isRun.2 ends]
      rw [if_pos (.inr ⟨isRun.1, leads⟩)]

theorem fraction_complete {token rest : List Char} (fractions : Fraction token)
    (ends : ∀ c ∈ rest.head?, c.isDigit = false ∧ c ≠ '.') :
    fraction (token ++ rest) = some (token, rest) := by
  cases fractions with
  | none =>
      rw [List.nil_append, fraction]
      rintro more rfl
      exact (ends '.' rfl).2 rfl
  | digits isRun =>
      have run := digits_complete isRun.2 fun c head => (ends c head).1
      simp [fraction, run, isRun.1]

theorem powerSign_complete {sign text : List Char} (signs : sign ∈ [[], ['+'], ['-']])
    (starts : ∃ c more, text = c :: more ∧ c.isDigit = true) :
    powerSign (sign ++ text) = (sign, text) := by
  obtain ⟨c, more, rfl, isDigit⟩ := starts
  simp only [List.mem_cons, List.not_mem_nil, or_false] at signs
  rcases signs with rfl | rfl | rfl
  · rw [List.nil_append, powerSign]
    · rintro _ ⟨⟩
      cases isDigit
    · rintro _ ⟨⟩
      cases isDigit
  · rfl
  · rfl

theorem power_complete {token rest : List Char} (powers : Power token) (ends : Delimited rest) :
    power (token ++ rest) = some (token, rest) := by
  cases powers with
  | none =>
      cases rest with
      | nil => rfl
      | cons c more =>
          obtain ⟨-, -, small, capital⟩ := ends c rfl
          rw [List.nil_append, power, if_neg (by simp [small, capital])]
  | @digits mark sign run marks signs isRun =>
      have signed := powerSign_complete signs (isRun.starts rest)
      have read := digits_complete isRun.2 fun c head => (ends c head).1
      simp [power, marks, signed, read, isRun.1]

theorem minus_complete {sign text : List Char} (signs : sign ∈ [[], ['-']])
    (starts : ∃ c more, text = c :: more ∧ c.isDigit = true) :
    minus (sign ++ text) = (sign, text) := by
  obtain ⟨c, more, rfl, isDigit⟩ := starts
  simp only [List.mem_cons, List.not_mem_nil, or_false] at signs
  rcases signs with rfl | rfl
  · rw [List.nil_append, minus]
    rintro _ ⟨⟩
    cases isDigit
  · rfl

/-- A power begins with an `e`, so what stands before it ends there. -/
theorem power_ends {token rest : List Char} (powers : Power token) (ends : Delimited rest) :
    ∀ c ∈ (token ++ rest).head?, c.isDigit = false ∧ c ≠ '.' := by
  intro c head
  cases powers with
  | none => exact ⟨(ends c head).1, (ends c head).2.1⟩
  | digits marks =>
      cases head
      rcases marks with rfl | rfl <;> decide

theorem fraction_ends {token rest : List Char} (fractions : Fraction token)
    (ends : ∀ c ∈ rest.head?, c.isDigit = false) :
    ∀ c ∈ (token ++ rest).head?, c.isDigit = false := by
  intro c head
  cases fractions with
  | none => exact ends c head
  | digits =>
      cases head
      rfl

theorem number_complete {token rest : List Char} (isNumber : NumberToken token)
    (ends : Delimited rest) : number (token ++ rest) = some (token, rest) := by
  obtain ⟨signs, wholes, fractions, powers⟩ := isNumber
  have beforePower := power_ends powers ends
  have beforeFraction := fraction_ends fractions fun c head => (beforePower c head).1
  simp [number, minus_complete signs (wholes.starts _), whole_complete wholes beforeFraction,
    fraction_complete fractions beforePower, power_complete powers ends]

theorem hexValue?_complete {c : Char} {n : Nat} (digit : HexDigit c n) : hexValue? c = some n := by
  have each : ∀ n < 16,
      hexValue? n.digitChar = some n ∧ hexValue? n.digitChar.toUpper = some n := by decide
  obtain ⟨bound, rfl | rfl⟩ := digit
  · exact (each n bound).1
  · exact (each n bound).2

theorem unit_complete {text rest : List Char} {code : Nat} (derived : CodeUnit text code rest) :
    unit text = some (code, rest) := by
  obtain ⟨first, second, third, last⟩ := derived
  simp [unit, hexValue?_complete first, hexValue?_complete second, hexValue?_complete third,
    hexValue?_complete last]

theorem character_complete {text rest : List Char} {c : Char} (derived : Character text c rest) :
    character text = some (c, rest) := by
  cases derived with
  | plain solid =>
      obtain ⟨notControl, notQuote, notBackslash⟩ := solid
      rw [character]
      · rw [if_neg (by simp [notQuote, notBackslash, notControl])]
      · exact fun _ same => absurd same notBackslash
      · exact fun _ _ same => absurd same notBackslash
  | letter known =>
      simp only [letters, List.mem_cons, Prod.mk.injEq, List.not_mem_nil, or_false] at known
      rcases known with known | known | known | known | known | known | known | known <;>
        obtain ⟨rfl, rfl⟩ := known <;> rfl
  | unit code =>
      have valid : c.toNat < 0xD800 ∨ 0xE000 ≤ c.toNat := by
        rcases c.valid with low | high
        · exact .inl low
        · exact .inr high.1
      simp [character, units, unit_complete code, valid]
  | @pair _ _ _ high _ _ first second highs lows code =>
      have notSingle : ¬ (high < 0xD800 ∨ 0xE000 ≤ high) := by omega
      simp [character, units, unit_complete first, unit_complete second, notSingle, highs, lows,
        ← code]

theorem characters_complete {text content rest : List Char} {fuel : Nat}
    (derived : Characters text content ('"' :: rest)) (enough : content.length < fuel) :
    characters fuel text = some (content, rest) := by
  generalize ends : '"' :: rest = quote at derived
  induction derived generalizing fuel with
  | none =>
      obtain ⟨less, rfl⟩ : ∃ less, fuel = less + 1 := ⟨fuel - 1, by simp at enough; omega⟩
      rw [← ends]
      rfl
  | more first _ ih =>
      obtain ⟨less, rfl⟩ : ∃ less, fuel = less + 1 := ⟨fuel - 1, by omega⟩
      have later := ih (Nat.lt_of_succ_lt_succ enough) ends
      rw [characters.eq_def]
      simp [character_complete first, later]

theorem string_complete {text rest : List Char} {content : String}
    (derived : Quoted text content rest) :
    ∃ inside, text = '"' :: inside ∧ string inside = some (content, rest) := by
  obtain ⟨inside⟩ := derived
  refine ⟨_, rfl, ?_⟩
  have bound := inside.length_le
  rw [string, characters_complete inside (by simp only [List.length_cons] at bound; omega)]
  rfl

theorem name_complete {text start named rest : List Char} {label : String}
    (before : Blanks text start) (quoted : Quoted start label named)
    (colon : Blanks named (':' :: rest)) : name text = some (label, rest) := by
  obtain ⟨inside, rfl, read⟩ := string_complete quoted
  simp [name, skip_to before rfl, read, skip_to colon rfl]

theorem ne_of_starts {c other : Char} (starts : c = '-' ∨ c.isDigit = true)
    (foreign : other ≠ '-' ∧ other.isDigit = false) : c ≠ other := by
  rintro rfl
  rcases starts with minus | isDigit
  · exact foreign.1 minus
  · simp [foreign.2] at isDigit

theorem isBlank_of_starts {c : Char} (starts : c = '-' ∨ c.isDigit = true) :
    isBlank c = false := by
  have foreign (other : Char) (blank : other ≠ '-' ∧ other.isDigit = false) : c ≠ other :=
    ne_of_starts starts blank
  simp [isBlank, foreign ' ' (by decide), foreign '\t' (by decide), foreign '\n' (by decide),
    foreign '\r' (by decide)]

theorem leaf_number {token rest : List Char} (isNumber : NumberToken token)
    (ends : Delimited rest) : leaf (token ++ rest) = some (.number token, rest) := by
  have read := number_complete isNumber ends
  obtain ⟨c, more, rfl, starts⟩ := isNumber.starts
  rw [List.cons_append] at read ⊢
  rw [leaf, read]
  · rfl
  · exact fun _ same => absurd (List.cons.inj same).1 (ne_of_starts starts (by decide))
  · exact fun _ same => absurd (List.cons.inj same).1 (ne_of_starts starts (by decide))
  · exact fun _ same => absurd (List.cons.inj same).1 (ne_of_starts starts (by decide))
  · exact fun _ same => absurd (List.cons.inj same).1 (ne_of_starts starts (by decide))

/-- What a value is depends on the text behind the blanks only. -/
theorem value_congr {text other : List Char} (same : skip text = skip other) (fuel : Nat) :
    value fuel text = value fuel other := by
  cases fuel with
  | zero => rfl
  | succ fuel => rw [value.eq_def, value.eq_def]; simp only [same]

theorem items_congr {text other : List Char} (same : skip text = skip other) (fuel : Nat) :
    items fuel text = items fuel other := by
  cases fuel with
  | zero => rfl
  | succ fuel => rw [items, items, value_congr same]

theorem members_congr {text other : List Char} (same : skip text = skip other) (fuel : Nat) :
    members fuel text = members fuel other := by
  have labels : name text = name other := by rw [name, name, same]
  cases fuel with
  | zero => rfl
  | succ fuel => rw [members, members, labels]

theorem value_leaf {c : Char} {text rest : List Char} {tree : Json (List Char)} {fuel : Nat}
    (solid : isBlank c = false) (notArray : c ≠ '[') (notObject : c ≠ '\x7b')
    (read : leaf (c :: text) = some (tree, rest)) :
    value (fuel + 1) (c :: text) = some (tree, rest) := by
  rw [value.eq_def]
  simp only [skip_cons solid]
  split
  · next same => exact absurd (List.cons.inj same).1 notArray
  · next same => exact absurd (List.cons.inj same).1 notObject
  · exact read

theorem value_items {c : Char} {text behind rest : List Char} {read : List (Json (List Char))}
    {fuel : Nat} (starts : skip text = c :: behind) (notEnd : c ≠ ']')
    (held : items fuel text = some (read, rest)) :
    value (fuel + 1) ('[' :: text) = some (.array read, rest) := by
  rw [← items_congr (skip_skip text), starts] at held
  rw [value.eq_def]
  simp only [skip_cons (c := '[') rfl]
  rw [starts]
  split
  · next same => exact absurd (List.cons.inj same).1 notEnd
  · rw [held]
    rfl

theorem value_members {c : Char} {text behind rest : List Char}
    {read : List (String × Json (List Char))} {fuel : Nat} (starts : skip text = c :: behind)
    (notEnd : c ≠ '\x7d') (held : members fuel text = some (read, rest)) :
    value (fuel + 1) ('\x7b' :: text) = some (.object read, rest) := by
  rw [← members_congr (skip_skip text), starts] at held
  rw [value.eq_def]
  simp only [skip_cons (c := '\x7b') rfl]
  rw [starts]
  split
  · next same => exact absurd (List.cons.inj same).1 notEnd
  · rw [held]
    rfl

/-- A value starts with no blank and with no closing bracket. -/
theorem value_starts {text rest : List Char} {tree : Json (List Char)}
    (derived : Value text tree rest) :
    ∃ c more, text = c :: more ∧ isBlank c = false ∧ c ≠ ']' := by
  cases derived with
  | null => exact ⟨'n', _, rfl, rfl, by decide⟩
  | «true» => exact ⟨'t', _, rfl, rfl, by decide⟩
  | «false» => exact ⟨'f', _, rfl, rfl, by decide⟩
  | number isNumber =>
      obtain ⟨c, more, rfl, starts⟩ := isNumber.starts
      exact ⟨c, more ++ rest, rfl, isBlank_of_starts starts, ne_of_starts starts (by decide)⟩
  | string quoted =>
      obtain ⟨inside⟩ := quoted
      exact ⟨'"', _, rfl, rfl, by decide⟩
  | noItems | array => exact ⟨'[', _, rfl, rfl, by decide⟩
  | noMembers | object => exact ⟨'\x7b', _, rfl, rfl, by decide⟩

theorem items_start {text rest : List Char} {read : List (Json (List Char))}
    (derived : Items text read rest) : ∃ c behind, skip text = c :: behind ∧ c ≠ ']' := by
  cases derived with
  | last before value | more before value =>
      obtain ⟨c, more, rfl, solid, notEnd⟩ := value_starts value
      exact ⟨c, more, skip_to before solid, notEnd⟩

theorem members_start {text rest : List Char} {read : List (String × Json (List Char))}
    (derived : Members text read rest) : ∃ behind, skip text = '"' :: behind := by
  cases derived with
  | last first | more first =>
      obtain ⟨before, ⟨_⟩, _, _, _⟩ := first
      exact ⟨_, skip_to before rfl⟩

/-- What was derived is read with this fuel if it has no more characters. -/
structure CompleteWith (fuel : Nat) : Prop where
  value : ∀ text start tree rest, Blanks text start → Value start tree rest → Delimited rest →
    start.length ≤ fuel + rest.length → value fuel text = some (tree, rest)
  items : ∀ text read rest, Items text read rest → text.length ≤ fuel + rest.length →
    items fuel text = some (read, rest)
  members : ∀ text read rest, Members text read rest → text.length ≤ fuel + rest.length →
    members fuel text = some (read, rest)

namespace CompleteWith

variable {fuel : Nat} {text rest : List Char}

theorem member (complete : CompleteWith fuel) {member : String × Json (List Char)}
    (derived : Member text member rest) (ends : Delimited rest)
    (enough : text.length ≤ fuel + 1 + rest.length) :
    ∃ named, name text = some (member.1, named) ∧
      Reader.value fuel named = some (member.2, rest) := by
  obtain ⟨before, label, colon, between, value⟩ := derived
  refine ⟨_, name_complete before label colon, complete.value _ _ _ _ between value ends ?_⟩
  have := before.length_le
  have := label.length_lt
  have := colon.length_lt
  have := between.length_le
  omega

theorem value_succ (complete : CompleteWith fuel) {start : List Char} {tree : Json (List Char)}
    (before : Blanks text start) (derived : Value start tree rest) (ends : Delimited rest)
    (enough : start.length ≤ fuel + 1 + rest.length) :
    Reader.value (fuel + 1) text = some (tree, rest) := by
  rw [value_congr (skip_of_blanks before)]
  cases derived with
  | null => rfl
  | «true» => rfl
  | «false» => rfl
  | number isNumber =>
      have read := leaf_number isNumber ends
      obtain ⟨c, more, rfl, starts⟩ := isNumber.starts
      exact value_leaf (isBlank_of_starts starts) (ne_of_starts starts (by decide))
        (ne_of_starts starts (by decide)) read
  | string quoted =>
      obtain ⟨inside, rfl, read⟩ := string_complete quoted
      refine value_leaf rfl (by decide) (by decide) ?_
      rw [leaf, read]
      rfl
  | noItems inside =>
      rw [Reader.value]
      simp [skip_cons (c := '[') rfl, skip_to inside rfl]
  | array inside =>
      obtain ⟨c, behind, starts, notEnd⟩ := items_start inside
      refine value_items starts notEnd (complete.items _ _ _ inside ?_)
      simp only [List.length_cons] at enough
      omega
  | noMembers inside =>
      rw [Reader.value]
      simp [skip_cons (c := '\x7b') rfl, skip_to inside rfl]
  | object inside =>
      obtain ⟨behind, starts⟩ := members_start inside
      refine value_members starts (by decide) (complete.members _ _ _ inside ?_)
      simp only [List.length_cons] at enough
      omega

theorem items_succ (complete : CompleteWith fuel) {read : List (Json (List Char))}
    (derived : Items text read rest) (enough : text.length ≤ fuel + 1 + rest.length) :
    Reader.items (fuel + 1) text = some (read, rest) := by
  cases derived with
  | last before value close =>
      have spent := before.length_le
      have left := close.length_lt
      have ends : Delimited _ := close.delimited_mark (by decide)
      have first := complete.value _ _ _ _ before value ends (by omega)
      simp [Reader.items, first, skip_to close rfl]
  | more before value comma later =>
      have spent := before.length_le
      have progress := value.length_lt
      have left := comma.length_lt
      have remaining := later.length_lt
      have ends : Delimited _ := comma.delimited_mark (by decide)
      have first := complete.value _ _ _ _ before value ends (by omega)
      have more := complete.items _ _ _ later (by omega)
      simp [Reader.items, first, skip_to comma rfl, more]

theorem members_succ (complete : CompleteWith fuel) {read : List (String × Json (List Char))}
    (derived : Members text read rest) (enough : text.length ≤ fuel + 1 + rest.length) :
    Reader.members (fuel + 1) text = some (read, rest) := by
  cases derived with
  | last member close =>
      have left := close.length_lt
      obtain ⟨named, label, first⟩ :=
        complete.member member (close.delimited_mark (by decide)) (by omega)
      simp [Reader.members, label, first, skip_to close rfl]
  | more member comma later =>
      have progress := member.length_lt
      have left := comma.length_lt
      have remaining := later.length_lt
      obtain ⟨named, label, first⟩ :=
        complete.member member (comma.delimited_mark (by decide)) (by omega)
      have more := complete.members _ _ _ later (by omega)
      simp [Reader.members, label, first, skip_to comma rfl, more]

end CompleteWith

theorem completeWith (fuel : Nat) : CompleteWith fuel := by
  -- Every rule spends at least one character, which pays for the unit of fuel it takes.
  induction fuel with
  | zero =>
      constructor
      · intro text start tree rest _ derived _ enough
        have := derived.length_lt
        omega
      · intro text read rest derived enough
        have := derived.length_lt
        omega
      · intro text read rest derived enough
        have := derived.length_lt
        omega
  | succ fuel ih =>
      exact ⟨fun _ _ _ _ => ih.value_succ, fun _ _ _ => ih.items_succ, fun _ _ _ => ih.members_succ⟩

/-- The reader reads the JSON texts, each as what it stands for. -/
theorem read_eq_some_iff {text : String} {tree : Json (List Char)} :
    read text = some tree ↔ IsText text tree := by
  refine ⟨isText_of_read, ?_⟩
  rintro ⟨start, behind, before, derived, after⟩
  have whole : value text.toList.length text.toList = some (tree, behind) := by
    refine (completeWith _).value _ _ _ _ before derived (after.delimited .nil) ?_
    exact Nat.le_trans before.length_le (Nat.le_add_right _ _)
  have ended : skip behind = [] := skip_of_blanks after
  simp [read, whole, ended]

end Reader

theorem IsText.unique {text : String} {tree other : Json (List Char)} (stands : IsText text tree)
    (stands' : IsText text other) : tree = other :=
  Option.some.inj
    ((Reader.read_eq_some_iff.mpr stands).symm.trans (Reader.read_eq_some_iff.mpr stands'))

end QueryWire.Json
