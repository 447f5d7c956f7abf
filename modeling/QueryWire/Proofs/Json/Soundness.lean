import Mathlib.Data.List.TakeWhile
import QueryWire.Proofs.Json.Grammar
import QueryWire.Proofs.Json.Reader

namespace QueryWire.Json

namespace Reader

open Grammar

theorem blanks_skip (text : List Char) : Blanks text (skip text) := by
  induction text with
  | nil => exact .none []
  | cons c text ih =>
      by_cases blank : isBlank c = true
      · rw [skip, List.dropWhile_cons_of_pos blank]
        exact .more (by simpa [isBlank, or_assoc] using blank) ih
      · rw [skip, List.dropWhile_cons_of_neg blank]
        exact .none _

theorem blanks_of_skip {text rest : List Char} (skipped : skip text = rest) : Blanks text rest :=
  skipped ▸ blanks_skip text

theorem digits_sound {text run rest : List Char} (read : digits text = (run, rest)) :
    text = run ++ rest ∧ ∀ c ∈ run, c.isDigit = true := by
  obtain ⟨rfl, rfl⟩ := Prod.mk.inj read
  exact ⟨List.takeWhile_append_dropWhile.symm, fun c member => List.mem_takeWhile_imp member⟩

theorem whole_sound {text token rest : List Char} (read : whole text = some (token, rest)) :
    text = token ++ rest ∧ Whole token := by
  rcases found : digits text with ⟨run, behind⟩
  obtain ⟨split, isDigit⟩ := digits_sound found
  simp only [whole, found] at read
  split at read
  · next allowed =>
      cases read
      refine ⟨split, ?_⟩
      rcases allowed with rfl | ⟨some, leads⟩
      · exact .zero
      · exact .digits ⟨some, isDigit⟩ leads
  · cases read

theorem fraction_sound {text token rest : List Char}
    (read : fraction text = some (token, rest)) : text = token ++ rest ∧ Fraction token := by
  unfold fraction at read
  split at read
  · next behind =>
      rcases found : digits behind with ⟨run, more⟩
      obtain ⟨split, isDigit⟩ := digits_sound found
      simp only [found] at read
      split at read
      · cases read
      · next some =>
          cases read
          exact ⟨by rw [split, List.cons_append], .digits ⟨some, isDigit⟩⟩
  · cases read
    exact ⟨rfl, .none⟩

theorem powerSign_sound {text sign rest : List Char} (read : powerSign text = (sign, rest)) :
    text = sign ++ rest ∧ sign ∈ [[], ['+'], ['-']] := by
  unfold powerSign at read
  split at read <;> cases read <;> exact ⟨rfl, by decide⟩

theorem power_sound {text token rest : List Char} (read : power text = some (token, rest)) :
    text = token ++ rest ∧ Power token := by
  unfold power at read
  split at read
  · next c text =>
      split at read
      · next marks =>
          rcases signed : powerSign text with ⟨sign, behind⟩
          rcases found : digits behind with ⟨run, more⟩
          obtain ⟨front, signs⟩ := powerSign_sound signed
          obtain ⟨split, isDigit⟩ := digits_sound found
          simp only [signed, found] at read
          split at read
          · cases read
          · next some =>
              cases read
              exact ⟨by rw [front, split]; simp, .digits marks signs ⟨some, isDigit⟩⟩
      · cases read
        exact ⟨rfl, .none⟩
  · cases read
    exact ⟨rfl, .none⟩

theorem minus_sound {text sign rest : List Char} (read : minus text = (sign, rest)) :
    text = sign ++ rest ∧ sign ∈ [[], ['-']] := by
  unfold minus at read
  split at read <;> cases read <;> exact ⟨rfl, by decide⟩

theorem number_sound {text token rest : List Char} (read : number text = some (token, rest)) :
    text = token ++ rest ∧ NumberToken token := by
  rcases signed : minus text with ⟨sign, afterSign⟩
  simp only [number, signed, Option.bind_eq_bind, Option.bind_eq_some_iff, Prod.exists] at read
  obtain ⟨whole, afterWhole, wholeRead, fraction, afterFraction, fractionRead, power, afterPower,
    powerRead, same⟩ := read
  cases same
  obtain ⟨split, signs⟩ := minus_sound signed
  obtain ⟨splitWhole, wholes⟩ := whole_sound wholeRead
  obtain ⟨splitFraction, fractions⟩ := fraction_sound fractionRead
  obtain ⟨splitPower, powers⟩ := power_sound powerRead
  refine ⟨?_, .parts signs wholes fractions powers⟩
  rw [split, splitWhole, splitFraction, splitPower]
  simp

theorem hexDigit_of_offset {c : Char} (first count value : Nat)
    (each : ∀ offset < count, HexDigit (Char.ofNat (first + offset)) (offset + value))
    (lower : first ≤ c.toNat) (upper : c.toNat < first + count) :
    HexDigit c (c.toNat - first + value) := by
  have digit := each (c.toNat - first) (by omega)
  rwa [Nat.add_sub_cancel' lower, Char.ofNat_toNat] at digit

theorem hexValue?_sound {c : Char} {n : Nat} (read : hexValue? c = some n) : HexDigit c n := by
  simp only [hexValue?, Char.le_def, UInt32.le_iff_toNat_le, Char.toNat_val] at read
  split at read
  · next bounds =>
      cases read
      exact hexDigit_of_offset 48 10 0 (by decide) bounds.1 (Nat.lt_succ_of_le bounds.2)
  · split at read
    · next bounds =>
        cases read
        exact hexDigit_of_offset 97 6 10 (by decide) bounds.1 (Nat.lt_succ_of_le bounds.2)
    · split at read
      · next bounds =>
          cases read
          exact hexDigit_of_offset 65 6 10 (by decide) bounds.1 (Nat.lt_succ_of_le bounds.2)
      · cases read

theorem unit_sound {text rest : List Char} {code : Nat} (read : unit text = some (code, rest)) :
    CodeUnit text code rest := by
  unfold unit at read
  split at read
  · next a b c d rest =>
      simp only [Option.bind_eq_bind, Option.bind_eq_some_iff] at read
      obtain ⟨k, first, l, second, m, third, n, last, same⟩ := read
      cases same
      exact .digits (hexValue?_sound first) (hexValue?_sound second) (hexValue?_sound third)
        (hexValue?_sound last)
  · cases read

theorem toNat_ofNat {code : Nat} (valid : code.isValidChar) : (Char.ofNat code).toNat = code := by
  rw [Char.ofNat, dif_pos valid]
  rfl

theorem units_sound {text rest : List Char} {c : Char} (read : units text = some (c, rest)) :
    Character ('\\' :: 'u' :: text) c rest := by
  simp only [units, Option.bind_eq_bind, Option.bind_eq_some_iff, Prod.exists] at read
  obtain ⟨first, behind, firstRead, read⟩ := read
  have code := unit_sound firstRead
  have bound := code.lt
  split at read
  · next single =>
      obtain ⟨rfl, rfl⟩ := Prod.mk.inj (Option.some.inj read)
      refine .unit ?_
      rwa [toNat_ofNat (by unfold Nat.isValidChar; omega)]
  · next paired =>
      split at read
      · next next =>
          simp only [Option.bind_eq_some_iff, Prod.exists] at read
          obtain ⟨second, rest, secondRead, read⟩ := read
          split at read
          · next lows =>
              obtain ⟨rfl, rfl⟩ := Prod.mk.inj (Option.some.inj read)
              refine .pair code (unit_sound secondRead) ⟨by omega, lows.1⟩ lows.2 ?_
              exact toNat_ofNat (by unfold Nat.isValidChar; omega)
          · cases read
      · cases read

theorem letter?_sound {letter meant : Char} (read : letter? letter = some meant) :
    (letter, meant) ∈ letters := by
  unfold letter? at read
  split at read <;> cases read <;> decide

theorem character_sound {text rest : List Char} {c : Char}
    (read : character text = some (c, rest)) : Character text c rest := by
  unfold character at read
  split at read
  · exact units_sound read
  · obtain ⟨meant, known, same⟩ := Option.map_eq_some_iff.mp read
    cases same
    exact .letter (letter?_sound known)
  · split at read
    · cases read
    · next solid =>
        cases read
        simp only [not_or, Nat.not_lt] at solid
        exact .plain ⟨solid.2.2, solid.1, solid.2.1⟩
  · cases read

theorem characters_sound {fuel : Nat} {text content rest : List Char}
    (read : characters fuel text = some (content, rest)) :
    Characters text content ('"' :: rest) := by
  induction fuel generalizing text content with
  | zero => cases read
  | succ fuel ih =>
      rw [characters.eq_def] at read
      dsimp only at read
      split at read
      · next c behind first =>
          simp only [Option.bind_eq_bind, Option.bind_eq_some_iff, Prod.exists] at read
          obtain ⟨more, rest, later, same⟩ := read
          cases same
          exact .more (character_sound first) (ih later)
      · split at read
        · cases read
          exact .none _
        · cases read

theorem string_sound {text rest : List Char} {content : String}
    (read : string text = some (content, rest)) : Quoted ('"' :: text) content rest := by
  simp only [string, Option.bind_eq_bind, Option.bind_eq_some_iff, Prod.exists] at read
  obtain ⟨content, rest, inside, same⟩ := read
  cases same
  exact .characters (characters_sound inside)

theorem leaf_sound {text rest : List Char} {tree : Json (List Char)}
    (read : leaf text = some (tree, rest)) : Value text tree rest := by
  unfold leaf at read
  split at read
  · cases read
    exact .null _
  · cases read
    exact .true _
  · cases read
    exact .false _
  · obtain ⟨⟨content, behind⟩, quoted, same⟩ := Option.map_eq_some_iff.mp read
    cases same
    exact .string (string_sound quoted)
  · obtain ⟨⟨token, behind⟩, found, same⟩ := Option.map_eq_some_iff.mp read
    cases same
    obtain ⟨rfl, isNumber⟩ := number_sound found
    exact .number isNumber _

theorem name_sound {text rest : List Char} {label : String}
    (read : name text = some (label, rest)) :
    ∃ start named, Blanks text start ∧ Quoted start label named ∧ Blanks named (':' :: rest) := by
  unfold name at read
  split at read
  · next behind opened =>
      simp only [Option.bind_eq_bind, Option.bind_eq_some_iff, Prod.exists] at read
      obtain ⟨label, named, quoted, read⟩ := read
      split at read
      · next colon =>
          cases read
          exact ⟨_, named, blanks_of_skip opened, string_sound quoted, blanks_of_skip colon⟩
      · cases read
  · cases read

/-- What the readers of values and of the insides of containers read with this fuel was
derived. -/
structure SoundWith (fuel : Nat) : Prop where
  value : ∀ text tree rest, value fuel text = some (tree, rest) →
    ∃ start, Blanks text start ∧ Value start tree rest
  items : ∀ text read rest, items fuel text = some (read, rest) → Items text read rest
  members : ∀ text read rest, members fuel text = some (read, rest) → Members text read rest

namespace SoundWith

variable {fuel : Nat} {text rest : List Char}

theorem value_succ (sound : SoundWith fuel) {tree : Json (List Char)}
    (read : Reader.value (fuel + 1) text = some (tree, rest)) :
    ∃ start, Blanks text start ∧ Value start tree rest := by
  refine ⟨skip text, blanks_skip text, ?_⟩
  rw [Reader.value] at read
  split at read
  · next behind opened =>
      rw [opened]
      split at read
      · next ended =>
          cases read
          exact .noItems (blanks_of_skip ended)
      · obtain ⟨⟨inside, more⟩, held, same⟩ := Option.map_eq_some_iff.mp read
        cases same
        -- The items were read behind blanks that the rule counts among them.
        exact .array ((sound.items _ _ _ held).behind (blanks_skip behind))
  · next behind opened =>
      rw [opened]
      split at read
      · next ended =>
          cases read
          exact .noMembers (blanks_of_skip ended)
      · obtain ⟨⟨inside, more⟩, held, same⟩ := Option.map_eq_some_iff.mp read
        cases same
        exact .object ((sound.members _ _ _ held).behind (blanks_skip behind))
  · exact leaf_sound read

theorem items_succ (sound : SoundWith fuel) {read : List (Json (List Char))}
    (held : Reader.items (fuel + 1) text = some (read, rest)) : Items text read rest := by
  simp only [Reader.items, Option.bind_eq_bind, Option.bind_eq_some_iff, Prod.exists] at held
  obtain ⟨item, behind, valueRead, held⟩ := held
  obtain ⟨start, before, value⟩ := sound.value _ _ _ valueRead
  split at held
  · next comma =>
      simp only [Option.bind_eq_some_iff, Prod.exists] at held
      obtain ⟨more, rest, later, same⟩ := held
      cases same
      exact .more before value (blanks_of_skip comma) (sound.items _ _ _ later)
  · next close =>
      cases held
      exact .last before value (blanks_of_skip close)
  · cases held

theorem members_succ (sound : SoundWith fuel) {read : List (String × Json (List Char))}
    (held : Reader.members (fuel + 1) text = some (read, rest)) : Members text read rest := by
  simp only [Reader.members, Option.bind_eq_bind, Option.bind_eq_some_iff, Prod.exists] at held
  obtain ⟨label, named, nameRead, tree, behind, valueRead, held⟩ := held
  obtain ⟨start, after, before, quoted, colon⟩ := name_sound nameRead
  obtain ⟨content, between, value⟩ := sound.value _ _ _ valueRead
  have first : Member text (label, tree) behind := .named before quoted colon between value
  split at held
  · next comma =>
      simp only [Option.bind_eq_some_iff, Prod.exists] at held
      obtain ⟨more, rest, later, same⟩ := held
      cases same
      exact .more first (blanks_of_skip comma) (sound.members _ _ _ later)
  · next close =>
      cases held
      exact .last first (blanks_of_skip close)
  · cases held

end SoundWith

theorem soundWith (fuel : Nat) : SoundWith fuel := by
  induction fuel with
  | zero =>
      constructor <;> intro text found rest read <;> cases read
  | succ fuel ih =>
      exact ⟨fun _ _ _ => ih.value_succ, fun _ _ _ => ih.items_succ, fun _ _ _ => ih.members_succ⟩

theorem isText_of_read {text : String} {tree : Json (List Char)}
    (read : Reader.read text = some tree) : IsText text tree := by
  simp only [Reader.read, Option.bind_eq_bind, Option.bind_eq_some_iff, Prod.exists] at read
  obtain ⟨tree, behind, value, read⟩ := read
  split at read
  · next ended =>
      cases read
      obtain ⟨start, before, derived⟩ := (soundWith _).value _ _ _ value
      exact ⟨start, behind, before, derived, blanks_of_skip ended⟩
  · cases read

end Reader

end QueryWire.Json
