import QueryWire.Json.Tree

namespace QueryWire.Json

namespace Grammar

inductive Blanks : List Char → List Char → Prop where
  | none (rest : List Char) : Blanks rest rest
  | more {c : Char} {text rest : List Char} (blank : c ∈ [' ', '\t', '\n', '\r'])
      (behind : Blanks text rest) : Blanks (c :: text) rest

def IsRun (run : List Char) : Prop :=
  run ≠ [] ∧ ∀ c ∈ run, c.isDigit = true

inductive Whole : List Char → Prop where
  | zero : Whole ['0']
  | digits {run : List Char} (isRun : IsRun run) (leads : run.head? ≠ some '0') : Whole run

inductive Fraction : List Char → Prop where
  | none : Fraction []
  | digits {run : List Char} (isRun : IsRun run) : Fraction ('.' :: run)

inductive Power : List Char → Prop where
  | none : Power []
  | digits {mark : Char} {sign run : List Char} (marks : mark = 'e' ∨ mark = 'E')
      (signs : sign ∈ [[], ['+'], ['-']]) (isRun : IsRun run) : Power (mark :: sign ++ run)

inductive NumberToken : List Char → Prop where
  | parts {sign whole fraction power : List Char} (signs : sign ∈ [[], ['-']])
      (wholes : Whole whole) (fractions : Fraction fraction) (powers : Power power) :
      NumberToken (sign ++ (whole ++ (fraction ++ power)))

/-- A hexadecimal digit in lower or upper case. -/
def HexDigit (c : Char) (n : Nat) : Prop :=
  n < 16 ∧ (c = n.digitChar ∨ c = n.digitChar.toUpper)

instance (c : Char) (n : Nat) : Decidable (HexDigit c n) :=
  inferInstanceAs (Decidable (_ ∧ _))

inductive CodeUnit : List Char → Nat → List Char → Prop where
  | digits {a b c d : Char} {k l m n : Nat} {rest : List Char} (first : HexDigit a k)
      (second : HexDigit b l) (third : HexDigit c m) (last : HexDigit d n) :
      CodeUnit (a :: b :: c :: d :: rest) (((k * 16 + l) * 16 + m) * 16 + n) rest

/-- What may stand behind a backslash, with the character it stands for. -/
def letters : List (Char × Char) :=
  [('"', '"'), ('\\', '\\'), ('/', '/'), ('b', '\x08'), ('f', '\x0c'), ('n', '\n'), ('r', '\r'),
    ('t', '\t')]

inductive Character : List Char → Char → List Char → Prop where
  | plain {c : Char} {rest : List Char} (solid : 0x20 ≤ c.toNat ∧ c ≠ '"' ∧ c ≠ '\\') :
      Character (c :: rest) c rest
  | letter {letter meant : Char} {rest : List Char} (known : (letter, meant) ∈ letters) :
      Character ('\\' :: letter :: rest) meant rest
  | unit {text rest : List Char} {c : Char} (code : CodeUnit text c.toNat rest) :
      Character ('\\' :: 'u' :: text) c rest
  /-- A character beyond U+FFFF as a surrogate pair. -/
  | pair {text next rest : List Char} {high low : Nat} {c : Char}
      (first : CodeUnit text high ('\\' :: 'u' :: next)) (second : CodeUnit next low rest)
      (highs : 0xD800 ≤ high ∧ high < 0xDC00) (lows : 0xDC00 ≤ low ∧ low < 0xE000)
      (code : c.toNat = 0x10000 + (high - 0xD800) * 0x400 + (low - 0xDC00)) :
      Character ('\\' :: 'u' :: text) c rest

inductive Characters : List Char → List Char → List Char → Prop where
  | none (rest : List Char) : Characters rest [] rest
  | more {text behind content rest : List Char} {c : Char} (first : Character text c behind)
      (later : Characters behind content rest) : Characters text (c :: content) rest

inductive Quoted : List Char → String → List Char → Prop where
  | characters {text content rest : List Char} (inside : Characters text content ('"' :: rest)) :
      Quoted ('"' :: text) (String.ofList content) rest

mutual

inductive Value : List Char → Json (List Char) → List Char → Prop where
  | null (rest : List Char) : Value ("null".toList ++ rest) .null rest
  | true (rest : List Char) : Value ("true".toList ++ rest) (.boolean true) rest
  | false (rest : List Char) : Value ("false".toList ++ rest) (.boolean false) rest
  | number {token : List Char} (number : NumberToken token) (rest : List Char) :
      Value (token ++ rest) (.number token) rest
  | string {text rest : List Char} {content : String} (quoted : Quoted text content rest) :
      Value text (.string content) rest
  | noItems {text rest : List Char} (inside : Blanks text (']' :: rest)) :
      Value ('[' :: text) (.array []) rest
  | array {text rest : List Char} {items : List (Json (List Char))}
      (inside : Items text items rest) : Value ('[' :: text) (.array items) rest
  | noMembers {text rest : List Char} (inside : Blanks text ('\x7d' :: rest)) :
      Value ('\x7b' :: text) (.object []) rest
  | object {text rest : List Char} {members : List (String × Json (List Char))}
      (inside : Members text members rest) : Value ('\x7b' :: text) (.object members) rest

/-- The items of an array, of which there is one at least, and its end. -/
inductive Items : List Char → List (Json (List Char)) → List Char → Prop where
  | last {text start behind rest : List Char} {item : Json (List Char)}
      (before : Blanks text start) (value : Value start item behind)
      (close : Blanks behind (']' :: rest)) : Items text [item] rest
  | more {text start behind next rest : List Char} {item : Json (List Char)}
      {items : List (Json (List Char))} (before : Blanks text start)
      (value : Value start item behind) (comma : Blanks behind (',' :: next))
      (later : Items next items rest) : Items text (item :: items) rest

inductive Member : List Char → String × Json (List Char) → List Char → Prop where
  | named {text start named next content rest : List Char} {name : String}
      {tree : Json (List Char)} (before : Blanks text start) (label : Quoted start name named)
      (colon : Blanks named (':' :: next)) (between : Blanks next content)
      (value : Value content tree rest) : Member text (name, tree) rest

/-- The members of an object, of which there is one at least, and its end. -/
inductive Members : List Char → List (String × Json (List Char)) → List Char → Prop where
  | last {text behind rest : List Char} {member : String × Json (List Char)}
      (first : Member text member behind) (close : Blanks behind ('\x7d' :: rest)) :
      Members text [member] rest
  | more {text behind next rest : List Char} {member : String × Json (List Char)}
      {members : List (String × Json (List Char))} (first : Member text member behind)
      (comma : Blanks behind (',' :: next)) (later : Members next members rest) :
      Members text (member :: members) rest

end

theorem CodeUnit.lt {text rest : List Char} {code : Nat} (unit : CodeUnit text code rest) :
    code < 0x10000 := by
  obtain ⟨⟨k, -⟩, ⟨l, -⟩, ⟨m, -⟩, n, -⟩ := unit
  omega

theorem Blanks.trans {text middle rest : List Char} (before : Blanks text middle)
    (after : Blanks middle rest) : Blanks text rest := by
  induction before with
  | none => exact after
  | more blank _ ih => exact .more blank (ih after)

theorem Items.behind {text middle rest : List Char} {items : List (Json (List Char))}
    (blanks : Blanks text middle) (held : Items middle items rest) : Items text items rest := by
  cases held with
  | last before value close => exact .last (blanks.trans before) value close
  | more before value comma later => exact .more (blanks.trans before) value comma later

theorem Member.behind {text middle rest : List Char} {member : String × Json (List Char)}
    (blanks : Blanks text middle) (held : Member middle member rest) : Member text member rest := by
  obtain ⟨before, label, colon, between, value⟩ := held
  exact .named (blanks.trans before) label colon between value

theorem Members.behind {text middle rest : List Char} {members : List (String × Json (List Char))}
    (blanks : Blanks text middle) (held : Members middle members rest) :
    Members text members rest := by
  cases held with
  | last first close => exact .last (first.behind blanks) close
  | more first comma later => exact .more (first.behind blanks) comma later

end Grammar

/-- The grammar derives the whole text, and it stands for the tree. -/
def IsText (text : String) (tree : Json (List Char)) : Prop :=
  ∃ start behind, Grammar.Blanks text.toList start ∧ Grammar.Value start tree behind ∧
    Grammar.Blanks behind []

end QueryWire.Json
