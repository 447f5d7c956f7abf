import QueryWire.Json.Tree

namespace QueryWire.Json.Reader

/-! # Reading JSON

The reader keeps every repeated member and the characters of number tokens.  An
escape that is half of a surrogate pair fits the grammar but no string, so it is
refused.
-/

def isBlank (c : Char) : Bool :=
  c == ' ' || c == '\t' || c == '\n' || c == '\r'

def skip (text : List Char) : List Char :=
  text.dropWhile isBlank

def digits (text : List Char) : List Char × List Char :=
  (text.takeWhile Char.isDigit, text.dropWhile Char.isDigit)

def minus : List Char → List Char × List Char
  | '-' :: rest => (['-'], rest)
  | text => ([], text)

/-- The digits in front of the point: a zero alone, or digits that start with another
one. -/
def whole (text : List Char) : Option (List Char × List Char) :=
  let (run, rest) := digits text
  if run = ['0'] ∨ run ≠ [] ∧ run.head? ≠ some '0' then some (run, rest) else none

def fraction : List Char → Option (List Char × List Char)
  | '.' :: text =>
      let (run, rest) := digits text
      if run = [] then none else some ('.' :: run, rest)
  | text => some ([], text)

def powerSign : List Char → List Char × List Char
  | '-' :: rest => (['-'], rest)
  | '+' :: rest => (['+'], rest)
  | text => ([], text)

def power : List Char → Option (List Char × List Char)
  | c :: text =>
      if c = 'e' ∨ c = 'E' then
        let (sign, behind) := powerSign text
        let (run, rest) := digits behind
        if run = [] then none else some (c :: sign ++ run, rest)
      else some ([], c :: text)
  | [] => some ([], [])

/-- Reads a number, whose characters are its token. -/
def number (text : List Char) : Option (List Char × List Char) := do
  let (sign, text) := minus text
  let (whole, text) ← whole text
  let (fraction, text) ← fraction text
  let (power, rest) ← power text
  return (sign ++ (whole ++ (fraction ++ power)), rest)

def hexValue? (c : Char) : Option Nat :=
  if '0' ≤ c ∧ c ≤ '9' then some (c.toNat - '0'.toNat)
  else if 'a' ≤ c ∧ c ≤ 'f' then some (c.toNat - 'a'.toNat + 10)
  else if 'A' ≤ c ∧ c ≤ 'F' then some (c.toNat - 'A'.toNat + 10)
  else none

def unit : List Char → Option (Nat × List Char)
  | a :: b :: c :: d :: rest => do
      let a ← hexValue? a
      let b ← hexValue? b
      let c ← hexValue? c
      let d ← hexValue? d
      return (((a * 16 + b) * 16 + c) * 16 + d, rest)
  | _ => none

/-- Reads what stands behind `\u`: a character of one unit, or a surrogate pair. -/
def units (text : List Char) : Option (Char × List Char) := do
  let (first, text) ← unit text
  if first < 0xD800 ∨ 0xE000 ≤ first then return (Char.ofNat first, text)
  match text with
  | '\\' :: 'u' :: text =>
      let (second, rest) ← unit text
      if first < 0xDC00 ∧ 0xDC00 ≤ second ∧ second < 0xE000 then
        return (Char.ofNat (0x10000 + (first - 0xD800) * 0x400 + (second - 0xDC00)), rest)
      none
  | _ => none

def letter? : Char → Option Char
  | '"' => some '"'
  | '\\' => some '\\'
  | '/' => some '/'
  | 'b' => some '\x08'
  | 'f' => some '\x0c'
  | 'n' => some '\n'
  | 'r' => some '\r'
  | 't' => some '\t'
  | _ => none

def character : List Char → Option (Char × List Char)
  | '\\' :: 'u' :: text => units text
  | '\\' :: c :: rest => (letter? c).map fun meant => (meant, rest)
  | c :: rest => if c = '"' ∨ c = '\\' ∨ c.toNat < 0x20 then none else some (c, rest)
  | [] => none

/-- Reads the characters of a string and the quote behind them.  There can be no more
of them than `fuel`. -/
def characters : Nat → List Char → Option (List Char × List Char)
  | 0, _ => none
  | fuel + 1, text =>
      match character text with
      | some (c, text) => do
          let (more, rest) ← characters fuel text
          return (c :: more, rest)
      | none =>
          match text with
          | '"' :: rest => some ([], rest)
          | _ => none

/-- Reads a string behind its opening quote. -/
def string (text : List Char) : Option (String × List Char) := do
  let (content, rest) ← characters text.length text
  return (String.ofList content, rest)

/-- Reads a value that holds no other values. -/
def leaf : List Char → Option (Json (List Char) × List Char)
  | 'n' :: 'u' :: 'l' :: 'l' :: rest => some (.null, rest)
  | 't' :: 'r' :: 'u' :: 'e' :: rest => some (.boolean true, rest)
  | 'f' :: 'a' :: 'l' :: 's' :: 'e' :: rest => some (.boolean false, rest)
  | '"' :: text => (string text).map fun (content, rest) => (.string content, rest)
  | text => (number text).map fun (token, rest) => (.number token, rest)

/-- Reads the name of a member and the colon behind it. -/
def name (text : List Char) : Option (String × List Char) :=
  match skip text with
  | '"' :: text => do
      let (name, text) ← string text
      match skip text with
      | ':' :: rest => return (name, rest)
      | _ => none
  | _ => none

mutual

/-- Reads a value.  No value holds more characters than `fuel`. -/
def value : Nat → List Char → Option (Json (List Char) × List Char)
  | 0, _ => none
  | fuel + 1, text =>
      match skip text with
      | '[' :: text =>
          match skip text with
          | ']' :: rest => some (.array [], rest)
          | text => (items fuel text).map fun (items, rest) => (.array items, rest)
      | '\x7b' :: text =>
          match skip text with
          | '\x7d' :: rest => some (.object [], rest)
          | text => (members fuel text).map fun (members, rest) => (.object members, rest)
      | text => leaf text

/-- Reads the items of an array and its end; there is at least one item. -/
def items : Nat → List Char → Option (List (Json (List Char)) × List Char)
  | 0, _ => none
  | fuel + 1, text => do
      let (item, text) ← value fuel text
      match skip text with
      | ',' :: text =>
          let (more, rest) ← items fuel text
          return (item :: more, rest)
      | ']' :: rest => return ([item], rest)
      | _ => none

/-- Reads the members of an object and its end; there is at least one member. -/
def members : Nat → List Char → Option (List (String × Json (List Char)) × List Char)
  | 0, _ => none
  | fuel + 1, text => do
      let (name, text) ← name text
      let (value, text) ← value fuel text
      match skip text with
      | ',' :: text =>
          let (more, rest) ← members fuel text
          return ((name, value) :: more, rest)
      | '\x7d' :: rest => return ([(name, value)], rest)
      | _ => none

end

def read (text : String) : Option (Json (List Char)) := do
  let (tree, rest) ← value text.toList.length text.toList
  if skip rest = [] then return tree else none

end QueryWire.Json.Reader
