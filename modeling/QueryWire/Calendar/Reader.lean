import QueryWire.Text.Digits
import QueryWire.Text.Utf8

namespace QueryWire.Calendar

inductive ReadFault where
  /-- The text ends where more is needed. -/
  | premature
  /-- A character that cannot stand at its place. -/
  | invalid
  /-- A number that no field, or no calendar, has. -/
  | outOfRange
  | trailing
deriving DecidableEq, Repr

def ReadFault.text : ReadFault → String
  | .premature => "premature end of input"
  | .invalid => "input contains invalid characters"
  | .outOfRange => "input is out of range"
  | .trailing => "trailing input"

/-- A reader takes the text that is left and leaves the text behind what it
read. -/
abbrev Reader := StateT (List Char) (Except ReadFault)

namespace Reader

def expect (wanted : Char) : Reader Unit
  | [] => .error .premature
  | c :: rest => if c = wanted then .ok ((), rest) else .error .invalid

def digit : Reader Nat
  | [] => .error .premature
  | c :: rest =>
      if c.isDigit then .ok (Text.digitValue c, rest) else .error .invalid

def digits : Nat → Reader Nat
  | 0 => pure 0
  | count + 1 => do
      let value ← digits count
      return 10 * value + (← digit)

/-- Reads one to `limit` digits, as many as stand there. -/
def digitsUpTo (limit : Nat) : Reader Nat
  | [] => .error .premature
  | c :: rest =>
      if c.isDigit then
        let run := ((c :: rest).take limit).takeWhile Char.isDigit
        .ok (Text.numeral run, (c :: rest).drop run.length)
      else .error .invalid

/-- Fails if fewer than `count` bytes are left. -/
def require (count : Nat) : Reader Unit := fun text =>
  if Text.byteCount text < count then .error .premature else .ok ((), text)

/-- Fails with `outOfRange` unless the condition holds. -/
def ensure (condition : Prop) [Decidable condition] : Reader Unit :=
  if condition then pure () else throw .outOfRange

/-- The value of an option, or `outOfRange`. -/
def existing {α : Type} : Option α → Reader α
  | some value => pure value
  | none => throw .outOfRange

def atEnd : Reader Unit
  | [] => .ok ((), [])
  | _ :: _ => .error .trailing

/-- Reads a whole text; what the reader leaves is ignored, so it has to check
for the end itself. -/
def readAll {α : Type} (reader : Reader α) (text : List Char) :
    Except ReadFault α :=
  (reader.run text).map Prod.fst

end Reader

end QueryWire.Calendar
