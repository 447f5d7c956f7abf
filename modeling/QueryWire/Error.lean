import QueryWire.Calendar.Reader
import QueryWire.Decimal.Notation
import QueryWire.Text.Base64

namespace QueryWire

/-- The categories of literals on the wire. -/
inductive Kind where
  | null
  | string
  | long
  | double
  | boolean
  | time
  | date
  | bytes
  | reference
deriving DecidableEq, Repr

def Kind.name : Kind → String
  | .null => "null"
  | .string => "string"
  | .long => "long"
  | .double => "double"
  | .boolean => "boolean"
  | .time => "time"
  | .date => "date"
  | .bytes => "bytes"
  | .reference => "ref"

/-- Why host data is no literal. -/
inductive LiteralFault where
  /-- Infinities, and what is no number, are not written. -/
  | notFinite (x : Decimal.Binary64)
  /-- No long holds the number. -/
  | exceedsLong (n : Nat)
  | unreadableTime (text : String) (fault : Calendar.ReadFault)
  | unreadableDate (text : String) (fault : Calendar.ReadFault)
  | unreadableBytes (text : String) (fault : Text.Base64.Fault)
  | emptyReference
deriving DecidableEq, Repr

namespace LiteralFault

def kind : LiteralFault → Kind
  | .notFinite _ => .double
  | .exceedsLong _ => .long
  | .unreadableTime _ _ => .time
  | .unreadableDate _ _ => .date
  | .unreadableBytes _ _ => .bytes
  | .emptyReference => .reference

/-- A text in quotes and what is wrong with it. -/
def about (text fault : String) : String :=
  "'" ++ text ++ "': " ++ fault

def reason : LiteralFault → String
  | .notFinite x => String.ofList x.text ++ " is not a finite number"
  | .exceedsLong n => String.ofList (Text.decimal n) ++ " exceeds i64::MAX"
  | .unreadableTime text fault => about text fault.text
  | .unreadableDate text fault => about text fault.text
  | .unreadableBytes text fault => about text (String.ofList fault.text)
  | .emptyReference => "reference id is empty"

end LiteralFault

/-- The use of a `let` binding that has been closed. -/
inductive Misuse where
  | bind
  | close
deriving DecidableEq, Repr

def Misuse.text : Misuse → String
  | .bind => "bind called on a finalized let binding"
  | .close => "in_ called on a finalized let binding"

inductive Error where
  | literal (fault : LiteralFault)
  | misuse (fault : Misuse)
  /-- A recipe names a parameter that no enclosing recipe binds. -/
  | unboundParameter (name : String)
deriving DecidableEq, Repr

def Error.message : Error → String
  | .literal fault => "Invalid " ++ fault.kind.name ++ " literal: " ++ fault.reason
  | .misuse fault => "Builder misuse: " ++ fault.text
  | .unboundParameter name => "Unbound parameter: " ++ name

end QueryWire
