import QueryWire.Value

namespace QueryWire

inductive Literal where
  | null
  | string (text : String)
  | long (n : Int64)
  | double (x : Decimal.Binary64)
  | boolean (value : Bool)
  | localTime (time : Calendar.LocalTime)
  | timeText (text : String)
  | date (date : Calendar.Date)
  | dateText (text : String)
  | bytes (bytes : List UInt8)
  | bytesText (text : String)
  | reference (id : String)
deriving DecidableEq

/-- The value of a source, if it has a form on the wire. -/
def Literal.toValue : Literal → Except Error Value
  | .null => .ok .null
  | .string text => .ok (.string text)
  | .long n => .ok (.long n)
  | .double x => Value.ofDouble x
  | .boolean value => .ok (.boolean value)
  | .localTime time => .ok (Value.ofLocalTime time)
  | .timeText text => Value.readTime text
  | .date day => .ok (.date day)
  | .dateText text => Value.readDate text
  | .bytes content => .ok (.bytes content)
  | .bytesText text => Value.readBytes text
  | .reference id => Value.ofReference id

end QueryWire
