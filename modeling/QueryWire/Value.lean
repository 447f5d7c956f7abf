import QueryWire.Calendar.Rfc3339
import QueryWire.Error

namespace QueryWire

inductive Value where
  | null
  | string (text : String)
  | long (n : Int64)
  /-- A double; one that is not finite has no form of its own on the wire. -/
  | double (x : Decimal.Binary64)
  | boolean (value : Bool)
  /-- A time in UTC. -/
  | time (time : Calendar.Timestamp)
  | date (date : Calendar.Date)
  | bytes (bytes : List UInt8)
  /-- A reference by the name the server gave it, which is not empty. -/
  | reference (id : String)
deriving DecidableEq

namespace Value

def kind : Value → Kind
  | .null => .null
  | .string _ => .string
  | .long _ => .long
  | .double _ => .double
  | .boolean _ => .boolean
  | .time _ => .time
  | .date _ => .date
  | .bytes _ => .bytes
  | .reference _ => .reference

def isNull : Value → Bool
  | .null => true
  | _ => false

def asString? : Value → Option String
  | .string text => some text
  | _ => none

def asLong? : Value → Option Int64
  | .long n => some n
  | _ => none

/-- A double literal, of a finite double only. -/
def ofDouble (x : Decimal.Binary64) : Except Error Value :=
  if x.isFinite then .ok (.double x) else .error (.literal (.notFinite x))

def ofLocalTime (time : Calendar.LocalTime) : Value :=
  .time time.utc

/-- The time that an RFC 3339 text stands for. -/
def readTime (text : String) : Except Error Value :=
  match Calendar.Timestamp.read text.toList with
  | .ok found => .ok (.time found)
  | .error fault => .error (.literal (.unreadableTime text fault))

/-- The date that an ISO 8601 text stands for. -/
def readDate (text : String) : Except Error Value :=
  match Calendar.Date.read text.toList with
  | .ok found => .ok (.date found)
  | .error fault => .error (.literal (.unreadableDate text fault))

def readBytes (text : String) : Except Error Value :=
  match Text.Base64.decode text.toList with
  | .ok found => .ok (.bytes found)
  | .error fault => .error (.literal (.unreadableBytes text fault))

/-- A reference literal; the empty name refers to nothing. -/
def ofReference (id : String) : Except Error Value :=
  if id = "" then .error (.literal .emptyReference) else .ok (.reference id)

/-- Equality of values.  Doubles compare as numbers, so the two zeros are equal;
all else compares exactly. -/
def same : Value → Value → Bool
  | .double x, .double y => x.same y
  | value, other => value == other

end Value

end QueryWire
