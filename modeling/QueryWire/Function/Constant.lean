import QueryWire.Expr

namespace QueryWire

/-- Unicode normalisations of `casefold`. -/
inductive Normalizer where
  | nfd | nfc | nfkd | nfkc | nfkcCaseFold
deriving DecidableEq, Repr

def Normalizer.word : Normalizer → String
  | .nfd => "NFD"
  | .nfc => "NFC"
  | .nfkd => "NFKD"
  | .nfkc => "NFKC"
  | .nfkcCaseFold => "NFKCCaseFold"

/-- Units of the number of `epoch`. -/
inductive TimeUnit where
  | second | millisecond | microsecond | nanosecond
deriving DecidableEq, Repr

def TimeUnit.word : TimeUnit → String
  | .second => "second"
  | .millisecond => "millisecond"
  | .microsecond => "microsecond"
  | .nanosecond => "nanosecond"

/-- Events that `insert` and `remove` write into a history. -/
inductive Action where
  | create | delete
deriving DecidableEq, Repr

def Action.word : Action → String
  | .create => "create"
  | .delete => "delete"

end QueryWire
