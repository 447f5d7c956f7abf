import QueryWire.Text.Digits
import QueryWire.Text.Utf8

namespace QueryWire.Text.Base64

/-- Why a text is no base64 text.  Bytes and offsets are those of the text's
UTF-8 encoding. -/
inductive Fault where
  /-- A byte that cannot stand at its offset. -/
  | symbol (byte : UInt8) (offset : Nat)
  /-- The last symbol has bits that no byte uses. -/
  | lastSymbol (byte : UInt8) (offset : Nat)
  /-- The last group has too few symbols to hold a byte. -/
  | length (count : Nat)
  /-- The last group is not filled up to four characters. -/
  | padding
deriving DecidableEq, Repr

def Fault.text : Fault → List Char
  | .symbol byte offset =>
      "Invalid symbol ".toList ++ decimal byte.toNat ++ ", offset ".toList ++
        decimal offset ++ ['.']
  | .lastSymbol byte offset =>
      "Invalid last symbol ".toList ++ decimal byte.toNat ++ ", offset ".toList ++
        decimal offset ++ ['.']
  | .length count => "Invalid input length: ".toList ++ decimal count
  | .padding => "Invalid padding".toList

/-- The symbol for six bits: capital letters, small letters, digits, `-`, `_`. -/
def symbolOf (bits : Nat) : Char :=
  if bits < 26 then Char.ofNat (65 + bits)
  else if bits < 52 then Char.ofNat (97 + (bits - 26))
  else if bits < 62 then Char.ofNat (48 + (bits - 52))
  else if bits = 62 then '-'
  else '_'

/-- The six bits that a byte stands for, if it is in the alphabet. -/
def bitsOf? (byte : UInt8) : Option Nat :=
  let code := byte.toNat
  if 65 ≤ code ∧ code ≤ 90 then some (code - 65)
  else if 97 ≤ code ∧ code ≤ 122 then some (code - 97 + 26)
  else if 48 ≤ code ∧ code ≤ 57 then some (code - 48 + 52)
  else if code = 45 then some 62
  else if code = 95 then some 63
  else none

/-- The padding character `=`. -/
def pad : UInt8 := 61

def encode : List UInt8 → List Char
  | [] => []
  | [a] =>
      let bits := a.toNat * 16
      [symbolOf (bits / 64), symbolOf (bits % 64), '=', '=']
  | [a, b] =>
      let bits := (a.toNat * 256 + b.toNat) * 4
      [symbolOf (bits / 4096), symbolOf (bits / 64 % 64), symbolOf (bits % 64), '=']
  | a :: b :: c :: rest =>
      let bits := (a.toNat * 256 + b.toNat) * 256 + c.toNat
      symbolOf (bits / 262144) :: symbolOf (bits / 4096 % 64) ::
        symbolOf (bits / 64 % 64) :: symbolOf (bits % 64) :: encode rest

/-- The six bits of the byte at `offset`, which must be in the alphabet. -/
def readSymbol (offset : Nat) (byte : UInt8) : Except Fault Nat :=
  match bitsOf? byte with
  | some bits => .ok bits
  | none => .error (.symbol byte offset)

def threeBytes (a b c d : Nat) : List UInt8 :=
  let bits := ((a * 64 + b) * 64 + c) * 64 + d
  [UInt8.ofNat (bits / 65536), UInt8.ofNat (bits / 256 % 256), UInt8.ofNat (bits % 256)]

/-- Reads the symbols of the last group, which starts at `offset`, and counts the
padding behind them.  `index` is the place of the next byte in the group. -/
def readGroup (offset index : Nat) : List UInt8 → Except Fault (List Nat × Nat)
  | [] => .ok ([], 0)
  | byte :: rest =>
      if byte = pad then
        if 2 ≤ index ∧ rest.all (· == pad) then .ok ([], rest.length + 1)
        else .error (.symbol pad (offset + index))
      else do
        let bits ← readSymbol (offset + index) byte
        let (symbols, padding) ← readGroup offset (index + 1) rest
        return (bits :: symbols, padding)

/-- The bytes of the last group.  Two symbols hold one byte and leave four bits
over, three hold two bytes and leave two bits over. -/
def closeGroup (offset : Nat) : List Nat × Nat → Except Fault (List UInt8)
  | ([a, b, c, d], _) => .ok (threeBytes a b c d)
  | ([a, b, c], 1) =>
      if c % 4 = 0 then .ok ((threeBytes a b c 0).take 2)
      else .error (.lastSymbol (UInt8.ofNat (symbolOf c).toNat) (offset + 2))
  | ([a, b], 2) =>
      if b % 16 = 0 then .ok ((threeBytes a b 0 0).take 1)
      else .error (.lastSymbol (UInt8.ofNat (symbolOf b).toNat) (offset + 1))
  | (symbols, _) =>
      if symbols.length < 2 then .error (.length (offset + symbols.length))
      else .error .padding

/-- Reads groups of four from `offset` on.  Only the last group, which may be
shorter, can hold padding. -/
def readGroups (offset : Nat) : List UInt8 → Except Fault (List UInt8)
  | [] => .ok []
  | a :: b :: c :: d :: next :: rest => do
      let a ← readSymbol offset a
      let b ← readSymbol (offset + 1) b
      let c ← readSymbol (offset + 2) c
      let d ← readSymbol (offset + 3) d
      return threeBytes a b c d ++ (← readGroups (offset + 4) (next :: rest))
  | group => do closeGroup offset (← readGroup offset 0 group)

/-- A single byte behind the last full group that could be no symbol and no
padding.  It is reported before anything in front of it. -/
def strayLast? (bytes : List UInt8) : Option Fault :=
  match bytes.getLast? with
  | some byte =>
      if bytes.length % 4 = 1 ∧ byte ≠ pad ∧ bitsOf? byte = none then
        some (.symbol byte (bytes.length - 1))
      else none
  | none => none

def decode (text : List Char) : Except Fault (List UInt8) :=
  let bytes := utf8 text
  match strayLast? bytes with
  | some fault => .error fault
  | none => readGroups 0 bytes

example : encode [1, 2, 3] = "AQID".toList := by decide
example : decode "AQ==".toList = .ok [1] := by rfl
example : decode "AR==".toList = .error (.lastSymbol 82 1) := by rfl

end QueryWire.Text.Base64
