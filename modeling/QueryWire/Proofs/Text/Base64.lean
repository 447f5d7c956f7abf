import Mathlib.Algebra.Order.Ring.Nat
import QueryWire.Text.Base64

namespace QueryWire.Text.Base64

def symbolByte (bits : Nat) : UInt8 := UInt8.ofNat (symbolOf bits).toNat

theorem utf8_cons (c : Char) (text : List Char) :
    utf8 (c :: text) = String.utf8EncodeChar c ++ utf8 text := rfl

theorem utf8_symbolOf {bits : Nat} (bound : bits < 64) (text : List Char) :
    utf8 (symbolOf bits :: text) = symbolByte bits :: utf8 text := by
  have single : ∀ bits < 64, String.utf8EncodeChar (symbolOf bits) = [symbolByte bits] := by
    decide
  rw [utf8_cons, single bits bound, List.singleton_append]

theorem utf8_pad (text : List Char) : utf8 ('=' :: text) = pad :: utf8 text := rfl

theorem symbolByte_ne_pad {bits : Nat} (bound : bits < 64) : symbolByte bits ≠ pad := by
  have each : ∀ bits < 64, symbolByte bits ≠ pad := by decide
  exact each bits bound

theorem readSymbol_symbolByte {bits : Nat} (bound : bits < 64) (offset : Nat) :
    readSymbol offset (symbolByte bits) = .ok bits := by
  have each : ∀ bits < 64, bitsOf? (symbolByte bits) = some bits := by decide
  rw [readSymbol, each bits bound]

theorem readGroup_symbolByte {bits offset index padding : Nat} {rest : List UInt8}
    {symbols : List Nat} (bound : bits < 64)
    (read : readGroup offset (index + 1) rest = .ok (symbols, padding)) :
    readGroup offset index (symbolByte bits :: rest) = .ok (bits :: symbols, padding) := by
  rw [readGroup, if_neg (symbolByte_ne_pad bound), readSymbol_symbolByte bound, read]
  rfl

/-- Four symbols that spell the number of three bytes hold these bytes. -/
theorem threeBytes_eq {first second third fourth : Nat} {a b c : UInt8}
    (spelled : ((first * 64 + second) * 64 + third) * 64 + fourth =
      (a.toNat * 256 + b.toNat) * 256 + c.toNat) :
    threeBytes first second third fourth = [a, b, c] := by
  have low := b.toNat_lt
  have last := c.toNat_lt
  have same (n : Nat) (x : UInt8) (value : n = x.toNat) : UInt8.ofNat n = x := by
    rw [value, UInt8.ofNat_toNat]
  simp only [threeBytes, spelled]
  congr 1
  · exact same _ a (by omega)
  congr 1
  · exact same _ b (by omega)
  congr 1
  exact same _ c (by omega)

theorem readGroups_last {offset : Nat} {group : List UInt8} {read : List Nat × Nat}
    (some : group ≠ []) (last : group.length ≤ 4) (held : readGroup offset 0 group = .ok read) :
    readGroups offset group = closeGroup offset read := by
  have opened : readGroups offset group = readGroup offset 0 group >>= closeGroup offset := by
    match group with
    | [_] | [_, _] | [_, _, _] | [_, _, _, _] => rfl
    | _ :: _ :: _ :: _ :: _ :: _ => simp only [List.length_cons] at last; omega
  rw [opened, held]
  rfl

theorem readGroups_encode_one (offset : Nat) (a : UInt8) :
    readGroups offset (utf8 (encode [a])) = .ok [a] := by
  have bound := a.toNat_lt
  have group : readGroup offset 0 [symbolByte (a.toNat * 16 / 64),
      symbolByte (a.toNat * 16 % 64), pad, pad] =
      .ok ([a.toNat * 16 / 64, a.toNat * 16 % 64], 2) :=
    readGroup_symbolByte (by omega) (readGroup_symbolByte (by omega) rfl)
  have close : closeGroup offset ([a.toNat * 16 / 64, a.toNat * 16 % 64], 2) = .ok [a] := by
    have whole : threeBytes (a.toNat * 16 / 64) (a.toNat * 16 % 64) 0 0 = [a, 0, 0] :=
      threeBytes_eq (by simp only [UInt8.toNat_zero]; omega)
    rw [closeGroup, if_pos (by omega), whole]
    rfl
  rw [encode, utf8_symbolOf (by omega), utf8_symbolOf (by omega), utf8_pad, utf8_pad, ← close]
  exact readGroups_last (List.cons_ne_nil _ _) (Nat.le_refl 4) group

theorem readGroups_encode_two (offset : Nat) (a b : UInt8) :
    readGroups offset (utf8 (encode [a, b])) = .ok [a, b] := by
  have first := a.toNat_lt
  have second := b.toNat_lt
  generalize spread : (a.toNat * 256 + b.toNat) * 4 = bits
  have group : readGroup offset 0 [symbolByte (bits / 4096), symbolByte (bits / 64 % 64),
      symbolByte (bits % 64), pad] = .ok ([bits / 4096, bits / 64 % 64, bits % 64], 1) :=
    readGroup_symbolByte (by omega) (readGroup_symbolByte (by omega)
      (readGroup_symbolByte (by omega) rfl))
  have close : closeGroup offset ([bits / 4096, bits / 64 % 64, bits % 64], 1) =
      .ok [a, b] := by
    have whole : threeBytes (bits / 4096) (bits / 64 % 64) (bits % 64) 0 = [a, b, 0] :=
      threeBytes_eq (by simp only [UInt8.toNat_zero]; omega)
    rw [closeGroup, if_pos (by omega), whole]
    rfl
  rw [encode, spread, utf8_symbolOf (by omega), utf8_symbolOf (by omega),
    utf8_symbolOf (by omega), utf8_pad, ← close]
  exact readGroups_last (List.cons_ne_nil _ _) (Nat.le_refl 4) group

/-- Behind three bytes the reader goes on with the next group; in the last group there
is nothing behind them. -/
theorem readGroups_encode_three {offset : Nat} (a b c : UInt8) {rest : List UInt8}
    (later : readGroups (offset + 4) (utf8 (encode rest)) = .ok rest) :
    readGroups offset (utf8 (encode (a :: b :: c :: rest))) = .ok (a :: b :: c :: rest) := by
  have first := a.toNat_lt
  have second := b.toNat_lt
  have third := c.toNat_lt
  generalize spread : (a.toNat * 256 + b.toNat) * 256 + c.toNat = bits
  have whole : threeBytes (bits / 262144) (bits / 4096 % 64) (bits / 64 % 64) (bits % 64) =
      [a, b, c] := threeBytes_eq (by omega)
  rw [encode, spread, utf8_symbolOf (by omega), utf8_symbolOf (by omega),
    utf8_symbolOf (by omega), utf8_symbolOf (by omega)]
  cases behind : utf8 (encode rest) with
  | nil =>
      have none : rest = [] := by
        rw [behind] at later
        exact (Except.ok.inj later).symm
      subst none
      have group : readGroup offset 0 [symbolByte (bits / 262144),
          symbolByte (bits / 4096 % 64), symbolByte (bits / 64 % 64), symbolByte (bits % 64)] =
          .ok ([bits / 262144, bits / 4096 % 64, bits / 64 % 64, bits % 64], 0) :=
        readGroup_symbolByte (by omega) (readGroup_symbolByte (by omega)
          (readGroup_symbolByte (by omega) (readGroup_symbolByte (by omega) rfl)))
      rw [← whole]
      exact readGroups_last (List.cons_ne_nil _ _) (by simp) group
  | cons next more =>
      rw [behind] at later
      rw [readGroups, readSymbol_symbolByte (by omega), readSymbol_symbolByte (by omega),
        readSymbol_symbolByte (by omega), readSymbol_symbolByte (by omega), later]
      exact congrArg (fun bytes => Except.ok (bytes ++ rest)) whole

theorem readGroups_encode (bytes : List UInt8) (offset : Nat) :
    readGroups offset (utf8 (encode bytes)) = .ok bytes := by
  fun_induction encode bytes generalizing offset with
  | case1 => rfl
  | case2 a => exact readGroups_encode_one offset a
  | case3 a b => exact readGroups_encode_two offset a b
  | case4 a b c rest _ ih => exact readGroups_encode_three a b c (ih (offset + 4))

theorem length_utf8_encode (bytes : List UInt8) : (utf8 (encode bytes)).length % 4 = 0 := by
  fun_induction encode bytes with
  | case1 => rfl
  | case2 a bits =>
      have bound := a.toNat_lt
      rw [utf8_symbolOf (by omega), utf8_symbolOf (by omega), utf8_pad, utf8_pad]
      simp [utf8]
  | case3 a b bits =>
      have first := a.toNat_lt
      have second := b.toNat_lt
      rw [utf8_symbolOf (by omega), utf8_symbolOf (by omega), utf8_symbolOf (by omega), utf8_pad]
      simp [utf8]
  | case4 a b c rest bits ih =>
      have first := a.toNat_lt
      have second := b.toNat_lt
      have third := c.toNat_lt
      rw [utf8_symbolOf (by omega), utf8_symbolOf (by omega), utf8_symbolOf (by omega),
        utf8_symbolOf (by omega)]
      simp only [List.length_cons]
      omega

theorem decode_encode (bytes : List UInt8) : decode (encode bytes) = .ok bytes := by
  have full : strayLast? (utf8 (encode bytes)) = none := by
    have := length_utf8_encode bytes
    rw [strayLast?]
    split
    · exact if_neg (by omega)
    · rfl
  rw [decode, full]
  exact readGroups_encode bytes 0

theorem encode_injective {bytes others : List UInt8} (same : encode bytes = encode others) :
    bytes = others := by
  have := decode_encode bytes
  rw [same, decode_encode] at this
  exact (Except.ok.inj this).symm

end QueryWire.Text.Base64
