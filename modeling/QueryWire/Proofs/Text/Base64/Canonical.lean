import QueryWire.Proofs.Result
import QueryWire.Proofs.Text.Base64
import QueryWire.Proofs.Text.Utf8

namespace QueryWire.Text.Base64

/-- The symbols of the URL-safe alphabet, each at the place that its six bits name. -/
def alphabet : List Char :=
  "ABCDEFGHIJKLMNOPQRSTUVWXYZabcdefghijklmnopqrstuvwxyz0123456789-_".toList

inductive Canonical : List Char → Prop where
  | nil : Canonical []
  /-- One byte leaves four bits of the second symbol over. -/
  | one {a b : Char} (known : a ∈ alphabet ∧ b ∈ alphabet) (unused : alphabet.idxOf b % 16 = 0) :
      Canonical [a, b, '=', '=']
  /-- Two bytes leave two bits of the third symbol over. -/
  | two {a b c : Char} (known : a ∈ alphabet ∧ b ∈ alphabet ∧ c ∈ alphabet)
      (unused : alphabet.idxOf c % 4 = 0) : Canonical [a, b, c, '=']
  | three {a b c d : Char} {rest : List Char}
      (known : a ∈ alphabet ∧ b ∈ alphabet ∧ c ∈ alphabet ∧ d ∈ alphabet)
      (later : Canonical rest) : Canonical (a :: b :: c :: d :: rest)

theorem alphabet_eq : alphabet = (List.range 64).map symbolOf := by decide +kernel

theorem symbolOf_mem_alphabet {bits : Nat} (bound : bits < 64) : symbolOf bits ∈ alphabet := by
  rw [alphabet_eq]
  exact List.mem_map_of_mem (List.mem_range.mpr bound)

theorem exists_symbolOf {c : Char} (known : c ∈ alphabet) : ∃ bits < 64, symbolOf bits = c := by
  rw [alphabet_eq] at known
  obtain ⟨bits, inside, same⟩ := List.mem_map.mp known
  exact ⟨bits, List.mem_range.mp inside, same⟩

theorem idxOf_symbolOf {bits : Nat} (bound : bits < 64) : alphabet.idxOf (symbolOf bits) = bits := by
  have each : ∀ bits < 64, alphabet.idxOf (symbolOf bits) = bits := by decide +kernel
  exact each bits bound

theorem encode_threeBytes {a b c d : Nat} (bounds : a < 64 ∧ b < 64 ∧ c < 64 ∧ d < 64)
    (bytes : List UInt8) :
    encode (threeBytes a b c d ++ bytes) =
      symbolOf a :: symbolOf b :: symbolOf c :: symbolOf d :: encode bytes := by
  generalize spelled : ((a * 64 + b) * 64 + c) * 64 + d = bits
  have whole : (bits / 65536 % 2 ^ 8 * 256 + bits / 256 % 256 % 2 ^ 8) * 256 +
      bits % 256 % 2 ^ 8 = bits := by omega
  have first : bits / 262144 = a := by omega
  have second : bits / 4096 % 64 = b := by omega
  have third : bits / 64 % 64 = c := by omega
  have fourth : bits % 64 = d := by omega
  simp only [threeBytes, spelled, List.cons_append, List.nil_append, encode, UInt8.toNat_ofNat',
    whole, first, second, third, fourth]

theorem encode_twoBytes {a b c : Nat} (bounds : a < 64 ∧ b < 64 ∧ c < 64) (unused : c % 4 = 0) :
    encode ((threeBytes a b c 0).take 2) = [symbolOf a, symbolOf b, symbolOf c, '='] := by
  generalize spelled : ((a * 64 + b) * 64 + c) * 64 + 0 = bits
  have whole : (bits / 65536 % 2 ^ 8 * 256 + bits / 256 % 256 % 2 ^ 8) * 4 = bits / 64 := by omega
  have first : bits / 64 / 4096 = a := by omega
  have second : bits / 64 / 64 % 64 = b := by omega
  have third : bits / 64 % 64 = c := by omega
  simp only [threeBytes, spelled, List.take_succ_cons, List.take_zero, encode, UInt8.toNat_ofNat',
    whole, first, second, third]

theorem encode_oneByte {a b : Nat} (bounds : a < 64 ∧ b < 64) (unused : b % 16 = 0) :
    encode ((threeBytes a b 0 0).take 1) = [symbolOf a, symbolOf b, '=', '='] := by
  generalize spelled : ((a * 64 + b) * 64 + 0) * 64 + 0 = bits
  have whole : bits / 65536 % 2 ^ 8 * 16 = bits / 4096 := by omega
  have first : bits / 4096 / 64 = a := by omega
  have second : bits / 4096 % 64 = b := by omega
  simp only [threeBytes, spelled, List.take_succ_cons, List.take_zero, encode, UInt8.toNat_ofNat',
    whole, first, second]

theorem canonical_encode (bytes : List UInt8) : Canonical (encode bytes) := by
  fun_induction encode bytes with
  | case1 => exact .nil
  | case2 a bits =>
      have bound := a.toNat_lt
      refine .one ⟨symbolOf_mem_alphabet (by omega), symbolOf_mem_alphabet (by omega)⟩ ?_
      rw [idxOf_symbolOf (by omega)]
      omega
  | case3 a b bits =>
      have first := a.toNat_lt
      have second := b.toNat_lt
      refine .two ⟨symbolOf_mem_alphabet (by omega), symbolOf_mem_alphabet (by omega),
        symbolOf_mem_alphabet (by omega)⟩ ?_
      rw [idxOf_symbolOf (by omega)]
      omega
  | case4 a b c rest bits ih =>
      have first := a.toNat_lt
      have second := b.toNat_lt
      have third := c.toNat_lt
      exact .three ⟨symbolOf_mem_alphabet (by omega), symbolOf_mem_alphabet (by omega),
        symbolOf_mem_alphabet (by omega), symbolOf_mem_alphabet (by omega)⟩ ih

theorem Canonical.mem {text : List Char} (canonical : Canonical text) {c : Char}
    (member : c ∈ text) : c ∈ alphabet ∨ c = '=' := by
  induction canonical with
  | nil => cases member
  | one known unused => simp only [List.mem_cons] at member; grind
  | two known unused => simp only [List.mem_cons] at member; grind
  | three known later ih => simp only [List.mem_cons] at member; grind

theorem Canonical.exists_encode {text : List Char} (canonical : Canonical text) :
    ∃ bytes, encode bytes = text := by
  induction canonical with
  | nil => exact ⟨[], rfl⟩
  | one known unused =>
      obtain ⟨a, boundA, rfl⟩ := exists_symbolOf known.1
      obtain ⟨b, boundB, rfl⟩ := exists_symbolOf known.2
      rw [idxOf_symbolOf boundB] at unused
      exact ⟨_, encode_oneByte ⟨boundA, boundB⟩ unused⟩
  | two known unused =>
      obtain ⟨a, boundA, rfl⟩ := exists_symbolOf known.1
      obtain ⟨b, boundB, rfl⟩ := exists_symbolOf known.2.1
      obtain ⟨c, boundC, rfl⟩ := exists_symbolOf known.2.2
      rw [idxOf_symbolOf boundC] at unused
      exact ⟨_, encode_twoBytes ⟨boundA, boundB, boundC⟩ unused⟩
  | three known later ih =>
      obtain ⟨a, boundA, rfl⟩ := exists_symbolOf known.1
      obtain ⟨b, boundB, rfl⟩ := exists_symbolOf known.2.1
      obtain ⟨c, boundC, rfl⟩ := exists_symbolOf known.2.2.1
      obtain ⟨d, boundD, rfl⟩ := exists_symbolOf known.2.2.2
      obtain ⟨bytes, rfl⟩ := ih
      exact ⟨_, encode_threeBytes ⟨boundA, boundB, boundC, boundD⟩ bytes⟩

theorem mem_encode {bytes : List UInt8} {c : Char} (member : c ∈ encode bytes) :
    c ∈ alphabet ∨ c = '=' :=
  (canonical_encode bytes).mem member

/-- A byte of the alphabet is the byte of its symbol. -/
theorem bitsOf?_eq_some {byte : UInt8} {bits : Nat} (found : bitsOf? byte = some bits) :
    bits < 64 ∧ symbolByte bits = byte := by
  have code : ∀ bits < 64, (symbolByte bits).toNat =
      if bits < 26 then bits + 65 else if bits < 52 then bits + 71
      else if bits < 62 then bits - 4 else if bits = 62 then 45 else 95 := by decide
  simp only [bitsOf?] at found
  have bound : bits < 64 := by
    split_ifs at found <;> cases found <;> omega
  refine ⟨bound, UInt8.toNat_inj.mp ?_⟩
  rw [code bits bound]
  split_ifs at found <;> cases found <;> split_ifs <;> omega

theorem readSymbol_eq_ok {offset bits : Nat} {byte : UInt8}
    (read : readSymbol offset byte = .ok bits) : bits < 64 ∧ symbolByte bits = byte := by
  rw [readSymbol] at read
  split at read <;> cases read
  exact bitsOf?_eq_some ‹_›

theorem utf8_symbols {symbols : List Nat} (bounds : ∀ bits ∈ symbols, bits < 64) (padding : Nat) :
    utf8 (symbols.map symbolOf ++ List.replicate padding '=') =
      symbols.map symbolByte ++ List.replicate padding pad := by
  induction symbols with
  | nil =>
      induction padding with
      | zero => rfl
      | succ padding ih => exact (utf8_pad _).trans (congrArg (pad :: ·) ih)
  | cons bits symbols ih =>
      rw [List.map_cons, List.cons_append, utf8_symbolOf (bounds bits List.mem_cons_self),
        ih fun bits member => bounds bits (List.mem_cons_of_mem _ member)]
      rfl

/-- The last group is symbols and behind them nothing but padding. -/
theorem readGroup_eq_ok {offset index padding : Nat} {group : List UInt8} {symbols : List Nat}
    (read : readGroup offset index group = .ok (symbols, padding)) :
    (∀ bits ∈ symbols, bits < 64) ∧
      group = symbols.map symbolByte ++ List.replicate padding pad := by
  induction group generalizing index symbols padding with
  | nil =>
      cases read
      exact ⟨by simp, rfl⟩
  | cons byte rest ih =>
      rw [readGroup] at read
      split at read
      · next isPad =>
        split at read
        · next closed =>
          cases read
          have pads : rest = List.replicate rest.length pad :=
            List.eq_replicate_of_mem fun other member =>
              beq_iff_eq.mp (List.all_eq_true.mp closed.2 other member)
          refine ⟨by simp, ?_⟩
          rw [isPad, List.map_nil, List.nil_append, List.replicate_succ, ← pads]
        · cases read
      · obtain ⟨bits, first, later⟩ := bind_eq_ok read
        obtain ⟨⟨symbols', padding'⟩, behind, result⟩ := bind_eq_ok later
        cases result
        obtain ⟨bound, same⟩ := readSymbol_eq_ok first
        obtain ⟨bounds, shape⟩ := ih behind
        refine ⟨List.forall_mem_cons.mpr ⟨bound, bounds⟩, ?_⟩
        rw [List.map_cons, List.cons_append, same, ← shape]

theorem closeGroup_eq_ok {offset padding : Nat} {symbols : List Nat} {bytes : List UInt8}
    (bounds : ∀ bits ∈ symbols, bits < 64) (last : symbols.length + padding ≤ 4)
    (read : closeGroup offset (symbols, padding) = .ok bytes) :
    encode bytes = symbols.map symbolOf ++ List.replicate padding '=' := by
  rw [closeGroup.eq_def] at read
  split at read
  · next a b c d _ same =>
    cases same
    cases read
    simp only [List.forall_mem_cons] at bounds
    have none : padding = 0 := by simp only [List.length_cons] at last; omega
    rw [none, ← List.append_nil (threeBytes a b c d),
      encode_threeBytes ⟨bounds.1, bounds.2.1, bounds.2.2.1, bounds.2.2.2.1⟩]
    rfl
  · next a b c same =>
    cases same
    simp only [List.forall_mem_cons] at bounds
    split at read <;> cases read
    exact encode_twoBytes ⟨bounds.1, bounds.2.1, bounds.2.2.1⟩ ‹_›
  · next a b same =>
    cases same
    simp only [List.forall_mem_cons] at bounds
    split at read <;> cases read
    exact encode_oneByte ⟨bounds.1, bounds.2.1⟩ ‹_›
  · split at read <;> cases read

/-- Whatever is read is what is written for it: group by group, and at last for the group
that may hold padding. -/
theorem utf8_encode_of_readGroups {offset : Nat} {group bytes : List UInt8}
    (read : readGroups offset group = .ok bytes) : utf8 (encode bytes) = group := by
  fun_induction readGroups offset group generalizing bytes with
  | case1 =>
      cases read
      rfl
  | case2 offset a b c d next rest ih =>
      obtain ⟨first, readA, read⟩ := bind_eq_ok read
      obtain ⟨second, readB, read⟩ := bind_eq_ok read
      obtain ⟨third, readC, read⟩ := bind_eq_ok read
      obtain ⟨fourth, readD, read⟩ := bind_eq_ok read
      obtain ⟨behind, later, result⟩ := bind_eq_ok read
      cases result
      obtain ⟨boundA, rfl⟩ := readSymbol_eq_ok readA
      obtain ⟨boundB, rfl⟩ := readSymbol_eq_ok readB
      obtain ⟨boundC, rfl⟩ := readSymbol_eq_ok readC
      obtain ⟨boundD, rfl⟩ := readSymbol_eq_ok readD
      rw [encode_threeBytes ⟨boundA, boundB, boundC, boundD⟩, utf8_symbolOf boundA,
        utf8_symbolOf boundB, utf8_symbolOf boundC, utf8_symbolOf boundD, ih later]
  | case3 offset group some long =>
      obtain ⟨⟨symbols, padding⟩, held, closed⟩ := bind_eq_ok read
      obtain ⟨bounds, shape⟩ := readGroup_eq_ok held
      have last : symbols.length + padding ≤ 4 := by
        have length := congrArg List.length shape
        rw [List.length_append, List.length_map, List.length_replicate] at length
        rw [← length]
        match group with
        | [] | [_] | [_, _] | [_, _, _] | [_, _, _, _] => simp
        | a :: b :: c :: d :: next :: rest => exact (long a b c d next rest rfl).elim
      rw [closeGroup_eq_ok bounds last closed, utf8_symbols bounds, shape]

theorem decode_eq_ok_iff {text : List Char} {bytes : List UInt8} :
    decode text = .ok bytes ↔ encode bytes = text := by
  constructor
  · intro read
    rw [decode] at read
    split at read
    · cases read
    · exact utf8_injective (utf8_encode_of_readGroups read)
  · rintro rfl
    exact decode_encode bytes

theorem canonical_iff {text : List Char} : Canonical text ↔ ∃ bytes, encode bytes = text := by
  constructor
  · exact Canonical.exists_encode
  · rintro ⟨bytes, rfl⟩
    exact canonical_encode bytes

end QueryWire.Text.Base64
