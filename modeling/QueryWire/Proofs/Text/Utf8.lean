import Mathlib.Data.String.Basic
import QueryWire.Text.Utf8

namespace QueryWire.Text

/-- The first byte tells how many follow, and a longer form has a greater one. -/
theorem utf8EncodeChar_append_lt {c d : Char} (below : c < d) (behind behind' : List UInt8) :
    String.utf8EncodeChar c ++ behind < String.utf8EncodeChar d ++ behind' := by
  have below : c.val.toNat < d.val.toNat := below
  have bound : d.val.toNat < 0x110000 := by
    have valid := d.valid
    simp only [UInt32.isValidChar, Nat.isValidChar] at valid
    omega
  simp only [String.utf8EncodeChar]
  split_ifs <;>
    simp only [List.cons_append, List.nil_append, List.cons_lt_cons_iff, UInt8.lt_iff_toNat_lt,
      ← UInt8.toNat_inj, UInt8.toNat_ofNat'] <;> simp (disch := omega) only [Nat.mod_eq_of_lt] <;>
    omega

theorem utf8_lt_of_lt {text other : List Char} (below : text < other) :
    utf8 text < utf8 other := by
  induction below with
  | @nil c rest =>
      obtain ⟨first, more, form⟩ : ∃ first more, utf8 (c :: rest) = first :: more :=
        List.exists_cons_of_ne_nil (by simp [utf8])
      rw [form]
      exact List.nil_lt_cons first more
  | rel first => exact utf8EncodeChar_append_lt first _ _
  | cons _ ih => exact List.append_left_lt ih

/-- Lists of code points and the lists of their bytes are in the same order. -/
theorem utf8_lt_iff {text other : List Char} : utf8 text < utf8 other ↔ text < other := by
  refine ⟨fun below => ?_, utf8_lt_of_lt⟩
  rcases lt_trichotomy text other with less | rfl | greater
  · exact less
  · exact absurd below (List.lt_irrefl _)
  · exact absurd below (List.lt_asymm (utf8_lt_of_lt greater))

theorem utf8_injective : Function.Injective utf8 := by
  intro text other same
  rcases lt_trichotomy text other with less | equal | greater
  · exact absurd (same ▸ utf8_lt_of_lt less) (List.lt_irrefl _)
  · exact equal
  · exact absurd (same ▸ utf8_lt_of_lt greater) (List.lt_irrefl _)

end QueryWire.Text
