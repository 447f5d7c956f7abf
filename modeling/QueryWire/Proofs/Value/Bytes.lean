import QueryWire.Proofs.Value.Tagged

namespace QueryWire.Value

theorem readBytes_eq_ok_iff {text : String} {value : Value} :
    readBytes text = .ok value ↔
      ∃ content, value = .bytes content ∧ Text.Base64.encode content = text.toList := by
  simp only [readBytes, ← Text.Base64.decode_eq_ok_iff]
  cases Text.Base64.decode text.toList with
  | error fault => exact ⟨nofun, nofun⟩
  | ok found =>
      constructor
      · rintro ⟨⟩
        exact ⟨found, rfl, rfl⟩
      · rintro ⟨_, rfl, ⟨⟩⟩
        rfl

theorem exists_readBytes_iff {text : String} :
    (∃ value, readBytes text = .ok value) ↔
      ∃ content, Text.Base64.encode content = text.toList := by
  simp only [readBytes_eq_ok_iff]
  exact ⟨fun ⟨_, content, _, same⟩ => ⟨content, same⟩,
    fun ⟨content, same⟩ => ⟨_, content, rfl, same⟩⟩

theorem sentAs_bytes_iff {content : List UInt8} {text : String} :
    (bytes content).SentAs "@bytes" text ↔ Text.Base64.encode content = text.toList := by
  constructor
  · intro sent
    rw [sent.unique (sentAs_bytes content), String.toList_ofList]
  · intro same
    rw [← String.ofList_toList (s := text), ← same]
    exact sentAs_bytes content

/-- Writing and reading bytes undo each other, both on all that can be written and on all
that can be read, and what can be read is the canonical texts. -/
theorem bytes_correspond_to_texts :
    (∀ content, ∃ text, (bytes content).SentAs "@bytes" text ∧
      readBytes text = .ok (.bytes content)) ∧
    (∀ text value, readBytes text = .ok value → value.SentAs "@bytes" text) ∧
    (∀ text, (∃ value, readBytes text = .ok value) ↔
      ∃ content, (bytes content).SentAs "@bytes" text) ∧
    (∀ text : String, (∃ value, readBytes text = .ok value) ↔
      Text.Base64.Canonical text.toList) ∧
    ∀ text other value, readBytes text = .ok value → readBytes other = .ok value →
      text = other := by
  refine ⟨fun content => ?_, fun text value read => ?_, fun text => ?_, fun text => ?_,
    fun text other value read read' => ?_⟩
  · exact ⟨_, sentAs_bytes content,
      readBytes_eq_ok_iff.mpr ⟨content, rfl, String.toList_ofList.symm⟩⟩
  · obtain ⟨content, rfl, same⟩ := readBytes_eq_ok_iff.mp read
    exact sentAs_bytes_iff.mpr same
  · simp only [exists_readBytes_iff, sentAs_bytes_iff]
  · rw [exists_readBytes_iff, Text.Base64.canonical_iff]
  · obtain ⟨content, rfl, same⟩ := readBytes_eq_ok_iff.mp read
    obtain ⟨_, ⟨⟩, same'⟩ := readBytes_eq_ok_iff.mp read'
    exact String.toList_inj.mp (same.symm.trans same')

theorem bytes_correspond_to_texts_urlSafe :
    readBytes "-_8=" = .ok (.bytes [0xFB, 0xFF]) ∧
      (bytes [0xFB, 0xFF]).SentAs "@bytes" "-_8=" ∧
      Text.Base64.Canonical "-_8=".toList ∧
      ∀ other, readBytes other = .ok (.bytes [0xFB, 0xFF]) → "-_8=" = other := by
  obtain ⟨-, sends, -, canonical, unique⟩ := bytes_correspond_to_texts
  have read : readBytes "-_8=" = .ok (.bytes [0xFB, 0xFF]) := by rfl
  exact ⟨read, sends _ _ read, (canonical _).mp ⟨_, read⟩, fun other => unique _ other _ read⟩

end QueryWire.Value
