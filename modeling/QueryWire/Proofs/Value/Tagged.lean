import QueryWire.Expr.Wire
import QueryWire.Proofs.Calendar.Rfc3339
import QueryWire.Proofs.Json.RoundTrip
import QueryWire.Proofs.Text.Base64.Canonical

namespace QueryWire

namespace Json

theorem escaped_of_solid {c : Char} (solid : 0x20 ≤ c.toNat) (notQuote : c ≠ '"')
    (notBackslash : c ≠ '\\') : escaped c = [c] := by
  have visible {control : Char} (below : control.toNat < 0x20) : c ≠ control := by
    rintro rfl
    omega
  rw [escaped, if_neg notQuote, if_neg notBackslash, if_neg (visible (by decide)),
    if_neg (visible (by decide)), if_neg (visible (by decide)), if_neg (visible (by decide)),
    if_neg (visible (by decide)), if_neg (by omega)]

theorem escaped_of_isDigit {c : Char} (isDigit : c.isDigit = true) : escaped c = [c] := by
  have bounds : 48 ≤ c.toNat ∧ c.toNat ≤ 57 := Char.isDigit_iff_toNat.mp isDigit
  refine escaped_of_solid (by omega) ?_ ?_
  · rintro rfl
    cases isDigit
  · rintro rfl
    cases isDigit

theorem quoted_of_unescaped {text : List Char} (plain : ∀ c ∈ text, escaped c = [c]) :
    quoted (String.ofList text) = '"' :: text ++ ['"'] := by
  have same : text.flatMap escaped = text := by
    induction text with
    | nil => rfl
    | cons c text ih =>
        rw [List.flatMap_cons, plain c List.mem_cons_self,
          ih fun c member => plain c (List.mem_cons_of_mem _ member), List.singleton_append]
  rw [quoted, String.toList_ofList, same]

end Json

namespace Value

/-- What is sent for the value is the text under the tag, in an object of its own. -/
def SentAs (value : Value) (tag text : String) : Prop :=
  (Expr.literal value).compact = "\x7b\"" ++ tag ++ "\":\"" ++ text ++ "\"\x7d"

theorem SentAs.unique {value : Value} {tag text other : String} (sent : value.SentAs tag text)
    (sent' : value.SentAs tag other) : text = other := by
  have same := Eq.trans (Eq.symm sent) sent'
  exact String.append_right_inj _ |>.mp (String.append_left_inj _ |>.mp same)

theorem compact_of_tagged {value : Value} {tag : String} {text : List Char}
    (tagged : value.wire = tagged tag text) :
    (Expr.literal value).compact =
      String.ofList ('\x7b' :: (Json.quoted tag ++
        ':' :: (Json.quoted (String.ofList text) ++ ['\x7d']))) := by
  have tree : (Value.tagged tag text).mapNumbers Number.token =
      .object [(tag, .string (String.ofList text))] := rfl
  rw [Expr.compact, Expr.render, Expr.wire, tagged, Json.write, tree, Json.render,
    Json.text_object_cons, Json.text]
  rfl

theorem sentAs_of_unescaped {value : Value} (tag : List Char) {text : List Char}
    (tagged : value.wire = tagged (String.ofList tag) text)
    (plainTag : ∀ c ∈ tag, Json.escaped c = [c]) (plain : ∀ c ∈ text, Json.escaped c = [c]) :
    value.SentAs (String.ofList tag) (String.ofList text) := by
  apply String.toList_inj.mp
  rw [compact_of_tagged tagged, Json.quoted_of_unescaped plainTag, Json.quoted_of_unescaped plain]
  simp only [String.toList_ofList, String.toList_append, List.cons_append, List.append_assoc,
    List.nil_append]
  rfl

theorem sentAs_time (moment : Calendar.Timestamp) :
    (time moment).SentAs "@ts" (String.ofList moment.text) := by
  refine sentAs_of_unescaped ['@', 't', 's'] rfl (by simp [Json.escaped]) fun c member => ?_
  rcases Calendar.Timestamp.mem_text member with digit | mark
  · exact Json.escaped_of_isDigit digit
  · have each : ∀ mark ∈ ['-', '+', 'T', ':', '.', 'Z'], Json.escaped mark = [mark] := by
      simp [Json.escaped]
    exact each c mark

theorem sentAs_date (day : Calendar.Date) :
    (date day).SentAs "@date" (String.ofList day.text) := by
  refine sentAs_of_unescaped ['@', 'd', 'a', 't', 'e'] rfl (by simp [Json.escaped]) fun c member => ?_
  rcases Calendar.Date.mem_text member with digit | mark
  · exact Json.escaped_of_isDigit digit
  · have each : ∀ mark ∈ ['-', '+'], Json.escaped mark = [mark] := by simp [Json.escaped]
    exact each c mark

theorem sentAs_bytes (content : List UInt8) :
    (bytes content).SentAs "@bytes" (String.ofList (Text.Base64.encode content)) := by
  refine sentAs_of_unescaped ['@', 'b', 'y', 't', 'e', 's'] rfl (by simp [Json.escaped]) fun c member => ?_
  rcases Text.Base64.mem_encode member with known | rfl
  · obtain ⟨bits, bound, rfl⟩ := Text.Base64.exists_symbolOf known
    have each : ∀ bits < 64, Json.escaped (Text.Base64.symbolOf bits) =
        [Text.Base64.symbolOf bits] := by decide
    exact each bits bound
  · rfl

end Value

end QueryWire
