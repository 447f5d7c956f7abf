import QueryWire.Proofs.Expr.Document
import QueryWire.Proofs.Json.Scan
import QueryWire.Request

namespace QueryWire.Request

theorem read_body (layout : Layout) (expr : Expr) :
    Json.Reader.read (prepare layout expr).body = some expr.tokens :=
  Json.Reader.read_eq_some_iff.mpr (Expr.isText_render layout expr)

/-- Deleting the spaces and newlines outside the strings of a pretty text leaves the
compact text, which has none of them; so both bodies are read as one tree. -/
theorem bodies_differ_in_blanks (expr : Expr) :
    Json.stripped expr.pretty = expr.compact ∧
      (∀ before c after, expr.compact.toList = before ++ c :: after →
        Json.Scan.outside.run before = .outside → c ≠ ' ' ∧ c ≠ '\n') ∧
      Json.stripped (prepare .pretty expr).body = (prepare .compact expr).body ∧
      ∃ tree, ∀ layout, Json.Reader.read (prepare layout expr).body = some tree := by
  have strips (layout : Layout) : Json.stripped (expr.render layout) = expr.compact :=
    Json.stripped_write layout expr.wire
  have kept : Json.Scan.outside.strip expr.compact.toList = expr.compact.toList := by
    have same := congrArg String.toList (strips .compact)
    rwa [Json.stripped, String.toList_ofList] at same
  refine ⟨strips .pretty, fun before c after split stands => ?_, strips .pretty,
    expr.tokens, fun layout => read_body layout expr⟩
  rw [split] at kept
  exact not_or.mp fun blank => Json.Scan.not_deletes_of_kept kept ⟨stands, blank⟩

/-- What is no number is written as `null`, in the document as well. -/
example : (prepare .compact (.array [.literal (.double ⟨0x7FF8000000000000⟩)])).body =
    "[null]" := by decide

end QueryWire.Request
