import SchemaLift.Proofs.Document.Proper
import SchemaLift.Proofs.Yaml.Nodes

/-!
# Documents as JSON text

A document that is written as JSON is read again with a YAML reader. JSON text leaves all characters
from the space on as they are, and YAML takes some of them for line breaks and allows others only
escaped. Apart from line breaks and from keys that are too long, what is read is the value that was
written, or nothing (`Document.ofText_render_json`). So a document that is read from a text reads
back if and only if YAML allows the characters of its texts and its value does not nest too deep
(`Document.reads_back_iff`).
-/

namespace SchemaLift

namespace Document

variable {text : String} {document back : Document}

/-- What is read from the JSON text of a document: what is read from its value, unless a text in it
holds a character that YAML does not allow or it nests too deep. -/
theorem ofText_render_json (read : ofText text = .ok document)
    (inline : ∀ inner ∈ document.toJson.within, inner.HasInlineTexts) :
    ofText (document.render .json) =
      if (∀ inner ∈ document.toJson.within, inner.HasAllowedTexts) ∧
          document.toJson.depth ≤ Yaml.deepest then
        ofJson document.toJson
      else .error .malformed := by
  have proper := proper_of_ofText read
  obtain ⟨members, written⟩ : ∃ members, document.toJson = .object members := ⟨_, rfl⟩
  rw [ofText, render]
  rw [written] at proper inline ⊢
  split_ifs with agrees
  · rw [Yaml.toJson?_pretty proper inline agrees.1 agrees.2]
  · rw [Yaml.toJson?_pretty_eq_none inline agrees]

/-- Let a document that is read from a text be what its value is read as, and let no text in the
value hold a line break of YAML and no key be too long for it. Then its JSON text reads back as the
document if and only if YAML allows all characters in it, as they are or as JSON escapes them, and
its arrays and objects nest at most as deep as YAML allows. -/
theorem reads_back_iff (read : ofText text = .ok document)
    (again : ofJson document.toJson = .ok back) (same : (back == document) = true)
    (inline : ∀ inner ∈ document.toJson.within, inner.HasInlineTexts) :
    (∃ reread, ofText (document.render .json) = .ok reread ∧ (reread == document) = true) ↔
      (∀ inner ∈ document.toJson.within, inner.HasAllowedTexts) ∧
        document.toJson.depth ≤ Yaml.deepest := by
  rw [ofText_render_json read inline, again]
  constructor
  · rintro ⟨reread, found, -⟩
    by_contra refused
    rw [if_neg refused] at found
    cases found
  · intro agrees
    rw [if_pos agrees]
    exact ⟨back, rfl, same⟩

end Document

/-! ## Titles that are read back, and one that is not -/

namespace Titled

/-- A document with a title, given as it is written in JSON. -/
def text (title : String) : String :=
  "\x7b\"openapi\":\"3.0.1\",\"info\":\x7b\"title\":\"" ++ title ++ "\",\"x-rate\":2.5e-7\x7d\x7d"

/-- A title with escapes and with a letter that takes two bytes. -/
def plain : String :=
  "Gr\u00f6\u00dfe \\\"A\\\"\\tund\\n\\\\ mehr"

/-- A title with a delete character. -/
def deleting : String :=
  "a\\u007fb"

/-- A title with a line break that JSON does not escape. -/
def broken : String :=
  "a\\u0085b"

/-- Something that holds of a document that is read, and that is what its value is read as. -/
def reads (title : String) (holds : Document → Bool) : Bool :=
  (Document.ofText (text title)).toOption.any fun document =>
    (Document.ofJson document.toJson).toOption.any (· == document) && holds document

theorem exists_of_reads {title : String} {holds : Document → Bool}
    (read : reads title holds = true) :
    ∃ document back, Document.ofText (text title) = .ok document ∧
      Document.ofJson document.toJson = .ok back ∧ (back == document) = true ∧
      holds document = true := by
  obtain ⟨document, own, evaluated⟩ := any_toOption_iff.mp read
  rw [Bool.and_eq_true] at evaluated
  obtain ⟨back, again, same⟩ := any_toOption_iff.mp evaluated.1
  exact ⟨document, back, own, again, same, evaluated.2⟩

end Titled

open Titled in
/-- The title with escapes is read back. -/
theorem plain_reads_back :
    ∃ document back, Document.ofText (text plain) = .ok document ∧
      Document.ofJson document.toJson = .ok back ∧ (back == document) = true ∧
      (∀ inner ∈ document.toJson.within, inner.HasInlineTexts) ∧
      ∃ reread, Document.ofText (document.render .json) = .ok reread ∧
        (reread == document) = true := by
  have evaluated : reads plain (fun document =>
      decide (∀ inner ∈ document.toJson.within, inner.HasInlineTexts) &&
        (decide (∀ inner ∈ document.toJson.within, inner.HasAllowedTexts) &&
          decide (document.toJson.depth ≤ Yaml.deepest))) = true := by
    decide +kernel
  obtain ⟨document, back, read, again, same, evaluated⟩ := exists_of_reads evaluated
  simp only [Bool.and_eq_true, decide_eq_true_eq] at evaluated
  obtain ⟨inline, agrees⟩ := evaluated
  exact ⟨document, back, read, again, same, inline,
    (Document.reads_back_iff read again same inline).mpr agrees⟩

open Titled in
/-- The delete character is written as it is, and what is written is refused. -/
theorem deleting_refused :
    ∃ document back, Document.ofText (text deleting) = .ok document ∧
      Document.ofJson document.toJson = .ok back ∧ (back == document) = true ∧
      Document.ofText (document.render .json) = .error .malformed := by
  have evaluated : reads deleting (fun document =>
      decide (∀ inner ∈ document.toJson.within, inner.HasInlineTexts) &&
        !decide (∀ inner ∈ document.toJson.within, inner.HasAllowedTexts)) = true := by
    decide +kernel
  obtain ⟨document, back, read, again, same, evaluated⟩ := exists_of_reads evaluated
  simp only [Bool.and_eq_true, Bool.not_eq_true', decide_eq_true_eq, decide_eq_false_iff_not]
    at evaluated
  refine ⟨document, back, read, again, same, ?_⟩
  rw [Document.ofText_render_json read evaluated.1, if_neg fun agrees => evaluated.2 agrees.1]

open Titled in
/-- The line break is written as it is too, and another document is read. -/
theorem broken_changed :
    ∃ document back reread, Document.ofText (text broken) = .ok document ∧
      Document.ofJson document.toJson = .ok back ∧ (back == document) = true ∧
      Document.ofText (document.render .json) = .ok reread ∧ (reread == document) = false := by
  have evaluated : reads broken (fun document =>
      (Document.ofText (document.render .json)).toOption.any fun reread =>
        !(reread == document)) = true := by
    decide +kernel
  obtain ⟨document, back, read, again, same, evaluated⟩ := exists_of_reads evaluated
  obtain ⟨reread, found, differs⟩ := any_toOption_iff.mp evaluated
  exact ⟨document, back, reread, read, again, same, found, by simpa using differs⟩

end SchemaLift
