import SchemaLift.Proofs.Number.Text
import SchemaLift.Proofs.Yaml.Quoted

/-!
# JSON words and numbers as plain scalars

Between brackets a plain scalar ends at the next comma or closing bracket, and the white space in
front of that is not part of it (`Yaml.scanPlain_word`).
-/

namespace SchemaLift.Yaml

/-- The white space of indented JSON text. -/
def IsWhite (gap : List Char) : Prop :=
  ∀ char ∈ gap, char = ' ' ∨ char = '\n'

/-- The characters of JSON words and numbers. -/
def isPlainChar (char : Char) : Bool :=
  char.isAlphanum || char = '-' || char = '+' || char = '.'

/-- The marks that follow a value in JSON text. -/
def EndsValue (mark : Char) : Prop :=
  mark = ',' ∨ mark = ']' ∨ mark = '\x7d'

theorem ne_of_isPlainChar {char : Char} (plain : isPlainChar char = true) (other : Char)
    (foreign : isPlainChar other = false) : char ≠ other := by
  rintro rfl
  simp [plain] at foreign

theorem ordinary_plain {char : Char} (plain : isPlainChar char = true) : IsOrdinary char := by
  have ne := ne_of_isPlainChar plain
  refine ⟨ne _ (by decide), ne _ (by decide), ?_⟩
  simp [isBreak, ne '\n' (by decide), ne '\u2028' (by decide),
    ne '\u2029' (by decide)]

theorem EndsValue.ordinary {mark : Char} (ends : EndsValue mark) : IsOrdinary mark := by
  rcases ends with rfl | rfl | rfl <;> decide

theorem atDocumentBoundary_other {char : Char} (noDash : char ≠ '-') (noPoint : char ≠ '.')
    (index line column : Nat) (rest : List Glyph) :
    atDocumentBoundary (⟨char, index, line, column⟩ :: rest) = false := by
  have other {mark : Char} (ne : char ≠ mark) :
      atDocumentMark mark (⟨char, index, line, column⟩ :: rest) = false := by
    unfold atDocumentMark
    split
    · next same =>
        obtain ⟨rfl, -⟩ := List.cons.inj same
        simp [ne]
    · rfl
  rw [atDocumentBoundary, other noDash, other noPoint]
  rfl

section Scanning

variable (indentation : Int) (text : List Char) (spacing : Spacing) (index line column : Nat)

theorem scanPlain_char {char : Char} (plain : isPlainChar char = true) (rest : List Glyph) :
    scanPlain true indentation text .none (⟨char, index, line, column⟩ :: rest) =
      scanPlain true indentation (char :: text) .none rest := by
  have ne := ne_of_isPlainChar plain
  have blank : isBlank char = false := by
    simp [isBlank, ne ' ' (by decide), ne '\t' (by decide)]
  have last : isEnd char = false := by
    simp [isEnd, ne '\x00' (by decide)]
  have mark : isFlowMark char = false := by
    simp [isFlowMark, ne ',' (by decide), ne '[' (by decide),
      ne ']' (by decide), ne '\x7b' (by decide),
      ne '\x7d' (by decide)]
  rw [scanPlain]
  simp [blank, (ordinary_plain plain).2.2, last, mark, ne ':' (by decide),
    Spacing.isSome, Spacing.text]

theorem scanPlain_chars {word : List Char} (plain : ∀ char ∈ word, isPlainChar char = true)
    (rest : List Char) :
    ∃ index' column', scanPlain true indentation text .none
        (place index line column (word ++ rest)) =
      scanPlain true indentation (word.reverse ++ text) .none
        (place index' line column' rest) := by
  induction word generalizing text index column with
  | nil => exact ⟨index, column, rfl⟩
  | cons char word ih =>
    rw [List.forall_mem_cons] at plain
    obtain ⟨index', column', read⟩ :=
      ih (char :: text) (index + char.utf8Size) (column + 1) plain.2
    refine ⟨index', column', ?_⟩
    rw [List.cons_append, place_cons (ordinary_plain plain.1), scanPlain_char _ _ _ _ _ plain.1, read,
      List.reverse_cons, List.append_assoc, List.singleton_append]

theorem scanPlain_mark {mark : Char} (ends : EndsValue mark) (rest : List Glyph) :
    scanPlain true indentation text spacing (⟨mark, index, line, column⟩ :: rest) =
      some (String.ofList text.reverse, spacing.hasBreak, ⟨mark, index, line, column⟩ :: rest) := by
  have boundary : atDocumentBoundary (⟨mark, index, line, column⟩ :: rest) = false := by
    apply atDocumentBoundary_other
    · rcases ends with rfl | rfl | rfl <;> decide
    · rcases ends with rfl | rfl | rfl <;> decide
  rw [scanPlain, boundary]
  rcases ends with rfl | rfl | rfl <;>
    simp [isBlank, isBreak, isEnd, isFlowMark]

theorem scanPlain_gap {gap : List Char} (white : IsWhite gap) {mark : Char}
    (ends : EndsValue mark) (rest : List Char) :
    ∃ hasBreak index' line' column', scanPlain true indentation text spacing
        (place index line column (gap ++ mark :: rest)) =
      some (String.ofList text.reverse, hasBreak, place index' line' column' (mark :: rest)) := by
  induction gap generalizing spacing index line column with
  | nil =>
    refine ⟨spacing.hasBreak, index, line, column, ?_⟩
    rw [List.nil_append, place_cons ends.ordinary, scanPlain_mark _ _ _ _ _ _ ends]
  | cons char gap ih =>
    rcases List.forall_mem_cons.mp white with ⟨rfl | rfl, others⟩
    · obtain ⟨hasBreak, index', line', column', read⟩ := 
        ih (spacing.addBlank ' ') (index + ' '.utf8Size) line (column + 1) others
      refine ⟨hasBreak, index', line', column', ?_⟩
      rw [List.cons_append, place_cons (by decide), scanPlain]
      simp [isBlank, read]
    · obtain ⟨hasBreak, index', line', column', read⟩ := 
        ih (spacing.addBreak '\n') (index + 1) (line + 1) 0 others
      refine ⟨hasBreak, index', line', column', ?_⟩
      rw [List.cons_append, place_break, scanPlain]
      simp [isBlank, isBreak, read]

/-- A word or a number is read up to the mark behind it, with the white space between them. -/
theorem scanPlain_word {word gap : List Char} (plain : ∀ char ∈ word, isPlainChar char = true)
    (white : IsWhite gap) {mark : Char} (ends : EndsValue mark) (rest : List Char) :
    ∃ hasBreak index' line' column', scanPlain true indentation [] .none
        (place index line column (word ++ (gap ++ mark :: rest))) =
      some (String.ofList word, hasBreak, place index' line' column' (mark :: rest)) := by
  obtain ⟨index', column', chars⟩ :=
    scanPlain_chars indentation [] index line column plain (gap ++ mark :: rest)
  obtain ⟨hasBreak, index'', line'', column'', read⟩ :=
    scanPlain_gap indentation (word.reverse ++ []) .none index' line column' white ends rest
  refine ⟨hasBreak, index'', line'', column'', ?_⟩
  rw [chars, read, List.append_nil, List.reverse_reverse]

end Scanning

end SchemaLift.Yaml
