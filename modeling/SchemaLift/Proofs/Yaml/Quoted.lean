import Mathlib.Tactic.IntervalCases
import SchemaLift.Json.Printer
import SchemaLift.Yaml.Token.Scalar

/-!
# JSON strings as double quoted scalars

JSON text escapes what stands below the space, and YAML reads these escapes as JSON means them. All
else is written as it is, so a text reads back if YAML takes none of its characters for a line break
(`Text.KeepsLine`). The closing quote is then found where it was written (`Yaml.scanQuoted_quote`).
-/

namespace SchemaLift

/-- The characters that do not end a line. JSON text escapes the other line breaks of YAML. -/
def Text.KeepsLine (char : Char) : Prop :=
  char ∉ ['\x85', '\u2028', '\u2029']

instance (char : Char) : Decidable (Text.KeepsLine char) :=
  inferInstanceAs (Decidable (_ ∉ _))

namespace Yaml

/-! ## Placed characters -/

/-- How many bytes characters take. -/
def byteCount : List Char → Nat
  | [] => 0
  | char :: rest => char.utf8Size + byteCount rest

theorem byteCount_append (left right : List Char) :
    byteCount (left ++ right) = byteCount left + byteCount right := by
  induction left with
  | nil => simp [byteCount]
  | cons char left ih => simp [byteCount, ih, Nat.add_assoc]

/-- The characters that are placed as they are and leave the next one on their line. -/
def IsOrdinary (char : Char) : Prop :=
  char ≠ '\r' ∧ char ≠ '\x85' ∧ isBreak char = false

instance (char : Char) : Decidable (IsOrdinary char) :=
  inferInstanceAs (Decidable (_ ∧ _))

theorem place_cons {char : Char} (ordinary : IsOrdinary char) (index line column : Nat)
    (rest : List Char) :
    place index line column (char :: rest) =
      ⟨char, index, line, column⟩ :: place (index + char.utf8Size) line (column + 1) rest := by
  obtain ⟨noReturn, noNext, noBreak⟩ := ordinary
  rw [place]
  · simp [noBreak]
  · simp [noReturn]
  · simp [noReturn]
  · simp [noNext]

theorem place_break (index line column : Nat) (rest : List Char) :
    place index line column ('\n' :: rest) =
      ⟨'\n', index, line, column⟩ :: place (index + 1) (line + 1) 0 rest := by
  rw [place] <;> simp [isBreak]
  rfl

/-- How many glyphs there are does not depend on where they stand. -/
theorem length_place (chars : List Char) (index line column index' line' column' : Nat) :
    (place index line column chars).length = (place index' line' column' chars).length := by
  induction index, line, column, chars using place.induct generalizing index' line' column' with
  | case1 index line column => rfl
  | case2 index line column rest ih =>
    rw [place, place, List.length_cons, List.length_cons, ih]
  | case3 index line column rest other ih =>
    rw [place, place, List.length_cons, List.length_cons, ih]
    · exact other
    · exact other
  | case4 index line column rest ih =>
    rw [place, place, List.length_cons, List.length_cons, ih]
  | case5 index line column char rest first second third next isBreak ih =>
    rw [place, if_pos isBreak, place, if_pos isBreak, List.length_cons, List.length_cons, ih]
    all_goals assumption
  | case6 index line column char rest first second third next isBreak ih =>
    rw [place, if_neg isBreak, place, if_neg isBreak, List.length_cons, List.length_cons, ih]
    all_goals assumption

theorem length_place_append {left : List Char} (single : ∀ char ∈ left, char ≠ '\r' ∧ char ≠ '\x85')
    (right : List Char) (index line column index' line' column' : Nat) :
    (place index line column (left ++ right)).length =
      left.length + (place index' line' column' right).length := by
  induction left generalizing index line column with
  | nil => simp [length_place right index line column index' line' column']
  | cons char left ih =>
    rw [List.forall_mem_cons] at single
    rw [List.cons_append, place]
    · split
      · rw [List.length_cons, ih single.2, List.length_cons]
        omega
      · rw [List.length_cons, ih single.2, List.length_cons]
        omega
    · simp [single.1.1]
    · simp [single.1.1]
    · simp [single.1.2]

/-- A document starts or ends only at the start of a line. -/
theorem atDocumentBoundary_inside (char : Char) (index line column : Nat) (rest : List Glyph) :
    atDocumentBoundary (⟨char, index, line, column + 1⟩ :: rest) = false := by
  have inside (mark : Char) :
      atDocumentMark mark (⟨char, index, line, column + 1⟩ :: rest) = false := by
    unfold atDocumentMark
    split
    · next same =>
        obtain ⟨rfl, -⟩ := List.cons.inj same
        simp
    · rfl
  rw [atDocumentBoundary, inside, inside]
  rfl

/-! ## Escapes -/

theorem hexValue?_hexDigit (value : Nat) :
    Text.hexValue? (Json.hexDigit value) = some (value % 16) := by
  have small := Nat.mod_lt value (show 16 > 0 by decide)
  rw [Json.hexDigit]
  generalize value % 16 = digit at small
  interval_cases digit <;> rfl

/-- The three forms that a character takes inside quotes. -/
inductive Escaped (char : Char) : List Char → Prop
  | raw (least : 32 ≤ char.toNat) (quote : char ≠ '"') (slash : char ≠ '\\') : Escaped char [char]
  | letter (letter : Char) (inline : isBreak letter = false)
    (short : escapeWidth? letter = none) (means : escaped? letter = some char) :
    Escaped char ['\\', letter]
  | digits (small : char.toNat < 32) :
    Escaped char ['\\', 'u', '0', '0', Json.hexDigit (char.toNat / 16), Json.hexDigit char.toNat]

theorem escaped_escape (char : Char) : Escaped char (Json.escape char) := by
  unfold Json.escape
  split
  · exact .letter '"' rfl rfl rfl
  · exact .letter '\\' rfl rfl rfl
  · exact .letter 'n' rfl rfl rfl
  · exact .letter 'r' rfl rfl rfl
  · exact .letter 't' rfl rfl rfl
  · next quote slash _ _ _ =>
      split
      · next same =>
          obtain rfl : char = '\x08' := Char.toNat_inj.mp same
          exact .letter 'b' rfl rfl rfl
      · split
        · next same =>
            obtain rfl : char = '\x0c' := Char.toNat_inj.mp same
            exact .letter 'f' rfl rfl rfl
        · split
          · next small => exact .digits small
          · next large => exact .raw (Nat.le_of_not_lt large) quote slash

/-! ## Scanning -/

theorem ordinary_slash : IsOrdinary '\\' := by
  decide

theorem ordinary_letter {letter char : Char} (inline : isBreak letter = false)
    (means : escaped? letter = some char) : IsOrdinary letter := by
  refine ⟨?_, ?_, inline⟩
  · rintro rfl
    simp [escaped?] at means
  · rintro rfl
    simp [escaped?] at means

theorem ordinary_hexDigit (value : Nat) : IsOrdinary (Json.hexDigit value) := by
  have small := Nat.mod_lt value (show 16 > 0 by decide)
  rw [Json.hexDigit]
  generalize value % 16 = digit at small
  interval_cases digit <;> decide

theorem ordinary_raw {char : Char} (keeps : Text.KeepsLine char) (least : 32 ≤ char.toNat) :
    IsOrdinary char := by
  simp only [Text.KeepsLine, List.mem_cons, List.not_mem_nil, or_false, not_or] at keeps
  have feed : char ≠ '\n' := by
    rintro rfl
    simp at least
  refine ⟨?_, keeps.1, by simp [isBreak, feed, keeps.2]⟩
  rintro rfl
  simp at least

theorem ordinary_escape {char : Char} (keeps : Text.KeepsLine char) :
    ∀ other ∈ Json.escape char, IsOrdinary other := by
  have form := escaped_escape char
  generalize Json.escape char = escaped at form
  cases form with
  | raw least quote slash => simp [ordinary_raw keeps least]
  | letter letter noBreak short means => simp [ordinary_slash, ordinary_letter noBreak means]
  | digits small =>
    have zero : IsOrdinary '0' := by decide
    have unit : IsOrdinary 'u' := by decide
    simp [ordinary_slash, unit, zero, ordinary_hexDigit]

/-- A quoted text stands on one line. -/
theorem ordinary_quote {text : String} (keeps : ∀ char ∈ text.toList, Text.KeepsLine char) :
    ∀ char ∈ (Json.quote text).toList, IsOrdinary char := by
  have quote : IsOrdinary '"' := by decide
  rw [Json.quote, String.toList_ofList, List.forall_mem_cons, List.forall_mem_append]
  refine ⟨quote, ?_, by simp [quote]⟩
  intro char mem
  obtain ⟨own, ownMem, mem⟩ := List.mem_flatMap.mp mem
  exact ordinary_escape (keeps own ownMem) char mem

section Scanning

variable {text : List Char} {spacing : Spacing} {index line column : Nat} {rest : List Glyph}

/-- What happens to one character between double quotes: no document starts or ends there. -/
theorem scanQuoted_inside (char : Char) :
    scanQuoted false .none text spacing (⟨char, index, line, column + 1⟩ :: rest) =
      if isEnd char then none
      else if isBlank char then scanQuoted false .none text (spacing.addBlank char) rest
      else if isBreak char then scanQuoted false .none text (spacing.addBreak char) rest
      else if char = '"' then some (String.ofList (text.reverse ++ spacing.text), rest)
      else if char = '\\' then
        scanQuoted false .letter (spacing.text.reverse ++ text) .none rest
      else scanQuoted false .none (char :: (spacing.text.reverse ++ text)) .none rest := by
  rw [scanQuoted, atDocumentBoundary_inside]
  simp

theorem scanQuoted_space :
    scanQuoted false .none text spacing (⟨' ', index, line, column + 1⟩ :: rest) =
      scanQuoted false .none text (spacing.addBlank ' ') rest :=
  scanQuoted_inside ' '

theorem scanQuoted_raw {char : Char} (least : 32 < char.toNat) (inline : isBreak char = false)
    (quote : char ≠ '"') (slash : char ≠ '\\') :
    scanQuoted false .none text spacing (⟨char, index, line, column + 1⟩ :: rest) =
      scanQuoted false .none (char :: (spacing.text.reverse ++ text)) .none rest := by
  have seen : isEnd char = false ∧ isBlank char = false := by
    constructor
    · simp only [isEnd, decide_eq_false_iff_not]
      rintro rfl
      simp at least
    · simp only [isBlank, Bool.or_eq_false_iff, decide_eq_false_iff_not]
      constructor
      · rintro rfl
        simp at least
      · rintro rfl
        simp at least
  rw [scanQuoted_inside]
  simp [seen, inline, quote, slash]

theorem scanQuoted_end :
    scanQuoted false .none text spacing (⟨'"', index, line, column + 1⟩ :: rest) =
      some (String.ofList (text.reverse ++ spacing.text), rest) :=
  scanQuoted_inside '"'

theorem scanQuoted_slash :
    scanQuoted false .none text spacing (⟨'\\', index, line, column + 1⟩ :: rest) =
      scanQuoted false .letter (spacing.text.reverse ++ text) .none rest :=
  scanQuoted_inside '\\'

theorem scanQuoted_letter {letter char : Char} (inline : isBreak letter = false)
    (short : escapeWidth? letter = none) (means : escaped? letter = some char) :
    scanQuoted false .letter text spacing (⟨letter, index, line, column⟩ :: rest) =
      scanQuoted false .none (char :: text) .none rest := by
  rw [scanQuoted]
  simp [inline, short, means]

theorem scanQuoted_unit :
    scanQuoted false .letter text spacing (⟨'u', index, line, column⟩ :: rest) =
      scanQuoted false (.digits 4 0) text .none rest :=
  rfl

theorem scanQuoted_digit {missing value digit : Nat} {char : Char}
    (means : Text.hexValue? char = some digit) (small : value * 16 + digit < 0xD800) :
    scanQuoted false (.digits missing value) text spacing (⟨char, index, line, column⟩ :: rest) =
      if 1 < missing then
        scanQuoted false (.digits (missing - 1) (value * 16 + digit)) text .none rest
      else scanQuoted false .none (Char.ofNat (value * 16 + digit) :: text) .none rest := by
  have fits : ¬((0xD800 ≤ value * 16 + digit ∧ value * 16 + digit ≤ 0xDFFF) ∨
      0x10FFFF < value * 16 + digit) := by omega
  rw [scanQuoted]
  simp only [means, if_neg fits]

end Scanning

/-- White space without line breaks. -/
def Spacing.IsInline (spacing : Spacing) : Prop :=
  spacing.hasBreak = false

theorem Spacing.IsInline.addBlank {spacing : Spacing} (inline : spacing.IsInline) :
    (spacing.addBlank ' ').IsInline ∧ (spacing.addBlank ' ').text = spacing.text ++ [' '] := by
  cases spacing with
  | none => exact ⟨rfl, rfl⟩
  | blanks run => exact ⟨rfl, rfl⟩
  | breaks first others => simp [IsInline, hasBreak] at inline

/-- One escaped character is read as itself. -/
theorem scanQuoted_escape {char : Char} (keeps : Text.KeepsLine char) (text : List Char)
    {spacing : Spacing} (inline : spacing.IsInline) (index line column : Nat) (rest : List Char) :
    ∃ text' spacing', Spacing.IsInline spacing' ∧
      text'.reverse ++ spacing'.text = text.reverse ++ spacing.text ++ [char] ∧
      ∃ column', scanQuoted false .none text spacing
          (place index line (column + 1) (Json.escape char ++ rest)) =
        scanQuoted false .none text' spacing'
          (place (index + byteCount (Json.escape char)) line (column' + 1) rest) := by
  have form := escaped_escape char
  generalize Json.escape char = escaped at form
  cases form with
  | raw least quote slash =>
    have ordinary := ordinary_raw keeps least
    rw [List.singleton_append, place_cons ordinary]
    by_cases space : char = ' '
    · subst space
      obtain ⟨still, more⟩ := inline.addBlank
      exact ⟨text, _, still, by rw [more, List.append_assoc], column + 1, scanQuoted_space⟩
    · have above : 32 < char.toNat := by
        have other : char.toNat ≠ ' '.toNat := fun same => space (Char.toNat_inj.mp same)
        have code : ' '.toNat = 32 := rfl
        omega
      exact ⟨_, .none, rfl, by simp [Spacing.text], column + 1,
        scanQuoted_raw above ordinary.2.2 quote slash⟩
  | letter letter noBreak short means =>
    refine ⟨char :: (spacing.text.reverse ++ text), .none, rfl, by simp [Spacing.text],
      column + 2, ?_⟩
    rw [List.cons_append, List.singleton_append, place_cons ordinary_slash, scanQuoted_slash,
      place_cons (ordinary_letter noBreak means), scanQuoted_letter noBreak short means]
    simp only [byteCount, Nat.add_assoc, Nat.add_zero]
  | digits small =>
    refine ⟨char :: (spacing.text.reverse ++ text), .none, rfl, by simp [Spacing.text],
      column + 6, ?_⟩
    have zero : IsOrdinary '0' := by decide
    have unit : IsOrdinary 'u' := by decide
    have nothing : Text.hexValue? '0' = some 0 := rfl
    simp only [List.cons_append, List.nil_append]
    rw [place_cons ordinary_slash, scanQuoted_slash, place_cons unit, scanQuoted_unit,
      place_cons zero, scanQuoted_digit nothing (by decide), if_pos (by decide),
      place_cons zero, scanQuoted_digit nothing (by decide), if_pos (by decide),
      place_cons (ordinary_hexDigit _), scanQuoted_digit (hexValue?_hexDigit _) (by omega),
      if_pos (by decide),
      place_cons (ordinary_hexDigit _), scanQuoted_digit (hexValue?_hexDigit _) (by omega),
      if_neg (by decide)]
    have code : (((0 * 16 + 0) * 16 + 0) * 16 + char.toNat / 16 % 16) * 16 + char.toNat % 16 =
        char.toNat := by omega
    rw [code, Char.ofNat_toNat]
    simp only [byteCount, Nat.add_assoc, Nat.add_zero]

/-- The text between quotes is read up to the closing one. -/
theorem scanQuoted_escapes {chars : List Char} (keeps : ∀ char ∈ chars, Text.KeepsLine char)
    (text : List Char) (spacing : Spacing) (inline : spacing.IsInline) (index line column : Nat)
    (rest : List Char) :
    ∃ column', scanQuoted false .none text spacing
        (place index line (column + 1) (chars.flatMap Json.escape ++ '"' :: rest)) =
      some (String.ofList (text.reverse ++ spacing.text ++ chars),
        place (index + byteCount (chars.flatMap Json.escape ++ ['"'])) line column' rest) := by
  induction chars generalizing text spacing index column with
  | nil =>
    have quote : IsOrdinary '"' := by decide
    refine ⟨column + 2, ?_⟩
    rw [List.flatMap_nil, List.nil_append, List.nil_append, List.append_nil, place_cons quote,
      scanQuoted_end]
    rfl
  | cons char chars ih =>
    rw [List.forall_mem_cons] at keeps
    obtain ⟨text', spacing', inline', same, column', step⟩ := scanQuoted_escape keeps.1 text
      inline index line column (chars.flatMap Json.escape ++ '"' :: rest)
    obtain ⟨column'', read⟩ := ih keeps.2 text' spacing' inline'
      (index + byteCount (Json.escape char)) column'
    refine ⟨column'', ?_⟩
    rw [List.flatMap_cons, List.append_assoc, step, read, same, List.append_assoc _ [char],
      List.singleton_append, List.append_assoc (Json.escape char), byteCount_append (Json.escape char), Nat.add_assoc]

/-- A quoted text is read as the text. -/
theorem scanQuoted_quote {text : String} (keeps : ∀ char ∈ text.toList, Text.KeepsLine char)
    (index line column : Nat) (rest : List Char) :
    ∃ glyphs column', place index line column ((Json.quote text).toList ++ rest) =
        ⟨'"', index, line, column⟩ :: glyphs ∧
      scanQuoted false .none [] .none glyphs =
        some (text, place (index + byteCount (Json.quote text).toList) line column' rest) := by
  have quote : IsOrdinary '"' := by decide
  obtain ⟨column', read⟩ := scanQuoted_escapes keeps [] .none rfl
    (index + '"'.utf8Size) line column rest
  have glyphs : place index line column ((Json.quote text).toList ++ rest) =
      ⟨'"', index, line, column⟩ :: place (index + '"'.utf8Size) line (column + 1)
        (text.toList.flatMap Json.escape ++ '"' :: rest) := by
    rw [Json.quote, String.toList_ofList, List.cons_append, place_cons quote, List.append_assoc,
      List.singleton_append]
  refine ⟨_, column', glyphs, ?_⟩
  rw [read, Json.quote, String.toList_ofList]
  simp only [byteCount, Nat.add_assoc, List.reverse_nil, Spacing.text, List.nil_append,
    String.ofList_toList]

end Yaml

end SchemaLift
