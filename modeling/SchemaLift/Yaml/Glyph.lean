/-!
# Placed characters

A YAML text as a list of characters that know where they stand. The different line breaks become
one, and the list ends with a NUL that marks the end of the text; a NUL cannot stand inside, since
only printable characters are allowed.
-/

namespace SchemaLift.Yaml

/-- A character with its place, from zero. -/
structure Glyph where
  char : Char
  /-- How many bytes the text takes in front of it. -/
  index : Nat
  line : Nat
  /-- How many characters stand in front of it on its line. -/
  column : Nat
deriving DecidableEq, Repr

/-- The byte order mark. -/
def byteOrderMark : Char := '\ufeff'

/-- The characters that may stand in a YAML text. -/
def isAllowed (char : Char) : Bool :=
  let code := char.toNat
  code = 0x09 || code = 0x0A || code = 0x0D || (0x20 ≤ code && code ≤ 0x7E) || code = 0x85 ||
    (0xA0 ≤ code && code ≤ 0xD7FF) || (0xE000 ≤ code && code ≤ 0xFFFD) || 0x10000 ≤ code

/-- A line break, after the breaks that read as a line feed have become one. -/
def isBreak (char : Char) : Bool :=
  char = '\n' || char = '\u2028' || char = '\u2029'

/-- A space or a tab. -/
def isBlank (char : Char) : Bool :=
  char = ' ' || char = '\t'

/-- The mark at the end of the text. -/
def isEnd (char : Char) : Bool :=
  char = '\x00'

/-- A line break or the end of the text. -/
def isBreakOrEnd (char : Char) : Bool :=
  isBreak char || isEnd char

/-- White space, a line break or the end of the text. -/
def isGap (char : Char) : Bool :=
  isBlank char || isBreakOrEnd char

/-- Place characters from an index, a line and a column on. -/
def place (index line column : Nat) : List Char → List Glyph
  | [] => [⟨'\x00', index, line, column⟩]
  | '\r' :: '\n' :: rest => ⟨'\n', index, line, column⟩ :: place (index + 2) (line + 1) 0 rest
  | '\r' :: rest => ⟨'\n', index, line, column⟩ :: place (index + 1) (line + 1) 0 rest
  | '\x85' :: rest => ⟨'\n', index, line, column⟩ :: place (index + 2) (line + 1) 0 rest
  | char :: rest =>
    let next := index + char.utf8Size
    if isBreak char then ⟨char, index, line, column⟩ :: place next (line + 1) 0 rest
    else ⟨char, index, line, column⟩ :: place next line (column + 1) rest

/-- The placed characters of a text, or none when it holds a character that may not stand in it. -/
def glyphs? (text : String) : Option (List Glyph) :=
  if text.toList.all isAllowed then some (place 0 0 0 text.toList) else none

/-- The character at the head, or the end mark. -/
def headChar : List Glyph → Char
  | [] => '\x00'
  | glyph :: _ => glyph.char

/-- The characters of a run of glyphs. -/
def chars (run : List Glyph) : List Char :=
  run.map Glyph.char

/-- Whether a line starts here with three of the same mark, alone or before white space: the start
(`---`) or the end (`...`) of a document. -/
def atDocumentMark (mark : Char) : List Glyph → Bool
  | first :: second :: third :: rest =>
    first.column = 0 && first.char = mark && second.char = mark && third.char = mark &&
      isGap (headChar rest)
  | _ => false

/-- Whether a document starts or ends here. -/
def atDocumentBoundary (input : List Glyph) : Bool :=
  atDocumentMark '-' input || atDocumentMark '.' input

/-- Letters, digits, `_` and `-`: the characters of anchors and tag handles. -/
def isWordChar (char : Char) : Bool :=
  char.isAlphanum || char = '_' || char = '-'

end SchemaLift.Yaml
