import SchemaLift.Json.Basic
import SchemaLift.Number.Shortest
import SchemaLift.Yaml.Glyph
import SchemaLift.Yaml.Scalar

/-!
# Writing YAML

JSON values in block style: one member or element a line, two columns for each level, the dashes of
a sequence at the column of the key above it. Empty collections are written in brackets.

A text is written plain when it reads back as itself. Otherwise it is quoted: singly as long as
that can express it, and doubly with escapes if not. A text with line feeds is a literal block where
a block may stand and can express it.
-/

namespace SchemaLift.Yaml

/-- Numbers are written out from `0.00001` up to sixteen digits before the point, and with an
exponent elsewhere; a plus sign is not shown. -/
def layout : Binary64.Layout :=
  ⟨-4, 16, false⟩

/-- The text of a number. -/
def numberText : Number → String
  | .integer value => toString value
  | .binary64 value => value.render layout

/-! ## What a text allows -/

/-- The characters that end a line when they are written. -/
def endsLine (char : Char) : Bool :=
  char = '\n' || char = '\r' || char = '\x85' || char = '\u2028' || char = '\u2029'

/-- The characters that can be written as they are. -/
def isPrintable (char : Char) : Bool :=
  let code := char.toNat
  code = 0x0A || (0x20 ≤ code && code ≤ 0x7E) || (0xA0 ≤ code && code ≤ 0xD7FF) ||
    (0xE000 ≤ code && code ≤ 0xFFFD && code ≠ 0xFEFF) || 0x10000 ≤ code

/-- White space or the end of a text, in front of or behind a mark. -/
def isApart (char : Char) : Bool :=
  isBlank char || endsLine char || isEnd char

/-- Whether a mark in first place could be taken for the start of something else. -/
def startsOtherwise (char : Char) (next : Option Char) : Bool :=
  "#,[]\x7b\x7d&*!|>'\"%@`".toList.contains char ||
    ((char = '?' || char = ':' || char = '-') && next.all isApart)

/-- Whether a mark in a later place could end a plain scalar. -/
def endsPlain (previous char : Char) (next : Option Char) : Bool :=
  (char = ':' && next.all isApart) || (char = '#' && isApart previous)

/-- Whether some mark behind the first place could end a plain scalar. -/
def hasEndingMark : List Char → Bool
  | previous :: char :: rest => endsPlain previous char rest.head? || hasEndingMark (char :: rest)
  | _ => false

/-- Whether a text could be taken for something else than a plain scalar. -/
def hasIndicators (chars : List Char) : Bool :=
  ['-', '-', '-'].isPrefixOf chars || ['.', '.', '.'].isPrefixOf chars ||
    (match chars with
      | [] => false
      | first :: rest => startsOtherwise first rest.head?) ||
    hasEndingMark chars

/-- Whether two neighbours of a text satisfy a relation. -/
def hasNeighbours (relation : Char → Char → Bool) : List Char → Bool
  | first :: second :: rest => relation first second || hasNeighbours relation (second :: rest)
  | _ => false

/-- Whether the first or the last character satisfies a predicate. -/
def atAnEnd (predicate : Char → Bool) (chars : List Char) : Bool :=
  chars.head?.any predicate || chars.getLast?.any predicate

/-- A space behind a line break. -/
def hasSpaceAfterBreak (chars : List Char) : Bool :=
  hasNeighbours (fun first second => endsLine first && second = ' ') chars

/-- A line break behind a space. -/
def hasBreakAfterSpace (chars : List Char) : Bool :=
  hasNeighbours (fun first second => first = ' ' && endsLine second) chars

/-- Whether a text can be written plain, apart from what it would be read as. -/
def allowsPlain (chars : List Char) : Bool :=
  !chars.isEmpty && chars.all isPrintable && !chars.any endsLine && !hasIndicators chars &&
    !atAnEnd (· = ' ') chars

/-- Whether a text can be written in single quotes. -/
def allowsSingle (chars : List Char) : Bool :=
  chars.all isPrintable && !hasSpaceAfterBreak chars && !hasBreakAfterSpace chars

/-- Whether a text can be written as a literal block. -/
def allowsLiteral (chars : List Char) : Bool :=
  !chars.isEmpty && chars.all isPrintable && !hasBreakAfterSpace chars &&
    chars.getLast? != some ' '

/-- Whether a text reads back as itself when it is written plain and where nothing else keeps it
from that. A text of digits with a leading zero is quoted all the same. -/
def readsAsText (text : String) : Bool :=
  Scalar.isPlainText text && !Scalar.hasLeadingZero text.toList

/-! ## Quotes and blocks -/

/-- A run of spaces. -/
def spaces (count : Nat) : List Char :=
  List.replicate count ' '

/-- The characters of a text in single quotes. Behind a line break the next line is indented. -/
def singleQuotedChars (indentation : Nat) (afterBreak : Bool) : List Char → List Char
  | [] => if afterBreak then spaces indentation else []
  | char :: rest =>
    if endsLine char then char :: singleQuotedChars indentation true rest
    else
      (if afterBreak then spaces indentation else []) ++
        (if char = '\'' then ['\'', '\''] else [char]) ++
          singleQuotedChars indentation false rest

/-- A hexadecimal digit in upper case. -/
def upperHexDigit (value : Nat) : Char :=
  (Nat.digitChar (value % 16)).toUpper

/-- The lowest hexadecimal digits of a number, as many as `width`. -/
def upperHex : Nat → Nat → List Char
  | 0, _ => []
  | width + 1, value => upperHex width (value / 16) ++ [upperHexDigit value]

/-- The letter of a short escape. -/
def escapeLetter? (char : Char) : Option Char :=
  match char.toNat with
  | 0x00 => some '0'
  | 0x07 => some 'a'
  | 0x08 => some 'b'
  | 0x09 => some 't'
  | 0x0A => some 'n'
  | 0x0B => some 'v'
  | 0x0C => some 'f'
  | 0x0D => some 'r'
  | 0x1B => some 'e'
  | 0x22 => some '"'
  | 0x5C => some '\\'
  | 0x85 => some 'N'
  | 0xA0 => some '_'
  | 0x2028 => some 'L'
  | 0x2029 => some 'P'
  | _ => none

/-- One character in double quotes. -/
def doubleQuotedChar (char : Char) : List Char :=
  if isPrintable char && !endsLine char && char != '"' && char != '\\' then [char]
  else
    match escapeLetter? char with
    | some letter => ['\\', letter]
    | none =>
      let code := char.toNat
      if code ≤ 0xFF then '\\' :: 'x' :: upperHex 2 code
      else if code ≤ 0xFFFF then '\\' :: 'u' :: upperHex 4 code
      else '\\' :: 'U' :: upperHex 8 code

/-- The lines of a literal block, each behind its indentation; empty lines have none. -/
def literalLines (indentation : Nat) (atStart : Bool) : List Char → List Char
  | [] => []
  | char :: rest =>
    if endsLine char then char :: literalLines indentation true rest
    else
      (if atStart then spaces indentation else []) ++
        char :: literalLines indentation false rest

/-- The marks of a literal block: the indentation if the text starts with white space, and what
happens to the line breaks at its end. -/
def literalHeader (chars : List Char) : List Char :=
  let indentation :=
    if chars.head?.any fun char => char = ' ' || endsLine char then ['2'] else []
  let chomping :=
    match chars.reverse with
    | [] => ['-']
    | last :: before =>
      if !endsLine last then ['-']
      else if before.head?.all endsLine then ['+']
      else []
  '|' :: (indentation ++ chomping)

/-- A text with the line break behind it, as a key or a value whose further lines stand at a
column. -/
def textLine (indentation : Nat) (text : String) : List Char :=
  let chars := text.toList
  let double := '"' :: (chars.flatMap doubleQuotedChar ++ ['"', '\n'])
  if chars.contains '\n' then
    if allowsLiteral chars then
      let lines := literalHeader chars ++ '\n' :: literalLines indentation true chars
      if chars.getLast?.any endsLine then lines else lines ++ ['\n']
    else double
  else if readsAsText text && allowsPlain chars then chars ++ ['\n']
  else if allowsSingle chars then
    '\'' :: (singleQuotedChars indentation false chars ++ ['\'', '\n'])
  else double

/-- The text of a value that is not a collection, with its line break. -/
def leafLine (indentation : Nat) : Json → List Char
  | .null => "null\n".toList
  | .bool true => "true\n".toList
  | .bool false => "false\n".toList
  | .number value => (numberText value).toList ++ ['\n']
  | .string value => textLine indentation value
  | .array _ => "[]\n".toList
  | .object _ => "\x7b\x7d\n".toList

/-- A key stands on one line with its value if it has no line breaks and at most 128 bytes. -/
def isShortKey (key : String) : Bool :=
  !key.toList.any endsLine && key.utf8ByteSize ≤ 128

/-! ## Blocks -/

mutual

/-- The members of a mapping at a column. `lead` stands in front of the first one; the others are
indented. -/
def mappingLines (column : Nat) (lead : List Char) : List (String × Json) → List Char
  | [] => []
  | (key, value) :: rest =>
    lead ++
      (if isShortKey key then
        (textLine (column + 2) key).dropLast ++ ':' :: valueLines column value
      else
        '?' :: ' ' :: textLine (column + 2) key ++ spaces column ++ ':' :: ' ' ::
          itemLines (column + 2) value) ++
      mappingLines column (spaces column) rest

/-- The elements of a sequence at a column. -/
def sequenceLines (column : Nat) (lead : List Char) : List Json → List Char
  | [] => []
  | item :: rest =>
    lead ++ '-' :: ' ' :: itemLines (column + 2) item ++
      sequenceLines column (spaces column) rest

/-- A value behind a short key of a mapping at a column. -/
def valueLines (column : Nat) : Json → List Char
  | .object (member :: members) =>
    '\n' :: mappingLines (column + 2) (spaces (column + 2)) (member :: members)
  | .array (element :: elements) =>
    '\n' :: sequenceLines column (spaces column) (element :: elements)
  | value => ' ' :: leafLine (column + 2) value

/-- A value behind a dash or a mark of a long key; its own block starts at a column. -/
def itemLines (column : Nat) : Json → List Char
  | .object (member :: members) => mappingLines column [] (member :: members)
  | .array (element :: elements) => sequenceLines column [] (element :: elements)
  | value => leafLine column value

end

/-- The YAML text of a value. -/
def render (value : Json) : String :=
  String.ofList (itemLines 0 value)

end SchemaLift.Yaml
