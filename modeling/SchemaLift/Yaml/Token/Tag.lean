import SchemaLift.Text.Hexadecimal
import SchemaLift.Yaml.Glyph
import SchemaLift.Yaml.Token

/-!
# Scanning tags and directives

A tag is written verbatim (`!<...>`), with a handle (`!!str`, `!e!name`) or with a suffix alone
(`!name`). A `%TAG` directive gives a handle its expansion. Percent escapes in either stand for
bytes. The bytes must be put together as UTF-8 puts characters together, but what they give need not
be a character: it may be too large, a surrogate, or take more bytes than it needs.
-/

namespace SchemaLift.Yaml

/-- One percent escape: its byte and the glyphs that follow. -/
def takeByte : List Glyph → Option (Nat × List Glyph)
  | mark :: high :: low :: rest =>
    if mark.char = '%' then do
      let high ← Text.hexValue? high.char
      let low ← Text.hexValue? low.char
      pure (high * 16 + low, rest)
    else none
  | _ => none

/-- How many bytes follow the first byte of a character, with that byte's share of its code. -/
def leadingByte? (byte : Nat) : Option (Nat × Nat) :=
  if byte < 0x80 then some (0, byte)
  else if byte / 0x20 = 0x6 then some (1, byte % 0x20)
  else if byte / 0x10 = 0xE then some (2, byte % 0x10)
  else if byte / 0x08 = 0x1E then some (3, byte % 0x08)
  else none

/-- The bytes that continue a character. -/
def takeContinuation : Nat → Nat → List Glyph → Option (Nat × List Glyph)
  | 0, code, input => some (code, input)
  | missing + 1, code, input => do
    let (byte, rest) ← takeByte input
    if byte / 0x40 = 0x2 then takeContinuation missing (code * 0x40 + byte % 0x40) rest else none

/-- The character with a code that is spread over some bytes behind the first one, if there is one
with that code that takes as many. -/
def spreadChar? (code following : Nat) : Option Char :=
  let char := Char.ofNat code
  if code.isValidChar ∧ char.utf8Size = following + 1 then some char else none

/-- What stands for a character in percent escapes, whether it is one or not. -/
def takeEscapedChar (input : List Glyph) : Option (Option Char × List Glyph) := do
  let (byte, rest) ← takeByte input
  let (following, code) ← leadingByte? byte
  let (code, rest) ← takeContinuation following code rest
  pure (spreadChar? code following, rest)

/-- The characters of a tag; the flow marks only where they cannot end it. -/
def isTagChar (flowMarks : Bool) (char : Char) : Bool :=
  isWordChar char || ";/?:@&=+$.%!~*'()".toList.contains char ||
    (flowMarks && (char = ',' || char = '[' || char = ']'))

/-- A run of tag characters with its escapes resolved. The fuel exceeds its length. -/
def takeTagChars (flowMarks : Bool) : Nat → List Glyph → Option (Tag × List Glyph)
  | 0, _ => none
  | fuel + 1, input =>
    match input with
    | [] => some ([], [])
    | glyph :: rest =>
      if !isTagChar flowMarks glyph.char then some ([], input)
      else if glyph.char = '%' then do
        let (char, rest) ← takeEscapedChar input
        let (more, rest) ← takeTagChars flowMarks fuel rest
        pure (char :: more, rest)
      else do
        let (more, rest) ← takeTagChars flowMarks fuel rest
        pure (some glyph.char :: more, rest)

/-- A handle: `!`, `!!`, `!name!`, or the start `!name` of a suffix that stands alone. -/
def takeHandle (input : List Glyph) : Option (List Char × List Glyph) :=
  match input with
  | mark :: rest =>
    if mark.char = '!' then
      let word := rest.takeWhile fun glyph => isWordChar glyph.char
      let rest := rest.dropWhile fun glyph => isWordChar glyph.char
      match rest with
      | glyph :: after =>
        if glyph.char = '!' then some ('!' :: (chars word ++ ['!']), after)
        else some ('!' :: chars word, rest)
      | [] => some ('!' :: chars word, [])
    else none
  | [] => none

/-- A tag: its handle, its suffix, and the glyphs behind it. A tag ends with white space, or with a
comma inside brackets. -/
def scanTag (inFlow : Bool) (input : List Glyph) : Option (Token × List Glyph) := do
  let fuel := input.length + 1
  let (handle, suffix, rest) ←
    match input with
    | _ :: second :: rest =>
      if second.char = '<' then do
        let (suffix, rest) ← takeTagChars true fuel rest
        if suffix.isEmpty || headChar rest != '>' then none
        else pure ([], suffix, rest.drop 1)
      else do
        let (handle, rest) ← takeHandle input
        let (suffix, rest) ← takeTagChars false fuel rest
        if 1 < handle.length && handle.getLast? == some '!' then
          if suffix.isEmpty then none else pure (handle, suffix, rest)
        else
          let suffix := Tag.untilNul ((handle.drop 1).map some ++ suffix)
          pure (if suffix.isEmpty then ([], .ofText "!", rest) else (['!'], suffix, rest))
    | _ => none
  if (inFlow && headChar rest = ',') || isGap (headChar rest) then
    pure (.tag (String.ofList handle) suffix.untilNul, rest)
  else none

/-- A number of a version directive. -/
def takeVersionNumber (input : List Glyph) : Option (Nat × List Glyph) :=
  let digits := input.takeWhile fun glyph => glyph.char.isDigit
  if digits.isEmpty || 9 < digits.length then none
  else some (Nat.ofDigitChars 10 (chars digits) 0, input.drop digits.length)

/-- Drop blanks. -/
def dropBlanks (input : List Glyph) : List Glyph :=
  input.dropWhile fun glyph => isBlank glyph.char

/-- A directive line behind its percent sign, up to its line break. -/
def scanDirective (input : List Glyph) : Option (Token × List Glyph) := do
  let name := chars (input.takeWhile fun glyph => isWordChar glyph.char)
  let rest := input.dropWhile fun glyph => isWordChar glyph.char
  if name.isEmpty || !isGap (headChar rest) then none
  if name = "YAML".toList then
    let (major, rest) ← takeVersionNumber (dropBlanks rest)
    if headChar rest != '.' then none
    let (minor, rest) ← takeVersionNumber (rest.drop 1)
    pure (.versionDirective major minor, rest)
  else if name = "TAG".toList then
    let (handle, rest) ← takeHandle (dropBlanks rest)
    if handle != ['!'] && (handle.length < 2 || handle.getLast? != some '!') then none
    if !isBlank (headChar rest) then none
    let rest := dropBlanks rest
    let (expansion, rest) ← takeTagChars true (rest.length + 1) rest
    if expansion.isEmpty || !isGap (headChar rest) then none
    pure (.tagDirective (String.ofList handle) expansion.untilNul, rest)
  else none

end SchemaLift.Yaml
