import SchemaLift.Text.Hexadecimal
import SchemaLift.Yaml.Glyph

/-!
# Scanning scalars

Plain, quoted and block scalars. Each scanner takes the glyphs from the scalar's first character on
and gives its text with the glyphs that follow, or nothing when the scalar is malformed.

Inside plain and quoted scalars a single line break reads as a space, and of several breaks the
first is dropped.
-/

namespace SchemaLift.Yaml

/-! ## White space between words -/

/-- White space that counts only if the scalar goes on after it. -/
inductive Spacing where
  /-- No white space since the last word. -/
  | none
  /-- Blanks on the same line. -/
  | blanks (run : List Char)
  /-- Line breaks: the first, unless it was escaped, and the others. -/
  | breaks (first : Option Char) (others : List Char)

namespace Spacing

/-- The text that the white space stands for. -/
def text : Spacing → List Char
  | none => []
  | blanks run => run
  | breaks (some '\n') [] => [' ']
  | breaks (some '\n') others => others
  | breaks (some first) others => first :: others
  | breaks Option.none others => others

/-- One more blank; blanks after a line break are indentation and do not count. -/
def addBlank (char : Char) : Spacing → Spacing
  | none => blanks [char]
  | blanks run => blanks (run ++ [char])
  | breaks first others => breaks first others

/-- One more line break; blanks before it do not count. -/
def addBreak (char : Char) : Spacing → Spacing
  | breaks first others => breaks first (others ++ [char])
  | _ => breaks (some char) []

/-- Whether a line break was seen. -/
def hasBreak : Spacing → Bool
  | breaks _ _ => true
  | _ => false

/-- Whether there was any white space. -/
def isSome : Spacing → Bool
  | none => false
  | _ => true

end Spacing

/-! ## Plain scalars -/

/-- The marks that end a word or a plain scalar inside brackets. -/
def isFlowMark (char : Char) : Bool :=
  char = ',' || char = '[' || char = ']' || char = '\x7b' || char = '\x7d'

/-- The text of a plain scalar, whether it ended behind a line break, and the glyphs that follow.

`text` holds the characters so far, last first; `indentation` is the least column at which the
scalar may go on. -/
def scanPlain (inFlow : Bool) (indentation : Int) (text : List Char) (spacing : Spacing) :
    List Glyph → Option (String × Bool × List Glyph)
  | [] => some (String.ofList text.reverse, spacing.hasBreak, [])
  | glyph :: rest =>
    if isBlank glyph.char then
      if spacing.hasBreak && glyph.char = '\t' && (glyph.column : Int) < indentation then none
      else scanPlain inFlow indentation text (spacing.addBlank glyph.char) rest
    else if isBreak glyph.char then
      scanPlain inFlow indentation text (spacing.addBreak glyph.char) rest
    else if isEnd glyph.char || (spacing.isSome &&
        ((!inFlow && (glyph.column : Int) < indentation) || glyph.char = '#' ||
          atDocumentBoundary (glyph :: rest))) then
      some (String.ofList text.reverse, spacing.hasBreak, glyph :: rest)
    else if inFlow && glyph.char = ':' && (isFlowMark (headChar rest) || headChar rest = '?') then
      none
    else if (glyph.char = ':' && isGap (headChar rest)) || (inFlow && isFlowMark glyph.char) then
      some (String.ofList text.reverse, spacing.hasBreak, glyph :: rest)
    else scanPlain inFlow indentation (glyph.char :: (spacing.text.reverse ++ text)) .none rest

/-! ## Quoted scalars -/

/-- The character of a one-letter escape. -/
def escaped? : Char → Option Char
  | '0' => some '\x00'
  | 'a' => some '\x07'
  | 'b' => some '\x08'
  | 't' => some '\t'
  | '\t' => some '\t'
  | 'n' => some '\n'
  | 'v' => some '\x0b'
  | 'f' => some '\x0c'
  | 'r' => some '\r'
  | 'e' => some '\x1b'
  | ' ' => some ' '
  | '"' => some '"'
  | '/' => some '/'
  | '\\' => some '\\'
  | 'N' => some '\x85'
  | '_' => some '\xa0'
  | 'L' => some '\u2028'
  | 'P' => some '\u2029'
  | _ => none

/-- How many hexadecimal digits a numeric escape has. -/
def escapeWidth? : Char → Option Nat
  | 'x' => some 2
  | 'u' => some 4
  | 'U' => some 8
  | _ => none

/-- Where a double quoted scalar stands with respect to escapes. -/
inductive Escape where
  /-- Outside of any escape. -/
  | none
  /-- Behind a backslash. -/
  | letter
  /-- Inside a numeric escape that needs more digits. -/
  | digits (missing value : Nat)

/-- The text of a quoted scalar behind its opening quote, and the glyphs behind the closing one. -/
def scanQuoted (single : Bool) (escape : Escape) (text : List Char) (spacing : Spacing) :
    List Glyph → Option (String × List Glyph)
  | [] => none
  | glyph :: rest =>
    match escape with
    | .digits missing value =>
      match Text.hexValue? glyph.char with
      | Option.none => none
      | some digit =>
        let value := value * 16 + digit
        if 1 < missing then scanQuoted single (.digits (missing - 1) value) text .none rest
        else if (0xD800 ≤ value ∧ value ≤ 0xDFFF) ∨ 0x10FFFF < value then none
        else scanQuoted single .none (Char.ofNat value :: text) .none rest
    | .letter =>
      if isBreak glyph.char then scanQuoted single .none text (.breaks Option.none []) rest
      else
        match escapeWidth? glyph.char, escaped? glyph.char with
        | some width, _ => scanQuoted single (.digits width 0) text .none rest
        | _, some char => scanQuoted single .none (char :: text) .none rest
        | _, _ => none
    | .none =>
      if isEnd glyph.char || atDocumentBoundary (glyph :: rest) then none
      else if isBlank glyph.char then
        scanQuoted single .none text (spacing.addBlank glyph.char) rest
      else if isBreak glyph.char then
        scanQuoted single .none text (spacing.addBreak glyph.char) rest
      else
        let text := spacing.text.reverse ++ text
        if single && glyph.char = '\'' then
          match rest with
          | next :: rest =>
            if next.char = '\'' then scanQuoted single .none ('\'' :: text) .none rest
            else some (String.ofList text.reverse, next :: rest)
          | [] => some (String.ofList text.reverse, [])
        else if !single && glyph.char = '"' then some (String.ofList text.reverse, rest)
        else if !single && glyph.char = '\\' then scanQuoted single .letter text .none rest
        else scanQuoted single .none (glyph.char :: text) .none rest
termination_by structural input => input

/-! ## Block scalars -/

/-- What happens to the line breaks at the end of a block scalar. -/
inductive Chomping where
  | clip
  | strip
  | keep
deriving DecidableEq, Repr

/-- The chomping of a header mark. -/
def chomping? : Char → Option Chomping
  | '+' => some .keep
  | '-' => some .strip
  | _ => none

/-- A chomping mark, if there is one. -/
def takeChomping : List Glyph → Option Chomping × List Glyph
  | [] => (none, [])
  | glyph :: rest =>
    match chomping? glyph.char with
    | some chomping => (some chomping, rest)
    | none => (none, glyph :: rest)

/-- An indentation digit, if there is one; zero is refused. -/
def takeIncrement : List Glyph → Option (Option Nat × List Glyph)
  | [] => some (none, [])
  | glyph :: rest =>
    if glyph.char = '0' then none
    else if glyph.char.isDigit then some (some (glyph.char.toNat - '0'.toNat), rest)
    else some (none, glyph :: rest)

/-- The header of a block scalar behind its mark: chomping and indentation in either order. -/
def scanBlockHeader (input : List Glyph) : Option (Chomping × Option Nat × List Glyph) := do
  match takeChomping input with
  | (some chomping, rest) =>
    let (increment, rest) ← takeIncrement rest
    pure (chomping, increment, rest)
  | (none, rest) =>
    match ← takeIncrement rest with
    | (some increment, rest) =>
      let (chomping, rest) := takeChomping rest
      pure (chomping.getD .clip, some increment, rest)
    | (none, rest) => pure (.clip, none, rest)

/-- The rest of a line that holds blanks and perhaps a comment, with its line break. -/
def skipLineRest (input : List Glyph) : Option (List Glyph) :=
  let rest := input.dropWhile fun glyph => isBlank glyph.char
  let rest :=
    if headChar rest = '#' then rest.dropWhile fun glyph => !isBreakOrEnd glyph.char else rest
  match rest with
  | [] => some []
  | glyph :: after =>
    if isBreak glyph.char then some after
    else if isEnd glyph.char then some (glyph :: after)
    else none

/-- Skip indentation and empty lines, up to column `indentation` (zero: not known yet). Gives the
widest indentation seen, the line breaks, and the glyphs from the next text on. A tab must not
stand where indentation is expected. -/
def scanEmptyLines (indentation widest : Nat) (breaks : List Char) :
    List Glyph → Option (Nat × List Char × List Glyph)
  | [] => some (widest, breaks, [])
  | glyph :: rest =>
    let inside := indentation = 0 || glyph.column < indentation
    if inside && glyph.char = ' ' then scanEmptyLines indentation widest breaks rest
    else
      let widest := max widest glyph.column
      if inside && glyph.char = '\t' then none
      else if isBreak glyph.char then
        scanEmptyLines indentation widest (breaks ++ [glyph.char]) rest
      else some (widest, breaks, glyph :: rest)

/-- The lines of a block scalar. `text` holds the characters so far, last first, `lineBreak` the
break of the last line, `empty` the breaks of the empty lines behind it, and `wasBlank` tells
whether the last line started with white space. The fuel exceeds the number of lines. -/
def scanBlockLines (literal : Bool) (chomping : Chomping) (indentation : Nat) :
    Nat → List Char → List Char → List Char → Bool → List Glyph → Option (String × List Glyph)
  | 0, _, _, _, _, _ => none
  | fuel + 1, text, lineBreak, empty, wasBlank, input =>
    let atLine :=
      match input with
      | glyph :: _ => glyph.column = indentation && !isEnd glyph.char
      | [] => false
    if atLine then do
      let isBlankNow := isBlank (headChar input)
      let fold := !literal && lineBreak = ['\n'] && !wasBlank && !isBlankNow
      let joint :=
        if fold then (if empty.isEmpty then [' '] else empty) else lineBreak ++ empty
      let line := input.takeWhile fun glyph => !isBreakOrEnd glyph.char
      let rest := input.dropWhile fun glyph => !isBreakOrEnd glyph.char
      let text := (chars line).reverse ++ (joint.reverse ++ text)
      let (lineBreak, rest) : List Char × List Glyph :=
        match rest with
        | glyph :: after => if isBreak glyph.char then ([glyph.char], after) else ([], rest)
        | [] => ([], [])
      let (_, empty, rest) ← scanEmptyLines indentation 0 [] rest
      scanBlockLines literal chomping indentation fuel text lineBreak empty isBlankNow rest
    else
      let tail :=
        match chomping with
        | .strip => []
        | .clip => lineBreak
        | .keep => lineBreak ++ empty
      some (String.ofList (text.reverse ++ tail), input)

/-- The text of a block scalar behind its mark, and the glyphs behind it. `parent` is the
indentation of the block around it. -/
def scanBlock (literal : Bool) (parent : Int) (input : List Glyph) :
    Option (String × List Glyph) := do
  let (chomping, increment, rest) ← scanBlockHeader input
  let rest ← skipLineRest rest
  let given : Nat :=
    match increment with
    | some increment => if 0 ≤ parent then parent.toNat + increment else increment
    | none => 0
  let (widest, empty, rest) ← scanEmptyLines given 0 [] rest
  let indentation := if given = 0 then max (max widest (parent + 1).toNat) 1 else given
  scanBlockLines literal chomping indentation (rest.length + 1) [] [] empty false rest

end SchemaLift.Yaml
