import SchemaLift.Yaml.Token.Scalar
import SchemaLift.Yaml.Token.Tag

/-!
# From characters to tokens

A `key: value` pair is recognised only at its colon. So every place where such a key may start is
remembered as a `Candidate`; when a colon follows it in time, a key token (and the start of a block
mapping, if this is its first pair) is inserted at that place among the tokens already produced.

Outside of brackets, indentation opens and closes blocks: a deeper column opens one, a shallower
column closes all blocks that are deeper.
-/

namespace SchemaLift.Yaml

/-- A place where the key of a `key: value` pair may have started. -/
structure Candidate where
  /-- How many tokens stand before it. -/
  before : Nat
  /-- Nothing but a key can stand here, since the block's own column is reached. -/
  required : Bool
  index : Nat
  line : Nat
  column : Nat

/-- A candidate is out of time on a later line or more than 1024 bytes on. -/
def Candidate.isStale (candidate : Candidate) (here : Glyph) : Bool :=
  candidate.line < here.line || candidate.index + 1024 < here.index

/-- What is known between two tokens. -/
structure Lexer where
  /-- The glyphs that are left. -/
  input : List Glyph
  /-- The tokens so far, last first. -/
  tokens : List Token
  /-- Their number. -/
  count : Nat
  /-- The key candidate of every open bracket, innermost first, and last that of the block. -/
  candidates : List (Option Candidate)
  /-- Whether a key may start here. -/
  keyAllowed : Bool
  /-- The column of the innermost block, `-1` outside of any. -/
  indentation : Int
  /-- The columns of the blocks around it. -/
  outer : List Int
  /-- How many brackets are open. -/
  flow : Nat

namespace Lexer

/-- The state before the first token. -/
def start (input : List Glyph) : Lexer :=
  ⟨input, [], 0, [none], true, -1, [], 0⟩

/-- Whether a bracket is open. -/
def inFlow (lexer : Lexer) : Bool :=
  lexer.flow != 0

/-- Add a token at the end. -/
def emit (lexer : Lexer) (token : Token) : Lexer :=
  { lexer with tokens := token :: lexer.tokens, count := lexer.count + 1 }

/-- Add a token behind the first `before` ones. -/
def insert (lexer : Lexer) (before : Nat) (token : Token) : Lexer :=
  let later := lexer.count - before
  { lexer with
    tokens := lexer.tokens.take later ++ token :: lexer.tokens.drop later
    count := lexer.count + 1 }

/-- The glyph at the head. -/
def here (lexer : Lexer) : Glyph :=
  lexer.input.headD ⟨'\x00', 0, 0, 0⟩

/-- Go on behind the given glyphs. -/
def moveTo (lexer : Lexer) (input : List Glyph) : Lexer :=
  { lexer with input }

/-- Say whether a key may start next. -/
def allowKey (lexer : Lexer) (keyAllowed : Bool) : Lexer :=
  { lexer with keyAllowed }

/-! ## Blank space and comments -/

/-- Skip blanks, comments and line breaks, and tell whether a key may start behind them. Tabs are
skipped only where they cannot be taken for indentation. A byte order mark may start a line; it
takes up a column. -/
def skipGap (inFlow : Bool) (keyAllowed inComment : Bool) : List Glyph → Bool × List Glyph
  | [] => (keyAllowed, [])
  | glyph :: rest =>
    if isBreak glyph.char then skipGap inFlow (keyAllowed || !inFlow) false rest
    else if inComment then
      if isEnd glyph.char then (keyAllowed, glyph :: rest)
      else skipGap inFlow keyAllowed true rest
    else if glyph.char = ' ' || (glyph.char = '\t' && (inFlow || !keyAllowed)) then
      skipGap inFlow keyAllowed false rest
    else if glyph.char = '#' then skipGap inFlow keyAllowed true rest
    else if glyph.char = byteOrderMark && glyph.column = 0 then
      skipGap inFlow keyAllowed false rest
    else (keyAllowed, glyph :: rest)

/-! ## Key candidates -/

/-- Forget candidates that are out of time; fails if one of them was required. -/
def dropStale (here : Glyph) :
    List (Option Candidate) → Option (List (Option Candidate))
  | [] => some []
  | none :: rest => do pure (none :: (← dropStale here rest))
  | some candidate :: rest =>
    if candidate.isStale here then
      if candidate.required then none else do pure (none :: (← dropStale here rest))
    else do pure (some candidate :: (← dropStale here rest))

/-- Forget the innermost candidate; fails if it was required. -/
def dropCandidate (lexer : Lexer) : Option Lexer :=
  match lexer.candidates with
  | some candidate :: rest =>
    if candidate.required then none else some { lexer with candidates := none :: rest }
  | _ => some lexer

/-- Remember that a key may start here. -/
def noteCandidate (lexer : Lexer) : Option Lexer :=
  if lexer.keyAllowed then do
    let here := lexer.here
    let required := !lexer.inFlow && lexer.indentation = (here.column : Int)
    let lexer ← lexer.dropCandidate
    let candidate : Candidate := ⟨lexer.count, required, here.index, here.line, here.column⟩
    pure { lexer with candidates := some candidate :: lexer.candidates.drop 1 }
  else some lexer

/-! ## Indentation -/

/-- Close the blocks that are deeper than a column. The fuel exceeds the number of open blocks. -/
def closeBlocks (column : Int) : Nat → Lexer → Lexer
  | 0, lexer => lexer
  | fuel + 1, lexer =>
    if lexer.inFlow || lexer.indentation ≤ column then lexer
    else
      let closed := lexer.emit .blockEnd
      closeBlocks column fuel
        { closed with
          indentation := closed.outer.headD (-1)
          outer := closed.outer.drop 1 }

/-- Close the blocks that are deeper than a column. -/
def unroll (lexer : Lexer) (column : Int) : Lexer :=
  closeBlocks column (lexer.outer.length + 1) lexer

/-- Open a block at a column that is deeper than the current block. -/
def roll (lexer : Lexer) (column : Nat) (before : Nat) (token : Token) : Lexer :=
  if lexer.inFlow || (column : Int) ≤ lexer.indentation then lexer
  else
    { lexer.insert before token with
      indentation := column
      outer := lexer.indentation :: lexer.outer }

/-! ## Tokens -/

/-- A directive line. -/
def directive (lexer : Lexer) : Option Lexer := do
  let lexer ← (lexer.unroll (-1)).dropCandidate
  let (token, rest) ← scanDirective (lexer.input.drop 1)
  let rest ← skipLineRest rest
  pure (((lexer.allowKey false).moveTo rest).emit token)

/-- The start or the end of a document. -/
def documentMark (lexer : Lexer) (token : Token) : Option Lexer := do
  let lexer ← (lexer.unroll (-1)).dropCandidate
  pure (((lexer.allowKey false).moveTo (lexer.input.drop 3)).emit token)

/-- An opening bracket. -/
def openFlow (lexer : Lexer) (token : Token) : Option Lexer := do
  let lexer ← lexer.noteCandidate
  let opened :=
    { lexer with
      candidates := none :: lexer.candidates, flow := lexer.flow + 1, keyAllowed := true }
  pure ((opened.moveTo (lexer.input.drop 1)).emit token)

/-- A closing bracket. -/
def closeFlow (lexer : Lexer) (token : Token) : Option Lexer := do
  let lexer ← lexer.dropCandidate
  let closed :=
    if lexer.inFlow then
      { lexer with candidates := lexer.candidates.drop 1, flow := lexer.flow - 1 }
    else lexer
  pure (((closed.allowKey false).moveTo (lexer.input.drop 1)).emit token)

/-- A comma between brackets. -/
def flowEntry (lexer : Lexer) : Option Lexer := do
  let lexer ← lexer.dropCandidate
  pure (((lexer.allowKey true).moveTo (lexer.input.drop 1)).emit .flowEntry)

/-- The dash of a block sequence. -/
def blockEntry (lexer : Lexer) : Option Lexer := do
  if !lexer.inFlow && !lexer.keyAllowed then none
  let lexer ← (lexer.roll lexer.here.column lexer.count .blockSequenceStart).dropCandidate
  pure (((lexer.allowKey true).moveTo (lexer.input.drop 1)).emit .blockEntry)

/-- The question mark of an explicit key. -/
def explicitKey (lexer : Lexer) : Option Lexer := do
  if !lexer.inFlow && !lexer.keyAllowed then none
  let lexer ← (lexer.roll lexer.here.column lexer.count .blockMappingStart).dropCandidate
  pure (((lexer.allowKey (!lexer.inFlow)).moveTo (lexer.input.drop 1)).emit .key)

/-- A colon: the candidate in front of it becomes a key, or an explicit key has been given. -/
def value (lexer : Lexer) : Option Lexer :=
  let rest := lexer.input.drop 1
  match lexer.candidates with
  | some candidate :: others =>
    let keyed := lexer.insert candidate.before .key
    let rolled := keyed.roll candidate.column candidate.before .blockMappingStart
    let forgotten := { rolled with candidates := none :: others, keyAllowed := false }
    some ((forgotten.moveTo rest).emit .value)
  | _ => do
    if !lexer.inFlow && !lexer.keyAllowed then none
    let rolled := lexer.roll lexer.here.column lexer.count .blockMappingStart
    pure (((rolled.allowKey (!lexer.inFlow)).moveTo rest).emit .value)

/-- An anchor or an alias behind its mark. -/
def anchor (lexer : Lexer) (token : String → Token) : Option Lexer := do
  let lexer ← lexer.noteCandidate
  let input := lexer.input.drop 1
  let name := chars (input.takeWhile fun glyph => isWordChar glyph.char)
  let rest := input.drop name.length
  if name.isEmpty || !(isGap (headChar rest) || "?:,]\x7d%@`".toList.contains (headChar rest)) then
    none
  pure (((lexer.allowKey false).moveTo rest).emit (token (String.ofList name)))

/-- A tag. -/
def tag (lexer : Lexer) : Option Lexer := do
  let lexer ← lexer.noteCandidate
  let (token, rest) ← scanTag lexer.inFlow lexer.input
  pure (((lexer.allowKey false).moveTo rest).emit token)

/-- A literal or folded scalar. -/
def blockScalar (lexer : Lexer) (style : Style) : Option Lexer := do
  let lexer ← lexer.dropCandidate
  let (text, rest) ← scanBlock (style = .literal) lexer.indentation (lexer.input.drop 1)
  pure (((lexer.allowKey true).moveTo rest).emit (.scalar text style))

/-- A quoted scalar. -/
def quotedScalar (lexer : Lexer) (style : Style) : Option Lexer := do
  let lexer ← lexer.noteCandidate
  let (text, rest) ← scanQuoted (style = .singleQuoted) .none [] .none (lexer.input.drop 1)
  pure (((lexer.allowKey false).moveTo rest).emit (.scalar text style))

/-- A plain scalar; behind a line break a key may start again. -/
def plainScalar (lexer : Lexer) : Option Lexer := do
  let lexer ← lexer.noteCandidate
  let (text, hasBreak, rest) ←
    scanPlain lexer.inFlow (lexer.indentation + 1) [] .none lexer.input
  pure (((lexer.allowKey hasBreak).moveTo rest).emit (.scalar text .plain))

/-- Whether a plain scalar may start with a character that is followed by another one. -/
def startsPlain (inFlow : Bool) (char next : Char) : Bool :=
  if isGap char then false
  else if "-?:,[]\x7b\x7d#&*!|>'\"%@`".toList.contains char then
    (char = '-' && !isBlank next) || (!inFlow && (char = '?' || char = ':') && !isGap next)
  else true

/-- The token that starts with the character at the head. The end of the text is reached when the
first part is true. -/
def token (lexer : Lexer) : Option (Bool × Lexer) :=
  let here := lexer.here
  let next := headChar (lexer.input.drop 1)
  let more (result : Option Lexer) : Option (Bool × Lexer) := result.map (false, ·)
  if isEnd here.char then do
    let closed ← (lexer.unroll (-1)).dropCandidate
    pure (true, closed)
  else if here.column = 0 && here.char = '%' then more lexer.directive
  else if atDocumentMark '-' lexer.input then more (lexer.documentMark .documentStart)
  else if atDocumentMark '.' lexer.input then more (lexer.documentMark .documentEnd)
  else
    match here.char with
    | '[' => more (lexer.openFlow .flowSequenceStart)
    | '\x7b' => more (lexer.openFlow .flowMappingStart)
    | ']' => more (lexer.closeFlow .flowSequenceEnd)
    | '\x7d' => more (lexer.closeFlow .flowMappingEnd)
    | ',' => more lexer.flowEntry
    | '*' => more (lexer.anchor .alias)
    | '&' => more (lexer.anchor .anchor)
    | '!' => more lexer.tag
    | '\'' => more (lexer.quotedScalar .singleQuoted)
    | '"' => more (lexer.quotedScalar .doubleQuoted)
    | char =>
      if char = '-' && isGap next then more lexer.blockEntry
      else if char = '?' && (lexer.inFlow || isGap next) then more lexer.explicitKey
      else if char = ':' && (lexer.inFlow || isGap next) then more lexer.value
      else if char = '|' && !lexer.inFlow then more (lexer.blockScalar .literal)
      else if char = '>' && !lexer.inFlow then more (lexer.blockScalar .folded)
      else if startsPlain lexer.inFlow char next then more lexer.plainScalar
      else none

/-- The next token, once blank space is skipped and blocks are closed. -/
def advance (lexer : Lexer) : Option (Bool × Lexer) := do
  let (keyAllowed, input) := skipGap lexer.inFlow lexer.keyAllowed false lexer.input
  let lexer := { lexer with keyAllowed, input }
  let candidates ← dropStale lexer.here lexer.candidates
  ({ lexer with candidates }.unroll lexer.here.column).token

/-- All tokens. The fuel exceeds the number of characters, of which every token takes one. -/
def run : Nat → Lexer → Option (List Token)
  | 0, _ => none
  | fuel + 1, lexer => do
    let (finished, lexer) ← lexer.advance
    if finished then pure lexer.tokens.reverse else run fuel lexer

end Lexer

/-- The tokens of a text, or none when it is not made of YAML tokens. -/
def tokens? (text : String) : Option (List Token) := do
  let input ← glyphs? text
  (Lexer.start input).run (input.length + 1)

end SchemaLift.Yaml
