import SchemaLift.Text.Cut
import SchemaLift.Text.Hexadecimal
import SchemaLift.Text.Letter

/-!
# Patterns

The regular expressions that a filter may hold against the value of a field. No event here lies in
surroundings that have values, so all that shows of a pattern is whether it is one.

Patterns stand between braces. So no closing brace occurs in one, and whatever needs one is refused:
counted repetitions, character codes in braces and named classes.

There are no tables of characters. So classes such as that of all digits, word boundaries and
letters that match in either case are refused, unless a pattern says that it is about ASCII.
-/

namespace SchemaLift.Log.Pattern

/-- What the flags of a pattern say, as far as it decides what may stand there. -/
structure Mode where
  /-- White space and comments do not count. -/
  spaced : Bool
  /-- Letters match in either case. -/
  caseless : Bool
  /-- Any character may match, not only those of ASCII. -/
  unicode : Bool
deriving DecidableEq, Repr

namespace Mode

/-- The mode in which a pattern starts. -/
def initial : Mode :=
  ⟨false, false, true⟩

/-- A setting after flags that turn it on or off. -/
def changed (flag : Char) (on off : List Char) (setting : Bool) : Bool :=
  if on.contains flag then true else if off.contains flag then false else setting

/-- The mode after flags: letters that are turned on, and behind a hyphen those that are turned off.
None stands twice, and a hyphen is followed by one. -/
def withFlags? (mode : Mode) (flags : List Char) : Option Mode :=
  if flags.all "imsUuRx-".toList.contains && decide flags.Nodup && flags.getLast? != some '-' then
    let on := flags.takeWhile (· ≠ '-')
    let off := flags.dropWhile (· ≠ '-')
    some
      { spaced := changed 'x' on off mode.spaced
        caseless := changed 'i' on off mode.caseless
        unicode := changed 'u' on off mode.unicode }
  else none

/-- Drop white space, and comments from a hash up to the end of the line. -/
def dropSpace (inComment : Bool) : List Char → List Char
  | [] => []
  | char :: rest =>
    if inComment then dropSpace (char ≠ '\n') rest
    else if Text.isSpace char then dropSpace false rest
    else if char = '#' then dropSpace true rest
    else char :: rest

/-- Drop what does not count. -/
def skip (mode : Mode) (input : List Char) : List Char :=
  if mode.spaced then dropSpace false input else input

end Mode

/-! ## Escapes -/

/-- What a backslash starts. -/
inductive Escape where
  /-- A character; one that is given by the code of a byte may lie beyond ASCII. -/
  | literal (char : Char) (isByte : Bool)
  /-- The class of digits, blanks or word characters, or its complement. -/
  | category (negated : Bool)
  /-- The start or the end of the text. -/
  | border
  /-- The start or the end of a word, or neither. -/
  | wordBorder
deriving DecidableEq, Repr

/-- A number of hexadecimal digits after those that make up `value`. -/
def takeHex (mode : Mode) : (missing value : Nat) → List Char → Option (Nat × List Char)
  | 0, value, input => some (value, input)
  | missing + 1, value, input =>
    match mode.skip input with
    | [] => none
    | digit :: rest => do takeHex mode missing (value * 16 + (← Text.hexValue? digit)) rest

/-- A character by its code of so many digits. -/
def takeCode (mode : Mode) (width : Nat) (input : List Char) : Option (Escape × List Char) := do
  let (code, rest) ← takeHex mode width 0 input
  if code.isValidChar then pure (.literal (Char.ofNat code) (width = 2), rest) else none

/-- The character that a letter stands for behind a backslash. -/
def control? : Char → Option Char
  | 'a' => some '\x07'
  | 'f' => some '\x0c'
  | 't' => some '\t'
  | 'n' => some '\n'
  | 'r' => some '\r'
  | 'v' => some '\x0b'
  | _ => none

/-- Whether a character behind a backslash stands for itself: an ASCII one that is no letter, digit
or angle bracket. -/
def standsForItself (char : Char) : Bool :=
  char.toNat < 0x80 && !char.isAlphanum && char != '<' && char != '>'

/-- What follows a backslash. -/
def takeEscape (mode : Mode) : List Char → Option (Escape × List Char)
  | [] => none
  | 'x' :: rest => takeCode mode 2 rest
  | 'u' :: rest => takeCode mode 4 rest
  | 'U' :: rest => takeCode mode 8 rest
  | char :: rest =>
    if "dsw".toList.contains char then some (.category false, rest)
    else if "DSW".toList.contains char then some (.category true, rest)
    else if char = 'A' ∨ char = 'z' then some (.border, rest)
    else if "bB<>".toList.contains char then some (.wordBorder, rest)
    else if standsForItself char then some (.literal char false, rest)
    else (control? char).map fun char => (.literal char false, rest)

/-- Whether an escape may stand outside of brackets. -/
def Mode.admits (mode : Mode) : Escape → Bool
  | .literal char isByte =>
    if mode.unicode then !mode.caseless else !isByte || char.toNat < 0x80
  | .category negated => !mode.unicode && !negated
  | .border => true
  | .wordBorder => !mode.unicode

/-! ## Brackets -/

/-- The names of classes that may stand between colons. -/
def classNames : List String :=
  ["alnum", "alpha", "ascii", "blank", "cntrl", "digit", "graph", "lower", "print", "punct",
    "space", "upper", "word", "xdigit"]

/-- A named class behind its opening bracket: whether it is negated, and what follows. -/
def takeNamedClass (input : List Char) : Option (Bool × List Char) :=
  match input with
  | ':' :: rest =>
    let (negated, rest) : Bool × List Char :=
      match rest with
      | '^' :: rest => (true, rest)
      | _ => (false, rest)
    match rest.span (· ≠ ':') with
    | (name, ':' :: ']' :: rest) =>
      if classNames.contains (String.ofList name) then some (negated, rest) else none
    | _ => none
  | _ => none

/-- Drop hyphens. The fuel exceeds their number. -/
def dropHyphens (mode : Mode) : Nat → List Char → List Char
  | 0, input => input
  | fuel + 1, input =>
    match mode.skip input with
    | '-' :: rest => dropHyphens mode fuel rest
    | input => input

/-- What follows an opening bracket: a mark of negation, and then hyphens or a closing bracket that
stand for themselves. -/
def openBracket (mode : Mode) (input : List Char) : Option (List Char) :=
  let (negated, input) : Bool × List Char :=
    match mode.skip input with
    | '^' :: rest => (true, mode.skip rest)
    | input => (false, input)
  if negated && !mode.unicode then none
  else
    match input with
    | '-' :: rest => some (dropHyphens mode (rest.length + 1) rest)
    | ']' :: rest => some rest
    | input => some input

/-- One member of a bracket: a character, or none for a class. -/
def takeMember (mode : Mode) (input : List Char) : Option (Option Char × List Char) := do
  let (escape, rest) ←
    match input with
    | [] => none
    | '\\' :: rest => takeEscape mode rest
    | char :: rest => some (.literal char false, rest)
  match escape with
  | .literal char _ => if mode.unicode || char.toNat < 0x80 then pure (some char, rest) else none
  | .category negated => if mode.unicode || negated then none else pure (none, rest)
  | .border | .wordBorder => none

/-- One member of a bracket, or a range between two characters. -/
def takeRange (mode : Mode) (input : List Char) : Option (List Char) := do
  let (first, rest) ← takeMember mode input
  let rest := mode.skip rest
  match rest with
  | '-' :: after =>
    let after := mode.skip after
    if after.head? = some ']' ∨ after.head? = some '-' then pure rest
    else
      match first, ← takeMember mode after with
      | some first, (some last, rest) => if first ≤ last then pure rest else none
      | _, _ => none
  | rest => pure rest

/-- The members of `depth + 1` nested brackets, up to the last closing one. The fuel exceeds the
length of the input. -/
def takeMembers (mode : Mode) : Nat → (depth : Nat) → List Char → Option (List Char)
  | 0, _, _ => none
  | fuel + 1, depth, input =>
    match mode.skip input with
    | '[' :: rest =>
      match takeNamedClass rest with
      | some (negated, rest) =>
        if negated && !mode.unicode then none else takeMembers mode fuel depth rest
      | none => do takeMembers mode fuel (depth + 1) (← openBracket mode rest)
    | ']' :: rest =>
      match depth with
      | 0 => some rest
      | depth + 1 => takeMembers mode fuel depth rest
    | '&' :: '&' :: rest | '-' :: '-' :: rest | '~' :: '~' :: rest =>
      takeMembers mode fuel depth rest
    | input => do takeMembers mode fuel depth (← takeRange mode input)

/-- What follows a class in brackets, behind its opening one. -/
def takeClass (mode : Mode) (input : List Char) : Option (List Char) := do
  if mode.unicode && mode.caseless then none
  takeMembers mode (input.length + 1) 0 (← openBracket mode input)

/-! ## Groups -/

/-- What an opening parenthesis starts. -/
inductive Group where
  /-- A group that is remembered, under a name if it has one. -/
  | captured (name : Option (List Char))
  /-- A group with a mode of its own. -/
  | plain (mode : Mode)
  /-- No group, but a mode for what is left of the group around. -/
  | change (mode : Mode)

/-- Whether a group may have a name. -/
def isName : List Char → Bool
  | [] => false
  | first :: rest =>
    (first = '_' || Text.isLetter first) &&
      rest.all fun char => "_.[]".toList.contains char || Text.isLetter char || Text.isNumeral char

/-- A group behind the mark that announces its name. -/
def takeName (input : List Char) : Option (Group × List Char) :=
  match input.span (· ≠ '>') with
  | (name, '>' :: rest) => if isName name then some (.captured (some name), rest) else none
  | _ => none

/-- What follows an opening parenthesis. -/
def takeGroup (mode : Mode) (input : List Char) : Option (Group × List Char) :=
  match mode.skip input with
  | '?' :: 'P' :: '<' :: rest => takeName rest
  | '?' :: '<' :: rest => takeName rest
  | '?' :: rest =>
    let flags := rest.takeWhile fun char => char ≠ ':' ∧ char ≠ ')'
    match mode.withFlags? flags, rest.drop flags.length with
    | some changed, ':' :: rest => some (.plain changed, rest)
    | some changed, ')' :: rest => if flags.isEmpty then none else some (.change changed, rest)
    | _, _ => none
  | rest => some (.captured none, rest)

/-! ## Patterns -/

/-- What is known between two parts of a pattern. -/
structure Progress where
  mode : Mode
  /-- The modes around the open groups, innermost first. -/
  outer : List Mode
  /-- The names of groups so far. -/
  names : List (List Char)
  /-- Whether there is something in front that can be repeated. -/
  repeatable : Bool

namespace Progress

/-- Go on behind something that can be repeated, or cannot. -/
def behind (progress : Progress) (repeatable : Bool) : Progress :=
  { progress with repeatable }

/-- Open a group; none if its name is taken. -/
def enter (progress : Progress) : Group → Option Progress
  | .captured none =>
    some { progress with outer := progress.mode :: progress.outer, repeatable := false }
  | .captured (some name) =>
    if progress.names.contains name then none
    else
      some
        { progress with
          outer := progress.mode :: progress.outer
          names := name :: progress.names
          repeatable := false }
  | .plain mode =>
    some { progress with mode, outer := progress.mode :: progress.outer, repeatable := false }
  | .change mode => some { progress with mode, repeatable := false }

/-- Close a group; none if none is open. -/
def leave (progress : Progress) : Option Progress :=
  match progress.outer with
  | [] => none
  | mode :: outer => some { progress with mode, outer, repeatable := true }

end Progress

/-- A question mark behind a repetition, which then takes as little as it can. -/
def dropLazy : List Char → List Char
  | '?' :: rest => rest
  | input => input

/-- Whether the rest of a pattern is well formed. The fuel exceeds its length. -/
def completes : Nat → Progress → List Char → Bool
  | 0, _, _ => false
  | fuel + 1, progress, input =>
    match progress.mode.skip input with
    | [] => progress.outer.isEmpty
    | '(' :: rest =>
      match takeGroup progress.mode rest with
      | some (group, rest) =>
        (progress.enter group).any fun progress => completes fuel progress rest
      | none => false
    | ')' :: rest => progress.leave.any fun progress => completes fuel progress rest
    | '|' :: rest => completes fuel (progress.behind false) rest
    | '[' :: rest =>
      (takeClass progress.mode rest).any fun rest => completes fuel (progress.behind true) rest
    | '\\' :: rest =>
      match takeEscape progress.mode rest with
      | some (escape, rest) =>
        progress.mode.admits escape && completes fuel (progress.behind true) rest
      | none => false
    | '\x7b' :: _ => false
    | '.' :: rest => progress.mode.unicode && completes fuel (progress.behind true) rest
    | '^' :: rest | '$' :: rest => completes fuel (progress.behind true) rest
    | char :: rest =>
      if "?*+".toList.contains char then
        progress.repeatable && completes fuel progress (dropLazy rest)
      else
        progress.mode.admits (.literal char false) && completes fuel (progress.behind true) rest

/-- Whether a text is a pattern. -/
def isValid (text : List Char) : Bool :=
  completes (text.length + 1) ⟨.initial, [], [], false⟩ text

end SchemaLift.Log.Pattern
