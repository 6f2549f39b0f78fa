import SchemaLift.Log.Event
import SchemaLift.Log.Pattern
import SchemaLift.Text.Cut

/-!
# Log filters

A filter is a list of directives, which say up to which level events are shown. A directive may be
restricted to the components whose names start with its target, and to events that have a field.
Of the directives that concern an event, the most specific one decides: the one with the longest
target, then the one with a field, of two fields the greater one, and of equals the last.
-/

namespace SchemaLift.Log

/-- One directive of a filter. -/
structure Directive where
  /-- The rank of the least urgent level that is shown; nothing is shown at zero. -/
  threshold : Nat
  target : Option String
  /-- A field that an event must have. -/
  fieldName : Option String
  /-- Whether the directive is about the surroundings of an event. No event here has any. -/
  isScoped : Bool
deriving DecidableEq, Repr

namespace Directive

/-- The rank of the least urgent level, which shows everything. -/
def everything : Nat := Level.trace.rank

/-- The value of decimal digits, with or without a plus sign. -/
def natural? (text : List Char) : Option Nat :=
  let digits :=
    match text with
    | '+' :: rest => rest
    | _ => text
  if digits.isEmpty || !digits.all Char.isDigit then none
  else some (digits.foldl (fun value digit => value * 10 + (digit.toNat - '0'.toNat)) 0)

/-- Whether a text is an exponent: nothing, or a mark, a sign and digits. -/
def isExponent : List Char → Bool
  | [] => true
  | mark :: rest =>
    let digits :=
      match rest with
      | '+' :: digits | '-' :: digits => digits
      | digits => digits
    (mark = 'e' || mark = 'E') && !digits.isEmpty && digits.all Char.isDigit

/-- Whether a text is a number: a sign, digits with a point anywhere, and an exponent; or a word for
what is no finite number. -/
def isNumber (text : List Char) : Bool :=
  let unsigned :=
    match text with
    | '+' :: rest | '-' :: rest => rest
    | _ => text
  let whole := unsigned.takeWhile Char.isDigit
  let (fraction, rest) : List Char × List Char :=
    match unsigned.drop whole.length with
    | '.' :: rest => rest.span Char.isDigit
    | rest => ([], rest)
  (["inf", "infinity", "nan"].any fun word => Text.sameLetters (String.ofList unsigned) word) ||
    (!(whole.isEmpty && fraction.isEmpty) && isExponent rest)

/-- The rank that a text means: a number up to five, the name of a level, or `off`. -/
def threshold? (text : List Char) : Option Nat :=
  match natural? text with
  | some value => if value ≤ everything then some value else none
  | none =>
    let word := String.ofList text
    if Text.sameLetters word "off" then some 0
    else (Level.all.find? fun level => Text.sameLetters word level.word).map Level.rank

/-- The rank behind an equals sign; everything is shown when there is none. -/
def thresholdAfter? : List Char → Option Nat
  | [] => some everything
  | text => threshold? text

/-- A directive as it is written, with its text without the blanks at its ends. Where its parts lie
is found in the latter, but they are cut out of the former: blanks in front shift every part. -/
structure Written where
  whole : List Char
  body : List Char

namespace Written

/-- The text of a directive. -/
def ofText (text : List Char) : Written :=
  ⟨text, (Text.trim (String.ofList text)).toList⟩

/-- What is cut out where a rest of the body starts; none if that is inside a character. -/
def from? (written : Written) (start : List Char) : Option (List Char) :=
  Text.dropBytes? (Text.byteLength written.body - Text.byteLength start) written.whole

/-- What is cut out between two rests of the body. -/
def between? (written : Written) (start stop : List Char) : Option (List Char) := do
  Text.takeBytes? (Text.byteLength start - Text.byteLength stop) (← written.from? start)

end Written

/-- What follows the brackets of a directive: nothing, or an equals sign and a level. -/
def afterBrackets? (written : Written) (target : Option String) (fieldName : Option String)
    (isScoped : Bool) : List Char → Option Directive
  | [] => some ⟨everything, target, fieldName, isScoped⟩
  | '=' :: rest => do
    pure ⟨← thresholdAfter? (← written.from? rest), target, fieldName, isScoped⟩
  | _ => none

/-- Whether a field may be held against a text: a number or a pattern. -/
def isFieldValue (text : List Char) : Bool :=
  isNumber text || Pattern.isValid text

/-- What stands in the brackets of a directive and behind them: the name of a scope, or a field in
braces. A field with a value belongs to the scope. -/
def inBrackets? (written : Written) (target : Option String) (input : List Char) :
    Option Directive :=
  match input.span fun char => char ≠ ']' ∧ char ≠ '\x7b' with
  | (_, ']' :: rest) => afterBrackets? written target none true rest
  | (scope, '\x7b' :: rest) =>
    match rest.dropWhile (· ≠ '\x7d') with
    | '\x7d' :: ']' :: after => do
      let field ← written.between? rest ('\x7d' :: ']' :: after)
      if field.isEmpty then none
      match Text.splitAll '=' field with
      | _ :: value :: _ =>
        if isFieldValue value then afterBrackets? written target none true after else none
      | _ => afterBrackets? written target (some (String.ofList field)) (!scope.isEmpty) after
    | _ => none
  | _ => none

/-- Whether a directive can start with a character: a letter, a number, a hyphen, a colon or an
underscore. -/
def isStart (char : Char) : Bool :=
  char = '-' || char = ':' || char = '_' || Text.isLetter char || Text.isNumeral char

/-- The directive that a text means: a level, a target, a target with a level, or either with
something in brackets between them. -/
def ofText? (text : List Char) : Option Directive :=
  let written := Written.ofText text
  match written.body with
  | [] => none
  | '[' :: rest => inBrackets? written none rest
  | first :: _ =>
    if !isStart first then none
    else
      match written.body.dropWhile fun char => char ≠ '=' ∧ char ≠ '[' with
      | [] =>
        match threshold? text with
        | some threshold => some ⟨threshold, none, none, false⟩
        | none => some ⟨everything, some (String.ofList text), none, false⟩
      | mark :: rest => do
        let target := String.ofList (← written.between? written.body (mark :: rest))
        if mark = '[' then inBrackets? written (some target) rest
        else pure ⟨← thresholdAfter? (← written.from? rest), some target, none, false⟩

/-- Whether a directive concerns an event. -/
def concerns (directive : Directive) (event : Event) : Bool :=
  !directive.isScoped &&
    directive.target.all (fun target => Text.startsWith target event.target) &&
    directive.fieldName.all fun name => Members.has name event.fields

/-- Whether a directive is at least as specific as another one that concerns the same event. -/
def isAtLeast (directive other : Directive) : Bool :=
  let length (directive : Directive) : Nat :=
    match directive.target with
    | some target => target.utf8ByteSize + 1
    | none => 0
  let name (directive : Directive) : String := directive.fieldName.getD ""
  length other < length directive ||
    (length other == length directive &&
      (other.fieldName.isNone || (directive.fieldName.isSome && name other ≤ name directive)))

end Directive

/-- The directives of a filter, in the order in which they are given. -/
abbrev Filter := List Directive

namespace Filter

/-- The filter that a text means: directives between commas, where empty ones do not count. -/
def ofText? (text : String) : Option Filter :=
  ((Text.splitAll ',' text.toList).filter (!·.isEmpty)).mapM Directive.ofText?

/-- The directive that decides on an event. -/
def deciding? (filter : Filter) (event : Event) : Option Directive :=
  (filter.filter fun directive => directive.concerns event).foldl
    (fun best directive =>
      match best with
      | some best => if directive.isAtLeast best then some directive else some best
      | none => some directive)
    none

/-- Whether an event is shown. Without directives only errors are. -/
def shows (filter : Filter) (event : Event) : Bool :=
  match filter with
  | [] => event.level = .error
  | filter => (filter.deciding? event).any fun directive => event.level.rank ≤ directive.threshold

end Filter

end SchemaLift.Log
