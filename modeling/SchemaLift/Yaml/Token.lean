/-!
# YAML tokens

What the characters of a YAML text say, before it is clear how collections nest. Blocks that are
marked by indentation alone have tokens of their own for their start and end.

Tags are written with escapes for single bytes, and not all bytes make up a character.
-/

namespace SchemaLift.Yaml

/-- How a scalar was written. -/
inductive Style where
  | plain
  | singleQuoted
  | doubleQuoted
  | literal
  | folded
deriving DecidableEq, Repr

/-- A tag or a part of one: its characters, with `none` for bytes that make up no character. -/
abbrev Tag := List (Option Char)

namespace Tag

/-- The tag with a text. -/
def ofText (text : String) : Tag :=
  text.toList.map some

/-- A tag of the core schema. -/
def core (name : String) : Tag :=
  ofText ("tag:yaml.org,2002:" ++ name)

/-- The text of a tag, if it is made of characters alone. -/
def text? (tag : Tag) : Option String :=
  (tag.mapM id).map String.ofList

/-- Whether a tag starts with an exclamation mark. -/
def isMarked (tag : Tag) : Bool :=
  tag.head? == some (some '!')

/-- The name in a local tag, without its mark; the mark alone names itself. -/
def localName? : Tag → Option String
  | [some '!'] => some "!"
  | some '!' :: name => text? name
  | _ => none

/-- What stands in front of the first NUL, which ends a tag. -/
def untilNul (tag : Tag) : Tag :=
  tag.takeWhile (· != some '\x00')

end Tag

/-- A token. -/
inductive Token where
  | versionDirective (major minor : Nat)
  | tagDirective (handle : String) (expansion : Tag)
  | documentStart
  | documentEnd
  | blockSequenceStart
  | blockMappingStart
  | blockEnd
  | flowSequenceStart
  | flowSequenceEnd
  | flowMappingStart
  | flowMappingEnd
  | blockEntry
  | flowEntry
  | key
  | value
  | alias (name : String)
  | anchor (name : String)
  | tag (handle : String) (suffix : Tag)
  | scalar (text : String) (style : Style)
deriving DecidableEq, Repr

end SchemaLift.Yaml
