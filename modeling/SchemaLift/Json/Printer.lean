import SchemaLift.Json.Basic
import SchemaLift.Number.Shortest

/-!
# JSON text

Two forms: compact, without any white space, and indented by two spaces. Both escape quotes,
backslashes and the characters below the space, and write all else as it is.
-/

namespace SchemaLift.Json

/-- Numbers are written out from `0.00001` up to sixteen digits before the point, and with a
signed exponent elsewhere. -/
def layout : Binary64.Layout :=
  ⟨-4, 16, true⟩

/-- The text of a number. -/
def numberText : Number → String
  | .integer value => toString value
  | .binary64 value => value.render layout

/-- A hexadecimal digit in lower case. -/
def hexDigit (value : Nat) : Char :=
  Nat.digitChar (value % 16)

/-- One character inside quotes. -/
def escape (char : Char) : List Char :=
  match char with
  | '"' => ['\\', '"']
  | '\\' => ['\\', '\\']
  | '\n' => ['\\', 'n']
  | '\r' => ['\\', 'r']
  | '\t' => ['\\', 't']
  | _ =>
    if char.toNat = 8 then ['\\', 'b']
    else if char.toNat = 12 then ['\\', 'f']
    else if char.toNat < 32 then
      ['\\', 'u', '0', '0', hexDigit (char.toNat / 16), hexDigit char.toNat]
    else [char]

/-- A text between quotes. -/
def quote (text : String) : String :=
  String.ofList ('"' :: (text.toList.flatMap escape ++ ['"']))

mutual

/-- The text without white space. -/
def compact : Json → String
  | .null => "null"
  | .bool true => "true"
  | .bool false => "false"
  | .number value => numberText value
  | .string value => quote value
  | .array elements => "[" ++ compactElements "" elements ++ "]"
  | .object members => "\x7b" ++ compactMembers "" members ++ "\x7d"

/-- Array elements; `separator` stands before the next one. -/
def compactElements (separator : String) : List Json → String
  | [] => ""
  | element :: rest => separator ++ element.compact ++ compactElements "," rest

/-- Object members; `separator` stands before the next one. -/
def compactMembers (separator : String) : List (String × Json) → String
  | [] => ""
  | (key, value) :: rest =>
    separator ++ quote key ++ ":" ++ value.compact ++ compactMembers "," rest

end

/-- A line break and the indentation of a nesting depth. -/
def newLine (depth : Nat) : String :=
  String.ofList ('\n' :: List.replicate (2 * depth) ' ')

mutual

/-- The indented text of a value at a nesting depth. -/
def indented (depth : Nat) : Json → String
  | .array [] => "[]"
  | .object [] => "\x7b\x7d"
  | .array elements =>
    "[" ++ indentedElements (depth + 1) "" elements ++ newLine depth ++ "]"
  | .object members =>
    "\x7b" ++ indentedMembers (depth + 1) "" members ++ newLine depth ++ "\x7d"
  | .null => "null"
  | .bool true => "true"
  | .bool false => "false"
  | .number value => numberText value
  | .string value => quote value

/-- Array elements, one a line. -/
def indentedElements (depth : Nat) (separator : String) : List Json → String
  | [] => ""
  | element :: rest =>
    separator ++ newLine depth ++ element.indented depth ++ indentedElements depth "," rest

/-- Object members, one a line. -/
def indentedMembers (depth : Nat) (separator : String) : List (String × Json) → String
  | [] => ""
  | (key, value) :: rest =>
    separator ++ newLine depth ++ quote key ++ ": " ++ value.indented depth ++
      indentedMembers depth "," rest

end

/-- The indented text of a whole value. -/
def pretty (value : Json) : String :=
  value.indented 0

end SchemaLift.Json
