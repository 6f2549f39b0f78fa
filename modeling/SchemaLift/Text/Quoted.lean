import SchemaLift.Text.Hexadecimal
import SchemaLift.Text.Invisible

/-!
# Quoted texts

A text between double quotes in which everything can be seen: quotes, backslashes and control
characters are escaped, and so are characters that show nothing of their own.
-/

namespace SchemaLift.Text

/-- A character inside double quotes. -/
def visible (char : Char) : List Char :=
  if char = '"' then ['\\', '"']
  else if char = '\\' then ['\\', '\\']
  else if char = '\n' then ['\\', 'n']
  else if char = '\r' then ['\\', 'r']
  else if char = '\t' then ['\\', 't']
  else if char.toNat = 0 then ['\\', '0']
  else if char.toNat < 0x20 || char.toNat = 0x7F || isInvisible char then
    '\\' :: 'u' :: '\x7b' :: hexText char.toNat ++ ['\x7d']
  else [char]

/-- A text between double quotes. -/
def quoted (text : String) : String :=
  String.ofList ('"' :: text.toList.flatMap visible ++ ['"'])

end SchemaLift.Text
