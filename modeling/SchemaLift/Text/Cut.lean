/-!
# Cutting texts

Parts of a text around fixed marks and of a given length in bytes, blank ends, and letters compared
without regard to case. White space is what Unicode calls so; letter case is that of ASCII.
-/

namespace SchemaLift.Text

/-- What follows a fixed beginning, if the text has it. -/
def dropLead? (lead text : String) : Option String :=
  if lead.toList.isPrefixOf text.toList then
    some (String.ofList (text.toList.drop lead.toList.length))
  else none

/-- Whether a text has a fixed beginning. -/
def startsWith (lead text : String) : Bool :=
  lead.toList.isPrefixOf text.toList

/-- The parts around the first occurrence of a character, if there is one. -/
def splitOnce? (mark : Char) (text : String) : Option (String × String) :=
  match text.toList.span (· ≠ mark) with
  | (before, _ :: after) => some (String.ofList before, String.ofList after)
  | (_, []) => none

/-- Whether a text holds a character. -/
def holds (mark : Char) (text : String) : Bool :=
  text.toList.contains mark

/-- The parts between all occurrences of a character. -/
def splitAll (mark : Char) : List Char → List (List Char)
  | [] => [[]]
  | char :: rest =>
    if char = mark then [] :: splitAll mark rest
    else
      match splitAll mark rest with
      | [] => [[char]]
      | first :: others => (char :: first) :: others

/-- How many bytes characters take. -/
def byteLength (chars : List Char) : Nat :=
  chars.foldl (fun bytes char => bytes + char.utf8Size) 0

/-- What follows a number of bytes; none if they end inside a character. -/
def dropBytes? : Nat → List Char → Option (List Char)
  | 0, chars => some chars
  | _, [] => none
  | bytes + 1, char :: rest =>
    if char.utf8Size ≤ bytes + 1 then dropBytes? (bytes + 1 - char.utf8Size) rest else none

/-- The first characters that take a number of bytes; none if those end inside a character. -/
def takeBytes? : Nat → List Char → Option (List Char)
  | 0, _ => some []
  | _, [] => none
  | bytes + 1, char :: rest =>
    if char.utf8Size ≤ bytes + 1 then (takeBytes? (bytes + 1 - char.utf8Size) rest).map (char :: ·)
    else none

/-- White space. -/
def isSpace (char : Char) : Bool :=
  let code := char.toNat
  (0x09 ≤ code && code ≤ 0x0D) || code = 0x20 || code = 0x85 || code = 0xA0 || code = 0x1680 ||
    (0x2000 ≤ code && code ≤ 0x200A) || code = 0x2028 || code = 0x2029 || code = 0x202F ||
    code = 0x205F || code = 0x3000

/-- The text without white space at its ends. -/
def trim (text : String) : String :=
  let front := text.toList.dropWhile isSpace
  String.ofList (front.reverse.dropWhile isSpace).reverse

/-- The text with its ASCII capitals in lower case. -/
def lower (text : String) : String :=
  String.ofList (text.toList.map Char.toLower)

/-- Equality without regard to the case of ASCII letters. -/
def sameLetters (left right : String) : Bool :=
  left.toList.map Char.toLower == right.toList.map Char.toLower

end SchemaLift.Text
