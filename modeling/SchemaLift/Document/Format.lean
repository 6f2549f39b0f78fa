import SchemaLift.Document.Reader
import SchemaLift.Document.Writer
import SchemaLift.Json.Printer
import SchemaLift.Yaml.Value
import SchemaLift.Yaml.Writer

/-!
# Documents as texts

A document is read from YAML, of which JSON is a part, and written as YAML or as indented JSON.
Every error has a code, which also starts its message.
-/

namespace SchemaLift

/-- The formats that documents are written in. -/
inductive Format where
  | yaml
  | json
deriving DecidableEq, Repr

/-- A name that is not that of a format; it is kept in lower case. -/
structure UnknownFormatName where
  name : String
deriving DecidableEq, Repr

namespace Format

/-- The name of a format. -/
def name : Format → String
  | .yaml => "yaml"
  | .json => "json"

/-- The format with a name, in whatever case. -/
def ofName (text : String) : Except UnknownFormatName Format :=
  let name := Text.lower text
  if name = "yaml" ∨ name = "yml" then .ok .yaml
  else if name = "json" then .ok .json
  else .error ⟨name⟩

/-- What follows the last point of a file name, unless the only point stands in front. -/
def extension? (file : List Char) : Option (List Char) :=
  let backwards := file.reverse
  let extension := backwards.takeWhile (· ≠ '.')
  match backwards.dropWhile (· ≠ '.') with
  | [] | ['.'] => none
  | _ => some extension.reverse

/-- The file that a path names: its last part, where empty parts and single points do not count. A
path that ends in two points names none. -/
def fileName? (path : String) : Option (List Char) :=
  match ((Text.splitAll '/' path.toList).filter fun part => part ≠ [] ∧ part ≠ ['.']).getLast? with
  | some ['.', '.'] => none
  | last => last

/-- The format that the extension of a path asks for: JSON if it says so, YAML otherwise. -/
def ofPath (path : String) : Format :=
  match (fileName? path).bind extension? with
  | some extension => if Text.lower (String.ofList extension) = "json" then .json else .yaml
  | none => .yaml

end Format

namespace UnknownFormatName

/-- The code of the error. -/
def code : String := "E1003"

/-- The message of the error. -/
def message (unknown : UnknownFormatName) : String :=
  code ++ ": write error: unknown output format '" ++ unknown.name ++ "' (expected yaml or json)"

end UnknownFormatName

namespace ReadError

/-- The code of an error. -/
def code : ReadError → String
  | .unknownFormat => "E1001"
  | .malformed => "E1002"
  | .notAnObject => "E1002"
  | .structure _ => "E1004"

/-- The message of an error. -/
def message (error : ReadError) : String :=
  error.code ++ ": " ++
    match error with
    | .unknownFormat => "not a valid OpenAPI 3.x document"
    | .malformed => "parse error"
    | .notAnObject => "parse error: spec root must be an object"
    | .structure fault => "schema validation error: " ++ fault.message

end ReadError

namespace Document

/-- The document that a text holds. -/
def ofText (text : String) : Except ReadError Document :=
  match Yaml.toJson? text with
  | some value => ofJson value
  | none => .error .malformed

/-- The text of a document. JSON ends with a line feed, as YAML does anyway. -/
def render (format : Format) (document : Document) : String :=
  match format with
  | .yaml => Yaml.render document.toJson
  | .json => document.toJson.pretty ++ "\n"

end Document

end SchemaLift
