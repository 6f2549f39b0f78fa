import SchemaLift.Document.Basic
import SchemaLift.Flatten.Options
import SchemaLift.Schema.Fault

/-!
# Names of extracted schemas

A schema is named by its title if that can serve as a name, and otherwise by where it was found. A
table of the configuration may replace the chosen name.
-/

namespace SchemaLift

namespace Naming

/-- The characters that names are made of. -/
def isNameChar (char : Char) : Bool :=
  char.isAlphanum || char = '_'

/-- The text with every other character replaced by an underscore, and one put in front of a
leading digit. -/
def sanitize (text : String) : String :=
  match text.toList.map fun char => if isNameChar char then char else '_' with
  | [] => ""
  | first :: rest => String.ofList (if first.isDigit then '_' :: first :: rest else first :: rest)

/-- A title can name a schema if it is ASCII and has a letter or a digit. -/
def isUsableTitle (title : String) : Bool :=
  title.toList.all (·.toNat < 0x80) && title.toList.any Char.isAlphanum

/-- A path as part of a name: no slashes in front, no braces, underscores for the other slashes. -/
def ofPath (path : String) : String :=
  match path.toList.dropWhile (· = '/') with
  | [] => "root"
  | chars =>
    String.ofList ((chars.filter fun char => char ≠ '\x7b' ∧ char ≠ '\x7d').map fun char =>
      if char = '/' then '_' else char)

/-- The name of an operation: its identifier, or its path and method. -/
def ofOperation (operationId : Option String) (path : String) (method : Method) : String :=
  match operationId.filter (· ≠ "") with
  | some identifier => identifier
  | none => ofPath path ++ "_" ++ method.key

/-! ## Names by position -/

/-- A property of a named schema. -/
def property (parent name : String) : String :=
  parent ++ "_" ++ name

/-- The members of a named combination under a keyword. -/
def members (parent : String) (keyword : Keyword) : String :=
  parent ++ "_" ++ keyword.text

/-- The body of a request. -/
def request (base : String) : String :=
  base ++ "_request"

/-- The body of a response. -/
def response (base : String) : String :=
  base ++ "_response"

/-- The body of a component response; it is shared, and no operation gives it its name. -/
def componentResponse : String := "inline_object"

/-- A parameter. -/
def parameter (base name : String) : String :=
  base ++ "_" ++ name ++ "_parameter"

/-- The name that is chosen where none can be made. -/
def fallback : String := "inline_schema"

/-! ## The choice of a name -/

/-- The name of a schema that was found at a position with a derived name. -/
def synthesized (schema : Schema) (derived : String) : String :=
  let text :=
    match schema.title? with
    | some title => if isUsableTitle title then title else derived
    | none => derived
  let name := sanitize text
  if name = "" then fallback else name

/-- The name to register a schema under, and whether the configuration asks for it. -/
structure Candidate where
  base : String
  mapped : Bool
deriving DecidableEq, Repr

end Naming

namespace Config

/-- The items of a named array. -/
def arrayItem (config : Config) (parent : String) : String :=
  parent ++ config.options.arrayItemSuffix

/-- The values of a named map. -/
def mapValue (config : Config) (parent : String) : String :=
  parent ++ config.options.mapItemSuffix

/-- The name to register a schema under. -/
def baseName (config : Config) (schema : Schema) (derived : String) : Naming.Candidate :=
  let name := Naming.synthesized schema derived
  match Members.get? name config.nameMappings with
  | some base => ⟨base, true⟩
  | none => ⟨name, false⟩

end Config

end SchemaLift
