import SchemaLift.Document.Basic
import SchemaLift.Json.Printer
import SchemaLift.Schema.Reader

/-!
# Reading documents

The document that a JSON value is. Parts with a role are read into it, and the members that have
none stay with the object they were found in. Some parts do not count when they have an unexpected
kind; the others are faults, of which the first in reading order is reported.
-/

namespace SchemaLift

/-- A part that may be a reference instead. -/
def RefOr.ofJson {α : Type} (place : Place) (read : Members Json → Except Fault α) :
    Json → Except Fault (RefOr α)
  | .object members =>
    match Reference.ofMembers? members with
    | some target => .ok (.reference target)
    | none => do pure (.item (← read (withoutReference members)))
  | value => .error (.wrongKind place value.kind)

/-- Read the value of every entry. -/
def readEntries {α : Type} (read : String → Json → Except Fault α) :
    List (String × Json) → Except Fault (Members α)
  | [] => .ok []
  | (key, value) :: rest => do
    let entry ← read key value
    let entries ← readEntries read rest
    pure ((key, entry) :: entries)

/-- Read the entries of an object; anything else has none. -/
def readIfObject {α : Type} (read : String → Json → Except Fault α) :
    Option Json → Except Fault (Members α)
  | some (.object entries) => readEntries read entries
  | _ => .ok []

/-- A schema that need not be there. -/
def readSchema? : Option Json → Except Fault (Option Schema)
  | some value => do pure (some (← Schema.ofJson value))
  | none => .ok none

/-! ## Contents -/

namespace MediaType

/-- A media type. -/
def ofJson (name : String) : Json → Except Fault MediaType
  | .object members => do
    let (schema, extra) := Members.take "schema" members
    pure ⟨← readSchema? schema, extra⟩
  | .null => .ok ⟨none, []⟩
  | value => .error (.wrongKind (.mediaType name) value.kind)

end MediaType

/-- A content, if there is one. -/
def readContent : Option Json → Except Fault (Option Content)
  | some (.object entries) => do pure (some (← readEntries MediaType.ofJson entries))
  | some .null => .ok none
  | some value => .error (.wrongKind .content value.kind)
  | none => .ok none

namespace Parameter

/-- A parameter. -/
def ofMembers (members : Members Json) : Except Fault Parameter := do
  let (name, members) := Members.takeAs Json.string? "name" members
  let (location, members) := Members.takeAs Json.string? "in" members
  let (schema, members) := Members.take "schema" members
  let schema ← readSchema? schema
  let (content, extra) := Members.take "content" members
  let content ← readContent content
  pure { name := name.getD "", location := location.getD "", schema, content, extra }

/-- The parameters of an operation or a path item. -/
def listOf : Option Json → Except Fault (List (RefOr Parameter))
  | some (.array elements) => elements.mapM (RefOr.ofJson .parameter ofMembers)
  | some .null => .ok []
  | some value => .error (.wrongKind .parameters value.kind)
  | none => .ok []

end Parameter

namespace RequestBody

/-- A request body. -/
def ofMembers (members : Members Json) : Except Fault RequestBody := do
  let (content, extra) := Members.take "content" members
  pure ⟨← readContent content, extra⟩

/-- A request body or a reference to one. -/
def ofJson (value : Json) : Except Fault (RefOr RequestBody) :=
  RefOr.ofJson .requestBody ofMembers value

end RequestBody

namespace Response

/-- A response. -/
def ofMembers (members : Members Json) : Except Fault Response := do
  let (content, extra) := Members.take "content" members
  pure ⟨← readContent content, extra⟩

/-- A response or a reference to one. -/
def ofJson (value : Json) : Except Fault (RefOr Response) :=
  RefOr.ofJson .response ofMembers value

end Response

/-! ## Path items -/

/-- The members of a path item that are not read. -/
def PathItem.extraOf (members : Members Json) : Members Json :=
  members.filter fun member =>
    member.1 ≠ "parameters" && !(Method.all.map Method.key).contains member.1

/-- The members of an operation that are read. -/
def Operation.readKeys : List String :=
  ["operationId", "parameters", "requestBody", "responses", "callbacks"]

/-- The members of an operation that are not read. -/
def Operation.extraOf (members : Members Json) : Members Json :=
  members.filter fun member => !Operation.readKeys.contains member.1

mutual

/-- The path item that a value is. -/
def PathItem.ofJson (place : Place) (path : String) : Json → Except Fault PathItem
  | .object members => do
    let parameters ← Parameter.listOf (Members.get? "parameters" members)
    let get ← operationAt path .get members
    let put ← operationAt path .put members
    let post ← operationAt path .post members
    let delete ← operationAt path .delete members
    let options ← operationAt path .options members
    let head ← operationAt path .head members
    let patch ← operationAt path .patch members
    let trace ← operationAt path .trace members
    let operations := Method.all.zip [get, put, post, delete, options, head, patch, trace]
    pure
      { parameters
        operations := operations.filterMap fun entry => entry.2.map fun own => (entry.1, own)
        extra := PathItem.extraOf members }
  | value => .error (.wrongKind place value.kind)

/-- The operation under the key of a method, if there is one. -/
def operationAt (path : String) (method : Method) :
    List (String × Json) → Except Fault (Option Operation)
  | [] => .ok none
  | (key, value) :: rest =>
    if key = method.key then do pure (some (← Operation.ofJson path method value))
    else operationAt path method rest

/-- The operation that a value is. -/
def Operation.ofJson (path : String) (method : Method) : Json → Except Fault Operation
  | .object members => do
    let parameters ← Parameter.listOf (Members.get? "parameters" members)
    let requestBody ←
      match Members.get? "requestBody" members with
      | some body => do pure (some (← RequestBody.ofJson body))
      | none => pure none
    let responses ← readIfObject (fun _ => Response.ofJson) (Members.get? "responses" members)
    let callbacks ← callbacksIn members
    pure
      { operationId := (Members.get? "operationId" members).bind Json.string?
        parameters, requestBody, responses, callbacks
        extra := Operation.extraOf members }
  | value => .error (.wrongKind (.operation method.capitals path) value.kind)

/-- The callbacks among the members of an operation. -/
def callbacksIn : List (String × Json) → Except Fault (Members (RefOr Callback))
  | [] => .ok []
  | (key, value) :: rest =>
    if key = "callbacks" then
      match value with
      | .object entries => callbacksOf entries
      | _ => .ok []
    else callbacksIn rest

/-- Named callbacks. -/
def callbacksOf : List (String × Json) → Except Fault (Members (RefOr Callback))
  | [] => .ok []
  | (name, value) :: rest => do
    let callback ← Callback.ofJson value
    let callbacks ← callbacksOf rest
    pure ((name, callback) :: callbacks)

/-- The callback that a value is, or a reference to one. -/
def Callback.ofJson : Json → Except Fault (RefOr Callback)
  | .object members =>
    match Reference.ofMembers? members with
    | some target => .ok (.reference target)
    | none => do
      let items ← expressionsWhere (· ≠ "$ref") members
      let last ← expressionsWhere (· = "$ref") members
      pure (.item ⟨items ++ last⟩)
  | value => .error (.wrongKind .callback value.kind)

/-- The path items of a callback under the expressions that satisfy a predicate. -/
def expressionsWhere (wanted : String → Bool) :
    List (String × Json) → Except Fault (Members PathItem)
  | [] => .ok []
  | (expression, value) :: rest =>
    if wanted expression then do
      let item ← PathItem.ofJson (.callbackItem expression) expression value
      let items ← expressionsWhere wanted rest
      pure ((expression, item) :: items)
    else expressionsWhere wanted rest

end

/-! ## Whole documents -/

namespace Components

/-- The categories that are read. -/
def isRead (category : String) : Bool :=
  ["schemas", "requestBodies", "responses"].contains category

/-- A component schema; a fault says which one it is in. -/
def schemaOf (name : String) (value : Json) : Except Fault Schema :=
  (Schema.ofJson value).mapError (.inComponent name)

/-- The components of a document. -/
def ofMembers (members : Members Json) : Except Fault Components := do
  let schemas ← readIfObject schemaOf (Members.get? "schemas" members)
  let requestBodies ←
    readIfObject (fun _ => RequestBody.ofJson) (Members.get? "requestBodies" members)
  let responses ← readIfObject (fun _ => Response.ofJson) (Members.get? "responses" members)
  pure
    { schemas, requestBodies, responses
      extra := members.filter fun member => !isRead member.1 }

end Components

/-- Why a text or a value is not a document. -/
inductive ReadError where
  /-- The text is not well-formed. -/
  | malformed
  /-- The value is not an object. -/
  | notAnObject
  /-- The version of the format is not given. -/
  | unknownFormat
  | structure (fault : Fault)
deriving DecidableEq, Repr

namespace Document

/-- The version of the format, which must be 3. A version that reads as a number counts as its
text. -/
def versionOf (members : Members Json) : Except ReadError String := do
  let version ←
    match Members.get? "openapi" members with
    | some (.string version) => pure version
    | some (.number version) => pure (Json.numberText version)
    | _ => throw .unknownFormat
  if Text.startsWith "3." version then pure version
  else throw (.structure (.unsupportedVersion version))

/-- The paths of a document. -/
def pathsOf (members : Members Json) : Except Fault (Members PathItem) :=
  match Members.get? "paths" members with
  | some (.object entries) =>
    readEntries (fun path => PathItem.ofJson (.pathItem path) path) entries
  | some .null => .ok []
  | some value => .error (.wrongKind .paths value.kind)
  | none => .ok []

/-- The components of a document. -/
def componentsOf (members : Members Json) : Except Fault Components :=
  match Members.get? "components" members with
  | some (.object entries) => Components.ofMembers entries
  | some .null => .ok {}
  | some value => .error (.wrongKind .components value.kind)
  | none => .ok {}

/-- Whether a member of the root is read. -/
def isRead (key : String) : Bool :=
  ["openapi", "paths", "components"].contains key

/-- The document that a value is. -/
def ofJson : Json → Except ReadError Document
  | .object members => do
    let openapi ← versionOf members
    let paths ← (pathsOf members).mapError .structure
    let components ← (componentsOf members).mapError .structure
    pure
      { openapi, paths, components
        extra := members.filter fun member => !isRead member.1 }
  | _ => .error .notAnObject

end Document

end SchemaLift
