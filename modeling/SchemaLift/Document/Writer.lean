import SchemaLift.Document.Basic
import SchemaLift.Schema.Writer

/-!
# Writing documents

The JSON value of a document. Members that are not interpreted come first where they stand beside
operations, contents or parameters, and last where they stand beside a schema. Empty lists and
maps are left out, except for the responses of an operation and the paths of the document.
-/

namespace SchemaLift

/-- A reference, or the item that stands in its place. -/
def RefOr.toJson {α : Type} (write : α → Json) : RefOr α → Json
  | .reference target => target.toJson
  | .item value => write value

/-- A map that is written only if it is not empty. -/
def unlessNone (key : String) (entries : Members Json) : Members Json :=
  if entries.isEmpty then [] else [(key, .object entries)]

namespace MediaType

/-- The schema, then the uninterpreted members. -/
def toJson (media : MediaType) : Json :=
  .object (Members.extend (optional "schema" Schema.toJson media.schema) media.extra)

end MediaType

/-- Media types by name. -/
def writeContent (content : Content) : Json :=
  .object (Members.mapValues MediaType.toJson content)

/-- Uninterpreted members with the content behind them. -/
def aroundContent (extra : Members Json) (content : Option Content) : Json :=
  .object (Members.extend extra (optional "content" writeContent content))

namespace Parameter

/-- A parameter: its identity, the uninterpreted members, then its schema and content. -/
def toJson (parameter : Parameter) : Json :=
  let identity :=
    [("name", .string parameter.name), ("in", .string parameter.location)]
  .object (Members.extend (Members.extend identity parameter.extra)
    (optional "schema" Schema.toJson parameter.schema ++
      optional "content" writeContent parameter.content))

/-- A list of parameters, if there are any. -/
def listMember (parameters : List (RefOr Parameter)) : Members Json :=
  unlessEmpty "parameters" (parameters.map (RefOr.toJson toJson))

end Parameter

namespace RequestBody

/-- A request body. -/
def toJson (body : RequestBody) : Json :=
  aroundContent body.extra body.content

end RequestBody

namespace Response

/-- A response. -/
def toJson (response : Response) : Json :=
  aroundContent response.extra response.content

end Response

mutual

/-- A path item. -/
def PathItem.toJson : PathItem → Json
  | ⟨parameters, operations, extra⟩ =>
    .object (Members.extend extra
      (Parameter.listMember parameters ++ operationMembers operations))

/-- Operations under the keys of their methods. -/
def operationMembers : List (Method × Operation) → Members Json
  | [] => []
  | (method, operation) :: rest => (method.key, operation.toJson) :: operationMembers rest

/-- An operation. -/
def Operation.toJson : Operation → Json
  | ⟨operationId, parameters, requestBody, responses, callbacks, extra⟩ =>
    .object (Members.extend
      (Members.extend (optional "operationId" .string operationId) extra)
      (Parameter.listMember parameters ++
        optional "requestBody" (RefOr.toJson RequestBody.toJson) requestBody ++
        [("responses", .object (Members.mapValues (RefOr.toJson Response.toJson) responses))] ++
        unlessNone "callbacks" (callbackMembers callbacks)))

/-- Callbacks by name. -/
def callbackMembers : List (String × RefOr Callback) → Members Json
  | [] => []
  | (name, .reference target) :: rest => (name, target.toJson) :: callbackMembers rest
  | (name, .item callback) :: rest => (name, callback.toJson) :: callbackMembers rest

/-- A callback. -/
def Callback.toJson : Callback → Json
  | ⟨expressions⟩ => .object (itemMembers expressions)

/-- Path items by path or expression. -/
def itemMembers : List (String × PathItem) → Members Json
  | [] => []
  | (key, item) :: rest => (key, item.toJson) :: itemMembers rest

end

namespace Components

/-- The categories of components that are not empty. -/
def toMembers (components : Components) : Members Json :=
  Members.extend
    (Members.extend
      (unlessNone "schemas" (Schema.toMembers components.schemas) ++
        unlessNone "responses"
          (Members.mapValues (RefOr.toJson Response.toJson) components.responses))
      components.extra)
    (unlessNone "requestBodies"
      (Members.mapValues (RefOr.toJson RequestBody.toJson) components.requestBodies))

end Components

namespace Document

/-- The JSON value of a document. -/
def toJson (document : Document) : Json :=
  .object (Members.extend
    (Members.extend [("openapi", .string document.openapi)] document.extra)
    (("paths", .object (itemMembers document.paths)) ::
      unlessNone "components" document.components.toMembers))

end Document

end SchemaLift
