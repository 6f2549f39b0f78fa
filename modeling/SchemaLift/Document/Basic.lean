import SchemaLift.Schema.Equality

/-!
# Documents

An OpenAPI document: path items with their operations, and the components that can be referenced.
Members that are not interpreted stay in `extra` where they were found.
-/

namespace SchemaLift

/-- The methods of operations. -/
inductive Method where
  | get
  | put
  | post
  | delete
  | options
  | head
  | patch
  | trace
deriving DecidableEq, Repr

namespace Method

/-- All methods, in the order in which operations are visited and written. -/
def all : List Method :=
  [.get, .put, .post, .delete, .options, .head, .patch, .trace]

/-- The key of a method in a path item. -/
def key : Method → String
  | .get => "get"
  | .put => "put"
  | .post => "post"
  | .delete => "delete"
  | .options => "options"
  | .head => "head"
  | .patch => "patch"
  | .trace => "trace"

/-- The method in capitals, as messages show it. -/
def capitals : Method → String
  | .get => "GET"
  | .put => "PUT"
  | .post => "POST"
  | .delete => "DELETE"
  | .options => "OPTIONS"
  | .head => "HEAD"
  | .patch => "PATCH"
  | .trace => "TRACE"

/-- The method with a key. -/
def ofKey? (key : String) : Option Method :=
  all.find? (·.key = key)

theorem mem_all (method : Method) : method ∈ all := by
  cases method <;> decide

end Method

/-- The schema of one media type. -/
structure MediaType where
  schema : Option Schema
  extra : List (String × Json)

/-- Media types by name. -/
abbrev Content := Members MediaType

/-- A parameter of an operation or of a whole path item. -/
structure Parameter where
  name : String
  location : String
  schema : Option Schema
  content : Option Content
  extra : List (String × Json)

/-- A request body. -/
structure RequestBody where
  content : Option Content
  extra : List (String × Json)

/-- A response. -/
structure Response where
  content : Option Content
  extra : List (String × Json)

mutual

/-- The operations of a path, at most one for each method, in the order of `Method.all`. -/
structure PathItem where
  parameters : List (RefOr Parameter)
  operations : List (Method × Operation)
  extra : List (String × Json)

/-- An operation. Responses are keyed by status, callbacks by name. -/
structure Operation where
  operationId : Option String
  parameters : List (RefOr Parameter)
  requestBody : Option (RefOr RequestBody)
  responses : List (String × RefOr Response)
  callbacks : List (String × RefOr Callback)
  extra : List (String × Json)

/-- Path items by the expressions that they are called at. -/
structure Callback where
  expressions : List (String × PathItem)

end

/-- The components that pointers can name. -/
structure Components where
  schemas : List (String × Schema) := []
  requestBodies : List (String × RefOr RequestBody) := []
  responses : List (String × RefOr Response) := []
  extra : List (String × Json) := []

/-- A document. -/
structure Document where
  openapi : String := ""
  paths : List (String × PathItem) := []
  components : Components := {}
  extra : List (String × Json) := []

/-! ## Equality -/

namespace MediaType

/-- Equality of media types. -/
def same (left right : MediaType) : Bool :=
  sameOption Schema.same left.schema right.schema && Json.sameMap left.extra right.extra

end MediaType

/-- Equality of contents. -/
def sameContent (left right : Option Content) : Bool :=
  sameOption (Members.same MediaType.same) left right

namespace Parameter

/-- Equality of parameters. -/
def same (left right : Parameter) : Bool :=
  left.name == right.name && left.location == right.location &&
    sameOption Schema.same left.schema right.schema && sameContent left.content right.content &&
    Json.sameMap left.extra right.extra

end Parameter

namespace RequestBody

/-- Equality of request bodies. -/
def same (left right : RequestBody) : Bool :=
  sameContent left.content right.content && Json.sameMap left.extra right.extra

end RequestBody

namespace Response

/-- Equality of responses. -/
def same (left right : Response) : Bool :=
  sameContent left.content right.content && Json.sameMap left.extra right.extra

end Response

/-- Equality of lists, element by element. -/
def sameLists {α : Type} (related : α → α → Bool) : List α → List α → Bool
  | [], [] => true
  | left :: lefts, right :: rights => related left right && sameLists related lefts rights
  | _, _ => false

mutual

/-- Equality of path items. -/
def PathItem.same : PathItem → PathItem → Bool
  | ⟨parameters, operations, extra⟩, right =>
    sameLists (RefOr.same Parameter.same) parameters right.parameters &&
      sameOperations operations right.operations && Json.sameMap extra right.extra

/-- Equality of operations by method. -/
def sameOperations : List (Method × Operation) → List (Method × Operation) → Bool
  | [], [] => true
  | (method, left) :: lefts, (other, right) :: rights =>
    method == other && left.same right && sameOperations lefts rights
  | _, _ => false

/-- Equality of operations. -/
def Operation.same : Operation → Operation → Bool
  | ⟨operationId, parameters, requestBody, responses, callbacks, extra⟩, right =>
    operationId == right.operationId &&
      sameLists (RefOr.same Parameter.same) parameters right.parameters &&
      sameOption (RefOr.same RequestBody.same) requestBody right.requestBody &&
      Members.same (RefOr.same Response.same) responses right.responses &&
      callbacks.length == right.callbacks.length && sameCallbacks callbacks right.callbacks &&
      Json.sameMap extra right.extra

/-- Every callback has an equal one of the same name on the right. -/
def sameCallbacks :
    List (String × RefOr Callback) → List (String × RefOr Callback) → Bool
  | [], _ => true
  | (name, left) :: rest, others =>
    (match left, Members.get? name others with
      | .reference left, some (.reference right) => left.same right
      | .item left, some (.item right) => left.same right
      | _, _ => false) && sameCallbacks rest others

/-- Equality of callbacks. -/
def Callback.same : Callback → Callback → Bool
  | ⟨expressions⟩, right =>
    expressions.length == right.expressions.length && sameItems expressions right.expressions

/-- Every path item has an equal one of the same key on the right. -/
def sameItems : List (String × PathItem) → List (String × PathItem) → Bool
  | [], _ => true
  | (key, left) :: rest, others =>
    (match Members.get? key others with
      | some right => left.same right
      | none => false) && sameItems rest others

end

namespace Components

/-- Equality of components. -/
def same (left right : Components) : Bool :=
  Schema.sameMap left.schemas right.schemas &&
    Members.same (RefOr.same RequestBody.same) left.requestBodies right.requestBodies &&
    Members.same (RefOr.same Response.same) left.responses right.responses &&
    Json.sameMap left.extra right.extra

end Components

namespace Document

/-- Equality of documents. -/
def same (left right : Document) : Bool :=
  left.openapi == right.openapi &&
    (left.paths.length == right.paths.length && sameItems left.paths right.paths) &&
    left.components.same right.components && Json.sameMap left.extra right.extra

instance : BEq Document := ⟨same⟩

end Document

end SchemaLift
