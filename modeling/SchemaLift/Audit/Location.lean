import SchemaLift.Document.Basic
import SchemaLift.Flatten.Extractable

/-!
# Schemas by location

All schemas of a document with their locations, in a fixed order: a schema comes before the schemas
below it. A location is the path that leads to the schema in the written document; as a text it is a
JSON pointer.
-/

namespace SchemaLift

/-- The keys and indices on the way to a schema. -/
abbrev Location := List String

namespace Location

/-- A segment of a JSON pointer, where tildes and slashes are escaped. -/
def escape (segment : String) : String :=
  String.ofList (segment.toList.flatMap fun char =>
    if char = '~' then ['~', '0'] else if char = '/' then ['~', '1'] else [char])

/-- The JSON pointer to a location. -/
def pointer (location : Location) : String :=
  String.join (location.map fun segment => "/" ++ escape segment)

end Location

/-- A schema with its location and the kind of position that it stands at. -/
structure Sighting where
  location : Location
  role : Role
  schema : Schema

namespace Schema

mutual

/-- A schema and the schemas below it. -/
def sightings (location : Location) (role : Role) : Schema → List Sighting
  | .reference target => [⟨location, role, .reference target⟩]
  | .boolean allowed => [⟨location, role, .boolean allowed⟩]
  | .primitive leaf => [⟨location, role, .primitive leaf⟩]
  | .array ⟨items, metadata⟩ =>
    ⟨location, role, .array ⟨items, metadata⟩⟩ ::
      optionalSightings (location ++ ["items"]) items
  | .map ⟨value, metadata⟩ =>
    ⟨location, role, .map ⟨value, metadata⟩⟩ ::
      value.sightings (location ++ ["additionalProperties"]) .slot
  | .object ⟨properties, required, additional, discriminator, metadata⟩ =>
    ⟨location, role, .object ⟨properties, required, additional, discriminator, metadata⟩⟩ ::
      (propertySightings (location ++ ["properties"]) properties ++
        additionalSightings (location ++ ["additionalProperties"]) additional)
  | .composed ⟨allOf, anyOf, oneOf, properties, required, discriminator, metadata⟩ =>
    ⟨location, role,
        .composed ⟨allOf, anyOf, oneOf, properties, required, discriminator, metadata⟩⟩ ::
      (propertySightings (location ++ ["properties"]) properties ++
        (memberSightings (location ++ ["allOf"]) .part 0 allOf ++
          (memberSightings (location ++ ["anyOf"]) .alternative 0 anyOf ++
            memberSightings (location ++ ["oneOf"]) .alternative 0 oneOf)))

/-- The schemas of a position that need not be filled. -/
def optionalSightings (location : Location) : Option Schema → List Sighting
  | some schema => schema.sightings location .slot
  | none => []

/-- The schemas of undeclared properties. -/
def additionalSightings (location : Location) : AdditionalProperties → List Sighting
  | .values schema => schema.sightings location .slot
  | .unspecified | .allowed _ => []

/-- The schemas of declared properties. -/
def propertySightings (location : Location) : List (String × Schema) → List Sighting
  | [] => []
  | (name, schema) :: rest =>
    schema.sightings (location ++ [name]) .slot ++ propertySightings location rest

/-- The schemas of a list, which is counted from an index on. -/
def memberSightings (location : Location) (role : Role) (index : Nat) :
    List Schema → List Sighting
  | [] => []
  | schema :: rest =>
    schema.sightings (location ++ [toString index]) role ++
      memberSightings location role (index + 1) rest

end

end Schema

/-! ## Documents -/

/-- The schemas of a content. -/
def contentSightings (location : Location) : Option Content → List Sighting
  | some content =>
    content.flatMap fun media =>
      Schema.optionalSightings (location ++ ["content", media.1, "schema"]) media.2.schema
  | none => []

/-- The schemas of a list of parameters, which is counted from an index on. -/
def parameterSightings (location : Location) (index : Nat) :
    List (RefOr Parameter) → List Sighting
  | [] => []
  | .reference _ :: rest => parameterSightings location (index + 1) rest
  | .item parameter :: rest =>
    let own := location ++ ["parameters", toString index]
    Schema.optionalSightings (own ++ ["schema"]) parameter.schema ++
      (contentSightings own parameter.content ++ parameterSightings location (index + 1) rest)

/-- The schemas of a request body. -/
def bodySightings (location : Location) : RefOr RequestBody → List Sighting
  | .reference _ => []
  | .item body => contentSightings location body.content

/-- The schemas of a response. -/
def responseSightings (location : Location) : RefOr Response → List Sighting
  | .reference _ => []
  | .item response => contentSightings location response.content

mutual

/-- The schemas of a path item. -/
def PathItem.sightings (location : Location) : PathItem → List Sighting
  | ⟨parameters, operations, _⟩ =>
    parameterSightings location 0 parameters ++ operationSightings location operations

/-- The schemas of the operations of a path. -/
def operationSightings (location : Location) : List (Method × Operation) → List Sighting
  | [] => []
  | (method, operation) :: rest =>
    operation.sightings (location ++ [method.key]) ++ operationSightings location rest

/-- The schemas of an operation. -/
def Operation.sightings (location : Location) : Operation → List Sighting
  | ⟨_, parameters, requestBody, responses, callbacks, _⟩ =>
    parameterSightings location 0 parameters ++
      ((match requestBody with
        | some body => bodySightings (location ++ ["requestBody"]) body
        | none => []) ++
      (responses.flatMap (fun response =>
          responseSightings (location ++ ["responses", response.1]) response.2) ++
        callbackSightings (location ++ ["callbacks"]) callbacks))

/-- The schemas of callbacks. -/
def callbackSightings (location : Location) : List (String × RefOr Callback) → List Sighting
  | [] => []
  | (_, .reference _) :: rest => callbackSightings location rest
  | (name, .item ⟨expressions⟩) :: rest =>
    itemSightings (location ++ [name]) expressions ++ callbackSightings location rest

/-- The schemas of path items by path or expression. -/
def itemSightings (location : Location) : List (String × PathItem) → List Sighting
  | [] => []
  | (path, item) :: rest =>
    item.sightings (location ++ [path]) ++ itemSightings location rest

end

namespace Document

/-- All schemas of a document. -/
def sightings (document : Document) : List Sighting :=
  itemSightings ["paths"] document.paths ++
    (document.components.requestBodies.flatMap (fun body =>
        bodySightings ["components", "requestBodies", body.1] body.2) ++
      (document.components.responses.flatMap (fun response =>
          responseSightings ["components", "responses", response.1] response.2) ++
        document.components.schemas.flatMap (fun schema =>
          schema.2.sightings ["components", "schemas", schema.1] .component)))

end Document

end SchemaLift
