import SchemaLift.Schema.Basic

/-!
# Writing schemas

The JSON value of a schema. Each variant has a fixed order of keywords: the type and the descriptive
texts come first, the structure after them, the flags and all uninterpreted members last. Empty
lists and maps are left out.
-/

namespace SchemaLift

namespace Reference

/-- The pointer, then the siblings. -/
def toJson (reference : Reference) : Json :=
  .object (Members.extend [("$ref", .string reference.pointer)] reference.siblings)

end Reference

/-- A member that is written only if there is a value for it. -/
def optional {α : Type} (key : String) (write : α → Json) : Option α → Members Json
  | some value => [(key, write value)]
  | none => []

/-- A list that is written only if it is not empty. -/
def unlessEmpty (key : String) (values : List Json) : Members Json :=
  if values.isEmpty then [] else [(key, .array values)]

namespace DeclaredType

/-- The `type` keyword. -/
def toJson : DeclaredType → Json
  | .single name => .string name
  | .several names => .strings names

end DeclaredType

namespace Metadata

/-- The keywords in front of a node's structure. A leaf has its format among them. -/
def head (metadata : Metadata) (format : Option String) : Members Json :=
  optional "type" DeclaredType.toJson metadata.declaredType ++ optional "format" .string format ++
    optional "title" .string metadata.title ++
    optional "description" .string metadata.description

/-- The flags and examples behind a node's structure. -/
def flags (metadata : Metadata) : Members Json :=
  optional "nullable" .bool metadata.nullable ++ optional "readOnly" .bool metadata.readOnly ++
    optional "writeOnly" .bool metadata.writeOnly ++
    optional "deprecated" .bool metadata.deprecated ++
    optional "default" id metadata.defaultValue ++ optional "example" id metadata.exampleValue

/-- A whole node around its structure. -/
def around (metadata : Metadata) (format : Option String) (structural : Members Json) : Json :=
  let typed := metadata.head format ++ structural ++ metadata.flags
  .object (Members.extend (Members.extend typed metadata.extra) metadata.extensions)

end Metadata

namespace Discriminator

/-- The discriminator object. -/
def toJson (discriminator : Discriminator) : Json :=
  let mapping := Members.mapValues Json.string discriminator.mapping
  .object (Members.extend
    (("propertyName", .string discriminator.propertyName) ::
      (if mapping.isEmpty then [] else [("mapping", .object mapping)]))
    discriminator.extra)

end Discriminator

namespace PrimitiveSchema

/-- A leaf. -/
def toJson (leaf : PrimitiveSchema) : Json :=
  leaf.metadata.around leaf.format (unlessEmpty "enum" leaf.enumValues)

end PrimitiveSchema

namespace Schema

/-- The required properties. -/
def requiredMember (required : List String) : Members Json :=
  unlessEmpty "required" (required.map .string)

/-- Named schemas under a keyword. -/
def propertiesMember (properties : Members Json) : Members Json :=
  if properties.isEmpty then [] else [("properties", .object properties)]

mutual

/-- The JSON value of a schema. -/
def toJson : Schema → Json
  | .reference target => target.toJson
  | .boolean allowed => .bool allowed
  | .object ⟨properties, required, additional, discriminator, metadata⟩ =>
    metadata.around none
      (requiredMember required ++ propertiesMember (toMembers properties) ++
        additionalMember additional ++
        optional "discriminator" Discriminator.toJson discriminator)
  | .array ⟨items, metadata⟩ => metadata.around none (itemsMember items)
  | .map ⟨value, metadata⟩ => metadata.around none [("additionalProperties", value.toJson)]
  | .composed ⟨allOf, anyOf, oneOf, properties, required, discriminator, metadata⟩ =>
    metadata.around none
      (requiredMember required ++ propertiesMember (toMembers properties) ++
        unlessEmpty "allOf" (toElements allOf) ++ unlessEmpty "anyOf" (toElements anyOf) ++
        unlessEmpty "oneOf" (toElements oneOf) ++
        optional "discriminator" Discriminator.toJson discriminator)
  | .primitive leaf => leaf.toJson

/-- The schema of array items. -/
def itemsMember : Option Schema → Members Json
  | some items => [("items", items.toJson)]
  | none => []

/-- What is said about undeclared properties. -/
def additionalMember : AdditionalProperties → Members Json
  | .unspecified => []
  | .allowed value => [("additionalProperties", .bool value)]
  | .values schema => [("additionalProperties", schema.toJson)]

/-- The JSON values of a list of schemas. -/
def toElements : List Schema → List Json
  | [] => []
  | schema :: rest => schema.toJson :: toElements rest

/-- The JSON values of named schemas. -/
def toMembers : List (String × Schema) → List (String × Json)
  | [] => []
  | (name, schema) :: rest => (name, schema.toJson) :: toMembers rest

end

end Schema

end SchemaLift
