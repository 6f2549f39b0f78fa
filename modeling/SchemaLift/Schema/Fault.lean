import SchemaLift.Json.Basic

/-!
# Structural faults

Why a value is not a document or not a schema: something has the wrong kind, or a part that is
needed is missing. A fault inside a property or a component schema says where it is.
-/

namespace SchemaLift

/-- The schema keywords whose values must be of some kind. -/
inductive Keyword where
  | allOf
  | anyOf
  | oneOf
  | properties
  | additionalProperties
  | discriminator
  | type
  | enumeration
deriving DecidableEq, Repr

/-- The keyword as it is written. -/
def Keyword.text : Keyword → String
  | .allOf => "allOf"
  | .anyOf => "anyOf"
  | .oneOf => "oneOf"
  | .properties => "properties"
  | .additionalProperties => "additionalProperties"
  | .discriminator => "discriminator"
  | .type => "type"
  | .enumeration => "enum"

/-- A part of a document that must be of some kind. -/
inductive Place where
  | paths
  | components
  | pathItem (path : String)
  | callbackItem (expression : String)
  | operation (method path : String)
  | parameters
  | content
  | mediaType (name : String)
  | parameter
  | requestBody
  | response
  | callback
  | schema
  | keyword (name : Keyword)
deriving DecidableEq, Repr

namespace Place

/-- The name of a part in a message. -/
def words : Place → String
  | .paths => "'paths'"
  | .components => "'components'"
  | .pathItem path => "path item for '" ++ path ++ "'"
  | .callbackItem expression => "callback path item for '" ++ expression ++ "'"
  | .operation method path => "operation " ++ method ++ " " ++ path
  | .parameters => "'parameters'"
  | .content => "'content'"
  | .mediaType name => "media type '" ++ name ++ "'"
  | .parameter => "parameter"
  | .requestBody => "requestBody"
  | .response => "response"
  | .callback => "callback"
  | .schema => "schema"
  | .keyword named => named.text

/-- The kind that a part must have. -/
def expectation : Place → String
  | .parameters => "an array"
  | .schema => "an object or boolean"
  | .keyword .properties => "an object"
  | .keyword .discriminator => "an object"
  | .keyword .additionalProperties => "a boolean or schema"
  | .keyword .type => "a string or array"
  | .keyword _ => "an array"
  | _ => "an object"

/-- Whether a message also says which kind was found. -/
def tellsKind : Place → Bool
  | .parameter | .requestBody | .response | .callback | .schema | .keyword _ => true
  | _ => false

end Place

/-- A structural fault. -/
inductive Fault where
  | unsupportedVersion (version : String)
  | wrongKind (place : Place) (found : Json.Kind)
  | typeNotText
  | noPropertyName
  | inProperty (name : String) (fault : Fault)
  | inComponent (name : String) (fault : Fault)
deriving DecidableEq, Repr

/-- The message of a fault. -/
def Fault.message : Fault → String
  | .unsupportedVersion version =>
    "unsupported OpenAPI version: " ++ version ++ " (only 3.x supported)"
  | .wrongKind place found =>
    place.words ++ " must be " ++ place.expectation ++
      (if place.tellsKind then ", found " ++ found.word else "")
  | .typeNotText => "type array must contain strings"
  | .noPropertyName => "discriminator is missing 'propertyName'"
  | .inProperty name fault => "property '" ++ name ++ "': " ++ fault.message
  | .inComponent name fault => "components.schemas." ++ name ++ ": " ++ fault.message

end SchemaLift
