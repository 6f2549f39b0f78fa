import SchemaLift.Schema.Basic

/-!
# Equality of schemas

Maps are compared without regard to order, lists element by element. Two shapes that are equal in
this sense can stand for each other.
-/

namespace SchemaLift

/-- Equality of optional values. -/
def sameOption {α : Type} (related : α → α → Bool) : Option α → Option α → Bool
  | none, none => true
  | some left, some right => related left right
  | _, _ => false

namespace Metadata

/-- Equality of metadata. -/
def same (left right : Metadata) : Bool :=
  left.declaredType == right.declaredType && left.title == right.title &&
    left.description == right.description && left.nullable == right.nullable &&
    left.readOnly == right.readOnly && left.writeOnly == right.writeOnly &&
    left.deprecated == right.deprecated &&
    sameOption Json.same left.defaultValue right.defaultValue &&
    sameOption Json.same left.exampleValue right.exampleValue &&
    Json.sameMap left.extensions right.extensions && Json.sameMap left.extra right.extra

end Metadata

namespace Discriminator

/-- Equality of discriminators. -/
def same (left right : Discriminator) : Bool :=
  left.propertyName == right.propertyName &&
    Members.same (· == ·) left.mapping right.mapping && Json.sameMap left.extra right.extra

end Discriminator

namespace PrimitiveSchema

/-- Equality of leaves. -/
def same (left right : PrimitiveSchema) : Bool :=
  left.format == right.format && Json.sameElements left.enumValues right.enumValues &&
    left.metadata.same right.metadata

end PrimitiveSchema

namespace Schema

mutual

/-- Equality of schema nodes. -/
def same : Schema → Schema → Bool
  | .reference left, .reference right => left.same right
  | .object ⟨properties, required, additional, discriminator, metadata⟩, .object right =>
    properties.length == right.properties.length && sameProperties properties right.properties &&
      required == right.required && sameAdditional additional right.additional &&
      sameOption Discriminator.same discriminator right.discriminator &&
      metadata.same right.metadata
  | .array ⟨items, metadata⟩, .array right =>
    sameItems items right.items && metadata.same right.metadata
  | .map ⟨value, metadata⟩, .map right => value.same right.value && metadata.same right.metadata
  | .composed ⟨allOf, anyOf, oneOf, properties, required, discriminator, metadata⟩,
      .composed right =>
    sameList allOf right.allOf && sameList anyOf right.anyOf && sameList oneOf right.oneOf &&
      properties.length == right.properties.length && sameProperties properties right.properties &&
      required == right.required &&
      sameOption Discriminator.same discriminator right.discriminator &&
      metadata.same right.metadata
  | .primitive left, .primitive right => left.same right
  | .boolean left, .boolean right => left == right
  | _, _ => false

/-- Every property has an equal one of the same name on the right. -/
def sameProperties : List (String × Schema) → List (String × Schema) → Bool
  | [], _ => true
  | (name, left) :: rest, others =>
    (match Members.get? name others with
      | some right => left.same right
      | none => false) && sameProperties rest others

/-- Equality of what is said about undeclared properties. -/
def sameAdditional : AdditionalProperties → AdditionalProperties → Bool
  | .unspecified, .unspecified => true
  | .allowed left, .allowed right => left == right
  | .values left, .values right => left.same right
  | _, _ => false

/-- Equality of the schemas of array items. -/
def sameItems : Option Schema → Option Schema → Bool
  | none, none => true
  | some left, some right => left.same right
  | _, _ => false

/-- Equality of lists of schemas. -/
def sameList : List Schema → List Schema → Bool
  | [], [] => true
  | left :: lefts, right :: rights => left.same right && sameList lefts rights
  | _, _ => false

end

instance : BEq Schema := ⟨same⟩

/-- Equality of named schemas as a map. -/
def sameMap (left right : Members Schema) : Bool :=
  left.length == right.length && sameProperties left right

end Schema

end SchemaLift
