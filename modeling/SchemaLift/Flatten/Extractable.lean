import SchemaLift.Schema.Basic

/-!
# Which schemas are extracted

A schema that is written inline at some position is extracted when it is a shape of its own: an
object with properties, or a combination that does more than relabel one reference. What counts
depends on the position (`Role`) and, for enumerations, on the `Policy`.
-/

namespace SchemaLift

/-- What the surroundings of a position allow to be extracted. -/
structure Policy where
  /-- Whether a leaf with a list of allowed values is extracted. -/
  inlineEnums : Bool := false
  /-- Whether the members of `allOf` are extracted like schemas at ordinary positions. -/
  parts : Bool := false
deriving DecidableEq, Repr

/-- The positions of schemas. -/
inductive Role where
  /-- An ordinary position: a body, a parameter, a property, an item or a map value. -/
  | slot
  /-- A member of `anyOf` or `oneOf`. -/
  | alternative
  /-- A member of `allOf`. -/
  | part
  /-- A component schema. -/
  | component
deriving DecidableEq, Repr

namespace Metadata

/-- Whether there is nothing here that makes a shape of its own. Description, nullability and being
read-only do not. -/
def onlyRelabels (metadata : Metadata) : Bool :=
  metadata.declaredType.isNone && metadata.title.isNone && metadata.writeOnly.isNone &&
    metadata.deprecated.isNone && metadata.defaultValue.isNone &&
    metadata.exampleValue.isNone && metadata.extensions.isEmpty && metadata.extra.isEmpty

end Metadata

namespace ComposedSchema

/-- A combination that only relabels one reference, or that combines nothing. -/
def isTrivial (combination : ComposedSchema) : Bool :=
  combination.anyOf.isEmpty && combination.oneOf.isEmpty && combination.properties.isEmpty &&
    combination.required.isEmpty && combination.discriminator.isNone &&
    match combination.allOf with
    | [] => true
    | [only] => only.isReference && combination.metadata.onlyRelabels
    | _ => false

end ComposedSchema

namespace Schema

/-- Whether a schema at an ordinary position is extracted. -/
def isExtractable (policy : Policy) : Schema → Bool
  | .object shape => !shape.properties.isEmpty
  | .composed shape => !shape.isTrivial
  | .primitive leaf => policy.inlineEnums && !leaf.enumValues.isEmpty
  | .reference _ | .array _ | .map _ | .boolean _ => false

/-- Whether an alternative is extracted. Every object is, even one without properties. -/
def isAlternativeExtractable (policy : Policy) : Schema → Bool
  | .object _ => true
  | schema => schema.isExtractable policy

/-- Whether a schema is extracted from a position. -/
def extractedAt (policy : Policy) (schema : Schema) : Role → Bool
  | .slot => schema.isExtractable policy
  | .alternative => schema.isAlternativeExtractable policy
  | .part => policy.parts && schema.isExtractable policy
  | .component => false

end Schema

end SchemaLift
