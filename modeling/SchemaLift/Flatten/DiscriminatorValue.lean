import SchemaLift.Schema.Basic

/-!
# Discriminator values of combinations

The extension `x-discriminator-value` of an inline member of `allOf` belongs to the combination. It
is lifted to it from the first member that has one, unless the combination has its own.
-/

namespace SchemaLift

/-- The extension that holds the discriminator value of a subtype. -/
def discriminatorValueKey : String := "x-discriminator-value"

namespace Metadata

/-- The discriminator value of a node. -/
def discriminatorValue? (metadata : Metadata) : Option Json :=
  Members.get? discriminatorValueKey metadata.extensions

/-- The metadata without a discriminator value if that is lifted, and as it is if not. -/
def bare (lifted : Bool) (metadata : Metadata) : Metadata :=
  if lifted then
    { metadata with extensions := Members.erase discriminatorValueKey metadata.extensions }
  else metadata

/-- The metadata with a discriminator value. -/
def withDiscriminatorValue (metadata : Metadata) (value : Json) : Metadata :=
  { metadata with extensions := Members.set discriminatorValueKey value metadata.extensions }

/-- Nothing is taken from metadata that is not lifted from. -/
@[simp] theorem bare_false (metadata : Metadata) : metadata.bare false = metadata := rfl

end Metadata

namespace Schema

/-- The discriminator value of a node; references have none. -/
def discriminatorValue? (schema : Schema) : Option Json :=
  schema.metadata?.bind Metadata.discriminatorValue?

/-- The node without its discriminator value if that is lifted, and as it is if not. -/
def bare (lifted : Bool) : Schema → Schema
  | .reference target => .reference target
  | .object shape => .object { shape with metadata := shape.metadata.bare lifted }
  | .array shape => .array { shape with metadata := shape.metadata.bare lifted }
  | .map shape => .map { shape with metadata := shape.metadata.bare lifted }
  | .composed shape => .composed { shape with metadata := shape.metadata.bare lifted }
  | .primitive leaf => .primitive { leaf with metadata := leaf.metadata.bare lifted }
  | .boolean allowed => .boolean allowed

@[simp] theorem bare_not_lifted : (schema : Schema) → schema.bare false = schema
  | .reference _ => rfl
  | .object ⟨_, _, _, _, _⟩ => rfl
  | .array ⟨_, _⟩ => rfl
  | .map ⟨_, _⟩ => rfl
  | .composed ⟨_, _, _, _, _, _, _⟩ => rfl
  | .primitive _ => rfl
  | .boolean _ => rfl

/-- The members of `allOf` without the discriminator value of the first that has one. -/
def bareParts : List Schema → List Schema
  | [] => []
  | part :: rest =>
    if part.discriminatorValue?.isSome then part.bare true :: rest else part :: bareParts rest

end Schema

namespace ComposedSchema

/-- The discriminator value to be lifted: that of the first member that has one. -/
def liftedValue? (combination : ComposedSchema) : Option Json :=
  if combination.metadata.discriminatorValue?.isSome then none
  else combination.allOf.findSome? Schema.discriminatorValue?

/-- The metadata of the combination with the lifted value. -/
def liftedMetadata (combination : ComposedSchema) : Metadata :=
  match combination.liftedValue? with
  | some value => combination.metadata.withDiscriminatorValue value
  | none => combination.metadata

/-- The combination with the discriminator value lifted from its members. -/
def lifted (combination : ComposedSchema) : ComposedSchema :=
  { combination with
    allOf :=
      if combination.liftedValue?.isSome then Schema.bareParts combination.allOf
      else combination.allOf
    metadata := combination.liftedMetadata }

end ComposedSchema

end SchemaLift
