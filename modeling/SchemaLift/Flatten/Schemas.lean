import SchemaLift.Flatten.DiscriminatorValue
import SchemaLift.Flatten.Pass

/-!
# Flattening schemas

A schema is visited with everything below it. A node that is extracted is registered before its
children are visited, so that names are given from the outside to the inside. The order is:
properties, undeclared properties, items, then the members of `allOf`, `anyOf` and `oneOf`.
-/

namespace SchemaLift.Flatten

mutual

/-- Flatten a schema at a position with a derived name. `lifted` tells that the discriminator value
of the schema has gone to the combination it is part of. -/
def visitSchema (config : Config) (policy : Policy) (role : Role) (lifted : Bool)
    (derived : String) : Schema → Step Schema
  | .reference target => do
    checkSchema target
    pure (.reference target)
  | .boolean allowed => pure (.boolean allowed)
  | .primitive ⟨format, enumValues, metadata⟩ =>
    let leaf := .primitive ⟨format, enumValues, metadata.bare lifted⟩
    place config policy role leaf derived fun _ => pure leaf
  | .array ⟨items, metadata⟩ =>
    let metadata := metadata.bare lifted
    place config policy role (.array ⟨items, metadata⟩) derived fun parent => do
      let items ← visitOptional config policy (config.arrayItem parent) items
      pure (.array ⟨items, metadata⟩)
  | .map ⟨value, metadata⟩ =>
    let metadata := metadata.bare lifted
    place config policy role (.map ⟨value, metadata⟩) derived fun parent => do
      let value ← visitSchema config policy .slot false (config.mapValue parent) value
      pure (.map ⟨value, metadata⟩)
  | .object ⟨properties, required, additional, discriminator, metadata⟩ =>
    let metadata := metadata.bare lifted
    let shape := .object ⟨properties, required, additional, discriminator, metadata⟩
    place config policy role shape derived fun parent => do
      let properties ← visitProperties config policy parent properties
      let additional ← visitAdditional config policy (config.mapValue parent) additional
      pure (.object ⟨properties, required, additional, discriminator, metadata⟩)
  | .composed ⟨allOf, anyOf, oneOf, properties, required, discriminator, metadata⟩ =>
    let combination : ComposedSchema :=
      ⟨allOf, anyOf, oneOf, properties, required, discriminator, metadata.bare lifted⟩
    place config policy role (.composed combination) derived fun parent => do
      let lifts := combination.liftedValue?.isSome
      let properties ← visitProperties config policy parent properties
      let allOf ← visitParts config policy (Naming.members parent .allOf) lifts allOf
      let anyOf ← visitAlternatives config policy (Naming.members parent .anyOf) anyOf
      let oneOf ← visitAlternatives config policy (Naming.members parent .oneOf) oneOf
      pure (.composed ⟨allOf, anyOf, oneOf, properties, required, discriminator,
        combination.liftedMetadata⟩)

/-- Flatten a schema that need not be there. -/
def visitOptional (config : Config) (policy : Policy) (derived : String) :
    Option Schema → Step (Option Schema)
  | none => pure none
  | some schema => do pure (some (← visitSchema config policy .slot false derived schema))

/-- Flatten the schema of undeclared properties. -/
def visitAdditional (config : Config) (policy : Policy) (derived : String) :
    AdditionalProperties → Step AdditionalProperties
  | .unspecified => pure .unspecified
  | .allowed value => pure (.allowed value)
  | .values schema => do pure (.values (← visitSchema config policy .slot false derived schema))

/-- Flatten declared properties. -/
def visitProperties (config : Config) (policy : Policy) (parent : String) :
    List (String × Schema) → Step (List (String × Schema))
  | [] => pure []
  | (name, schema) :: rest => do
    let schema ←
      visitSchema config policy .slot false (Naming.property parent name) schema
    let rest ← visitProperties config policy parent rest
    pure ((name, schema) :: rest)

/-- Flatten the members of `allOf`. If a discriminator value is to be lifted from them, the first
member that has one loses it. -/
def visitParts (config : Config) (policy : Policy) (derived : String) (lifts : Bool) :
    List Schema → Step (List Schema)
  | [] => pure []
  | part :: rest => do
    let lifted := lifts && part.discriminatorValue?.isSome
    let part ← visitSchema config policy .part lifted derived part
    let rest ← visitParts config policy derived (lifts && !lifted) rest
    pure (part :: rest)

/-- Flatten the members of `anyOf` or `oneOf`. -/
def visitAlternatives (config : Config) (policy : Policy) (derived : String) :
    List Schema → Step (List Schema)
  | [] => pure []
  | schema :: rest => do
    let schema ← visitSchema config policy .alternative false derived schema
    let rest ← visitAlternatives config policy derived rest
    pure (schema :: rest)

end

/-- Flatten the inside of a component schema. -/
def visitComponent (config : Config) (policy : Policy) (name : String) : Step Unit := do
  let schema ← takeOut name
  putBack name (← visitSchema config policy .component false name schema)

end SchemaLift.Flatten
