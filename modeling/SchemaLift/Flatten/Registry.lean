import SchemaLift.Schema.Equality

/-!
# The registry of component schemas

The component schemas while a document is flattened: those that were there before, and those that
have been extracted. An extraction is remembered with its shape, so that the next schema of the same
base name and shape can share it.

A schema can be taken out to be worked on. It leaves the blank schema in its place until it is put
back, so that the order of the names never changes.
-/

namespace SchemaLift

/-- A shape that was moved out of its place, with the base name that was asked for and the name of
the component that stands for it. -/
structure Extraction where
  base : String
  shape : Schema
  name : String

/-- The component schemas of a document that is being flattened. -/
structure Registry where
  schemas : List (String × Schema)
  /-- The schemas as they were in the beginning. -/
  initial : List (String × Schema)
  /-- What has been registered, the first extraction first. -/
  generated : List Extraction

namespace Registry

/-- The registry of given schemas. -/
def ofSchemas (schemas : Members Schema) : Registry :=
  ⟨schemas, schemas, []⟩

/-- Whether a name is taken. -/
def contains (registry : Registry) (name : String) : Bool :=
  Members.has name registry.schemas

/-- The name of a schema that can be shared: registered under the same base name with the same
shape, or there from the beginning with the base as its name. -/
def reusable? (registry : Registry) (base : String) (candidate : Schema) : Option String :=
  match registry.generated.find? fun known => known.base == base && known.shape == candidate with
  | some known => some known.name
  | none =>
    match Members.get? base registry.initial with
    | some schema => if schema == candidate then some base else none
    | none => none

/-- A base name with a number behind it. -/
def numbered (base : String) (number : Nat) : String :=
  base ++ "_" ++ toString number

/-- The base name if it is free, and otherwise the free one of its numbered names with the least
number. There are not more numbers to try than there are schemas. -/
def uniqueName (registry : Registry) (base : String) : String :=
  if registry.contains base then
    match (List.range' 1 registry.schemas.length).find? fun number =>
        !registry.contains (numbered base number) with
    | some number => numbered base number
    | none => base
  else base

/-- Add an extracted schema. -/
def register (registry : Registry) (base name : String) (schema : Schema) : Registry :=
  { registry with
    schemas := Members.set name schema registry.schemas
    generated := registry.generated ++ [⟨base, schema, name⟩] }

/-- Take out a schema and leave the blank one in its place. -/
def take? (registry : Registry) (name : String) : Option (Schema × Registry) :=
  (Members.get? name registry.schemas).map fun schema =>
    (schema, { registry with schemas := Members.update name .blank registry.schemas })

/-- Put back a schema that was taken out. -/
def restore (registry : Registry) (name : String) (schema : Schema) : Registry :=
  { registry with schemas := Members.update name schema registry.schemas }

/-- What is taken out right after it was registered is what was registered. -/
theorem take?_register (registry : Registry) (base name : String) (schema : Schema) :
    ((registry.register base name schema).take? name).map Prod.fst = some schema := by
  simp [take?, register, Members.get?_set]

end Registry

end SchemaLift
