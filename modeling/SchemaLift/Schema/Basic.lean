import SchemaLift.Pointer

/-!
# Schemas

A schema node is a reference, a leaf, or a node with child schemas. Which it is follows from its
keywords alone, once, when it is read. The keywords that every node but a reference may have are its
`Metadata`; keywords that are not interpreted stay in `extra`, and those that start with `x-` in
`extensions`.
-/

namespace SchemaLift

/-- The `type` of a schema: one, or a list of alternatives. -/
inductive DeclaredType where
  | single (name : String)
  | several (names : List String)
deriving DecidableEq, Repr

/-- Whether a type is among the declared ones. -/
def DeclaredType.includes (declared : DeclaredType) (name : String) : Bool :=
  match declared with
  | .single only => only == name
  | .several names => names.contains name

/-- The keywords that any schema but a reference may have. -/
structure Metadata where
  declaredType : Option DeclaredType := none
  title : Option String := none
  description : Option String := none
  nullable : Option Bool := none
  readOnly : Option Bool := none
  writeOnly : Option Bool := none
  deprecated : Option Bool := none
  defaultValue : Option Json := none
  exampleValue : Option Json := none
  extensions : List (String × Json) := []
  extra : List (String × Json) := []
deriving Inhabited

/-- The property that tells which alternative applies, and which schema each of its values means. -/
structure Discriminator where
  propertyName : String
  mapping : List (String × String)
  extra : List (String × Json)
deriving Inhabited

/-- A leaf: a text, a number, a truth value or anything at all. -/
structure PrimitiveSchema where
  format : Option String := none
  enumValues : List Json := []
  metadata : Metadata := {}
deriving Inhabited

mutual

/-- A schema node. -/
inductive Schema where
  | reference (reference : Reference)
  | object (shape : ObjectSchema)
  | array (shape : ArraySchema)
  | map (shape : MapSchema)
  | composed (shape : ComposedSchema)
  | primitive (shape : PrimitiveSchema)
  | boolean (allowed : Bool)

/-- An object with or without declared properties. -/
structure ObjectSchema where
  properties : List (String × Schema)
  required : List String
  additional : AdditionalProperties
  discriminator : Option Discriminator
  metadata : Metadata

/-- What an object says about the properties that it does not declare. -/
inductive AdditionalProperties where
  | unspecified
  | allowed (value : Bool)
  | values (schema : Schema)

/-- An array with one schema for all its items. -/
structure ArraySchema where
  items : Option Schema
  metadata : Metadata

/-- An object that is described by the schema of its values only. -/
structure MapSchema where
  value : Schema
  metadata : Metadata

/-- A combination of schemas. -/
structure ComposedSchema where
  allOf : List Schema
  anyOf : List Schema
  oneOf : List Schema
  properties : List (String × Schema)
  required : List String
  discriminator : Option Discriminator
  metadata : Metadata

end

namespace Schema

/-- The leaf that says nothing. It also holds the place of a schema that is taken out. -/
def blank : Schema :=
  .primitive {}

instance : Inhabited Schema := ⟨blank⟩

/-- A reference to a component schema. -/
def referenceTo (name : String) : Schema :=
  .reference ⟨Pointer.toSchema name, []⟩

/-- The metadata of a node; references and truth values have none. -/
def metadata? : Schema → Option Metadata
  | .reference _ => none
  | .object shape => some shape.metadata
  | .array shape => some shape.metadata
  | .map shape => some shape.metadata
  | .composed shape => some shape.metadata
  | .primitive shape => some shape.metadata
  | .boolean _ => none

/-- The title of a node. -/
def title? (schema : Schema) : Option String :=
  schema.metadata?.bind Metadata.title

/-- The vendor extensions of a node. -/
def extensions (schema : Schema) : List (String × Json) :=
  (schema.metadata?.map Metadata.extensions).getD []

/-- Whether a node is a reference. -/
def isReference : Schema → Bool
  | .reference _ => true
  | _ => false

/-- The declared properties of an object or a combination. -/
def properties : Schema → List (String × Schema)
  | .object shape => shape.properties
  | .composed shape => shape.properties
  | _ => []

end Schema

end SchemaLift
