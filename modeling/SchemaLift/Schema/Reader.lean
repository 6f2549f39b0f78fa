import SchemaLift.Schema.Basic
import SchemaLift.Schema.Fault

/-!
# Reading schemas

The keywords of a node decide its variant: a textual `$ref` makes it a reference; otherwise any of
`allOf`, `anyOf` and `oneOf` a combination; otherwise an array, then an object or a map, and at last
a leaf. A keyword whose value has an unexpected kind is either refused or kept uninterpreted among
the extra members.
-/

namespace SchemaLift

namespace Reference

/-- The reference that an object is, if its `$ref` is a text. -/
def ofMembers? (members : Members Json) : Option Reference :=
  match Members.get? "$ref" members with
  | some (.string pointer) => some ⟨pointer, Members.erase "$ref" members⟩
  | _ => none

end Reference

/-- The members of an object that is not a reference. A `$ref` of another kind counts as an
uninterpreted member and goes to the end. -/
def withoutReference (members : Members Json) : Members Json :=
  Members.moveToEnd "$ref" members

namespace DeclaredType

/-- The `type` of a node. -/
def ofMembers (members : Members Json) : Except Fault (Option DeclaredType) :=
  match Members.get? Keyword.type.text members with
  | some (.string name) => .ok (some (.single name))
  | some (.array names) =>
    match (Json.array names).strings? with
    | some names => .ok (some (.several names))
    | none => .error .typeNotText
  | some .null => .ok none
  | some value => .error (.wrongKind (.keyword .type) value.kind)
  | none => .ok none

end DeclaredType

namespace Metadata

/-- Whether a key is a vendor extension. -/
def isExtension (key : String) : Bool :=
  Text.startsWith "x-" key

/-- The metadata in the members that a node's variant has left over. -/
def ofMembers (members : Members Json) : Except Fault Metadata := do
  let declaredType ← DeclaredType.ofMembers members
  let members := Members.erase Keyword.type.text members
  let (title, members) := Members.takeAs Json.string? "title" members
  let (description, members) := Members.takeAs Json.string? "description" members
  let (nullable, members) := Members.takeAs Json.bool? "nullable" members
  let (readOnly, members) := Members.takeAs Json.bool? "readOnly" members
  let (writeOnly, members) := Members.takeAs Json.bool? "writeOnly" members
  let (deprecated, members) := Members.takeAs Json.bool? "deprecated" members
  let (defaultValue, members) := Members.take "default" members
  let (exampleValue, members) := Members.take "example" members
  pure
    { declaredType, title, description, nullable, readOnly, writeOnly, deprecated
      defaultValue, exampleValue
      extensions := members.filter fun member => isExtension member.1
      extra := members.filter fun member => !isExtension member.1 }

end Metadata

namespace Discriminator

/-- The discriminator of a node. Entries of its mapping that are not texts do not count. -/
def ofMembers (members : Members Json) : Except Fault (Option Discriminator) :=
  match Members.get? Keyword.discriminator.text members with
  | some (.object own) =>
    match Members.takeAs Json.string? "propertyName" own with
    | (some propertyName, own) =>
      let (mapping, extra) := Members.take "mapping" own
      let mapping :=
        match mapping with
        | some (.object entries) =>
          entries.filterMap fun entry => entry.2.string?.map fun target => (entry.1, target)
        | _ => []
      .ok (some ⟨propertyName, mapping, extra⟩)
    | (none, _) => .error .noPropertyName
  | some .null => .ok none
  | some value => .error (.wrongKind (.keyword .discriminator) value.kind)
  | none => .ok none

end Discriminator

namespace PrimitiveSchema

/-- The allowed values of a leaf. -/
def enumValuesOf (members : Members Json) : Except Fault (List Json) :=
  match Members.get? Keyword.enumeration.text members with
  | some (.array values) => .ok values
  | some value => .error (.wrongKind (.keyword .enumeration) value.kind)
  | none => .ok []

/-- A leaf. -/
def ofMembers (members : Members Json) : Except Fault PrimitiveSchema := do
  let (format, members) := Members.takeAs Json.string? "format" members
  let enumValues ← enumValuesOf members
  let metadata ← Metadata.ofMembers (Members.erase Keyword.enumeration.text members)
  pure { format, enumValues, metadata }

end PrimitiveSchema

namespace Schema

/-- Members without those under the given keywords. -/
def without (keywords : List Keyword) (members : Members Json) : Members Json :=
  members.filter fun member => !(keywords.map Keyword.text).contains member.1

/-- The required properties, which must be a list of texts to count, and the other members. -/
def takeRequired (members : Members Json) : List String × Members Json :=
  let (required, members) := Members.takeAs Json.strings? "required" members
  (required.getD [], members)

/-- Whether a node is a combination. -/
def combines (members : Members Json) : Bool :=
  [Keyword.allOf, .anyOf, .oneOf].any fun keyword => Members.has keyword.text members

/-- Whether a declared type is the given one or has it among its alternatives. -/
def declares (declared : Option DeclaredType) (name : String) : Bool :=
  declared.any fun declared => declared.includes name

mutual

/-- The schema that a value is. -/
def ofJson : Json → Except Fault Schema
  | .bool allowed => .ok (.boolean allowed)
  | .object members =>
    match Reference.ofMembers? members with
    | some target => .ok (.reference target)
    | none => do
      let rest := withoutReference members
      if combines members then
        let allOf ← listAt .allOf members
        let anyOf ← listAt .anyOf members
        let oneOf ← listAt .oneOf members
        let properties ← propertiesIn members
        let (required, rest) := takeRequired rest
        let discriminator ← Discriminator.ofMembers rest
        let metadata ← Metadata.ofMembers
          (without [.allOf, .anyOf, .oneOf, .properties, .discriminator] rest)
        pure (.composed ⟨allOf, anyOf, oneOf, properties, required, discriminator, metadata⟩)
      else
        let declared ← DeclaredType.ofMembers members
        if declares declared "array" || Members.has "items" members then
          let items ← itemsIn members
          let metadata ← Metadata.ofMembers (Members.erase "items" rest)
          pure (.array ⟨items, metadata⟩)
        else if declares declared "object" || Members.has "properties" members ||
            Members.has "additionalProperties" members then
          let properties ← propertiesIn members
          let additional ← additionalIn members
          let rest := without [.properties, .additionalProperties] rest
          match additional with
          | .values value =>
            if properties.isEmpty && !Members.has "discriminator" rest then
              pure (.map ⟨value, ← Metadata.ofMembers rest⟩)
            else
              let (required, rest) := takeRequired rest
              let discriminator ← Discriminator.ofMembers rest
              let metadata ← Metadata.ofMembers (without [.discriminator] rest)
              pure (.object ⟨properties, required, .values value, discriminator, metadata⟩)
          | additional =>
            let (required, rest) := takeRequired rest
            let discriminator ← Discriminator.ofMembers rest
            let metadata ← Metadata.ofMembers (without [.discriminator] rest)
            pure (.object ⟨properties, required, additional, discriminator, metadata⟩)
        else
          pure (.primitive (← PrimitiveSchema.ofMembers rest))
  | value => .error (.wrongKind .schema value.kind)

/-- The schemas under a keyword that combines them. -/
def listAt (keyword : Keyword) : List (String × Json) → Except Fault (List Schema)
  | [] => .ok []
  | (name, value) :: rest =>
    if name = keyword.text then
      match value with
      | .array elements => ofElements elements
      | .null => .ok []
      | value => .error (.wrongKind (.keyword keyword) value.kind)
    else listAt keyword rest

/-- The schema of array items. -/
def itemsIn : List (String × Json) → Except Fault (Option Schema)
  | [] => .ok none
  | (name, value) :: rest =>
    if name = "items" then do pure (some (← ofJson value)) else itemsIn rest

/-- The declared properties. -/
def propertiesIn : List (String × Json) → Except Fault (List (String × Schema))
  | [] => .ok []
  | (name, value) :: rest =>
    if name = Keyword.properties.text then
      match value with
      | .object entries => ofEntries entries
      | .null => .ok []
      | value => .error (.wrongKind (.keyword .properties) value.kind)
    else propertiesIn rest

/-- What is said about undeclared properties. -/
def additionalIn : List (String × Json) → Except Fault AdditionalProperties
  | [] => .ok .unspecified
  | (name, value) :: rest =>
    if name = Keyword.additionalProperties.text then
      match value.bool?, value.kind with
      | some allowed, _ => .ok (.allowed allowed)
      | none, .object => do pure (.values (← ofJson value))
      | none, .null => .ok .unspecified
      | none, found => .error (.wrongKind (.keyword .additionalProperties) found)
    else additionalIn rest

/-- The schemas in a list. -/
def ofElements : List Json → Except Fault (List Schema)
  | [] => .ok []
  | element :: rest => do
    let schema ← ofJson element
    let schemas ← ofElements rest
    pure (schema :: schemas)

/-- Named schemas; a fault says under which name it was found. -/
def ofEntries : List (String × Json) → Except Fault (List (String × Schema))
  | [] => .ok []
  | (name, value) :: rest => do
    let schema ← (ofJson value).mapError (.inProperty name)
    let schemas ← ofEntries rest
    pure ((name, schema) :: schemas)

end

end Schema

end SchemaLift
