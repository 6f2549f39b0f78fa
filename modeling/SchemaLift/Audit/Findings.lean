import SchemaLift.Audit.Location
import SchemaLift.Audit.Resolution

/-!
# Findings

What is left to be done in a document: the inline schemas that a pass would extract, and the
references to component schemas that do not resolve.
-/

namespace SchemaLift

namespace Sighting

/-- Whether the schema would be extracted from its position if no option says more. -/
def isInline (sighting : Sighting) : Bool :=
  sighting.schema.extractedAt {} sighting.role

/-- The pointer, if the schema is a reference. -/
def reference? (sighting : Sighting) : Option String :=
  match sighting.schema with
  | .reference target => some target.pointer
  | _ => none

end Sighting

namespace Document

/-- The locations of inline schemas that would be extracted. -/
def inlineLocations (document : Document) : List String :=
  (document.sightings.filter Sighting.isInline).map fun sighting => sighting.location.pointer

/-- Whether a pointer to a component schema does not resolve. -/
def dangles (document : Document) (pointer : String) : Bool :=
  Text.startsWith Pointer.schemas pointer &&
    match Schema.resolve document.components.schemas (.reference ⟨pointer, []⟩) with
    | .ok _ => false
    | .error _ => true

/-- The pointers of references to component schemas that do not resolve. -/
def danglingReferences (document : Document) : List String :=
  (document.sightings.filterMap Sighting.reference?).filter document.dangles

end Document

end SchemaLift
