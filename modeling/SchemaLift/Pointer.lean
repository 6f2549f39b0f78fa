import SchemaLift.Json.Basic
import SchemaLift.Text.Cut

/-!
# References and their pointers

A reference names its target by a pointer. A pointer `#/components/<category>/<name>` means an entry
of a category of components; the schemas are one such category.
-/

namespace SchemaLift

/-- A pointer with the members that stand next to it. -/
structure Reference where
  pointer : String
  siblings : List (String × Json)
deriving Inhabited

namespace Reference

/-- Equal pointers and equal siblings. -/
def same (left right : Reference) : Bool :=
  left.pointer == right.pointer && Json.sameMap left.siblings right.siblings

instance : BEq Reference := ⟨same⟩

end Reference

namespace Pointer

/-- The start of pointers to components. -/
def components : String := "#/components/"

/-- The start of pointers to component schemas. -/
def schemas : String := "#/components/schemas/"

/-- The start of pointers to component request bodies. -/
def requestBodies : String := "#/components/requestBodies/"

/-- The start of pointers to component responses. -/
def responses : String := "#/components/responses/"

/-- The pointer to a component schema. -/
def toSchema (name : String) : String :=
  schemas ++ name

/-- The component name in a pointer of any category; it is not empty and has no slash. -/
def componentName? (pointer : String) : Option String := do
  let rest ← Text.dropLead? components pointer
  let (_, name) ← Text.splitOnce? '/' rest
  if name = "" || Text.holds '/' name then none else some name

/-- What follows the start of pointers to component schemas. -/
def schemaName? (pointer : String) : Option String :=
  Text.dropLead? schemas pointer

end Pointer

/-- The reference itself, or the thing that could stand in its place. -/
inductive RefOr (α : Type) where
  | reference (reference : Reference)
  | item (value : α)

namespace RefOr

/-- Equal references, or related items. -/
def same {α : Type} (related : α → α → Bool) : RefOr α → RefOr α → Bool
  | .reference left, .reference right => left.same right
  | .item left, .item right => related left right
  | _, _ => false

end RefOr

end SchemaLift
