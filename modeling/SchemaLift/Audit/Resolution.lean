import SchemaLift.Document.Basic

/-!
# Following references

A reference to a component schema is followed until something else is reached. A chain that leads
out of the component schemas, or back to where it has been, does not resolve.
-/

namespace SchemaLift

/-- Why a reference does not resolve. -/
inductive ResolutionError where
  /-- The pointer does not lead to a component schema. -/
  | dangling (pointer : String)
  /-- The pointer leads back to a schema that was passed before. -/
  | cycle (pointer : String)
deriving DecidableEq, Repr

namespace ResolutionError

/-- The message of the error. -/
def message (error : ResolutionError) : String :=
  "E2001: unresolved reference: " ++
    match error with
    | .dangling pointer => pointer
    | .cycle pointer => pointer ++ " (reference cycle)"

end ResolutionError

namespace Schema

/-- The name of the component schema that a pointer means. -/
def target? (pointer : String) : Option String :=
  (Pointer.schemaName? pointer).filter fun name => !Text.holds '/' name

/-- Follow a schema from one component schema to the next, over at most as many of them as `fuel`
says. The names in `seen` have been passed before. -/
def follow (schemas : Members Schema) :
    Nat → List String → Schema → Except ResolutionError Schema
  | fuel, seen, .reference target =>
    match target? target.pointer with
    | none => .error (.dangling target.pointer)
    | some name =>
      if seen.contains name then .error (.cycle target.pointer)
      else
        match fuel, Members.get? name schemas with
        | fuel + 1, some next => follow schemas fuel (name :: seen) next
        | _, _ => .error (.dangling target.pointer)
  | _, _, schema => .ok schema

/-- The schema that a schema stands for. No chain is longer than there are component schemas. -/
def resolve (schemas : Members Schema) (schema : Schema) : Except ResolutionError Schema :=
  follow schemas schemas.length [] schema

end Schema

end SchemaLift
