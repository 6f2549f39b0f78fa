import SchemaLift.Document.Basic
import SchemaLift.Flatten.Extractable
import SchemaLift.Flatten.Naming
import SchemaLift.Flatten.Registry
import SchemaLift.Flatten.Report

/-!
# Steps of a flattening pass

The state of a pass and the steps that change it. The central one is `extract`, which moves an
inline schema to the component schemas and leaves a reference in its place; a shape that was met
before under the same base name is shared instead.
-/

namespace SchemaLift.Flatten

/-- The state of a pass. -/
structure State where
  registry : Registry
  requestBodies : List (String × RefOr RequestBody)
  responses : List (String × RefOr Response)
  report : Report
  /-- Every schema that has been moved out of its place, the first one first, with the name of the
  component that stands for it. -/
  extractions : List Extraction
  /-- What has been logged, the latest event first. -/
  events : List Log.Event

/-- A component schema that cannot be found any more. -/
structure MissingSchema where
  name : String
deriving DecidableEq, Repr

namespace MissingSchema

/-- The message of the error. -/
def message (missing : MissingSchema) : String :=
  "E2002: registered schema '" ++ missing.name ++ "' is missing from components"

end MissingSchema

/-- A step of a pass. -/
abbrev Step (α : Type) := StateT State (Except MissingSchema) α

/-- Log an event. -/
def note (event : Log.Event) : Step Unit :=
  modify fun state => { state with events := event :: state.events }

/-! ## References -/

/-- Report a pointer that leads nowhere, and log it the first time. -/
def noteUnresolved (pointer : String) : Step Unit := do
  let report := (← get).report
  if !report.unresolved.contains pointer then
    modify fun state => { state with report := report.noteUnresolved pointer }
    note (.unresolvedReference pointer)

/-- Check a reference to a component schema. -/
def checkSchema (target : Reference) : Step Unit := do
  if let some name := Pointer.schemaName? target.pointer then
    if !(← get).registry.contains name then noteUnresolved target.pointer

/-- Check a reference to a component request body. -/
def checkRequestBody (target : Reference) : Step Unit := do
  if let some name := Text.dropLead? Pointer.requestBodies target.pointer then
    if !Members.has name (← get).requestBodies then noteUnresolved target.pointer

/-- Check a reference to a component response. -/
def checkResponse (target : Reference) : Step Unit := do
  if let some name := Text.dropLead? Pointer.responses target.pointer then
    if !Members.has name (← get).responses then noteUnresolved target.pointer

/-! ## Extraction -/

/-- Take a schema out of the registry. -/
def takeOut (name : String) : Step Schema := do
  match (← get).registry.take? name with
  | some (schema, registry) =>
    modify fun state => { state with registry }
    pure schema
  | none => throw ⟨name⟩

/-- Put a schema back into the registry. -/
def putBack (name : String) (schema : Schema) : Step Unit :=
  modify fun state => { state with registry := state.registry.restore name schema }

/-- The reference that replaces an inline schema; it keeps the schema's extensions. -/
def replacement (name : String) (schema : Schema) : Schema :=
  .reference ⟨Pointer.toSchema name, schema.extensions⟩

/-- Share the schema that is registered under a name already. -/
def share (candidate : Naming.Candidate) (derived name : String) (schema : Schema) :
    Step Unit := do
  note (.schemaReused name derived)
  modify fun state =>
    { state with
      report := { state.report with reused := state.report.reused ++ [name] }
      extractions := state.extractions ++ [⟨candidate.base, schema, name⟩] }

/-- Register a schema under the free name that comes closest to the candidate. -/
def register (candidate : Naming.Candidate) (derived : String) (schema : Schema) :
    Step String := do
  let name := (← get).registry.uniqueName candidate.base
  if candidate.mapped && name ≠ candidate.base then
    note (.nameConflict candidate.base name)
  modify fun state =>
    { state with
      registry := state.registry.register candidate.base name schema
      report := { state.report with registered := state.report.registered ++ [name] }
      extractions := state.extractions ++ [⟨candidate.base, schema, name⟩] }
  note (.schemaExtracted name derived)
  pure name

/-- Move an inline schema to the registry. `inside` flattens the schema in place, given its name;
that the schema it works on is the one taken out is `Registry.take?_register`. -/
def extract (config : Config) (schema : Schema) (derived : String)
    (inside : String → Step Schema) : Step Schema := do
  let candidate := config.baseName schema derived
  let known := (← get).registry.reusable? candidate.base schema
  match if config.options.skipSchemaReuse then none else known with
  | some name =>
    share candidate derived name schema
    pure (replacement name schema)
  | none =>
    let name ← register candidate derived schema
    let _ ← takeOut name
    putBack name (← inside name)
    pure (replacement name schema)

/-- Flatten a schema at a position: extract it, or work on it where it is. -/
def place (config : Config) (policy : Policy) (role : Role) (schema : Schema) (derived : String)
    (inside : String → Step Schema) : Step Schema :=
  if schema.extractedAt policy role then extract config schema derived inside
  else inside derived

end SchemaLift.Flatten
