import SchemaLift.Flatten.Schemas

/-!
# Flattening documents

Every schema of a document is visited once, in a fixed order: path items (their parameters, then
each operation's parameters, request body, responses and callbacks), component request bodies,
component responses, and at last the component schemas that were there in the beginning. The
schemas that are extracted on the way are visited when they are registered.
-/

namespace SchemaLift.Flatten

/-- What may be extracted, in surroundings where enumerations count or do not. -/
def policyFor (config : Config) (enums : Bool) : Policy :=
  ⟨enums && config.options.resolveInlineEnums, config.options.refactorAllOf⟩

/-- Work on every value of a map. -/
def visitValues {κ α : Type} (visit : κ → α → Step α) :
    List (κ × α) → Step (List (κ × α))
  | [] => pure []
  | (key, value) :: rest => do
    let value ← visit key value
    let rest ← visitValues visit rest
    pure ((key, value) :: rest)

/-! ## Contents -/

/-- Flatten the schema of a media type. -/
def visitMedia (config : Config) (policy : Policy) (derived : String) (media : MediaType) :
    Step MediaType := do
  let schema ← visitOptional config policy derived media.schema
  pure { media with schema }

/-- Flatten a content; the policy depends on the media type. -/
def visitContent (config : Config) (policy : String → Policy) (derived : String) :
    Option Content → Step (Option Content)
  | some content => do
    pure (some (← visitValues (fun name => visitMedia config (policy name) derived) content))
  | none => pure none

/-- The media types of forms, whose fields are like parameters. -/
def isForm (mediaType : String) : Bool :=
  Text.sameLetters mediaType "application/x-www-form-urlencoded" ||
    Text.sameLetters mediaType "multipart/form-data"

/-- Flatten a request body. Enumerations count in forms. -/
def visitRequestBody (config : Config) (base : String) (body : RequestBody) : Step RequestBody := do
  let content ← visitContent config (fun mediaType => policyFor config (isForm mediaType))
    (Naming.request base) body.content
  pure { body with content }

/-- Flatten a response. -/
def visitResponse (config : Config) (derived : String) (response : Response) : Step Response := do
  let content ← visitContent config (fun _ => policyFor config false) derived response.content
  pure { response with content }

/-- Flatten a parameter, in its schema or in its content. References to parameters are left
alone. -/
def visitParameter (config : Config) (base : String) : RefOr Parameter → Step (RefOr Parameter)
  | .reference target => pure (.reference target)
  | .item parameter => do
    let policy := policyFor config true
    let derived := Naming.parameter base parameter.name
    let schema ← visitOptional config policy derived parameter.schema
    let content ← visitContent config (fun _ => policy) derived parameter.content
    pure (.item { parameter with schema, content })

/-- Flatten a list of parameters. -/
def visitParameters (config : Config) (base : String) :
    List (RefOr Parameter) → Step (List (RefOr Parameter))
  | [] => pure []
  | parameter :: rest => do
    let parameter ← visitParameter config base parameter
    let rest ← visitParameters config base rest
    pure (parameter :: rest)

/-! ## References to request bodies -/

/-- The component request body that a pointer leads to, over at most as many references as given,
with its name. -/
def bodyAt? (bodies : Members (RefOr RequestBody)) :
    Nat → String → Option (String × RequestBody)
  | 0, _ => none
  | hops + 1, pointer =>
    match Text.dropLead? Pointer.requestBodies pointer with
    | some name =>
      match Members.get? name bodies with
      | some (.item body) => some (name, body)
      | some (.reference next) => bodyAt? bodies hops next.pointer
      | none => none
    | none => none

/-- How many references to request bodies are followed. -/
def hopLimit : Nat := 32

/-- Flatten the component request body that an operation refers to, under the operation's name. -/
def visitBodyReference (config : Config) (base : String) (target : Reference) : Step Unit := do
  match bodyAt? (← get).requestBodies hopLimit target.pointer with
  | some (name, body) =>
    let body ← visitRequestBody config base body
    modify fun state =>
      { state with requestBodies := Members.set name (.item body) state.requestBodies }
  | none => noteUnresolved target.pointer

/-- Flatten the request body of an operation. -/
def visitOwnBody (config : Config) (base : String) :
    Option (RefOr RequestBody) → Step (Option (RefOr RequestBody))
  | some (.item body) => do pure (some (.item (← visitRequestBody config base body)))
  | some (.reference target) => do
    visitBodyReference config base target
    pure (some (.reference target))
  | none => pure none

/-- Flatten a response of an operation. -/
def visitOwnResponse (config : Config) (base status : String) :
    RefOr Response → Step (RefOr Response)
  | .item response => do
    let derived := Naming.response (base ++ "_" ++ status)
    pure (.item (← visitResponse config derived response))
  | .reference target => do
    checkResponse target
    pure (.reference target)

/-! ## Path items -/

mutual

/-- Flatten a path item. -/
def visitPathItem (config : Config) (path : String) : PathItem → Step PathItem
  | ⟨parameters, operations, extra⟩ => do
    let parameters ← visitParameters config (Naming.ofPath path) parameters
    let operations ← visitOperations config path operations
    pure ⟨parameters, operations, extra⟩

/-- Flatten the operations of a path. -/
def visitOperations (config : Config) (path : String) :
    List (Method × Operation) → Step (List (Method × Operation))
  | [] => pure []
  | (method, operation) :: rest => do
    let operation ← visitOperation config path method operation
    let rest ← visitOperations config path rest
    pure ((method, operation) :: rest)

/-- Flatten an operation. -/
def visitOperation (config : Config) (path : String) (method : Method) :
    Operation → Step Operation
  | ⟨operationId, parameters, requestBody, responses, callbacks, extra⟩ => do
    let base := Naming.ofOperation operationId path method
    let parameters ← visitParameters config base parameters
    let requestBody ← visitOwnBody config base requestBody
    let responses ← visitValues (visitOwnResponse config base) responses
    let callbacks ← visitCallbacks config callbacks
    pure ⟨operationId, parameters, requestBody, responses, callbacks, extra⟩

/-- Flatten callbacks; references to them are left alone. -/
def visitCallbacks (config : Config) :
    List (String × RefOr Callback) → Step (List (String × RefOr Callback))
  | [] => pure []
  | (name, .reference target) :: rest => do
    let rest ← visitCallbacks config rest
    pure ((name, .reference target) :: rest)
  | (name, .item ⟨expressions⟩) :: rest => do
    let expressions ← visitPaths config expressions
    let rest ← visitCallbacks config rest
    pure ((name, .item ⟨expressions⟩) :: rest)

/-- Flatten path items by path or expression. -/
def visitPaths (config : Config) : List (String × PathItem) → Step (List (String × PathItem))
  | [] => pure []
  | (path, item) :: rest => do
    let item ← visitPathItem config path item
    let rest ← visitPaths config rest
    pure ((path, item) :: rest)

end

/-! ## Components -/

/-- Flatten a component request body. -/
def visitComponentBody (config : Config) (name : String) :
    RefOr RequestBody → Step (RefOr RequestBody)
  | .item body => do pure (.item (← visitRequestBody config name body))
  | .reference target => do
    checkRequestBody target
    pure (.reference target)

/-- Flatten a component response. -/
def visitComponentResponse (config : Config) : RefOr Response → Step (RefOr Response)
  | .item response => do
    pure (.item (← visitResponse config Naming.componentResponse response))
  | .reference target => do
    checkResponse target
    pure (.reference target)

/-- Flatten the insides of component schemas. -/
def visitComponents (config : Config) : List String → Step Unit
  | [] => pure ()
  | name :: rest => do
    visitComponent config (policyFor config false) name
    visitComponents config rest

/-! ## Whole documents -/

/-- The state in which a pass starts. -/
def start (config : Config) (document : Document) : State where
  registry := .ofSchemas document.components.schemas
  requestBodies := document.components.requestBodies
  responses := document.components.responses
  report := { generateMetadata := config.generateMetadata }
  extractions := []
  events :=
    [.flattenStarted document.paths.length document.components.schemas.length]

/-- Flatten everything in a document; the result is the paths, and the rest is in the state. -/
def visitDocument (config : Config) (document : Document) : Step (List (String × PathItem)) := do
  let paths ← visitPaths config document.paths
  let bodies ← visitValues (visitComponentBody config) (← get).requestBodies
  modify fun state => { state with requestBodies := bodies }
  let responses ← visitValues (fun _ => visitComponentResponse config) (← get).responses
  modify fun state => { state with responses }
  visitComponents config (Members.keys document.components.schemas)
  pure paths

/-- What comes out of a pass. -/
structure Outcome where
  document : Document
  report : Report
  /-- What has been moved out of its place, in order. -/
  extractions : List Extraction
  /-- What has been logged, in order. -/
  events : List Log.Event

end Flatten

open Flatten in
/-- Flatten a document: every inline schema that is a shape of its own becomes a component schema,
with a reference in its place. -/
def Document.flatten (config : Config) (document : Document) :
    Except MissingSchema Outcome := do
  let (paths, state) ← (visitDocument config document).run (start config document)
  let report := state.report
  let completed := Log.Event.flattenCompleted report.registered.length report.reused.length
    report.unresolved.length
  pure
    { document :=
        { document with
          paths
          components :=
            { document.components with
              schemas := state.registry.schemas
              requestBodies := state.requestBodies
              responses := state.responses } }
      report
      extractions := state.extractions
      events := (completed :: state.events).reverse }

end SchemaLift
