import SchemaLift.Json.Basic

/-!
# Log events

What a run has to tell about its course. Every event has a level, the component that it comes from
and fields, which together make one record.
-/

namespace SchemaLift.Log

/-- How much an event matters. -/
inductive Level where
  | error
  | warn
  | info
  | debug
  | trace
deriving DecidableEq, Repr

namespace Level

/-- All levels, the most urgent first. -/
def all : List Level :=
  [.error, .warn, .info, .debug, .trace]

/-- The place of a level in the order of urgency. -/
def rank : Level → Nat
  | .error => 1
  | .warn => 2
  | .info => 3
  | .debug => 4
  | .trace => 5

/-- The word for a level. -/
def word : Level → String
  | .error => "ERROR"
  | .warn => "WARN"
  | .info => "INFO"
  | .debug => "DEBUG"
  | .trace => "TRACE"

end Level

/-- The events of a run. -/
inductive Event where
  /-- An option has no meaning and is passed over. -/
  | unknownOption (key value : String)
  | flattenStarted (paths schemas : Nat)
  /-- The name asked for is taken, and another one is assigned. -/
  | nameConflict (requested assigned : String)
  | schemaExtracted (name derived : String)
  | schemaReused (name derived : String)
  | unresolvedReference (pointer : String)
  | flattenCompleted (registered reused unresolved : Nat)
  | commandFinished (generateMetadata : Bool)
deriving DecidableEq, Repr

namespace Event

/-- The level of an event. -/
def level : Event → Level
  | .unknownOption _ _ => .warn
  | .flattenStarted _ _ => .info
  | .nameConflict _ _ => .warn
  | .schemaExtracted _ _ => .debug
  | .schemaReused _ _ => .debug
  | .unresolvedReference _ => .warn
  | .flattenCompleted _ _ _ => .info
  | .commandFinished _ => .debug

/-- The component that an event comes from. -/
def target : Event → String
  | .unknownOption _ _ => "flatspec_flatten::options"
  | .flattenStarted _ _ => "flatspec_flatten::traverse"
  | .nameConflict _ _ => "flatspec_flatten::extract"
  | .schemaExtracted _ _ => "flatspec_flatten::extract"
  | .schemaReused _ _ => "flatspec_flatten::extract"
  | .unresolvedReference _ => "flatspec_flatten::traverse"
  | .flattenCompleted _ _ _ => "flatspec_flatten::traverse"
  | .commandFinished _ => "flatspec"

/-- The fields of an event. -/
def fields : Event → Members Json
  | .unknownOption key value =>
    [("event", .string "unknown_option"), ("key", .string key), ("value", .string value)]
  | .flattenStarted paths schemas =>
    [("event", .string "flatten_started"), ("paths", .integer paths),
      ("schemas", .integer schemas)]
  | .nameConflict requested assigned =>
    [("event", .string "name_conflict"), ("requested", .string requested),
      ("assigned", .string assigned)]
  | .schemaExtracted name derived =>
    [("event", .string "schema_extracted"), ("name", .string name), ("derived", .string derived)]
  | .schemaReused name derived =>
    [("event", .string "schema_reused"), ("name", .string name), ("derived", .string derived)]
  | .unresolvedReference pointer =>
    [("event", .string "unresolved_reference"), ("pointer", .string pointer)]
  | .flattenCompleted registered reused unresolved =>
    [("event", .string "flatten_completed"), ("registered", .integer registered),
      ("reused", .integer reused), ("unresolved", .integer unresolved)]
  | .commandFinished generateMetadata =>
    [("message", .string "flatten command finished"),
      ("generate_metadata", .bool generateMetadata)]

/-- The record of an event. -/
def record (event : Event) : Json :=
  .object (("level", .string event.level.word) :: event.fields)

end Event

end SchemaLift.Log
