import SchemaLift.Json.Printer
import SchemaLift.Log.Event
import SchemaLift.Text.Cut

/-!
# Log formats

Events are shown as JSON records, one a line, or as lines for people.
-/

namespace SchemaLift.Log

/-- The formats of a log. -/
inductive Format where
  | json
  | pretty
deriving DecidableEq, Repr

namespace Format

/-- The name of a format. -/
def name : Format → String
  | .json => "json"
  | .pretty => "pretty"

/-- The format with a name, in whatever case. -/
def ofName? (text : String) : Option Format :=
  if Text.lower text = "json" then some .json
  else if Text.lower text = "pretty" then some .pretty
  else none

/-- The line that shows an event. -/
def line (format : Format) (event : Event) : String :=
  match format with
  | .json => Json.compact (.object (("level", .string event.level.word) :: event.fields ++
      [("target", .string event.target)]))
  | .pretty =>
    event.level.word ++ " " ++ event.target ++ ": " ++
      ", ".intercalate (event.fields.map fun field => field.1 ++ ": " ++ field.2.compact)

end Format

end SchemaLift.Log
