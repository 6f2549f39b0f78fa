import SchemaLift.Check
import SchemaLift.Command.Arguments
import SchemaLift.Log.Filter

/-!
# Running commands

What a command writes and with which code it ends, given a file system. The logged events that the
filter shows are written among the messages.
-/

namespace SchemaLift.Command

/-- A line of the messages that a command writes. -/
inductive Message where
  | text (line : String)
  | event (event : Log.Event)
deriving DecidableEq, Repr

/-- What a command has to show in the end. -/
structure Output where
  code : Nat
  stdout : String := ""
  messages : List Message := []
deriving DecidableEq, Repr

namespace Output

/-- The end of a command with an error. -/
def failure (message : String) : Output :=
  { code := 1, messages := [.text ("error: " ++ message)] }

/-- The output with messages in front. -/
def behind (events : List Log.Event) (output : Output) : Output :=
  { output with messages := events.map .event ++ output.messages }

/-- The output without the events that a filter does not show. -/
def filtered (filter : Log.Filter) (output : Output) : Output :=
  { output with
    messages := output.messages.filter fun message =>
      match message with
      | .text _ => true
      | .event event => filter.shows event }

end Output

/-- The name and the version of the program. -/
def versionText : String := "flatspec 0.1.0\n"

/-- How the program is used. -/
def helpText : String :=
  "Flatten inline OpenAPI schemas into named components\n\n" ++
  "Usage: flatspec [--log-level LEVEL] [--log-format pretty|json] COMMAND\n\n" ++
  "Commands:\n" ++
  "  flatten --spec FILE [--output FILE] [--format yaml|json] [--config FILE]\n" ++
  "          [--option KEY=VALUE]... [--name-mapping FROM=TO]...\n" ++
  "  check   --spec FILE... [--format text|json] [--config FILE] [--option KEY=VALUE]...\n"

/-! ## Flattening -/

/-- The format to write in: the one asked for, the one of the output's extension, or YAML. -/
def outputFormat (arguments : FlattenArguments) : Format :=
  match arguments.format, arguments.output with
  | some format, _ => format
  | none, some path => .ofPath path
  | none, none => .yaml

/-- The messages after a document was flattened and written. -/
def flattened (spec : String) (report : Report) : List Message :=
  report.unresolved.map (fun pointer => .text ("  warning: unresolved reference " ++ pointer)) ++
    [.text ("flattened " ++ spec ++ ": " ++ toString report.registered.length ++
        " schema(s) registered, " ++ toString report.reused.length ++ " reused"),
      .event (.commandFinished report.generateMetadata)]

/-- Flatten the document in a file and write the result. -/
def flatten {m : Type → Type} [Monad m] (files : FileSystem m) (arguments : FlattenArguments)
    (config : Config) : m Output := do
  let spec := arguments.spec
  match (← files.read spec).document? with
  | none => pure (.failure ("spec file not found: " ++ spec))
  | some (.error error) => pure (.failure (error.code ++ " [" ++ spec ++ "]: " ++ error.message))
  | some (.ok document) =>
    match document.flatten config with
    | .error missing => pure (.failure ("flattening failed: " ++ missing.message))
    | .ok outcome =>
      let text := outcome.document.render (outputFormat arguments)
      let done : Output := { code := 0, messages := flattened spec outcome.report }
      match arguments.output with
      | none => pure ({ done with stdout := text }.behind outcome.events)
      | some path =>
        if ← files.write path text then pure (done.behind outcome.events)
        else pure ((Output.failure ("failed to write " ++ path)).behind outcome.events)

/-! ## Checking -/

/-- Check files one after the other. -/
def checkAll {m : Type → Type} [Monad m] (files : FileSystem m) (config : Config) :
    List String → m (List CheckResult × List Log.Event)
  | [] => pure ([], [])
  | file :: rest => do
    let (result, events) := CheckResult.ofFile file config (← files.read file)
    let (results, later) ← checkAll files config rest
    pure (result :: results, events ++ later)

/-- The number of files that are flat. -/
def flatCount (results : List CheckResult) : Nat :=
  (results.filter CheckResult.flat).length

/-- The JSON value of the outcomes. -/
def resultsJson (results : List CheckResult) : Json :=
  .object
    [("results", .array (results.map CheckResult.toJson)),
      ("summary", .object
        [("total", .integer results.length), ("flat", .integer (flatCount results)),
          ("not_flat", .integer (results.length - flatCount results : Nat))])]

/-- The lines that tell the outcomes to people. -/
def resultsLines (results : List CheckResult) : List String :=
  results.flatMap CheckResult.lines ++
    ["", "checked " ++ toString results.length ++ " spec(s): " ++ toString (flatCount results) ++
      " flat, " ++ toString (results.length - flatCount results) ++ " not flat"]

/-- Check files. The command fails unless all of them are flat. -/
def check {m : Type → Type} [Monad m] (files : FileSystem m) (arguments : CheckArguments)
    (config : Config) : m Output := do
  let (results, events) ← checkAll files config arguments.specs
  let code := if results.all CheckResult.flat then 0 else 1
  let output : Output :=
    if arguments.asJson then { code, stdout := (resultsJson results).pretty ++ "\n" }
    else { code, messages := (resultsLines results).map .text }
  pure (output.behind events)

/-! ## Command lines -/

/-- Run a command with the configuration that its arguments ask for. -/
def configured {m : Type → Type} [Monad m] (files : FileSystem m) (path : Option String)
    (options nameMappings : List (String × String)) (command : Config → m Output) : m Output := do
  let file ←
    match path with
    | some path => do pure (some (path, ← files.read path))
    | none => pure none
  let (events, outcome) := Config.load file options nameMappings
  let output ←
    match outcome with
    | .error error => pure (Output.failure error.message)
    | .ok config => command config
  pure (output.behind events)

/-- Run a command. -/
def runTask {m : Type → Type} [Monad m] (files : FileSystem m) : Task → m Output
  | .flatten arguments =>
    configured files arguments.config arguments.options arguments.nameMappings
      (flatten files arguments)
  | .check arguments =>
    configured files arguments.config arguments.options [] (check files arguments)

/-- Run a command line. -/
def run {m : Type → Type} [Monad m] (files : FileSystem m) : Invocation → m Output
  | .misuse => pure { code := 2, messages := [.text "error: invalid arguments (see --help)"] }
  | .help => pure { code := 0, stdout := helpText }
  | .version => pure { code := 0, stdout := versionText }
  | .run logLevel _ task =>
    match Log.Filter.ofText? logLevel with
    | none => pure (.failure ("invalid log level '" ++ logLevel ++ "'"))
    | some filter => do pure ((← runTask files task).filtered filter)

/-- The format in which a command line wants its events. -/
def Invocation.logFormat : Invocation → Log.Format
  | .run _ format _ => format
  | .misuse | .help | .version => .pretty

end SchemaLift.Command
