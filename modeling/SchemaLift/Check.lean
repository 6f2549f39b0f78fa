import SchemaLift.Audit.Findings
import SchemaLift.Document.Format
import SchemaLift.Files
import SchemaLift.Flatten.Documents

/-!
# Checking documents

A file is flat when a flattening pass over its document would change nothing. The result of a check
also says what the pass would extract, and why a file could not be checked.
-/

namespace SchemaLift

/-- Why a file is not a document. -/
inductive FileError where
  | directory
  | binary
  | content (error : ReadError)
deriving DecidableEq, Repr

namespace FileError

/-- The code of an error. -/
def code : FileError → String
  | .directory | .binary => "E1000"
  | .content error => error.code

/-- The message of an error. -/
def message : FileError → String
  | .directory => "I/O error: Is a directory (os error 21)"
  | .binary => "I/O error: stream did not contain valid UTF-8"
  | .content error => error.message

end FileError

/-- The document in a file; none when there is no file. -/
def FileState.document? : FileState → Option (Except FileError Document)
  | .missing => none
  | .directory => some (.error .directory)
  | .binary => some (.error .binary)
  | .text content => some ((Document.ofText content).mapError .content)

/-- Something that kept a file from being checked. -/
structure CheckIssue where
  code : String
  message : String
deriving DecidableEq, Repr

/-- The outcome of checking a file. -/
structure CheckResult where
  file : String
  flat : Bool
  /-- The names that a pass would register. -/
  wouldRegister : List String := []
  /-- The locations of schemas that a pass would extract. -/
  inlineLocations : List String := []
  unresolved : List String := []
  errors : List CheckIssue := []
deriving DecidableEq, Repr

namespace CheckResult

/-- The outcome for a file that could not be checked. -/
def failed (file code message : String) : CheckResult :=
  { file, flat := false, errors := [⟨code, message⟩] }

/-- The outcome for a document, and what the pass over it logged. -/
def ofDocument (file : String) (config : Config) (document : Document) :
    CheckResult × List Log.Event :=
  match document.flatten config with
  | .ok outcome =>
    ({ file
       flat := outcome.report.isNoop
       wouldRegister := outcome.report.registered
       inlineLocations := document.inlineLocations
       unresolved := outcome.report.unresolved }, outcome.events)
  | .error missing => (failed file "E2000" missing.message, [])

/-- The outcome for what is at a path. -/
def ofFile (file : String) (config : Config) (state : FileState) :
    CheckResult × List Log.Event :=
  match state.document? with
  | none => (failed file "E1000" ("file not found: " ++ file), [])
  | some (.error error) => (failed file error.code error.message, [])
  | some (.ok document) => ofDocument file config document

/-- A list of texts that is written only if it is not empty. -/
def textsMember (key : String) (texts : List String) : Members Json :=
  unlessEmpty key (texts.map .string)

/-- The JSON value of an outcome; empty lists are left out. -/
def toJson (result : CheckResult) : Json :=
  .object
    ([("file", .string result.file), ("flat", .bool result.flat)] ++
      textsMember "would_register" result.wouldRegister ++
      textsMember "inline_locations" result.inlineLocations ++
      textsMember "unresolved" result.unresolved ++
      unlessEmpty "errors" (result.errors.map fun issue =>
        .object [("code", .string issue.code), ("message", .string issue.message)]))

/-- The lines that tell an outcome to people. -/
def lines (result : CheckResult) : List String :=
  let verdict :=
    if result.flat then "✓ " ++ result.file ++ " is flat"
    else if result.errors.isEmpty then
      "✗ " ++ result.file ++ " has " ++ toString result.wouldRegister.length ++
        " schema(s) to extract"
    else "✗ " ++ result.file ++ " could not be checked"
  verdict :: result.inlineLocations.map ("  inline schema at " ++ ·) ++
    result.errors.map (fun issue => "  " ++ issue.code ++ ": " ++ issue.message) ++
    result.unresolved.map fun pointer => "  unresolved reference " ++ pointer ++ " (warning)"

end CheckResult

end SchemaLift
