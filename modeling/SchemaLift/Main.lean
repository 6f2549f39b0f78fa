import SchemaLift.Command.Run

/-!
# The program

The command line on the real file system.
-/

namespace SchemaLift

/-- What is at a path on disk. -/
def readDisk (path : String) : IO FileState := do
  try
    match String.fromUTF8? (← IO.FS.readBinFile path) with
    | some content => pure (.text content)
    | none => pure .binary
  catch error =>
    match error with
    | .noFileOrDirectory .. => pure .missing
    | _ => pure .directory

/-- Write a text to disk. -/
def writeDisk (path content : String) : IO Bool := do
  try
    IO.FS.writeFile path content
    pure true
  catch _ => pure false

/-- The file system on disk. -/
def disk : FileSystem IO := ⟨readDisk, writeDisk⟩

/-- Show a message. -/
def showMessage (format : Log.Format) : Command.Message → IO Unit
  | .text line => IO.eprintln line
  | .event event => IO.eprintln (format.line event)

end SchemaLift

open SchemaLift in
/-- Run the command line and end with its code. -/
def main (arguments : List String) : IO UInt32 := do
  let invocation := Command.Invocation.ofArguments arguments
  let output ← Command.run disk invocation
  IO.print output.stdout
  for message in output.messages do
    showMessage invocation.logFormat message
  pure output.code.toUInt32
