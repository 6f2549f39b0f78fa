import SchemaLift.Files
import SchemaLift.Manifest.Reader

/-!
# Configurations from files and arguments

A configuration is made of an optional file and of arguments that are laid over it. An argument is a
key and a value around an equals sign.
-/

namespace SchemaLift

/-- Why there is no configuration. -/
inductive ConfigError where
  | unreadable (path : String)
  | malformed (path : String)
  | invalid (option : InvalidOption)
deriving DecidableEq, Repr

namespace ConfigError

/-- The message of an error. -/
def message : ConfigError → String
  | .unreadable path => "config error: failed to read " ++ path
  | .malformed path => "config error: failed to parse " ++ path
  | .invalid option => option.message

end ConfigError

namespace Manifest

/-- The manifest in a file. -/
def ofFile (path : String) : FileState → Except ConfigError Manifest
  | .text content =>
    match ofText? content with
    | some manifest => .ok manifest
    | none => .error (.malformed path)
  | .missing | .directory | .binary => .error (.unreadable path)

end Manifest

namespace Config

/-- The configuration of a file, if there is one, with options and names laid over it. Also tells
what there is to be logged. -/
def load (file : Option (String × FileState)) (options nameMappings : List (String × String)) :
    List Log.Event × Except ConfigError Config :=
  let manifest :=
    match file with
    | some (path, state) => Manifest.ofFile path state
    | none => .ok {}
  match manifest with
  | .error error => ([], .error error)
  | .ok manifest =>
    let (events, outcome) := (manifest.withOverrides options nameMappings).toConfig
    (events, outcome.mapError .invalid)

end Config

/-- Why an argument is not a key and a value. -/
inductive KeyValueError where
  | noSeparator (argument : String)
  | emptyKey (argument : String)
deriving DecidableEq, Repr

namespace KeyValueError

/-- The message of an error. -/
def message : KeyValueError → String
  | .noSeparator argument => "expected KEY=VALUE, got '" ++ argument ++ "'"
  | .emptyKey argument => "empty key in '" ++ argument ++ "'"

end KeyValueError

/-- The key and the value around the first equals sign, without blanks at their ends. -/
def keyValue (argument : String) : Except KeyValueError (String × String) :=
  match Text.splitOnce? '=' argument with
  | none => .error (.noSeparator argument)
  | some (key, value) =>
    if Text.trim key = "" then .error (.emptyKey argument)
    else .ok (Text.trim key, Text.trim value)

end SchemaLift
