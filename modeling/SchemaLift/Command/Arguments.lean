import SchemaLift.Document.Format
import SchemaLift.Log.Format
import SchemaLift.Manifest.Load

/-!
# Command lines

A command line is a command with options. Options of logging may stand in front of the command or
behind it, and then the latter count; all others stand behind it. An option has a long name and
sometimes a letter; its value follows as the next argument, or in the same one behind an equals sign
or behind the letter.

Arguments are read from left to right, and the first fault, or the first wish for help, decides.
-/

namespace SchemaLift.Command

/-- The options of all commands. -/
inductive Name where
  | logLevel
  | logFormat
  | spec
  | output
  | format
  | config
  | setting
  | nameMapping
deriving DecidableEq, Repr

/-- Where an option can stand: in front of a command, or behind one. -/
inductive Scope where
  | root
  | flatten
  | check
deriving DecidableEq, Repr

/-- The options of a scope with their long names and letters. -/
def Scope.names : Scope → List (Name × String × Option Char)
  | .root => [(.logLevel, "log-level", none), (.logFormat, "log-format", none)]
  | .flatten =>
    [(.logLevel, "log-level", none), (.logFormat, "log-format", none), (.spec, "spec", 's'),
      (.output, "output", 'o'), (.format, "format", none), (.config, "config", 'c'),
      (.setting, "option", none), (.nameMapping, "name-mapping", none)]
  | .check =>
    [(.logLevel, "log-level", none), (.logFormat, "log-format", none), (.spec, "spec", 's'),
      (.format, "format", none), (.config, "config", 'c'), (.setting, "option", none)]

namespace Scope

/-- The option with a long name. -/
def long? (scope : Scope) (name : String) : Option Name :=
  (scope.names.find? (·.2.1 = name)).map Prod.fst

/-- The option with a letter. -/
def letter? (scope : Scope) (letter : Char) : Option Name :=
  (scope.names.find? (·.2.2 = some letter)).map Prod.fst

/-- Whether an option takes all the arguments that follow it, as long as they can be values. -/
def isGreedy (scope : Scope) (name : Name) : Bool :=
  scope = .check && name = .spec

/-- Whether an option can be given again. -/
def isRepeatable (scope : Scope) (name : Name) : Bool :=
  scope.isGreedy name || name = .setting || name = .nameMapping

/-- Whether an option can have a value. -/
def accepts (scope : Scope) (name : Name) (value : String) : Bool :=
  match name with
  | .logFormat => value = "pretty" || value = "json"
  | .format =>
    if scope = .check then value = "text" || value = "json" else value = "yaml" || value = "json"
  | .setting | .nameMapping => (keyValue value).isOk
  | .logLevel | .spec | .output | .config => true

end Scope

/-- The options that are given, with their values, in order. -/
abbrev Given := List (Name × String)

namespace Given

/-- The values of an option. -/
def values (given : Given) (name : Name) : List String :=
  (given.filter (·.1 = name)).map Prod.snd

/-- The value of an option that is given once at most. -/
def value? (given : Given) (name : Name) : Option String :=
  (given.values name).head?

/-- The keys and values that an option gives. -/
def pairs (given : Given) (name : Name) : List (String × String) :=
  (given.values name).filterMap fun value => (keyValue value).toOption

/-- Add a value, if the option can have it and can be given again. -/
def add? (given : Given) (scope : Scope) (name : Name) (value : String) : Option Given :=
  if !scope.accepts name value then none
  else if !scope.isRepeatable name && given.any (·.1 = name) then none
  else some (given ++ [(name, value)])

end Given

/-! ## Reading arguments -/

/-- What an argument is. -/
inductive Token where
  /-- Two hyphens: no options follow. -/
  | separator
  | long (name : String) (attached : Option String)
  | letter (letter : Char) (attached : Option String)
  /-- A value or the name of a command. -/
  | word (text : String)
deriving DecidableEq, Repr

/-- What an argument is. A single hyphen is a word. -/
def Token.ofText (text : String) : Token :=
  match text.toList with
  | ['-', '-'] => .separator
  | '-' :: '-' :: rest =>
    match rest.span (· ≠ '=') with
    | (name, _ :: value) => .long (String.ofList name) (some (String.ofList value))
    | (name, []) => .long (String.ofList name) none
  | '-' :: char :: '=' :: value => .letter char (some (String.ofList value))
  | ['-', char] => .letter char none
  | '-' :: char :: value => .letter char (some (String.ofList value))
  | _ => .word text

/-- What the next argument is for. -/
inductive Expected where
  | anything
  /-- It must be the value of an option. -/
  | value (name : Name)
  /-- It can be one more value of an option. -/
  | more (name : Name)
deriving DecidableEq, Repr

/-- What the arguments of a scope are. -/
inductive Scan where
  | misuse
  | help
  | version
  | options (given : Given)
  /-- The name of a command, with the arguments behind it. -/
  | command (given : Given) (name : String) (rest : List String)
deriving DecidableEq, Repr

/-- What is expected behind a value of an option. -/
def Expected.after (scope : Scope) (name : Name) : Expected :=
  if scope.isGreedy name then .more name else .anything

/-- Read the arguments of a scope. -/
def scan (scope : Scope) (given : Given) (expected : Expected) : List String → Scan
  | [] =>
    match expected with
    | .value _ => .misuse
    | _ => .options given
  | argument :: rest =>
    let option (name : Option Name) (attached : Option String) : Scan :=
      match name, attached with
      | none, _ => .misuse
      | some name, none => scan scope given (.value name) rest
      | some name, some value =>
        match given.add? scope name value with
        | some given => scan scope given .anything rest
        | none => .misuse
    match expected, Token.ofText argument with
    | .value name, .word value | .more name, .word value =>
      match given.add? scope name value with
      | some given => scan scope given (.after scope name) rest
      | none => .misuse
    | .value _, _ => .misuse
    | .anything, .word name => if scope = .root then .command given name rest else .misuse
    | _, .separator => if rest.isEmpty then .options given else .misuse
    | _, .long "help" attached => if attached.isNone then .help else .misuse
    | _, .letter 'h' _ => .help
    | _, .long "version" attached =>
      if scope = .root && attached.isNone then .version else .misuse
    | _, .letter 'V' _ => if scope = .root then .version else .misuse
    | _, .long name attached => option (scope.long? name) attached
    | _, .letter letter attached => option (scope.letter? letter) attached

/-! ## Commands -/

/-- What is to be flattened, and how. -/
structure FlattenArguments where
  spec : String
  output : Option String
  format : Option Format
  config : Option String
  options : List (String × String)
  nameMappings : List (String × String)
deriving DecidableEq, Repr

/-- What is to be checked, and how. -/
structure CheckArguments where
  specs : List String
  asJson : Bool
  config : Option String
  options : List (String × String)
deriving DecidableEq, Repr

/-- The commands. -/
inductive Task where
  | flatten (arguments : FlattenArguments)
  | check (arguments : CheckArguments)
deriving DecidableEq, Repr

/-- What a command line asks for. -/
inductive Invocation where
  | misuse
  | help
  | version
  | run (logLevel : String) (logFormat : Log.Format) (task : Task)
deriving DecidableEq, Repr

/-- The command to flatten a document. -/
def flattenTask? (given : Given) : Option Task := do
  pure (.flatten
    { spec := ← given.value? .spec
      output := given.value? .output
      format := (given.value? .format).bind fun name => (Format.ofName name).toOption
      config := given.value? .config
      options := given.pairs .setting
      nameMappings := given.pairs .nameMapping })

/-- The command to check documents. -/
def checkTask? (given : Given) : Option Task :=
  if given.values .spec = [] then none
  else
    some (.check
      { specs := given.values .spec
        asJson := given.value? .format = some "json"
        config := given.value? .config
        options := given.pairs .setting })

/-- What the arguments of a command ask for. Its own options of logging count before those in front
of it. -/
def behind (front : Given) (scope : Scope) (task? : Given → Option Task)
    (arguments : List String) : Invocation :=
  match scan scope [] .anything arguments with
  | .help => .help
  | .options given =>
    let all := given ++ front
    let logFormat := ((all.value? .logFormat).bind Log.Format.ofName?).getD .pretty
    match task? given with
    | some task => .run ((all.value? .logLevel).getD "warn") logFormat task
    | none => .misuse
  | .misuse | .version | .command _ _ _ => .misuse

/-- What a command line asks for. -/
def Invocation.ofArguments (arguments : List String) : Invocation :=
  match scan .root [] .anything arguments with
  | .misuse | .options _ => .misuse
  | .help => .help
  | .version => .version
  | .command front "flatten" rest => behind front .flatten flattenTask? rest
  | .command front "check" rest => behind front .check checkTask? rest
  | .command _ "help" [] => .help
  | .command _ "help" [topic] =>
    if topic = "flatten" ∨ topic = "check" ∨ topic = "help" then .help else .misuse
  | .command _ _ _ => .misuse

end SchemaLift.Command
