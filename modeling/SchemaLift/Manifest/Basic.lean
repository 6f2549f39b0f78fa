import SchemaLift.Flatten.Options
import SchemaLift.Manifest.Setting

/-!
# Manifests

The configuration file of a project: options with their settings, names to be replaced, and a flag.
Entries from elsewhere can be laid over those of the file; both tables are kept in key order.
-/

namespace SchemaLift

/-- A configuration file. -/
structure Manifest where
  options : List (String × Setting) := []
  nameMappings : List (String × String) := []
  generateMetadata : Bool := false

namespace Manifest

/-- The entry of the options in a file. -/
def optionsKey : String := "inline_schema_options"

/-- The entry of the names to be replaced in a file. -/
def nameMappingsKey : String := "inline_schema_name_mappings"

/-- The entry of the flag in a file. -/
def generateMetadataKey : String := "generate_metadata"

/-- Lay options and names over those of the manifest; the last value of a key counts. -/
def withOverrides (manifest : Manifest) (options nameMappings : List (String × String)) :
    Manifest :=
  { manifest with
    options := Members.extendSorted manifest.options (Members.mapValues Setting.text options)
    nameMappings := Members.extendSorted manifest.nameMappings nameMappings }

/-- The texts that settings mean. The first setting that means none is refused. -/
def texts : List (String × Setting) → Except InvalidOption (List (String × String))
  | [] => .ok []
  | (key, setting) :: rest => do
    let text ←
      match setting.text? with
      | some text => pure text
      | none => throw ⟨key, setting.description⟩
    let entries ← texts rest
    pure ((key, text) :: entries)

/-- The configuration that a manifest means, and what there is to be logged about it. -/
def toConfig (manifest : Manifest) : List Log.Event × Except InvalidOption Config :=
  match texts manifest.options with
  | .error invalid => ([], .error invalid)
  | .ok options =>
    let (events, outcome) := Config.ofTables options manifest.nameMappings
    (events, outcome.map fun config =>
      { config with generateMetadata := manifest.generateMetadata })

end Manifest

end SchemaLift
