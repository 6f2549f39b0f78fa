import SchemaLift.Log.Event
import SchemaLift.Text.Cut

/-!
# Options

The options of a flattening pass are given as texts under fixed names. They are read in the order
of their names; a name that is not known is logged and passed over, and a truth value that is
neither true nor false is refused.
-/

namespace SchemaLift

/-- The options that have a meaning. -/
inductive OptionName where
  | arrayItemSuffix
  | mapItemSuffix
  | skipSchemaReuse
  | resolveInlineEnums
  | refactorAllOf
deriving DecidableEq, Repr

namespace OptionName

/-- All options. -/
def all : List OptionName :=
  [.arrayItemSuffix, .mapItemSuffix, .skipSchemaReuse, .resolveInlineEnums, .refactorAllOf]

/-- The name of an option. -/
def text : OptionName → String
  | .arrayItemSuffix => "ARRAY_ITEM_SUFFIX"
  | .mapItemSuffix => "MAP_ITEM_SUFFIX"
  | .skipSchemaReuse => "SKIP_SCHEMA_REUSE"
  | .resolveInlineEnums => "RESOLVE_INLINE_ENUMS"
  | .refactorAllOf => "REFACTOR_ALLOF_INLINE_SCHEMAS"

/-- The option with a name. -/
def ofText? (text : String) : Option OptionName :=
  all.find? (·.text = text)

end OptionName

/-- What an option may be set to. -/
structure Options where
  /-- What is put behind the name of an array to name its items. -/
  arrayItemSuffix : String := "_inner"
  /-- What is put behind the name of a map to name its values. -/
  mapItemSuffix : String := "_value"
  /-- Whether every extraction is registered, even of a shape that was seen before. -/
  skipSchemaReuse : Bool := false
  /-- Whether enumerations in parameters and forms are extracted. -/
  resolveInlineEnums : Bool := false
  /-- Whether inline members of `allOf` are extracted. -/
  refactorAllOf : Bool := false
deriving DecidableEq, Repr

/-- An option with a value that it cannot have. -/
structure InvalidOption where
  key : String
  value : String
deriving DecidableEq, Repr

namespace InvalidOption

/-- The message of the error. -/
def message (invalid : InvalidOption) : String :=
  "E2003: invalid value '" ++ invalid.value ++ "' for option " ++ invalid.key

end InvalidOption

namespace Options

/-- A truth value, in whatever case. -/
def truth? (text : String) : Option Bool :=
  if Text.sameLetters text "true" then some true
  else if Text.sameLetters text "false" then some false
  else none

/-- Set an option to the value that a text means; none when it means none. -/
def assign? (options : Options) (name : OptionName) (value : String) : Option Options :=
  match name with
  | .arrayItemSuffix => some { options with arrayItemSuffix := value }
  | .mapItemSuffix => some { options with mapItemSuffix := value }
  | .skipSchemaReuse => do pure { options with skipSchemaReuse := ← truth? value }
  | .resolveInlineEnums => do pure { options with resolveInlineEnums := ← truth? value }
  | .refactorAllOf => do pure { options with refactorAllOf := ← truth? value }

/-- Set options one after the other, up to the first that cannot be set. Also tells which names are
not known, as far as they come before it. -/
def assignAll (options : Options) :
    List (String × String) → List Log.Event × Except InvalidOption Options
  | [] => ([], .ok options)
  | (key, value) :: rest =>
    match OptionName.ofText? key with
    | none =>
      let (events, outcome) := assignAll options rest
      (.unknownOption key value :: events, outcome)
    | some name =>
      match assign? options name value with
      | some options => assignAll options rest
      | none => ([], .error ⟨key, value⟩)

/-- The options that a table of texts means; the table is in the order of its keys. -/
def ofMembers (table : Members String) : List Log.Event × Except InvalidOption Options :=
  assignAll {} table

end Options

/-- Everything that a flattening pass needs besides the document. -/
structure Config where
  options : Options := {}
  /-- The names that replace chosen ones, in the order of the names that they replace. -/
  nameMappings : List (String × String) := []
  /-- Handed on to the report; the pass itself has no use for it. -/
  generateMetadata : Bool := false
deriving DecidableEq, Repr

namespace Config

/-- The configuration that tables of options and of names mean. -/
def ofTables (options : Members String) (nameMappings : Members String) :
    List Log.Event × Except InvalidOption Config :=
  let (events, outcome) := Options.ofMembers options
  (events, outcome.map fun options => { options, nameMappings })

end Config

end SchemaLift
