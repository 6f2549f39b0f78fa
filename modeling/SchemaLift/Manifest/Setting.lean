import SchemaLift.Text.Cut
import SchemaLift.Text.Quoted
import SchemaLift.Yaml.Value
import SchemaLift.Yaml.Writer

/-!
# Settings

The value of an option as it is written in a configuration file: any YAML value, of which only the
scalars mean a text. The others are described in full where they are refused.
-/

namespace SchemaLift

/-- The value of an option in a configuration file. -/
inductive Setting where
  | null
  | bool (value : Bool)
  | number (value : Number)
  | infinity (negative : Bool)
  | notANumber
  | text (value : String)
  | sequence (items : List Setting)
  | mapping (entries : List (Setting × Setting))
  | tagged (tag : String) (value : Setting)
deriving Repr, Inhabited

namespace Setting

/-! ## Equality -/

mutual

/-- Equality of settings; that of mappings ignores the order of entries. -/
def same : Setting → Setting → Bool
  | .null, .null => true
  | .bool left, .bool right => left == right
  | .number left, .number right => left.same right
  | .infinity left, .infinity right => left == right
  | .notANumber, .notANumber => true
  | .text left, .text right => left == right
  | .sequence left, .sequence right => sameItems left right
  | .mapping left, .mapping right => left.length == right.length && sameEntries left right
  | .tagged left value, .tagged right other => left == right && value.same other
  | _, _ => false

/-- Equality of the items of sequences. -/
def sameItems : List Setting → List Setting → Bool
  | [], [] => true
  | left :: lefts, right :: rights => left.same right && sameItems lefts rights
  | _, _ => false

/-- Every entry has an equal one on the right. -/
def sameEntries : List (Setting × Setting) → List (Setting × Setting) → Bool
  | [], _ => true
  | (key, value) :: rest, others =>
    (others.any fun other => key.same other.1 && value.same other.2) && sameEntries rest others

end

/-- Whether no key of a mapping stands twice. -/
def distinctKeys : List (Setting × Setting) → Bool
  | [] => true
  | (key, _) :: rest => !(rest.any fun other => key.same other.1) && distinctKeys rest

/-! ## Reading -/

/-- The setting that a scalar means; an integer that needs more than 64 bits is refused. -/
def ofScalar? : Yaml.Scalar → Option Setting
  | .null => some .null
  | .bool value => some (.bool value)
  | .integer value => some (.number (.integer value))
  | .wideInteger _ => none
  | .binary64 value => some (.number (.binary64 value))
  | .infinity negative => some (.infinity negative)
  | .notANumber => some .notANumber
  | .text value => some (.text value)

/-- Put the local tag of a node around its setting. -/
def withTag (properties : Yaml.Properties) (setting : Setting) : Setting :=
  match properties.tag.bind Yaml.Tag.localName? with
  | some tag => .tagged tag setting
  | none => setting

mutual

/-- The setting that a node is. A local tag becomes part of it. A mapping with a repeated key is
refused. -/
def ofNode? : Yaml.Node Empty → Option Setting
  | .alias _ => none
  | .scalar properties source style => do
    let setting ← ofScalar? (← Yaml.scalarOf? properties.tag source style)
    pure (withTag properties setting)
  | .sequence properties items => do
    pure (withTag properties (.sequence (← ofItems? items)))
  | .mapping properties entries => do
    let entries ← ofEntries? entries
    if distinctKeys entries then pure (withTag properties (.mapping entries)) else none

/-- The settings that the items of a sequence are. -/
def ofItems? : List (Yaml.Node Empty) → Option (List Setting)
  | [] => some []
  | item :: rest => do
    let setting ← ofNode? item
    let settings ← ofItems? rest
    pure (setting :: settings)

/-- The settings that the keys and values of a mapping are. -/
def ofEntries? : List (Yaml.Node Empty × Yaml.Node Empty) → Option (List (Setting × Setting))
  | [] => some []
  | (key, value) :: rest => do
    let key ← ofNode? key
    let value ← ofNode? value
    let entries ← ofEntries? rest
    pure ((key, value) :: entries)

end

/-! ## Meaning -/

/-- The text of an infinity. -/
def infinityText (negative : Bool) : String :=
  if negative then "-.inf" else ".inf"

/-- The text that a setting means; only scalars mean one. -/
def text? : Setting → Option String
  | .null => some ""
  | .bool value => some (if value then "true" else "false")
  | .number value => some (Yaml.numberText value)
  | .infinity negative => some (infinityText negative)
  | .notANumber => some ".nan"
  | .text value => some value
  | .sequence _ | .mapping _ | .tagged _ _ => none

/-- The name of a tag with its mark. -/
def tagText (tag : String) : String :=
  match Text.dropLead? "!" tag with
  | none | some "" => "!" ++ tag
  | some name => "!" ++ name

mutual

/-- A setting in full. -/
def description : Setting → String
  | .null => "Null"
  | .bool value => "Bool(" ++ (if value then "true" else "false") ++ ")"
  | .number value => "Number(" ++ Yaml.numberText value ++ ")"
  | .infinity negative => "Number(" ++ infinityText negative ++ ")"
  | .notANumber => "Number(.nan)"
  | .text value => "String(" ++ Text.quoted value ++ ")"
  | .sequence items => "Sequence [" ++ describeItems "" items ++ "]"
  | .mapping entries => "Mapping \x7b" ++ describeEntries "" entries ++ "\x7d"
  | .tagged tag value =>
    "TaggedValue \x7b tag: " ++ tagText tag ++ ", value: " ++ value.description ++ " \x7d"

/-- The items of a sequence in full. -/
def describeItems (separator : String) : List Setting → String
  | [] => ""
  | item :: rest => separator ++ item.description ++ describeItems ", " rest

/-- The entries of a mapping in full; truth values, numbers and texts stand bare as keys. -/
def describeEntries (separator : String) : List (Setting × Setting) → String
  | [] => ""
  | (key, value) :: rest =>
    separator ++
      (match key with
        | .bool value => if value then "true" else "false"
        | .number value => Yaml.numberText value
        | .infinity negative => infinityText negative
        | .notANumber => ".nan"
        | .text value => Text.quoted value
        | key => key.description) ++
      ": " ++ value.description ++ describeEntries ", " rest

end

end Setting

end SchemaLift
