import SchemaLift.Json.Basic
import SchemaLift.Yaml.Node.Anchors
import SchemaLift.Yaml.Node.Grammar
import SchemaLift.Yaml.Scalar

/-!
# JSON values in YAML

A YAML document read as a JSON value. Keys are the source texts of scalars, whatever they mean; a
repeated key keeps its first place and its last value. A tag of the core schema fixes what a scalar
means, a local tag (`!name`) is refused, and any other tag makes a scalar a text, unless it starts
with a mark and names nothing. Infinities and not-a-number read as null.
-/

namespace SchemaLift.Yaml

/-- The only document of a text with its aliases replaced, or an inner none when the text holds no
document. -/
def document? (text : String) : Option (Option (Node Empty)) := do
  match ← parseStream (← tokens? text) with
  | some node => pure (some (← node.resolve?))
  | none => pure none

/-! ## Tags -/

/-- What a scalar means, given its tag. A tag that does not fit the text is refused; one that starts
with a mark says nothing about it. -/
def scalarOf? (tag : Option Tag) (text : String) (style : Style) : Option Scalar :=
  match tag.filter (!·.isMarked) with
  | none => some (if style = .plain then .ofPlain text else .text text)
  | some tag =>
    if tag = .core "bool" then (Scalar.bool? text).map .bool
    else if tag = .core "int" then (Scalar.integer? text.toList).bind Scalar.ofInteger?
    else if tag = .core "float" then Scalar.float? text
    else if tag = .core "null" then if Scalar.isNull text then some .null else none
    else some (.text text)

/-! ## JSON -/

/-- The JSON value of a scalar; an integer that needs more than 64 bits is refused. -/
def Scalar.toJson? : Scalar → Option Json
  | .null => some .null
  | .bool value => some (.bool value)
  | .integer value => some (.integer value)
  | .wideInteger _ => none
  | .binary64 value => some (.number (.binary64 value))
  | .infinity _ => some .null
  | .notANumber => some .null
  | .text value => some (.string value)

/-- The text of a key. -/
def Node.keyText? : Node Empty → Option String
  | .scalar _ text _ => some text
  | _ => none

/-- Whether a node has a local tag. -/
def Properties.isLocal (properties : Properties) : Bool :=
  (properties.tag.bind Tag.localName?).isSome

namespace Node

mutual

/-- The JSON value of a node. -/
def toJson? : Node Empty → Option Json
  | .alias _ => none
  | .scalar properties text style =>
    if properties.isLocal then none else do
      (← scalarOf? properties.tag text style).toJson?
  | .sequence properties items =>
    if properties.isLocal then none else do pure (.array (← itemsToJson? items))
  | .mapping properties entries =>
    if properties.isLocal then none else do
      pure (.object (Members.ofEntries (← entriesToJson? entries)))

/-- The JSON values of the items of a sequence. -/
def itemsToJson? : List (Node Empty) → Option (List Json)
  | [] => some []
  | item :: rest => do
    let value ← item.toJson?
    let values ← itemsToJson? rest
    pure (value :: values)

/-- The keys and JSON values of the entries of a mapping. -/
def entriesToJson? : List (Node Empty × Node Empty) → Option (List (String × Json))
  | [] => some []
  | (key, value) :: rest => do
    let key ← key.keyText?
    let value ← value.toJson?
    let members ← entriesToJson? rest
    pure ((key, value) :: members)

end

end Node

/-- The JSON value of a YAML text; a text without a document is null. None when the text is
malformed or holds something that JSON has not. -/
def toJson? (text : String) : Option Json := do
  match ← document? text with
  | some node => node.toJson?
  | none => pure .null

end SchemaLift.Yaml
