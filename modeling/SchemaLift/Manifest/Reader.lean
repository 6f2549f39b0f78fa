import SchemaLift.Manifest.Basic

/-!
# Reading manifests

A manifest is a YAML mapping whose entries are known and stand once. Where a mapping is due, nothing
at all stands for the empty one, but a written null does not. Keys and replaced names are the source
texts of scalars, whatever they mean; of entries with the same key the last one counts.
-/

namespace SchemaLift.Manifest

open Yaml

/-- The entries of a mapping, or none where nothing is written. -/
def entriesOf? : Node Empty → Option (List (Node Empty × Node Empty))
  | .mapping _ entries => some entries
  | .scalar _ "" .plain => some []
  | _ => none

/-- The entries of a mapping in key order. -/
def tableOf? {α : Type} (read : Node Empty → Option α) (node : Node Empty) :
    Option (Members α) := do
  let entries ← entriesOf? node
  let entries ← entries.mapM fun entry => do pure (← entry.1.keyText?, ← read entry.2)
  pure (Members.sorted entries)

/-- A truth value: a plain scalar, or a literal one that is tagged as such. -/
def flagOf? : Node Empty → Option Bool
  | .scalar properties text style =>
    if style = .plain ∨ (style = .literal ∧ properties.tag = some (.core "bool")) then
      Scalar.bool? text
    else none
  | _ => none

/-- A manifest with one more entry. -/
def withEntry? (manifest : Manifest) (key : String) (value : Node Empty) : Option Manifest :=
  if key = optionsKey then do
    pure { manifest with options := ← tableOf? Setting.ofNode? value }
  else if key = nameMappingsKey then do
    pure { manifest with nameMappings := ← tableOf? Node.keyText? value }
  else if key = generateMetadataKey then do
    pure { manifest with generateMetadata := ← flagOf? value }
  else none

/-- A manifest with more entries, whose keys must differ from each other and from those seen. -/
def withEntries? (manifest : Manifest) (seen : List String) :
    List (Node Empty × Node Empty) → Option Manifest
  | [] => some manifest
  | (key, value) :: rest => do
    let key ← key.keyText?
    if seen.contains key then none
    let manifest ← manifest.withEntry? key value
    withEntries? manifest (key :: seen) rest

/-- The manifest that a text holds. A text of white space holds the empty one. -/
def ofText? (text : String) : Option Manifest :=
  if Text.trim text = "" then some {}
  else do
    match ← document? text with
    | some node => withEntries? {} [] (← entriesOf? node)
    | none => pure {}

end SchemaLift.Manifest
