import SchemaLift.Yaml.Token

/-!
# YAML nodes

The tree that a YAML document describes. The labels of its aliases are a parameter: names of
anchors as written, serial numbers of anchored nodes once they are looked up, and nothing at all
(`Empty`) in a tree whose aliases have been replaced by copies.
-/

namespace SchemaLift.Yaml

/-- What may stand in front of a node. -/
structure Properties where
  anchor : Option String
  tag : Option Tag
deriving DecidableEq, Repr

/-- A node with no anchor and no tag has these properties. -/
def Properties.none : Properties :=
  ⟨Option.none, Option.none⟩

/-- A node whose aliases are labelled by `ι`. -/
inductive Node (ι : Type) where
  | alias (label : ι)
  | scalar (properties : Properties) (text : String) (style : Style)
  | sequence (properties : Properties) (items : List (Node ι))
  | mapping (properties : Properties) (entries : List (Node ι × Node ι))

namespace Node

variable {ι : Type}

/-- The node that stands where nothing is written. -/
def empty : Node ι :=
  .scalar .none "" .plain

mutual

/-- How many marks it takes to write the node: one for a leaf, two around a collection. -/
def size : Node ι → Nat
  | .alias _ => 1
  | .scalar _ _ _ => 1
  | .sequence _ items => 2 + sizeItems items
  | .mapping _ entries => 2 + sizeEntries entries

/-- The size of the items of a sequence. -/
def sizeItems : List (Node ι) → Nat
  | [] => 0
  | item :: rest => item.size + sizeItems rest

/-- The size of the entries of a mapping. -/
def sizeEntries : List (Node ι × Node ι) → Nat
  | [] => 0
  | (key, value) :: rest => key.size + value.size + sizeEntries rest

end

end Node

end SchemaLift.Yaml
