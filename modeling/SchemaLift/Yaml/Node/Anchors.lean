import SchemaLift.Yaml.Node

/-!
# Anchors and aliases

Anchored nodes are numbered in the order in which they start. Each anchor is put into a slot: the
slot number is the number of different names that came before it. An alias means the slot that its
name was last put into, and the slot holds the last node that was ever put there. So an alias of a
name that is anchored once means that node.

Replacing aliases by copies is bounded: collections nest at most 128 deep, and the number of copies
is at most a hundred times the size of the tree. A node inside itself runs out of depth.
-/

namespace SchemaLift.Yaml

/-! ## Numbering -/

namespace Node

variable {ι : Type}

mutual

/-- The nodes that have an anchor, in the order in which they start. -/
def anchored : Node ι → List (String × Node ι)
  | .alias _ => []
  | .scalar properties text style =>
    (properties.anchor.map fun name => (name, .scalar properties text style)).toList
  | .sequence properties items =>
    (properties.anchor.map fun name => (name, .sequence properties items)).toList ++
      anchoredItems items
  | .mapping properties entries =>
    (properties.anchor.map fun name => (name, .mapping properties entries)).toList ++
      anchoredEntries entries

/-- The anchored nodes among the items of a sequence. -/
def anchoredItems : List (Node ι) → List (String × Node ι)
  | [] => []
  | item :: rest => item.anchored ++ anchoredItems rest

/-- The anchored nodes among the entries of a mapping. -/
def anchoredEntries : List (Node ι × Node ι) → List (String × Node ι)
  | [] => []
  | (key, value) :: rest => key.anchored ++ value.anchored ++ anchoredEntries rest

end

end Node

/-- The slot of every anchor, in the order of the anchors. -/
def slotsAfter (seen : List String) : List String → List (String × Nat)
  | [] => []
  | name :: rest =>
    (name, seen.length) :: slotsAfter (if seen.contains name then seen else name :: seen) rest

/-- The slot of every anchor. -/
def slots (names : List String) : List (String × Nat) :=
  slotsAfter [] names

/-- The number of the node that an alias means, when `started` anchors stand before it. -/
def target? (slots : List (String × Nat)) (started : Nat) (name : String) : Option Nat := do
  let (_, slot) ← (slots.take started).reverse.find? (·.1 = name)
  let later ← slots.reverse.findIdx? (·.2 = slot)
  pure (slots.length - 1 - later)

/-! ## Looking names up -/

/-- Whether a node counts as an anchored one. -/
def Properties.anchorCount (properties : Properties) : Nat :=
  if properties.anchor.isSome then 1 else 0

mutual

/-- Replace names by numbers, given how many anchors stand before the node; also gives how many
stand before what follows it. An unknown name is refused. -/
def link? (slots : List (String × Nat)) (started : Nat) :
    Node String → Option (Node Nat × Nat)
  | .alias name => do pure (.alias (← target? slots started name), started)
  | .scalar properties text style =>
    some (.scalar properties text style, started + properties.anchorCount)
  | .sequence properties items => do
    let (items, started) ← linkItems? slots (started + properties.anchorCount) items
    pure (.sequence properties items, started)
  | .mapping properties entries => do
    let (entries, started) ← linkEntries? slots (started + properties.anchorCount) entries
    pure (.mapping properties entries, started)

/-- Replace names by numbers in the items of a sequence. -/
def linkItems? (slots : List (String × Nat)) (started : Nat) :
    List (Node String) → Option (List (Node Nat) × Nat)
  | [] => some ([], started)
  | item :: rest => do
    let (item, started) ← link? slots started item
    let (rest, started) ← linkItems? slots started rest
    pure (item :: rest, started)

/-- Replace names by numbers in the entries of a mapping. -/
def linkEntries? (slots : List (String × Nat)) (started : Nat) :
    List (Node String × Node String) → Option (List (Node Nat × Node Nat) × Nat)
  | [] => some ([], started)
  | (key, value) :: rest => do
    let (key, started) ← link? slots started key
    let (value, started) ← link? slots started value
    let (rest, started) ← linkEntries? slots started rest
    pure ((key, value) :: rest, started)

end

/-! ## Copying -/

/-- How deep collections may nest. -/
def deepest : Nat := 128

/-- The node itself, or the node that an alias means; counts the copies made. -/
def copy (templates : List (Node Nat)) (limit : Nat) : Node Nat → StateT Nat Option (Node Nat)
  | .alias label => do
    let copies ← get
    if limit < copies + 1 then failure
    set (copies + 1)
    match templates[label]? with
    | some node => pure node
    | none => failure
  | node => pure node

/-- Replace aliases by copies, as far as collections nest at most `depth` deep. -/
def expand (templates : List (Node Nat)) (limit : Nat) :
    Nat → Node Nat → StateT Nat Option (Node Empty)
  | 0, node => do
    match ← copy templates limit node with
    | .scalar properties text style => pure (.scalar properties text style)
    | _ => failure
  | depth + 1, node => do
    match ← copy templates limit node with
    | .alias _ => failure
    | .scalar properties text style => pure (.scalar properties text style)
    | .sequence properties items =>
      pure (.sequence properties (← items.mapM (expand templates limit depth)))
    | .mapping properties entries =>
      let entries ← entries.mapM fun entry => do
        pure (← expand templates limit depth entry.1, ← expand templates limit depth entry.2)
      pure (.mapping properties entries)

/-- The tree with all aliases replaced by copies. -/
def Node.resolve? (node : Node String) : Option (Node Empty) := do
  let slots := slots (node.anchored.map Prod.fst)
  let (linked, _) ← link? slots 0 node
  let templates := linked.anchored.map Prod.snd
  (expand templates (100 * linked.size) deepest linked).run' 0

end SchemaLift.Yaml
