import SchemaLift.Members
import SchemaLift.Yaml.Node
import SchemaLift.Yaml.Token.Lexer

/-!
# From tokens to nodes

Recursive descent over tokens. A place where a node may stand but nothing is written holds an empty
plain scalar. Every function takes fuel that exceeds the number of tokens it can look at.
-/

namespace SchemaLift.Yaml

/-- The expansions of tag handles. -/
abbrev Handles := Members Tag

namespace Handles

/-- The handles that need no directive. -/
def standard : Handles :=
  [("!", .ofText "!"), ("!!", .core "")]

/-- The full text of a tag; an unknown handle is refused. -/
def expand? (handles : Handles) (handle : String) (suffix : Tag) : Option Tag :=
  if handle = "" then some suffix
  else (Members.get? handle handles).map (· ++ suffix)

end Handles

/-- The anchor and the tag in front of a node, in either order. -/
def takeProperties (handles : Handles) : List Token → Option (Properties × List Token)
  | .anchor name :: .tag handle suffix :: rest => do
    pure (⟨some name, ← handles.expand? handle suffix⟩, rest)
  | .anchor name :: rest => some (⟨some name, none⟩, rest)
  | .tag handle suffix :: .anchor name :: rest => do
    pure (⟨some name, ← handles.expand? handle suffix⟩, rest)
  | .tag handle suffix :: rest => do
    pure (⟨none, ← handles.expand? handle suffix⟩, rest)
  | input => some (.none, input)

/-- Whether the next token is one of the given ones. -/
def comesNext (tokens : List Token) : List Token → Bool
  | [] => false
  | token :: _ => tokens.contains token

mutual

/-- A node. Blocks are read only where `block` says so, and a sequence whose dashes are not
indented only where `indentless` says so. -/
def parseNode (handles : Handles) :
    Nat → (block indentless : Bool) → List Token → Option (Node String × List Token)
  | 0, _, _, _ => none
  | _ + 1, _, _, .alias name :: rest => some (.alias name, rest)
  | fuel + 1, block, indentless, input => do
    let (properties, input) ← takeProperties handles input
    match input with
    | .scalar text style :: rest => pure (.scalar properties text style, rest)
    | .flowSequenceStart :: rest =>
      let (items, rest) ← parseFlowSequence handles fuel true rest
      pure (.sequence properties items, rest)
    | .flowMappingStart :: rest =>
      let (entries, rest) ← parseFlowMapping handles fuel true rest
      pure (.mapping properties entries, rest)
    | input =>
      if indentless && comesNext [.blockEntry] input then
        let (items, rest) ← parseIndentless handles fuel input
        pure (.sequence properties items, rest)
      else if block && comesNext [.blockSequenceStart] input then
        let (items, rest) ← parseBlockSequence handles fuel (input.drop 1)
        pure (.sequence properties items, rest)
      else if block && comesNext [.blockMappingStart] input then
        let (entries, rest) ← parseBlockMapping handles fuel (input.drop 1)
        pure (.mapping properties entries, rest)
      else if properties = .none then none
      else pure (.scalar properties "" .plain, input)

/-- A node, or the empty node in front of one of the given tokens. -/
def parseUnless (handles : Handles) :
    Nat → (stops : List Token) → (block indentless : Bool) → List Token →
      Option (Node String × List Token)
  | 0, _, _, _, _ => none
  | fuel + 1, stops, block, indentless, input =>
    if comesNext stops input then some (.empty, input)
    else parseNode handles fuel block indentless input

/-- The items of a block sequence, up to its end. -/
def parseBlockSequence (handles : Handles) :
    Nat → List Token → Option (List (Node String) × List Token)
  | 0, _ => none
  | fuel + 1, input =>
    match input with
    | .blockEntry :: rest => do
      let (item, rest) ← parseUnless handles fuel [.blockEntry, .blockEnd] true false rest
      let (items, rest) ← parseBlockSequence handles fuel rest
      pure (item :: items, rest)
    | .blockEnd :: rest => some ([], rest)
    | _ => none

/-- The items of a sequence whose dashes stand at the column of the mapping around it. -/
def parseIndentless (handles : Handles) :
    Nat → List Token → Option (List (Node String) × List Token)
  | 0, _ => none
  | fuel + 1, input =>
    match input with
    | .blockEntry :: rest => do
      let (item, rest) ←
        parseUnless handles fuel [.blockEntry, .key, .value, .blockEnd] true false rest
      let (items, rest) ← parseIndentless handles fuel rest
      pure (item :: items, rest)
    | _ => some ([], input)

/-- The entries of a block mapping, up to its end. -/
def parseBlockMapping (handles : Handles) :
    Nat → List Token → Option (List (Node String × Node String) × List Token)
  | 0, _ => none
  | fuel + 1, input =>
    match input with
    | .key :: rest => do
      let (key, rest) ← parseUnless handles fuel [.key, .value, .blockEnd] true true rest
      let (value, rest) ← parseBlockValue handles fuel rest
      let (entries, rest) ← parseBlockMapping handles fuel rest
      pure ((key, value) :: entries, rest)
    | .blockEnd :: rest => some ([], rest)
    | _ => none

/-- The value of a block mapping's entry. -/
def parseBlockValue (handles : Handles) : Nat → List Token → Option (Node String × List Token)
  | 0, _ => none
  | fuel + 1, input =>
    match input with
    | .value :: rest => parseUnless handles fuel [.key, .value, .blockEnd] true true rest
    | _ => some (.empty, input)

/-- The items of a sequence in brackets, up to the closing one. -/
def parseFlowSequence (handles : Handles) :
    Nat → (first : Bool) → List Token → Option (List (Node String) × List Token)
  | 0, _, _ => none
  | fuel + 1, first, input => do
    let input ←
      match first, input with
      | true, input => some input
      | false, .flowSequenceEnd :: _ => some input
      | false, .flowEntry :: rest => some rest
      | false, _ => none
    match input with
    | .flowSequenceEnd :: rest => pure ([], rest)
    | .key :: rest =>
      let (entry, rest) ← parseFlowPair handles fuel rest
      let (items, rest) ← parseFlowSequence handles fuel false rest
      pure (.mapping .none [entry] :: items, rest)
    | input =>
      let (item, rest) ← parseNode handles fuel false false input
      let (items, rest) ← parseFlowSequence handles fuel false rest
      pure (item :: items, rest)

/-- A single `key: value` pair between the items of a sequence in brackets. When the key is empty,
the token behind it is skipped. -/
def parseFlowPair (handles : Handles) :
    Nat → List Token → Option ((Node String × Node String) × List Token)
  | 0, _ => none
  | fuel + 1, input => do
    let (key, rest) ←
      if comesNext [.value, .flowEntry, .flowSequenceEnd] input then
        pure (.empty, input.drop 1)
      else parseNode handles fuel false false input
    match rest with
    | .value :: rest =>
      let (value, rest) ← parseUnless handles fuel [.flowEntry, .flowSequenceEnd] false false rest
      pure ((key, value), rest)
    | rest => pure ((key, .empty), rest)

/-- The entries of a mapping in braces, up to the closing one. -/
def parseFlowMapping (handles : Handles) :
    Nat → (first : Bool) → List Token → Option (List (Node String × Node String) × List Token)
  | 0, _, _ => none
  | fuel + 1, first, input => do
    let input ←
      match first, input with
      | true, input => some input
      | false, .flowMappingEnd :: _ => some input
      | false, .flowEntry :: rest => some rest
      | false, _ => none
    match input with
    | .flowMappingEnd :: rest => pure ([], rest)
    | .key :: rest =>
      let (key, rest) ←
        parseUnless handles fuel [.value, .flowEntry, .flowMappingEnd] false false rest
      let (value, rest) ← parseFlowValue handles fuel rest
      let (entries, rest) ← parseFlowMapping handles fuel false rest
      pure ((key, value) :: entries, rest)
    | input =>
      let (key, rest) ← parseNode handles fuel false false input
      let (entries, rest) ← parseFlowMapping handles fuel false rest
      pure ((key, .empty) :: entries, rest)

/-- The value of an entry in braces. -/
def parseFlowValue (handles : Handles) : Nat → List Token → Option (Node String × List Token)
  | 0, _ => none
  | fuel + 1, input =>
    match input with
    | .value :: rest => parseUnless handles fuel [.flowEntry, .flowMappingEnd] false false rest
    | _ => some (.empty, input)

end

/-! ## Documents -/

/-- Whether a token stands between documents. -/
def isBoundary : Token → Bool
  | .versionDirective _ _ | .tagDirective _ _ | .documentStart | .documentEnd => true
  | _ => false

/-- The directives in front of a document: the version at most once and one of the two known ones,
each tag handle at most once. -/
def takeDirectives (versioned : Bool) (handles : Handles) :
    List Token → Option (Handles × List Token)
  | .versionDirective major minor :: rest =>
    if versioned || major ≠ 1 || (minor ≠ 1 && minor ≠ 2) then none
    else takeDirectives true handles rest
  | .tagDirective handle expansion :: rest =>
    if Members.has handle handles then none
    else takeDirectives versioned (handles ++ [(handle, expansion)]) rest
  | input => some (handles, input)

/-- The only document of a stream, or an inner none when the stream is empty. More than one
document is refused. -/
def parseStream (input : List Token) : Option (Option (Node String)) := do
  let fuel := 4 * input.length + 8
  let (node, rest) ←
    match input with
    | [] => pure (none, [])
    | .documentEnd :: _ => none
    | token :: _ =>
      if isBoundary token then do
        let (declared, rest) ← takeDirectives false [] input
        let handles := Members.extend declared
          (Handles.standard.filter fun handle => !Members.has handle.1 declared)
        match rest with
        | .documentStart :: rest =>
          if rest.isEmpty || (rest.head?.any isBoundary) then pure (some .empty, rest)
          else do
            let (node, rest) ← parseNode handles fuel true false rest
            pure (some node, rest)
        | _ => none
      else do
        let (node, rest) ← parseNode Handles.standard fuel true false input
        pure (some node, rest)
  if rest.all (· == .documentEnd) then pure node else none

end SchemaLift.Yaml
