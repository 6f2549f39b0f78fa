import SchemaLift.Proofs.Json.Proper
import SchemaLift.Proofs.Members.Taking
import SchemaLift.Proofs.Yaml.Printed
import SchemaLift.Yaml.Value

/-!
# The node of JSON text

The tokens of a value are parsed to the node of the value (`Json.parseNode_tokens`): flow collections
in flow collections, without anchors, tags and aliases. So nothing is copied, and the node is the
value as long as arrays and objects do not nest too deep (`Yaml.toJson?_pretty`).
-/

namespace SchemaLift

namespace Json

open Yaml

section Nodes

variable {ι : Type}

mutual

/-- The node that the tokens of a value stand for. -/
def node : Json → Node ι
  | .array elements => .sequence .none (elementNodes elements)
  | .object members => .mapping .none (memberNodes members)
  | .null => .scalar .none "null" .plain
  | .bool value => .scalar .none (if value then "true" else "false") .plain
  | .number value => .scalar .none (numberText value) .plain
  | .string value => .scalar .none value .doubleQuoted

/-- The nodes of the elements of an array. -/
def elementNodes : List Json → List (Node ι)
  | [] => []
  | element :: rest => element.node :: elementNodes rest

/-- The nodes of the members of an object. -/
def memberNodes : List (String × Json) → List (Node ι × Node ι)
  | [] => []
  | (key, value) :: rest => (.scalar .none key .doubleQuoted, value.node) :: memberNodes rest

end

end Nodes

/-! ## Parsing -/

/-- A token that a value starts with. -/
inductive StartsValue : Token → Prop
  | scalar (text : String) (style : Style) : StartsValue (.scalar text style)
  | sequence : StartsValue .flowSequenceStart
  | mapping : StartsValue .flowMappingStart

theorem exists_start (value : Json) :
    ∃ first others, value.tokens = first :: others ∧ StartsValue first := by
  cases value with
  | array elements => exact ⟨_, _, rfl, .sequence⟩
  | object members => exact ⟨_, _, rfl, .mapping⟩
  | _ => exact ⟨_, _, rfl, .scalar _ _⟩

theorem tokens_pos (value : Json) : 0 < value.tokens.length := by
  obtain ⟨first, others, spelled, -⟩ := value.exists_start
  rw [spelled]
  exact Nat.succ_pos _

/-- A value whose tokens are parsed to its node, whatever follows. -/
def Parses (handles : Handles) (value : Json) : Prop :=
  ∀ ⦃fuel : Nat⦄ (block indentless : Bool) (rest : List Token), 2 * value.tokens.length ≤ fuel →
    parseNode handles fuel block indentless (value.tokens ++ rest) = some (value.node, rest)

variable {handles : Handles} {fuel : Nat} {rest : List Token}

/-- Whether an item is the first one, and what stands in front of it. -/
def IsBetween (first : Bool) (between : List Token) : Prop :=
  first = true ∧ between = [] ∨ first = false ∧ between = [.flowEntry]

/-- The next item of a sequence. -/
theorem parseFlowSequence_cons {first : Bool} {between : List Token}
    (isBetween : IsBetween first between) (element : Json) (tail : List Token) :
    parseFlowSequence handles (fuel + 1) first (between ++ (element.tokens ++ tail)) =
      (parseNode handles fuel false false (element.tokens ++ tail)).bind fun (item, rest) =>
        (parseFlowSequence handles fuel false rest).bind fun (items, rest) =>
          some (item :: items, rest) := by
  obtain ⟨start, others, spelled, starts⟩ := element.exists_start
  rw [spelled]
  rcases isBetween with ⟨rfl, rfl⟩ | ⟨rfl, rfl⟩ <;> cases starts <;> rfl

/-- The next entry of a mapping. -/
theorem parseFlowMapping_cons {first : Bool} {between : List Token}
    (isBetween : IsBetween first between) (key : String) (value : Json) (tail : List Token) :
    parseFlowMapping handles (fuel + 3) first
        (between ++ .key :: .scalar key .doubleQuoted :: .value :: (value.tokens ++ tail)) =
      (parseNode handles fuel false false (value.tokens ++ tail)).bind fun (node, rest) =>
        (parseFlowMapping handles (fuel + 2) false rest).bind fun (entries, rest) =>
          some ((.scalar .none key .doubleQuoted, node) :: entries, rest) := by
  obtain ⟨start, others, spelled, starts⟩ := value.exists_start
  rw [spelled]
  rcases isBetween with ⟨rfl, rfl⟩ | ⟨rfl, rfl⟩ <;> cases starts <;> rfl

theorem parseFlowSequence_tokens {elements : List Json}
    (each : ∀ element ∈ elements, Parses handles element) {first : Bool} {between : List Token}
    (isBetween : IsBetween first between)
    (enough : 2 * (tokensOf between (elementTokens elements)).length < fuel) :
    parseFlowSequence handles fuel first
        (tokensOf between (elementTokens elements) ++ .flowSequenceEnd :: rest) =
      some (elementNodes elements, rest) := by
  induction elements generalizing fuel first between with
  | nil =>
      obtain ⟨fuel, rfl⟩ := Nat.exists_eq_add_of_le' (Nat.succ_le_of_lt enough)
      cases first <;> rfl
  | cons element elements ih =>
      rw [List.forall_mem_cons] at each
      have longer := element.tokens_pos
      simp only [elementTokens, tokensOf, List.length_append, List.append_assoc] at enough ⊢
      obtain ⟨fuel, rfl⟩ : ∃ more, fuel = more + 1 := ⟨fuel - 1, by omega⟩
      rw [parseFlowSequence_cons isBetween, each.1 _ _ _ (by omega), Option.bind_some]
      dsimp only
      rw [ih each.2 (Or.inr ⟨rfl, rfl⟩) (by omega)]
      rfl

theorem parseFlowMapping_tokens {members : Members Json}
    (each : ∀ key value, (key, value) ∈ members → Parses handles value) {first : Bool}
    {between : List Token} (isBetween : IsBetween first between)
    (enough : 2 * (tokensOf between (memberTokens members)).length < fuel) :
    parseFlowMapping handles fuel first
        (tokensOf between (memberTokens members) ++ .flowMappingEnd :: rest) =
      some (memberNodes members, rest) := by
  induction members generalizing fuel first between with
  | nil =>
      obtain ⟨fuel, rfl⟩ := Nat.exists_eq_add_of_le' (Nat.succ_le_of_lt enough)
      cases first <;> rfl
  | cons member members ih =>
      rcases member with ⟨key, value⟩
      have own := each key value List.mem_cons_self
      simp only [memberTokens, tokensOf, List.length_append, List.length_cons, List.append_assoc,
        List.cons_append] at enough ⊢
      obtain ⟨fuel, rfl⟩ : ∃ more, fuel = more + 3 := ⟨fuel - 3, by omega⟩
      rw [parseFlowMapping_cons isBetween, own _ _ _ (by omega), Option.bind_some]
      dsimp only
      rw [ih (fun key value inside => each key value (List.mem_cons_of_mem _ inside))
        (Or.inr ⟨rfl, rfl⟩) (by omega)]
      rfl

/-- The tokens of a value are parsed to its node. -/
theorem parses (value : Json) : Parses handles value := by
  induction value using induction with
  | step value ih =>
      intro fuel block indentless rest enough
      have longer := value.tokens_pos
      obtain ⟨fuel, rfl⟩ : ∃ more, fuel = more + 1 := ⟨fuel - 1, by omega⟩
      cases value with
      | array elements =>
          simp only [tokens, List.length_cons, List.length_append, List.length_nil] at enough
          have each : ∀ element ∈ elements, Parses handles element := ih
          have items : parseFlowSequence handles fuel true
              (tokensOf [] (elementTokens elements) ++ .flowSequenceEnd :: rest) =
                some (elementNodes elements, rest) :=
            parseFlowSequence_tokens each (Or.inl ⟨rfl, rfl⟩) (by omega)
          rw [tokens, List.cons_append, List.append_assoc]
          change (parseFlowSequence handles fuel true _).bind _ = _
          rw [List.singleton_append, items]
          rfl
      | object members =>
          simp only [tokens, List.length_cons, List.length_append, List.length_nil] at enough
          have entries : parseFlowMapping handles fuel true
              (tokensOf [] (memberTokens members) ++ .flowMappingEnd :: rest) =
                some (memberNodes members, rest) :=
            parseFlowMapping_tokens (fun key value present => ih value (List.mem_map_of_mem present))
              (Or.inl ⟨rfl, rfl⟩) (by omega)
          rw [tokens, List.cons_append, List.append_assoc]
          change (parseFlowMapping handles fuel true _).bind _ = _
          rw [List.singleton_append, entries]
          rfl
      | _ => rfl

/-- The tokens of an object are a document. -/
theorem parseStream_tokens (members : Members Json) :
    parseStream (object members).tokens = some (some (object members).node) := by
  have parsed : parseNode .standard (4 * (object members).tokens.length + 8) true false
      ((object members).tokens ++ []) = some ((object members).node, []) :=
    parses (object members) true false [] (by omega)
  rw [List.append_nil] at parsed
  have start : (object members).tokens =
      .flowMappingStart :: (tokensOf [] (memberTokens members) ++ [.flowMappingEnd]) := rfl
  unfold parseStream
  rw [start] at parsed ⊢
  simp only [isBoundary, Bool.false_eq_true, if_false, parsed]
  rfl

/-! ## Anchors and aliases -/

section Linking

variable {slots : List (String × Nat)} {started : Nat}

theorem linkItems?_nodes {elements : List Json}
    (each : ∀ element ∈ elements, link? slots started element.node = some (element.node, started)) :
    linkItems? slots started (elementNodes elements) = some (elementNodes elements, started) := by
  induction elements with
  | nil => rfl
  | cons element rest ih =>
      rw [List.forall_mem_cons] at each
      simp [elementNodes, linkItems?, each.1, ih each.2]

theorem linkEntries?_nodes {members : Members Json}
    (each : ∀ key value, (key, value) ∈ members →
      link? slots started value.node = some (value.node, started)) :
    linkEntries? slots started (memberNodes members) = some (memberNodes members, started) := by
  induction members with
  | nil => rfl
  | cons member rest ih =>
      rcases member with ⟨key, value⟩
      have others := ih fun key value present => each key value (List.mem_cons_of_mem _ present)
      simp [memberNodes, linkEntries?, link?, Properties.anchorCount, Properties.none,
        each key value List.mem_cons_self, others]

/-- There is no alias in the node of a value, and no anchor. -/
theorem link?_node (value : Json) : link? slots started value.node = some (value.node, started) := by
  induction value using induction with
  | step value ih =>
      cases value with
      | array elements =>
          have items : linkItems? slots started (elementNodes elements) = _ := linkItems?_nodes ih
          simp [node, link?, Properties.anchorCount, Properties.none, items]
      | object members =>
          have entries := linkEntries?_nodes fun key value present =>
            ih value (List.mem_map_of_mem present)
          simp [node, link?, Properties.anchorCount, Properties.none, entries]
      | _ => rfl

end Linking

section Copying

variable {templates : List (Node Nat)} {limit : Nat}

theorem mapM_elementNodes {elements : List Json} {depth copies : Nat}
    (each : ∀ element ∈ elements,
      expand templates limit depth element.node copies = some (element.node, copies)) :
    (elementNodes elements).mapM (expand templates limit depth) copies =
      some (elementNodes elements, copies) := by
  induction elements with
  | nil => rfl
  | cons element rest ih =>
      rw [List.forall_mem_cons] at each
      rw [elementNodes, elementNodes, List.mapM_cons]
      change (expand templates limit depth element.node copies).bind _ = _
      rw [each.1, Option.bind_some]
      change (((elementNodes rest).mapM (expand templates limit depth) copies)).bind _ = _
      rw [ih each.2]
      rfl

/-- Replace aliases in an entry. -/
def expandEntry (templates : List (Node Nat)) (limit depth : Nat) (entry : Node Nat × Node Nat) :
    StateT Nat Option (Node Empty × Node Empty) := do
  pure (← expand templates limit depth entry.1, ← expand templates limit depth entry.2)

theorem mapM_memberNodes {members : Members Json} {depth copies : Nat}
    (each : ∀ key value, (key, value) ∈ members →
      expand templates limit depth value.node copies = some (value.node, copies)) :
    (memberNodes members).mapM (expandEntry templates limit depth) copies =
      some (memberNodes members, copies) := by
  induction members with
  | nil => rfl
  | cons member rest ih =>
      rcases member with ⟨key, value⟩
      have own := each key value List.mem_cons_self
      have others := ih fun key value present => each key value (List.mem_cons_of_mem _ present)
      have name : expand templates limit depth (.scalar .none key .doubleQuoted) copies =
          some (.scalar .none key .doubleQuoted, copies) := by
        cases depth <;> rfl
      rw [memberNodes, memberNodes, List.mapM_cons]
      change ((expand templates limit depth (.scalar .none key .doubleQuoted) copies).bind
        fun result => (expand templates limit depth value.node result.2).bind _).bind _ = _
      rw [name, Option.bind_some, own, Option.bind_some]
      change ((memberNodes rest).mapM (expandEntry templates limit depth) copies).bind _ = _
      rw [others]
      rfl

/-- Nothing is copied, and the node stays as it is if it does not nest too deep. -/
theorem expand_node {value : Json} {depth : Nat} (fits : value.depth ≤ depth) (copies : Nat) :
    expand templates limit depth value.node copies = some (value.node, copies) := by
  induction value using induction generalizing depth with
  | step value ih =>
      cases depth with
      | zero =>
          cases value with
          | array elements => simp [Json.depth] at fits
          | object members => simp [Json.depth] at fits
          | _ => rfl
      | succ depth =>
          rw [depth_le_succ_iff] at fits
          cases value with
          | array elements =>
              have each : ∀ element ∈ elements,
                  expand templates limit depth element.node copies = some (element.node, copies) :=
                fun element inside => ih element inside (fits element inside)
              change ((elementNodes elements).mapM (expand templates limit depth) copies).bind _ = _
              rw [mapM_elementNodes each]
              rfl
          | object members =>
              have each : ∀ key value, (key, value) ∈ members →
                  expand templates limit depth value.node copies = some (value.node, copies) :=
                fun key value present =>
                  have inside : value ∈ (object members).parts := List.mem_map_of_mem present
                  ih value inside (fits value inside)
              change ((memberNodes members).mapM (expandEntry templates limit depth) copies).bind _ = _
              rw [mapM_memberNodes each]
              rfl
          | _ => rfl

/-- What fails for one item whatever came before fails for all of them. -/
theorem mapM_eq_none {α β σ : Type} {apply : α → StateT σ Option β} {items : List α} {item : α}
    (inside : item ∈ items) (fails : ∀ state, apply item state = none) (state : σ) :
    items.mapM apply state = none := by
  induction items generalizing state with
  | nil => cases inside
  | cons first rest ih =>
      rw [List.mapM_cons]
      change (apply first state).bind _ = none
      rcases List.mem_cons.mp inside with rfl | later
      · rw [fails, Option.bind_none]
      · refine Option.bind_eq_none_iff.mpr fun result _ => ?_
        change (rest.mapM apply result.2).bind _ = none
        rw [ih later, Option.bind_none]

theorem expandEntry_eq_none {entry : Node Nat × Node Nat} {depth : Nat}
    (fails : ∀ copies, expand templates limit depth entry.2 copies = none) (copies : Nat) :
    expandEntry templates limit depth entry copies = none := by
  change (expand templates limit depth entry.1 copies).bind
    (fun result => (expand templates limit depth entry.2 result.2).bind _) = none
  refine Option.bind_eq_none_iff.mpr fun result _ => ?_
  rw [fails, Option.bind_none]

theorem mem_elementNodes {ι : Type} {elements : List Json} {element : Json}
    (inside : element ∈ elements) : (element.node : Node ι) ∈ elementNodes elements := by
  induction elements with
  | nil => cases inside
  | cons first rest ih =>
      rcases List.mem_cons.mp inside with rfl | later
      · exact List.mem_cons_self
      · exact List.mem_cons_of_mem _ (ih later)

theorem mem_memberNodes {ι : Type} {members : Members Json} {key : String} {value : Json}
    (inside : (key, value) ∈ members) :
    (.scalar .none key .doubleQuoted, (value.node : Node ι)) ∈ memberNodes members := by
  induction members with
  | nil => cases inside
  | cons first rest ih =>
      rcases List.mem_cons.mp inside with rfl | later
      · exact List.mem_cons_self
      · exact List.mem_cons_of_mem _ (ih later)

/-- A node that nests too deep is refused. -/
theorem expand_node_eq_none {value : Json} {depth : Nat} (deep : depth < value.depth)
    (copies : Nat) : expand templates limit depth value.node copies = none := by
  induction value using induction generalizing depth copies with
  | step value ih =>
      cases depth with
      | zero =>
          cases value with
          | array elements => rfl
          | object members => rfl
          | _ => simp [Json.depth] at deep
      | succ depth =>
          rw [← Nat.not_le, depth_le_succ_iff] at deep
          push Not at deep
          obtain ⟨part, inside, deeper⟩ := deep
          have fails := ih part inside deeper
          cases value with
          | array elements =>
              have inside : part ∈ elements := inside
              change ((elementNodes elements).mapM (expand templates limit depth) copies).bind _ = _
              rw [mapM_eq_none (mem_elementNodes inside) fails, Option.bind_none]
          | object members =>
              obtain ⟨⟨key, value⟩, present, rfl⟩ := List.mem_map.mp inside
              change ((memberNodes members).mapM (expandEntry templates limit depth) copies).bind _
                = _
              rw [mapM_eq_none (mem_memberNodes present) (expandEntry_eq_none fails),
                Option.bind_none]
          | _ => cases inside

/-- The node of a value is resolved to itself, unless it nests deeper than YAML allows. -/
theorem resolve?_node (value : Json) :
    value.node.resolve? = if value.depth ≤ deepest then some value.node else none := by
  rw [Node.resolve?, link?_node]
  change ((expand _ _ deepest value.node 0).map Prod.fst) = _
  split_ifs with fits
  · rw [expand_node fits]
    rfl
  · rw [expand_node_eq_none (Nat.lt_of_not_le fits)]
    rfl

end Copying

/-! ## Values -/

theorem itemsToJson?_nodes {elements : List Json}
    (each : ∀ element ∈ elements, element.node.toJson? = some element) :
    Node.itemsToJson? (elementNodes elements) = some elements := by
  induction elements with
  | nil => rfl
  | cons element rest ih =>
      rw [List.forall_mem_cons] at each
      simp [elementNodes, Node.itemsToJson?, each.1, ih each.2]

theorem entriesToJson?_nodes {members : Members Json}
    (each : ∀ key value, (key, value) ∈ members → value.node.toJson? = some value) :
    Node.entriesToJson? (memberNodes members) = some members := by
  induction members with
  | nil => rfl
  | cons member rest ih =>
      rcases member with ⟨key, value⟩
      have others := ih fun key value present => each key value (List.mem_cons_of_mem _ present)
      simp [memberNodes, Node.entriesToJson?, Node.keyText?, each key value List.mem_cons_self,
        others]

theorem ofPlain_null : Scalar.ofPlain "null" = .null := by
  decide

theorem ofPlain_bool (value : Bool) :
    Scalar.ofPlain (if value then "true" else "false") = .bool value := by
  cases value <;> decide

theorem toJson?_plain {text : String} {scalar : Scalar} (read : Scalar.ofPlain text = scalar) :
    (Node.scalar .none text .plain).toJson? = scalar.toJson? := by
  rw [← read]
  rfl

/-- The node of a value says what the value is. -/
theorem toJson?_node {value : Json} (proper : value.Proper) :
    value.node.toJson? = some value := by
  induction value using induction with
  | step value ih =>
      obtain ⟨own, below⟩ := proper_iff.mp proper
      have each : ∀ part ∈ value.parts, part.node.toJson? = some part :=
        fun part inside => ih part inside (below part inside)
      cases value with
      | null => exact toJson?_plain ofPlain_null
      | bool value => exact toJson?_plain (ofPlain_bool value)
      | number value =>
          refine (toJson?_plain (Scalar.ofPlain_numberText (own.1 value rfl))).trans ?_
          cases value <;> rfl
      | string value => rfl
      | array elements =>
          change (Node.itemsToJson? (elementNodes elements)).bind _ = _
          rw [(itemsToJson?_nodes each : Node.itemsToJson? (elementNodes elements) = _)]
          rfl
      | object members =>
          have distinct : Members.Distinct ([] ++ members) := own.2
          change (Node.entriesToJson? (memberNodes members)).bind _ = _
          rw [entriesToJson?_nodes fun key value present => each value (List.mem_map_of_mem present)]
          change some (object (Members.extend [] members)) = _
          rw [Members.extend_eq_append distinct, List.nil_append]

end Json

namespace Yaml

variable {members : Members Json}

/-- The indented JSON text of an object reads back as the object. -/
theorem toJson?_pretty (proper : (Json.object members).Proper)
    (inline : ∀ inner ∈ (Json.object members).within, inner.HasInlineTexts)
    (allowed : ∀ inner ∈ (Json.object members).within, inner.HasAllowedTexts)
    (fits : (Json.object members).depth ≤ deepest) :
    toJson? ((Json.object members).pretty ++ "\n") = some (.object members) := by
  rw [toJson?, document?, Json.tokens?_pretty inline allowed]
  simp only [Option.bind_eq_bind, Option.bind_some, Json.parseStream_tokens, Json.resolve?_node,
    if_pos fits]
  exact Json.toJson?_node proper

/-- Otherwise nothing is read. -/
theorem toJson?_pretty_eq_none
    (inline : ∀ inner ∈ (Json.object members).within, inner.HasInlineTexts)
    (refused : ¬ ((∀ inner ∈ (Json.object members).within, inner.HasAllowedTexts) ∧
      (Json.object members).depth ≤ deepest)) :
    toJson? ((Json.object members).pretty ++ "\n") = none := by
  rw [toJson?, document?]
  by_cases allowed : ∀ inner ∈ (Json.object members).within, inner.HasAllowedTexts
  · have deep : ¬ (Json.object members).depth ≤ deepest := fun fits => refused ⟨allowed, fits⟩
    rw [Json.tokens?_pretty inline allowed]
    simp only [Option.bind_eq_bind, Option.bind_some, Json.parseStream_tokens, Json.resolve?_node,
      if_neg deep, Option.bind_none]
  · rw [Json.tokens?_pretty_eq_none allowed]
    rfl

end Yaml

end SchemaLift
