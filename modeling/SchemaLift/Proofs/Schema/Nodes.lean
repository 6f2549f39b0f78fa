import SchemaLift.Proofs.Schema.Variants

/-!
# Nodes of schemas that are read

What a node holds is read from lookups among the members of one object, whichever its variant is
(`Schema.NodeFrom`), and each of its children is read from a value inside that object
(`Schema.exists_inside_of_child`). So whatever holds of a node if it holds of its children holds of
every schema that is read (`Schema.induction_of_ofJson`).
-/

namespace SchemaLift.Schema

open Members

/-! ## What a node leaves over -/

/-- The keys that a node does not leave over. -/
def settledKeys : Schema → List String
  | .object _ | .map _ => objectKeys
  | .array _ => arrayKeys
  | .composed _ => combinationKeys
  | .primitive _ => leafKeys
  | .reference _ | .boolean _ => []

/-- Whether a node takes a member for its value, beside those under its keys. -/
def isTyped : Schema → String × Json → Bool
  | .object _ | .composed _ => isRequired
  | .primitive _ => isFormat
  | .reference _ | .boolean _ | .array _ | .map _ => fun _ => false

/-- The required properties of a node. -/
def required : Schema → List String
  | .object shape => shape.required
  | .composed shape => shape.required
  | _ => []

/-- The format of a node. -/
def format? : Schema → Option String
  | .primitive leaf => leaf.format
  | _ => none

/-- The discriminator of a node. -/
def discriminator? : Schema → Option Discriminator
  | .object shape => shape.discriminator
  | .composed shape => shape.discriminator
  | _ => none

/-! ## What a node is read from -/

/-- What a node is read from, apart from its children. -/
structure NodeFrom (members : Members Json) (schema : Schema) : Prop where
  reference : ∀ target, schema = .reference target → Reference.ofMembers? members = some target
  metadata : ∀ metadata, schema.metadata? = some metadata →
    Metadata.ofMembers (leftOver schema.settledKeys schema.isTyped members) = .ok metadata
  discriminator : ∀ own, schema.discriminator? = some own →
    Discriminator.ofMembers members = .ok (some own)
  enumValues : ∀ leaf, schema = .primitive leaf →
    PrimitiveSchema.enumValuesOf members = .ok leaf.enumValues
  properties : schema.properties = [] ∨ propertiesIn members = .ok schema.properties

theorem nodeFrom_of_ofJson {members : Members Json} (distinct : Distinct members) {schema : Schema}
    (read : ofJson (.object members) = .ok schema) : schema.NodeFrom members := by
  cases readFrom_of_ofJson distinct read with
  | reference found same =>
      cases same
      constructor
      · rintro _ ⟨⟩
        exact found
      · rintro own ⟨⟩
      · rintro own ⟨⟩
      · rintro leaf ⟨⟩
      · exact Or.inl rfl
  | combination _ _ read =>
      rcases bind_eq_ok_iff.mp read with ⟨allOf, _, read⟩
      rcases bind_eq_ok_iff.mp read with ⟨anyOf, _, read⟩
      rcases bind_eq_ok_iff.mp read with ⟨oneOf, _, read⟩
      rcases bind_eq_ok_iff.mp read with ⟨properties, named, read⟩
      rcases bind_eq_ok_iff.mp read with ⟨discriminator, told, read⟩
      rcases bind_eq_ok_iff.mp read with ⟨metadata, data, read⟩
      cases pure_eq_ok_iff.mp read
      constructor
      · rintro target ⟨⟩
      · rintro own ⟨⟩
        exact data
      · rintro own rfl
        exact told
      · rintro leaf ⟨⟩
      · exact Or.inr named
  | array _ _ _ read =>
      rcases bind_eq_ok_iff.mp read with ⟨items, _, read⟩
      rcases bind_eq_ok_iff.mp read with ⟨metadata, data, read⟩
      cases pure_eq_ok_iff.mp read
      constructor
      · rintro target ⟨⟩
      · rintro own ⟨⟩
        exact data
      · rintro own ⟨⟩
      · rintro leaf ⟨⟩
      · exact Or.inl rfl
  | object _ _ _ read =>
      rcases bind_eq_ok_iff.mp read with ⟨properties, named, read⟩
      rcases bind_eq_ok_iff.mp read with ⟨additional, _, read⟩
      split at read
      · rcases bind_eq_ok_iff.mp read with ⟨metadata, data, read⟩
        cases pure_eq_ok_iff.mp read
        constructor
        · rintro target ⟨⟩
        · rintro own ⟨⟩
          exact data
        · rintro own ⟨⟩
        · rintro leaf ⟨⟩
        · exact Or.inl rfl
      · rcases bind_eq_ok_iff.mp read with ⟨discriminator, told, read⟩
        rcases bind_eq_ok_iff.mp read with ⟨metadata, data, read⟩
        cases pure_eq_ok_iff.mp read
        constructor
        · rintro target ⟨⟩
        · rintro own ⟨⟩
          exact data
        · rintro own rfl
          exact told
        · rintro leaf ⟨⟩
        · exact Or.inr named
  | leaf _ _ _ _ read =>
      rcases bind_eq_ok_iff.mp read with ⟨enumValues, values, read⟩
      rcases bind_eq_ok_iff.mp read with ⟨metadata, data, read⟩
      cases pure_eq_ok_iff.mp read
      constructor
      · rintro target ⟨⟩
      · rintro own ⟨⟩
        exact data
      · rintro own ⟨⟩
      · rintro _ ⟨⟩
        exact values
      · exact Or.inl rfl

theorem eq_values_of_mem_ofAdditional {additional : AdditionalProperties} {edge : Edge}
    {child : Schema} (present : (edge, child) ∈ Children.ofAdditional additional) :
    additional = .values child := by
  cases additional with
  | values schema =>
      cases List.mem_singleton.mp present
      rfl
  | unspecified => cases present
  | allowed => cases present

/-! ## Children that are read -/

/-- The value stands in another one, or in a value there. -/
def Inside (part value : Json) : Prop :=
  part ∈ value.parts ∨ ∃ middle ∈ value.parts, part ∈ middle.parts

section Children

variable {members : Members Json}

theorem exists_inside_of_listAt {keyword : Keyword} {schemas : List Schema}
    (read : listAt keyword members = .ok schemas) {child : Schema} (present : child ∈ schemas) :
    ∃ part, Inside part (.object members) ∧ ofJson part = .ok child := by
  rw [listAt_eq] at read
  split at read
  · next elements found =>
      rcases exists_of_forall₂ (ofElements_eq_ok_iff.mp read) present with ⟨part, listed, own⟩
      refine ⟨part, Or.inr ⟨.array elements, ?_, listed⟩, own⟩
      exact List.mem_map_of_mem (mem_of_get?_eq_some found)
  · cases read
    cases present
  · cases read
  · cases read
    cases present

theorem exists_inside_of_propertiesIn {properties : List (String × Schema)}
    (read : propertiesIn members = .ok properties) {name : String} {child : Schema}
    (present : (name, child) ∈ properties) :
    ∃ part, Inside part (.object members) ∧ ofJson part = .ok child := by
  rw [propertiesIn_eq] at read
  split at read
  · next entries found =>
      rcases (ofEntries_eq_ok_iff.mp read).exists_left present with ⟨part, listed, own⟩
      refine ⟨part, Or.inr ⟨.object entries, ?_, List.mem_map_of_mem listed⟩, own⟩
      exact List.mem_map_of_mem (mem_of_get?_eq_some found)
  · cases read
    cases present
  · cases read
  · cases read
    cases present

theorem exists_inside_of_itemsIn {child : Schema} (read : itemsIn members = .ok (some child)) :
    ∃ part, Inside part (.object members) ∧ ofJson part = .ok child := by
  rw [itemsIn_eq] at read
  split at read
  · next part found =>
      rcases bind_eq_ok_iff.mp read with ⟨own, inside, same⟩
      cases pure_eq_ok_iff.mp same
      exact ⟨part, Or.inl (List.mem_map_of_mem (mem_of_get?_eq_some found)), inside⟩
  · cases read

theorem exists_inside_of_additionalIn {child : Schema}
    (read : additionalIn members = .ok (.values child)) :
    ∃ part, Inside part (.object members) ∧ ofJson part = .ok child := by
  rw [additionalIn_eq] at read
  split at read
  · cases read
  · next inner found =>
      rcases bind_eq_ok_iff.mp read with ⟨own, inside, same⟩
      cases pure_eq_ok_iff.mp same
      exact ⟨.object inner, Or.inl (List.mem_map_of_mem (mem_of_get?_eq_some found)), inside⟩
  all_goals cases read

section Variants

variable {schema : Schema} {edge : Edge} {child : Schema} (below : (edge, child) ∈ schema.children)

include below

theorem exists_inside_of_combinationOf (read : combinationOf members = .ok schema) :
    ∃ part, Inside part (.object members) ∧ ofJson part = .ok child := by
  rcases bind_eq_ok_iff.mp read with ⟨allOf, parts, read⟩
  rcases bind_eq_ok_iff.mp read with ⟨anyOf, anyAlternatives, read⟩
  rcases bind_eq_ok_iff.mp read with ⟨oneOf, oneAlternatives, read⟩
  rcases bind_eq_ok_iff.mp read with ⟨properties, named, read⟩
  rcases bind_eq_ok_iff.mp read with ⟨discriminator, _, read⟩
  rcases bind_eq_ok_iff.mp read with ⟨metadata, _, read⟩
  cases pure_eq_ok_iff.mp read
  simp only [children, List.mem_append] at below
  rcases below with property | part | alternative | alternative
  · rcases Children.exists_of_mem_ofProperties property with ⟨name, _, present⟩
    exact exists_inside_of_propertiesIn named present
  · exact exists_inside_of_listAt parts (Children.mem_of_mem_ofMembers part).2
  · exact exists_inside_of_listAt anyAlternatives (Children.mem_of_mem_ofMembers alternative).2
  · exact exists_inside_of_listAt oneAlternatives (Children.mem_of_mem_ofMembers alternative).2

theorem exists_inside_of_arrayOf (read : arrayOf members = .ok schema) :
    ∃ part, Inside part (.object members) ∧ ofJson part = .ok child := by
  rcases bind_eq_ok_iff.mp read with ⟨items, listed, read⟩
  rcases bind_eq_ok_iff.mp read with ⟨metadata, _, read⟩
  cases pure_eq_ok_iff.mp read
  cases items with
  | none => cases below
  | some item =>
      cases List.mem_singleton.mp below
      exact exists_inside_of_itemsIn listed

theorem exists_inside_of_objectOf (read : objectOf members = .ok schema) :
    ∃ part, Inside part (.object members) ∧ ofJson part = .ok child := by
  rcases bind_eq_ok_iff.mp read with ⟨properties, named, read⟩
  rcases bind_eq_ok_iff.mp read with ⟨additional, undeclared, read⟩
  split at read
  · rcases bind_eq_ok_iff.mp read with ⟨metadata, _, read⟩
    cases pure_eq_ok_iff.mp read
    cases List.mem_singleton.mp below
    exact exists_inside_of_additionalIn undeclared
  · rcases bind_eq_ok_iff.mp read with ⟨discriminator, _, read⟩
    rcases bind_eq_ok_iff.mp read with ⟨metadata, _, read⟩
    cases pure_eq_ok_iff.mp read
    rcases List.mem_append.mp below with property | other
    · rcases Children.exists_of_mem_ofProperties property with ⟨name, _, present⟩
      exact exists_inside_of_propertiesIn named present
    · have value := eq_values_of_mem_ofAdditional other
      cases value
      exact exists_inside_of_additionalIn undeclared

/-- Every child of a schema is read from a value inside the one that the schema is read from. -/
theorem exists_inside_of_child (distinct : Distinct members)
    (read : ofJson (.object members) = .ok schema) :
    ∃ part, Inside part (.object members) ∧ ofJson part = .ok child := by
  cases readFrom_of_ofJson distinct read with
  | reference _ same =>
      cases same
      cases below
  | combination _ _ read => exact exists_inside_of_combinationOf below read
  | array _ _ _ read => exact exists_inside_of_arrayOf below read
  | object _ _ _ read => exact exists_inside_of_objectOf below read
  | leaf _ _ _ _ read =>
      rcases exists_of_leafOf read with ⟨leaf, rfl⟩
      cases below

end Variants

end Children

/-! ## Induction over what is read -/

/-- What holds of the truth values, and of what is read from an object if it holds of the children,
holds of whatever is read. The values that schemas are read from may be restricted, to some that
hold only such values again. -/
theorem induction_of_ofJson {can : Json → Prop} {motive : Schema → Prop}
    (inside : ∀ value, can value → ∀ part ∈ value.parts, can part)
    (keys : ∀ value, can value → value.DistinctKeys)
    (boolean : ∀ allowed, motive (.boolean allowed))
    (object : ∀ members schema, can (.object members) → ofJson (.object members) = .ok schema →
      (∀ edge child, (edge, child) ∈ schema.children → motive child) → motive schema)
    {value : Json} {schema : Schema} (fits : can value) (read : ofJson value = .ok schema) :
    motive schema := by
  -- The children of a node stand in lists and maps, one level deeper than its members.
  have both : (∀ schema, ofJson value = .ok schema → motive schema) ∧
      ∀ part ∈ value.parts, ∀ schema, ofJson part = .ok schema → motive schema := by
    clear read
    induction value using Json.induction with
    | step value ih =>
        have below := fun part present => ih part present (inside value fits part present)
        refine ⟨fun schema read => ?_, fun part present => (below part present).1⟩
        cases value with
        | bool allowed =>
            cases read
            exact boolean allowed
        | object members =>
            have distinct := (Json.distinctMap_iff_distinctKeys members).mpr (keys _ fits)
            refine object members schema fits read fun edge child present => ?_
            obtain ⟨part, there | ⟨middle, there, within⟩, own⟩ :=
              exists_inside_of_child present distinct.1 read
            · exact (below part there).1 child own
            · exact (below middle there).2 part within child own
        | _ => cases read
  exact both.1 schema read

end SchemaLift.Schema
