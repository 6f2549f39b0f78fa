import SchemaLift.Proofs.Schema.Hoisting
import SchemaLift.Proofs.Schema.Nodes

/-!
# Schemas as they are read

The members that a node does not interpret are those that its variant and its metadata leave over.
So none of them stands under a key that would make another variant of the node, and none could be
read as one of its values (`Schema.NodeAsRead`). This holds of every node that is read from a value
in which no object has a key twice (`Schema.asRead_of_ofJson`), and it still holds when extensions
or children have been changed.
-/

namespace SchemaLift

namespace Schema

open Members

/-! ## What a node leaves over -/

/-- Whether a node is a truth value. -/
def isBoolean : Schema → Bool
  | .boolean _ => true
  | _ => false

/-- The declared type does not speak against the variant. -/
def Suits : Schema → Prop
  | .array shape => declares shape.metadata.declaredType "array" = true ∨ shape.items.isSome = true
  | .object shape => declares shape.metadata.declaredType "array" = false
  | .map shape => declares shape.metadata.declaredType "array" = false
  | .primitive leaf =>
    declares leaf.metadata.declaredType "array" = false ∧
      declares leaf.metadata.declaredType "object" = false
  | .reference _ | .composed _ | .boolean _ => True

/-- The metadata of a node as they are read. -/
structure MetadataAsRead (schema : Schema) (metadata : Metadata) : Prop where
  settled : metadata.Settled
  keys : ∀ member ∈ metadata.extra, member.1 ∉ schema.settledKeys
  untyped : ∀ member ∈ metadata.extra, schema.isTyped member = false
  required : schema.required ≠ [] → "required" ∉ Members.keys metadata.extra
  format : schema.format?.isSome → "format" ∉ Members.keys metadata.extra
  inline : ∀ pointer, ("$ref", .string pointer) ∉ metadata.extra

/-- A node as it is read, apart from what is below it. -/
structure NodeAsRead (schema : Schema) : Prop where
  reference : ∀ target, schema = .reference target → "$ref" ∉ Members.keys target.siblings
  metadata : ∀ metadata, schema.metadata? = some metadata → schema.MetadataAsRead metadata
  discriminator : ∀ own, schema.discriminator? = some own → own.Settled
  suits : schema.Suits
  undeclared : ∀ child, (.undeclared, child) ∈ schema.children → child.isBoolean = false

/-- A schema all of whose nodes are as they are read. -/
inductive AsRead : Schema → Prop
  | intro {schema : Schema} (node : schema.NodeAsRead)
      (below : ∀ edge child, (edge, child) ∈ schema.children → AsRead child) : AsRead schema

/-- A schema of undeclared properties stands in an object or in a map. -/
theorem of_undeclared_mem_children {schema child : Schema}
    (below : (.undeclared, child) ∈ schema.children) :
    (∃ shape, schema = .object shape ∧ shape.additional = .values child) ∨
      ∃ shape, schema = .map shape ∧ shape.value = child := by
  have property : ∀ properties : List (String × Schema),
      (.undeclared, child) ∉ Children.ofProperties properties := by
    intro properties present
    rcases Children.exists_of_mem_ofProperties present with ⟨name, differs, _⟩
    cases differs
  have member : ∀ (keyword : Keyword) (schemas : List Schema),
      (.undeclared, child) ∉ Children.ofMembers keyword 0 schemas := by
    intro keyword schemas present
    rcases Children.mem_of_mem_ofMembers present with ⟨⟨place, differs⟩, _⟩
    cases differs
  cases schema with
  | object shape =>
      rcases List.mem_append.mp below with named | other
      · exact absurd named (property _)
      · exact Or.inl ⟨shape, rfl, eq_values_of_mem_ofAdditional other⟩
  | map shape =>
      cases List.mem_singleton.mp below
      exact Or.inr ⟨shape, rfl, rfl⟩
  | composed shape => simp [children, property, member] at below
  | array shape =>
      rcases shape with ⟨items, metadata⟩
      cases items <;> simp [children, Children.ofItems] at below
  | reference => simp [children] at below
  | boolean => simp [children] at below
  | primitive => simp [children] at below

/-! ## Nodes that are read -/

section Read

variable {members : Members Json} (distinct : Distinct members)

include distinct

theorem distinct_leftOver (settled : List String) (typed : String × Json → Bool) :
    Distinct (leftOver settled typed members) :=
  (distinct.moveToEnd _).filter _

theorem moveToEnd_leftOver (settled : List String) (typed : String × Json → Bool) :
    moveToEnd "$ref" (leftOver settled typed members) = leftOver settled typed members := by
  rw [leftOver, ← filter_moveToEnd (distinct.moveToEnd _), moveToEnd_moveToEnd distinct]

/-- The metadata that are read from what a variant leaves over. -/
theorem metadataAsRead_of_leftOver (inline : Reference.ofMembers? members = none)
    {schema : Schema} {metadata : Metadata}
    (read : Metadata.ofMembers (leftOver schema.settledKeys schema.isTyped members) = .ok metadata)
    (required : schema.required ≠ [] → ∃ value, get? "required" members = some value ∧
      schema.isTyped ("required", value) = true)
    (format : schema.format?.isSome → ∃ value, get? "format" members = some value ∧
      schema.isTyped ("format", value) = true) :
    schema.MetadataAsRead metadata := by
  have own := distinct_leftOver distinct schema.settledKeys schema.isTyped
  have inside : ∀ member ∈ metadata.extra, member ∈ members ∧ member.1 ∉ schema.settledKeys ∧
      schema.isTyped member = false := by
    intro member present
    have there := Metadata.mem_of_mem_extra own read present
    rw [leftOver, List.mem_filter, mem_moveToEnd distinct] at there
    simpa using there
  have apart : ∀ key value, get? key members = some value → schema.isTyped (key, value) = true →
      key ∉ keys metadata.extra := by
    intro key value found typed present
    rcases mem_keys_iff.mp present with ⟨other, extra⟩
    obtain ⟨there, _, untyped⟩ := inside _ extra
    cases found.symm.trans (distinct.get?_eq_some there)
    simp [typed] at untyped
  constructor
  · exact Metadata.settled_of_ofMembers own (moveToEnd_leftOver distinct _ _) read
  · exact fun member present => (inside member present).2.1
  · exact fun member present => (inside member present).2.2
  · intro some
    rcases required some with ⟨value, found, typed⟩
    exact apart _ value found typed
  · intro some
    rcases format some with ⟨value, found, typed⟩
    exact apart _ value found typed
  · intro pointer present
    have found := distinct.get?_eq_some (inside _ present).1
    simp [Reference.ofMembers?, found] at inline

omit distinct in
theorem exists_required (filled : requiredIn members ≠ []) :
    ∃ value, get? "required" members = some value ∧ isRequired ("required", value) = true := by
  cases found : get? "required" members with
  | none => simp [requiredIn, found] at filled
  | some value =>
      refine ⟨value, rfl, ?_⟩
      cases texts : value.strings? with
      | none => simp [requiredIn, found, texts] at filled
      | some names => simp [isRequired, texts]

theorem nodeAsRead_of_combinationOf (inline : Reference.ofMembers? members = none) {schema : Schema}
    (read : combinationOf members = .ok schema) : schema.NodeAsRead := by
  rcases bind_eq_ok_iff.mp read with ⟨allOf, _, read⟩
  rcases bind_eq_ok_iff.mp read with ⟨anyOf, _, read⟩
  rcases bind_eq_ok_iff.mp read with ⟨oneOf, _, read⟩
  rcases bind_eq_ok_iff.mp read with ⟨properties, _, read⟩
  rcases bind_eq_ok_iff.mp read with ⟨discriminator, told, read⟩
  rcases bind_eq_ok_iff.mp read with ⟨metadata, data, read⟩
  cases pure_eq_ok_iff.mp read
  constructor
  · rintro target ⟨⟩
  · rintro own ⟨⟩
    exact metadataAsRead_of_leftOver distinct inline data exists_required (by simp [format?])
  · rintro own rfl
    exact Discriminator.settled_of_ofMembers told
  · trivial
  · intro child below
    rcases of_undeclared_mem_children below with ⟨_, differs, _⟩ | ⟨_, differs, _⟩ <;> cases differs

theorem declaredType_of_leftOver {settled : List String} {typed : String × Json → Bool}
    {metadata : Metadata} {declared : Option DeclaredType}
    (kept : ∀ value, (!settled.contains "type" && !typed ("type", value)) = true)
    (read : Metadata.ofMembers (leftOver settled typed members) = .ok metadata)
    (own : DeclaredType.ofMembers members = .ok declared) : metadata.declaredType = declared := by
  have same : DeclaredType.ofMembers (leftOver settled typed members) =
      DeclaredType.ofMembers members :=
    DeclaredType.ofMembers_congr (get?_filter_withoutReference distinct kept)
  rw [Metadata.ofMembers_eq (distinct_leftOver distinct settled typed), same, own] at read
  cases read
  rfl

theorem nodeAsRead_of_arrayOf (inline : Reference.ofMembers? members = none) {schema : Schema}
    {declared : Option DeclaredType} (own : DeclaredType.ofMembers members = .ok declared)
    (array : (declares declared "array" || has "items" members) = true)
    (read : arrayOf members = .ok schema) : schema.NodeAsRead := by
  rcases bind_eq_ok_iff.mp read with ⟨items, listed, read⟩
  rcases bind_eq_ok_iff.mp read with ⟨metadata, data, read⟩
  cases pure_eq_ok_iff.mp read
  constructor
  · rintro target ⟨⟩
  · rintro own ⟨⟩
    exact metadataAsRead_of_leftOver distinct inline data (by simp [required]) (by simp [format?])
  · rintro own ⟨⟩
  · have type := declaredType_of_leftOver distinct (by simp [arrayKeys]) data own
    rw [Bool.or_eq_true, has_eq_isSome] at array
    refine array.imp (fun declares => type ▸ declares) fun present => ?_
    rcases Option.isSome_iff_exists.mp present with ⟨value, found⟩
    rw [itemsIn_eq, found] at listed
    rcases bind_eq_ok_iff.mp listed with ⟨item, _, same⟩
    cases pure_eq_ok_iff.mp same
    rfl
  · intro child below
    rcases of_undeclared_mem_children below with ⟨_, differs, _⟩ | ⟨_, differs, _⟩ <;> cases differs

theorem nodeAsRead_of_leafOf (inline : Reference.ofMembers? members = none) {schema : Schema}
    {declared : Option DeclaredType} (own : DeclaredType.ofMembers members = .ok declared)
    (notArray : declares declared "array" = false) (notObject : declares declared "object" = false)
    (read : leafOf members = .ok schema) : schema.NodeAsRead := by
  rcases bind_eq_ok_iff.mp read with ⟨enumValues, _, read⟩
  rcases bind_eq_ok_iff.mp read with ⟨metadata, data, read⟩
  cases pure_eq_ok_iff.mp read
  constructor
  · rintro target ⟨⟩
  · rintro own ⟨⟩
    refine metadataAsRead_of_leftOver distinct inline data (by simp [required]) fun present => ?_
    cases found : get? "format" members with
    | none => simp [format?, found] at present
    | some value => exact ⟨value, rfl, by simpa [format?, found, isTyped, isFormat] using present⟩
  · rintro own ⟨⟩
  · have type := declaredType_of_leftOver distinct (by simp [leafKeys, isFormat]) data own
    simp only [Suits, type]
    exact ⟨notArray, notObject⟩
  · intro child below
    rcases of_undeclared_mem_children below with ⟨_, differs, _⟩ | ⟨_, differs, _⟩ <;> cases differs

/-- What is read of an object is no truth value. -/
theorem isBoolean_of_object {schema : Schema} (read : ofJson (.object members) = .ok schema) :
    schema.isBoolean = false := by
  cases readFrom_of_ofJson distinct read with
  | reference _ same =>
      cases same
      rfl
  | combination _ _ read =>
      rcases exists_of_combinationOf read with ⟨shape, rfl⟩
      rfl
  | array _ _ _ read =>
      rcases exists_of_arrayOf read with ⟨shape, rfl⟩
      rfl
  | object _ _ _ read => rcases exists_of_objectOf read with ⟨shape, rfl⟩ | ⟨shape, rfl⟩ <;> rfl
  | leaf _ _ _ _ read =>
      rcases exists_of_leafOf read with ⟨leaf, rfl⟩
      rfl

end Read

section ReadMap

variable {members : Members Json} (distinct : Json.DistinctMap members)

include distinct

theorem isBoolean_of_additionalIn {child : Schema}
    (read : additionalIn members = .ok (.values child)) : child.isBoolean = false := by
  rw [additionalIn_eq] at read
  split at read
  · cases read
  · next inner found =>
      rcases bind_eq_ok_iff.mp read with ⟨own, inside, same⟩
      cases pure_eq_ok_iff.mp same
      exact isBoolean_of_object (distinct.value found).1 inside
  all_goals cases read

theorem nodeAsRead_of_objectOf (inline : Reference.ofMembers? members = none) {schema : Schema}
    {declared : Option DeclaredType} (own : DeclaredType.ofMembers members = .ok declared)
    (notArray : declares declared "array" = false)
    (read : objectOf members = .ok schema) : schema.NodeAsRead := by
  rcases bind_eq_ok_iff.mp read with ⟨properties, _, read⟩
  rcases bind_eq_ok_iff.mp read with ⟨additional, undeclared, read⟩
  split at read
  · next value _ =>
      rcases bind_eq_ok_iff.mp read with ⟨metadata, data, read⟩
      cases pure_eq_ok_iff.mp read
      constructor
      · rintro target ⟨⟩
      · rintro own ⟨⟩
        exact metadataAsRead_of_leftOver distinct.1 inline data (by simp [required])
          (by simp [format?])
      · rintro own ⟨⟩
      · have type := declaredType_of_leftOver distinct.1 (by simp [objectKeys]) data own
        simp only [Suits, type, notArray]
      · intro child below
        rcases of_undeclared_mem_children below with ⟨_, differs, _⟩ | ⟨_, same, rfl⟩
        · cases differs
        · cases same
          exact isBoolean_of_additionalIn distinct undeclared
  · rcases bind_eq_ok_iff.mp read with ⟨discriminator, told, read⟩
    rcases bind_eq_ok_iff.mp read with ⟨metadata, data, read⟩
    cases pure_eq_ok_iff.mp read
    constructor
    · rintro target ⟨⟩
    · rintro own ⟨⟩
      exact metadataAsRead_of_leftOver distinct.1 inline data exists_required (by simp [format?])
    · rintro own rfl
      exact Discriminator.settled_of_ofMembers told
    · have type := declaredType_of_leftOver distinct.1 (by simp [objectKeys, isRequired]) data own
      simp only [Suits, type, notArray]
    · intro child below
      rcases of_undeclared_mem_children below with ⟨_, same, value⟩ | ⟨_, differs, _⟩
      · cases same
        cases value
        exact isBoolean_of_additionalIn distinct undeclared
      · cases differs

/-- A node that is read from an object without double keys is as it is read. -/
theorem nodeAsRead_of_object {schema : Schema} (read : ofJson (.object members) = .ok schema) :
    schema.NodeAsRead := by
  cases readFrom_of_ofJson distinct.1 read with
  | reference found same =>
      cases same
      constructor
      · rintro own ⟨⟩
        exact Reference.not_mem_siblings found
      · rintro own ⟨⟩
      · rintro own ⟨⟩
      · trivial
      · rintro child ⟨⟩
  | combination inline _ read => exact nodeAsRead_of_combinationOf distinct.1 inline read
  | array inline own array read => exact nodeAsRead_of_arrayOf distinct.1 inline own array read
  | object inline own notArray read =>
      exact nodeAsRead_of_objectOf distinct inline own notArray read
  | leaf inline own notArray notObject read =>
      exact nodeAsRead_of_leafOf distinct.1 inline own notArray notObject read

end ReadMap

/-- A schema that is read from a value in which no object has a key twice is as it is read, at every
node. -/
theorem asRead_of_ofJson {value : Json} {schema : Schema} (distinct : value.DistinctKeys)
    (read : ofJson value = .ok schema) : schema.AsRead := by
  refine induction_of_ofJson (fun _ distinct _ => distinct.part) (fun _ => id) ?_ ?_ distinct read
  · intro allowed
    refine AsRead.intro ⟨?_, ?_, ?_, trivial, ?_⟩ ?_
    · rintro target ⟨⟩
    · rintro own ⟨⟩
    · rintro own ⟨⟩
    · rintro child ⟨⟩
    · rintro edge child ⟨⟩
  · intro members schema distinct read below
    have keys := (Json.distinctMap_iff_distinctKeys members).mpr distinct
    exact AsRead.intro (nodeAsRead_of_object keys read) below

/-! ## Nodes that are changed -/

section Changed

variable {schema : Schema} {metadata : Metadata}

theorem MetadataAsRead.congr (own : schema.MetadataAsRead metadata) {other : Schema}
    (keys : other.settledKeys = schema.settledKeys) (typed : other.isTyped = schema.isTyped)
    (required : other.required = schema.required) (format : other.format? = schema.format?) :
    other.MetadataAsRead metadata := by
  constructor
  · exact own.settled
  · exact keys ▸ own.keys
  · exact typed ▸ own.untyped
  · exact required ▸ own.required
  · exact format ▸ own.format
  · exact own.inline

/-- Other extensions are as good as those that were read. -/
theorem MetadataAsRead.withExtensions (own : schema.MetadataAsRead metadata)
    {extensions : Members Json}
    (each : ∀ member ∈ extensions, Metadata.isExtension member.1 = true) :
    schema.MetadataAsRead { metadata with extensions } := by
  rcases own with ⟨⟨_, plain, untaken, apart, last⟩, keys, untyped, required, format, inline⟩
  exact ⟨⟨each, plain, untaken, apart, last⟩, keys, untyped, required, format, inline⟩

theorem MetadataAsRead.bare (own : schema.MetadataAsRead metadata) (lifted : Bool) :
    schema.MetadataAsRead (metadata.bare lifted) := by
  cases lifted with
  | false => exact own
  | true =>
      apply own.withExtensions
      exact fun member present => own.settled.extensions member (List.mem_of_mem_filter present)

theorem MetadataAsRead.withDiscriminatorValue (own : schema.MetadataAsRead metadata)
    (value : Json) : schema.MetadataAsRead (metadata.withDiscriminatorValue value) := by
  have old : ∀ key ∈ Members.keys metadata.extensions, Metadata.isExtension key = true := by
    intro key present
    rcases mem_keys_iff.mp present with ⟨found, there⟩
    exact own.settled.extensions _ there
  have new : Metadata.isExtension discriminatorValueKey = true := by decide
  apply own.withExtensions
  rintro ⟨key, found⟩ present
  have known := mem_keys_of_mem present
  rw [keys_set] at known
  split at known
  · exact old key known
  · rcases List.mem_append.mp known with before | last
    · exact old key before
    · exact List.mem_singleton.mp last ▸ new

theorem NodeAsRead.bare (node : schema.NodeAsRead) (lifted : Bool) :
    (schema.bare lifted).NodeAsRead := by
  have metadata : ∀ own, (schema.bare lifted).metadata? = some own →
      (schema.bare lifted).MetadataAsRead own := by
    intro own found
    rw [metadata?_bare, Option.map_eq_some_iff] at found
    rcases found with ⟨old, there, rfl⟩
    have before := (node.metadata old there).bare lifted
    cases schema <;> exact before.congr rfl rfl rfl rfl
  rcases node with ⟨reference, _, discriminator, suits, undeclared⟩
  refine ⟨?_, metadata, ?_, ?_, by simpa using undeclared⟩
  · cases schema with
    | reference => exact reference
    | _ => rintro target ⟨⟩
  · cases schema <;> exact discriminator
  · cases lifted <;> cases schema <;> exact suits

theorem NodeAsRead.hoisted (node : schema.NodeAsRead) : schema.hoisted.NodeAsRead := by
  cases schema with
  | composed shape =>
      rcases node with ⟨_, metadata, discriminator, _, _⟩
      have own := metadata shape.metadata rfl
      constructor
      · rintro target ⟨⟩
      · rintro found ⟨⟩
        have lifted : (Schema.composed shape).MetadataAsRead shape.liftedMetadata := by
          rw [ComposedSchema.liftedMetadata]
          split
          · exact own.withDiscriminatorValue _
          · exact own
        exact lifted.congr rfl rfl rfl rfl
      · exact discriminator
      · trivial
      · intro child below
        rcases of_undeclared_mem_children below with ⟨_, differs, _⟩ | ⟨_, differs, _⟩ <;>
          cases differs
  | _ => exact node

theorem NodeAsRead.withChildren (node : schema.NodeAsRead) {below : Children}
    (edges : Members.keys below = Members.keys schema.children)
    (undeclared : ∀ child, (.undeclared, child) ∈ below → child.isBoolean = false) :
    (schema.withChildren below).NodeAsRead := by
  rcases node with ⟨reference, metadata, discriminator, suits, _⟩
  refine ⟨?_, ?_, ?_, ?_, by rwa [children_withChildren edges]⟩
  · cases schema with
    | reference => exact reference
    | _ => rintro target ⟨⟩
  · intro own found
    have before : schema.MetadataAsRead own := metadata own (by cases schema <;> exact found)
    cases schema <;> exact before.congr rfl rfl rfl rfl
  · cases schema <;> exact discriminator
  · cases schema with
    | array shape =>
        rcases shape with ⟨items, metadata⟩
        cases items with
        | none =>
            obtain rfl : below = [] := List.map_eq_nil_iff.mp edges
            exact suits
        | some item =>
            rcases Children.exists_singleton edges with ⟨other, rfl⟩
            exact Or.inr rfl
    | _ => exact suits

theorem AsRead.bare (asRead : schema.AsRead) (lifted : Bool) : (schema.bare lifted).AsRead := by
  rcases asRead with ⟨node, below⟩
  exact AsRead.intro (node.bare lifted) (by simpa using below)

theorem AsRead.hoisted (asRead : schema.AsRead) : schema.hoisted.AsRead := by
  rcases asRead with ⟨node, below⟩
  apply AsRead.intro node.hoisted
  intro edge child present
  rcases exists_bare_of_mem_children_hoisted present with ⟨original, lifted, inside, rfl⟩
  exact (below edge original inside).bare lifted

/-- No extension stands under the key of a reference. -/
theorem NodeAsRead.not_mem_extensions (node : schema.NodeAsRead) :
    "$ref" ∉ Members.keys schema.extensions := by
  intro present
  rw [extensions] at present
  cases found : schema.metadata? with
  | none => simp [found] at present
  | some metadata =>
      rw [found] at present
      rcases mem_keys_iff.mp present with ⟨value, there⟩
      have extension := (node.metadata metadata found).settled.extensions _ there
      exact absurd extension (show ¬Metadata.isExtension "$ref" = true by decide)

end Changed

end Schema

end SchemaLift
